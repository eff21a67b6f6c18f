import TagExchange.Properties.Marks
import TagExchange.Properties.Waiters

/-! Levels and tags are water-tight: what ends the wait of a receiver, and what it receives,
comes from its own level of its own service, although all threads share one wait queue.
-/

namespace TagExchange

open Concurrency Protocol

variable {τ : Type}

/-- The thread is in its `n`-th call, a receiver registered on a level of a service. -/
def State.Receives (st : State τ) (t : τ) (n : Nat) (s : Ref) (l : Int) : Prop :=
  (st.thread t).calls = n
  ∧ (st.thread t).frame.registered = some s
  ∧ ∃ f, (st.thread t).frame = .receive f ∧ f.ts = s ∧ f.level = l

/-- At some moment while it was registered, the receiver's level was `READY`. -/
def SawReady (h : History (State τ) (Event τ)) (t : τ) (n : Nat) (s : Ref) (l : Int) : Prop :=
  Once (fun _ st _ => st.Receives t n s l ∧ st.ready s l = true) h

/-- At some moment while it was registered, its level was `READY` or its service awake. -/
def SawMark (h : History (State τ) (Event τ)) (t : τ) (n : Nat) (s : Ref) (l : Int) : Prop :=
  Once (fun _ st _ => st.Receives t n s l ∧ (st.awake s = true ∨ st.ready s l = true)) h

/-- It has tested for a signal and found one pending. -/
def FoundSignal (h : History (State τ) (Event τ)) (t : τ) (n : Nat) (s : Ref) (l : Int) : Prop :=
  Once (fun _ st _ => st.Receives t n s l ∧ st.kernel.signalled t = true) h

/-- What each way out of the wait says about the past. -/
def Exit.Because (h : History (State τ) (Event τ)) (t : τ) (n : Nat) (s : Ref) (l : Int)
    : Exit → Prop
  | .signal => FoundSignal h t n s l
  | .awake => SawMark h t n s l
  | .message => SawReady h t n s l

/-- What the program point of a receiver says about the past. -/
def ReceivePc.Because (h : History (State τ) (Event τ)) (st : State τ) (t : τ) (n : Nat)
    (s : Ref) (l : Int)
    : ReceivePc → Prop
  | .finish | .rcuLock | .signal => SawMark h t n s l ∨ st.kernel.signalled t = true
  | .ready => SawMark h t n s l
  | .size | .copy => SawReady h t n s l
  | .rcuUnlock x | .decCount x | .decLevel x | .left x _ => x.Because h t n s l
  | .print => SawMark h t n s l
  | .ret r =>
      (r = 0 → SawReady h t n s l)
      ∧ (r = -EINTR → FoundSignal h t n s l ∨ SawMark h t n s l)
  | _ => True

/-- What a receiver knows about the past, and that it takes note only of signals it has got. -/
structure ReceiveFrame.Explained (h : History (State τ) (Event τ)) (st : State τ) (t : τ)
    (f : ReceiveFrame)
    : Prop where
  because : f.pc.Because h st t (st.thread t).calls f.ts f.level
  interrupted : f.interrupted = true → st.kernel.signalled t = true

variable {h : History (State τ) (Event τ)} {st st' : State τ} {e : Event τ} {t : τ} {n : Nat}
  {s : Ref} {l : Int}

theorem Exit.Because.cons {x : Exit} (because : x.Because h t n s l)
    : x.Because ((st, e) :: h) t n s l := by
  cases x <;> exact Once.cons because _ _

/-- What was true of the past stays true of it. -/
theorem ReceivePc.Because.cons {pc : ReceivePc} (because : pc.Because h st t n s l)
    (signalled : st.kernel.signalled t = true → st'.kernel.signalled t = true)
    : pc.Because ((st, e) :: h) st' t n s l := by
  cases pc
  case finish => exact because.imp (fun saw => Once.cons saw _ _) signalled
  case rcuLock => exact because.imp (fun saw => Once.cons saw _ _) signalled
  case signal => exact because.imp (fun saw => Once.cons saw _ _) signalled
  case ready => exact Once.cons because _ _
  case size => exact Once.cons because _ _
  case copy => exact Once.cons because _ _
  case rcuUnlock x => exact Exit.Because.cons because
  case decCount x => exact Exit.Because.cons because
  case decLevel x => exact Exit.Because.cons because
  case left x pc => exact Exit.Because.cons because
  case print => exact Once.cons because _ _
  case ret r =>
    exact ⟨fun zero => Once.cons (because.1 zero) _ _,
      fun eintr => (because.2 eintr).imp (fun saw => Once.cons saw _ _)
        fun saw => Once.cons saw _ _⟩
  all_goals trivial

/-- A step of a receiver explains where it leads, by cases on the move. -/
theorem explained_of_move {f f' : ReceiveFrame} {pc : ReceivePc} {frame : Frame}
    (explained : f.Explained h st t) (before : (st.thread t).frame = .receive f)
    (calls : (st'.thread t).calls = (st.thread t).calls)
    (signalled : st'.kernel.signalled t = st.kernel.signalled t) (here : f.pc = pc)
    (move : ReceiveMove st.kernel t f pc frame) (after : frame = .receive f')
    : f'.Explained ((st, e) :: h) st' t := by
  obtain ⟨because, interrupted⟩ := explained
  obtain ⟨tag, level, buffer, size, euid, ts, realSize, noted, copied, pc⟩ := f
  obtain rfl := here
  have kept : pc.Because ((st, e) :: h) st' t (st'.thread t).calls ts level :=
    calls ▸ because.cons fun found => signalled.trans found
  have pending : noted = true → st'.kernel.signalled t = true :=
    fun yes => signalled.trans (interrupted yes)
  -- What the receiver finds in this step it has seen at a moment of its call.
  have receives
      (registered
        : (Frame.receive ⟨tag, level, buffer, size, euid, ts, realSize, noted, copied, pc⟩).registered
          = some ts)
      : st.Receives t (st'.thread t).calls ts level :=
    ⟨calls.symm, by rw [before, registered], _, before, rfl, rfl⟩
  have stay {x : ReceiveFrame} (same : frame = .receive x) (ts' : x.ts = ts) (level' : x.level = level)
      (noted' : x.interrupted = noted)
      (because : x.pc.Because ((st, e) :: h) st' t (st'.thread t).calls ts level)
      : f'.Explained ((st, e) :: h) st' t := by
    obtain rfl : x = f' := Frame.receive.inj (same.symm.trans after)
    exact ⟨by rw [ts', level']; exact because, fun yes => pending (noted' ▸ yes)⟩
  cases move with
  | refuse =>
      exact stay rfl rfl rfl rfl ⟨fun zero => (by cases zero), fun eintr => (by cases eintr)⟩
  | missing =>
      exact stay rfl rfl rfl rfl ⟨fun zero => (by cases zero), fun eintr => (by cases eintr)⟩
  | deleted =>
      exact stay rfl rfl rfl rfl ⟨fun zero => (by cases zero), fun eintr => (by cases eintr)⟩
  | denied =>
      exact stay rfl rfl rfl rfl ⟨fun zero => (by cases zero), fun eintr => (by cases eintr)⟩
  | firstReady ready => exact stay rfl rfl rfl rfl (.inl (.here ⟨receives rfl, .inr ready⟩))
  | firstAwake awake => exact stay rfl rfl rfl rfl (.inl (.here ⟨receives rfl, .inl awake⟩))
  | testReady ready => exact stay rfl rfl rfl rfl (.inl (.here ⟨receives rfl, .inr ready⟩))
  | testAwake awake => exact stay rfl rfl rfl rfl (.inl (.here ⟨receives rfl, .inl awake⟩))
  | testInterrupted noted => exact stay rfl rfl rfl rfl (.inr (pending noted))
  | prepare =>
      obtain rfl := Frame.receive.inj after
      exact ⟨trivial, fun yes => signalled.trans yes⟩
  | finish => exact stay rfl rfl rfl rfl kept
  | rcuLock => exact stay rfl rfl rfl rfl kept
  | signal found => exact stay rfl rfl rfl rfl (.here ⟨receives rfl, found⟩)
  | noSignal none =>
      refine stay rfl rfl rfl rfl (kept.resolve_right fun found => ?_)
      simp [signalled, none] at found
  | ready ready => exact stay rfl rfl rfl rfl (.here ⟨receives rfl, ready⟩)
  | notReady _ => exact stay rfl rfl rfl rfl kept
  | size => exact stay rfl rfl rfl rfl kept
  | copy => exact stay rfl rfl rfl rfl kept
  | rcuUnlock => exact stay rfl rfl rfl rfl kept
  | decCount => exact stay rfl rfl rfl rfl kept
  | decLevel => exact stay rfl rfl rfl rfl kept
  | leaving => exact stay rfl rfl rfl rfl kept
  | leftAwake => exact stay rfl rfl rfl rfl kept
  | @left x _ other =>
      refine stay rfl rfl rfl rfl ⟨fun zero => ?_, fun eintr => ?_⟩
      · cases x with
        | message => exact kept
        | _ => cases zero
      · cases x with
        | signal => exact .inl kept
        | awake => exact absurd rfl other
        | message => cases eintr
  | print => exact stay rfl rfl rfl rfl ⟨fun zero => (by cases zero), fun _ => .inr kept⟩
  | leave => cases after
  | load =>
      obtain rfl := Frame.receive.inj after
      exact ⟨trivial, pending⟩
  | _ => exact stay rfl rfl rfl rfl trivial

variable [DecidableEq τ] {G : Guard (State τ) (Event τ)}

/-- What every receiver knows about the past is true, by cases on its turn in each step. -/
theorem explained_run (run : (machine τ).Run G h st)
    : ∀ {t f}, (st.thread t).frame = .receive f → f.Explained h st t := by
  refine run.invariant
    (P := fun h st => ∀ {t f}, (st.thread t).frame = .receive f → f.Explained h st t)
    (fun here => by cases here) ?_
  intro h st e st' before explained _ step t f' after
  have signalled := signalled_of_step step t
  cases receiveTurn_of_step step after with
  | rest other thread =>
      obtain ⟨because, interrupted⟩ := explained (thread ▸ after)
      have stays (pending : st.kernel.signalled t = true) : st'.kernel.signalled t = true := by
        rcases signalled with same | ⟨-, pending⟩ | ⟨⟨external, own⟩, -⟩
        · rw [same, pending]
        · exact pending
        · exact absurd own (other external)
      exact ⟨thread ▸ because.cons stays, fun yes => stays (interrupted yes)⟩
  | @enter euid c calls entered =>
      cases c <;> cases entered
      exact ⟨trivial, fun yes => by cases yes⟩
  | @move external f pc frame event here calls point move target =>
      refine explained_of_move (explained here) here calls ?_ point move target
      rcases signalled with same | ⟨own, -⟩ | ⟨-, idle⟩
      · exact same
      · cases event.symm.trans own
      · rw [after] at idle
        cases idle

-----------------------------------------------------------------------------------------
-- Other tags and levels
-----------------------------------------------------------------------------------------

/-- A step of a send on another tag or level, of a `tag_ctl` on another tag, or of one of
their callbacks.
-/
def State.Foreign (st : State τ) (tag level : Int) : Event τ → Prop
  | .run u _ =>
      match (st.thread u).frame with
      | .send g => g.tag ≠ tag ∨ g.level ≠ level
      | .ctl g => g.tag ≠ tag
      | _ => False
  | .softirq n =>
      match st.callback n with
      | some b => (st.kernel.service b.service).tag ≠ tag ∨ ∃ l ∈ b.job.levels, l ≠ level
      | none => False
  | _ => False

/-- All that a receiver reads of its level and of its service is as before. -/
structure SameLevel (st st' : State τ) (s : Ref) (l : Int) : Prop where
  ready : st'.ready s l = st.ready s l
  message : ((st'.kernel.service s).level l).message = ((st.kernel.service s).level l).message
  size : ((st'.kernel.service s).level l).size = ((st.kernel.service s).level l).size
  awake : st'.awake s = st.awake s

/-- The store changes nothing that a receiver of the level reads. -/
def Write.Avoids (l : Int) : Write → Prop
  | memcpy k _ _ | terminator k _ | size k _ | memset k | messageReady k _ => k ≠ l
  | awakeRequest _ => False
  | _ => True

theorem sameLevel_of_writes (step : st.step e = some st') (born : s < st.kernel.services)
    (kept : e.reuses ≠ some s) (avoids : ∀ {w}, st.writes e = some (s, w) → w.Avoids l)
    : SameLevel st st' s l := by
  have service := service_of_step step born kept
  cases writes : st.writes e with
  | none =>
      rw [writes] at service
      exact ⟨by rw [State.ready, service]; rfl, by rw [service], by rw [service],
        by rw [State.awake, service]; rfl⟩
  | some stored =>
      obtain ⟨r, w⟩ := stored
      rw [writes] at service
      dsimp only at service
      split at service
      · next same =>
          subst same
          have far := avoids writes
          have other : w.fills ≠ some l := fun fills => by
            cases w <;> cases fills <;> exact far rfl
          have message : ((w.apply (st.kernel.service s)).level l).message = _ ∧ _ :=
            Write.apply_message other
          refine ⟨?_, by rw [service, message.1], by rw [service, message.2], ?_⟩
          · rw [State.ready, service, Write.apply_ready]
            cases w with
            | messageReady k ready => exact if_neg (Ne.symm far)
            | _ => rfl
          · rw [State.awake, service, Write.apply_awake]
            cases w <;> first | rfl | cases far
      · exact ⟨by rw [State.ready, service]; rfl, by rw [service], by rw [service],
          by rw [State.awake, service]; rfl⟩

/-- A foreign step makes no store that a receiver of the level could read. -/
theorem avoids_of_foreign (run : (machine τ).Run Unheld h st) {tag : Int}
    (tagged : (st.kernel.service s).tag = tag) (foreign : st.Foreign tag l e) {w : Write}
    (writes : st.writes e = some (s, w))
    : w.Avoids l := by
  cases e with
  | run u external =>
      have rightful := rightful_run run u
      simp only [State.Foreign] at foreign
      simp only [State.writes] at writes
      cases here : (st.thread u).frame with
      | send g =>
          obtain ⟨tag', level, buffer, size, euid, realSize, stored, ts, pc⟩ := g
          rw [here] at foreign writes rightful
          have own {i} (loaded : Frame.loaded (.send _) = some (i, s)) : i = tag :=
            (rightful.tagged loaded).symm.trans tagged
          cases pc <;> cases writes
          all_goals exact foreign.resolve_left (not_not_intro (own rfl))
      | ctl g =>
          obtain ⟨tag', command, euid, ts, index, awakened, pc⟩ := g
          rw [here] at foreign writes rightful
          have own {i} (loaded : Frame.loaded (.ctl _) = some (i, s)) : i = tag :=
            (rightful.tagged loaded).symm.trans tagged
          cases pc <;> cases writes
          all_goals exact absurd (own rfl) foreign
      | _ => rw [here] at foreign; cases foreign
  | softirq n =>
      simp only [State.Foreign] at foreign
      simp only [State.writes] at writes
      split at foreign
      · next b found =>
          rw [found] at writes
          obtain ⟨job, r, stage, caller⟩ := b
          have own {l'} (job' : job = .freeAfterSend l') (same : r = s) : l' ≠ l := by
            subst job' same
            obtain ⟨k, member, other⟩ := foreign.resolve_left (not_not_intro tagged)
            obtain rfl := List.mem_singleton.mp member
            exact other
          cases job <;> cases stage <;> cases writes
          · exact own rfl rfl
          · exact own rfl rfl
          · obtain ⟨k, member, -⟩ := foreign.resolve_left (not_not_intro tagged)
            cases member
      · cases foreign
  | _ => cases foreign

-----------------------------------------------------------------------------------------
-- The law
-----------------------------------------------------------------------------------------

/-- The value that a receiver is about to return. -/
def Frame.returning : Frame → Option Int
  | receive f =>
      match f.pc with
      | .ret r => some r
      | _ => none
  | _ => none

theorem Frame.eq_receive_of_returning {frame : Frame} {r : Int}
    (returning : frame.returning = some r)
    : ∃ f, frame = .receive f ∧ f.pc = .ret r := by
  cases frame with
  | receive f =>
      obtain ⟨tag, level, buffer, size, euid, ts, realSize, interrupted, copied, pc⟩ := f
      cases pc <;> cases returning
      exact ⟨_, rfl, rfl⟩
  | _ => cases returning

/-- Runs whose message copies stay in bounds, and in which a freed service still reads as
last written.
-/
def CopiesWithin : Guard (State τ) (Event τ) :=
  fun _ st e => NoReuse e ∧ st.CopiesInside e

instance (h : History (State τ) (Event τ)) (st : State τ) (e : Event τ)
    : Decidable (CopiesWithin h st e) :=
  inferInstanceAs (Decidable (_ ∧ _))

/-- A send addressed to the level of the service, with its permission checked, makes it
`READY`.
-/
def PermittedPost (s : Ref) (l : Int) : Guard (State τ) (Event τ) :=
  fun _ st e =>
    ∃ c g, st.Posts s l c g e ∧ (st.kernel.service s).denies g.euid = false

/-- An `AWAKE_ALL` on the service, with its permission checked, sets `awake_request`. -/
def PermittedRequest (s : Ref) : Guard (State τ) (Event τ) :=
  fun _ st e =>
    ∃ c g,
      st.Requests s c g e
      ∧ g.command = AWAKE_ALL
      ∧ (st.kernel.service s).denies g.euid = false

/-- The level is `READY`, and has been since a permitted send made it so. -/
def ReadyByPermittedSend (s : Ref) (l : Int) : Guard (State τ) (Event τ) :=
  fun past st _ =>
    st.ready s l = true ∧ Since (fun _ st _ => st.ready s l = true) (PermittedPost s l) past

/-- `awake_request` is set, and has been since a permitted `AWAKE_ALL` set it. -/
def AwakeByPermittedRequest (s : Ref) : Guard (State τ) (Event τ) :=
  fun past st _ =>
    st.awake s = true ∧ Since (fun _ st _ => st.awake s = true) (PermittedRequest s) past

theorem CopiesWithin.unheld (run : (machine τ).Run CopiesWithin h st)
    : (machine τ).Run Unheld h st :=
  run.mono fun _ _ e ok => by cases e <;> first | trivial | exact ok.1.elim

theorem readyByPermittedSend (run : (machine τ).Run Unheld h st) (receives : st.Receives t n s l)
    (ready : st.ready s l = true)
    : ReadyByPermittedSend s l h st e := by
  have held := registered_mem_pointers receives.2.1
  refine ⟨ready, ?_⟩
  refine Since.strengthen run (fun before _ posts => ?_)
    (ready_posted run (intact_of_held run held) (pointers_born run t s held) ready)
  obtain ⟨c, g, posts⟩ := posts
  refine ⟨c, g, posts, (rightful_run before c.1).granted ?_⟩
  rw [posts.thread]
  simp only [Frame.granted, posts.pc, posts.service]

theorem awakeByPermittedRequest (run : (machine τ).Run Unheld h st)
    (receives : st.Receives t n s l) (awake : st.awake s = true)
    : AwakeByPermittedRequest s h st e := by
  have held := registered_mem_pointers receives.2.1
  refine ⟨awake, ?_⟩
  refine Since.strengthen run (fun before _ requests => ?_)
    (awake_requested run (intact_of_held run held) (pointers_born run t s held) awake)
  obtain ⟨c, g, requests⟩ := requests
  have rightful := rightful_run before c.1
  rw [requests.thread] at rightful
  refine ⟨c, g, requests, rightful.command rfl (by rw [requests.pc]; rfl), rightful.granted ?_⟩
  simp only [Frame.granted, requests.pc, requests.service]

omit [DecidableEq τ] in
/-- A step of the thread itself, a signal and the reuse of memory are not foreign. -/
theorem State.Foreign.own {f : ReceiveFrame} (here : (st.thread t).frame = .receive f) {tag : Int}
    (foreign : st.Foreign tag l e)
    : (∀ external, e ≠ .run t external) ∧ (∀ u euid c, e ≠ .call u euid c)
      ∧ (∀ u, e ≠ .signal u) ∧ e.reuses = none := by
  cases e with
  | run u external =>
      refine ⟨fun _ same => ?_, fun _ _ _ same => (by cases same), fun _ same => (by cases same), rfl⟩
      cases same
      simp only [State.Foreign, here] at foreign
  | softirq n =>
      exact ⟨fun _ same => (by cases same), fun _ _ _ same => (by cases same),
        fun _ same => (by cases same), rfl⟩
  | _ => cases foreign

/-- A foreign step leaves a receiver where it is, and what it reads as it is. -/
theorem unmoved_of_foreign (run : (machine τ).Run Unheld h st) {f : ReceiveFrame}
    (here : (st.thread t).frame = .receive f) (registered : (Frame.receive f).registered = some f.ts)
    (step : st.step e = some st') (foreign : st.Foreign f.tag f.level e)
    : st'.thread t = st.thread t
      ∧ st'.kernel.signalled t = st.kernel.signalled t
      ∧ SameLevel st st' f.ts f.level := by
  obtain ⟨notRun, notCall, notSignal, kept⟩ := foreign.own here
  have tagged : (st.kernel.service f.ts).tag = f.tag := by
    refine (rightful_run run t).tagged ?_
    rw [here]
    obtain ⟨tag, level, buffer, size, euid, ts, realSize, interrupted, copied, pc⟩ := f
    cases pc <;> first | rfl | cases registered
  have born : f.ts < st.kernel.services :=
    pointers_born run t f.ts (registered_mem_pointers (by rw [here, registered]))
  refine ⟨?_, ?_, sameLevel_of_writes step born (by simp [kept])
    fun writes => avoids_of_foreign run tagged foreign writes⟩
  · cases turn_of_step step t with
    | rest _ thread => exact thread
    | enter event => exact absurd event (notCall _ _ _)
    | go event => exact absurd event (notRun _)
  · rcases signalled_of_step step t with same | ⟨event, -⟩ | ⟨⟨external, event⟩, -⟩
    · exact same
    · exact absurd event (notSignal _)
    · exact absurd event (notRun _)

/-- A receiver returns 0 only if its level was `READY` by a permitted send while it was
registered; it returns `-EINTR` without a signal only if its level was `READY`, or its
service awake, by a permitted call while it was registered; and no step of a call on another
tag or level moves it or changes what it reads.
-/
theorem watertight (run : (machine τ).Run CopiesWithin h st) {f : ReceiveFrame}
    (here : (st.thread t).frame = .receive f)
    : (f.pc = .ret 0
        → Once
            (fun past st₁ e₁ =>
              st₁.Receives t (st.thread t).calls f.ts f.level
              ∧ ReadyByPermittedSend f.ts f.level past st₁ e₁)
            h)
      ∧ (f.pc = .ret (-EINTR)
          → FoundSignal h t (st.thread t).calls f.ts f.level
            ∨ Once
                (fun past st₁ e₁ =>
                  st₁.Receives t (st.thread t).calls f.ts f.level
                  ∧ (AwakeByPermittedRequest f.ts past st₁ e₁
                    ∨ ReadyByPermittedSend f.ts f.level past st₁ e₁))
                h)
      ∧ ∀ e st',
          st.step e = some st'
          → st.Foreign f.tag f.level e
          → (Frame.receive f).registered = some f.ts
          → st'.thread t = st.thread t
            ∧ st'.kernel.signalled t = st.kernel.signalled t
            ∧ SameLevel st st' f.ts f.level := by
  have run := CopiesWithin.unheld run
  obtain ⟨because, -⟩ := explained_run run here
  refine ⟨fun zero => ?_, fun eintr => ?_, fun e st' step foreign registered => ?_⟩
  · rw [zero] at because
    refine Once.strengthen run (fun before _ saw => ?_) (because.1 rfl)
    exact ⟨saw.1, readyByPermittedSend before saw.1 saw.2⟩
  · rw [eintr] at because
    refine (because.2 rfl).imp_right fun saw => Once.strengthen run (fun before _ saw => ?_) saw
    exact ⟨saw.1, saw.2.imp (awakeByPermittedRequest before saw.1)
      (readyByPermittedSend before saw.1)⟩
  · exact unmoved_of_foreign run here registered step foreign

/-- A receiver that has been woken and is about to return a message. -/
theorem watertight_of_delivery
    : ∃ h st f,
        (machine (Fin 2)).Run CopiesWithin h st
        ∧ ((st.thread 1).frame = .receive f ∧ f.pc = .ret 0)
        ∧ Once
            (fun past st₁ e₁ =>
              st₁.Receives 1 (st.thread 1).calls f.ts f.level
              ∧ ReadyByPermittedSend f.ts f.level past st₁ e₁)
            h := by
  obtain ⟨h, st, run, facts⟩ := Machine.Run.exists_of_replay
    (M := machine (Fin 2)) (G := CopiesWithin)
    (creating 0 1 ++ fallingAsleep 1 1 0 ++ sending 0 1 0 [104, 105] 16 ++ runs 1 21)
    (fun _ st => (st.thread 1).frame.returning == some 0)
    (by decide +kernel)
  obtain ⟨f, here, pc⟩ := Frame.eq_receive_of_returning (eq_of_beq facts)
  exact ⟨h, st, f, run, ⟨here, pc⟩, (watertight run here).1 pc⟩

end TagExchange
