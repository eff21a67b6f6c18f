import TagExchange.Properties.Counters
import TagExchange.Properties.Watertight

/-! Which calls a message is delivered to: those that the level had counted when the send made
it `READY`, and no call twice.
-/

namespace TagExchange

open Concurrency Protocol

variable {τ : Type}

-----------------------------------------------------------------------------------------
-- Deliveries
-----------------------------------------------------------------------------------------

/-- The call `c` makes the level `READY`. -/
def Posted (s : Ref) (l : Int) (c : CallId τ) : Guard (State τ) (Event τ) :=
  fun _ st e => ∃ g, st.Posts s l c g e

/-- No call makes the level `READY`. -/
def NoPost (s : Ref) (l : Int) : Guard (State τ) (Event τ) :=
  fun _ st e => ∀ c g, ¬ st.Posts s l c g e

/-- The call copies the message of a level to its user. -/
def Copies (s : Ref) (l : Int) (r : CallId τ) : Guard (State τ) (Event τ) :=
  fun _ st e =>
    (∃ external, e = .run r.1 external)
    ∧ (st.thread r.1).calls = r.2
    ∧ ∃ f, (st.thread r.1).frame = .receive f ∧ f.pc = .copy ∧ f.ts = s ∧ f.level = l

/-- The message of the send `c` is delivered to the call `r`: it copies from the level that
this send was the last to make `READY`.
-/
def Delivers (h : History (State τ) (Event τ)) (c r : CallId τ) (s : Ref) (l : Int) : Prop :=
  Once (fun past st e => Copies s l r past st e ∧ Since (NoPost s l) (Posted s l c) past) h

/-- The call has already been counted by the level. -/
def CountedBy (s : Ref) (l : Int) (r : CallId τ) : Guard (State τ) (Event τ) :=
  fun _ st _ =>
    (st.thread r.1).calls = r.2 ∧ (st.thread r.1).frame.levelRegistered = some (s, l)

/-- The thread enters the call. -/
def Enters (r : CallId τ) : Guard (State τ) (Event τ) :=
  fun _ st e => (∃ euid c, e = .call r.1 euid c) ∧ (st.thread r.1).calls + 1 = r.2

/-- The call is over. -/
def State.Returned (st : State τ) (c : CallId τ) : Prop :=
  c.2 < (st.thread c.1).calls
  ∨ ((st.thread c.1).calls = c.2 ∧ (st.thread c.1).frame.idle = true)

variable [DecidableEq τ]

/-- A receiver is counted by its level only while the level is `NOT_READY`. -/
def State.EntersUnposted (st : State τ) (e : Event τ) : Prop :=
  match st.writes e with
  | some (s, .incLevel l) => st.ready s l = false
  | _ => True

instance (st : State τ) (e : Event τ) : Decidable (st.EntersUnposted e) := by
  unfold State.EntersUnposted
  split <;> infer_instance

/-- The runs in which no receiver is counted by a level that is `READY`. -/
def InTime : Guard (State τ) (Event τ) :=
  fun _ st e => ReuseUnheld st e ∧ st.EntersUnposted e

variable {h : History (State τ) (Event τ)} {st st' : State τ} {e : Event τ} {t : τ} {s : Ref}
  {l : Int} {c r : CallId τ}

theorem InTime.unheld (run : (machine τ).Run InTime h st) : (machine τ).Run Unheld h st :=
  run.mono fun _ _ _ ok => ok.1

-----------------------------------------------------------------------------------------
-- Who has been counted
-----------------------------------------------------------------------------------------

/-- The last send to the level has found the call counted. -/
def Attended (h : History (State τ) (Event τ)) (s : Ref) (l : Int) (r : CallId τ) : Prop :=
  Since (NoPost s l) (fun past st e => (∃ c, Posted s l c past st e) ∧ CountedBy s l r past st e) h

/-- A step that leaves a receiver registered either is a send to its level, or keeps the last
one.
-/
theorem attended_of_step (step : st.step e = some st') (kept : e.reuses ≠ some s)
    (born : s < st'.kernel.services) (counted : CountedBy s l r h st e)
    (old
      : (∀ c g, ¬ st.Posts s l c g e)
        → (st'.ready s l = true → st.ready s l = true)
        → Attended h s l r)
    : Attended ((st, e) :: h) s l r := by
  by_cases post : ∃ c g, st.Posts s l c g e
  · obtain ⟨c, g, posts⟩ := post
    exact .here ⟨⟨c, g, posts⟩, counted⟩
  · have silent c g (posts : st.Posts s l c g e) : False := post ⟨c, g, posts⟩
    refine .later (old silent fun now => ?_) silent
    rcases ready_of_step step kept born now with ⟨already, -⟩ | writes
    · exact already
    · exact absurd (posts_of_writes writes) post

/-- A registered receiver that finds its level `READY`, or has found it so, was counted when
the last send made it `READY`, by cases on its moves.
-/
theorem attended_run (run : (machine τ).Run InTime h st)
    : ∀ {t f},
        (st.thread t).frame = .receive f
        → (st.thread t).frame.levelRegistered = some (f.ts, f.level)
        → st.ready f.ts f.level = true ∨ f.pc = .size ∨ f.pc = .copy
        → Attended h f.ts f.level (t, (st.thread t).calls) := by
  refine run.invariant
    (P := fun h st => ∀ {t f},
      (st.thread t).frame = .receive f
      → (st.thread t).frame.levelRegistered = some (f.ts, f.level)
      → st.ready f.ts f.level = true ∨ f.pc = .size ∨ f.pc = .copy
      → Attended h f.ts f.level (t, (st.thread t).calls))
    (fun here => by cases here) ?_
  intro h st e st' before attended ok step t f' after registered marked
  have step : st.step e = some st' := step
  have held : f'.ts ∈ (st'.thread t).frame.pointers := levelRegistered_mem_pointers registered
  have unheld := (InTime.unheld before).next (G := Unheld) ok.1 step
  have kept : e.reuses ≠ some f'.ts := intact_of_held unheld held _ (List.mem_cons_self ..)
  have born := pointers_born unheld t _ held
  cases receiveTurn_of_step step after with
  | rest other thread =>
      rw [thread] at after registered ⊢
      refine attended_of_step step kept born ⟨rfl, registered⟩ fun _ back => ?_
      exact attended after registered (marked.imp_left back)
  | enter calls entered =>
      rename_i euid c
      cases c <;> cases entered
      rw [after] at registered
      cases registered
  | @move external f pc frame event here calls point move target =>
      subst event
      obtain ⟨tag, level, buffer, size, euid, ts, realSize, interrupted, copied, pc⟩ := f
      obtain rfl := point
      rw [after] at registered
      -- Once counted, the receiver stays so; what it has found now stands since the last send.
      have stay (ts' : f'.ts = ts) (level' : f'.level = level)
          (counted
            : (Frame.receive ⟨tag, level, buffer, size, euid, ts, realSize, interrupted, copied,
                pc⟩).levelRegistered = some (ts, level))
          (found
            : f'.pc = .size ∨ f'.pc = .copy
              → st.ready ts level = true ∨ pc = .size ∨ pc = .copy)
          : Attended ((st, .run t external) :: h) f'.ts f'.level (t, (st'.thread t).calls) := by
        rw [ts'] at kept born marked ⊢
        rw [level'] at marked ⊢
        rw [calls]
        refine attended_of_step step kept born ⟨rfl, by rw [here, counted]⟩ fun _ back => ?_
        exact attended here (by rw [here, counted]) (marked.elim (fun now => .inl (back now)) found)
      cases move with
      | incLevel =>
          obtain rfl := Frame.receive.inj target
          have writes : st.writes (.run t external) = some (ts, .incLevel level) := by
            simp only [State.writes, here]
            rfl
          have unposted := ok.2
          simp only [State.EntersUnposted, writes] at unposted
          rcases marked with now | now | now
          · rcases ready_of_step step kept born now with ⟨already, -⟩ | post
            · exact absurd (already.symm.trans unposted) (by decide)
            · cases writes.symm.trans post
          · cases now
          · cases now
      | ready found =>
          obtain rfl := Frame.receive.inj target
          exact stay rfl rfl rfl fun _ => .inl found
      | size =>
          obtain rfl := Frame.receive.inj target
          exact stay rfl rfl rfl fun _ => .inr (.inl rfl)
      | leave => cases target
      | _ =>
          obtain rfl := Frame.receive.inj target
          first
          | cases registered; done
          | exact stay rfl rfl rfl fun now => by rcases now with now | now <;> cases now

-----------------------------------------------------------------------------------------
-- What a call has received
-----------------------------------------------------------------------------------------

/-- A receiver that has copied a message, or is about to return 0. -/
def ReceivePc.received : ReceivePc → Bool
  | .rcuUnlock x | .decCount x | .decLevel x | .left x _ => x == .message
  | .ret r => r == 0
  | _ => false

/-- A receiver that has received a message has copied it in this call, by cases on its moves. -/
theorem copied_run {G : Guard (State τ) (Event τ)} (run : (machine τ).Run G h st)
    : ∀ {t f},
        (st.thread t).frame = .receive f
        → f.pc.received = true
        → Once (Copies f.ts f.level (t, (st.thread t).calls)) h := by
  refine run.invariant
    (P := fun h st => ∀ {t f},
      (st.thread t).frame = .receive f
      → f.pc.received = true
      → Once (Copies f.ts f.level (t, (st.thread t).calls)) h)
    (fun here => by cases here) ?_
  intro h st e st' before copied _ step t f' after received
  have step : st.step e = some st' := step
  cases receiveTurn_of_step step after with
  | rest other thread =>
      rw [thread] at after ⊢
      exact Once.cons (copied after received) _ _
  | enter calls entered =>
      rename_i euid c
      cases c <;> cases entered
      cases received
  | @move external f pc frame event here calls point move target =>
      subst event
      obtain ⟨tag, level, buffer, size, euid, ts, realSize, interrupted, bytes, pc⟩ := f
      obtain rfl := point
      rw [calls]
      cases move with
      | copy =>
          obtain rfl := Frame.receive.inj target
          exact .here ⟨⟨external, rfl⟩, rfl, _, here, rfl, rfl, rfl⟩
      | @left x pc other =>
          obtain rfl := Frame.receive.inj target
          cases x with
          | message => exact Once.cons (copied here rfl) _ _
          | signal => cases received
          | awake => cases received
      | leave => cases target
      | _ =>
          obtain rfl := Frame.receive.inj target
          first
          | exact Once.cons (copied here received) _ _
          | cases received

-----------------------------------------------------------------------------------------
-- Sends are made once
-----------------------------------------------------------------------------------------

/-- The send has still to make its level `READY`. -/
def Frame.unposted : Frame → Bool
  | send f =>
      match f.pc with
      | .entry | .getPage | .copyFromUser | .load | .lock | .lazyDeleted | .permission | .memcpy
      | .terminator | .size | .ready => true
      | _ => false
  | _ => false

omit [DecidableEq τ] in
/-- A send that is behind its post stays there, by cases on the move. -/
theorem posted_of_exec [DecidableEq τ] {k k' : Kernel τ} {external : Nat} {before after : Frame}
    (posted : before.unposted = false) (exec : k.exec external (before.op c) = some (k', after))
    : after.unposted = false := by
  cases before with
  | user last => cases exec
  | send f =>
      have move := sendMove_of_exec exec
      obtain ⟨tag, level, buffer, size, euid, realSize, stored, ts, pc⟩ := f
      change SendMove k _ pc after at move
      cases move <;> first | rfl | cases posted
  | _ =>
      have same := Kernel.exec_sameCall exec
      cases after <;> first | rfl | cases same

/-- A call that has made its post does not come back to it, by induction on the run. -/
theorem posted_run {G : Guard (State τ) (Event τ)} (run : (machine τ).Run G h st)
    (posted : Once (Posted s l c) h) (calls : (st.thread c.1).calls = c.2)
    : (st.thread c.1).frame.unposted = false := by
  induction run with
  | start => exact absurd posted not_once_nil
  | @next h st e st' before ok step ih =>
      have step : st.step e = some st' := step
      cases turn_of_step step c.1 with
      | rest other thread =>
          rw [thread] at calls ⊢
          cases posted with
          | here now =>
              obtain ⟨g, posts⟩ := now
              obtain ⟨external, event⟩ := posts.event
              exact absurd event (other external)
          | later earlier => exact ih earlier calls
      | enter event idle thread =>
          rw [thread] at calls
          cases posted with
          | here now =>
              obtain ⟨g, posts⟩ := now
              obtain ⟨external, run⟩ := posts.event
              cases event.symm.trans run
          | later earlier =>
              obtain ⟨m, st₁, e₁, found, g, posts⟩ := Once.moment earlier
              have bound := calls_le_of_mem (t := c.1) before (List.mem_of_getElem? found)
              rw [posts.thread] at bound
              exact absurd (calls.symm ▸ bound) (Nat.not_succ_le_self _)
      | @go external frame event exec thread =>
          rw [thread] at calls ⊢
          cases posted with
          | here now =>
              obtain ⟨g, posts⟩ := now
              rw [State.op, posts.thread] at exec
              have move := sendMove_of_exec exec
              obtain ⟨tag, level, buffer, size, euid, realSize, stored, ts, pc⟩ := g
              obtain rfl : pc = .ready := posts.pc
              change SendMove st.kernel _ .ready frame at move
              cases move
              rfl
          | later earlier => exact posted_of_exec (ih earlier calls) exec

/-- A call posts once: two moments at which it does so are the same. -/
theorem Once.post_unique {G Q Q' : Guard (State τ) (Event τ)} (run : (machine τ).Run G h st)
    {s' : Ref} {l' : Int} (post : Once (fun past st e => Posted s l c past st e ∧ Q past st e) h)
    (post' : Once (fun past st e => Posted s' l' c past st e ∧ Q' past st e) h)
    : Once (fun past st e => Q past st e ∧ Q' past st e) h := by
  have clash {h : History (State τ) (Event τ)} {st : State τ} {e : Event τ} {s s' : Ref} {l l' : Int}
      (run : (machine τ).Run G h st) (now : Posted s l c h st e) (earlier : Once (Posted s' l' c) h)
      : False := by
    obtain ⟨g, posts⟩ := now
    have behind := posted_run run earlier (by rw [posts.thread])
    rw [posts.thread] at behind
    simp [Frame.unposted, posts.pc] at behind
  induction run with
  | start => exact absurd post not_once_nil
  | @next h st e st' before ok step ih =>
      cases post with
      | here now =>
          cases post' with
          | here now' => exact .here ⟨now.2, now'.2⟩
          | later earlier' =>
              exact (clash before now.1 (Once.mono (fun _ _ _ both => both.1) earlier')).elim
      | later earlier =>
          cases post' with
          | here now' => exact (clash before now'.1 (Once.mono (fun _ _ _ both => both.1) earlier)).elim
          | later earlier' => exact Once.cons (ih earlier earlier') _ _

/-- A call that is over stays over. -/
theorem State.Returned.step (returned : st.Returned c) (step : st.step e = some st')
    : st'.Returned c := by
  cases turn_of_step step c.1 with
  | rest other thread => simpa only [State.Returned, thread] using returned
  | enter event idle thread =>
      refine .inl ?_
      rw [thread]
      rcases returned with over_ | ⟨same, -⟩
      · exact Nat.lt_succ_of_lt over_
      · exact same ▸ Nat.lt_succ_self _
  | go event exec thread =>
      rcases returned with over_ | ⟨-, idle⟩
      · refine .inl ?_
        rw [thread]
        exact over_
      · obtain ⟨last, user⟩ := Frame.eq_user_of_idle idle
        rw [State.op, user] at exec
        cases exec

theorem returned_run {G : Guard (State τ) (Event τ)} (run : (machine τ).Run G h st)
    (returned : Once (fun _ st _ => st.Returned c) h)
    : st.Returned c := by
  induction run with
  | start => exact absurd returned not_once_nil
  | next before ok step ih =>
      cases returned with
      | here now => exact now.step step
      | later earlier => exact (ih earlier).step step

-----------------------------------------------------------------------------------------
-- The law
-----------------------------------------------------------------------------------------

/-- At most once, and to nobody who came late. -/
structure DeliversInTime (h : History (State τ) (Event τ)) (st : State τ) : Prop where
  /-- What a call returns was delivered to it by a send on its level. -/
  received
    : ∀ t f,
        (st.thread t).frame = .receive f
        → f.pc = .ret 0
        → ∃ c, Delivers h c (t, (st.thread t).calls) f.ts f.level
  /-- The level had counted the call when the send made it `READY`. -/
  counted
    : ∀ c r s l,
        Delivers h c r s l
        → Once (fun past st e => Posted s l c past st e ∧ CountedBy s l r past st e) h
  /-- The call has not been entered after the send returned. -/
  lateComer
    : ∀ c r s l,
        Delivers h c r s l → ¬ Once (fun past st e => Enters r past st e ∧ st.Returned c) h
  /-- No thread receives the same send in two calls. -/
  once
    : ∀ c t n n' s s' l l',
        Delivers h c (t, n) s l → Delivers h c (t, n') s' l' → n = n'

/-- The call that a message is delivered to was counted when the message was sent. -/
theorem counted_of_delivers (run : (machine τ).Run InTime h st) (delivers : Delivers h c r s l)
    : Once (fun past st e => Posted s l c past st e ∧ CountedBy s l r past st e) h := by
  have attended
      : Once (fun past _ _ =>
          Once (fun past st e => Posted s l c past st e ∧ CountedBy s l r past st e) past) h := by
    refine Once.strengthen run (fun {past st e} before _ now => ?_) delivers
    obtain ⟨⟨event, calls, f, here, pc, rfl, rfl⟩, sent⟩ := now
    obtain ⟨tag, level, buffer, size, euid, ts, realSize, interrupted, copied, pc⟩ := f
    subst pc
    have attended := attended_run before here (by rw [here]; rfl) (.inr (.inr rfl))
    rw [calls] at attended
    have both := Since.both (fun _ _ _ none post => post.elim fun g posts => none c g posts)
      (fun _ _ _ none post => post.1.elim fun c posted => posted.elim fun g posts => none c g posts)
      sent attended
    exact Once.mono (fun _ _ _ now => ⟨now.1, now.2.2⟩) both.once
  exact attended.join

/-- A call that was counted before a send had not been entered after its return. -/
theorem not_late {G : Guard (State τ) (Event τ)} (run : (machine τ).Run G h st)
    (counted : Once (fun past st e => Posted s l c past st e ∧ CountedBy s l r past st e) h)
    (entered : Once (fun past st e => Enters r past st e ∧ st.Returned c) h)
    : False := by
  induction run with
  | start => exact not_once_nil counted
  | @next h st e st' before ok step ih =>
      cases counted with
      | here now =>
          obtain ⟨⟨g, posts⟩, -⟩ := now
          cases entered with
          | here now' =>
              obtain ⟨external, run⟩ := posts.event
              obtain ⟨euid, c', call⟩ := now'.1.1
              cases run.symm.trans call
          | later earlier' =>
              have returned :=
                returned_run before (Once.mono (fun _ _ _ both => both.2) earlier')
              simp [State.Returned, posts.thread, Frame.idle] at returned
      | later earlier =>
          cases entered with
          | here now' =>
              obtain ⟨m, st₁, e₁, found, -, calls, -⟩ := Once.moment earlier
              have bound := calls_le_of_mem (t := r.1) before (List.mem_of_getElem? found)
              rw [calls, ← now'.1.2] at bound
              exact Nat.not_succ_le_self _ bound
          | later earlier' => exact ih earlier earlier'

/-- The same condition, for memory that is never given out again. -/
def Punctual : Guard (State τ) (Event τ) :=
  fun _ st e => NoReuse e ∧ st.EntersUnposted e

instance (h : History (State τ) (Event τ)) (st : State τ) (e : Event τ)
    : Decidable (Punctual h st e) :=
  inferInstanceAs (Decidable (_ ∧ _))

theorem Punctual.inTime (run : (machine τ).Run Punctual h st) : (machine τ).Run InTime h st :=
  run.mono fun _ _ e ok => ⟨by cases e <;> first | exact ok.1.elim | trivial, ok.2⟩

end TagExchange
