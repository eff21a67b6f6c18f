import TagExchange.Properties.Deliveries

/-! What a receiver copies: the bytes of one send, as long as no callback takes back a message
that somebody is reading.
-/

namespace TagExchange

open Concurrency Protocol

variable {τ : Type}

-----------------------------------------------------------------------------------------
-- What a send has stored
-----------------------------------------------------------------------------------------

/-- The level of the service holds the bytes that a send has copied from its user. -/
structure State.Carries (st : State τ) (s : Ref) (l : Int) (g : SendFrame) : Prop where
  tag : (st.kernel.service s).tag = g.tag
  bytes : ∀ i < g.stored, ((st.kernel.service s).level l).message i = g.byte i
  size : ((st.kernel.service s).level l).size = g.stored

variable [DecidableEq τ] {h : History (State τ) (Event τ)} {st st' : State τ} {e : Event τ} {t : τ}
  {s : Ref} {l : Int}

omit [DecidableEq τ] in
/-- The owner of a store into a message or its size: a send that holds the mutex of the
service, or a callback that works on it. In both cases the level is `NOT_READY`.
-/
theorem filler_of_writes (x : Safe st.kernel.core st.view) {w : Write}
    (writes : st.writes e = some (s, w)) (fills : w.fills = some l)
    : st.ready s l = false
      ∧ ((∃ u i, (∃ external, e = .run u external) ∧ (st.view u).lock = some i
            ∧ (st.view u).service = some s)
        ∨ ∃ b ∈ st.kernel.rcu.among Callback.owes, b.service = s) := by
  rcases writes_cases writes with ⟨u, external, rfl, written⟩ | ⟨n, b, rfl, found, written⟩
  · have fact := x.fact u
    cases here : (st.thread u).frame with
    | send g =>
        obtain ⟨tag, level, buffer, size, euid, realSize, stored, ts, pc⟩ := g
        simp only [State.view, here, Frame.view] at fact
        rw [here] at written
        have owner {v : View} (view : (SendFrame.view ⟨tag, level, buffer, size, euid, realSize,
            stored, ts, pc⟩) = v)
            : st.view u = v := by
          simp only [State.view, here, Frame.view, view]
        cases pc <;> cases written <;> cases fills
        · have view := owner rfl
          refine ⟨?_, .inl ⟨u, tag, ⟨external, rfl⟩, by rw [view]; rfl, by rw [view]; rfl⟩⟩
          refine x.not_ready (t := u) (by rw [view]; rfl) (by rw [view]; rfl) fact level ?_
          exact fun posts => by rw [view] at posts; cases posts
        · have view := owner rfl
          exact ⟨fact.2, .inl ⟨u, tag, ⟨external, rfl⟩, by rw [view]; rfl, by rw [view]; rfl⟩⟩
        · have view := owner rfl
          exact ⟨fact.2, .inl ⟨u, tag, ⟨external, rfl⟩, by rw [view]; rfl, by rw [view]; rfl⟩⟩
        · have view := owner rfl
          exact ⟨fact.2, .inl ⟨u, tag, ⟨external, rfl⟩, by rw [view]; rfl, by rw [view]; rfl⟩⟩
    | receive f =>
        obtain ⟨tag, level, buffer, size, euid, ts, realSize, interrupted, copied, pc⟩ := f
        rw [here] at written
        cases pc <;> cases written <;> cases fills
    | ctl f =>
        obtain ⟨tag, command, euid, ts, index, awakened, pc⟩ := f
        rw [here] at written
        cases pc <;> cases written <;> cases fills
    | _ => rw [here] at written; cases written
  · have member := List.mem_of_getElem? (st.kernel.rcu.callbacks_of_ready? found)
    obtain ⟨job, r, stage, caller⟩ := b
    cases job <;> cases stage <;> cases written <;> cases fills
    have pending : _ ∈ st.kernel.rcu.among Callback.owes := Rcu.mem_among.mpr ⟨member, rfl⟩
    have fact := x.callback _ pending
    refine ⟨?_, .inr ⟨_, pending, rfl⟩⟩
    exact Bool.eq_false_iff.mpr fun ready => by cases (fact.ready rfl).mp ready

omit [DecidableEq τ] in
/-- A `READY` level is not written to. -/
theorem unfilled_of_ready (x : Safe st.kernel.core st.view) (ready : st.ready s l = true) {w : Write}
    (writes : st.writes e = some (s, w))
    : w.fills ≠ some l := by
  intro fills
  exact absurd (ready.symm.trans (filler_of_writes x writes fills).1) (by decide)

/-- A level keeps what it carries as long as nobody writes to it. -/
theorem State.Carries.step {g : SendFrame} (carries : st.Carries s l g) (step : st.step e = some st')
    (born : s < st.kernel.services) (kept : e.reuses ≠ some s)
    (unfilled : ∀ w, st.writes e = some (s, w) → w.fills ≠ some l)
    : st'.Carries s l g := by
  have tag := field_of_step Write.apply_tag step born kept
  have message : ((st'.kernel.service s).level l).message = ((st.kernel.service s).level l).message
      ∧ ((st'.kernel.service s).level l).size = ((st.kernel.service s).level l).size := by
    rw [service_of_step step born kept]
    split
    · next r w writes =>
        split
        · next same =>
            subst same
            exact Write.apply_message (unfilled w writes)
        · exact ⟨rfl, rfl⟩
    · exact ⟨rfl, rfl⟩
  exact ⟨tag.trans carries.tag, fun i bound => by rw [message.1, carries.bytes i bound],
    by rw [message.2, carries.size]⟩

/-- What a send has stored by the time it has reached a program point. -/
def SendFrame.Stored (g : SendFrame) (st : State τ) : Prop :=
  match g.pc with
  | .terminator | .size =>
      ∀ i < g.stored, ((st.kernel.service g.ts).level g.level).message i = g.byte i
  | .ready =>
      (∀ i < g.stored, ((st.kernel.service g.ts).level g.level).message i = g.byte i)
      ∧ ((st.kernel.service g.ts).level g.level).size = g.stored
  | _ => True

/-- Nobody else writes into the level that a send is filling, by cases on its moves. -/
theorem stored_run (run : (machine τ).Run Unheld h st)
    : ∀ {t g}, (st.thread t).frame = .send g → g.Stored st := by
  refine run.invariant (P := fun _ st => ∀ {t g}, (st.thread t).frame = .send g → g.Stored st)
    (fun here => by cases here) ?_
  intro h st e st' before stored ok step t g' after
  have step : st.step e = some st' := step
  have x := Unheld.safe before
  cases sendTurn_of_step step after with
  | rest other thread =>
      rw [thread] at after
      have old := stored after
      obtain ⟨tag, level, buffer, size, euid, realSize, n, ts, pc⟩ := g'
      -- The mutex keeps the others out while the send is filling.
      have message (held : ts ∈ (st.thread t).frame.pointers) (lock : (st.view t).lock = some tag)
          (points : (st.view t).service = some ts)
          : ((st'.kernel.service ts).level level).message = ((st.kernel.service ts).level level).message
            ∧ ((st'.kernel.service ts).level level).size
              = ((st.kernel.service ts).level level).size := by
        rw [service_of_step step (pointers_born before t ts held) (ok.kept_of_pointer held)]
        split
        · next r w writes =>
            split
            · next same =>
                subst same
                refine Write.apply_message fun fills => ?_
                have tagged := x.tag_of_view lock points
                rcases (filler_of_writes x writes fills).2 with
                  ⟨u, i, ⟨external, rfl⟩, owner, service⟩ | ⟨b, member, service⟩
                · obtain rfl := x.owner_unique lock tagged owner service
                  exact other external rfl
                · exact x.no_callback lock tagged member service
            · exact ⟨rfl, rfl⟩
        · exact ⟨rfl, rfl⟩
      have view {v : View} (same : SendFrame.view ⟨tag, level, buffer, size, euid, realSize, n, ts,
          pc⟩ = v)
          : st.view t = v := by
        simp only [State.view, after, Frame.view, same]
      cases pc
      case terminator =>
        have message := message (by rw [after]; exact List.mem_singleton_self _)
          (by rw [view rfl]; rfl) (by rw [view rfl]; rfl)
        exact fun i bound => by rw [message.1]; exact old i bound
      case size =>
        have message := message (by rw [after]; exact List.mem_singleton_self _)
          (by rw [view rfl]; rfl) (by rw [view rfl]; rfl)
        exact fun i bound => by rw [message.1]; exact old i bound
      case ready =>
        have message := message (by rw [after]; exact List.mem_singleton_self _)
          (by rw [view rfl]; rfl) (by rw [view rfl]; rfl)
        exact ⟨fun i bound => by rw [message.1]; exact old.1 i bound, by rw [message.2]; exact old.2⟩
      all_goals trivial
  | enter calls entered =>
      rename_i euid c
      cases c <;> cases entered
      trivial
  | @move external g pc frame event here calls point move target =>
      subst event
      have old := stored here
      obtain ⟨tag, level, buffer, size, euid, realSize, n, ts, pc⟩ := g
      obtain rfl := point
      have service (held : ts ∈ (st.thread t).frame.pointers) {w : Write}
          (writes : st.writes (.run t external) = some (ts, w))
          : st'.kernel.service ts = w.apply (st.kernel.service ts) := by
        rw [service_of_step step (pointers_born before t ts held) (fun same => by cases same), writes]
        exact if_pos rfl
      have writes {w : Write} (own : (st.thread t).frame.writes = some (ts, w))
          : st.writes (.run t external) = some (ts, w) := own
      cases move with
      | memcpy =>
          obtain rfl := Frame.send.inj target
          have service := service (by rw [here]; exact List.mem_singleton_self _)
            (writes (by rw [here]; rfl))
          intro i bound
          simp only [service, Write.apply, TagService.onLevel_level, if_true]
          exact if_pos bound
      | terminator =>
          obtain rfl := Frame.send.inj target
          have service := service (by rw [here]; exact List.mem_singleton_self _)
            (writes (by rw [here]; rfl))
          intro i bound
          simp only [service, Write.apply, TagService.onLevel_level, if_true]
          exact (Function.update_of_ne (Nat.ne_of_lt bound) ..).trans (old i bound)
      | size =>
          obtain rfl := Frame.send.inj target
          have service := service (by rw [here]; exact List.mem_singleton_self _)
            (writes (by rw [here]; rfl))
          refine ⟨fun i bound => ?_, ?_⟩
          · simp only [service, Write.apply, TagService.onLevel_level, if_true]
            exact old i bound
          · simp only [service, Write.apply, TagService.onLevel_level, if_true]
      | leave => cases target
      | _ =>
          obtain rfl := Frame.send.inj target
          trivial

/-- The call `c` with this frame makes the level `READY`. -/
def PostedBy (s : Ref) (l : Int) (c : CallId τ) (g : SendFrame) : Guard (State τ) (Event τ) :=
  fun _ st e => st.Posts s l c g e

/-- A `READY` level carries the message of the send that was the last to post there. -/
theorem carries_run (run : (machine τ).Run Unheld h st) (intact : Intact s h)
    (born : s < st.kernel.services) (ready : st.ready s l = true)
    : ∃ c g, Since (NoPost s l) (PostedBy s l c g) h ∧ st.Carries s l g := by
  induction run with
  | start => simp [machine, State.start] at born
  | @next h st e st' before ok step ih =>
      have step : st.step e = some st' := step
      have kept := intact _ (List.mem_cons_self ..)
      have intact : Intact s h := fun moment member => intact moment (List.mem_cons_of_mem _ member)
      by_cases post : ∃ c g, st.Posts s l c g e
      · obtain ⟨c, g, posts⟩ := post
        refine ⟨c, g, .here posts, ?_⟩
        have held := posts.held
        obtain ⟨external, rfl⟩ := posts.event
        have here : (st.thread c.1).frame = .send g := by rw [posts.thread]
        have writes : st.writes (.run c.1 external) = some (s, .messageReady l true) := by
          obtain ⟨tag, level, buffer, size, euid, realSize, n, ts, pc⟩ := g
          obtain ⟨pc, service, level⟩ := And.intro posts.pc (And.intro posts.service posts.level)
          simp only at pc service level
          subst pc service level
          simp only [State.writes, here]
          rfl
        have full : State.Carries st s l g := by
          have stored := stored_run before here
          have loaded := (rightful_run before c.1).tagged (i := g.tag) (s := g.ts)
            (by rw [here]; simp [Frame.loaded, posts.pc])
          simp only [SendFrame.Stored, posts.pc, posts.service, posts.level] at stored
          exact ⟨posts.service ▸ loaded, stored.1, stored.2⟩
        refine full.step step (pointers_born before c.1 s held) kept fun w other fills => ?_
        rw [writes] at other
        cases other
        cases fills
      · have silent c g (posts : st.Posts s l c g e) : False := post ⟨c, g, posts⟩
        rcases ready_of_step step kept born ready with ⟨already, old⟩ | writes
        · obtain ⟨c, g, since, carries⟩ := ih intact old already
          refine ⟨c, g, .later since silent, carries.step step old kept fun w writes => ?_⟩
          exact unfilled_of_ready (Unheld.safe before) already writes
        · exact absurd (posts_of_writes writes) post

-----------------------------------------------------------------------------------------
-- What a receiver reads
-----------------------------------------------------------------------------------------

/-- The level that a receiver is reading: it has found it `READY` in its read-side section, and
has not copied the message yet.
-/
def Frame.reading : Frame → Option (Ref × Int)
  | receive f =>
      match f.pc with
      | .size | .copy => some (f.ts, f.level)
      | _ => none
  | _ => none

/-- No message is taken back while somebody reads it. -/
def State.ClearsUnread (st : State τ) (e : Event τ) : Prop :=
  match st.writes e with
  | some (s, .messageReady l false) => ∀ t, (st.thread t).frame.reading ≠ some (s, l)
  | _ => True

instance [Fintype τ] (st : State τ) (written : Option (Ref × Write))
    : Decidable
        (match written with
          | some (s, .messageReady l false) => ∀ t, (st.thread t).frame.reading ≠ some (s, l)
          | _ => True) := by
  cases written with
  | none => exact isTrue trivial
  | some store =>
      obtain ⟨s, write⟩ := store
      cases write with
      | messageReady l ready => cases ready <;> infer_instance
      | _ => exact isTrue trivial

instance [Fintype τ] (st : State τ) (e : Event τ) : Decidable (st.ClearsUnread e) := by
  unfold State.ClearsUnread
  infer_instance

/-- The runs in which no message is taken back while somebody reads it. -/
def Unraced : Guard (State τ) (Event τ) :=
  fun _ st e => ReuseUnheld st e ∧ st.ClearsUnread e

theorem Unraced.unheld (run : (machine τ).Run Unraced h st) : (machine τ).Run Unheld h st :=
  run.mono fun _ _ _ ok => ok.1

/-- The bytes that a send has copied from its user. -/
def SendFrame.message (g : SendFrame) : List UInt8 :=
  (List.range g.stored).map g.byte

/-- What a receiver has copied is a part of the message of one send, of the right length. -/
def ReceiveFrame.Received (f : ReceiveFrame) (h : History (State τ) (Event τ)) : Prop :=
  ∃ c g,
    Once (PostedBy f.ts f.level c g) h
    ∧ g.tag = f.tag
    ∧ f.copied <+: g.message
    ∧ f.realSize = min g.stored f.limit

/-- A receiver that has still to read the size of the message. -/
def ReceivePc.unread : ReceivePc → Bool
  | .incCount | .incLevel | .entered _ | .firstReady | .firstAwake | .prepare | .testReady
  | .testAwake | .sleep | .finish | .rcuLock | .signal | .ready | .size => true
  | _ => false

/-- What the program point of a receiver says about the message it reads. -/
structure ReceiveFrame.Faithful (f : ReceiveFrame) (h : History (State τ) (Event τ)) (st : State τ)
    : Prop where
  limit : f.pc.unread = true → f.realSize = f.limit
  ready : (Frame.receive f).reading = some (f.ts, f.level) → st.ready f.ts f.level = true
  carried
    : f.pc = .copy
      → ∃ c g, Once (PostedBy f.ts f.level c g) h ∧ st.Carries f.ts f.level g
          ∧ f.realSize = min g.stored f.limit
  received : f.pc.received = true → f.Received h

omit [DecidableEq τ] in
theorem reading_mem_pointers {frame : Frame} (reading : frame.reading = some (s, l))
    : s ∈ frame.pointers := by
  cases frame with
  | receive f =>
      obtain ⟨tag, level, buffer, size, euid, ts, realSize, interrupted, copied, pc⟩ := f
      cases pc <;> cases reading
      all_goals exact List.mem_singleton_self _
  | _ => cases reading

omit [DecidableEq τ] in
/-- What is copied from a level is a part of what it carries. -/
theorem State.Carries.copied {g : SendFrame} (carries : st.Carries s l g) {m : Nat}
    (bound : m ≤ g.stored)
    : (List.range m).map ((st.kernel.service s).level l).message <+: g.message := by
  have bytes
      : (List.range m).map ((st.kernel.service s).level l).message = (List.range m).map g.byte :=
    List.map_congr_left fun i member =>
      carries.bytes i (Nat.lt_of_lt_of_le (List.mem_range.mp member) bound)
  have part : List.range m = (List.range g.stored).take m := by
    rw [List.take_range, Nat.min_eq_left bound]
  rw [bytes, part, SendFrame.message, List.map_take]
  exact List.take_prefix ..

/-- What a receiver has read is faithful, by cases on its moves. -/
theorem faithful_run (run : (machine τ).Run Unraced h st)
    : ∀ {t f}, (st.thread t).frame = .receive f → f.Faithful h st := by
  refine run.invariant
    (P := fun h st => ∀ {t f}, (st.thread t).frame = .receive f → f.Faithful h st)
    (fun here => by cases here) ?_
  intro h st e st' before faithful ok step t f' after
  have step : st.step e = some st' := step
  have unheld := Unraced.unheld before
  -- A level that is being read stays `READY` and keeps its message.
  have still {s : Ref} {l : Int} (held : s ∈ (st.thread t).frame.pointers)
      (ready : st.ready s l = true) (cleared : st.writes e ≠ some (s, .messageReady l false))
      : st'.ready s l = true :=
    ready_kept step (pointers_born before t s held) (ok.1.kept_of_pointer held) ready cleared
  have carry {s : Ref} {l : Int} {g : SendFrame} (held : s ∈ (st.thread t).frame.pointers)
      (ready : st.ready s l = true) (carries : st.Carries s l g) : st'.Carries s l g :=
    carries.step step (pointers_born before t s held) (ok.1.kept_of_pointer held)
      fun w writes => unfilled_of_ready (Unheld.safe unheld) ready writes
  cases receiveTurn_of_step step after with
  | rest other thread =>
      rw [thread] at after
      obtain ⟨limit, ready, carried, received⟩ := faithful after
      refine ⟨limit, fun reading => ?_, fun point => ?_, fun done => ?_⟩
      · have held := reading_mem_pointers reading
        refine still (after ▸ held) (ready reading) fun writes => ?_
        have unread := ok.2
        simp only [State.ClearsUnread, writes] at unread
        exact unread t (after ▸ reading)
      · obtain ⟨c, g, posted, carries, same⟩ := carried point
        have reading : (Frame.receive f').reading = some (f'.ts, f'.level) := by
          simp only [Frame.reading, point]
        exact ⟨c, g, Once.cons posted _ _,
          carry (after ▸ reading_mem_pointers reading) (ready reading) carries, same⟩
      · obtain ⟨c, g, posted, rest⟩ := received done
        exact ⟨c, g, Once.cons posted _ _, rest⟩
  | enter calls entered =>
      rename_i euid c
      cases c <;> cases entered
      exact ⟨fun now => (by cases now), fun now => (by cases now), fun now => (by cases now),
        fun now => (by cases now)⟩
  | @move external f pc frame event here calls point move target =>
      subst event
      have old := faithful here
      obtain ⟨tag, level, buffer, size, euid, ts, realSize, interrupted, copied, pc⟩ := f
      obtain rfl := point
      obtain ⟨limit, ready, carried, received⟩ := old
      have quiet (silent : (st.thread t).frame.writes = none)
          : st.writes (.run t external) ≠ some (ts, .messageReady level false) := by
        simp only [State.writes, silent]
        exact fun same => by cases same
      cases move with
      | permitted =>
          obtain rfl := Frame.receive.inj target
          exact ⟨fun _ => rfl, fun now => (by cases now), fun now => (by cases now),
            fun now => (by cases now)⟩
      | ready found =>
          obtain rfl := Frame.receive.inj target
          refine ⟨fun _ => limit rfl, fun _ => ?_, fun now => (by cases now),
            fun now => (by cases now)⟩
          exact still (by rw [here]; exact List.mem_singleton_self _) found
            (quiet (by rw [here]; rfl))
      | size =>
          obtain rfl := Frame.receive.inj target
          have held : ts ∈ (st.thread t).frame.pointers := by
            rw [here]
            exact List.mem_singleton_self _
          have found : st.ready ts level = true := ready rfl
          obtain ⟨c, g, since, carries⟩ := carries_run unheld (intact_of_held unheld held)
            (pointers_born before t ts held) found
          refine ⟨fun now => (by cases now), fun _ => ?_, fun _ => ⟨c, g, ?_, ?_, ?_⟩,
            fun now => (by cases now)⟩
          · exact still held found (quiet (by rw [here]; rfl))
          · exact Once.cons since.once _ _
          · exact carry held found carries
          · have unread : realSize = ReceiveFrame.limit _ := limit rfl
            show min ((st.kernel.service ts).level level).size realSize = min g.stored _
            rw [carries.size, unread]
            rfl
      | @copy n =>
          obtain rfl := Frame.receive.inj target
          obtain ⟨c, g, posted, carries, length⟩ := carried rfl
          refine ⟨fun now => (by cases now), fun now => (by cases now), fun now => (by cases now),
            fun _ => ⟨c, g, Once.cons posted _ _, ?_, ?_, length⟩⟩
          · have tagged := (rightful_run unheld t).tagged (i := tag) (s := ts) (by rw [here]; rfl)
            exact carries.tag.symm.trans tagged
          · have length : realSize = min g.stored _ := length
            refine carries.copied (Nat.le_trans (Nat.sub_le realSize n) ?_)
            rw [length]
            exact Nat.min_le_left ..
      | @left x pc other =>
          obtain rfl := Frame.receive.inj target
          refine ⟨fun now => (by cases now), fun now => (by cases now), fun now => (by cases now),
            fun done => ?_⟩
          cases x with
          | message =>
              obtain ⟨c, g, posted, rest⟩ := received rfl
              exact ⟨c, g, Once.cons posted _ _, rest⟩
          | signal => cases done
          | awake => cases done
      | leave => cases target
      | _ =>
          obtain rfl := Frame.receive.inj target
          refine ⟨fun now => ?_, fun now => (by cases now), fun now => (by cases now), fun done => ?_⟩
          · first
            | exact limit rfl
            | cases now
          · first
            | obtain ⟨c, g, posted, rest⟩ := received done
              exact ⟨c, g, Once.cons posted _ _, rest⟩
            | cases done

-----------------------------------------------------------------------------------------
-- The law
-----------------------------------------------------------------------------------------

/-- As long as no message is taken back while somebody reads it, a receiver that is about to
return 0 has copied a part of the message of one send on its tag and level, and the length it
used is the smaller of its limit and the size of that send.
-/
theorem message_integrity (run : (machine τ).Run Unraced h st) {f : ReceiveFrame}
    (here : (st.thread t).frame = .receive f) (returns : f.pc = .ret 0)
    : ∃ c g,
        Once (fun _ st e => st.Posts f.ts f.level c g e) h
        ∧ (g.tag = f.tag ∧ g.level = f.level)
        ∧ f.copied <+: (List.range g.stored).map g.byte
        ∧ f.realSize = min g.stored f.limit := by
  obtain ⟨c, g, posted, tag, part, length⟩ := (faithful_run run here).received (by rw [returns]; rfl)
  obtain ⟨m, st₁, e₁, -, posts⟩ := Once.moment posted
  exact ⟨c, g, posted, ⟨tag, posts.level⟩, part, length⟩

/-- The bytes that a receiver has copied. -/
def Frame.copied : Frame → List UInt8
  | receive f => f.copied
  | _ => []

/-- The buffer of a send. -/
def Frame.buffer : Frame → Option (List UInt8)
  | send g => some g.buffer
  | _ => none

/-- The same condition, for memory that is never given out again. -/
def UnracedFresh : Guard (State τ) (Event τ) :=
  fun _ st e => NoReuse e ∧ st.ClearsUnread e

instance [Fintype τ] (h : History (State τ) (Event τ)) (st : State τ) (e : Event τ)
    : Decidable (UnracedFresh h st e) :=
  inferInstanceAs (Decidable (_ ∧ _))

theorem UnracedFresh.unraced (run : (machine τ).Run UnracedFresh h st)
    : (machine τ).Run Unraced h st :=
  run.mono fun _ _ e ok => ⟨by cases e <;> first | exact ok.1.elim | trivial, ok.2⟩

/-- A receiver that slept when the message was sent has copied it. -/
theorem message_integrity_of_sleeper
    : ∃ h st f c g,
        (machine (Fin 2)).Run Unraced h st
        ∧ ((st.thread 1).frame = .receive f ∧ f.pc = .ret 0)
        ∧ f.copied = [104, 105, 0]
        ∧ Once (fun _ st e => st.Posts f.ts f.level c g e) h
        ∧ f.copied <+: (List.range g.stored).map g.byte := by
  obtain ⟨h, st, run, facts⟩ := Machine.Run.exists_of_replay
    (M := machine (Fin 2)) (G := UnracedFresh)
    (creating 0 1 ++ fallingAsleep 1 1 3 ++ sending 0 1 3 [104, 105] 16 ++ runs 1 21)
    (fun _ st => (st.thread 1).frame.returning == some 0
      && (st.thread 1).frame.copied == [104, 105, 0])
    (by decide +kernel)
  simp only [Bool.and_eq_true, beq_iff_eq] at facts
  have run := UnracedFresh.unraced run
  obtain ⟨f, here, pc⟩ := Frame.eq_receive_of_returning facts.1
  obtain ⟨c, g, posted, -, part, -⟩ := message_integrity run here pc
  exact ⟨h, st, f, c, g, run, ⟨here, pc⟩, by simpa [here, Frame.copied] using facts.2, posted, part⟩

/-- Without the condition a receiver copies the zeros of the callback: it opens its read-side
section after `call_rcu`, finds the level `READY`, reads the size, and then the callback runs.
-/
theorem copies_zeros
    : ¬ ∀ (h : History (State (Fin 2)) (Event (Fin 2))) (st : State (Fin 2)) (t : Fin 2)
          (f : ReceiveFrame),
        (machine (Fin 2)).Run anyStep h st
        → (st.thread t).frame = .receive f
        → f.pc = .ret 0
        → ∃ c g,
            Once (fun _ st e => st.Posts f.ts f.level c g e) h
            ∧ f.copied <+: (List.range g.stored).map g.byte := by
  intro always
  obtain ⟨h, st, run, facts⟩ := Machine.Run.exists_of_replay
    (M := machine (Fin 2)) (G := anyStep)
    (creating 0 1 ++ fallingAsleep 1 1 3 ++ sending 0 1 3 [104, 105] 16
      ++ .call 0 0 (.tagReceive 1 3 true 16) :: runs 0 19 ++ [.softirq 0, .softirq 0] ++ runs 0 14)
    (fun h st => (st.thread 0).frame.returning == some 0
      && (st.thread 0).frame.copied == [0, 0, 0]
      && h.all fun moment => [0, 1].all fun u =>
        (moment.1.thread u).frame.buffer.all (· == [104, 105]))
    (by decide +kernel)
  simp only [Bool.and_eq_true, beq_iff_eq, List.all_eq_true] at facts
  obtain ⟨⟨returning, copied⟩, buffers⟩ := facts
  obtain ⟨f, here, pc⟩ := Frame.eq_receive_of_returning returning
  have copied : f.copied = [0, 0, 0] := by simpa [here, Frame.copied] using copied
  obtain ⟨c, g, posted, rest, part⟩ := always h st 0 f run here pc
  obtain ⟨m, st₁, e₁, found, posts⟩ := Once.moment posted
  have buffer : g.buffer = [104, 105] := by
    have either : ∀ u : Fin 2, u ∈ [0, 1] := by decide
    have same := buffers _ (List.mem_of_getElem? found) c.1 (either c.1)
    rw [posts.thread] at same
    simpa [Frame.buffer] using same
  have first := congrArg List.head? part
  rw [copied, List.cons_append, List.head?_cons, List.head?_map, List.head?_range] at first
  split at first
  · cases first
  · simp [SendFrame.byte, buffer] at first

end TagExchange
