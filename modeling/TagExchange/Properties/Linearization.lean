import TagExchange.Concurrency.Tally
import TagExchange.Properties.Answers
import TagExchange.Properties.ReadSections

/-! Every call behaves as if the registry answered it at one moment between its entry and its return,
whatever the other calls do meanwhile.
-/

namespace TagExchange

open Concurrency Naming Protocol

variable {τ : Type} [DecidableEq τ] {h : History (State τ) (Event τ)} {st st' : State τ}
  {e : Event τ} {t : τ} {n : Nat} {i : Int} {s : Ref} {external : Nat}

-----------------------------------------------------------------------------------------
-- Moments of a call
-----------------------------------------------------------------------------------------

/-- At some moment of the thread's `n`-th call. -/
def During (t : τ) (n : Nat) (Q : State τ → Event τ → Prop) : History (State τ) (Event τ) → Prop :=
  Once fun _ st e => (st.thread t).calls = n ∧ (st.thread t).frame.idle = false ∧ Q st e

omit [DecidableEq τ] in
theorem During.mono {Q Q' : State τ → Event τ → Prop} (imp : ∀ st e, Q st e → Q' st e)
    (during : During t n Q h)
    : During t n Q' h :=
  Once.mono (fun _ _ _ now => ⟨now.1, now.2.1, imp _ _ now.2.2⟩) during

omit [DecidableEq τ] in
theorem During.cons {Q : State τ → Event τ → Prop} (during : During t n Q h) (st : State τ)
    (e : Event τ)
    : During t n Q ((st, e) :: h) :=
  Once.cons during st e

/-- The registry was so at some moment of the call, which changed nothing then. -/
def Looked (t : τ) (n : Nat) (P : (Int → Entry Registration) → Prop)
    : History (State τ) (Event τ) → Prop :=
  During t n fun st e => P st.entries ∧ st.changeBy t e = none

theorem Looked.cons {P : (Int → Entry Registration) → Prop} (looked : Looked t n P h) (st : State τ)
    (e : Event τ)
    : Looked t n P ((st, e) :: h) :=
  During.cons looked st e

/-- The registry answers the call so at this moment. -/
def State.AnswersAt (t : τ) (euid : Int) (c : Syscall) (v : Int) (st : State τ) (e : Event τ) : Prop :=
  Answers st.entries euid (st.changeBy t e) c v

/-- What a call has seen in the registry is a reason for its answer. -/
theorem Looked.answers {P : (Int → Entry Registration) → Prop} {euid v : Int} {c : Syscall}
    (looked : Looked t n P h) (valid : c.Valid)
    (outcome : ∀ r, P r → Outcome r euid none c v)
    : During t n (fun st₁ e₁ => st₁.AnswersAt t euid c v e₁) h := by
  refine During.mono (fun st₁ e₁ seen => .inl ⟨valid, ?_⟩) looked
  rw [seen.2]
  exact outcome _ seen.1

/-- The thread enters or condemns a service in this event of its `n`-th call. That a removal clears
the entry of the service it has condemned is a step of its own, and is not counted.
-/
def State.takesEffect (t : τ) (n : Nat) (st : State τ) (e : Event τ) : Bool :=
  (st.thread t).calls == n
  && match st.changeBy t e with
    | some (.enter _ _) | some (.condemn _ _) => true
    | _ => false

-----------------------------------------------------------------------------------------
-- What a call has found out
-----------------------------------------------------------------------------------------

/-- What the registry was like during a call justifies where the call has come to. -/
structure Justified (h : History (State τ) (Event τ)) (st : State τ) (t : τ) (n : Nat) (frame : Frame)
    : Prop where
  course : frame.OnCourse
  /-- The service is in its slot, or it has been condemned in the meantime. -/
  tests
    : ∀ {i s},
        frame.tests = some (i, s)
        → st.kernel.tsm.allTagServices i = some s
          ∨ ((st.kernel.service s).lazyDeleted = true
            ∧ Looked t n (fun r => ∃ s, r i = .dying s) h)
  /-- The service has been registered and in use. -/
  alive
    : ∀ {i s},
        frame.alive = some (i, s)
        → Looked t n (fun r => r i = .live (st.kernel.service s).registration) h
  /-- The registry has given the answer. -/
  settled
    : ∀ {v euid c},
        frame.settled = some v
        → frame.syscall = some (euid, c)
        → During t n (fun st₁ e₁ => st₁.AnswersAt t euid c v e₁) h

/-- A call that goes on with what it has found out before, or with less, stays justified. -/
theorem Justified.carry {before after : Frame} (x : Justified h st t n before)
    (course : after.OnCourse) (tests : after.tests = before.tests ∨ after.tests = none)
    (alive : after.alive = before.alive ∨ after.alive = none)
    (settled : after.settled = before.settled ∨ after.settled = none)
    (call : after.syscall = before.syscall)
    : Justified h st t n after where
  course
  tests found := by
    rcases tests with same | nothing
    · exact x.tests (same ▸ found)
    · simp [nothing] at found
  alive found := by
    rcases alive with same | nothing
    · exact x.alive (same ▸ found)
    · simp [nothing] at found
  settled found made := by
    rcases settled with same | nothing
    · exact x.settled (same ▸ found) (call ▸ made)
    · simp [nothing] at found

/-- A call is settled by an answer of the registry. -/
theorem justified_of_answer {frame : Frame} {v euid : Int} {c : Syscall} (course : frame.OnCourse)
    (tests : frame.tests = none) (alive : frame.alive = none) (settled : frame.settled = some v)
    (call : frame.syscall = some (euid, c))
    (answers : During t n (fun st₁ e₁ => st₁.AnswersAt t euid c v e₁) h)
    : Justified h st t n frame where
  course
  tests found := by simp [tests] at found
  alive found := by simp [alive] at found
  settled found made := by
    obtain rfl := Option.some.inj (settled.symm.trans found)
    obtain ⟨rfl, rfl⟩ := Prod.mk.inj (Option.some.inj (call.symm.trans made))
    exact answers

/-- A call that has found its service alive in its slot. -/
theorem justified_of_alive {frame : Frame} (course : frame.OnCourse) (tests : frame.tests = none)
    (alive : frame.alive = some (i, s)) (settled : frame.settled = none)
    (live : Looked t n (fun r => r i = .live (st.kernel.service s).registration) h)
    : Justified h st t n frame where
  course
  tests found := by simp [tests] at found
  alive found := by
    obtain ⟨rfl, rfl⟩ := Prod.mk.inj (Option.some.inj (alive.symm.trans found))
    exact live
  settled found := by simp [settled] at found

/-- A call that has just loaded its service. -/
theorem justified_of_load {frame : Frame} (course : frame.OnCourse)
    (tests : frame.tests = some (i, s)) (alive : frame.alive = none) (settled : frame.settled = none)
    (loaded
      : st.kernel.tsm.allTagServices i = some s
        ∨ ((st.kernel.service s).lazyDeleted = true
          ∧ Looked t n (fun r => ∃ s, r i = .dying s) h))
    : Justified h st t n frame where
  course
  tests found := by
    obtain ⟨rfl, rfl⟩ := Prod.mk.inj (Option.some.inj (tests.symm.trans found))
    exact loaded
  alive found := by simp [alive] at found
  settled found := by simp [settled] at found

theorem justified_of_nothing {frame : Frame} (course : frame.OnCourse) (tests : frame.tests = none)
    (alive : frame.alive = none) (settled : frame.settled = none)
    : Justified h st t n frame where
  course
  tests found := by simp [tests] at found
  alive found := by simp [alive] at found
  settled found := by simp [settled] at found

-----------------------------------------------------------------------------------------
-- The present moment
-----------------------------------------------------------------------------------------

/-- What a step of the thread finds in the kernel is so at a moment of its call. -/
structure Present (h : History (State τ) (Event τ)) (st st' : State τ) (t : τ) (n : Nat)
    (before : Frame) (external : Nat) : Prop where
  here : (st.thread t).frame = before
  now
    : ∀ {Q : State τ → Event τ → Prop},
        Q st (.run t external) → During t n Q ((st, .run t external) :: h)
  /-- What the call has found out before. -/
  old : Justified h st t n before
  /-- The same, after the step. -/
  kept : Justified ((st, .run t external) :: h) st' t n before
  /-- A service loaded in this step. -/
  loads
    : ∀ {i s},
        before.change = none
        → st.kernel.tsm.allTagServices i = some s
        → st'.kernel.tsm.allTagServices i = some s
          ∨ ((st'.kernel.service s).lazyDeleted = true
            ∧ Looked t n (fun r => ∃ s, r i = .dying s) ((st, .run t external) :: h))
  same
    : ∀ {s},
        s ∈ before.pointers
        → (st'.kernel.service s).registration = (st.kernel.service s).registration

namespace Present

variable {before : Frame}

theorem looks (x : Present h st st' t n before external) (quiet : before.change = none)
    {P : (Int → Entry Registration) → Prop} (seen : P st.entries)
    : Looked t n P ((st, .run t external) :: h) := by
  refine x.now ⟨seen, ?_⟩
  rw [State.changeBy_run, x.here, quiet]

/-- The registry answers at once. -/
theorem answers (x : Present h st st' t n before external) (quiet : before.change = none)
    {euid v : Int} {c : Syscall} (valid : c.Valid) (outcome : Outcome st.entries euid none c v)
    : During t n (fun st₁ e₁ => st₁.AnswersAt t euid c v e₁) ((st, .run t external) :: h) :=
  (x.looks quiet (P := fun r => r = st.entries) rfl).answers valid fun _ same => same ▸ outcome

/-- Invalid arguments are refused. -/
theorem refuses (x : Present h st st' t n before external) (quiet : before.change = none)
    {euid : Int} {c : Syscall} (invalid : ¬ c.Valid)
    : During t n (fun st₁ e₁ => st₁.AnswersAt t euid c (-EINVAL) e₁)
        ((st, .run t external) :: h) := by
  refine x.now (.inr ⟨invalid, ?_, rfl⟩)
  rw [State.changeBy_run, x.here, quiet]

/-- A call that finds its service marked as deleted: its entry has been condemned. -/
theorem dying (x : Present h st st' t n before external) (quiet : before.change = none)
    (tests : before.tests = some (i, s)) (doomed : (st.kernel.service s).lazyDeleted = true)
    : Looked t n (fun r => ∃ s, r i = .dying s) ((st, .run t external) :: h) := by
  rcases x.old.tests tests with found | ⟨-, earlier⟩
  · refine x.looks quiet ⟨(st.kernel.service s).registration, ?_⟩
    rw [State.entries, found, Kernel.entryOf_of_doomed doomed]
  · exact earlier.cons _ _

/-- A call that finds its service alive: it is in its slot. -/
theorem live (x : Present h st st' t n before external) (quiet : before.change = none)
    (tests : before.tests = some (i, s)) (alive : (st.kernel.service s).lazyDeleted = false)
    : Looked t n (fun r => r i = .live (st'.kernel.service s).registration)
        ((st, .run t external) :: h) := by
  have found : st.kernel.tsm.allTagServices i = some s :=
    (x.old.tests tests).resolve_right fun gone => by simp [alive] at gone
  refine x.looks quiet ?_
  rw [State.entries, found, Kernel.entryOf_of_alive alive, x.same (tests_mem_pointers tests)]

/-- A call that checks whether its user may use the service which it has found alive. -/
theorem admits (x : Present h st st' t n before external) (alive : before.alive = some (i, s))
    {euid : Int} (allowed : Bool) (denies : (st.kernel.service s).denies euid = !allowed)
    : Looked t n (fun r => ∃ s : Registration, r i = .live s ∧ s.admits euid = allowed)
        ((st, .run t external) :: h) := by
  refine During.mono (fun st₁ _ seen => ⟨⟨_, seen.1, ?_⟩, seen.2⟩) ((x.old.alive alive).cons _ _)
  rw [TagService.admits_registration, denies, Bool.not_not]

end Present

-----------------------------------------------------------------------------------------
-- The steps of the four calls
-----------------------------------------------------------------------------------------

/-- A sender stays justified, by cases on the move. -/
theorem justified_of_sendMove {f : SendFrame} {frame : Frame}
    (x : Present h st st' t n (.send f) external)
    (step : st.kernel.exec external (tagSend (t, n) f) = some (st'.kernel, frame))
    : Justified ((st, .run t external) :: h) st' t n frame := by
  have move := sendMove_of_exec step
  obtain ⟨tag, level, buffer, size, euid, realSize, stored, ts, pc⟩ := f
  cases pc
  case entry =>
    obtain ⟨-, rfl⟩ := Prod.mk.inj (Option.some.inj step)
    dsimp only
    split
    · next outside =>
        exact justified_of_answer trivial rfl rfl rfl rfl
          (x.refuses rfl fun valid => valid.1 outside)
    · next inside =>
        split
        · next outside =>
            exact justified_of_answer trivial rfl rfl rfl rfl
              (x.refuses rfl fun valid => valid.2 outside)
        · next level => exact justified_of_nothing ⟨inside, level⟩ rfl rfl rfl
  all_goals
    have valid := x.old.course
    cases move
  case missing empty =>
    refine justified_of_answer trivial rfl rfl rfl rfl (x.answers rfl valid (.notSent fun s => ?_))
    rw [State.entries, show st.kernel.tsm.allTagServices tag = none from empty]
    exact fun same => by cases same
  case load found => exact justified_of_load valid rfl rfl rfl (x.loads rfl found)
  case deleted doomed =>
    refine justified_of_answer trivial rfl rfl rfl rfl
      ((x.dying rfl rfl doomed).answers valid fun r dying => .notSent fun s live => ?_)
    obtain ⟨s', dying⟩ := dying
    cases live.symm.trans dying
  case alive alive => exact justified_of_alive valid rfl rfl rfl (x.live rfl rfl alive)
  case denied denied =>
    refine justified_of_answer trivial rfl rfl rfl rfl
      ((x.admits rfl false denied).answers valid fun r seen => ?_)
    obtain ⟨s, live, denied⟩ := seen
    exact .sendDenied live denied
  case permitted allowed =>
    refine justified_of_answer trivial rfl rfl rfl rfl
      ((x.admits rfl true allowed).answers valid fun r seen => ?_)
    obtain ⟨s, live, admitted⟩ := seen
    exact .sent live admitted
  case noPage => exact justified_of_nothing trivial rfl rfl rfl
  case unmapped => exact justified_of_nothing trivial rfl rfl rfl
  case leave => exact justified_of_nothing trivial rfl rfl rfl
  all_goals
    exact x.kept.carry valid (.inl rfl) (.inl rfl) (.inl rfl) rfl

/-- A receiver stays justified, by cases on the move; its user may use the service that it has
passed.
-/
theorem justified_of_receiveMove {f : ReceiveFrame} {frame : Frame}
    (x : Present h st st' t n (.receive f) external)
    (rightful : (Frame.receive f).Rightful st.kernel)
    (step : st.kernel.exec external (tagReceive t f) = some (st'.kernel, frame))
    : Justified ((st, .run t external) :: h) st' t n frame := by
  have move := receiveMove_of_exec step
  obtain ⟨tag, level, buffer, size, euid, ts, realSize, interrupted, copied, pc⟩ := f
  -- On each way out of the wait the registry has let the receiver in.
  have received (exit : Exit) (alive : (Frame.receive
        ⟨tag, level, buffer, size, euid, ts, realSize, interrupted, copied, pc⟩).alive = some (tag, ts))
      (granted : (Frame.receive
        ⟨tag, level, buffer, size, euid, ts, realSize, interrupted, copied, pc⟩).granted
          = some (ts, euid))
      (valid : (Syscall.tagReceive tag level buffer size).Valid ∧ buffer = true)
      : During t n
          (fun st₁ e₁ => st₁.AnswersAt t euid (.tagReceive tag level buffer size) exit.result e₁)
          ((st, .run t external) :: h) := by
    refine (x.admits alive true (rightful.granted granted)).answers valid.1 fun r seen => ?_
    obtain ⟨s, live, admitted⟩ := seen
    rw [valid.2]
    exact .received exit live admitted
  cases pc
  case entry =>
    obtain ⟨-, rfl⟩ := Prod.mk.inj (Option.some.inj step)
    dsimp only
    split
    · next outside =>
        exact justified_of_answer trivial rfl rfl rfl rfl
          (x.refuses rfl fun valid => valid.1 outside)
    · next inside =>
        split
        · next outside =>
            exact justified_of_answer trivial rfl rfl rfl rfl
              (x.refuses rfl fun valid => valid.2 outside)
        · next level => exact justified_of_nothing ⟨inside, level⟩ rfl rfl rfl
  case permission =>
    have valid := x.old.course
    obtain ⟨-, rfl⟩ := Prod.mk.inj (Option.some.inj step)
    dsimp only
    split
    · next refused =>
        refine justified_of_answer trivial rfl rfl rfl rfl ?_
        rcases refused with denied | unusable
        · refine (x.admits rfl false denied).answers valid fun r seen => ?_
          obtain ⟨s, live, denied⟩ := seen
          exact .receiveDenied live (.inl denied)
        · refine ((x.old.alive rfl).cons _ _).answers valid fun r live => ?_
          exact .receiveDenied live (.inr unusable)
    · next accepted =>
        obtain ⟨-, usable⟩ := not_or.mp accepted
        exact x.kept.carry ⟨valid, by simpa using usable⟩ (.inl rfl) (.inl rfl) (.inl rfl) rfl
  all_goals
    have valid := x.old.course
    cases move
  case missing empty =>
    refine justified_of_answer trivial rfl rfl rfl rfl
      (x.answers rfl valid (.notReceived fun s => ?_))
    rw [State.entries, show st.kernel.tsm.allTagServices tag = none from empty]
    exact fun same => by cases same
  case load found => exact justified_of_load valid rfl rfl rfl (x.loads rfl found)
  case deleted doomed =>
    refine justified_of_answer trivial rfl rfl rfl rfl
      ((x.dying rfl rfl doomed).answers valid fun r dying => .notReceived fun s live => ?_)
    obtain ⟨s', dying⟩ := dying
    cases live.symm.trans dying
  case alive alive => exact justified_of_alive valid rfl rfl rfl (x.live rfl rfl alive)
  case signal => exact justified_of_answer trivial rfl rfl rfl rfl (received .signal rfl rfl valid)
  case notReady => exact justified_of_answer trivial rfl rfl rfl rfl (received .awake rfl rfl valid)
  case copy => exact justified_of_answer trivial rfl rfl rfl rfl (received .message rfl rfl valid)
  case leave => exact justified_of_nothing trivial rfl rfl rfl
  all_goals exact x.kept.carry valid (.inl rfl) (.inl rfl) (.inl rfl) rfl

/-- A creation takes effect where it publishes its service. -/
theorem answers_of_publish (run : (machine τ).Run Unheld h st)
    (step : st.step (.run t external) = some st') {f : GetFrame} (here : (st.thread t).frame = .get f)
    (point : f.pc = .publish) (course : (Frame.get f).OnCourse)
    : st.AnswersAt t f.euid (.tagGet f.key f.command f.permission) f.tag (.run t external) := by
  obtain ⟨free, -⟩ := entries_of_publish run step here point
  obtain ⟨key, command, permission, euid, tag, ts, pc⟩ := f
  obtain rfl : pc = .publish := point
  obtain ⟨valid, hashed, rfl⟩ := course
  refine .inl ⟨valid, ?_⟩
  rw [State.changeBy_run, here]
  exact .created hashed free

/-- A removal takes effect where it condemns its service. -/
theorem answers_of_delete (run : (machine τ).Run Unheld h st)
    (step : st.step (.run t external) = some st') {f : CtlFrame} (here : (st.thread t).frame = .ctl f)
    (point : f.pc = .delete) (course : (Frame.ctl f).OnCourse)
    : st.AnswersAt t f.euid (.tagCtl f.tag f.command) SUCCESS (.run t external) := by
  obtain ⟨s, live, admitted, -⟩ := entries_of_delete run step here point
  obtain ⟨tag, command, euid, ts, index, awakened, pc⟩ := f
  obtain rfl : pc = .delete := point
  obtain ⟨valid, rfl⟩ := course
  refine .inl ⟨valid, ?_⟩
  rw [State.changeBy_run, here]
  exact .removed live admitted

/-- A call that creates or opens stays justified, by cases on the move. -/
theorem justified_of_getMove {f : GetFrame} {frame : Frame}
    (run : (machine τ).Run Unheld h st) (step' : st.step (.run t external) = some st')
    (x : Present h st st' t n (.get f) external)
    (step : st.kernel.exec external (tagGet t f) = some (st'.kernel, frame))
    : Justified ((st, .run t external) :: h) st' t n frame := by
  have move := getMove_of_exec step
  have here := x.here
  obtain ⟨key, command, permission, euid, tag, ts, pc⟩ := f
  have course := x.old.course
  cases pc
  case entry =>
    obtain ⟨-, rfl⟩ := Prod.mk.inj (Option.some.inj step)
    dsimp only
    split
    · next invalid => exact justified_of_answer trivial rfl rfl rfl rfl (x.refuses rfl invalid)
    · next valid =>
        have valid := not_not.mp valid
        split
        · exact justified_of_nothing ⟨valid, fun _ => rfl⟩ rfl rfl rfl
        · next unnamed => exact justified_of_nothing ⟨valid, not_not.mp unnamed⟩ rfl rfl rfl
  case find pc =>
    obtain ⟨valid, unnamed⟩ := course
    obtain ⟨next, -, rfl⟩ := Kernel.exec_map_eq_some step
    cases next with
    | go pc' => exact justified_of_nothing ⟨valid, unnamed⟩ rfl rfl rfl
    | back found =>
        simp only [GetFrame.found]
        split
        · next full =>
            obtain ⟨-, rfl⟩ := full
            exact justified_of_answer trivial rfl rfl rfl rfl
              (x.answers rfl valid (.noMemory (.inr rfl)))
        · exact justified_of_nothing ⟨valid, fun named => absurd unnamed named⟩ rfl rfl rfl
  case lock =>
    obtain ⟨-, step⟩ := Option.ite_none_left_eq_some.mp step
    obtain ⟨-, rfl⟩ := Prod.mk.inj (Option.some.inj step)
    obtain ⟨valid, hashed⟩ := course
    dsimp only
    split
    · next create => exact justified_of_nothing ⟨valid, hashed, create⟩ rfl rfl rfl
    · next other =>
        split
        · next opens => exact justified_of_nothing ⟨valid, hashed, opens⟩ rfl rfl rfl
        · next neither => exact (valid.2.elim other neither).elim
  case available =>
    obtain ⟨-, rfl⟩ := Prod.mk.inj (Option.some.inj step)
    obtain ⟨valid, hashed, rfl⟩ := course
    dsimp only
    split
    · next full =>
        obtain ⟨s, found⟩ := Option.isSome_iff_exists.mp full
        refine justified_of_answer trivial rfl rfl rfl rfl (x.answers rfl valid (.taken hashed ?_))
        rw [State.entries, found, Kernel.entryOf]
        split <;> exact fun same => by cases same
    · exact justified_of_nothing ⟨valid, hashed, rfl⟩ rfl rfl rfl
  case publish =>
    obtain ⟨-, rfl⟩ := Prod.mk.inj (Option.some.inj step)
    have answers := answers_of_publish run step' here rfl course
    exact justified_of_answer trivial rfl rfl rfl rfl (x.now answers)
  all_goals cases move
  case noMemory r error =>
    obtain ⟨valid, -, rfl⟩ := course
    exact justified_of_answer trivial rfl rfl rfl rfl (x.answers rfl valid (.noMemory error))
  case missing absent =>
    obtain ⟨valid, hashed, rfl⟩ := course
    refine justified_of_answer trivial rfl rfl rfl rfl
      (x.answers rfl valid (.unknown (or_iff_not_imp_left.mpr fun named s => ?_)))
    have empty : st.kernel.tsm.allTagServices tag = none := absent.resolve_right named
    rw [← hashed named, State.entries, empty]
    exact fun same => by cases same
  case opened named =>
    obtain ⟨valid, hashed, opens⟩ := course
    exact justified_of_nothing ⟨valid, hashed named, opens, named⟩ rfl rfl rfl
  case loadOpened found => exact justified_of_load course rfl rfl rfl (x.loads rfl found)
  case oops => exact justified_of_nothing trivial rfl rfl rfl
  case deleted doomed =>
    obtain ⟨valid, hashed, rfl, named⟩ := course
    obtain rfl : tag = hashFunction key := hashed
    refine justified_of_answer trivial rfl rfl rfl rfl
      ((x.dying rfl rfl doomed).answers valid fun r dying => .unknown (.inr fun s live => ?_))
    obtain ⟨s', dying⟩ := dying
    cases live.symm.trans dying
  case alive alive => exact justified_of_alive course rfl rfl rfl (x.live rfl rfl alive)
  case denied denied =>
    obtain ⟨valid, hashed, rfl, named⟩ := course
    obtain rfl : tag = hashFunction key := hashed
    refine justified_of_answer trivial rfl rfl rfl rfl
      ((x.admits rfl false denied).answers valid fun r seen => ?_)
    obtain ⟨s, live, denied⟩ := seen
    exact .openDenied named live denied
  case permitted allowed =>
    obtain ⟨valid, hashed, rfl, named⟩ := course
    obtain rfl : tag = hashFunction key := hashed
    refine justified_of_answer trivial rfl rfl rfl rfl
      ((x.admits rfl true allowed).answers valid fun r seen => ?_)
    obtain ⟨s, live, admitted⟩ := seen
    exact .opened named live admitted
  case leave => exact justified_of_nothing trivial rfl rfl rfl
  all_goals exact x.kept.carry course (.inl rfl) (.inl rfl) (.inl rfl) rfl

/-- A call that removes or wakes stays justified, by cases on the move. -/
theorem justified_of_ctlMove {f : CtlFrame} {frame : Frame}
    (run : (machine τ).Run Unheld h st) (step' : st.step (.run t external) = some st')
    (x : Present h st st' t n (.ctl f) external)
    (step : st.kernel.exec external (tagCtl (t, n) f) = some (st'.kernel, frame))
    : Justified ((st, .run t external) :: h) st' t n frame := by
  have move := ctlMove_of_exec step
  have here := x.here
  obtain ⟨tag, command, euid, ts, index, awakened, pc⟩ := f
  have course := x.old.course
  cases pc
  case entry =>
    obtain ⟨-, rfl⟩ := Prod.mk.inj (Option.some.inj step)
    split
    · next valid => exact justified_of_nothing valid rfl rfl rfl
    · next invalid => exact justified_of_answer trivial rfl rfl rfl rfl (x.refuses rfl invalid)
  case permission =>
    obtain ⟨-, rfl⟩ := Prod.mk.inj (Option.some.inj step)
    dsimp only
    split
    · next denied =>
        refine justified_of_answer trivial rfl rfl rfl rfl
          ((x.admits rfl false denied).answers course fun r seen => ?_)
        obtain ⟨s, live, denied⟩ := seen
        exact .ctlDenied live denied
    · next allowed =>
        have allowed : (st.kernel.service ts).denies euid = false := by simpa using allowed
        split
        · next remove => exact x.kept.carry ⟨course, remove⟩ (.inl rfl) (.inl rfl) (.inl rfl) rfl
        · next other =>
            split
            · next awake =>
                subst awake
                refine justified_of_answer trivial rfl rfl rfl rfl
                  ((x.admits rfl true allowed).answers course fun r seen => ?_)
                obtain ⟨s, live, admitted⟩ := seen
                exact .awoken live admitted
            · next neither => exact (course.2.elim other neither).elim
  all_goals cases move
  case missing empty =>
    refine justified_of_answer trivial rfl rfl rfl rfl (x.answers rfl course (.ctlAbsent ?_))
    rw [State.entries, show st.kernel.tsm.allTagServices tag = none from empty]
    rfl
  case load found => exact justified_of_load course rfl rfl rfl (x.loads rfl found)
  case deleted doomed =>
    refine justified_of_answer trivial rfl rfl rfl rfl
      ((x.dying rfl rfl doomed).answers course fun r dying => ?_)
    obtain ⟨s, dying⟩ := dying
    exact .ctlDying dying
  case alive alive => exact justified_of_alive course rfl rfl rfl (x.live rfl rfl alive)
  case attended =>
    obtain ⟨valid, rfl⟩ := course
    have granted : (st.thread t).frame.granted = some (ts, euid) := by
      rw [here]
      rfl
    have allowed := (rightful_run run t).granted granted
    refine justified_of_answer trivial rfl rfl rfl rfl
      ((x.admits rfl true allowed).answers valid fun r seen => ?_)
    obtain ⟨s, live, admitted⟩ := seen
    exact .attended live admitted
  case delete =>
    have answers := answers_of_delete run step' here rfl course
    exact justified_of_answer trivial rfl rfl rfl rfl (x.now answers)
  case unlockIndex after =>
    cases after <;> exact x.kept.carry trivial (.inl rfl) (.inl rfl) (.inl rfl) rfl
  case leave => exact justified_of_nothing trivial rfl rfl rfl
  all_goals exact x.kept.carry course (.inl rfl) (.inl rfl) (.inl rfl) rfl

-----------------------------------------------------------------------------------------
-- Runs
-----------------------------------------------------------------------------------------

omit [DecidableEq τ] in
/-- A call that has still to test its service changes nothing, by cases on the program point. -/
theorem quiet_of_tests {frame : Frame} (tests : frame.tests = some (i, s))
    : frame.change = none ∧ frame.idle = false := by
  cases frame with
  | user last => cases tests
  | get f =>
      obtain ⟨key, command, permission, euid, tag, ts, pc⟩ := f
      cases pc <;> cases tests
      exact ⟨rfl, rfl⟩
  | ctl f =>
      obtain ⟨tag, command, euid, ts, index, awakened, pc⟩ := f
      cases pc <;> cases tests
      all_goals exact ⟨rfl, rfl⟩
  | _ => exact ⟨rfl, rfl⟩

theorem changeBy_of_quiet (quiet : (st.thread t).frame.change = none) (e : Event τ)
    : st.changeBy t e = none := by
  cases e with
  | run u external =>
      simp only [State.changeBy]
      split
      · exact quiet
      · rfl
  | _ => rfl

/-- A service leaves its slot only after the registry has condemned it. -/
theorem slotted_of_step (run : (machine τ).Run Unheld h st) (step : st.step e = some st')
    (busy : (st.thread t).frame.idle = false) (quiet : (st.thread t).frame.change = none)
    (found : st.kernel.tsm.allTagServices i = some s)
    : st'.kernel.tsm.allTagServices i = some s
      ∨ ((st'.kernel.service s).lazyDeleted = true
        ∧ Looked t (st.thread t).calls (fun r => ∃ s, r i = .dying s) ((st, e) :: h)) := by
  refine (slot_of_step (Unheld.safe run) step found).imp_right fun doomed => ⟨?_, .here ?_⟩
  · obtain ⟨born, unfreed⟩ := (homes_run run).slot found
    exact lazyDeleted_of_step step born (kept_of_unfreed step unfreed) doomed
  · refine ⟨rfl, busy, ⟨(st.kernel.service s).registration, ?_⟩, changeBy_of_quiet quiet e⟩
    rw [State.entries, found, Kernel.entryOf_of_doomed doomed]

/-- What a call has found out stays so in every step. -/
theorem Justified.keep (run : (machine τ).Run Unheld h st) (ok : ReuseUnheld st e)
    (step : st.step e = some st') (x : Justified h st t (st.thread t).calls (st.thread t).frame)
    : Justified ((st, e) :: h) st' t (st.thread t).calls (st.thread t).frame where
  course := x.course
  tests {i s} tests := by
    obtain ⟨quiet, busy⟩ := quiet_of_tests tests
    rcases x.tests tests with found | ⟨doomed, earlier⟩
    · exact slotted_of_step run step busy quiet found
    · have held := tests_mem_pointers tests
      refine .inr ⟨?_, earlier.cons _ _⟩
      exact lazyDeleted_of_step step (pointers_born run t s held) (ok.kept_of_pointer held) doomed
  alive {i s} alive := by
    have held := alive_mem_pointers alive
    rw [registration_of_step step (pointers_born run t s held) (ok.kept_of_pointer held)]
    exact (x.alive alive).cons _ _
  settled settled call := (x.settled settled call).cons _ _

/-- Every call is justified in every run, by cases on the turn of its thread. -/
theorem justified_run (run : (machine τ).Run Unheld h st)
    : ∀ t, Justified h st t (st.thread t).calls (st.thread t).frame := by
  refine run.invariant
    (P := fun h st => ∀ t, Justified h st t (st.thread t).calls (st.thread t).frame)
    (fun t => show Justified [] .start t 0 (.user none) from
      justified_of_nothing trivial rfl rfl rfl) ?_
  intro h st e st' before justified ok step t
  have step : st.step e = some st' := step
  have kept := (justified t).keep before ok step
  cases turn_of_step step t with
  | rest _ thread =>
      rw [thread]
      exact kept
  | @enter euid c event idle thread =>
      rw [thread]
      cases c <;> exact justified_of_nothing trivial rfl rfl rfl
  | @go external frame event exec thread =>
      subst event
      rw [thread]
      show Justified _ st' t (st.thread t).calls frame
      have rightful := rightful_run before t
      have present (busy : (st.thread t).frame.idle = false)
          : Present h st st' t (st.thread t).calls (st.thread t).frame external := {
        here := rfl
        now := fun holds => .here ⟨rfl, busy, holds⟩
        old := justified t
        kept
        loads := fun quiet found => slotted_of_step before step busy quiet found
        same := fun held =>
          registration_of_step step (pointers_born before t _ held) (ok.kept_of_pointer held) }
      cases here : (st.thread t).frame with
      | user last =>
          rw [State.op, here] at exec
          cases exec
      | get f =>
          rw [State.op, here] at exec
          rw [here] at present
          exact justified_of_getMove before step (present rfl) exec
      | send f =>
          rw [State.op, here] at exec
          rw [here] at present
          exact justified_of_sendMove (present rfl) exec
      | receive f =>
          rw [State.op, here] at exec
          rw [here] at present rightful
          exact justified_of_receiveMove (present rfl) rightful exec
      | ctl f =>
          rw [State.op, here] at exec
          rw [here] at present
          exact justified_of_ctlMove before step (present rfl) exec

-----------------------------------------------------------------------------------------
-- Effects
-----------------------------------------------------------------------------------------

/-- A settled call keeps its value until it has returned, by cases on the move. -/
theorem settled_of_exec {k k' : Kernel τ} {c : CallId τ} {before after : Frame} {v : Int}
    (step : k.exec external (before.op c) = some (k', after)) (settled : before.settled = some v)
    : after.settled = some v ∨ after = .user (some v) := by
  cases before with
  | user last => cases settled
  | get f =>
      have move := getMove_of_exec step
      obtain ⟨key, command, permission, euid, tag, ts, pc⟩ := f
      cases move <;> first | (cases settled; done) | exact .inl settled | skip
      cases settled
      exact .inr rfl
  | send f =>
      have move := sendMove_of_exec step
      obtain ⟨tag, level, buffer, size, euid, realSize, stored, ts, pc⟩ := f
      cases move <;> first | (cases settled; done) | exact .inl settled | skip
      cases settled
      exact .inr rfl
  | receive f =>
      have move := receiveMove_of_exec step
      obtain ⟨tag, level, buffer, size, euid, ts, realSize, interrupted, copied, pc⟩ := f
      cases move <;> first | (cases settled; done) | exact .inl settled | skip
      cases settled
      exact .inr rfl
  | ctl f =>
      have move := ctlMove_of_exec step
      obtain ⟨tag, command, euid, ts, index, awakened, pc⟩ := f
      cases move <;> first | (cases settled; done) | exact .inl settled | skip
      · next after => cases after <;> exact .inl settled
      · cases settled
        exact .inr rfl

/-- A call returns the value that it has settled, by cases on the move. -/
theorem settled_of_return {k k' : Kernel τ} {c : CallId τ} {before : Frame} {v : Int}
    (step : k.exec external (before.op c) = some (k', .user (some v)))
    : before.settled = some v := by
  cases before with
  | user last => cases step
  | get f =>
      have move := getMove_of_exec step
      obtain ⟨key, command, permission, euid, tag, ts, pc⟩ := f
      generalize target : Frame.user (some v) = frame at move
      cases move <;> cases target
      rfl
  | send f =>
      have move := sendMove_of_exec step
      obtain ⟨tag, level, buffer, size, euid, realSize, stored, ts, pc⟩ := f
      generalize target : Frame.user (some v) = frame at move
      cases move <;> cases target
      rfl
  | receive f =>
      have move := receiveMove_of_exec step
      obtain ⟨tag, level, buffer, size, euid, ts, realSize, interrupted, copied, pc⟩ := f
      generalize target : Frame.user (some v) = frame at move
      cases move <;> cases target
      rfl
  | ctl f =>
      have move := ctlMove_of_exec step
      obtain ⟨tag, command, euid, ts, index, awakened, pc⟩ := f
      generalize target : Frame.user (some v) = frame at move
      cases move <;> cases target
      rfl

/-- A call takes effect where it publishes or marks its service, and is settled afterwards. -/
theorem settled_of_effect (run : (machine τ).Run Unheld h st)
    (step : st.step (.run t external) = some st')
    (effect : st.takesEffect t n (.run t external) = true)
    : (st.thread t).frame.settled = none
      ∧ ∃ v, (st'.thread t).frame.settled = some v
        ∧ ∀ {euid c},
            (st.thread t).frame.syscall = some (euid, c)
            → st.AnswersAt t euid c v (.run t external) := by
  have justified := justified_run run t
  rw [State.takesEffect, State.changeBy_run] at effect
  have effect := (Bool.and_eq_true_iff.mp effect).2
  cases turn_of_step step t with
  | rest other => exact absurd rfl (other external)
  | enter event => cases event
  | @go _ frame event exec thread =>
      cases event
      rw [thread]
      cases here : (st.thread t).frame with
      | get f =>
          rw [here] at effect justified
          rw [State.op, here] at exec
          obtain ⟨key, command, permission, euid, tag, ts, pc⟩ := f
          cases pc <;> simp only [Frame.change, Bool.false_eq_true] at effect
          obtain ⟨-, rfl⟩ := Prod.mk.inj (Option.some.inj exec)
          refine ⟨rfl, tag, rfl, fun {euid' c} call => ?_⟩
          cases call
          exact answers_of_publish run step here rfl justified.course
      | ctl f =>
          rw [here] at effect justified
          rw [State.op, here] at exec
          obtain ⟨tag, command, euid, ts, index, awakened, pc⟩ := f
          cases pc <;> simp only [Frame.change, Bool.false_eq_true] at effect
          obtain ⟨-, rfl⟩ := Prod.mk.inj (Option.some.inj exec)
          refine ⟨rfl, SUCCESS, rfl, fun {euid' c} call => ?_⟩
          cases call
          exact answers_of_delete run step here rfl justified.course
      | _ => rw [here] at effect; cases effect

/-- A call has entered or condemned a service at most once, and its value is the answer that the
registry gave then.
-/
structure Effected (h : History (State τ) (Event τ)) (t : τ) (n : Nat) (frame : Frame) : Prop where
  answers
    : ∀ {euid c st₁ e₁},
        frame.syscall = some (euid, c)
        → (st₁, e₁) ∈ h
        → st₁.takesEffect t n e₁ = true
        → ∃ v, frame.settled = some v ∧ st₁.AnswersAt t euid c v e₁
  once
    : frame.idle = false → tally (State.takesEffect t n) h ≤ if frame.settled.isSome then 1 else 0

theorem effected_run (run : (machine τ).Run Unheld h st)
    : ∀ t, Effected h t (st.thread t).calls (st.thread t).frame := by
  refine run.invariant (P := fun h st => ∀ t, Effected h t (st.thread t).calls (st.thread t).frame)
    (fun t => ⟨fun call => (by cases call), fun busy => (by cases busy)⟩) ?_
  intro h st e st' before effected _ step t
  have step : st.step e = some st' := step
  have old := effected t
  cases turn_of_step step t with
  | rest other thread =>
      have quiet : st.takesEffect t (st.thread t).calls e = false := by
        cases e with
        | run u external =>
            have apart : u ≠ t := fun same => other external (by rw [same])
            simp [State.takesEffect, State.changeBy, apart]
        | _ => simp [State.takesEffect, State.changeBy]
      rw [thread]
      refine ⟨fun call member effect => ?_, fun busy => ?_⟩
      · rcases List.mem_cons.mp member with same | earlier
        · cases same
          simp [quiet] at effect
        · exact old.answers call earlier effect
      · rw [tally_cons, quiet]
        exact old.once busy
  | @enter euid c event idle thread =>
      subst event
      -- No moment of the past belongs to the new call.
      have none_ {st₁ : State τ} {e₁ : Event τ} (member : (st₁, e₁) ∈ (st, .call t euid c) :: h)
          : st₁.takesEffect t ((st.thread t).calls + 1) e₁ = false := by
        rcases List.mem_cons.mp member with same | earlier
        · cases same
          simp [State.takesEffect]
        · have bound := calls_le_of_mem (t := t) before earlier
          have other : (st₁.thread t).calls ≠ (st.thread t).calls + 1 := by omega
          simp [State.takesEffect, other]
      rw [thread]
      refine ⟨fun _ member effect => ?_, fun _ => ?_⟩
      · simp [none_ member] at effect
      · refine (List.countP_eq_zero.mpr fun moment member => ?_).trans_le (Nat.zero_le _)
        rw [none_ member]
        exact Bool.false_ne_true
  | @go external frame event exec thread =>
      subst event
      have going : (st.thread t).frame.idle = false := by
        cases here : (st.thread t).frame with
        | user last => rw [State.op, here] at exec; cases exec
        | _ => rfl
      have same := Kernel.exec_sameCall exec
      have once := old.once going
      cases effect : st.takesEffect t (st.thread t).calls (.run t external) with
      | true =>
          obtain ⟨unsettled, v, settled, answers⟩ := settled_of_effect before step effect
          rw [unsettled] at once
          rw [thread] at settled ⊢
          refine ⟨fun {euid c st₁ e₁} call member effect₁ => ?_, fun busy => ?_⟩
          · have busy : frame.idle = false := by cases frame <;> first | rfl | cases call
            have call : (st.thread t).frame.syscall = some (euid, c) :=
              (Frame.syscall_of_sameCall same busy).symm.trans call
            rcases List.mem_cons.mp member with now | earlier
            · cases now
              exact ⟨v, settled, answers call⟩
            · obtain ⟨v', settled', -⟩ := old.answers call earlier effect₁
              cases unsettled.symm.trans settled'
          · rw [tally_cons, effect, settled]
            exact Nat.succ_le_succ once
      | false =>
          rw [thread]
          refine ⟨fun {euid c st₁ e₁} call member effect₁ => ?_, fun busy => ?_⟩
          · have busy : frame.idle = false := by cases frame <;> first | rfl | cases call
            have call : (st.thread t).frame.syscall = some (euid, c) :=
              (Frame.syscall_of_sameCall same busy).symm.trans call
            rcases List.mem_cons.mp member with now | earlier
            · cases now
              simp [effect] at effect₁
            · obtain ⟨v, settled, answers⟩ := old.answers call earlier effect₁
              refine ⟨v, (settled_of_exec exec settled).resolve_right ?_, answers⟩
              rintro rfl
              cases busy
          · rw [tally_cons, effect]
            refine Nat.le_trans once ?_
            cases settled : (st.thread t).frame.settled with
            | none => exact Nat.zero_le _
            | some v =>
                have kept := (settled_of_exec exec settled).resolve_right (by rintro rfl; cases busy)
                rw [show frame.settled = some v from kept]

/-- A call that returns has been answered by the registry at one moment between its entry and its
return. If it has entered a service or condemned one, it has done so once, and its value is the
answer at that moment too.
-/
theorem linearizable (run : (machine τ).Run Unheld h st) {euid v : Int} {c : Syscall}
    (call : (st.thread t).frame.syscall = some (euid, c))
    (step : st.step (.run t external) = some st')
    (returned : (st'.thread t).frame = .user (some v))
    : During t (st.thread t).calls (fun st₁ e₁ => st₁.AnswersAt t euid c v e₁) h
      ∧ (∀ st₁ e₁,
          (st₁, e₁) ∈ h
          → st₁.takesEffect t (st.thread t).calls e₁ = true
          → st₁.AnswersAt t euid c v e₁)
      ∧ tally (State.takesEffect t (st.thread t).calls) h ≤ 1 := by
  have settled : (st.thread t).frame.settled = some v := by
    cases turn_of_step step t with
    | rest other => exact absurd rfl (other external)
    | enter event => cases event
    | @go _ frame event exec thread =>
        obtain rfl : frame = .user (some v) := by rw [← returned, thread]
        exact settled_of_return exec
  have effected := effected_run run t
  refine ⟨(justified_run run t).settled settled call, fun st₁ e₁ member effect => ?_, ?_⟩
  · obtain ⟨v', settled', answers⟩ := effected.answers call member effect
    obtain rfl := Option.some.inj (settled.symm.trans settled')
    exact answers
  · have busy : (st.thread t).frame.idle = false := by
      cases here : (st.thread t).frame <;> rw [here] at call <;> first | rfl | cases call
    exact (effected.once busy).trans (by split <;> decide)

/-- A sender loads the service, another call removes it from beginning to end, and the sender returns
`-EBADF`: the registry has answered it in between.
-/
theorem linearizable_of_sender
    : ∃ h st st',
        (machine (Fin 2)).Run Unheld h st
        ∧ st.step (.run 1 0) = some st'
        ∧ (st'.thread 1).frame = .user (some (-EBADF))
        ∧ During 1 (st.thread 1).calls
            (fun st₁ e₁ => st₁.AnswersAt 1 0 (.tagSend 1 3 [104, 105] 2) (-EBADF) e₁) h := by
  obtain ⟨h, st, run, facts⟩ := Machine.Run.exists_of_replay
    (M := machine (Fin 2)) (G := Unreused)
    (creating 0 1 ++ sending 1 1 3 [104, 105] 4 ++ removing 0 1 22 ++ runs 1 4)
    (fun _ st =>
      decide ((st.thread 1).frame.syscall = some (0, .tagSend 1 3 [104, 105] 2))
      && (st.step (.run 1 0)).any fun st' => (st'.thread 1).frame.result == some (-EBADF))
    (by decide +kernel)
  have run := Unreused.unheld run
  obtain ⟨call, returns⟩ := Bool.and_eq_true_iff.mp facts
  obtain ⟨st', step, result⟩ := (Option.any_eq_true _ _).mp returns
  have returned := Frame.eq_user_of_result (eq_of_beq result)
  exact ⟨h, st, st', run, step, returned,
    (linearizable run (of_decide_eq_true call) step returned).1⟩

end TagExchange
