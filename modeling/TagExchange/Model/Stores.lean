import TagExchange.Model.Calls

/-! The store that an event makes into a service, and what it changes of a level and of the
flags that receivers test.
-/

namespace TagExchange

open Concurrency

variable {τ : Type}

-----------------------------------------------------------------------------------------
-- The store of an event
-----------------------------------------------------------------------------------------

/-- The store of a callback at its stage. -/
def Callback.writes (b : Callback τ) : Option (Ref × Write) :=
  match b.job, b.stage with
  | .freeAfterSend l, .clear => some (b.service, .messageReady l false)
  | .freeAfterSend l, .zero => some (b.service, .memset l)
  | .resetAwakeCondition, .clear => some (b.service, .awakeRequest false)
  | _, _ => none

theorem Callback.op_writes (b : Callback τ) : b.op.writes = b.writes := by
  obtain ⟨job, s, stage, caller⟩ := b
  cases job <;> cases stage <;> rfl

/-- The event overwrites this service as freed memory. -/
def Event.reuses : Event τ → Option Ref
  | reuse s _ => some s
  | _ => none

variable [DecidableEq τ]

/-- The store into a service that an event makes. -/
def State.writes (st : State τ) : Event τ → Option (Ref × Write)
  | .run t _ => (st.thread t).frame.writes
  | .softirq n =>
      match st.callback n with
      | some b => b.writes
      | none => none
  | _ => none

variable {st st' : State τ} {e : Event τ} {s : Ref}

omit [DecidableEq τ] in
/-- A store is one of a call or of a callback. -/
theorem writes_cases {w : Write} (writes : st.writes e = some (s, w))
    : (∃ u external, e = .run u external ∧ (st.thread u).frame.writes = some (s, w))
      ∨ ∃ n b, e = .softirq n ∧ st.callback n = some b ∧ b.writes = some (s, w) := by
  cases e with
  | run u external => exact .inl ⟨u, external, rfl, writes⟩
  | softirq n =>
      simp only [State.writes] at writes
      split at writes
      · next b found => exact .inr ⟨n, b, rfl, found, writes⟩
      · cases writes
  | _ => cases writes

/-- A service that exists changes by the store of the event only, unless its memory is
reused.
-/
theorem service_of_step (step : st.step e = some st') (born : s < st.kernel.services)
    (kept : e.reuses ≠ some s)
    : st'.kernel.service s = match st.writes e with
        | some (r, w) => if s = r then w.apply (st.kernel.service s) else st.kernel.service s
        | none => st.kernel.service s := by
  cases State.steps_of_step step with
  | call user => rfl
  | @run t external k frame exec =>
      have service := Kernel.exec_service exec born
      rw [State.op, op_writes] at service
      exact service
  | @softirq n b k next ready exec =>
      have service := Kernel.exec_service exec born
      have here : st.callback n = some b := ready
      simp only [State.writes, here]
      rw [Callback.op_writes] at service
      exact service
  | signal busy => rfl
  | @reuse r ts freed =>
      have other : s ≠ r := fun same => kept (by rw [same]; rfl)
      simp only [State.writes, Function.update_of_ne other]

theorem services_of_step (step : st.step e = some st') : st.kernel.services ≤ st'.kernel.services := by
  cases State.steps_of_step step with
  | run exec => exact Kernel.exec_services exec
  | softirq ready exec =>
      have grows := Kernel.exec_services exec
      exact grows
  | _ => exact Nat.le_refl _

theorem unfreed_of_step (step : st.step e = some st') (unfreed : st'.kernel.freed s = false)
    : st.kernel.freed s = false := by
  cases State.steps_of_step step with
  | run exec => exact Kernel.exec_unfreed exec unfreed
  | softirq ready exec => exact Kernel.exec_unfreed exec unfreed
  | _ => exact unfreed

/-- Only freed memory is reused. -/
theorem kept_of_unfreed (step : st.step e = some st') (unfreed : st.kernel.freed s = false)
    : e.reuses ≠ some s := by
  cases State.steps_of_step step with
  | @reuse r ts freed =>
      intro same
      obtain rfl : r = s := Option.some.inj same
      simp [unfreed] at freed
  | _ => exact fun same => by cases same

/-- A service that a step adds is as a creation fills it. -/
theorem created_of_step (step : st.step e = some st') (unborn : ¬ s < st.kernel.services)
    (born : s < st'.kernel.services)
    : ∃ key tag permission euid,
        st'.kernel.service s = TagService.created key tag permission euid := by
  have created {α : Type} {k : Kernel τ} {external : Nat} {op : Op τ α} {a : α}
      (exec : st.kernel.exec external op = some (k, a)) (born : s < k.services)
      : ∃ ts, op.allocates = some ts ∧ k.service s = ts := by
    cases allocates : op.allocates with
    | none => exact absurd (Kernel.exec_allocates_none exec allocates ▸ born) unborn
    | some ts =>
        obtain ⟨services, service, -⟩ := Kernel.exec_allocates exec allocates
        have bound : s < st.kernel.services + 1 := services ▸ born
        obtain rfl : s = st.kernel.services :=
          Nat.le_antisymm (Nat.le_of_lt_succ bound) (Nat.not_lt.mp unborn)
        exact ⟨ts, rfl, by rw [service, Function.update_self]⟩
  cases State.steps_of_step step with
  | run exec =>
      obtain ⟨ts, allocates, here⟩ := created exec born
      rw [State.op, op_allocates] at allocates
      obtain ⟨key, tag, permission, euid, rfl⟩ := Frame.eq_created_of_allocates allocates
      exact ⟨key, tag, permission, euid, here⟩
  | @softirq n b k next ready exec =>
      obtain ⟨ts, allocates, -⟩ := created exec born
      obtain ⟨job, r, stage, caller⟩ := b
      cases job <;> cases stage <;> cases allocates
  | _ => exact absurd born unborn

/-- A field that no store changes is the same in all states of a service, unless its memory
is reused.
-/
theorem field_of_step {φ : Type} {field : TagService → φ}
    (constant : ∀ ts (w : Write), field (w.apply ts) = field ts) (step : st.step e = some st')
    (born : s < st.kernel.services) (kept : e.reuses ≠ some s)
    : field (st'.kernel.service s) = field (st.kernel.service s) := by
  rw [service_of_step step born kept]
  split
  · split
    · exact constant _ _
    · rfl
  · rfl

-----------------------------------------------------------------------------------------
-- Levels
-----------------------------------------------------------------------------------------

/-- The level whose message or size a store changes. -/
def Write.fills : Write → Option Int
  | memcpy l _ _ | terminator l _ | size l _ | memset l => some l
  | _ => none

omit [DecidableEq τ] in
theorem Write.apply_ready (ts : TagService) (w : Write) (l : Int)
    : ((w.apply ts).level l).messageReady
      = match w with
        | messageReady k ready => if l = k then ready else (ts.level l).messageReady
        | _ => (ts.level l).messageReady := by
  cases w <;> simp only [apply, TagService.onLevel_level] <;> split <;> rfl

omit [DecidableEq τ] in
theorem Write.apply_message {ts : TagService} {w : Write} {l : Int} (other : w.fills ≠ some l)
    : ((w.apply ts).level l).message = (ts.level l).message
      ∧ ((w.apply ts).level l).size = (ts.level l).size := by
  cases w <;> simp only [apply, TagService.onLevel_level]
  case memcpy k n source => simp [show l ≠ k from fun same => other (by rw [same]; rfl)]
  case terminator k n => simp [show l ≠ k from fun same => other (by rw [same]; rfl)]
  case size k n => simp [show l ≠ k from fun same => other (by rw [same]; rfl)]
  case memset k => simp [show l ≠ k from fun same => other (by rw [same]; rfl)]
  all_goals
    first
    | exact ⟨trivial, trivial⟩
    | split <;> exact ⟨rfl, rfl⟩

omit [DecidableEq τ] in
theorem Write.apply_awake (ts : TagService) (w : Write)
    : (w.apply ts).awakeRequest
      = match w with
        | awakeRequest yes => yes
        | _ => ts.awakeRequest := by
  cases w <;> rfl

/-- A level is `READY`. -/
def State.ready (st : State τ) (s : Ref) (l : Int) : Bool :=
  ((st.kernel.service s).level l).messageReady

/-- `awake_request` of a service is set. -/
def State.awake (st : State τ) (s : Ref) : Bool :=
  (st.kernel.service s).awakeRequest

/-- A level becomes `READY` only by a store of that. -/
theorem ready_of_step (step : st.step e = some st') {l : Int} (kept : e.reuses ≠ some s)
    (born : s < st'.kernel.services) (now : st'.ready s l = true)
    : (st.ready s l = true ∧ s < st.kernel.services)
      ∨ st.writes e = some (s, .messageReady l true) := by
  by_cases old : s < st.kernel.services
  · rw [State.ready, service_of_step step old kept] at now
    split at now
    · next r w writes =>
        split at now
        · next same =>
            subst same
            rw [Write.apply_ready] at now
            split at now
            · next k ready =>
                split at now
                · next same =>
                    subst same
                    subst now
                    exact .inr writes
                · exact .inl ⟨now, old⟩
            · exact .inl ⟨now, old⟩
        · exact .inl ⟨now, old⟩
    · exact .inl ⟨now, old⟩
  · obtain ⟨key, tag, permission, euid, created⟩ := created_of_step step old born
    simp [State.ready, created, TagService.created] at now

/-- A level stays `READY` unless a store takes that back. -/
theorem ready_kept (step : st.step e = some st') {l : Int} (born : s < st.kernel.services)
    (kept : e.reuses ≠ some s) (ready : st.ready s l = true)
    (cleared : st.writes e ≠ some (s, .messageReady l false))
    : st'.ready s l = true := by
  rw [State.ready, service_of_step step born kept]
  split
  · next r w writes =>
      split
      · next same =>
          subst same
          rw [Write.apply_ready]
          split
          · next k now =>
              split
              · next same =>
                  subst same
                  cases now with
                  | true => rfl
                  | false => exact absurd writes cleared
              · exact ready
          · exact ready
      · exact ready
  · exact ready

/-- `awake_request` is set only by a store of that. -/
theorem awake_of_step (step : st.step e = some st') (kept : e.reuses ≠ some s)
    (born : s < st'.kernel.services) (now : st'.awake s = true)
    : (st.awake s = true ∧ s < st.kernel.services) ∨ st.writes e = some (s, .awakeRequest true) := by
  by_cases old : s < st.kernel.services
  · rw [State.awake, service_of_step step old kept] at now
    split at now
    · next r w writes =>
        split at now
        · next same =>
            subst same
            rw [Write.apply_awake] at now
            split at now
            · next yes =>
                subst now
                exact .inr writes
            · exact .inl ⟨now, old⟩
        · exact .inl ⟨now, old⟩
    · exact .inl ⟨now, old⟩
  · obtain ⟨key, tag, permission, euid, created⟩ := created_of_step step old born
    simp [State.awake, created, TagService.created] at now

end TagExchange
