import TagExchange.Properties.DeviceLocks
import TagExchange.Properties.OpenTag
import TagExchange.Properties.SlotRegistry
import TagExchange.Properties.StalePointers

/-! Runs in which a call begins only when all others are over. Between two calls the registry is
at rest: its counter is exact, and no mutex of a free entry or of a device is taken.
-/

namespace TagExchange

open Concurrency Protocol

variable {τ : Type}

/-- No call is going on. -/
def State.Idle (st : State τ) : Prop :=
  ∀ t, (st.thread t).frame.idle = true

/-- A call begins only when no call is going on, and creations use keys that hash into the
arrays.
-/
def Sequential : Guard (State τ) (Event τ) :=
  fun _ st e =>
    match e with
    | .call _ _ _ => st.Idle ∧ HashInRange e
    | _ => True

theorem Sequential.hashInRange {h : History (State τ) (Event τ)} {st : State τ} {e : Event τ}
    (ok : Sequential h st e)
    : HashInRange e := by
  cases e with
  | call t euid c => exact ok.2
  | _ => trivial

instance [Fintype τ] (st : State τ) : Decidable st.Idle :=
  inferInstanceAs (Decidable (∀ _, _))

instance [Fintype τ] (h : History (State τ) (Event τ)) (st : State τ) (e : Event τ)
    : Decidable (Sequential h st e) :=
  match e with
  | .call t euid c => inferInstanceAs (Decidable (st.Idle ∧ HashInRange (.call t euid c)))
  | .run _ _ | .softirq _ | .signal _ | .reuse _ _ => isTrue trivial

-----------------------------------------------------------------------------------------
-- One call at a time
-----------------------------------------------------------------------------------------

/-- At most one call is going on, and it points to no service that has been freed. -/
structure State.OneAtATime (st : State τ) : Prop where
  one : ∀ {t u}, (st.thread t).frame.idle = false → (st.thread u).frame.idle = false → t = u
  alive : ∀ t, ∀ s ∈ (st.thread t).frame.pointers, st.kernel.freed s = false

theorem idle_of_pointer {frame : Frame} {s : Ref} (held : s ∈ frame.pointers)
    : frame.idle = false := by
  cases frame with
  | user last => exact absurd held List.not_mem_nil
  | _ => rfl

theorem oneAtATime_start : (State.start : State τ).OneAtATime where
  one going := nomatch going
  alive _ _ held := absurd held List.not_mem_nil

variable [DecidableEq τ] {h : History (State τ) (Event τ)} {st st' : State τ} {e : Event τ} {t : τ}

/-- What has been freed is pointed to by no call and by no callback. -/
theorem State.OneAtATime.unheld (x : st.OneAtATime) (safe : Safe st.kernel.core st.view)
    (step : st.step e = some st')
    : ReuseUnheld st e := by
  cases State.steps_of_step step with
  | @reuse s ts freed =>
      refine ⟨fun t held => ?_, fun b member same => ?_⟩
      · simp [x.alive t s held] at freed
      · have unfreed : st.kernel.freed b.service = false :=
          (safe.slots (safe.callback b member).live.1).2
        simp [same, freed] at unfreed
  | _ => trivial

/-- Every event keeps it so: a removal that frees its service is done with it. -/
theorem State.OneAtATime.step (x : st.OneAtATime) (safe : Safe st.kernel.core st.view)
    (ok : Sequential h st e) (step : st.step e = some st')
    : st'.OneAtATime := by
  cases State.steps_of_step step with
  | @call t euid c last user =>
      refine ⟨fun {u v} going going' => ?_, fun u s held => ?_⟩
      · rw [State.setThread_frame] at going going'
        split at going
        · next here =>
            split at going'
            · next there => exact here.trans there.symm
            · simp [ok.1 v] at going'
        · simp [ok.1 u] at going
      · rw [State.setThread_frame] at held
        split at held
        · cases c <;> exact absurd held List.not_mem_nil
        · exact x.alive u s held
  | @run t external k frame exec =>
      have busy : (st.thread t).frame.idle = false := by
        cases here : (st.thread t).frame with
        | user last => rw [State.op, here] at exec; cases exec
        | _ => rfl
      have going {u} (now : (({ st with kernel := k }.setThread t
          ⟨(st.thread t).calls, frame⟩).thread u).frame.idle = false) : u = t := by
        rw [State.setThread_frame] at now
        split at now
        · next here => exact here
        · exact x.one now busy
      refine ⟨fun now now' => (going now).trans (going now').symm, fun u s held => ?_⟩
      obtain rfl := going (idle_of_pointer held)
      simp only [State.setThread, Function.update_self] at held ⊢
      have kept : (st.op u).frees ≠ some s := by
        intro frees
        have done := Kernel.exec_yields (pointers_of_frees frees) exec
        simp [done] at held
      rw [Kernel.exec_freed exec kept]
      rcases pointers_of_exec exec s held with before | ⟨i, found⟩ | ⟨rfl, -⟩
      · exact x.alive u s before
      · exact (safe.slots found).2
      · exact safe.unborn (Nat.le_refl _)
  | @softirq n b k next ready exec =>
      refine ⟨x.one, fun u s held => ?_⟩
      have unfreed : b.op.frees ≠ some s := by
        obtain ⟨job, r, stage, caller⟩ := b
        cases job <;> cases stage <;> exact fun frees => by cases frees
      show k.freed s = false
      rw [Kernel.exec_freed exec unfreed]
      exact x.alive u s held
  | signal busy => exact ⟨x.one, x.alive⟩
  | reuse freed => exact ⟨x.one, x.alive⟩

/-- In a sequential run freed memory that somebody points to is never given out again, by
induction on the run.
-/
theorem sequential_unheld (run : (machine τ).Run Sequential h st)
    : (machine τ).Run Unheld h st ∧ st.OneAtATime := by
  induction run with
  | start => exact ⟨.start, oneAtATime_start⟩
  | next before ok step ih =>
      obtain ⟨unheld, x⟩ := ih
      have safe := Unheld.safe unheld
      exact ⟨unheld.next (x.unheld safe step) step, x.step safe ok step⟩

theorem sequential_registry (run : (machine τ).Run Sequential h st) : RegistryInvariant st :=
  run.invariant (P := fun _ st => RegistryInvariant st) registryInvariant_start
    fun before x ok step =>
      have past := sequential_unheld before
      x.step (past.2.unheld x.safe step).unseen ok.hashInRange step

-----------------------------------------------------------------------------------------
-- Between two calls
-----------------------------------------------------------------------------------------

/-- The registry and the devices when no call is going on. -/
structure Kernel.Resting (k : Kernel τ) : Prop where
  hint : IsTag k.tsm.firstFreeEntry
  counted : k.tsm.remainingEntries = freeSlots k.tsm.allTagServices
  unlocked : ∀ i, k.tsm.allTagServices i = none → k.tsm.accessLock i = false
  devices : ∀ i, k.dm.deviceLock i = false
  unborn : ∀ s, k.services ≤ s → k.freed s = false

omit [DecidableEq τ] in
/-- The mutex of a free entry has no owner: no thread is inside, and a callback gives back the
mutex of a registered service.
-/
theorem unlocked_of_idle (safe : Safe st.kernel.core st.view) (idle : st.Idle) {i : Int}
    (free : st.kernel.tsm.allTagServices i = none)
    : st.kernel.tsm.accessLock i = false := by
  cases held : st.kernel.tsm.accessLock i with
  | false => rfl
  | true =>
      rcases (safe.excl.held i).mp held with ⟨t, inside⟩ | pending
      · obtain ⟨last, user⟩ := Frame.eq_user_of_idle (idle t)
        simp [State.view, user, Frame.view, View.lock] at inside
      · obtain ⟨b, member, rfl⟩ := List.mem_map.mp pending
        have live := (safe.callback b member).live.1
        simp only [Kernel.core_slot] at live
        rw [free] at live
        cases live

theorem resting_of_idle (run : (machine τ).Run Sequential h st) (idle : st.Idle)
    : st.kernel.Resting := by
  have x := sequential_registry run
  have user (t : τ) : ∃ last, (st.thread t).frame = .user last := Frame.eq_user_of_idle (idle t)
  refine ⟨x.hint, x.quiescent fun t => ?_, fun i => unlocked_of_idle x.safe idle, fun i => ?_,
    fun s unborn => x.safe.unborn unborn⟩
  · obtain ⟨last, user⟩ := user t
    rw [user]
    exact ⟨rfl, rfl⟩
  · cases held : st.kernel.dm.deviceLock i with
    | false => rfl
    | true =>
        rcases ((exclusive_run (sequential_unheld run).1).held i).mp held with ⟨t, inside⟩ | none_
        · obtain ⟨last, user⟩ := user t
          simp [user, Frame.deviceHolds] at inside
        · exact absurd none_ List.not_mem_nil

/-- A call that begins between two calls and runs alone prolongs a sequential run. -/
theorem sequential_append (run : (machine τ).Run Sequential h st) (idle : st.Idle) {euid : Int}
    {c : Syscall} (hash : HashInRange (.call t euid c)) {st₁ : State τ}
    (entered : st.step (.call t euid c) = some st₁) {h' : History (State τ) (Event τ)}
    (alone : ((machine τ).startAt st₁).Run (OnlyBy t) h' st')
    : (machine τ).Run Sequential (h' ++ (st, .call t euid c) :: h) st' := by
  have ok : Sequential h st (.call t euid c) := ⟨idle, hash⟩
  have began := run.next ok entered
  refine began.append alone fun {newer s e} ok => ?_
  cases e with
  | call => exact ok.elim
  | _ => trivial

/-- Nobody else takes a step while a call runs alone. -/
theorem others_of_alone {st₁ : State τ} (alone : ((machine τ).startAt st₁).Run (OnlyBy t) h st) {u : τ}
    (other : u ≠ t)
    : st.thread u = st₁.thread u := by
  refine alone.invariant (P := fun _ st => st.thread u = st₁.thread u) rfl ?_
  intro h st e st' _ same ok step
  cases State.steps_of_step step with
  | call => exact ok.elim
  | @run v external k frame exec =>
      obtain rfl : v = t := ok
      simpa [State.setThread, Function.update_of_ne other] using same
  | _ => exact same

/-- When the call is over, no call is going on. -/
theorem idle_of_alone (idle : st.Idle) {euid : Int} {c : Syscall} {st₁ : State τ}
    (entered : st.step (.call t euid c) = some st₁) {h' : History (State τ) (Event τ)}
    (alone : ((machine τ).startAt st₁).Run (OnlyBy t) h' st') {last : Option Int}
    (returned : (st'.thread t).frame = .user last)
    : st'.Idle := by
  intro u
  rcases eq_or_ne u t with rfl | other
  · rw [returned]
    rfl
  · rw [others_of_alone alone other]
    cases State.steps_of_step entered with
    | call user =>
        rw [State.setThread_frame, if_neg other]
        exact idle u

end TagExchange
