import TagExchange.Model.Effects
import TagExchange.Model.Mounting
import TagExchange.Properties.MountRoundTrip

/-! The RCU callbacks against unmounting: `end` does not wait for the callbacks that are registered. -/

namespace TagExchange

open Concurrency

variable {τ : Type} [DecidableEq τ] {m : KernelMemory} {h : Hacked} {f : Handlers h.niSyscall}
  {past : History (Mounting τ) (MountEvent τ)} {st st' : Mounting τ} {e : MountEvent τ}

-----------------------------------------------------------------------------------------
-- Callbacks
-----------------------------------------------------------------------------------------

/-- The callbacks that are registered and have not finished. -/
def Mounting.callbacks (st : Mounting τ) : List (Callback τ) := st.base.kernel.rcu.callbacks

/-- No callback is registered when `end` begins to free, and none is registered from then on. -/
def Mounting.Settled (st : Mounting τ) : MountEvent τ → Prop
  | .step _ => st.pc = .kfree → st.callbacks = []
  | .base (.run t _) => st.pc.freeing = true → (st.base.op t).registers = none
  | _ => True

instance (st : Mounting τ) (e : MountEvent τ) : Decidable (st.Settled e) :=
  match e with
  | .step _ => inferInstanceAs (Decidable (st.pc = .kfree → st.callbacks = []))
  | .base (.run t _) =>
      inferInstanceAs (Decidable (st.pc.freeing = true → (st.base.op t).registers = none))
  | .base (.call ..) | .base (.softirq _) | .base (.signal _) | .base (.reuse ..) | .unmount =>
      isTrue trivial

def Settled : Guard (Mounting τ) (MountEvent τ) := fun _ st e => st.Settled e

instance (past : History (Mounting τ) (MountEvent τ)) (st : Mounting τ) (e : MountEvent τ)
    : Decidable (Settled past st e) :=
  inferInstanceAs (Decidable (st.Settled e))

/-- Where no callback is left and none is registered, none is left after a step of the module. -/
theorem callbacks_eq_nil_of_step {st st' : State τ} {e : Event τ} (step : st.step e = some st')
    (none_ : st.kernel.rcu.callbacks = [])
    (quiet : ∀ t external, e = .run t external → (st.op t).registers = none)
    : st'.kernel.rcu.callbacks = [] := by
  cases State.steps_of_step step with
  | call user => exact none_
  | run exec =>
      have after := Kernel.exec_callbacks exec
      rw [quiet _ _ rfl, none_] at after
      exact after
  | softirq ready exec => rw [Rcu.ready?_of_callbacks_eq_nil _ none_] at ready; cases ready
  | signal busy => exact none_
  | reuse freed => exact none_

-----------------------------------------------------------------------------------------
-- Steps of the module's life
-----------------------------------------------------------------------------------------

/-- A step of `start` or `end` after which services are being freed: it was so before, or `end` is just
about to begin; it registers no callback.
-/
theorem freeing_of_advance {external : Nat} (step : st.advance m h f external = some st')
    (freeing : st'.pc.freeing = true)
    : (st.pc.freeing = true ∨ st.pc = .kfree) ∧ st'.callbacks = st.callbacks := by
  obtain ⟨base, pc, cpu, registry, accessLocks, dm, deviceLocks, tsMajor, tsClass, initialised⟩ := st
  cases pc with
  | kfree => cases step; exact ⟨.inr rfl, rfl⟩
  | services i =>
      refine ⟨.inl rfl, ?_⟩
      simp only [Mounting.advance] at step
      split at step
      · split at step
        · cases step
          rfl
        · cases step
          rfl
      · cases step
        rfl
  | kzfree => cases step; exact ⟨.inl rfl, rfl⟩
  | mutexDestroy => cases step; exact ⟨.inl rfl, rfl⟩
  | uninstall rest =>
      refine ⟨.inl rfl, ?_⟩
      cases rest with
      | nil => cases step; rfl
      | cons p rest =>
          obtain ⟨r, -, rfl⟩ := Option.map_eq_some_iff.mp step
          rfl
  | install rest =>
      cases rest with
      | nil => cases step; cases freeing
      | cons p rest =>
          obtain ⟨r, -, rfl⟩ := Option.map_eq_some_iff.mp step
          cases freeing
  | device i pc =>
      obtain ⟨⟨k, next⟩, -, rfl⟩ := Option.map_eq_some_iff.mp step
      cases next <;> cases freeing
  | deviceMutexes =>
      obtain ⟨-, same⟩ := Option.ite_none_right_eq_some.mp step
      cases same
      cases freeing
  | devices i =>
      cases step
      simp only [Mounting.at_] at freeing
      split at freeing
      · split at freeing <;> cases freeing
      · cases freeing
  | finder => cases step; simp only [Mounting.at_] at freeing; split at freeing <;> cases freeing
  | kzalloc => cases step; split at freeing <;> cases freeing
  | region => cases step; split at freeing <;> cases freeing
  | classCreate => cases step; split at freeing <;> cases freeing
  | mounted | failed | unmounted => cases step
  | _ => cases step; cases freeing

/-- What unmounting waits for has happened: services are freed only where no callback is left, and no
callback has run while they were.
-/
structure Quiet (past : History (Mounting τ) (MountEvent τ)) (st : Mounting τ) : Prop where
  none_ : st.pc.freeing = true → st.callbacks = []
  before : ∀ {st₀ n}, (st₀, .base (.softirq n)) ∈ past → st₀.pc.freeing = false

theorem Quiet.step (x : Quiet past st) (ok : st.Settled e) (step : st.step m h f e = some st')
    : Quiet ((st, e) :: past) st' := by
  obtain ⟨none_, before⟩ := x
  refine ⟨fun freeing => ?_, fun {st₀ n} member => ?_⟩
  · cases e with
    | base e =>
        obtain ⟨-, same⟩ := Option.ite_none_right_eq_some.mp step
        obtain ⟨base, inner, rfl⟩ := Option.map_eq_some_iff.mp same
        refine callbacks_eq_nil_of_step inner (none_ freeing) fun t external event => ?_
        subst event
        exact ok freeing
    | step external =>
        obtain ⟨here, same⟩ := freeing_of_advance step freeing
        rw [same]
        exact here.elim none_ ok
    | unmount =>
        simp only [Mounting.step] at step
        split at step
        · obtain ⟨-, same⟩ := Option.ite_none_right_eq_some.mp step
          cases same
          cases freeing
        · cases step
  · rcases List.mem_cons.mp member with now | earlier
    · cases now
      refine Bool.eq_false_iff.mpr fun freeing => ?_
      simp only [Mounting.step] at step
      obtain ⟨-, same⟩ := Option.ite_none_right_eq_some.mp step
      obtain ⟨base, inner, rfl⟩ := Option.map_eq_some_iff.mp same
      have left := none_ freeing
      cases State.steps_of_step inner with
      | softirq ready exec => rw [Rcu.ready?_of_callbacks_eq_nil _ left] at ready; cases ready
    · exact before earlier

/-- Where no callback is registered when `end` begins to free, or later, no callback runs after that. -/
theorem no_late_callback (run : (mounting τ m h f).Run Settled past st)
    : ∀ st₀ n, (st₀, .base (.softirq n)) ∈ past → st₀.pc.freeing = false := by
  have quiet : Quiet past st := by
    induction run with
    | start => exact ⟨fun freeing => (by cases freeing), fun member => (by cases member)⟩
    | next before ok step ih => exact ih.step ok step
  exact fun st₀ n member => quiet.before member

/-- A callback whose grace period is over runs whenever the kernel lets it, also when `end` is freeing
what it uses.
-/
theorem softirq_enabled {n : Nat} {b : Callback τ} (ready : st.base.kernel.rcu.ready? n = some b)
    : ∃ st', st.step m h f (.base (.softirq n)) = some st' := by
  obtain ⟨job, s, stage, caller⟩ := b
  have performed : ∃ r, st.base.kernel.exec 0 (Callback.op ⟨job, s, stage, caller⟩) = some r := by
    cases job <;> cases stage <;> exact ⟨_, rfl⟩
  obtain ⟨r, exec⟩ := performed
  have inner
      : st.base.step (.softirq n)
        = some { st.base with kernel := { r.1 with rcu := r.1.rcu.advance n r.2 } } := by
    simp only [State.step, ready, exec]
  exact ⟨_, by rw [Mounting.step, if_pos (show st.allows h f (.softirq n) = true from rfl), inner]; rfl⟩

-----------------------------------------------------------------------------------------
-- Runs
-----------------------------------------------------------------------------------------

/-- The next `n` steps of `start` or `end`, with every allocation succeeding. -/
def mountSteps (n : Nat) : List (MountEvent τ) := List.replicate n (.step 0)

/-- A message for a sleeper, with everybody back from the calls; the callback of the sender is left. -/
def exchange (t u : τ) : List (MountEvent τ) :=
  (creating t 1 ++ fallingAsleep u 1 3 ++ sending t 1 3 [104, 105] 16 ++ runs u 22).map .base

/-- The callback has run before the module is unmounted. -/
theorem no_late_callback_of_exchange
    : ∃ past st,
        (mounting (Fin 2) memoryWithTable hackedOfMemory handlersOfModule).Run Settled past st
        ∧ st.pc = .services 2
        ∧ ∀ st₀ n, (st₀, .base (.softirq n)) ∈ past → st₀.pc.freeing = false := by
  obtain ⟨past, st, run, here⟩ := Machine.Run.exists_of_replay
    (M := mounting (Fin 2) memoryWithTable hackedOfMemory handlersOfModule) (G := Settled)
    (mountSteps 12 ++ exchange 0 1 ++ List.replicate 5 (.base (.softirq 0)) ++ .unmount
      :: mountSteps 523)
    (fun _ st => st.pc == .services 2) (by decide +kernel)
  exact ⟨past, st, run, eq_of_beq here, no_late_callback run⟩

/-- The module is unmounted while the callback of a sender is left, and the callback runs after `end` has
freed the service.
-/
theorem runs_late_callback
    : ¬ ∀ (m : KernelMemory) (h : Hacked) (f : Handlers h.niSyscall)
          (past : History (Mounting (Fin 2)) (MountEvent (Fin 2))) (st : Mounting (Fin 2)),
          syscallTableFinder m = some h
          → (mounting (Fin 2) m h f).Run anyStep past st
          → ∀ st₀ n, (st₀, .base (.softirq n)) ∈ past → st₀.pc.freeing = false := by
  intro always
  obtain ⟨past, st, run, late⟩ := Machine.Run.exists_of_replay
    (M := mounting (Fin 2) memoryWithTable hackedOfMemory handlersOfModule) (G := anyStep)
    (mountSteps 12 ++ exchange 0 1 ++ .unmount :: mountSteps 523 ++ [.base (.softirq 0)])
    (fun past _ => past.any fun moment =>
      match moment.2 with
      | .base (.softirq _) => moment.1.pc.freeing && moment.1.base.kernel.freed 0
      | _ => false)
    (by decide +kernel)
  obtain ⟨⟨st₀, e⟩, member, facts⟩ := List.any_eq_true.mp late
  cases e with
  | base e =>
      cases e with
      | softirq n =>
          have freeing := (Bool.and_eq_true_iff.mp facts).1
          have before := always _ _ _ past st (by decide +kernel) run st₀ n member
          exact absurd (freeing.symm.trans before) (by decide)
      | _ => cases facts
  | _ => cases facts

end TagExchange
