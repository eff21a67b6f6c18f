import Mathlib.Logic.Function.Basic
import TagExchange.Concurrency.Past

/-! A registry of names whose entries are removed in two steps: somebody who may use what is
registered condemns it, and later its name becomes free again.
-/

namespace Naming

open Concurrency

variable {ι σ υ : Type}

/-- What is registered under a name. -/
inductive Entry (σ : Type)
  | free
  | live (s : σ)
  | dying (s : σ)
deriving DecidableEq

/-- The changes of the registry: a condemnation is made in somebody's name. -/
inductive Change (ι σ υ : Type)
  | enter (i : ι) (s : σ)
  | condemn (i : ι) (u : υ)
  | clear (i : ι)
deriving DecidableEq

variable [DecidableEq ι]

/-- Makes a change, if the entry is in the state that the change starts from. -/
def change (admits : σ → υ → Bool) (r : ι → Entry σ) : Change ι σ υ → Option (ι → Entry σ)
  | .enter i s =>
      match r i with
      | .free => some (Function.update r i (.live s))
      | _ => none
  | .condemn i u =>
      match r i with
      | .live s => if admits s u then some (Function.update r i (.dying s)) else none
      | _ => none
  | .clear i =>
      match r i with
      | .dying _ => some (Function.update r i .free)
      | _ => none

/-- The registry as a machine; at first all names are free. -/
def registry (ι : Type) [DecidableEq ι] (admits : σ → υ → Bool)
    : Machine (ι → Entry σ) (Change ι σ υ) where
  start := fun _ => .free
  step := change admits

variable {admits : σ → υ → Bool} {r r' : ι → Entry σ} {i : ι} {s : σ} {u : υ}

theorem change_enter (admits : σ → υ → Bool) (free : r i = .free)
    : change admits r (.enter i s) = some (Function.update r i (.live s)) := by
  simp only [change, free]

theorem change_condemn (live : r i = .live s) (admitted : admits s u = true)
    : change admits r (.condemn i u) = some (Function.update r i (.dying s)) := by
  simp only [change, live, admitted, if_true]

theorem change_clear (admits : σ → υ → Bool) (dying : r i = .dying s)
    : change admits r (.clear i) = some (Function.update r i .free) := by
  simp only [change, dying]

/-- What is in use stays so in every change but its condemnation by somebody who may use it. -/
theorem live_of_change {c : Change ι σ υ} (live : r i = .live s)
    (step : change admits r c = some r')
    (spared : ∀ u, admits s u = true → c ≠ .condemn i u)
    : r' i = .live s := by
  cases c with
  | enter j s' =>
      simp only [change] at step
      split at step
      · next free =>
          obtain rfl := Option.some.inj step
          rcases eq_or_ne i j with rfl | other
          · cases live.symm.trans free
          · rw [Function.update_of_ne other, live]
      · cases step
  | condemn j u =>
      simp only [change] at step
      split at step
      · next s' there =>
          split at step
          · next admitted =>
              obtain rfl := Option.some.inj step
              rcases eq_or_ne i j with rfl | other
              · cases live.symm.trans there
                exact absurd rfl (spared u admitted)
              · rw [Function.update_of_ne other, live]
          · cases step
      · cases step
  | clear j =>
      simp only [change] at step
      split at step
      · next s' there =>
          obtain rfl := Option.some.inj step
          rcases eq_or_ne i j with rfl | other
          · cases live.symm.trans there
          · rw [Function.update_of_ne other, live]
      · cases step

/-- What has been entered is in use until somebody who may use it condemns it, by induction on what
came later.
-/
theorem live_of_since {G : Guard (ι → Entry σ) (Change ι σ υ)}
    {h : History (ι → Entry σ) (Change ι σ υ)} (run : (registry ι admits).Run G h r)
    (since
      : Since (fun _ _ c => ∀ u, admits s u = true → c ≠ .condemn i u)
          (fun _ _ c => c = .enter i s) h)
    : r i = .live s := by
  induction run with
  | start => cases since
  | @next h r c r' before _ step ih =>
      have step : change admits r c = some r' := step
      cases since with
      | here entered =>
          subst entered
          simp only [change] at step
          split at step
          · obtain rfl := Option.some.inj step
            exact Function.update_self ..
          · cases step
      | later earlier spared => exact live_of_change (ih earlier) step spared

end Naming
