import TagExchange.Model.Effects

/-! What a call has taken from the kernel and will give back: a mutex, a page, a reference to
the module. The kernel with these debts performs the operations of the other threads just
as the kernel without them does.
-/

namespace TagExchange

open Concurrency

variable {τ α : Type}

/-- What a call holds, and whether its thread has a signal pending. -/
structure Debt where
  lock : Option Int
  refs : Int
  pages : Int
  signalled : Bool

namespace Debt

def none : Debt := ⟨Option.none, 0, 0, false⟩

def holds (d : Debt) (i : Int) : Bool := d.lock == some i

theorem holds_false {d : Debt} {i : Int} (other : d.lock ≠ some i) : d.holds i = false :=
  beq_false_of_ne other

end Debt

variable [DecidableEq τ]

/-- The kernel from which a thread has taken this. -/
def Kernel.owing (k : Kernel τ) (t : τ) (d : Debt) : Kernel τ :=
  { k with
    tsm := { k.tsm with accessLock := fun i => k.tsm.accessLock i || d.holds i }
    moduleRefs := k.moduleRefs + d.refs
    pages := k.pages + d.pages
    signalled := Function.update k.signalled t d.signalled }

theorem Kernel.owing_none (k : Kernel τ) (t : τ) (calm : k.signalled t = false)
    : k.owing t .none = k := by
  have signalled : Function.update k.signalled t false = k.signalled := by
    rw [← calm, Function.update_eq_self]
  simp [owing, Debt.none, Debt.holds, signalled]

theorem Kernel.owing_signal (k : Kernel τ) (t : τ) (d : Debt) (b : Bool)
    : { k.owing t d with signalled := Function.update (k.owing t d).signalled t b }
      = k.owing t { d with signalled := b } := by
  simp only [owing, Function.update_idem, Debt.holds]

/-- The thread that an operation is an operation of, where that matters. -/
def Op.thread : Op τ α → Option τ
  | leave t _ _ | prepareToWait t _ | schedule t _ | finishWait t _ | rcuReadLock t _
  | rcuReadUnlock t _ | signalPending t _ => some t
  | _ => none

def Op.locks : Op τ α → Option Int
  | mutexLock i _ => some i
  | _ => none

def Op.unlocks : Op τ α → Option Int
  | mutexUnlock i _ => some i
  | _ => none

/-- The operations with which a call only borrows, looks and gives back. -/
def Op.Inert : Op τ α → Prop
  | nop _ | tryModuleGet _ | leave _ true _ | getZeroedPage _ _ | freePages _ | external _
  | mutexLock _ _ | mutexUnlock _ _ | loadSlot _ _ | load _ _ | oops => True
  | _ => False

/-- What a call holds after an operation. -/
def Op.onDebt (d : Debt) (external : Nat) : Op τ α → Debt
  | tryModuleGet _ => { d with refs := d.refs + 1 }
  | leave _ true _ => { d with refs := d.refs - 1, signalled := false }
  | getZeroedPage _ _ => if external = 0 then { d with pages := d.pages + 1 } else d
  | freePages _ => { d with pages := d.pages - 1 }
  | mutexLock i _ => { d with lock := some i }
  | mutexUnlock _ _ => { d with lock := none }
  | _ => d

variable {k k' : Kernel τ} {external : Nat} {op : Op τ α} {a : α} {t : τ} {d : Debt}

/-- An inert operation changes what its thread holds and nothing else. -/
theorem Kernel.exec_inert (inert : op.Inert) (own : ∀ u, op.thread = some u → u = t)
    (locks : ∀ i, op.locks = some i → d.lock = none)
    (unlocks : ∀ i, op.unlocks = some i → k.tsm.accessLock i = false ∧ d.lock = some i)
    (step : (k.owing t d).exec external op = some (k', a))
    : k' = k.owing t (op.onDebt d external) := by
  cases op <;> try exact inert.elim
  case leave u put next =>
    obtain rfl := own u rfl
    cases put with
    | false => exact inert.elim
    | true =>
        obtain ⟨rfl, -⟩ := Prod.mk.inj (Option.some.inj step)
        simp only [owing, Op.onDebt, Debt.holds, Function.update_idem, if_true, Int.add_sub_assoc]
  case external next =>
    obtain ⟨_, -, same⟩ := Option.map_eq_some_iff.mp step
    exact (Prod.mk.inj same).1.symm
  case oops => cases step
  case getZeroedPage next failed =>
    simp only [exec] at step
    split at step
    · next got =>
        obtain ⟨rfl, -⟩ := Prod.mk.inj (Option.some.inj step)
        simp only [owing, Op.onDebt, got, if_true, Debt.holds, Int.add_assoc]
    · next none_ =>
        obtain ⟨rfl, -⟩ := Prod.mk.inj (Option.some.inj step)
        rw [Op.onDebt, if_neg none_]
  case mutexLock i next =>
    have nothing : d.holds = fun _ => false := by
      funext j
      exact Debt.holds_false (by simp [locks i rfl])
    obtain ⟨-, step⟩ := Option.ite_none_left_eq_some.mp step
    obtain ⟨rfl, -⟩ := Prod.mk.inj (Option.some.inj step)
    simp only [owing, setTsm, Op.onDebt, nothing, Bool.or_false]
    congr 2
    funext j
    rcases eq_or_ne j i with rfl | other
    · simp [Debt.holds]
    · simp [Debt.holds, Function.update_of_ne other, other.symm]
  case mutexUnlock i next =>
    obtain ⟨free, mine⟩ := unlocks i rfl
    obtain ⟨rfl, -⟩ := Prod.mk.inj (Option.some.inj step)
    simp only [owing, setTsm, Op.onDebt]
    congr 2
    funext j
    rcases eq_or_ne j i with rfl | other
    · simp [Debt.holds, free]
    · simp [Debt.holds, mine, Function.update_of_ne other, other.symm]
  all_goals
    obtain ⟨rfl, -⟩ := Prod.mk.inj (Option.some.inj step)
    simp only [owing, Op.onDebt, Debt.holds, Int.add_assoc, Int.add_sub_assoc]

/-- An operation of another thread takes place without the debts too, in the same way, by
cases on the operation.
-/
theorem Kernel.exec_owing (other : ∀ u, op.thread = some u → u ≠ t)
    (unlocks : ∀ i, op.unlocks = some i → d.lock ≠ some i)
    (step : (k.owing t d).exec external op = some (k', a))
    : ∃ k₁, k.exec external op = some (k₁, a) ∧ k' = k₁.owing t d := by
  cases op
  case leave u put next =>
    obtain ⟨rfl, rfl⟩ := Prod.mk.inj (Option.some.inj step)
    refine ⟨_, rfl, ?_⟩
    simp only [owing, Function.update_comm (other u rfl)]
    cases put <;> simp [Int.sub_eq_add_neg, Int.add_right_comm]
  case external next =>
    obtain ⟨b, found, same⟩ := Option.map_eq_some_iff.mp step
    obtain ⟨rfl, rfl⟩ := Prod.mk.inj same
    exact ⟨k, by simp [exec, found], rfl⟩
  case getZeroedPage next failed =>
    simp only [exec] at step ⊢
    split at step
    · next got =>
        obtain ⟨rfl, rfl⟩ := Prod.mk.inj (Option.some.inj step)
        exact ⟨_, if_pos got, by simp only [owing, Int.add_right_comm]⟩
    · next none_ =>
        obtain ⟨rfl, rfl⟩ := Prod.mk.inj (Option.some.inj step)
        exact ⟨_, if_neg none_, rfl⟩
  case mutexLock i next =>
    obtain ⟨free, step⟩ := Option.ite_none_left_eq_some.mp step
    obtain ⟨rfl, rfl⟩ := Prod.mk.inj (Option.some.inj step)
    have free : k.tsm.accessLock i = false ∧ d.holds i = false := by simpa [owing] using free
    refine ⟨_, by rw [exec, if_neg (by simp [free.1])], ?_⟩
    simp only [owing, setTsm]
    congr 2
    funext j
    rcases eq_or_ne j i with rfl | apart
    · simp
    · simp [Function.update_of_ne apart]
  case mutexUnlock i next =>
    have mine := Debt.holds_false (unlocks i rfl)
    obtain ⟨rfl, rfl⟩ := Prod.mk.inj (Option.some.inj step)
    refine ⟨_, rfl, ?_⟩
    simp only [owing, setTsm]
    congr 2
    funext j
    rcases eq_or_ne j i with rfl | apart
    · simp [mine]
    · simp [Function.update_of_ne apart]
  case deviceLock i next =>
    obtain ⟨free, step⟩ := Option.ite_none_left_eq_some.mp step
    obtain ⟨rfl, rfl⟩ := Prod.mk.inj (Option.some.inj step)
    exact ⟨_, if_neg free, rfl⟩
  case writeText i text next =>
    obtain ⟨rfl, rfl⟩ := Prod.mk.inj (Option.some.inj step)
    refine ⟨_, rfl, ?_⟩
    simp only [onContent, owing]
    split <;> rfl
  case freeText i next =>
    obtain ⟨rfl, rfl⟩ := Prod.mk.inj (Option.some.inj step)
    refine ⟨_, rfl, ?_⟩
    simp only [onContent, owing]
    split <;> rfl
  case prepareToWait u next =>
    have signalled : (k.owing t d).signalled u = k.signalled u :=
      Function.update_of_ne (other u rfl) ..
    obtain ⟨rfl, rfl⟩ := Prod.mk.inj (Option.some.inj step)
    exact ⟨_, by rw [exec, signalled], by rw [signalled]; rfl⟩
  case schedule u next =>
    have signalled : (k.owing t d).signalled u = k.signalled u :=
      Function.update_of_ne (other u rfl) ..
    obtain ⟨woken, step⟩ := Option.ite_none_left_eq_some.mp step
    obtain ⟨rfl, rfl⟩ := Prod.mk.inj (Option.some.inj step)
    rw [signalled] at woken
    exact ⟨_, if_neg woken, rfl⟩
  case signalPending u next =>
    have signalled : (k.owing t d).signalled u = k.signalled u :=
      Function.update_of_ne (other u rfl) ..
    obtain ⟨rfl, rfl⟩ := Prod.mk.inj (Option.some.inj step)
    exact ⟨_, by rw [exec, signalled], rfl⟩
  case oops => cases step
  all_goals
    obtain ⟨rfl, rfl⟩ := Prod.mk.inj (Option.some.inj step)
    refine ⟨_, rfl, ?_⟩
    simp only [owing, setTsm, setDm, newContent, Int.sub_eq_add_neg, Int.add_right_comm]

omit [DecidableEq τ] in
/-- The operations of a call are its thread's own, by cases on the program point. -/
theorem op_thread (c : CallId τ) (frame : Frame) {u : τ} (thread : (frame.op c).thread = some u)
    : u = c.1 := by
  cases frame with
  | user last => cases thread
  | get f =>
      obtain ⟨key, command, permission, euid, tag, ts, pc⟩ := f
      cases pc
      case find pc => cases pc <;> cases thread
      case device pc => cases pc using CreateDevicePc.points <;> cases thread
      all_goals cases thread
      all_goals rfl
  | send f =>
      obtain ⟨tag, level, buffer, size, euid, realSize, stored, ts, pc⟩ := f
      cases pc <;> cases thread
      rfl
  | receive f =>
      obtain ⟨tag, level, buffer, size, euid, ts, realSize, interrupted, copied, pc⟩ := f
      cases pc
      case entered pc => cases pc <;> cases thread
      case left x pc => cases pc <;> cases thread
      all_goals cases thread
      all_goals rfl
  | ctl f =>
      obtain ⟨tag, command, euid, ts, index, awakened, pc⟩ := f
      cases pc
      case find pc => cases pc <;> cases thread
      case destroy pc => cases pc <;> cases thread
      all_goals cases thread
      all_goals rfl

end TagExchange
