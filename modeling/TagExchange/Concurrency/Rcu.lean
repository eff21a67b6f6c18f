import Mathlib.Data.List.Basic
import Mathlib.Data.List.InsertIdx

/-! Read-copy-update: read-side sections and callbacks that wait for a grace period.
A callback may start only when every section that was open at its registration has been
closed; sections opened later are not waited for.
-/

namespace Concurrency

/-- A registered callback and the readers whose sections it still waits for. -/
structure Pending (τ κ : Type) where
  callback : κ
  waits : List τ

/-- The readers inside a section, and the callbacks registered and not finished. -/
structure Rcu (τ κ : Type) where
  readers : List τ
  pending : List (Pending τ κ)

namespace Rcu

variable {τ κ : Type} (r : Rcu τ κ)

def readLock (t : τ) : Rcu τ κ :=
  { r with readers := t :: r.readers }

/-- Closing a section also ends the wait of every callback for it. -/
def readUnlock [DecidableEq τ] (t : τ) : Rcu τ κ where
  readers := r.readers.erase t
  pending := r.pending.map (fun p => { p with waits := p.waits.erase t })

/-- Registers a callback behind the sections open at this moment. -/
def callRcu (callback : κ) : Rcu τ κ :=
  { r with pending := r.pending ++ [⟨callback, r.readers⟩] }

/-- The `n`-th callback goes on to its next stage, or has finished. -/
def advance (n : Nat) : Option κ → Rcu τ κ
  | some callback => { r with pending := r.pending.set n ⟨callback, []⟩ }
  | none => { r with pending := r.pending.eraseIdx n }

/-- The `n`-th callback, if its grace period is over. -/
def ready? (n : Nat) : Option κ :=
  match r.pending[n]? with
  | some p => if p.waits.isEmpty then some p.callback else none
  | none => none

/-- The callbacks alone, without what they wait for. -/
def callbacks : List κ :=
  r.pending.map (·.callback)

theorem ready?_of_callbacks_eq_nil (none_ : r.callbacks = []) (n : Nat) : r.ready? n = none := by
  have pending : r.pending = [] := List.map_eq_nil_iff.mp none_
  rw [ready?, pending]
  rfl

@[simp] theorem readers_readLock (t : τ) : (r.readLock t).readers = t :: r.readers := rfl

@[simp] theorem readers_readUnlock [DecidableEq τ] (t : τ)
    : (r.readUnlock t).readers = r.readers.erase t := rfl

@[simp] theorem readers_callRcu (c : κ) : (r.callRcu c).readers = r.readers := rfl

@[simp] theorem pending_readLock (t : τ) : (r.readLock t).pending = r.pending := rfl

@[simp] theorem readers_advance (n : Nat) (c : Option κ)
    : (r.advance n c).readers = r.readers := by
  cases c <;> rfl

@[simp] theorem callbacks_readLock (t : τ) : (r.readLock t).callbacks = r.callbacks := rfl

@[simp] theorem callbacks_readUnlock [DecidableEq τ] (t : τ)
    : (r.readUnlock t).callbacks = r.callbacks := by
  simp [callbacks, readUnlock, Function.comp_def]

@[simp] theorem callbacks_callRcu (c : κ) : (r.callRcu c).callbacks = r.callbacks ++ [c] := by
  simp [callbacks, callRcu]

@[simp] theorem callbacks_advance_some (n : Nat) (c : κ)
    : (r.advance n (some c)).callbacks = r.callbacks.set n c := by
  simp [callbacks, advance, List.map_set]

@[simp] theorem callbacks_advance_none (n : Nat)
    : (r.advance n none).callbacks = r.callbacks.eraseIdx n := by
  simp [callbacks, advance, List.eraseIdx_map]

theorem mem_callbacks_advance {n : Nat} {next : Option κ} {c : κ}
    (member : c ∈ (r.advance n next).callbacks)
    : c ∈ r.callbacks ∨ next = some c := by
  cases next with
  | some c' =>
      rw [callbacks_advance_some] at member
      rcases List.mem_or_eq_of_mem_set member with before | rfl
      · exact .inl before
      · exact .inr rfl
  | none =>
      rw [callbacks_advance_none] at member
      exact .inl ((List.eraseIdx_sublist r.callbacks n).mem member)

/-- A callback that may run is one of the registered ones and waits for nobody. -/
theorem ready?_eq_some {n : Nat} {c : κ} (h : r.ready? n = some c)
    : r.pending[n]? = some ⟨c, []⟩ := by
  unfold ready? at h
  split at h
  · next p found =>
      split at h
      · next empty =>
          obtain ⟨callback, waits⟩ := p
          obtain rfl : waits = [] := List.isEmpty_iff.mp empty
          simpa [found] using h
      · simp at h
  · simp at h

theorem callbacks_of_ready? {n : Nat} {c : κ} (h : r.ready? n = some c)
    : r.callbacks[n]? = some c := by
  simp [callbacks, r.ready?_eq_some h]

/-- The other callbacks stay when one of them makes its step. -/
theorem mem_callbacks_of_advance {n : Nat} {c c' : κ} {next : Option κ} (runs : r.ready? n = some c)
    (member : c' ∈ r.callbacks) (other : c' ≠ c)
    : c' ∈ (r.advance n next).callbacks := by
  have here := r.callbacks_of_ready? runs
  obtain ⟨m, there⟩ := List.getElem?_of_mem member
  have apart : m ≠ n := by
    rintro rfl
    exact other (Option.some.inj (there.symm.trans here))
  cases next with
  | some next =>
      refine List.mem_of_getElem? (i := m) ?_
      rw [callbacks_advance_some, List.getElem?_set_ne apart.symm, there]
  | none =>
      rw [callbacks_advance_none]
      exact List.mem_eraseIdx_iff_getElem?.mpr ⟨m, apart, there⟩

/-- The callbacks of which `p` holds, in their order. -/
def among (p : κ → Bool) : List κ :=
  r.callbacks.filter p

theorem mem_among {r : Rcu τ κ} {p : κ → Bool} {c : κ}
    : c ∈ r.among p ↔ c ∈ r.callbacks ∧ p c = true :=
  List.mem_filter

/-- Among callbacks that differ in `f` each value of `f` has one position. -/
theorem position_unique {α : Type} {p : κ → Bool} {f : κ → α} {m n : Nat} {c c' : κ}
    (once : ((r.among p).map f).Nodup) (here : r.callbacks[m]? = some c)
    (there : r.callbacks[n]? = some c') (holds : p c = true) (holds' : p c' = true)
    (same : f c = f c')
    : m = n := by
  have apart : r.callbacks.Pairwise fun a b => p a = true → p b = true → f a ≠ f b :=
    List.pairwise_filter.mp (List.pairwise_map.mp once)
  obtain ⟨bound, rfl⟩ := List.getElem?_eq_some_iff.mp here
  obtain ⟨bound', rfl⟩ := List.getElem?_eq_some_iff.mp there
  rcases Nat.lt_trichotomy m n with less | equal | more
  · exact absurd same (List.pairwise_iff_getElem.mp apart m n bound bound' less holds holds')
  · exact equal
  · exact absurd same.symm (List.pairwise_iff_getElem.mp apart n m bound' bound more holds' holds)

@[simp] theorem among_readUnlock [DecidableEq τ] (p : κ → Bool) (t : τ)
    : (r.readUnlock t).among p = r.among p := by
  simp [among]

@[simp] theorem among_callRcu (p : κ → Bool) (c : κ)
    : (r.callRcu c).among p = if p c then r.among p ++ [c] else r.among p := by
  simp only [among, callbacks_callRcu, List.filter_append, List.filter_singleton]
  cases p c <;> simp

/-- The callbacks around the one that makes its step. -/
theorem callbacks_split {n : Nat} {c : κ} (ready : r.ready? n = some c)
    : ∃ before after,
        r.callbacks = before ++ c :: after
        ∧ (∀ c', (r.advance n (some c')).callbacks = before ++ c' :: after)
        ∧ (r.advance n none).callbacks = before ++ after := by
  have here := r.callbacks_of_ready? ready
  obtain ⟨bound, at_n⟩ := List.getElem?_eq_some_iff.mp here
  refine ⟨r.callbacks.take n, r.callbacks.drop (n + 1), ?_, fun c' => ?_, ?_⟩
  · rw [← at_n, List.getElem_cons_drop, List.take_append_drop]
  · rw [callbacks_advance_some, List.set_eq_take_append_cons_drop, if_pos bound]
  · rw [callbacks_advance_none, List.eraseIdx_eq_take_drop_succ]

/-- A callback of which `p` holds goes on inside the list of these, or leaves it. -/
theorem among_advance {p : κ → Bool} {n : Nat} {c : κ} (ready : r.ready? n = some c)
    (holds : p c = true)
    : ∃ m,
        (r.among p)[m]? = some c
        ∧ (∀ c', p c' = true → (r.advance n (some c')).among p = (r.among p).set m c')
        ∧ ∀ c', p c' = false → (r.advance n (some c')).among p = (r.among p).eraseIdx m := by
  obtain ⟨before, after, callbacks, next, -⟩ := r.callbacks_split ready
  have split : r.among p = before.filter p ++ c :: after.filter p := by
    rw [among, callbacks, List.filter_append, List.filter_cons_of_pos holds]
  refine ⟨(before.filter p).length, ?_, fun c' holds' => ?_, fun c' left => ?_⟩
  · rw [split, List.getElem?_append_right (Nat.le_refl _), Nat.sub_self, List.getElem?_cons_zero]
  · rw [split, List.set_append_right _ _ (Nat.le_refl _), Nat.sub_self, List.set_cons_zero, among,
      next, List.filter_append, List.filter_cons_of_pos holds']
  · rw [split, List.eraseIdx_append_of_length_le (Nat.le_refl _), Nat.sub_self,
      List.eraseIdx_cons_zero, among, next, List.filter_append,
      List.filter_cons_of_neg (by rw [left]; exact Bool.false_ne_true)]

/-- The end of a callback of which `p` does not hold leaves the list of the others. -/
theorem among_advance_none {p : κ → Bool} {n : Nat} {c : κ} (ready : r.ready? n = some c)
    (left : p c = false)
    : (r.advance n none).among p = r.among p := by
  obtain ⟨before, after, callbacks, -, done⟩ := r.callbacks_split ready
  rw [among, done, among, callbacks, List.filter_append, List.filter_append,
    List.filter_cons_of_neg (by rw [left]; exact Bool.false_ne_true)]

/-- A registration waits for every reader inside a section. -/
theorem waits_callRcu {t : τ} (inside : t ∈ r.readers) (c : κ)
    : ∃ p ∈ (r.callRcu c).pending, p.callback = c ∧ t ∈ p.waits :=
  ⟨⟨c, r.readers⟩, by simp [callRcu], rfl, inside⟩

/-- A callback goes on waiting for a reader until that reader closes its section. -/
theorem waits_readUnlock [DecidableEq τ] {t u : τ} {p : Pending τ κ} (member : p ∈ r.pending)
    (waiting : t ∈ p.waits) (other : t ≠ u)
    : ∃ q ∈ (r.readUnlock u).pending, q.callback = p.callback ∧ t ∈ q.waits :=
  ⟨{ p with waits := p.waits.erase u }, List.mem_map.mpr ⟨p, member, rfl⟩, rfl,
    (List.mem_erase_of_ne other).mpr waiting⟩

/-- The step of a callback that may run leaves every callback that still waits. -/
theorem waits_advance {n : Nat} {c : κ} {next : Option κ} {t : τ} {p : Pending τ κ}
    (runs : r.ready? n = some c) (member : p ∈ r.pending) (waiting : t ∈ p.waits)
    : p ∈ (r.advance n next).pending := by
  have here := r.ready?_eq_some runs
  obtain ⟨m, bound, at_m⟩ := List.getElem_of_mem member
  have apart : m ≠ n := by
    rintro rfl
    rw [List.getElem?_eq_getElem bound, at_m] at here
    rw [Option.some.inj here] at waiting
    simp at waiting
  cases next with
  | some c' =>
      have kept : (r.advance n (some c')).pending[m]? = some p := by
        simp [advance, apart.symm, bound, at_m]
      exact List.mem_of_getElem? kept
  | none => exact List.mem_eraseIdx_iff_getElem.mpr ⟨m, bound, apart, at_m⟩

end Rcu

end Concurrency
