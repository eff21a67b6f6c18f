import Mathlib.Data.Nat.Count
import Mathlib.Order.Bounds.Defs

/-! Searches that go through a list in its order: the first match of an increasing list, the indices
that a scan for a number of matches looks at, and those at which a comparison goes on.
-/

namespace Tables

variable {α : Type}

-----------------------------------------------------------------------------------------
-- The first match
-----------------------------------------------------------------------------------------

/-- The first match of an increasing list is the least one, by induction on the list. -/
theorem isLeast_of_find? [LinearOrder α] {p : α → Bool} {l : List α} {a : α}
    (increasing : l.Pairwise (· < ·)) (found : l.find? p = some a)
    : IsLeast {b | b ∈ l ∧ p b = true} a := by
  induction l with
  | nil => cases found
  | cons b rest ih =>
      obtain ⟨first, increasing⟩ := List.pairwise_cons.mp increasing
      cases matching : p b with
      | true =>
          rw [List.find?_cons_of_pos matching] at found
          obtain rfl := Option.some.inj found
          refine ⟨⟨List.mem_cons_self .., matching⟩, ?_⟩
          rintro c ⟨member, -⟩
          rcases List.mem_cons.mp member with rfl | later
          · exact le_rfl
          · exact (first c later).le
      | false =>
          rw [List.find?_cons_of_neg (by simp [matching])] at found
          obtain ⟨⟨member, here⟩, least⟩ := ih increasing found
          refine ⟨⟨List.mem_cons_of_mem _ member, here⟩, ?_⟩
          rintro c ⟨member, matches_⟩
          rcases List.mem_cons.mp member with rfl | later
          · rw [matching] at matches_
            cases matches_
          · exact least ⟨later, matches_⟩

-----------------------------------------------------------------------------------------
-- A scan for a number of matches
-----------------------------------------------------------------------------------------

/-- The elements that a scan looks at: it stops when it has found as many matches as it wants. -/
def scanned (p : α → Bool) : Nat → List α → List α
  | 0, _ => []
  | _ + 1, [] => []
  | wanted + 1, a :: rest => a :: scanned p (if p a then wanted else wanted + 1) rest

/-- What the scan finds, by induction on the list. -/
theorem filter_scanned (p : α → Bool) (wanted : Nat) (l : List α)
    : (scanned p wanted l).filter p = (l.filter p).take wanted := by
  induction l generalizing wanted with
  | nil => cases wanted <;> simp [scanned]
  | cons a rest ih =>
      cases wanted with
      | zero => simp [scanned]
      | succ wanted =>
          rw [scanned]
          cases matching : p a with
          | true => simp [matching, ih]
          | false => simp [matching, ih]

variable {p : Nat → Bool} {wanted s n i : Nat}

/-- An index is looked at if fewer matches than wanted are below it, by induction on the length. -/
theorem mem_scanned_range'
    : i ∈ scanned p (wanted - Nat.count (p · = true) s) (List.range' s n)
      ↔ s ≤ i ∧ i < s + n ∧ Nat.count (p · = true) i < wanted := by
  induction n generalizing s with
  | zero =>
      have stops (w : Nat) : scanned p w [] = [] := by cases w <;> rfl
      simp only [List.range'_zero, stops, List.not_mem_nil, false_iff]
      omega
  | succ n ih =>
      have below (b : s ≤ i) : Nat.count (p · = true) s ≤ Nat.count (p · = true) i :=
        Nat.count_monotone _ b
      cases left : wanted - Nat.count (p · = true) s with
      | zero =>
          simp only [scanned, List.not_mem_nil, false_iff]
          rintro ⟨above, -, few⟩
          have := below above
          omega
      | succ left_ =>
          have rest
              : (if p s then left_ else left_ + 1) = wanted - Nat.count (p · = true) (s + 1) := by
            rw [Nat.count_succ]
            split <;> omega
          rw [List.range'_succ, scanned, rest, List.mem_cons, ih]
          constructor
          · rintro (rfl | ⟨above, bound, few⟩)
            · exact ⟨le_rfl, by omega, by omega⟩
            · exact ⟨by omega, by omega, few⟩
          · rintro ⟨above, bound, few⟩
            rcases eq_or_lt_of_le above with rfl | later
            · exact .inl rfl
            · exact .inr ⟨later, by omega, few⟩

theorem mem_scanned_range
    : i ∈ scanned p wanted (List.range n) ↔ i < n ∧ Nat.count (p · = true) i < wanted := by
  have start : wanted - Nat.count (p · = true) 0 = wanted := by simp
  rw [List.range_eq_range', ← start, mem_scanned_range', start, Nat.zero_add]
  exact and_iff_right (Nat.zero_le i)

/-- The matches that a scan of the indices finds. -/
theorem mem_take_filter_range
    : i ∈ ((List.range n).filter p).take wanted
      ↔ i < n ∧ p i = true ∧ Nat.count (p · = true) i < wanted := by
  rw [← filter_scanned, List.mem_filter, mem_scanned_range]
  constructor
  · rintro ⟨⟨bound, few⟩, matching⟩
    exact ⟨bound, matching, few⟩
  · rintro ⟨bound, matching, few⟩
    exact ⟨⟨bound, few⟩, matching⟩

/-- What the scan finds depends on the elements that it looks at only, by induction on the list. -/
theorem take_filter_congr {p q : α → Bool} {wanted : Nat} {l : List α}
    (same : ∀ a ∈ scanned p wanted l, p a = q a)
    : (l.filter p).take wanted = (l.filter q).take wanted := by
  induction l generalizing wanted with
  | nil => rfl
  | cons a rest ih =>
      cases wanted with
      | zero => simp
      | succ wanted =>
          rw [scanned] at same
          obtain ⟨here, same⟩ := List.forall_mem_cons.mp same
          cases matching : p a with
          | true =>
              rw [matching, if_pos rfl] at same
              rw [List.filter_cons_of_pos matching, List.filter_cons_of_pos (here ▸ matching),
                List.take_succ_cons, List.take_succ_cons, ih same]
          | false =>
              have other : q a = false := here ▸ matching
              rw [matching, if_neg (by simp)] at same
              rw [List.filter_cons_of_neg (by simp [matching]),
                List.filter_cons_of_neg (by simp [other]), ih same]

-----------------------------------------------------------------------------------------
-- Comparisons that go on
-----------------------------------------------------------------------------------------

/-- The elements that a chain of comparisons looks at: it stops at the first that fails. -/
def compared (p : α → Bool) : List α → List α
  | [] => []
  | a :: rest => a :: if p a then compared p rest else []

theorem mem_of_compared {p : α → Bool} {l : List α} {a : α} (looked : a ∈ compared p l) : a ∈ l := by
  induction l with
  | nil => exact looked
  | cons b rest ih =>
      rw [compared] at looked
      rcases List.mem_cons.mp looked with rfl | later
      · exact List.mem_cons_self ..
      · cases goes : p b with
        | true =>
            rw [goes, if_pos rfl] at later
            exact List.mem_cons_of_mem _ (ih later)
        | false => simp [goes] at later

/-- A chain in two parts, by induction on the first one. -/
theorem compared_append (p : α → Bool) (l l' : List α)
    : compared p (l ++ l') = compared p l ++ if l.all p then compared p l' else [] := by
  induction l with
  | nil => rfl
  | cons a rest ih =>
      rw [List.cons_append, compared, compared, ih]
      cases goes : p a <;> simp [goes]

/-- An element of an increasing list is looked at if no comparison fails below it, by induction on
the list.
-/
theorem mem_compared [LinearOrder α] {p : α → Bool} {l : List α} {a : α}
    (increasing : l.Pairwise (· < ·))
    : a ∈ compared p l ↔ a ∈ l ∧ ∀ b ∈ l, b < a → p b = true := by
  induction l with
  | nil => simp [compared]
  | cons b rest ih =>
      obtain ⟨first, increasing⟩ := List.pairwise_cons.mp increasing
      rw [compared]
      constructor
      · intro member
        rcases List.mem_cons.mp member with rfl | later
        · refine ⟨List.mem_cons_self .., ?_⟩
          intro c member below
          rcases List.mem_cons.mp member with rfl | later
          · exact absurd below (lt_irrefl c)
          · exact absurd below (first c later).asymm
        · cases goes : p b with
          | false => simp [goes] at later
          | true =>
              rw [goes, if_pos rfl] at later
              obtain ⟨member, below⟩ := (ih increasing).mp later
              exact ⟨List.mem_cons_of_mem _ member, List.forall_mem_cons.mpr ⟨fun _ => goes, below⟩⟩
      · rintro ⟨member, below⟩
        obtain ⟨head, below⟩ := List.forall_mem_cons.mp below
        rcases List.mem_cons.mp member with rfl | later
        · exact List.mem_cons_self ..
        · rw [head (first a later), if_pos rfl]
          exact List.mem_cons_of_mem _ ((ih increasing).mpr ⟨later, below⟩)

/-- Whether the chain goes to its end depends on the elements that it looks at only, by induction on
the list.
-/
theorem all_congr_of_compared {p q : α → Bool} {l : List α}
    (same : ∀ a ∈ compared p l, p a = q a)
    : l.all p = l.all q := by
  induction l with
  | nil => rfl
  | cons a rest ih =>
      rw [compared] at same
      obtain ⟨here, same⟩ := List.forall_mem_cons.mp same
      rw [List.all_cons, List.all_cons, ← here]
      cases goes : p a with
      | false => rfl
      | true =>
          rw [goes, if_pos rfl] at same
          rw [ih same]

/-- All elements of an increasing list that are looked at have a property that holds from the start
on, if and only if it holds of all or a comparison fails where it holds, by induction on the list.
-/
theorem compared_inside_iff {p inside : α → Bool} {l : List α}
    (prefixed : l.Pairwise fun a b => inside b = true → inside a = true)
    : (∀ a ∈ compared p l, inside a = true)
      ↔ (∀ a ∈ l, inside a = true) ∨ ∃ a ∈ l, inside a = true ∧ p a = false := by
  induction l with
  | nil => simp [compared]
  | cons a rest ih =>
      obtain ⟨first, prefixed⟩ := List.pairwise_cons.mp prefixed
      rw [compared]
      cases here : inside a with
      | false =>
          have outside : ∀ b ∈ rest, inside b = false := by
            intro b member
            cases inner : inside b with
            | false => rfl
            | true => exact absurd (first b member inner) (by simp [here])
          simp only [List.mem_cons, forall_eq_or_imp, here, Bool.false_eq_true, false_and, false_or,
            exists_eq_or_imp, false_iff]
          rintro ⟨b, member, inner, -⟩
          rw [outside b member] at inner
          cases inner
      | true =>
          cases goes : p a with
          | false => simp [here, goes]
          | true =>
              simp only [if_true, List.mem_cons, forall_eq_or_imp, exists_eq_or_imp, here, goes,
                true_and, Bool.true_eq_false, false_or]
              exact ih prefixed

end Tables
