import Mathlib.Data.Nat.Find
import TagExchange.Model.Allocations

/-! The blocks that a creation allocates, whichever of its allocations fails, and what `fail_no_mem`
makes of them.
-/

namespace TagExchange

open Memory

variable {n lev rest : Nat} {fails fails' : Nat → Bool} {h : Heap HeapBlock} {b : HeapBlock} {c : Creation}

-----------------------------------------------------------------------------------------
-- The blocks of a creation
-----------------------------------------------------------------------------------------

theorem mem_blocks
    : b ∈ c.blocks n
      ↔ (∃ k, k < c.levCreated ∧ b = .message n k) ∨ (c.level = true ∧ b = .level n)
        ∨ b = .service n := by
  obtain ⟨level, levCreated⟩ := c
  cases level <;> simp [Creation.blocks, eq_comm]

theorem number_of_mem_blocks (member : b ∈ c.blocks n) : b.number = some n := by
  rcases mem_blocks.mp member with ⟨k, -, rfl⟩ | ⟨-, rfl⟩ | rfl <;> rfl

/-- `lev_created` grows with the loop and stays within the levels, by induction on those left. -/
theorem createMessages_bounds (n : Nat) (fails : Nat → Bool) (rest lev : Nat) (h : Heap HeapBlock)
    : lev ≤ (createMessages n fails rest lev h).2
      ∧ (createMessages n fails rest lev h).2 ≤ lev + rest := by
  induction rest generalizing lev h with
  | zero => exact ⟨Nat.le_refl _, Nat.le_refl _⟩
  | succ rest ih =>
      unfold createMessages
      split
      · exact ⟨Nat.le_refl _, Nat.le_add_right ..⟩
      · obtain ⟨low, high⟩ := ih (lev + 1) (h.kmalloc (.message n lev))
        exact ⟨Nat.le_of_succ_le low, by omega⟩

/-- The loop allocates the messages up to `lev_created`, by induction on the levels left. -/
theorem live_createMessages (fresh : ∀ k, lev ≤ k → h.Fresh (.message n k))
    : (createMessages n fails rest lev h).1.Live b
      ↔ h.Live b
        ∨ ∃ k, lev ≤ k ∧ k < (createMessages n fails rest lev h).2 ∧ b = .message n k := by
  -- A loop that does nothing more.
  have none_ (lev : Nat) (h : Heap HeapBlock)
      : h.Live b ↔ h.Live b ∨ ∃ k, lev ≤ k ∧ k < lev ∧ b = .message n k := by
    refine (or_iff_left ?_).symm
    rintro ⟨k, low, high, -⟩
    exact Nat.not_lt.mpr low high
  induction rest generalizing lev h with
  | zero => exact none_ lev h
  | succ rest ih =>
      by_cases fail : fails lev = true
      · simpa only [createMessages, fail, if_true] using none_ lev h
      · simp only [createMessages, fail, Bool.false_eq_true, if_false]
        have later (k : Nat) (above : lev + 1 ≤ k)
            : (h.kmalloc (.message n lev)).Fresh (.message n k) := by
          refine (Heap.fresh_kmalloc fun same => ?_).mpr (fresh k (Nat.le_of_succ_le above))
          cases same
          exact Nat.lt_irrefl _ above
        have bounds := createMessages_bounds n fails rest (lev + 1) (h.kmalloc (.message n lev))
        refine (ih later).trans ?_
        rw [Heap.live_kmalloc (fresh lev (Nat.le_refl _)), or_assoc, or_left_comm]
        refine or_congr_right ⟨?_, ?_⟩
        · rintro (rfl | ⟨k, low, high, rfl⟩)
          · exact ⟨lev, Nat.le_refl _, bounds.1, rfl⟩
          · exact ⟨k, Nat.le_of_succ_le low, high, rfl⟩
        · rintro ⟨k, low, high, rfl⟩
          rcases Nat.lt_or_eq_of_le low with above | rfl
          · exact .inr ⟨k, above, high, rfl⟩
          · exact .inl rfl

/-- A creation has got the blocks that its local variables say. -/
theorem live_createService (fails : Nat → Bool) (fresh : ∀ b, b.number = some n → h.Fresh b)
    : (createService n fails h).1.Live b
      ↔ h.Live b ∨ ∃ c, (createService n fails h).2 = some c ∧ b ∈ c.blocks n := by
  have service : h.Fresh (.service n) := fresh _ rfl
  have level : (h.kmalloc (.service n)).Fresh (.level n) :=
    (Heap.fresh_kmalloc (fun same => by cases same)).mpr (fresh _ rfl)
  have message (k : Nat)
      : ((h.kmalloc (.service n)).kmalloc (.level n)).Fresh (.message n k) := by
    refine (Heap.fresh_kmalloc fun same => ?_).mpr ((Heap.fresh_kmalloc fun same => ?_).mpr
      (fresh _ rfl))
    · cases same
    · cases same
  unfold createService
  split
  · simp
  · split
    · rw [Heap.live_kmalloc service]
      simp [mem_blocks, or_comm]
    · rw [live_createMessages fun k _ => message k, Heap.live_kmalloc level,
        Heap.live_kmalloc service]
      simp only [Nat.zero_le, true_and, Option.some.injEq, exists_eq_left', mem_blocks]
      generalize (∃ k, _) = messages
      tauto

/-- Where the first allocation fails, the heap is as it was. -/
theorem createService_none (refused : (createService n fails h).2 = none)
    : (createService n fails h).1 = h := by
  unfold createService at refused ⊢
  split at refused
  · next fail => rw [if_pos fail]
  · split at refused <;> cases refused

/-- `fail_no_mem` frees exactly the blocks that the creation has got. -/
theorem live_failNoMem : (failNoMem n c h).Live b ↔ b ∉ c.blocks n ∧ h.Live b := by
  obtain ⟨level, levCreated⟩ := c
  cases level
  · simp only [failNoMem, Bool.false_eq_true, if_false, Heap.live_kfree, Heap.live_kfreeAll,
      Creation.blocks, List.append_nil, List.mem_append, List.mem_singleton, not_or]
    tauto
  · simp only [failNoMem, if_true, Heap.live_kfree, Heap.live_kfreeAll, Creation.blocks,
      List.mem_append, List.mem_singleton, not_or]
    tauto

-----------------------------------------------------------------------------------------
-- Other blocks
-----------------------------------------------------------------------------------------

theorem fresh_createMessages (other : b.number ≠ some n)
    : (createMessages n fails rest lev h).1.Fresh b ↔ h.Fresh b := by
  induction rest generalizing lev h with
  | zero => rfl
  | succ rest ih =>
      unfold createMessages
      split
      · rfl
      · refine ih.trans (Heap.fresh_kmalloc ?_)
        rintro rfl
        exact other rfl

theorem fresh_createService (other : b.number ≠ some n)
    : (createService n fails h).1.Fresh b ↔ h.Fresh b := by
  have service : b ≠ .service n := by rintro rfl; exact other rfl
  have level : b ≠ .level n := by rintro rfl; exact other rfl
  unfold createService
  split
  · rfl
  · split
    · exact Heap.fresh_kmalloc service
    · exact (fresh_createMessages other).trans
        ((Heap.fresh_kmalloc level).trans (Heap.fresh_kmalloc service))

theorem fresh_failNoMem (other : b.number ≠ some n)
    : (failNoMem n c h).Fresh b ↔ h.Fresh b := by
  have service : b ≠ .service n := by rintro rfl; exact other rfl
  have level : b ≠ .level n := by rintro rfl; exact other rfl
  have messages : b ∉ (List.range c.levCreated).map (HeapBlock.message n) := by
    intro member
    obtain ⟨k, -, rfl⟩ := List.mem_map.mp member
    exact other rfl
  refine (Heap.fresh_kfree service).trans ?_
  split
  · exact (Heap.fresh_kfree level).trans (Heap.fresh_kfreeAll messages)
  · exact Heap.fresh_kfreeAll messages

-----------------------------------------------------------------------------------------
-- Patterns of failures
-----------------------------------------------------------------------------------------

/-- The loop only looks at the allocations up to the first that fails, by induction on the levels
left.
-/
theorem createMessages_congr
    (same
      : ∀ k,
          k < lev + rest
          → (∀ j, lev ≤ j → j < k → fails j = false)
          → fails k = fails' k)
    : createMessages n fails rest lev h = createMessages n fails' rest lev h := by
  induction rest generalizing lev h with
  | zero => rfl
  | succ rest ih =>
      have here : fails lev = fails' lev :=
        same lev (by omega) fun j low high => absurd high (Nat.not_lt.mpr low)
      unfold createMessages
      rw [← here]
      by_cases fail : fails lev = true
      · rw [if_pos fail, if_pos fail]
      · rw [if_neg fail, if_neg fail]
        refine ih fun k bound before => same k (by omega) fun j low high => ?_
        rcases Nat.lt_or_eq_of_le low with above | rfl
        · exact before j above high
        · exact Bool.eq_false_iff.mpr fail

theorem createService_congr
    (same
      : ∀ k, k < creationAllocations → (∀ j, j < k → fails j = false) → fails k = fails' k)
    : createService n fails h = createService n fails' h := by
  have first : fails 0 = fails' 0 :=
    same 0 (by decide) fun j high => absurd high (Nat.not_lt_zero j)
  unfold createService
  rw [← first]
  by_cases fail : fails 0 = true
  · rw [if_pos fail, if_pos fail]
  · rw [if_neg fail, if_neg fail]
    have got : fails 0 = false := Bool.eq_false_iff.mpr fail
    have second : fails 1 = fails' 1 := by
      refine same 1 (by decide) fun j high => ?_
      obtain rfl : j = 0 := by omega
      exact got
    rw [← second]
    by_cases fail' : fails 1 = true
    · simp only [if_pos fail']
    · simp only [if_neg fail']
      have got' : fails 1 = false := Bool.eq_false_iff.mpr fail'
      have loop (h : Heap HeapBlock)
          : createMessages n (fun lev => fails (2 + lev)) MAX_LEVELS.toNat 0 h
            = createMessages n (fun lev => fails' (2 + lev)) MAX_LEVELS.toNat 0 h := by
        refine createMessages_congr fun k bound before => same (2 + k) ?_ fun j high => ?_
        · have levels : MAX_LEVELS.toNat = 32 := rfl
          simp only [creationAllocations]
          omega
        · rcases j with _ | _ | j
          · exact got
          · exact got'
          · rw [Nat.add_assoc, Nat.add_comm]
            exact before j (Nat.zero_le j) (by omega)
      rw [loop]

/-- Every pattern of failures is one in which all allocations after the first few fail. -/
theorem exists_external (n : Nat) (fails : Nat → Bool) (h : Heap HeapBlock)
    : ∃ external, createService n fails h = createService n (fun i => decide (external ≤ i)) h := by
  by_cases all : ∀ k, k < creationAllocations → fails k = false
  · refine ⟨creationAllocations, createService_congr fun k bound _ => ?_⟩
    simpa [Nat.not_le.mpr bound] using all k bound
  · have some_ : ∃ k, fails k = true := by
      obtain ⟨k, rest⟩ := not_forall.mp all
      obtain ⟨-, fail⟩ := Classical.not_imp.mp rest
      exact ⟨k, by simpa using fail⟩
    refine ⟨Nat.find some_, createService_congr fun k _ before => ?_⟩
    rcases Nat.lt_trichotomy k (Nat.find some_) with early | rfl | late
    · have got : fails k = false := Bool.eq_false_iff.mpr (Nat.find_min some_ early)
      simpa [Nat.not_le.mpr early] using got
    · simpa using Nat.find_spec some_
    · exact absurd (Nat.find_spec some_) (by simp [before _ late])

/-- The messages that the loop gets when the first `external` allocations succeed. -/
theorem createMessages_external {external : Nat}
    : (createMessages n (fun k => decide (external ≤ k)) rest lev h).2
      = max lev (min external (lev + rest)) := by
  induction rest generalizing lev h with
  | zero =>
      simp only [createMessages]
      omega
  | succ rest ih =>
      unfold createMessages
      split
      · next fail =>
          have fail : external ≤ lev := of_decide_eq_true fail
          show lev = _
          omega
      · next got =>
          have got : lev < external := by simpa using got
          rw [ih]
          omega

theorem createService_external (n external : Nat) (h : Heap HeapBlock)
    : (createService n (fun i => decide (external ≤ i)) h).2
      = if external = 0 then none
        else if external = 1 then some ⟨false, 0⟩
        else some ⟨true, min (external - 2) MAX_LEVELS.toNat⟩ := by
  unfold createService
  by_cases refused : external = 0
  · rw [if_pos (by simp [refused]), if_pos refused]
  · rw [if_neg (by simpa using refused), if_neg refused]
    by_cases bare : external = 1
    · simp only [bare, Nat.le_refl, decide_true, if_true]
    · have more : ¬ decide (external ≤ 1) = true := by
        simp only [decide_eq_true_eq]
        omega
      have loop
          : (fun lev => decide (external ≤ 2 + lev)) = fun lev => decide (external - 2 ≤ lev) := by
        funext lev
        exact decide_eq_decide.mpr (by omega)
      simp only [if_neg more, if_neg bare, loop, createMessages_external, Nat.zero_add,
        Nat.zero_max]

end TagExchange
