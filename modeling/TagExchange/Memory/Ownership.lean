import TagExchange.Memory.Heap

/-! Who has to free a block. Every live block has one owner; an owner gets blocks from the allocator
or from another owner, and only frees its own.
-/

namespace Memory

variable {β ο : Type}

/-- Every live block belongs to one owner, and no block has been freed twice. -/
structure Owned (h : Heap β) (belongs : ο → β → Prop) : Prop where
  live : ∀ b, h.Live b ↔ ∃ o, belongs o b
  apart : ∀ {o p b}, belongs o b → belongs p b → o = p
  once : ∀ b, h.frees b ≤ 1

namespace Owned

variable {h h' : Heap β} {belongs belongs' : ο → β → Prop} {o p : ο}

/-- Nothing changes. -/
theorem congr (x : Owned h belongs) (same : ∀ o b, belongs' o b ↔ belongs o b)
    : Owned h belongs' where
  live b := (x.live b).trans (exists_congr fun o => (same o b).symm)
  apart here there := x.apart ((same _ _).mp here) ((same _ _).mp there)
  once := x.once

/-- An owner gets new blocks. -/
theorem grow (x : Owned h belongs) (new : β → Prop) (live : ∀ b, h'.Live b ↔ h.Live b ∨ new b)
    (frees : h'.frees = h.frees) (fresh : ∀ b, new b → ¬ h.Live b)
    (taker : ∀ b, belongs' o b ↔ belongs o b ∨ new b)
    (others : ∀ q, q ≠ o → ∀ b, belongs' q b ↔ belongs q b)
    : Owned h' belongs' where
  live b := by
    rw [live b, x.live b]
    constructor
    · rintro (⟨q, old⟩ | new)
      · rcases eq_or_ne q o with rfl | other
        · exact ⟨q, (taker b).mpr (.inl old)⟩
        · exact ⟨q, (others q other b).mpr old⟩
      · exact ⟨o, (taker b).mpr (.inr new)⟩
    · rintro ⟨q, now⟩
      rcases eq_or_ne q o with rfl | other
      · exact ((taker b).mp now).imp_left fun old => ⟨q, old⟩
      · exact .inl ⟨q, (others q other b).mp now⟩
  apart {q r b} here there := by
    have unowned (new : new b) {q : ο} (old : belongs q b) : False :=
      fresh b new ((x.live b).mpr ⟨q, old⟩)
    have old {q : ο} (now : belongs' q b) (other : q ≠ o) : belongs q b :=
      (others q other b).mp now
    rcases eq_or_ne q o with rfl | hq <;> rcases eq_or_ne r q with rfl | hr
    · rfl
    · rcases (taker b).mp here with mine | new
      · exact x.apart mine (old there hr)
      · exact (unowned new (old there hr)).elim
    · rfl
    · rcases eq_or_ne r o with rfl | hr'
      · rcases (taker b).mp there with mine | new
        · exact x.apart (old here hq) mine
        · exact (unowned new (old here hq)).elim
      · exact x.apart (old here hq) (old there hr')
  once b := frees ▸ x.once b

/-- An owner hands blocks over to another one. -/
theorem move (x : Owned h belongs) (moved : β → Prop) (distinct : o ≠ p)
    (mine : ∀ b, moved b → belongs o b) (giver : ∀ b, belongs' o b ↔ belongs o b ∧ ¬ moved b)
    (taker : ∀ b, belongs' p b ↔ belongs p b ∨ moved b)
    (others : ∀ q, q ≠ o → q ≠ p → ∀ b, belongs' q b ↔ belongs q b)
    : Owned h belongs' := by
  -- Whose the blocks were.
  have before {q : ο} {b : β} (now : belongs' q b)
      : (belongs q b ∧ ¬ moved b) ∨ (q = p ∧ moved b) := by
    have unmoved (other : q ≠ o) (old : belongs q b) : ¬ moved b :=
      fun moved => other (x.apart old (mine b moved))
    rcases eq_or_ne q o with rfl | first
    · exact .inl ((giver b).mp now)
    · rcases eq_or_ne q p with rfl | second
      · rcases (taker b).mp now with old | moved
        · exact .inl ⟨old, unmoved first old⟩
        · exact .inr ⟨rfl, moved⟩
      · have old := (others q first second b).mp now
        exact .inl ⟨old, unmoved first old⟩
  refine ⟨fun b => (x.live b).trans ⟨?_, ?_⟩, fun {q r b} here there => ?_, x.once⟩
  · rintro ⟨q, old⟩
    by_cases moved : moved b
    · exact ⟨p, (taker b).mpr (.inr moved)⟩
    · rcases eq_or_ne q o with rfl | first
      · exact ⟨q, (giver b).mpr ⟨old, moved⟩⟩
      · rcases eq_or_ne q p with rfl | second
        · exact ⟨q, (taker b).mpr (.inl old)⟩
        · exact ⟨q, (others q first second b).mpr old⟩
  · rintro ⟨q, now⟩
    rcases before now with ⟨old, -⟩ | ⟨-, moved⟩
    · exact ⟨q, old⟩
    · exact ⟨o, mine b moved⟩
  · rcases before here with ⟨old, kept⟩ | ⟨rfl, moved⟩ <;>
      rcases before there with ⟨old', kept'⟩ | ⟨rfl, moved'⟩
    · exact x.apart old old'
    · exact absurd moved' kept
    · exact absurd moved kept'
    · rfl

variable [DecidableEq β]

/-- An owner frees blocks of its own, one after the other. -/
theorem kfreeAll (x : Owned h belongs) {blocks : List β} (nodup : blocks.Nodup)
    (mine : ∀ b ∈ blocks, belongs o b) (giver : ∀ b, belongs' o b ↔ belongs o b ∧ b ∉ blocks)
    (others : ∀ q, q ≠ o → ∀ b, belongs' q b ↔ belongs q b)
    : Owned (h.kfreeAll blocks) belongs' where
  live b := by
    rw [Heap.live_kfreeAll, x.live b]
    constructor
    · rintro ⟨kept, q, old⟩
      rcases eq_or_ne q o with rfl | other
      · exact ⟨q, (giver b).mpr ⟨old, kept⟩⟩
      · exact ⟨q, (others q other b).mpr old⟩
    · rintro ⟨q, now⟩
      rcases eq_or_ne q o with rfl | other
      · obtain ⟨old, kept⟩ := (giver b).mp now
        exact ⟨kept, q, old⟩
      · have old := (others q other b).mp now
        exact ⟨fun freed => other (x.apart old (mine b freed)), q, old⟩
  apart {q r b} here there := by
    have old {q : ο} (now : belongs' q b) : belongs q b := by
      rcases eq_or_ne q o with rfl | other
      · exact ((giver b).mp now).1
      · exact (others q other b).mp now
    exact x.apart (old here) (old there)
  once := Heap.once_kfreeAll x.once nodup fun b member => (x.live b).mpr ⟨o, mine b member⟩

theorem kfree (x : Owned h belongs) {b : β} (mine : belongs o b)
    (giver : ∀ c, belongs' o c ↔ belongs o c ∧ c ≠ b)
    (others : ∀ q, q ≠ o → ∀ c, belongs' q c ↔ belongs q c)
    : Owned (h.kfree b) belongs' := by
  have freed : Owned (h.kfreeAll [b]) belongs' :=
    x.kfreeAll (by simp) (fun c member => List.mem_singleton.mp member ▸ mine)
      (fun c => by rw [giver, List.mem_singleton]) others
  exact freed

theorem kmalloc (x : Owned h belongs) {b : β} (fresh : h.Fresh b)
    (taker : ∀ c, belongs' o c ↔ belongs o c ∨ c = b)
    (others : ∀ q, q ≠ o → ∀ c, belongs' q c ↔ belongs q c)
    : Owned (h.kmalloc b) belongs' :=
  x.grow (· = b) (fun _ => (Heap.live_kmalloc fresh).trans or_comm) rfl
    (fun _ same => same ▸ fresh.not_live) taker others

/-- Owners free all that they have, one after the other, by induction on the owners. -/
theorem releaseAll (x : Owned h belongs) {blocks : ο → List β} {os : List ο} (nodup : os.Nodup)
    (each : ∀ o ∈ os, (blocks o).Nodup ∧ ∀ b, belongs o b ↔ b ∈ blocks o)
    : Owned (h.kfreeAll (os.flatMap blocks)) fun o b => belongs o b ∧ o ∉ os := by
  induction os generalizing h belongs with
  | nil => exact x.congr fun o b => and_iff_left List.not_mem_nil
  | cons o os ih =>
      obtain ⟨apart, nodup⟩ := List.nodup_cons.mp nodup
      obtain ⟨once, all⟩ := each o List.mem_cons_self
      have first : Owned (h.kfreeAll (blocks o)) fun p b => belongs p b ∧ p ≠ o :=
        x.kfreeAll once (fun b member => (all b).mpr member)
          (fun b => by
            simp only [ne_eq, not_true_eq_false, and_false, false_iff, all]
            exact fun both => both.2 both.1)
          fun p other b => and_iff_left other
      have later := ih first nodup fun p member => by
        have other : p ≠ o := fun same => apart (same ▸ member)
        obtain ⟨once, all⟩ := each p (List.mem_cons_of_mem _ member)
        exact ⟨once, fun b => (and_iff_left other).trans (all b)⟩
      rw [List.flatMap_cons, Heap.kfreeAll, List.foldl_append]
      exact later.congr fun p b => by rw [List.mem_cons, not_or, and_assoc]

/-- Where these are all the owners that have anything, no block is left. -/
theorem not_live_of_releaseAll (x : Owned h belongs) {blocks : ο → List β} {os : List ο}
    (nodup : os.Nodup) (each : ∀ o ∈ os, (blocks o).Nodup ∧ ∀ b, belongs o b ↔ b ∈ blocks o)
    (all : ∀ o b, belongs o b → o ∈ os) (b : β)
    : ¬ (h.kfreeAll (os.flatMap blocks)).Live b := by
  intro live
  obtain ⟨o, mine, out⟩ := ((x.releaseAll nodup each).live b).mp live
  exact out (all o b mine)

end Owned

end Memory
