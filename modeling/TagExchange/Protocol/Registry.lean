import TagExchange.Protocol.Preservation

/-! The moves that change the registry keep the protocol's invariant: a removal takes a
service out of its slot and frees it, a creation fills one and publishes it.
-/

namespace TagExchange.Protocol

open Concurrency

variable {τ : Type} {c : Core τ} {view : τ → View}

namespace Core

/-- A fact only depends on the slots, and on the service that the view points to. -/
theorem Fact.congr {c c' : Core τ} {v : View} (fact : c.Fact v) (slot : c'.slot = c.slot)
    (freed : c'.freed = c.freed) (services : c.services ≤ c'.services)
    (service : ∀ s, v.service = some s → c'.service s = c.service s)
    : c'.Fact v := by
  cases v with
  | outside | owning _ => trivial
  | stray => exact fact
  | vacant i => simpa only [Fact, slot] using fact
  | known r i | checking r i | inside r i | filling r i _ | posted r i _ | clearing r i _
  | waking r i | deleting r i | removing r i | unlinked r | fresh r i =>
      have same : c'.service r = c.service r := service r rfl
      have below {n} (h : n < c.services) : n < c'.services := Nat.lt_of_lt_of_le h services
      simp only [Fact, Known, Live, Tagged, tag, doomed, ready, awake, same, slot,
        freed] at fact ⊢
      grind

theorem CallbackFact.congr {c c' : Core τ} {b : Callback τ} (fact : c.CallbackFact b)
    (slot : c'.slot (c.tag b.service) = c.slot (c.tag b.service))
    (service : c'.service b.service = c.service b.service)
    : c'.CallbackFact b := by
  obtain ⟨live, ready, awake, unlocks⟩ := fact
  have tag : c'.tag b.service = c.tag b.service := by rw [Core.tag, service, Core.tag]
  refine ⟨?_, ?_, ?_, ?_⟩
  · rw [tag, Live, slot, doomed, service]
    exact live
  · intro l job
    simpa only [Core.ready, service] using ready job
  · intro job
    simpa only [Core.awake, service] using awake job
  · rw [tag]
    exact unlocks

end Core

/-- Every service a view points to has been created. -/
theorem Safe.born (x : Safe c view) {t s} (points : (view t).service = some s)
    : s < c.services := by
  have fact := x.fact t
  cases v : view t <;> simp only [v, View.service, Option.some.injEq, reduceCtorEq,
    Core.Fact] at points fact
  all_goals subst points
  case known | checking => exact fact.1.1
  case inside | deleting | removing => exact (x.slots fact.1).1.1
  case unlinked => exact fact.1
  case fresh => exact fact.1.1
  all_goals exact (x.slots fact.1.1).1.1

variable [DecidableEq τ]

-----------------------------------------------------------------------------------------
-- The registry changes
-----------------------------------------------------------------------------------------

/-- The marks of a state whose services and callbacks are unchanged, when the view that
changes carries none.
-/
theorem exists_mark_of_none {α : Type} {mark : View → Option α} {t : τ} {v : View}
    (clean : mark (view t) = none) {a : α} (h : ∃ u, mark (view u) = some a)
    : ∃ u, mark (Function.update view t v u) = some a :=
  exists_mark mark (fun mine => by simp [clean] at mine) h

/-- A service marked as deleted is taken out of its slot. -/
theorem Safe.unlink (x : Safe c view) {t : τ} {s i} (here : view t = .removing s i)
    : Safe (c.setSlot i none) (Function.update view t (.unlinked s)) := by
  have fact := x.fact t
  rw [here] at fact
  obtain ⟨found, doomed⟩ := fact
  obtain ⟨tagged, alive⟩ := x.slots found
  have slot (j : Int) : (c.setSlot i none).slot j = if j = i then none else c.slot j := by
    simp [Core.setSlot, Function.update_apply]
  refine {
    excl := ?_
    slots := ?_
    fact := ?_
    unborn := x.unborn
    remover := x.remover_update (by simp [here, View.removes])
    callback := ?_
    ready := fun alive h => (x.ready alive h).imp_left
      (exists_mark_of_none (by rw [here]; rfl))
    awake := fun alive h => (x.awake alive h).imp_left
      (exists_mark_of_none (by rw [here]; rfl))
    bytes := fun alive bound h => (x.bytes alive bound h).imp_left
      (exists_mark_of_none (by rw [here]; rfl))
  }
  · rw [lock_update, show View.lock (.unlinked s) = (view t).lock by rw [here]; rfl,
      Function.update_eq_self]
    exact x.excl
  · intro j r h
    rw [slot] at h
    split at h
    · simp at h
    · exact x.slots h
  · refine (Function.forall_update_iff view fun _ u => (c.setSlot i none).Fact u).mpr ⟨?_, ?_⟩
    · refine ⟨tagged.1, alive, doomed, fun j h => ?_⟩
      rw [slot] at h
      split at h
      · simp at h
      · next other => exact other ((x.slots h).1.2.1.symm.trans tagged.2.1)
    · intro u other
      have fact := x.fact u
      -- A live service in slot `i` would be `s`, which is marked as deleted.
      have elsewhere {r j} (live : c.Live r j) : (c.setSlot i none).Live r j := by
        refine ⟨?_, live.2⟩
        rw [slot, if_neg, live.1]
        rintro rfl
        obtain rfl : r = s := Option.some.inj (live.1.symm.trans found)
        exact absurd doomed (by simp [live.2])
      have later {r j} (known : c.Known r j) : (c.setSlot i none).Known r j := by
        refine ⟨known.1, ?_⟩
        rcases known.2 with h | h
        · rw [slot]
          split
          · next same =>
              subst same
              obtain rfl : r = s := Option.some.inj (h.symm.trans found)
              exact .inr doomed
          · exact .inl h
        · exact .inr h
      have apart {r j} (removes : (view u).removes = some r) (h : c.slot j = some r)
          : (c.setSlot i none).slot j = some r := by
        rw [slot, if_neg, h]
        rintro rfl
        obtain rfl : r = s := Option.some.inj (h.symm.trans found)
        exact other (x.remover removes (by rw [here]; rfl))
      cases v : view u <;> rw [v] at fact
      case outside | owning => trivial
      case stray => exact fact
      case known | checking => exact later fact
      case inside => exact elsewhere fact
      case filling | posted | clearing | waking => exact ⟨elsewhere fact.1, fact.2⟩
      case deleting | removing => exact ⟨apart (by rw [v]; rfl) fact.1, fact.2⟩
      case unlinked r =>
        refine ⟨fact.1, fact.2.1, fact.2.2.1, fun j h => fact.2.2.2 j ?_⟩
        rw [slot] at h
        split at h
        · simp at h
        · exact h
      case vacant j =>
        simp only [Core.Fact] at fact ⊢
        rw [slot, fact, ite_self]
      case fresh r j =>
        refine ⟨fact.1, fact.2.1, fact.2.2.1, ?_, fun k h => fact.2.2.2.2 k ?_⟩
        · rw [slot, fact.2.2.2.1, ite_self]
        · rw [slot] at h
          split at h
          · simp at h
          · exact h
  · intro b member
    have fact := x.callback b member
    refine fact.congr ?_ rfl
    rw [slot, if_neg]
    intro same
    have live := fact.live
    rw [same] at live
    have same' : b.service = s := Option.some.inj (live.1.symm.trans found)
    rw [same'] at live
    exact absurd doomed (by simp [live.2])

/-- A service that is in no slot is freed. -/
theorem Safe.kfree (x : Safe c view) {t : τ} {s} (here : view t = .unlinked s)
    : Safe (c.free s) (Function.update view t .outside) := by
  have fact := x.fact t
  rw [here] at fact
  obtain ⟨born, alive, doomed, nowhere⟩ := fact
  have freed {r} (other : r ≠ s) : (c.free s).freed r = c.freed r := by
    simp [Core.free, Function.update_of_ne other]
  have before {r} (h : (c.free s).freed r = false) : c.freed r = false := by
    rcases eq_or_ne r s with rfl | other
    · exact alive
    · rwa [freed other] at h
  refine {
    excl := ?_
    slots := ?_
    fact := ?_
    unborn := ?_
    remover := x.remover_update (by simp [View.removes])
    callback := fun b member => (x.callback b member).congr rfl rfl
    ready := fun alive h => (x.ready (before alive) h).imp_left
      (exists_mark_of_none (by rw [here]; rfl))
    awake := fun alive h => (x.awake (before alive) h).imp_left
      (exists_mark_of_none (by rw [here]; rfl))
    bytes := fun alive bound h => (x.bytes (before alive) bound h).imp_left
      (exists_mark_of_none (by rw [here]; rfl))
  }
  · rw [lock_update, show View.lock .outside = (view t).lock by rw [here]; rfl,
      Function.update_eq_self]
    exact x.excl
  · intro j r h
    refine ⟨(x.slots h).1, ?_⟩
    rw [freed, (x.slots h).2]
    rintro rfl
    exact nowhere j h
  · refine (Function.forall_update_iff view fun _ u => (c.free s).Fact u).mpr ⟨trivial, ?_⟩
    intro u other
    have fact := x.fact u
    cases v : view u <;> rw [v] at fact
    case unlinked r =>
      refine ⟨fact.1, ?_, fact.2.2⟩
      rw [freed, fact.2.1]
      rintro rfl
      exact other (x.remover (by rw [v]; rfl) (by rw [here]; rfl))
    case fresh r j =>
      refine ⟨fact.1, ?_, fact.2.2⟩
      rw [freed, fact.2.1]
      rintro rfl
      exact absurd doomed (by simp [fact.2.2.1])
    all_goals exact fact
  · intro r h
    rw [freed, x.unborn h]
    rintro rfl
    exact absurd born (Nat.not_lt.mpr h)

/-- A new service is filled for a free slot. -/
theorem Safe.create (x : Safe c view) {t : τ} {i key permission euid}
    (here : view t = .vacant i)
    : Safe (c.create (TagService.created key i permission euid))
        (Function.update view t (.fresh c.services i)) := by
  have vacant := x.fact t
  rw [here] at vacant
  have old {r} (other : r ≠ c.services)
      : (c.create (TagService.created key i permission euid)).service r = c.service r := by
    simp [Core.create, Function.update_of_ne other]
  have new : (c.create (TagService.created key i permission euid)).service c.services
      = TagService.created key i permission euid := by
    simp [Core.create]
  have born {u s} (points : (view u).service = some s) : s ≠ c.services :=
    Nat.ne_of_lt (x.born points)
  have called {b} (member : b ∈ c.callbacks) : b.service ≠ c.services :=
    Nat.ne_of_lt (x.slots (x.callback b member).live.1).1.1
  refine {
    excl := ?_
    slots := ?_
    fact := ?_
    unborn := fun h => x.unborn (Nat.le_of_succ_le h)
    remover := x.remover_update (by simp [View.removes])
    callback := fun b member => (x.callback b member).congr rfl (old (called member))
    ready := ?_
    awake := ?_
    bytes := ?_
  }
  · rw [lock_update, show View.lock (.fresh c.services i) = (view t).lock by rw [here]; rfl,
      Function.update_eq_self]
    have same : (c.callbacks.map fun b =>
        (c.create (TagService.created key i permission euid)).tag b.service)
        = c.callbacks.map fun b => c.tag b.service :=
      List.map_congr_left fun b member => by rw [Core.tag, old (called member), Core.tag]
    exact same ▸ x.excl
  · intro j r h
    have other : r ≠ c.services := Nat.ne_of_lt (x.slots h).1.1
    refine ⟨⟨Nat.lt_succ_of_lt (x.slots h).1.1, ?_, ?_⟩, (x.slots h).2⟩
    · rw [Core.tag, old other]
      exact (x.slots h).1.2.1
    · rw [old other]
      exact (x.slots h).1.2.2
  · refine (Function.forall_update_iff view fun _ u =>
      (c.create (TagService.created key i permission euid)).Fact u).mpr ⟨?_, ?_⟩
    · refine ⟨⟨Nat.lt_succ_self _, ?_, ?_⟩, x.unborn (Nat.le_refl _), ?_, vacant, ?_⟩
      · rw [Core.tag, new]
        rfl
      · rw [new]
        exact fun _ => rfl
      · rw [Core.doomed, new]
        rfl
      · exact fun j h => absurd (x.slots h).1.1 (Nat.lt_irrefl _)
    · exact fun u _ => (x.fact u).congr rfl rfl (Nat.le_succ _) fun s points => old (born points)
  · intro r l alive h
    have other : r ≠ c.services := by
      rintro rfl
      rw [Core.ready, new] at h
      simp [TagService.created] at h
    rw [Core.ready, old other] at h
    exact (x.ready alive h).imp_left (exists_mark_of_none (by rw [here]; rfl))
  · intro r alive h
    have other : r ≠ c.services := by
      rintro rfl
      rw [Core.awake, new] at h
      simp [TagService.created] at h
    rw [Core.awake, old other] at h
    exact (x.awake alive h).imp_left (exists_mark_of_none (by rw [here]; rfl))
  · intro r l n alive bound h
    have other : r ≠ c.services := by
      rintro rfl
      rw [Core.byte, new] at h
      simp [TagService.created] at h
    rw [Core.byte, old other] at h
    exact (x.bytes alive bound h).imp_left (exists_mark_of_none (by rw [here]; rfl))

/-- A filled service is published in its free slot. -/
theorem Safe.publish (x : Safe c view) {t : τ} {s i} (here : view t = .fresh s i)
    : Safe (c.setSlot i (some s)) (Function.update view t (.owning i)) := by
  have fact := x.fact t
  rw [here] at fact
  obtain ⟨tagged, alive, undoomed, vacant, nowhere⟩ := fact
  have slot {j r} (h : c.slot j = some r) : (c.setSlot i (some s)).slot j = some r := by
    have other : j ≠ i := by
      rintro rfl
      simp [vacant] at h
    simpa [Core.setSlot, Function.update_of_ne other] using h
  have back {j r} (h : (c.setSlot i (some s)).slot j = some r)
      : (j = i ∧ r = s) ∨ c.slot j = some r := by
    rcases eq_or_ne j i with rfl | other
    · exact .inl ⟨rfl, by simpa [Core.setSlot, eq_comm] using h⟩
    · exact .inr (by simpa [Core.setSlot, Function.update_of_ne other] using h)
  have owner : (view t).lock = some i := by rw [here]; rfl
  refine {
    excl := ?_
    slots := ?_
    fact := ?_
    unborn := x.unborn
    remover := x.remover_update (by simp [View.removes])
    callback := ?_
    ready := fun alive h => (x.ready alive h).imp_left
      (exists_mark_of_none (by rw [here]; rfl))
    awake := fun alive h => (x.awake alive h).imp_left
      (exists_mark_of_none (by rw [here]; rfl))
    bytes := fun alive bound h => (x.bytes alive bound h).imp_left
      (exists_mark_of_none (by rw [here]; rfl))
  }
  · rw [lock_update, show View.lock (.owning i) = (view t).lock by rw [here]; rfl,
      Function.update_eq_self]
    exact x.excl
  · intro j r h
    rcases back h with ⟨rfl, rfl⟩ | h
    · exact ⟨tagged, alive⟩
    · exact x.slots h
  · refine (Function.forall_update_iff view fun _ u => (c.setSlot i (some s)).Fact u).mpr
      ⟨trivial, ?_⟩
    intro u other
    have fact := x.fact u
    have later {r j} (known : c.Known r j) : (c.setSlot i (some s)).Known r j :=
      ⟨known.1, known.2.imp_left slot⟩
    -- Two owners of the mutex of slot `i` would be one thread.
    have elsewhere {j} (owns : (view u).lock = some j) : j ≠ i := by
      rintro rfl
      exact other (x.excl.one owns owner)
    cases v : view u <;> rw [v] at fact
    case outside | owning => trivial
    case stray => exact fact
    case known | checking => exact later fact
    case inside | deleting | removing => exact ⟨slot fact.1, fact.2⟩
    case filling | posted | clearing | waking => exact ⟨⟨slot fact.1.1, fact.1.2⟩, fact.2⟩
    case unlinked r =>
      refine ⟨fact.1, fact.2.1, fact.2.2.1, fun j h => ?_⟩
      rcases back h with ⟨rfl, rfl⟩ | h
      · exact absurd fact.2.2.1 (by simp [undoomed])
      · exact fact.2.2.2 j h
    case vacant j =>
      have apart : j ≠ i := elsewhere (by rw [v]; rfl)
      simpa [Core.Fact, Core.setSlot, Function.update_of_ne apart] using fact
    case fresh r j =>
      have apart : j ≠ i := elsewhere (by rw [v]; rfl)
      refine ⟨fact.1, fact.2.1, fact.2.2.1, ?_, fun k h => ?_⟩
      · simpa [Core.setSlot, Function.update_of_ne apart] using fact.2.2.2.1
      · rcases back h with ⟨rfl, rfl⟩ | h
        · exact apart (fact.1.2.1.symm.trans tagged.2.1)
        · exact fact.2.2.2.2 k h
  · intro b member
    have fact := x.callback b member
    exact fact.congr ((slot fact.live.1).trans fact.live.1.symm) rfl

-----------------------------------------------------------------------------------------
-- The allocator
-----------------------------------------------------------------------------------------

omit [DecidableEq τ] in
/-- Freed memory that nobody points to may be overwritten. -/
theorem Safe.reuse (x : Safe c view) {s : Ref} (ts : TagService) (freed : c.freed s = true)
    (unseen : ∀ t, (view t).service ≠ some s) (uncalled : ∀ b ∈ c.callbacks, b.service ≠ s)
    : Safe (c.reuse s ts) view := by
  have old {r} (other : r ≠ s) : (c.reuse s ts).service r = c.service r := by
    simp [Core.reuse, Function.update_of_ne other]
  have living {r} (alive : c.freed r = false) : r ≠ s := by
    rintro rfl
    simp [freed] at alive
  refine {
    excl := ?_
    slots := ?_
    fact := fun t => (x.fact t).congr rfl rfl (Nat.le_refl _) fun r points => old (by
      rintro rfl
      exact unseen t points)
    unborn := x.unborn
    remover := x.remover
    callback := fun b member => (x.callback b member).congr rfl (old (uncalled b member))
    ready := ?_
    awake := ?_
    bytes := ?_
  }
  · have same : (c.callbacks.map fun b => (c.reuse s ts).tag b.service)
        = c.callbacks.map fun b => c.tag b.service :=
      List.map_congr_left fun b member => by rw [Core.tag, old (uncalled b member), Core.tag]
    exact same ▸ x.excl
  · intro j r h
    obtain ⟨tagged, alive⟩ := x.slots h
    simp only [Core.Tagged, Core.tag, old (living alive)]
    exact ⟨tagged, alive⟩
  · intro r l alive h
    rw [Core.ready, old (living alive)] at h
    exact x.ready alive h
  · intro r alive h
    rw [Core.awake, old (living alive)] at h
    exact x.awake alive h
  · intro r l n alive bound h
    rw [Core.byte, old (living alive)] at h
    exact x.bytes alive bound h

end TagExchange.Protocol
