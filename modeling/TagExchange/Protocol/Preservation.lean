import TagExchange.Protocol.Safety

/-! Every move of a system call and of a callback keeps the protocol's invariant. -/

namespace TagExchange.Protocol

open Concurrency

variable {τ : Type} {c : Core τ} {view : τ → View}

-----------------------------------------------------------------------------------------
-- What owning a mutex means
-----------------------------------------------------------------------------------------

/-- A view that owns a mutex and points to a service owns the mutex of that service. -/
theorem Safe.tag_of_view (x : Safe c view) {t s i} (owner : (view t).lock = some i)
    (points : (view t).service = some s)
    : c.tag s = i := by
  have fact := x.fact t
  cases v : view t <;> simp only [v, View.lock, View.service, Option.some.injEq, reduceCtorEq,
    Core.Fact] at owner points fact
  all_goals subst owner points
  case checking => exact fact.1.2.1
  case inside => exact (x.slots fact.1).1.2.1
  case fresh => exact fact.1.2.1
  case deleting => exact (x.slots fact.1).1.2.1
  all_goals exact (x.slots fact.1.1).1.2.1

/-- Nobody but the owner of its mutex marks or protects a service. -/
theorem Safe.owner_unique (x : Safe c view) {t u s i j} (owner : (view t).lock = some i)
    (tag : c.tag s = i) (other : (view u).lock = some j) (points : (view u).service = some s)
    : u = t := by
  have same := x.tag_of_view other points
  exact x.excl.one other (by rw [owner, ← tag, same])

/-- No callback works on a service whose mutex a thread owns. -/
theorem Safe.no_callback (x : Safe c view) {t s i} (owner : (view t).lock = some i)
    (tag : c.tag s = i) {b} (member : b ∈ c.callbacks)
    : b.service ≠ s := by
  intro same
  exact x.excl.apart owner (List.mem_map.mpr ⟨b, member, by rw [same, tag]⟩)

theorem View.lock_of_posts {v : View} {s l} (h : v.posts = some (s, l))
    : ∃ i, v.lock = some i ∧ v.service = some s := by
  obtain ⟨i, rfl⟩ := v.posts_eq_some h
  exact ⟨i, rfl, rfl⟩

theorem View.lock_of_wakes {v : View} {s} (h : v.wakes = some s)
    : ∃ i, v.lock = some i ∧ v.service = some s := by
  obtain ⟨i, rfl⟩ := v.wakes_eq_some h
  exact ⟨i, rfl, rfl⟩

theorem View.lock_of_soils {v : View} {s l} (h : v.soils = some (s, l))
    : ∃ i, v.lock = some i ∧ v.service = some s := by
  obtain ⟨i, rfl | rfl | rfl⟩ := v.soils_eq_some h <;> exact ⟨i, rfl, rfl⟩

/-- The `READY` levels of a service whose mutex a thread owns were posted by that thread. -/
theorem Safe.ready_mine (x : Safe c view) {t s i l} (owner : (view t).lock = some i)
    (tag : c.tag s = i) (alive : c.freed s = false) (ready : c.ready s l = true)
    : (view t).posts = some (s, l) := by
  rcases x.ready alive ready with ⟨u, posted⟩ | ⟨b, member, posted⟩
  · obtain ⟨j, other, points⟩ := View.lock_of_posts posted
    rwa [← x.owner_unique owner tag other points]
  · exact (x.no_callback owner tag member (posts_service posted)).elim

theorem Safe.awake_mine (x : Safe c view) {t s i} (owner : (view t).lock = some i)
    (tag : c.tag s = i) (alive : c.freed s = false) (awake : c.awake s = true)
    : (view t).wakes = some s := by
  rcases x.awake alive awake with ⟨u, woken⟩ | ⟨b, member, woken⟩
  · obtain ⟨j, other, points⟩ := View.lock_of_wakes woken
    rwa [← x.owner_unique owner tag other points]
  · exact (x.no_callback owner tag member (wakes_service woken)).elim

theorem Safe.bytes_mine (x : Safe c view) {t s i l n} (owner : (view t).lock = some i)
    (tag : c.tag s = i) (alive : c.freed s = false) (bound : n < MAX_MESSAGE_SIZE)
    (byte : c.byte s l n ≠ 0)
    : (view t).soils = some (s, l) := by
  rcases x.bytes alive bound byte with ⟨u, soiled⟩ | ⟨b, member, soiled⟩
  · obtain ⟨j, other, points⟩ := View.lock_of_soils soiled
    rwa [← x.owner_unique owner tag other points]
  · exact (x.no_callback owner tag member (soils_service soiled)).elim

-----------------------------------------------------------------------------------------
-- A view changes
-----------------------------------------------------------------------------------------

variable [DecidableEq τ]

/-- The locks owned after one view has changed. -/
theorem lock_update (view : τ → View) (t : τ) (v : View)
    : (fun u => (Function.update view t v u).lock)
      = Function.update (fun u => (view u).lock) t v.lock := by
  funext u
  rcases eq_or_ne u t with rfl | other
  · simp
  · simp [Function.update_of_ne other]

/-- A mark that the changed view still carries keeps its owner. -/
theorem exists_mark {α : Type} {view : τ → View} {t : τ} {v : View} (mark : View → Option α)
    {a : α} (kept : mark (view t) = some a → mark v = some a)
    (h : ∃ u, mark (view u) = some a)
    : ∃ u, mark (Function.update view t v u) = some a := by
  obtain ⟨u, h⟩ := h
  rcases eq_or_ne u t with rfl | other
  · exact ⟨u, by simpa using kept h⟩
  · exact ⟨u, by rwa [Function.update_of_ne other]⟩

/-- One removal at a time, when the changed view removes nothing new. -/
theorem Safe.remover_update (x : Safe c view) {t : τ} {v : View}
    (kept : ∀ s, v.removes = some s → (view t).removes = some s)
    {u w s} (hu : (Function.update view t v u).removes = some s)
    (hw : (Function.update view t v w).removes = some s)
    : u = w := by
  have before {y} (h : (Function.update view t v y).removes = some s)
      : (view y).removes = some s := by
    rcases eq_or_ne y t with rfl | other
    · exact kept s (by simpa using h)
    · rwa [Function.update_of_ne other] at h
  exact x.remover (before hu) (before hw)

/-- A step that changes the view and possibly the locks, and writes nothing. -/
theorem Safe.look (x : Safe c view) (t : τ) (v : View) (locked : Int → Bool)
    (excl : Exclusive locked (Function.update (fun u => (view u).lock) t v.lock)
      (c.callbacks.map fun b => c.tag b.service))
    (fact : c.Fact v) (removes : ∀ s, v.removes = some s → (view t).removes = some s)
    (posts : ∀ p, (view t).posts = some p → v.posts = some p)
    (soils : ∀ p, (view t).soils = some p → v.soils = some p)
    (wakes : ∀ s, (view t).wakes = some s → v.wakes = some s)
    : Safe { c with locked := locked } (Function.update view t v) where
  excl := by rw [lock_update]; exact excl
  slots := x.slots
  fact := (Function.forall_update_iff view fun _ w => Core.Fact { c with locked := locked } w).mpr
    ⟨fact, fun u _ => x.fact u⟩
  unborn := x.unborn
  remover := x.remover_update removes
  callback b member := by
    obtain ⟨live, ready, awake, unlocks⟩ := x.callback b member
    exact ⟨live, ready, awake, unlocks⟩
  ready alive ready := (x.ready alive ready).imp_left (exists_mark View.posts (posts _))
  awake alive awake := (x.awake alive awake).imp_left (exists_mark View.wakes (wakes _))
  bytes alive bound byte :=
    (x.bytes alive bound byte).imp_left (exists_mark View.soils (soils _))

/-- A step that only changes what a view stands for, with the same mutex. -/
theorem Safe.review (x : Safe c view) (t : τ) (v : View) (lock : v.lock = (view t).lock)
    (fact : c.Fact v) (removes : ∀ s, v.removes = some s → (view t).removes = some s)
    (posts : ∀ p, (view t).posts = some p → v.posts = some p)
    (soils : ∀ p, (view t).soils = some p → v.soils = some p)
    (wakes : ∀ s, (view t).wakes = some s → v.wakes = some s)
    : Safe c (Function.update view t v) := by
  refine x.look t v c.locked ?_ fact removes posts soils wakes
  rw [lock, Function.update_eq_self]
  exact x.excl

-----------------------------------------------------------------------------------------
-- A service changes
-----------------------------------------------------------------------------------------

namespace Core

omit [DecidableEq τ] in
@[simp] theorem slot_store (c : Core τ) (s : Ref) (w : Write) : (c.store s w).slot = c.slot :=
  rfl

omit [DecidableEq τ] in
@[simp] theorem locked_store (c : Core τ) (s : Ref) (w : Write)
    : (c.store s w).locked = c.locked :=
  rfl

omit [DecidableEq τ] in
@[simp] theorem callbacks_store (c : Core τ) (s : Ref) (w : Write)
    : (c.store s w).callbacks = c.callbacks :=
  rfl

omit [DecidableEq τ] in
theorem service_store_self (c : Core τ) (s : Ref) (w : Write)
    : (c.store s w).service s = w.apply (c.service s) := by
  simp [store]

omit [DecidableEq τ] in
theorem service_store_ne (c : Core τ) {s r : Ref} (w : Write) (other : r ≠ s)
    : (c.store s w).service r = c.service r := by
  simp [store, Function.update_of_ne other]

omit [DecidableEq τ] in
@[simp] theorem tag_store (c : Core τ) (s r : Ref) (w : Write)
    : (c.store s w).tag r = c.tag r := by
  rcases eq_or_ne r s with rfl | other
  · simp [tag, service_store_self]
  · simp [tag, c.service_store_ne w other]

omit [DecidableEq τ] in
@[simp] theorem tagged_store (c : Core τ) (s r : Ref) (w : Write) (i : Int)
    : (c.store s w).Tagged r i ↔ c.Tagged r i := by
  rcases eq_or_ne r s with rfl | other
  · simp only [Tagged, tag_store, service_store_self, Write.apply_levelTag]
    exact Iff.rfl
  · simp only [Tagged, tag_store, c.service_store_ne w other]
    exact Iff.rfl

omit [DecidableEq τ] in
theorem doomed_store (c : Core τ) {s r : Ref} (w : Write) (h : c.doomed r = true)
    : (c.store s w).doomed r = true := by
  rcases eq_or_ne r s with rfl | other
  · simpa only [doomed, service_store_self] using w.apply_lazyDeleted h
  · simpa only [doomed, c.service_store_ne w other] using h

omit [DecidableEq τ] in
/-- A removal has marked its service as deleted. -/
theorem Fact.doomed_of_removes {c : Core τ} {v : View} (fact : c.Fact v) {s}
    (h : v.removes = some s)
    : c.doomed s = true := by
  cases v <;> simp only [View.removes, reduceCtorEq, Option.some.injEq] at h
  all_goals subst h
  case unlinked => exact fact.2.2.1
  all_goals exact fact.2

omit [DecidableEq τ] in
/-- What a view relies on survives a store into a service that it does not protect. -/
theorem Fact.store {c : Core τ} {v : View} {s : Ref} (fact : c.Fact v) (w : Write)
    (apart : v.lock ≠ none → v.service ≠ some s)
    : (c.store s w).Fact v := by
  cases v with
  | outside | owning _ => trivial
  | known r i => exact ⟨(c.tagged_store s r w i).mpr fact.1, fact.2.imp_right (c.doomed_store w)⟩
  | vacant i => exact fact
  | stray => exact fact
  | removing r i => exact ⟨fact.1, c.doomed_store w fact.2⟩
  | unlinked r => exact ⟨fact.1, fact.2.1, c.doomed_store w fact.2.2.1, fact.2.2.2⟩
  | checking r i | inside r i | filling r i _ | posted r i _ | clearing r i _ | waking r i
  | deleting r i | fresh r i =>
      have other : r ≠ s := by simpa [View.lock, View.service] using apart
      simp only [Fact, Known, Live, doomed, ready, awake, c.service_store_ne w other,
        tagged_store] at fact ⊢
      exact fact

omit [DecidableEq τ] in
theorem CallbackFact.store {c : Core τ} {b : Callback τ} {s : Ref} (fact : c.CallbackFact b)
    (w : Write) (other : b.service ≠ s)
    : (c.store s w).CallbackFact b := by
  obtain ⟨live, ready, awake, unlocks⟩ := fact
  refine ⟨?_, ?_, ?_, ?_⟩
  · simpa only [Live, doomed, c.service_store_ne w other, tag_store, slot_store] using live
  · intro l job
    simpa only [Core.ready, c.service_store_ne w other] using ready job
  · intro job
    simpa only [Core.awake, c.service_store_ne w other] using awake job
  · intro i stage
    rw [tag_store]
    exact unlocks stage

end Core

/-- A thread that owns the mutex of a live service writes into it. Every mark left in the
service is one of its new view.
-/
theorem Safe.write (x : Safe c view) {t : τ} {v : View} {s i} {w : Write}
    (owner : (view t).lock = some i) (points : (view t).service = some s)
    (live : c.slot i = some s) (lock : v.lock = some i) (fact : (c.store s w).Fact v)
    (removes : ∀ r, v.removes = some r → r = s ∧ c.doomed s = false)
    (ready : ∀ l, (c.store s w).ready s l = true → v.posts = some (s, l))
    (awake : (c.store s w).awake s = true → v.wakes = some s)
    (bytes
      : ∀ l n, n < MAX_MESSAGE_SIZE → (c.store s w).byte s l n ≠ 0 → v.soils = some (s, l))
    : Safe (c.store s w) (Function.update view t v) := by
  have tag : c.tag s = i := x.tag_of_view owner points
  have apart {u} (other : u ≠ t) : (view u).lock ≠ none → (view u).service ≠ some s := by
    intro owns same
    obtain ⟨j, owns⟩ := Option.ne_none_iff_exists'.mp owns
    exact other (x.owner_unique owner tag owns same)
  refine {
    excl := ?_
    slots := ?_
    fact := ?_
    unborn := x.unborn
    remover := ?_
    callback := ?_
    ready := ?_
    awake := ?_
    bytes := ?_
  }
  · rw [lock_update, lock, ← owner, Function.update_eq_self]
    simpa only [Core.tag_store, Core.locked_store, Core.callbacks_store] using x.excl
  · intro j r found
    exact ⟨(c.tagged_store s r w j).mpr (x.slots found).1, (x.slots found).2⟩
  · exact (Function.forall_update_iff view fun _ u => (c.store s w).Fact u).mpr
      ⟨fact, fun u other => (x.fact u).store w (apart other)⟩
  · -- A new removal is of a service that nobody had marked as deleted before.
    have mine {u r} (h : (Function.update view t v u).removes = some r)
        : u = t ∨ ((view u).removes = some r ∧ (r = s → c.doomed s = true)) := by
      rcases eq_or_ne u t with rfl | other
      · exact .inl rfl
      · rw [Function.update_of_ne other] at h
        refine .inr ⟨h, ?_⟩
        rintro rfl
        exact (x.fact u).doomed_of_removes h
    intro u u' r hu hu'
    rcases mine hu with rfl | ⟨before, doomed⟩
    · rcases mine hu' with same | ⟨_, doomed'⟩
      · exact same.symm
      · obtain ⟨rfl, alive⟩ := removes r (by simpa using hu)
        simp [doomed' rfl] at alive
    · rcases mine hu' with rfl | ⟨before', _⟩
      · obtain ⟨rfl, alive⟩ := removes r (by simpa using hu')
        simp [doomed rfl] at alive
      · exact x.remover before before'
  · intro b member
    exact (x.callback b member).store w (x.no_callback owner tag member)
  · intro r l alive marked
    rcases eq_or_ne r s with rfl | other
    · exact .inl ⟨t, by simpa using ready l marked⟩
    · rw [Core.ready, c.service_store_ne w other] at marked
      refine (x.ready alive marked).imp_left (exists_mark View.posts fun mine => ?_)
      obtain ⟨j, -, points'⟩ := View.lock_of_posts mine
      exact (other (Option.some.inj (points'.symm.trans points))).elim
  · intro r alive marked
    rcases eq_or_ne r s with rfl | other
    · exact .inl ⟨t, by simpa using awake marked⟩
    · rw [Core.awake, c.service_store_ne w other] at marked
      refine (x.awake alive marked).imp_left (exists_mark View.wakes fun mine => ?_)
      obtain ⟨j, -, points'⟩ := View.lock_of_wakes mine
      exact (other (Option.some.inj (points'.symm.trans points))).elim
  · intro r l n alive bound marked
    rcases eq_or_ne r s with rfl | other
    · exact .inl ⟨t, by simpa using bytes l n bound marked⟩
    · rw [Core.byte, c.service_store_ne w other] at marked
      refine (x.bytes alive bound marked).imp_left (exists_mark View.soils fun mine => ?_)
      obtain ⟨j, -, points'⟩ := View.lock_of_soils mine
      exact (other (Option.some.inj (points'.symm.trans points))).elim

end TagExchange.Protocol
