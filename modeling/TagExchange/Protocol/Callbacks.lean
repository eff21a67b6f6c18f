import TagExchange.Protocol.Registry

/-! The moves of the RCU callbacks, from their registration to the unlock, keep the
protocol's invariant.
-/

namespace TagExchange.Protocol

open Concurrency

variable {τ : Type} {c : Core τ} {view : τ → View}

-----------------------------------------------------------------------------------------
-- Registration
-----------------------------------------------------------------------------------------


/-- The owner of a mutex registers the callback that will release it; its marks are the
callback's from now on.
-/
theorem Safe.defer [DecidableEq τ] (x : Safe c view) {t : τ} {s i} {b : Callback τ}
    (owner : (view t).lock = some i) (points : (view t).service = some s)
    (service : b.service = s) (fact : c.CallbackFact b)
    (posted : ∀ p, (view t).posts = some p → posts b = some p)
    (soiled : ∀ p, (view t).soils = some p → soils b = some p)
    (woken : ∀ r, (view t).wakes = some r → wakes b = some r)
    : Safe (c.callRcu b) (Function.update view t .outside) := by
  have handed {α : Type} {mark : View → Option α} {rest : Callback τ → Option α} {a : α}
      (give : mark (view t) = some a → rest b = some a)
      (h : (∃ u, mark (view u) = some a) ∨ ∃ b ∈ c.callbacks, rest b = some a)
      : (∃ u, mark (Function.update view t .outside u) = some a)
        ∨ ∃ b' ∈ (c.callRcu b).callbacks, rest b' = some a := by
    rcases h with ⟨u, h⟩ | ⟨b', member, h⟩
    · rcases eq_or_ne u t with rfl | other
      · exact .inr ⟨b, by simp [Core.callRcu], give h⟩
      · exact .inl ⟨u, by rwa [Function.update_of_ne other]⟩
    · exact .inr ⟨b', by simp [Core.callRcu, member], h⟩
  refine {
    excl := ?_
    slots := x.slots
    fact := ?_
    unborn := x.unborn
    remover := x.remover_update (by simp [View.removes])
    callback := ?_
    ready := fun alive h => handed (posted _) (x.ready alive h)
    awake := fun alive h => handed (woken _) (x.awake alive h)
    bytes := fun alive bound h => handed (soiled _) (x.bytes alive bound h)
  }
  · have tag : c.tag b.service = i := by rw [service, x.tag_of_view owner points]
    have moved := x.excl.handOver owner
    rw [lock_update]
    simpa [Core.callRcu, Core.tag, View.lock, ← tag] using moved
  · exact (Function.forall_update_iff view fun _ u => (c.callRcu b).Fact u).mpr
      ⟨trivial, fun u _ => x.fact u⟩
  · intro b' member
    rcases List.mem_append.mp member with earlier | new
    · exact (x.callback b' earlier).congr rfl rfl
    · obtain rfl : b' = b := by simpa using new
      exact fact.congr rfl rfl

-----------------------------------------------------------------------------------------
-- Execution
-----------------------------------------------------------------------------------------

/-- No thread owns the mutex of a service that a callback works on. -/
theorem Safe.not_owner (x : Safe c view) {b} (member : b ∈ c.callbacks) {u : τ}
    (owns : (view u).lock ≠ none)
    : (view u).service ≠ some b.service := by
  intro points
  obtain ⟨j, owner⟩ := Option.ne_none_iff_exists'.mp owns
  exact x.no_callback owner (x.tag_of_view owner points) member rfl

/-- One service has at most one callback. -/
theorem Safe.callback_unique (x : Safe c view) {n m : Nat} {b b' : Callback τ}
    (here : c.callbacks[n]? = some b) (there : c.callbacks[m]? = some b')
    (same : c.tag b'.service = c.tag b.service)
    : m = n := by
  have bound : m < (c.callbacks.map fun b => c.tag b.service).length := by
    simpa using (List.getElem?_eq_some_iff.mp there).1
  refine (List.getElem?_inj bound x.excl.once).mp ?_
  simp [here, there, same]

/-- What marks the service of a callback is that callback. -/
theorem Safe.mark_of_callback (x : Safe c view) {n : Nat} {b : Callback τ}
    (here : c.callbacks[n]? = some b) {α : Type} {mark : View → Option α} {rest : Callback τ → Option α} {a : α}
    (owns : ∀ {v}, mark v = some a → ∃ i, v.lock = some i ∧ v.service = some b.service)
    (service : ∀ {b'}, rest b' = some a → b'.service = b.service)
    (h : (∃ u, mark (view u) = some a) ∨ ∃ b' ∈ c.callbacks, rest b' = some a)
    : rest b = some a := by
  rcases h with ⟨u, h⟩ | ⟨b', member, h⟩
  · obtain ⟨i, owner, points⟩ := owns h
    exact (x.not_owner (List.mem_of_getElem? here) (by simp [owner]) points).elim
  · obtain ⟨m, there⟩ := List.getElem?_of_mem member
    obtain rfl := x.callback_unique here there (by rw [service h])
    rwa [Option.some.inj (here.symm.trans there)]

/-- A callback makes a store into its service, or none, and goes on. -/
theorem Safe.progress (x : Safe c view) {n : Nat} {b b' : Callback τ} {c' : Core τ}
    (here : c.callbacks[n]? = some b) (service : b'.service = b.service)
    (change : c' = c ∨ ∃ w, c' = c.store b.service w) (fact : c'.CallbackFact b')
    (ready : ∀ l, c'.ready b.service l = true → posts b' = some (b.service, l))
    (awake : c'.awake b.service = true → wakes b' = some b.service)
    (bytes
      : ∀ l n,
          n < MAX_MESSAGE_SIZE
          → c'.byte b.service l n ≠ 0
          → soils b' = some (b.service, l))
    : Safe { c' with callbacks := c.callbacks.set n b' } view := by
  have member : b ∈ c.callbacks := List.mem_of_getElem? here
  have other {r} (apart : r ≠ b.service) : c'.service r = c.service r := by
    rcases change with rfl | ⟨w, rfl⟩
    · rfl
    · exact c.service_store_ne w apart
  have tag r : c'.tag r = c.tag r := by
    rcases change with rfl | ⟨w, rfl⟩
    · rfl
    · exact c.tag_store _ r w
  have registry : c'.slot = c.slot ∧ c'.freed = c.freed ∧ c'.locked = c.locked
      ∧ c'.services = c.services := by
    rcases change with rfl | ⟨w, rfl⟩ <;> exact ⟨rfl, rfl, rfl, rfl⟩
  obtain ⟨slot, freed, locked, services⟩ := registry
  -- A callback of another service stays in the list.
  have kept {b₂ : Callback τ} (member : b₂ ∈ c.callbacks) (apart : b₂.service ≠ b.service)
      : b₂ ∈ c.callbacks.set n b' := by
    obtain ⟨m, there⟩ := List.getElem?_of_mem member
    refine List.mem_of_getElem? (i := m) ?_
    rw [List.getElem?_set_ne, there]
    rintro rfl
    exact apart (by rw [Option.some.inj (here.symm.trans there)])
  have now : b' ∈ c.callbacks.set n b' :=
    List.mem_set (List.getElem?_eq_some_iff.mp here).1 b'
  refine {
    excl := ?_
    slots := ?_
    fact := ?_
    unborn := fun h => by
      rw [freed]
      exact x.unborn (services ▸ h)
    remover := x.remover
    callback := ?_
    ready := ?_
    awake := ?_
    bytes := ?_
  }
  · have same : ((c.callbacks.set n b').map fun b => c'.tag b.service)
        = c.callbacks.map fun b => c.tag b.service := by
      have value : (c.callbacks.map fun b => c.tag b.service)[n]? = some (c.tag b.service) := by
        simp [here]
      obtain ⟨bound, at_n⟩ := List.getElem?_eq_some_iff.mp value
      simp only [List.map_set, tag, service]
      rw [← at_n, List.set_getElem_self bound]
    show Exclusive c'.locked _ ((c.callbacks.set n b').map fun b => c'.tag b.service)
    rw [same, locked]
    exact x.excl
  · intro i r h
    obtain ⟨tagged, alive⟩ := x.slots (slot ▸ h)
    refine ⟨?_, by rw [freed]; exact alive⟩
    rcases change with rfl | ⟨w, rfl⟩
    · exact tagged
    · exact (c.tagged_store _ r w i).mpr tagged
  · intro u
    rcases change with rfl | ⟨w, rfl⟩
    · exact x.fact u
    · exact (x.fact u).store w (x.not_owner member)
  · intro b₂ member₂
    obtain ⟨m, there⟩ := List.getElem?_of_mem member₂
    rcases eq_or_ne m n with rfl | apart
    · have new : b' = b₂ := by
        rw [List.getElem?_set_self (List.getElem?_eq_some_iff.mp here).1] at there
        exact Option.some.inj there
      exact new ▸ fact.congr rfl rfl
    · rw [List.getElem?_set_ne apart.symm] at there
      have elsewhere : b₂.service ≠ b.service :=
        fun same => apart (x.callback_unique here there (by rw [same]))
      exact (x.callback b₂ (List.mem_of_getElem? there)).congr (by rw [slot]) (other elsewhere)
  · intro r l alive marked
    rcases eq_or_ne r b.service with rfl | apart
    · exact .inr ⟨b', now, ready l marked⟩
    · have before : c.ready r l = true := by rwa [Core.ready, ← other apart]
      refine (x.ready (freed ▸ alive) before).imp_right ?_
      rintro ⟨b₂, member₂, posted⟩
      exact ⟨b₂, kept member₂ (by rwa [posts_service posted]), posted⟩
  · intro r alive marked
    rcases eq_or_ne r b.service with rfl | apart
    · exact .inr ⟨b', now, awake marked⟩
    · have before : c.awake r = true := by rwa [Core.awake, ← other apart]
      refine (x.awake (freed ▸ alive) before).imp_right ?_
      rintro ⟨b₂, member₂, woken⟩
      exact ⟨b₂, kept member₂ (by rwa [wakes_service woken]), woken⟩
  · intro r l m alive bound marked
    rcases eq_or_ne r b.service with rfl | apart
    · exact .inr ⟨b', now, bytes l m bound marked⟩
    · have before : c.byte r l m ≠ 0 := by rwa [Core.byte, ← other apart]
      refine (x.bytes (freed ▸ alive) bound before).imp_right ?_
      rintro ⟨b₂, member₂, soiled⟩
      exact ⟨b₂, kept member₂ (by rwa [soils_service soiled]), soiled⟩

/-- A callback gives its mutex back, and everything it marked is clean by then. -/
theorem Safe.settle (x : Safe c view) {n : Nat} {b : Callback τ} {i : Int}
    (here : c.callbacks[n]? = some b) (stage : b.stage = .unlock i)
    : Safe { c.unlock i with callbacks := c.callbacks.eraseIdx n } view := by
  have member : b ∈ c.callbacks := List.mem_of_getElem? here
  have tag : c.tag b.service = i := ((x.callback b member).unlocks stage).symm
  -- What another callback marks stays marked by it.
  have kept {α : Type} {mark : View → Option α} {rest : Callback τ → Option α} {a : α}
      (done : rest b ≠ some a)
      (h : (∃ u, mark (view u) = some a) ∨ ∃ b' ∈ c.callbacks, rest b' = some a)
      : (∃ u, mark (view u) = some a) ∨ ∃ b' ∈ c.callbacks.eraseIdx n, rest b' = some a := by
    refine h.imp_right ?_
    rintro ⟨b', member', marks⟩
    obtain ⟨m, there⟩ := List.getElem?_of_mem member'
    refine ⟨b', List.mem_eraseIdx_iff_getElem?.mpr ⟨m, ?_, there⟩, marks⟩
    rintro rfl
    exact done (by rwa [Option.some.inj (here.symm.trans there)])
  refine {
    excl := ?_
    slots := x.slots
    fact := x.fact
    unborn := x.unborn
    remover := x.remover
    callback := fun b' member' => by
      obtain ⟨live, ready, awake, unlocks⟩ :=
        x.callback b' ((List.eraseIdx_sublist c.callbacks n).mem member')
      exact ⟨live, ready, awake, unlocks⟩
    ready := fun alive h => kept (by simp [posts, stage]) (x.ready alive h)
    awake := fun alive h => kept (by simp [wakes, stage]) (x.awake alive h)
    bytes := fun alive bound h => kept (by simp [soils, stage]) (x.bytes alive bound h)
  }
  have settled := x.excl.settle (n := n) (i := i) (by simp [here, tag])
  rwa [List.eraseIdx_map] at settled

end TagExchange.Protocol
