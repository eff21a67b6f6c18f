import TagExchange.Protocol.Callbacks

/-! Every move of a system call and of a callback keeps the protocol's invariant. -/

namespace TagExchange.Protocol

open Concurrency

variable {τ : Type} [DecidableEq τ] {c : Core τ} {view : τ → View}

-----------------------------------------------------------------------------------------
-- Mutexes
-----------------------------------------------------------------------------------------

/-- A thread with nothing but perhaps a pointer takes a mutex. -/
theorem Safe.acquire (x : Safe c view) {t : τ} {i : Int} {v : View}
    (idle : (view t).lock = none) (free : c.locked i = false) (lock : v.lock = some i)
    (fact : c.Fact v) (removes : v.removes = none) (posts : (view t).posts = none)
    (soils : (view t).soils = none) (wakes : (view t).wakes = none)
    : Safe (c.lock i) (Function.update view t v) := by
  refine x.look t v _ ?_ fact ?_ ?_ ?_ ?_
  · rw [lock]
    exact x.excl.acquire idle free
  all_goals simp [removes, posts, soils, wakes]

/-- The owner of a mutex releases it and keeps perhaps a pointer. -/
theorem Safe.release (x : Safe c view) {t : τ} {i : Int} {v : View}
    (owner : (view t).lock = some i) (lock : v.lock = none) (fact : c.Fact v)
    (removes : ∀ s, v.removes = some s → (view t).removes = some s)
    (posts : (view t).posts = none) (soils : (view t).soils = none)
    (wakes : (view t).wakes = none)
    : Safe (c.unlock i) (Function.update view t v) := by
  refine x.look t v _ ?_ fact removes ?_ ?_ ?_
  · rw [lock]
    exact x.excl.release owner
  all_goals simp [posts, soils, wakes]

-----------------------------------------------------------------------------------------
-- Stores into a service
-----------------------------------------------------------------------------------------

/-- The invariant survives a store of the owner into its live service: the level `l` that
the new view fills, posts or clears is the only one with bytes.
-/
theorem Safe.fill (x : Safe c view) {t : τ} {v : View} {s i l} {w : Write}
    (owner : (view t).lock = some i) (points : (view t).service = some s)
    (live : c.Live s i) (lock : v.lock = some i)
    (fact : (c.store s w).Fact v) (removes : v.removes = none) (soils : v.soils = some (s, l))
    (elsewhere
      : ∀ k,
          k ≠ l
          → ((c.store s w).service s).level k = (c.service s).level k)
    (clean : ∀ p, (view t).soils = some p → p = (s, l))
    (ready : (c.store s w).ready s l = true → v.posts = some (s, l))
    (readyBefore : ∀ p, (view t).posts = some p → p = (s, l))
    (awake : (c.store s w).awake s = c.awake s) (notWaking : (view t).wakes = none)
    : Safe (c.store s w) (Function.update view t v) := by
  have tag : c.tag s = i := x.tag_of_view owner points
  have alive : c.freed s = false := (x.slots live.1).2
  refine x.write owner points live.1 lock fact (by simp [removes]) ?_ ?_ ?_
  · intro k marked
    rcases eq_or_ne k l with rfl | other
    · exact ready marked
    · rw [Core.ready, elsewhere k other] at marked
      have mine := readyBefore _ (x.ready_mine owner tag alive marked)
      exact (other (Prod.mk.inj mine).2).elim
  · intro marked
    rw [awake] at marked
    simp [x.awake_mine owner tag alive marked] at notWaking
  · intro k n bound marked
    rcases eq_or_ne k l with rfl | other
    · exact soils
    · rw [Core.byte, elsewhere k other] at marked
      have mine := clean _ (x.bytes_mine owner tag alive bound marked)
      exact (other (Prod.mk.inj mine).2).elim

omit [DecidableEq τ] in
/-- The levels of a service whose owner has posted nothing are `NOT_READY`. -/
theorem Safe.not_ready (x : Safe c view) {t : τ} {s i} (owner : (view t).lock = some i)
    (points : (view t).service = some s) (live : c.Live s i) (l : Int)
    (nothing : (view t).posts ≠ some (s, l))
    : c.ready s l = false := by
  by_contra marked
  exact nothing (x.ready_mine owner (x.tag_of_view owner points) (x.slots live.1).2
    (by simpa using marked))

/-- The message moves of `tag_send`, from the first byte to the withdrawal. -/
theorem Safe.message (x : Safe c view) {t : τ} {s i l} {w : Write} {v : View}
    (move
      : (view t = .inside s i ∧ v = .filling s i l ∧ ∃ n source, w = .memcpy l n source)
        ∨ (view t = .filling s i l ∧ v = .filling s i l
            ∧ ((∃ n, w = .terminator l n) ∨ ∃ n, w = .size l n))
        ∨ (view t = .filling s i l ∧ v = .posted s i l ∧ w = .messageReady l true)
        ∨ (view t = .posted s i l ∧ v = .clearing s i l ∧ w = .messageReady l false))
    : Safe (c.store s w) (Function.update view t v) := by
  have fact := x.fact t
  have self := c.service_store_self s w
  rcases move with ⟨here, rfl, n, source, rfl⟩ | ⟨here, rfl, part⟩ | ⟨here, rfl, rfl⟩
    | ⟨here, rfl, rfl⟩ <;> rw [here] at fact
  · have live : c.Live s i := fact
    have quiet : c.ready s l = false :=
      x.not_ready (t := t) (by rw [here]; rfl) (by rw [here]; rfl) live l
        (by simp [here, View.posts])
    have still : (c.store s (.memcpy l n source)).ready s l = false := by
      simpa [Core.ready, self, Write.apply] using quiet
    refine x.fill (l := l) (by rw [here]; rfl) (by rw [here]; rfl) live rfl ⟨?_, still⟩ rfl rfl
      ?_ ?_ ?_ ?_ ?_ ?_
    · simpa [Core.Live, Core.doomed, self, Write.apply] using live
    · intro k other
      simp [self, Write.apply, other]
    · simp [here, View.soils]
    · simp [still]
    · simp [here, View.posts]
    · simp [Core.awake, self, Write.apply]
    · simp [here, View.wakes]
  · have still : (c.store s w).ready s l = false := by
      rcases part with ⟨n, rfl⟩ | ⟨n, rfl⟩ <;>
        simpa [Core.ready, self, Write.apply] using fact.2
    refine x.fill (l := l) (by rw [here]; rfl) (by rw [here]; rfl) fact.1 rfl ⟨?_, still⟩ rfl
      rfl ?_ ?_ ?_ ?_ ?_ ?_
    · rcases part with ⟨n, rfl⟩ | ⟨n, rfl⟩ <;>
        simpa [Core.Live, Core.doomed, self, Write.apply] using fact.1
    · intro k other
      rcases part with ⟨n, rfl⟩ | ⟨n, rfl⟩ <;> simp [self, Write.apply, other]
    · simp [here, View.soils]
    · simp [still]
    · simp [here, View.posts]
    · rcases part with ⟨n, rfl⟩ | ⟨n, rfl⟩ <;> simp [Core.awake, self, Write.apply]
    · simp [here, View.wakes]
  · refine x.fill (l := l) (by rw [here]; rfl) (by rw [here]; rfl) fact.1 rfl ⟨?_, ?_⟩ rfl
      rfl ?_ ?_ (fun _ => rfl) ?_ ?_ ?_
    · simpa [Core.Live, Core.doomed, self, Write.apply] using fact.1
    · simp [Core.ready, self, Write.apply]
    · intro k other
      simp [self, Write.apply, other]
    · simp [here, View.soils]
    · simp [here, View.posts]
    · simp [Core.awake, self, Write.apply]
    · simp [here, View.wakes]
  · have gone : (c.store s (.messageReady l false)).ready s l = false := by
      simp [Core.ready, self, Write.apply]
    refine x.fill (l := l) (by rw [here]; rfl) (by rw [here]; rfl) fact.1 rfl ⟨?_, gone⟩ rfl
      rfl ?_ ?_ ?_ ?_ ?_ ?_
    · simpa [Core.Live, Core.doomed, self, Write.apply] using fact.1
    · intro k other
      simp [self, Write.apply, other]
    · simp [here, View.soils]
    · simp [gone]
    · simp [here, View.posts]
    · simp [Core.awake, self, Write.apply]
    · simp [here, View.wakes]

/-- The bytes of a message that was taken back are wiped. -/
theorem Safe.wipe (x : Safe c view) {t : τ} {s i l} (here : view t = .clearing s i l)
    : Safe (c.store s (.memset l)) (Function.update view t (.owning i)) := by
  have fact := x.fact t
  rw [here] at fact
  have owner : (view t).lock = some i := by rw [here]; rfl
  have points : (view t).service = some s := by rw [here]; rfl
  have tag := x.tag_of_view owner points
  have alive := (x.slots fact.1.1).2
  have self := c.service_store_self s (.memset l)
  refine x.write owner points fact.1.1 rfl trivial (by simp [View.removes]) ?_ ?_ ?_
  · intro k marked
    have before : c.ready s k = true := by
      rw [Core.ready, self] at marked
      simp only [Write.apply, TagService.onLevel_level] at marked
      split at marked <;> exact marked
    have mine := x.ready_mine owner tag alive before
    simp [here, View.posts] at mine
  · intro marked
    have before : c.awake s = true := by simpa [Core.awake, self, Write.apply] using marked
    have mine := x.awake_mine owner tag alive before
    simp [here, View.wakes] at mine
  · intro k n bound marked
    rcases eq_or_ne k l with rfl | other
    · simp [Core.byte, self, Write.apply, bound] at marked
    · have before : c.byte s k n ≠ 0 := by
        simpa [Core.byte, self, Write.apply, other] using marked
      have mine := x.bytes_mine owner tag alive bound before
      simp [here, View.soils, other.symm] at mine

/-- The moves of `tag_ctl` that write into the service change no level. -/
theorem Safe.control (x : Safe c view) {t : τ} {s i} {w : Write} {v : View}
    (move
      : (view t = .inside s i ∧ v = .waking s i ∧ w = .awakeRequest true)
        ∨ (view t = .waking s i ∧ v = .checking s i ∧ w = .awakeRequest false)
        ∨ (view t = .inside s i ∧ v = .deleting s i ∧ w = .lazyDeleted))
    : Safe (c.store s w) (Function.update view t v) := by
  have fact := x.fact t
  have self := c.service_store_self s w
  have live : c.Live s i := by
    rcases move with ⟨here, -⟩ | ⟨here, -⟩ | ⟨here, -⟩ <;> rw [here] at fact
    · exact fact
    · exact fact.1
    · exact fact
  have owner : (view t).lock = some i := by
    rcases move with ⟨here, -⟩ | ⟨here, -⟩ | ⟨here, -⟩ <;> rw [here] <;> rfl
  have points : (view t).service = some s := by
    rcases move with ⟨here, -⟩ | ⟨here, -⟩ | ⟨here, -⟩ <;> rw [here] <;> rfl
  have tag := x.tag_of_view owner points
  have alive := (x.slots live.1).2
  have level l : ((c.store s w).service s).level l = (c.service s).level l := by
    rcases move with ⟨-, -, rfl⟩ | ⟨-, -, rfl⟩ | ⟨-, -, rfl⟩ <;> rw [self] <;> rfl
  refine x.write owner points live.1 ?_ ?_ ?_ ?_ ?_ ?_
  · rcases move with ⟨-, rfl, -⟩ | ⟨-, rfl, -⟩ | ⟨-, rfl, -⟩ <;> rfl
  · rcases move with ⟨here, rfl, rfl⟩ | ⟨here, rfl, rfl⟩ | ⟨here, rfl, rfl⟩
    · exact ⟨⟨live.1, by simpa [Core.doomed, self, Write.apply] using live.2⟩,
        by simp [Core.awake, self, Write.apply]⟩
    · exact ⟨(c.tagged_store s s _ i).mpr (x.slots live.1).1, .inl live.1⟩
    · exact ⟨live.1, by simp [Core.doomed, self, Write.apply]⟩
  · intro r h
    rcases move with ⟨-, rfl, -⟩ | ⟨-, rfl, -⟩ | ⟨-, rfl, -⟩ <;> simp [View.removes] at h
    exact ⟨h.symm, live.2⟩
  · intro l marked
    rw [Core.ready, level] at marked
    have mine := x.ready_mine owner tag alive marked
    rcases move with ⟨here, -⟩ | ⟨here, -⟩ | ⟨here, -⟩ <;> simp [here, View.posts] at mine
  · intro marked
    rcases move with ⟨-, rfl, -⟩ | ⟨-, -, rfl⟩ | ⟨here, -, rfl⟩
    · rfl
    · simp [Core.awake, self, Write.apply] at marked
    · have before : c.awake s = true := by simpa [Core.awake, self, Write.apply] using marked
      have mine := x.awake_mine owner tag alive before
      simp [here, View.wakes] at mine
  · intro l n bound marked
    rw [Core.byte, level] at marked
    have mine := x.bytes_mine owner tag alive bound marked
    rcases move with ⟨here, -⟩ | ⟨here, -⟩ | ⟨here, -⟩ <;> simp [here, View.soils] at mine

-----------------------------------------------------------------------------------------
-- The invariant
-----------------------------------------------------------------------------------------

/-- Every move of a system call keeps the invariant, unless its view has gone astray. -/
theorem Safe.move (x : Safe c view) {t : τ} {v' : View} {c' : Core τ}
    (move : Move c (view t) c' v')
    : Safe c' (Function.update view t v') := by
  have fact := x.fact t
  generalize here : view t = v at move fact
  cases move with
  | stay => rwa [← here, Function.update_eq_self]
  | @find s i found =>
      refine x.review t (.known s i) (by rw [here]; rfl) ⟨(x.slots found).1, .inl found⟩ ?_ ?_ ?_
        ?_ <;> simp [here, View.removes, View.posts, View.soils, View.wakes]
  | @astray v s i pointer other =>
      rcases pointer with rfl | rfl | rfl
      · exact absurd fact.1.2.1 other
      · exact absurd fact.1.2.1 other
      · exact absurd (x.slots fact.1).1.2.1 other
  | lost => exact fact.elim
  | enter free =>
      exact x.acquire (by rw [here]; rfl) free rfl trivial rfl (by rw [here]; rfl)
        (by rw [here]; rfl) (by rw [here]; rfl)
  | acquire free =>
      exact x.acquire (by rw [here]; rfl) free rfl fact rfl (by rw [here]; rfl)
        (by rw [here]; rfl) (by rw [here]; rfl)
  | @pass s i alive =>
      have live : c.Live s i := by
        refine ⟨fact.2.resolve_right ?_, alive⟩
        simp [Core.doomed, alive]
      refine x.review t (.inside s i) (by rw [here]; rfl) live ?_ ?_ ?_ ?_ <;>
        simp [here, View.removes, View.posts, View.soils, View.wakes]
  | @back s i =>
      have known : c.Known s i := ⟨(x.slots fact.1).1, .inl fact.1⟩
      refine x.review t (.checking s i) (by rw [here]; rfl) known ?_ ?_ ?_ ?_ <;>
        simp [here, View.removes, View.posts, View.soils, View.wakes]
  | @yield v s i owner =>
      rcases owner with rfl | rfl <;>
        refine x.review t (.owning i) (by rw [here]; rfl) trivial ?_ ?_ ?_ ?_ <;>
        simp [here, View.removes, View.posts, View.soils, View.wakes]
  | release =>
      exact x.release (by rw [here]; rfl) rfl trivial (by simp [View.removes])
        (by rw [here]; rfl) (by rw [here]; rfl) (by rw [here]; rfl)
  | fill part =>
      obtain ⟨n, source, rfl⟩ := part
      exact x.message (.inl ⟨here, rfl, n, source, rfl⟩)
  | finish part => exact x.message (.inr (.inl ⟨here, rfl, part⟩))
  | post => exact x.message (.inr (.inr (.inl ⟨here, rfl, rfl⟩)))
  | retract => exact x.message (.inr (.inr (.inr ⟨here, rfl, rfl⟩)))
  | wipe => exact x.wipe here
  | @deferSend s i l caller =>
      have tag : c.tag s = i := (x.slots fact.1.1).1.2.1
      have awake : c.awake s = false := by
        by_contra woken
        have mine := x.awake_mine (t := t) (s := s) (i := i) (by rw [here]; rfl) tag
          (x.slots fact.1.1).2 (by simpa using woken)
        simp [here, View.wakes] at mine
      refine x.defer (s := s) (i := i) (by rw [here]; rfl) (by rw [here]; rfl) rfl
        ⟨?_, ?_, ?_, ?_⟩ ?_ ?_ ?_
      · exact tag ▸ fact.1
      · rintro k ⟨⟩
        simp [fact.2]
      · simp
      · simp
      · simp [here, View.posts, posts]
      · simp [here, View.soils, soils]
      · simp [here, View.wakes]
  | @deferAwake s i caller =>
      have tag : c.tag s = i := (x.slots fact.1.1).1.2.1
      refine x.defer (s := s) (i := i) (by rw [here]; rfl) (by rw [here]; rfl) rfl
        ⟨?_, ?_, ?_, ?_⟩ ?_ ?_ ?_
      · exact tag ▸ fact.1
      · simp
      · simp [fact.2]
      · simp
      · simp [here, View.posts]
      · simp [here, View.soils]
      · simp [here, View.wakes, wakes]
  | request => exact x.control (.inl ⟨here, rfl, rfl⟩)
  | reset => exact x.control (.inr (.inl ⟨here, rfl, rfl⟩))
  | delete => exact x.control (.inr (.inr ⟨here, rfl, rfl⟩))
  | abandon =>
      exact x.release (by rw [here]; rfl) rfl fact (by simp [here, View.removes])
        (by rw [here]; rfl) (by rw [here]; rfl) (by rw [here]; rfl)
  | unlink => exact x.unlink here
  | kfree => exact x.kfree here
  | @vacate i empty =>
      refine x.review t (.vacant i) (by rw [here]; rfl) empty ?_ ?_ ?_ ?_ <;>
        simp [here, View.removes, View.posts, View.soils, View.wakes]
  | @refuse i =>
      refine x.review t (.owning i) (by rw [here]; rfl) trivial ?_ ?_ ?_ ?_ <;>
        simp [here, View.removes, View.posts, View.soils, View.wakes]
  | create => exact x.create here
  | publish => exact x.publish here

omit [DecidableEq τ] in
/-- Everything marked in the service of a callback is what that callback has to undo. -/
theorem Safe.marked_by_callback (x : Safe c view) {n : Nat} {b : Callback τ}
    (here : c.callbacks[n]? = some b)
    : (∀ l, c.ready b.service l = true → posts b = some (b.service, l))
      ∧ (c.awake b.service = true → wakes b = some b.service)
      ∧ ∀ l m,
          m < MAX_MESSAGE_SIZE
          → c.byte b.service l m ≠ 0
          → soils b = some (b.service, l) := by
  have alive : c.freed b.service = false :=
    (x.slots (x.callback b (List.mem_of_getElem? here)).live.1).2
  refine ⟨fun l marked => ?_, fun marked => ?_, fun l m bound marked => ?_⟩
  · exact x.mark_of_callback here View.lock_of_posts (fun h => posts_service h)
      (x.ready alive marked)
  · exact x.mark_of_callback here View.lock_of_wakes (fun h => wakes_service h)
      (x.awake alive marked)
  · exact x.mark_of_callback here View.lock_of_soils (fun h => soils_service h)
      (x.bytes alive bound marked)

omit [DecidableEq τ] in
/-- Every move of a callback keeps the invariant. -/
theorem Safe.callbackMove (x : Safe c view) {n : Nat} {c' : Core τ}
    (move : CallbackMove c n c')
    : Safe c' view := by
  cases move with
  | @notReady s l caller here =>
      obtain ⟨live, -, -, -⟩ := x.callback _ (List.mem_of_getElem? here)
      obtain ⟨ready, awake, bytes⟩ := x.marked_by_callback here
      have self := c.service_store_self s (.messageReady l false)
      refine x.progress here rfl (.inr ⟨_, rfl⟩) ⟨?_, ?_, by simp, by simp⟩ ?_ ?_ ?_
      · simpa [Core.Live, Core.doomed, self, Write.apply] using live
      · rintro k ⟨⟩
        simp [Core.ready, self, Write.apply]
      · intro k marked
        rcases eq_or_ne k l with rfl | other
        · simp [Core.ready, self, Write.apply] at marked
        · have mine := ready k (by simpa [Core.ready, self, Write.apply, other] using marked)
          simp [posts, other.symm] at mine
      · intro marked
        simpa [wakes] using awake (by simpa [Core.awake, self, Write.apply] using marked)
      · intro k m bound marked
        refine bytes k m bound ?_
        rcases eq_or_ne k l with rfl | other
        · simpa [Core.byte, self, Write.apply] using marked
        · simpa [Core.byte, self, Write.apply, other] using marked
  | @wipe s l caller here =>
      obtain ⟨live, quiet, -, -⟩ := x.callback _ (List.mem_of_getElem? here)
      obtain ⟨ready, awake, bytes⟩ := x.marked_by_callback here
      have self := c.service_store_self s (.memset l)
      have level k : (((c.store s (.memset l)).service s).level k).messageReady
          = ((c.service s).level k).messageReady := by
        rw [self]
        simp only [Write.apply, TagService.onLevel_level]
        split <;> rfl
      refine x.progress here rfl (.inr ⟨_, rfl⟩) ⟨?_, ?_, by simp, by simp⟩ ?_ ?_ ?_
      · simpa [Core.Live, Core.doomed, self, Write.apply] using live
      · rintro k ⟨⟩
        simpa [Core.ready, level] using quiet rfl
      · intro k marked
        simpa [posts] using ready k (by simpa only [Core.ready, level] using marked)
      · intro marked
        simpa [wakes] using awake (by simpa [Core.awake, self, Write.apply] using marked)
      · intro k m bound marked
        rcases eq_or_ne k l with rfl | other
        · simp [Core.byte, self, Write.apply, bound] at marked
        · have mine := bytes k m bound
            (by simpa [Core.byte, self, Write.apply, other] using marked)
          simp [soils, other.symm] at mine
  | @reset s caller here =>
      obtain ⟨live, -, -, -⟩ := x.callback _ (List.mem_of_getElem? here)
      obtain ⟨ready, -, bytes⟩ := x.marked_by_callback here
      have self := c.service_store_self s (.awakeRequest false)
      refine x.progress here rfl (.inr ⟨_, rfl⟩) ⟨?_, by simp, ?_, by simp⟩ ?_ ?_ ?_
      · simpa [Core.Live, Core.doomed, self, Write.apply] using live
      · simp [Core.awake, self, Write.apply]
      · intro k marked
        simpa [posts] using ready k (by simpa [Core.ready, self, Write.apply] using marked)
      · simp [Core.awake, self, Write.apply]
      · intro k m bound marked
        simpa [soils] using
          bytes k m bound (by simpa [Core.byte, self, Write.apply] using marked)
  | @skip s caller here =>
      obtain ⟨live, -, quiet, -⟩ := x.callback _ (List.mem_of_getElem? here)
      obtain ⟨ready, awake, bytes⟩ := x.marked_by_callback here
      refine x.progress here rfl (.inl rfl) ⟨live, by simp, by simpa using quiet, by simp⟩ ?_ ?_ ?_
      · exact fun k marked => by simpa [posts] using ready k marked
      · exact fun marked => by simpa [wakes] using awake marked
      · exact fun k m bound marked => by simpa [soils] using bytes k m bound marked
  | @levelTag s l caller here =>
      obtain ⟨live, quiet, -, -⟩ := x.callback _ (List.mem_of_getElem? here)
      obtain ⟨ready, awake, bytes⟩ := x.marked_by_callback here
      have still {k} (job : Job.freeAfterSend l = .freeAfterSend k)
          : c.ready s k = true ↔ Stage.unlock ((c.service s).level l).tag = .clear := by
        simpa using quiet job
      refine x.progress here rfl (.inl rfl) ⟨live, still, by simp, ?_⟩ ?_ ?_ ?_
      · rintro i ⟨⟩
        exact (x.slots live.1).1.2.2 l
      · exact fun k marked => by simpa [posts] using ready k marked
      · exact fun marked => by simpa [wakes] using awake marked
      · exact fun k m bound marked => by simpa [soils] using bytes k m bound marked
  | @serviceTag s caller here =>
      obtain ⟨live, -, quiet, -⟩ := x.callback _ (List.mem_of_getElem? here)
      obtain ⟨ready, awake, bytes⟩ := x.marked_by_callback here
      refine x.progress here rfl (.inl rfl) ⟨live, by simp, by simpa using quiet, ?_⟩ ?_ ?_ ?_
      · rintro i ⟨⟩
        rfl
      · exact fun k marked => by simpa [posts] using ready k marked
      · exact fun marked => by simpa [wakes] using awake marked
      · exact fun k m bound marked => by simpa [soils] using bytes k m bound marked
  | unlock here => exact x.settle here rfl

end TagExchange.Protocol
