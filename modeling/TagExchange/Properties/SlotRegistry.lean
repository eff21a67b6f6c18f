import Mathlib.Data.Finset.Card
import TagExchange.Concurrency.Census
import TagExchange.Properties.RegistrySteps

/-! The registry of services: the slots of `all_tag_services`, the hint `first_free_entry`
and the counter `remaining_entries`.
-/

namespace TagExchange

open Concurrency Protocol

variable {τ : Type}

-----------------------------------------------------------------------------------------
-- The hint and the tags of creations
-----------------------------------------------------------------------------------------

/-- A creation whose key hashes into the arrays uses only entries of the arrays. -/
def Frame.CreatesInRange : Frame → Prop
  | get f =>
      (∀ pc, f.pc = .find pc → pc.InRange)
      ∧ match f.pc with
        | .entry | .find _ =>
            f.command = CREATE_TAG → f.key ≠ IPC_PRIVATE → IsTag (hashFunction f.key)
        | .lock => f.command = CREATE_TAG → IsTag f.tag
        | .available | .kzalloc | .fields | .publish => IsTag f.tag
        | _ => True
  | ctl f => ∀ pc, f.pc = .find pc → pc.InRange
  | _ => True

variable [DecidableEq τ] {k k' : Kernel τ} {external : Nat} {frame : Frame}

omit [DecidableEq τ] in
theorem Frame.CreatesInRange.finds {frame : Frame} (inRange : frame.CreatesInRange) {pc : FindPc}
    (finds : frame.finds = some pc)
    : pc.InRange := by
  cases frame with
  | get f =>
      obtain ⟨key, command, permission, euid, tag, ts, point⟩ := f
      cases point <;> cases finds
      exact inRange.1 _ rfl
  | ctl f =>
      obtain ⟨tag, command, euid, ts, index, awakened, point⟩ := f
      cases point <;> cases finds
      exact inRange _ rfl
  | _ => cases finds

/-- A step keeps the hint in the registry, and creations inside the arrays, by cases on the move. -/
theorem createsInRange_of_exec {c : CallId τ} {before : Frame}
    (hint : IsTag k.tsm.firstFreeEntry) (inRange : before.CreatesInRange)
    (step : k.exec external (before.op c) = some (k', frame))
    : IsTag k'.tsm.firstFreeEntry ∧ frame.CreatesInRange := by
  have same := Kernel.exec_sameCall step
  obtain ⟨hint', finds⟩ := search_of_exec hint (fun _ finds => inRange.finds finds) step
  refine ⟨hint', ?_⟩
  cases before with
  | user last => cases step
  | get f =>
      have step : k.exec external (tagGet c.1 f) = some (k', frame) := step
      have move := getMove_of_exec step
      obtain ⟨key, command, permission, euid, tag, ts, pc⟩ := f
      obtain ⟨finding, creating⟩ := inRange
      have finding' {f' : GetFrame} (after : frame = .get f') (pc : FindPc) (here : f'.pc = .find pc)
          : pc.InRange :=
        finds pc (by rw [after]; simp [Frame.finds, here])
      cases move with
      | hash named => exact ⟨finding' rfl, fun create => creating create named⟩
      | found =>
          refine ⟨finding' rfl, fun create => ?_⟩
          exact (found_of_exec hint rfl (finding _ rfl) step).resolve_right fun failed =>
            failed.1 create
      | lockCreate free create => exact ⟨finding' rfl, creating create⟩
      | leave => trivial
      | _ => first | exact ⟨finding' rfl, trivial⟩ | exact ⟨finding' rfl, creating⟩
  | ctl f =>
      cases frame with
      | ctl f' => exact fun pc here => finds pc (by simp [Frame.finds, here])
      | user last => trivial
      | _ => cases same
  | _ => cases frame <;> trivial

-----------------------------------------------------------------------------------------
-- The counter
-----------------------------------------------------------------------------------------

/-- The number of entries of the registry that are `NULL`. -/
def freeSlots (slot : Int → Option Ref) : Nat :=
  ((Finset.range MAX_TAG_SERVICES.toNat).filter fun i : Nat => slot i = none).card

theorem freeSlots_publish {slot : Int → Option Ref} {i : Int} {s : Ref} (inRange : IsTag i)
    (empty : slot i = none)
    : freeSlots slot = freeSlots (Function.update slot i (some s)) + 1 := by
  obtain ⟨n, rfl⟩ := Int.eq_ofNat_of_zero_le inRange.1
  have bound : n < MAX_TAG_SERVICES.toNat := (Int.lt_toNat).mpr inRange.2
  have member : n ∈ (Finset.range MAX_TAG_SERVICES.toNat).filter fun j : Nat => slot j = none :=
    Finset.mem_filter.mpr ⟨Finset.mem_range.mpr bound, empty⟩
  have taken : ((Finset.range MAX_TAG_SERVICES.toNat).filter fun j : Nat =>
        Function.update slot n (some s) j = none)
      = ((Finset.range MAX_TAG_SERVICES.toNat).filter fun j : Nat => slot j = none).erase n := by
    ext j
    rcases eq_or_ne j n with rfl | other
    · simp
    · simp [other]
  rw [freeSlots, freeSlots, taken, Finset.card_erase_add_one member]

theorem freeSlots_unlink {slot : Int → Option Ref} {i : Int} {s : Ref} (inRange : IsTag i)
    (full : slot i = some s)
    : freeSlots (Function.update slot i none) = freeSlots slot + 1 := by
  obtain ⟨n, rfl⟩ := Int.eq_ofNat_of_zero_le inRange.1
  have bound : n < MAX_TAG_SERVICES.toNat := (Int.lt_toNat).mpr inRange.2
  have emptied : ((Finset.range MAX_TAG_SERVICES.toNat).filter fun j : Nat =>
        Function.update slot n none j = none)
      = insert n ((Finset.range MAX_TAG_SERVICES.toNat).filter fun j : Nat => slot j = none) := by
    ext j
    rcases eq_or_ne j n with rfl | other
    · simpa using bound
    · simp [other]
  rw [freeSlots, freeSlots, emptied, Finset.card_insert_of_notMem (by simp [full])]

/-- There are no more free entries than entries. -/
theorem freeSlots_le (slot : Int → Option Ref) : freeSlots slot ≤ 512 :=
  (Finset.card_filter_le _ _).trans (by simp [MAX_TAG_SERVICES])

/-- The counter is the number of `NULL` entries, corrected by the creations and removals in
flight, modulo the width of the counter.
-/
def State.Balanced (st : State τ) (creations removals : Nat) : Prop :=
  Counted st.thread (fun th => th.frame.creates = true) creations
  ∧ Counted st.thread (fun th => th.frame.removes = true) removals
  ∧ (st.kernel.tsm.remainingEntries + removals) % 2 ^ 32
    = (freeSlots st.kernel.tsm.allTagServices + creations) % 2 ^ 32

/-- A step of a call keeps the balance, by cases on what it does to the registry. -/
theorem State.Balanced.run {st : State τ} {t : τ} {creations removals : Nat}
    (balanced : st.Balanced creations removals)
    (step : RegistryStep st.kernel (st.thread t).frame k frame)
    (published
      : ∀ {s i},
          (st.thread t).frame.view = .fresh s i
          → IsTag i ∧ st.kernel.tsm.allTagServices i = none)
    (unlinked
      : ∀ {s i},
          (st.thread t).frame.view = .removing s i
          → IsTag i ∧ st.kernel.tsm.allTagServices i = some s)
    : ∃ creations removals,
        ({ st with kernel := k }.setThread t ⟨(st.thread t).calls, frame⟩).Balanced creations
          removals := by
  obtain ⟨creating, removing, balance⟩ := balanced
  cases step with
  | quiet slots remaining creates removes =>
      refine ⟨creations, removals, creating.keep (by rw [creates]), removing.keep (by rw [removes]),
        ?_⟩
      simpa only [State.setThread, slots, remaining] using balance
  | @publish s i view slots remaining creates removes =>
      obtain ⟨inRange, empty⟩ := published view
      refine ⟨creations + 1, removals, creating.join (by simp [creates.1]) creates.2,
        removing.keep (by rw [removes]), ?_⟩
      have fewer := freeSlots_publish (s := s) inRange empty
      simp only [State.setThread, slots, remaining]
      omega
  | decrement slots remaining creates removes =>
      obtain ⟨rest, rfl⟩ := Nat.exists_eq_succ_of_ne_zero (creating.pos creates.1).ne'
      refine ⟨rest, removals, creating.leave creates.1 (by simp [creates.2]),
        removing.keep (by rw [removes]), ?_⟩
      have counter := atomicDec_mod st.kernel.tsm.remainingEntries
      simp only [State.setThread, slots, remaining]
      omega
  | @unlink s i view slots remaining creates removes =>
      obtain ⟨inRange, full⟩ := unlinked view
      refine ⟨creations, removals + 1, creating.keep (by rw [creates]),
        removing.join (by simp [removes.1]) removes.2, ?_⟩
      have more := freeSlots_unlink inRange full
      simp only [State.setThread, slots, remaining, more]
      omega
  | increment slots remaining creates removes =>
      obtain ⟨rest, rfl⟩ := Nat.exists_eq_succ_of_ne_zero (removing.pos removes.1).ne'
      refine ⟨creations, rest, creating.keep (by rw [creates]),
        removing.leave removes.1 (by simp [removes.2]), ?_⟩
      have counter := atomicInc_mod st.kernel.tsm.remainingEntries
      simp only [State.setThread, slots, remaining]
      omega

-----------------------------------------------------------------------------------------
-- The invariant
-----------------------------------------------------------------------------------------

/-- What holds of the registry in every reachable state. -/
structure RegistryInvariant (st : State τ) : Prop where
  safe : Safe st.kernel.core st.view
  hint : IsTag st.kernel.tsm.firstFreeEntry
  creating : ∀ t, (st.thread t).frame.CreatesInRange
  inRange : ∀ {i s}, st.kernel.tsm.allTagServices i = some s → IsTag i
  small : st.kernel.tsm.remainingEntries < 2 ^ 32
  balance : ∃ creations removals, st.Balanced creations removals

omit [DecidableEq τ] in
theorem isTag_of_fresh {frame : Frame} {s : Ref} {i : Int} (inRange : frame.CreatesInRange)
    (view : frame.view = .fresh s i)
    : IsTag i := by
  cases frame with
  | get f =>
      obtain ⟨key, command, permission, euid, tag, ts, pc⟩ := f
      cases pc <;> simp only [Frame.view, GetFrame.view, reduceCtorEq, View.fresh.injEq] at view
      obtain ⟨-, rfl⟩ := view
      exact inRange.2
  | send f =>
      obtain ⟨tag, level, buffer, size, euid, realSize, stored, ts, pc⟩ := f
      cases pc <;> cases view
  | ctl f =>
      -- A removal or a wake-up fills no service.
      have never : (f.place = .fresh s i) → False := by
        obtain ⟨tag, command, euid, ts, index, awakened, pc⟩ := f
        intro view
        rcases pc with _ | _ | _ | _ | _ | _ | _ | _ | (_ | _ | _) | (_ | _ | _) | _ | _ | _ | _ | _
          | _ | _ | _ | _ | _ | _ | _ | _ <;> cases view
      simp only [Frame.view, CtlFrame.view] at view
      split at view
      · split at view <;> cases view
      · cases view
      · cases view
      all_goals first | exact (never view).elim | skip
      split at view
      · exact (never view).elim
      · cases view
  | _ => cases view

/-- Keys that a creation gives hash into the arrays. -/
def HashInRange : Event τ → Prop
  | .call _ _ (.tagGet key command _) =>
      command = CREATE_TAG → key ≠ IPC_PRIVATE → IsTag (hashFunction key)
  | _ => True

omit [DecidableEq τ] in
instance (e : Event τ) : Decidable (HashInRange e) :=
  match e with
  | .call _ _ (.tagGet key command _) =>
      inferInstanceAs (Decidable (command = CREATE_TAG → key ≠ IPC_PRIVATE →
        IsTag (hashFunction key)))
  | .call _ _ (.tagSend _ _ _ _) | .call _ _ (.tagReceive _ _ _ _) | .call _ _ (.tagCtl _ _)
  | .run _ _ | .softirq _ | .signal _ | .reuse _ _ => isTrue trivial

omit [DecidableEq τ] in
theorem registryInvariant_start : RegistryInvariant (State.start : State τ) where
  safe := safe_start
  hint := (by decide : IsTag 0)
  creating _ := trivial
  inRange h := nomatch h
  small := (by decide : 512 < 2 ^ 32)
  balance := by
    refine ⟨0, 0, .zero (by simp [State.start, Frame.creates]),
      .zero (by simp [State.start, Frame.removes]), ?_⟩
    simp [State.start, freeSlots, MAX_TAG_SERVICES]

/-- Every event keeps the registry's invariant, by cases on the event. -/
theorem RegistryInvariant.step {st st' : State τ} {e : Event τ} (x : RegistryInvariant st)
    (unseen : ReuseUnseen st e) (hash : HashInRange e) (step : st.step e = some st')
    : RegistryInvariant st' := by
  have safe : Safe st'.kernel.core st'.view := safe_step x.safe unseen step
  obtain ⟨creations, removals, balanced⟩ := x.balance
  cases State.steps_of_step step with
  | @call t euid c last user =>
      have quiet : (c.enter euid).creates = false ∧ (c.enter euid).removes = false := by
        cases c <;> exact ⟨rfl, rfl⟩
      have idle : (st.thread t).frame.creates = false ∧ (st.thread t).frame.removes = false := by
        rw [user]
        exact ⟨rfl, rfl⟩
      have creating : (c.enter euid).CreatesInRange := by
        cases c with
        | tagGet key command permission => exact ⟨nofun, hash⟩
        | tagCtl tag command => exact nofun
        | _ => trivial
      exact {
        safe
        hint := x.hint
        creating := (Function.forall_update_iff st.thread
          fun _ th => th.frame.CreatesInRange).mpr ⟨creating, fun u _ => x.creating u⟩
        inRange := x.inRange
        small := x.small
        balance := ⟨creations, removals, balanced.1.keep (by simp [quiet, idle]),
          balanced.2.1.keep (by simp [quiet, idle]), balanced.2.2⟩
      }
  | @run t external k frame exec =>
      have registry := registryStep_of_exec exec
      obtain ⟨hint, creating⟩ := createsInRange_of_exec x.hint (x.creating t) exec
      have published {s i} (view : (st.thread t).frame.view = .fresh s i)
          : IsTag i ∧ st.kernel.tsm.allTagServices i = none := by
        have fact := x.safe.fact t
        rw [State.view, view] at fact
        exact ⟨isTag_of_fresh (x.creating t) view, fact.2.2.2.1⟩
      have unlinked {s i} (view : (st.thread t).frame.view = .removing s i)
          : IsTag i ∧ st.kernel.tsm.allTagServices i = some s := by
        have fact := x.safe.fact t
        rw [State.view, view] at fact
        exact ⟨x.inRange fact.1, fact.1⟩
      exact {
        safe
        hint
        creating := (Function.forall_update_iff st.thread
          fun _ th => th.frame.CreatesInRange).mpr ⟨creating, fun u _ => x.creating u⟩
        inRange := by
          intro i s found
          cases registry with
          | quiet slots | decrement slots | increment slots => exact x.inRange (slots ▸ found)
          | @publish r j view slots =>
              rcases eq_or_ne i j with rfl | other
              · exact (published view).1
              · simp only [State.setThread, slots, Function.update_of_ne other] at found
                exact x.inRange found
          | @unlink r j view slots =>
              rcases eq_or_ne i j with rfl | other
              · exact (unlinked view).1
              · simp only [State.setThread, slots, Function.update_of_ne other] at found
                exact x.inRange found
        small := by
          have small := x.small
          cases registry with
          | quiet slots remaining | publish view slots remaining | unlink view slots remaining =>
              simpa [State.setThread, remaining] using small
          | decrement slots remaining =>
              simpa [State.setThread, remaining] using atomicDec_lt small
          | increment slots remaining =>
              simpa [State.setThread, remaining] using atomicInc_lt small
        balance := balanced.run registry published unlinked
      }
  | @softirq n b k next ready exec =>
      obtain ⟨slots, remaining, hint⟩ := registry_of_callback exec
      exact {
        safe
        hint := hint ▸ x.hint
        creating := x.creating
        inRange := fun found => x.inRange (slots ▸ found)
        small := remaining ▸ x.small
        balance := ⟨creations, removals, balanced.1, balanced.2.1, by
          simpa only [slots, remaining] using balanced.2.2⟩
      }
  | signal busy => exact { x with safe }
  | reuse freed => exact { x with safe }

-----------------------------------------------------------------------------------------
-- The registry along a run
-----------------------------------------------------------------------------------------

/-- The slot and the service that an event takes out of it. -/
def State.unlinks (st : State τ) : Event τ → Option (Int × Ref)
  | .run t _ => (st.thread t).frame.unlinks
  | _ => none

/-- The slot an event stores into, and what it stores. -/
def State.stores (st : State τ) : Event τ → Option (Int × Option Ref)
  | .run t _ => (st.op t).stores
  | _ => none

/-- The laws of the registry, for the run so far and for the state it has reached. -/
structure SlotRegistry (h : History (State τ) (Event τ)) (st : State τ) : Prop where
  /-- A service is stored only into a slot that is `NULL`. -/
  published
    : ∀ s₁ e,
        (s₁, e) ∈ h
        → ∀ i s,
            s₁.stores e = some (i, some s)
            → s₁.kernel.tsm.allTagServices i = none
  /-- A slot is emptied only by a removal, and of the service that the removal is about. -/
  erased
    : ∀ s₁ e,
        (s₁, e) ∈ h
        → ∀ i,
            s₁.stores e = some (i, none)
            → ∃ s, s₁.unlinks e = some (i, s) ∧ s₁.kernel.tsm.allTagServices i = some s
  /-- A service is taken out of its slot at most once. -/
  once
    : ∀ (m n : Nat) (s₁ s₂ : State τ) (e₁ e₂ : Event τ) (i j : Int) (s : Ref),
        h[m]? = some (s₁, e₁)
        → h[n]? = some (s₂, e₂)
        → s₁.unlinks e₁ = some (i, s)
        → s₂.unlinks e₂ = some (j, s)
        → m = n
  tags
    : ∀ i s,
        st.kernel.tsm.allTagServices i = some s
        → (st.kernel.service s).tag = i ∧ ∀ l, ((st.kernel.service s).level l).tag = i
  hint : IsTag st.kernel.tsm.firstFreeEntry
  counted : ∃ creations removals, st.Balanced creations removals
  quiescent
    : (∀ t, (st.thread t).frame.creates = false ∧ (st.thread t).frame.removes = false)
      → st.kernel.tsm.remainingEntries = freeSlots st.kernel.tsm.allTagServices

/-- The allocator keeps freed memory, and creations use keys that hash into the arrays. -/
def FreedKeptAndHashInRange : Guard (State τ) (Event τ) :=
  fun _ _ e => NoReuse e ∧ HashInRange e

omit [DecidableEq τ] in
/-- In a quiescent state the counter is exact. -/
theorem RegistryInvariant.quiescent {st : State τ} (x : RegistryInvariant st)
    (quiet : ∀ t, (st.thread t).frame.creates = false ∧ (st.thread t).frame.removes = false)
    : st.kernel.tsm.remainingEntries = freeSlots st.kernel.tsm.allTagServices := by
  obtain ⟨creations, removals, creating, removing, balance⟩ := x.balance
  obtain rfl : creations = 0 := creating.unique (.zero fun t => by simp [quiet])
  obtain rfl : removals = 0 := removing.unique (.zero fun t => by simp [quiet])
  have free := freeSlots_le st.kernel.tsm.allTagServices
  have small := x.small
  omega

/-- A step that unlinks a service leaves it out of the registry. -/
theorem gone_of_unlinks {st st' : State τ} {e : Event τ} {i : Int} {s : Ref}
    (x : Safe st.kernel.core st.view) (unlinks : st.unlinks e = some (i, s))
    (step : st.step e = some st')
    : st.kernel.tsm.allTagServices i = some s ∧ st'.kernel.core.Gone s := by
  cases State.steps_of_step step with
  | @run t external k frame exec =>
      have here : st.view t = .removing s i := view_of_unlinks unlinks
      have fact := x.fact t
      rw [here] at fact
      refine ⟨fact.1, ?_⟩
      have core : k.core = st.kernel.core.setSlot i none := by
        rw [Kernel.exec_core exec, State.op]
        revert unlinks
        simp only [State.unlinks]
        cases (st.thread t).frame with
        | ctl f =>
            obtain ⟨tag, command, euid, ts, index, awakened, pc⟩ := f
            cases pc <;>
              simp only [Frame.unlinks, reduceCtorEq, Option.some.injEq, Prod.mk.injEq, false_implies]
            rintro ⟨rfl, rfl⟩
            rfl
        | _ => exact fun unlinks => by cases unlinks
      show k.core.Gone s
      exact core ▸ x.gone_of_unlink here
  | _ => cases unlinks

/-- What has left the registry stays out of it. -/
theorem gone_step {st st' : State τ} {e : Event τ} {s : Ref}
    (x : Safe st.kernel.core st.view) (noReuse : NoReuse e) (gone : st.kernel.core.Gone s)
    (step : st.step e = some st')
    : st'.kernel.core.Gone s := by
  rcases move_of_step step with ⟨t, v', move, -⟩ | ⟨n, move, -⟩ | ⟨core, -⟩
    | ⟨r, ts, rfl, -⟩
  · exact x.gone_move gone move
  · exact gone.callbackMove move
  · rwa [core]
  · exact noReuse.elim

theorem registryInvariant_run {h : History (State τ) (Event τ)} {st : State τ}
    (run : (machine τ).Run FreedKeptAndHashInRange h st)
    : RegistryInvariant st :=
  run.invariant (P := fun _ st => RegistryInvariant st) registryInvariant_start
    fun _ x ok step => x.step (ok.1.unseen _) ok.2 step

/-- What was taken out of its slot in the past is out of the registry now. -/
theorem gone_run {h : History (State τ) (Event τ)} {st : State τ}
    (run : (machine τ).Run FreedKeptAndHashInRange h st)
    : ∀ s₁ e, (s₁, e) ∈ h → ∀ i s, s₁.unlinks e = some (i, s) → st.kernel.core.Gone s := by
  refine run.invariant
    (P := fun h st =>
      ∀ s₁ e, (s₁, e) ∈ h → ∀ i s, s₁.unlinks e = some (i, s) → st.kernel.core.Gone s)
    (fun _ _ => nofun) ?_
  intro h st e st' before ih ok step s₁ e₁ member i s unlinks
  have safe := (registryInvariant_run before).safe
  rcases List.mem_cons.mp member with now | earlier
  · obtain ⟨rfl, rfl⟩ := Prod.mk.inj now
    exact (gone_of_unlinks safe unlinks step).2
  · exact gone_step safe ok.1 (ih s₁ e₁ earlier i s unlinks) step

/-- The laws hold along every run; nothing is taken out twice, since what was taken out is
out of the registry from then on.
-/
theorem slot_registry {h : History (State τ) (Event τ)} {st : State τ}
    (run : (machine τ).Run FreedKeptAndHashInRange h st)
    : SlotRegistry h st := by
  have x := registryInvariant_run run
  -- The step of a moment of the history, from a safe state.
  have safe {s₁ e} (member : (s₁, e) ∈ h) : Safe s₁.kernel.core s₁.view := by
    obtain ⟨m, here⟩ := List.getElem?_of_mem member
    exact (registryInvariant_run (run.moment here).1).safe
  -- The newer of two removals of one service finds it gone.
  have newer {m n : Nat} {s₁ s₂ : State τ} {e₁ e₂ : Event τ} {i j : Int} {s : Ref}
      (here : h[m]? = some (s₁, e₁)) (there : h[n]? = some (s₂, e₂))
      (unlinks : s₁.unlinks e₁ = some (i, s)) (unlinked : s₂.unlinks e₂ = some (j, s))
      : ¬ m < n := by
    intro later
    obtain ⟨before, ok⟩ := run.moment here
    have past : (s₂, e₂) ∈ h.drop (m + 1) := by
      refine List.mem_of_getElem? (i := n - (m + 1)) ?_
      rw [List.getElem?_drop, ← there]
      congr 1
      omega
    have gone := gone_run before s₂ e₂ past j s unlinked
    cases e₁ with
    | run t external =>
        have fact := (registryInvariant_run before).safe.fact t
        rw [State.view, view_of_unlinks unlinks] at fact
        exact gone.2.2 i fact.1
    | _ => cases unlinks
  refine {
    published := ?_
    erased := ?_
    once := fun m n s₁ s₂ e₁ e₂ i j s here there unlinks unlinked =>
      Nat.le_antisymm (Nat.not_lt.mp (newer there here unlinked unlinks))
        (Nat.not_lt.mp (newer here there unlinks unlinked))
    tags := fun i s found => ((x.safe.slots found).1).2
    hint := x.hint
    counted := x.balance
    quiescent := x.quiescent
  }
  · intro s₁ e member i s stores
    cases e with
    | run t external =>
        rcases stores_cases stores with ⟨r, -, view⟩ | ⟨r, absurd, -⟩
        · have fact := (safe member).fact t
          rw [State.view, view] at fact
          exact fact.2.2.2.1
        · cases absurd
    | _ => cases stores
  · intro s₁ e member i stores
    cases e with
    | run t external =>
        rcases stores_cases stores with ⟨r, absurd, -⟩ | ⟨r, -, unlinks, view⟩
        · cases absurd
        · have fact := (safe member).fact t
          rw [State.view, view] at fact
          exact ⟨r, unlinks, fact.1⟩
    | _ => cases stores

instance (h : History (State τ) (Event τ)) (st : State τ) (e : Event τ)
    : Decidable (FreedKeptAndHashInRange h st e) :=
  inferInstanceAs (Decidable (_ ∧ _))

/-- A creation and a removal later, the registry is as at the start. -/
theorem slot_registry_after_removal
    : ∃ h st,
        (machine (Fin 2)).Run FreedKeptAndHashInRange h st
        ∧ (st.kernel.services = 1 ∧ st.kernel.tsm.remainingEntries = 512)
        ∧ SlotRegistry h st := by
  obtain ⟨h, st, run, facts⟩ := Machine.Run.exists_of_replay
    (M := machine (Fin 2)) (G := FreedKeptAndHashInRange)
    (creating 0 1 ++ removing 1 1 22)
    (fun _ st => st.kernel.services == 1 && st.kernel.freed 0
      && st.kernel.tsm.remainingEntries == 512)
    (by decide +kernel)
  simp only [Bool.and_eq_true, beq_iff_eq] at facts
  exact ⟨h, st, run, ⟨facts.1.1, facts.2⟩, slot_registry run⟩

end TagExchange
