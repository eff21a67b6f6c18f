import TagExchange.Model.StepsLeft
import TagExchange.Properties.Sequential

/-! `tag_get` with `IPC_PRIVATE` and `CREATE_TAG` between the calls of a sequential run: it succeeds
exactly when there is a free entry.
-/

namespace TagExchange

open Concurrency Protocol

variable {τ : Type}

-----------------------------------------------------------------------------------------
-- Calls whose allocations and devices succeed
-----------------------------------------------------------------------------------------

/-- What the allocator and the device layer report to a call when they succeed. -/
def Frame.success : Frame → Nat
  | get f =>
      match f.pc with
      | .kzalloc => creationAllocations
      | _ => 0
  | _ => 0

/-- The call runs alone, and its allocations and the creation of its device succeed. -/
def Succeeding (t : τ) : Guard (State τ) (Event τ) :=
  fun h st e =>
    OnlyBy t h st e ∧ ∀ u external, e = .run u external → external = (st.thread u).frame.success

-----------------------------------------------------------------------------------------
-- What a creation finds and leaves
-----------------------------------------------------------------------------------------

/-- A registered service with the key of private services. -/
structure Kernel.HasPrivate (k : Kernel τ) (euid i : Int) (s : Ref) : Prop where
  slot : k.tsm.allTagServices i = some s
  unfreed : k.freed s = false
  key : (k.service s).key = -1
  ownerEuid : (k.service s).ownerEuid = euid
  alive : (k.service s).lazyDeleted = false

/-- What tells a service from another one: nothing but its creation and its removal change it. -/
def TagService.identity (ts : TagService) : Int × Int × Bool :=
  (ts.key, ts.ownerEuid, ts.lazyDeleted)

theorem Kernel.HasPrivate.congr {k k' : Kernel τ} {euid i : Int} {s : Ref}
    (x : k.HasPrivate euid i s)
    (slot : k'.tsm.allTagServices i = k.tsm.allTagServices i) (freed : k'.freed s = k.freed s)
    (service
      : k.freed s = false → (k'.service s).identity = (k.service s).identity)
    : k'.HasPrivate euid i s := by
  obtain ⟨key, rest⟩ := Prod.mk.inj (service x.unfreed)
  obtain ⟨ownerEuid, alive⟩ := Prod.mk.inj rest
  exact ⟨slot.trans x.slot, freed.trans x.unfreed, key.trans x.key, ownerEuid.trans x.ownerEuid,
    alive.trans x.alive⟩

/-- The service is registered in an entry that was free, and nothing else in the registry has
changed but the counter.
-/
structure Kernel.Adds (k₀ k : Kernel τ) (euid i : Int) (s : Ref) : Prop where
  index : IsTag i
  free : k₀.tsm.allTagServices i = none
  slots : k.tsm.allTagServices = Function.update k₀.tsm.allTagServices i (some s)
  private_ : k.HasPrivate euid i s

/-- What a creation under `IPC_PRIVATE` has done when it returns. -/
structure Kernel.PrivateOutcome (k₀ k : Kernel τ) (euid r : Int) : Prop where
  full : r = -ENOMEM ↔ ∀ i, IsTag i → k₀.tsm.allTagServices i ≠ none
  refused
    : r = -ENOMEM
      → k.tsm.allTagServices = k₀.tsm.allTagServices
        ∧ k.tsm.remainingEntries = k₀.tsm.remainingEntries
  created
    : r ≠ -ENOMEM
      → (∃ s, k₀.Adds k euid r s) ∧ k.tsm.remainingEntries + 1 = k₀.tsm.remainingEntries

/-- The registry is as it was when the call began, and the devices are not in use. -/
structure Kernel.Untouched (k₀ k : Kernel τ) : Prop where
  slots : k.tsm.allTagServices = k₀.tsm.allTagServices
  remaining : k.tsm.remainingEntries = k₀.tsm.remainingEntries
  devices : ∀ i, k.dm.deviceLock i = false
  unborn : ∀ s, k.services ≤ s → k.freed s = false

/-- The call looks for an entry and has taken no mutex. -/
structure Kernel.Searched (k₀ k : Kernel τ) : Prop where
  untouched : k₀.Untouched k
  hint : IsTag k.tsm.firstFreeEntry
  unlocked : ∀ i, k₀.tsm.allTagServices i = none → k.tsm.accessLock i = false

/-- An entry of the registry that was free when the call began. -/
def Kernel.Vacant (k : Kernel τ) (i : Int) : Prop :=
  IsTag i ∧ k.tsm.allTagServices i = none

/-- The search for a free entry at each program point. -/
def Kernel.SearchesAt (k₀ k : Kernel τ) : FindPc → Prop
  | .hint | .full => True
  | .probe i => i = k.tsm.firstFreeEntry
  | .scan i =>
      IsTag i ∧ (∀ j, 0 ≤ j → j < i → k₀.tsm.allTagServices j ≠ none) ∧ ∃ j, k₀.Vacant j
  | .store i => k₀.Vacant i
  | .result => k₀.Vacant k.tsm.firstFreeEntry

/-- The creation of the device at each program point: it has found the new service. -/
def CreateDevicePc.Found (ts : Ref) : CreateDevicePc → Prop
  | .load | .count _ _ | .print _ _ _ | .write _ => True
  | .lock found | .add found | .node found | .content found | .fill found => found = some ts
  | .unlock failed => failed = false
  | .noContent | .delete | .oops => False

/-- Where a creation is that began in `k₀`, its `tag` and `ts` being these. -/
def Kernel.CreatesAt (k₀ k : Kernel τ) (euid tag : Int) (ts : Ref) : GetPc → Prop
  | .entry => k₀.Searched k
  | .find pc => k₀.Searched k ∧ k₀.SearchesAt k pc
  | .lock => k₀.Searched k ∧ k₀.Vacant tag
  | .available | .kzalloc | .fields => k₀.Untouched k ∧ k₀.Vacant tag
  | .publish =>
      k₀.Untouched k ∧ k₀.Vacant tag ∧ k.freed ts = false ∧ (k.service ts).key = -1
      ∧ (k.service ts).ownerEuid = euid ∧ (k.service ts).lazyDeleted = false
  | .unlockCreated | .decRemaining =>
      k₀.Adds k euid tag ts ∧ k.tsm.remainingEntries = k₀.tsm.remainingEntries
      ∧ ∀ i, k.dm.deviceLock i = false
  | .device pc =>
      k₀.Adds k euid tag ts ∧ k.tsm.remainingEntries + 1 = k₀.tsm.remainingEntries
      ∧ pc.Found ts ∧ (pc.holds = false → ∀ i, k.dm.deviceLock i = false)
  | .print => k₀.Adds k euid tag ts ∧ k.tsm.remainingEntries + 1 = k₀.tsm.remainingEntries
  | .ret r => k₀.PrivateOutcome k euid r
  | _ => False

/-- The frames of a creation under `IPC_PRIVATE` that has begun in `k₀`. -/
def Kernel.Creates (k₀ k : Kernel τ) (euid permission : Int) : Frame → Prop
  | .user last => ∃ r, last = some r ∧ k₀.PrivateOutcome k euid r
  | .get f =>
      f.key = IPC_PRIVATE ∧ f.command = CREATE_TAG ∧ f.permission = permission ∧ f.euid = euid
      ∧ k₀.CreatesAt k euid f.tag f.ts f.pc
  | _ => False

-----------------------------------------------------------------------------------------
-- Free entries
-----------------------------------------------------------------------------------------

theorem freeSlots_eq_zero_iff {slot : Int → Option Ref}
    : freeSlots slot = 0 ↔ ∀ i, IsTag i → slot i ≠ none := by
  rw [freeSlots, Finset.card_eq_zero, Finset.filter_eq_empty_iff]
  constructor
  · intro full i index
    obtain ⟨n, rfl⟩ := Int.eq_ofNat_of_zero_le index.1
    exact full (Finset.mem_range.mpr (Int.lt_toNat.mpr index.2))
  · intro full n bound
    exact full n ⟨Int.natCast_nonneg n, Int.lt_toNat.mp (Finset.mem_range.mp bound)⟩

theorem exists_vacant {k : Kernel τ} (some_ : freeSlots k.tsm.allTagServices ≠ 0)
    : ∃ i, k.Vacant i := by
  by_contra none_
  refine some_ (freeSlots_eq_zero_iff.mpr fun i index free => ?_)
  exact none_ ⟨i, index, free⟩

/-- A creation that has registered its service in a free entry has succeeded. -/
theorem Kernel.Adds.outcome {k₀ k : Kernel τ} {euid i : Int} {s : Ref} (adds : k₀.Adds k euid i s)
    (counted : k.tsm.remainingEntries + 1 = k₀.tsm.remainingEntries)
    : k₀.PrivateOutcome k euid i where
  full := by
    refine iff_of_false ?_ fun full => full i adds.index adds.free
    rintro rfl
    exact absurd adds.index.1 (by decide)
  refused := by
    rintro rfl
    exact absurd adds.index.1 (by decide)
  created _ := ⟨⟨s, adds⟩, counted⟩

/-- A creation that has found no free entry has failed. -/
theorem Kernel.Untouched.outcome {k₀ k : Kernel τ} {euid : Int} (x : k₀.Untouched k)
    (full : ∀ i, IsTag i → k₀.tsm.allTagServices i ≠ none)
    : k₀.PrivateOutcome k euid (-ENOMEM) where
  full := iff_of_true rfl full
  refused _ := ⟨x.slots, x.remaining⟩
  created other := absurd rfl other

-----------------------------------------------------------------------------------------
-- The steps of a creation
-----------------------------------------------------------------------------------------

variable [DecidableEq τ] {k₀ k k' : Kernel τ} {euid permission tag : Int} {ts : Ref}

/-- What a step of the search goes on with, or what the search finds. -/
def Kernel.SearchYields (k₀ k : Kernel τ) : Then FindPc Int → Prop
  | .go next => k₀.SearchesAt k next
  | .back i => k₀.Vacant i ∨ (i = -1 ∧ ∀ j, IsTag j → k₀.tsm.allTagServices j ≠ none)

/-- A step of the search, by cases on the program point: where the hint is of no use and the
counter is not zero, the scan meets a free entry before the end of the registry.
-/
theorem searches_exec (resting : k₀.Resting) (searched : k₀.Searched k) {pc : FindPc}
    (searches : k₀.SearchesAt k pc)
    : ∃ k' next,
        k.exec 0 (findFirstEntryAvailable pc) = some (k', next)
        ∧ k₀.Searched k'
        ∧ k₀.SearchYields k' next := by
  have slots := searched.untouched.slots
  cases pc with
  | hint => exact ⟨k, _, rfl, searched, rfl⟩
  | probe i =>
      refine ⟨k, _, rfl, searched, ?_⟩
      obtain rfl : i = k.tsm.firstFreeEntry := searches
      cases here : k.tsm.allTagServices k.tsm.firstFreeEntry with
      | none => exact ⟨searched.hint, slots ▸ here⟩
      | some s => exact trivial
  | full =>
      refine ⟨k, _, rfl, searched, ?_⟩
      have counted : k.tsm.remainingEntries = freeSlots k₀.tsm.allTagServices :=
        searched.untouched.remaining.trans resting.counted
      dsimp only
      by_cases none_left : k.tsm.remainingEntries = 0
      · rw [if_pos none_left]
        exact .inr ⟨rfl, freeSlots_eq_zero_iff.mp (counted.symm.trans none_left)⟩
      · rw [if_neg none_left]
        refine ⟨by decide, fun j low high => ?_, ?_⟩
        · exact absurd (Int.lt_of_le_of_lt low high) (by decide)
        · exact exists_vacant (counted ▸ none_left)
  | scan i =>
      refine ⟨k, _, rfl, searched, ?_⟩
      obtain ⟨index, before, j, vacant⟩ := searches
      cases here : k.tsm.allTagServices i with
      | none => exact ⟨index, slots ▸ here⟩
      | some s =>
          have occupied : k₀.tsm.allTagServices i ≠ none := by simp [← slots, here]
          -- The free entry is none of those looked at, so there is a next one.
          have later : i < j := by
            rcases Int.lt_or_le i j with later | past
            · exact later
            · rcases Int.lt_or_eq_of_le past with earlier | rfl
              · exact absurd vacant.2 (before j vacant.1.1 earlier)
              · exact absurd vacant.2 occupied
          have next : i + 1 < MAX_TAG_SERVICES := Int.lt_of_le_of_lt later vacant.1.2
          simp only [Option.isNone_some, Bool.false_eq_true, if_false, next, if_true]
          refine ⟨⟨by have := index.1; omega, next⟩, fun m low high => ?_, j, vacant⟩
          rcases Int.lt_or_eq_of_le (Int.lt_add_one_iff.mp high) with earlier | rfl
          · exact before m low earlier
          · exact occupied
  | store i =>
      have untouched : k₀.Untouched (k.setTsm fun m => { m with firstFreeEntry := i }) :=
        ⟨slots, searched.untouched.remaining, searched.untouched.devices,
          searched.untouched.unborn⟩
      exact ⟨_, _, rfl, ⟨untouched, searches.1, searched.unlocked⟩, searches⟩
  | result => exact ⟨k, _, rfl, searched, .inl searches⟩

/-- The creation of the device goes on with the new service, or it is over. -/
def Kernel.DeviceContinues (k : Kernel τ) (ts : Ref) : Then CreateDevicePc Unit → Prop
  | .go next => next.Found ts ∧ (next.holds = false → ∀ i, k.dm.deviceLock i = false)
  | .back _ => True

/-- A step of the creation of the device leaves the registry alone, by cases on the program point. -/
theorem devices_exec {pc : CreateDevicePc} (slot : k.tsm.allTagServices tag = some ts)
    (found : pc.Found ts) (unlocked : pc.holds = false → ∀ i, k.dm.deviceLock i = false)
    : ∃ k' next,
        k.exec 0 (tsCreateCharDeviceFile tag pc) = some (k', next)
        ∧ k'.tsm = k.tsm
        ∧ k'.freed = k.freed
        ∧ k'.service = k.service
        ∧ k'.DeviceContinues ts next := by
  cases pc with
  | load => exact ⟨k, _, rfl, rfl, rfl, rfl, slot, fun _ => unlocked rfl⟩
  | lock ts' =>
      have free : ¬ k.dm.deviceLock tag = true := by simp [unlocked rfl tag]
      exact ⟨_, _, if_neg free, rfl, rfl, rfl, found, fun out => by cases out⟩
  | add ts' =>
      exact ⟨k, _, rfl, rfl, rfl, rfl, found, fun out => by cases out⟩
  | node ts' =>
      exact ⟨k, _, rfl, rfl, rfl, rfl, found, fun out => by cases out⟩
  | content ts' =>
      exact ⟨_, _, rfl, rfl, rfl, rfl, found, fun out => by cases out⟩
  | noContent | oops => exact absurd found id
  | fill ts' =>
      obtain rfl : ts' = some ts := found
      exact ⟨k, _, rfl, rfl, rfl, rfl, trivial, fun out => by cases out⟩
  | count s rows => exact ⟨k, _, rfl, rfl, rfl, rfl, trivial, fun out => by cases out⟩
  | print s n rows =>
      refine ⟨k, _, rfl, rfl, rfl, rfl, ?_⟩
      dsimp only
      split <;> exact ⟨trivial, fun out => by cases out⟩
  | write text =>
      have kept (change : TextBuffer → TextBuffer)
          : (k.onContent tag change).tsm = k.tsm
            ∧ (k.onContent tag change).freed = k.freed
            ∧ (k.onContent tag change).service = k.service := by
        unfold Kernel.onContent
        split <;> exact ⟨rfl, rfl, rfl⟩
      obtain ⟨tsm, freed, service⟩ := kept fun b => { b with text := some text }
      exact ⟨_, _, rfl, tsm, freed, service, rfl, fun out => by cases out⟩
  | unlock failed =>
      obtain rfl : failed = false := found
      exact ⟨_, _, rfl, rfl, rfl, rfl, trivial⟩
  | delete => exact found.elim

omit [DecidableEq τ] in
/-- An addition depends on the slots and on the identity of the new service only. -/
theorem Kernel.Adds.congr {s : Ref} (adds : k₀.Adds k euid tag s)
    (slots : k'.tsm.allTagServices = k.tsm.allTagServices) (freed : k'.freed = k.freed)
    (service
      : k.freed s = false → (k'.service s).identity = (k.service s).identity)
    : k₀.Adds k' euid tag s where
  index := adds.index
  free := adds.free
  slots := slots.trans adds.slots
  private_ := adds.private_.congr (by rw [slots]) (by rw [freed]) service

omit [DecidableEq τ] in
theorem Kernel.PrivateOutcome.congr {r : Int} (outcome : k₀.PrivateOutcome k euid r)
    (slots : k'.tsm.allTagServices = k.tsm.allTagServices)
    (remaining : k'.tsm.remainingEntries = k.tsm.remainingEntries) (freed : k'.freed = k.freed)
    (service
      : ∀ s, k.freed s = false → (k'.service s).identity = (k.service s).identity)
    : k₀.PrivateOutcome k' euid r where
  full := outcome.full
  refused failed := by
    obtain ⟨same, counted⟩ := outcome.refused failed
    exact ⟨slots.trans same, remaining.trans counted⟩
  created succeeded := by
    obtain ⟨⟨s, adds⟩, counted⟩ := outcome.created succeeded
    exact ⟨⟨s, adds.congr slots freed (service s)⟩, by rw [remaining]; exact counted⟩

/-- A step of a creation that succeeds, by cases on the program point. -/
theorem creates_exec (resting : k₀.Resting) (valid : ValidPermission permission) {c : CallId τ}
    {frame : Frame} (creates : k₀.Creates k euid permission frame) (busy : frame.idle = false)
    : ∃ k' frame',
        k.exec frame.success (frame.op c) = some (k', frame')
        ∧ k₀.Creates k' euid permission frame' := by
  cases frame with
  | user last => cases busy
  | get f =>
      obtain ⟨key, command, permission, euid, tag, ts, pc⟩ := f
      obtain ⟨rfl, rfl, rfl, rfl, creates⟩ := creates
      cases pc
      case entry =>
        have arguments
            : GetFrame.ValidArguments ⟨IPC_PRIVATE, CREATE_TAG, permission, euid, tag, ts, .entry⟩ :=
          ⟨valid, .inl rfl⟩
        refine ⟨{ k with moduleRefs := k.moduleRefs + 1 }, _, rfl, ?_⟩
        rw [if_neg (not_not_intro arguments), if_neg (not_not_intro rfl)]
        have searched : k₀.Searched { k with moduleRefs := k.moduleRefs + 1 } :=
          ⟨⟨creates.untouched.slots, creates.untouched.remaining, creates.untouched.devices,
            creates.untouched.unborn⟩, creates.hint, creates.unlocked⟩
        exact ⟨rfl, rfl, rfl, rfl, searched, trivial⟩
      case find pc =>
        obtain ⟨searched, searches⟩ := creates
        obtain ⟨k', next, exec, searched', yields⟩ := searches_exec resting searched searches
        refine ⟨k', _, by rw [Frame.op, tagGet, Frame.success, Kernel.exec_map, exec]; rfl, ?_⟩
        cases next with
        | go pc' => exact ⟨rfl, rfl, rfl, rfl, searched', yields⟩
        | back i =>
            dsimp only [GetFrame.found]
            rcases yields with vacant | ⟨rfl, full⟩
            · have taken : ¬ (i = -1 ∧ CREATE_TAG = CREATE_TAG) := by
                rintro ⟨rfl, -⟩
                exact absurd vacant.1.1 (by decide)
              rw [if_neg taken]
              exact ⟨rfl, rfl, rfl, rfl, searched', vacant⟩
            · rw [if_pos ⟨rfl, rfl⟩]
              exact ⟨rfl, rfl, rfl, rfl, searched'.untouched.outcome full⟩
      case lock =>
        obtain ⟨searched, vacant⟩ := creates
        have free : ¬ k.tsm.accessLock tag = true := by simp [searched.unlocked tag vacant.2]
        refine ⟨_, _, if_neg free, ?_⟩
        rw [if_pos rfl]
        have x := searched.untouched
        exact ⟨rfl, rfl, rfl, rfl, ⟨x.slots, x.remaining, x.devices, x.unborn⟩, vacant⟩
      case available =>
        obtain ⟨x, vacant⟩ := creates
        have free : k.tsm.allTagServices tag = none := x.slots ▸ vacant.2
        refine ⟨k, (_ : Frame), rfl, ?_⟩
        simp only [free, Option.isSome_none, Bool.false_eq_true, if_false]
        exact ⟨rfl, rfl, rfl, rfl, x, vacant⟩
      case kzalloc =>
        exact ⟨k, _, rfl, rfl, rfl, rfl, rfl, creates⟩
      case fields =>
        obtain ⟨x, vacant⟩ := creates
        refine ⟨_, _, rfl, rfl, rfl, rfl, rfl, ?_⟩
        refine ⟨⟨x.slots, x.remaining, x.devices, fun s unborn => ?_⟩, vacant,
          x.unborn _ (Nat.le_refl _), ?_⟩
        · exact x.unborn s (Nat.le_of_succ_le unborn)
        · simp only [Function.update_self]
          exact ⟨rfl, rfl, rfl⟩
      case publish =>
        obtain ⟨x, vacant, unfreed, key, owner, alive⟩ := creates
        refine ⟨_, _, rfl, rfl, rfl, rfl, rfl, ⟨vacant.1, vacant.2, ?_, ?_⟩, x.remaining, x.devices⟩
        · show Function.update k.tsm.allTagServices tag (some ts) = _
          rw [x.slots]
        · exact ⟨Function.update_self .., unfreed, key, owner, alive⟩
      case unlockCreated =>
        obtain ⟨adds, remaining, devices⟩ := creates
        exact ⟨_, _, rfl, rfl, rfl, rfl, rfl, adds.congr rfl rfl fun _ => rfl, remaining, devices⟩
      case decRemaining =>
        obtain ⟨adds, remaining, devices⟩ := creates
        refine ⟨_, _, rfl, rfl, rfl, rfl, rfl, adds.congr rfl rfl fun _ => rfl, ?_, trivial,
          fun _ => devices⟩
        show atomicDec k.tsm.remainingEntries + 1 = k₀.tsm.remainingEntries
        have counted := resting.counted
        have bound := freeSlots_le k₀.tsm.allTagServices
        rw [freeSlots_publish (s := ts) adds.index adds.free] at counted bound
        rw [remaining, counted, atomicDec, if_neg (by omega), Nat.add_sub_cancel]
      case device pc =>
        obtain ⟨adds, remaining, found, unlocked⟩ := creates
        obtain ⟨k', next, exec, tsm, freed, service, continues⟩ :=
          devices_exec adds.private_.slot found unlocked
        have adds' : k₀.Adds k' euid tag ts := adds.congr (by rw [tsm]) freed fun _ => by rw [service]
        refine ⟨k', _, by rw [Frame.op, tagGet, Frame.success, Kernel.exec_map, exec]; rfl, ?_⟩
        cases next with
        | go pc' =>
            obtain ⟨found', unlocked'⟩ := continues
            exact ⟨rfl, rfl, rfl, rfl, adds', by rw [tsm]; exact remaining, found', unlocked'⟩
        | back => exact ⟨rfl, rfl, rfl, rfl, adds', by rw [tsm]; exact remaining⟩
      case print =>
        obtain ⟨adds, remaining⟩ := creates
        exact ⟨k, _, rfl, rfl, rfl, rfl, rfl, adds.outcome remaining⟩
      case ret r =>
        exact ⟨_, _, rfl, r, rfl, creates.congr rfl rfl rfl fun _ _ => rfl⟩
      all_goals exact creates.elim
  | _ => exact creates.elim

-----------------------------------------------------------------------------------------
-- What happens meanwhile
-----------------------------------------------------------------------------------------

/-- What callbacks, signals and the allocator leave alone. -/
structure Kernel.Bystander (k k' : Kernel τ) : Prop where
  slots : k'.tsm.allTagServices = k.tsm.allTagServices
  remaining : k'.tsm.remainingEntries = k.tsm.remainingEntries
  hint : k'.tsm.firstFreeEntry = k.tsm.firstFreeEntry
  unlocked : ∀ i, k.tsm.accessLock i = false → k'.tsm.accessLock i = false
  devices : k'.dm = k.dm
  freed : k'.freed = k.freed
  services : k'.services = k.services
  identity : ∀ s, k.freed s = false → (k'.service s).identity = (k.service s).identity

/-- A callback gives mutexes back and takes none. -/
theorem bystander_of_callback {b : Callback τ} {next : Option (Callback τ)}
    (exec : k.exec 0 b.op = some (k', next))
    : k.Bystander k' := by
  obtain ⟨slots, remaining, hint⟩ := registry_of_callback exec
  obtain ⟨-, freed, services⟩ := homes_of_callback exec
  refine ⟨slots, remaining, hint, fun i free => ?_, ?_, freed, services, fun s _ => ?_⟩
  · obtain ⟨job, s, stage, caller⟩ := b
    have unlocks (j : Int) : Function.update k.tsm.accessLock j false i = false := by
      rcases eq_or_ne i j with rfl | other
      · exact Function.update_self ..
      · exact (Function.update_of_ne other ..).trans free
    cases job <;> cases stage <;> obtain ⟨rfl, -⟩ := Prod.mk.inj (Option.some.inj exec) <;>
      first | exact free | exact unlocks _
  · obtain ⟨job, s, stage, caller⟩ := b
    cases job <;> cases stage <;> obtain ⟨rfl, -⟩ := Prod.mk.inj (Option.some.inj exec) <;> rfl
  · show (k'.service s).identity = (k.service s).identity
    exact Kernel.exec_callback_field (fun _ _ => rfl) (fun _ _ => rfl) (fun _ => rfl) exec s

theorem bystander_of_event {st st' : State τ} {e : Event τ} (step : st.step e = some st')
    (out : ∀ t external, e ≠ .run t external)
    : st.kernel.Bystander st'.kernel := by
  have same (k : Kernel τ) : k.Bystander k :=
    ⟨rfl, rfl, rfl, fun _ => id, rfl, rfl, rfl, fun _ _ => rfl⟩
  cases State.steps_of_step step with
  | call user => exact same _
  | run exec => exact absurd rfl (out _ _)
  | softirq ready exec =>
      have x := bystander_of_callback exec
      exact ⟨x.slots, x.remaining, x.hint, x.unlocked, x.devices, x.freed, x.services, x.identity⟩
  | signal busy => exact ⟨rfl, rfl, rfl, fun _ => id, rfl, rfl, rfl, fun _ _ => rfl⟩
  | @reuse s ts freed =>
      refine ⟨rfl, rfl, rfl, fun _ => id, rfl, rfl, rfl, fun r unfreed => ?_⟩
      have other : r ≠ s := by
        rintro rfl
        simp [freed] at unfreed
      simp only [Function.update_of_ne other]

omit [DecidableEq τ] in
theorem Kernel.Untouched.bystander (untouched : k₀.Untouched k) (x : k.Bystander k')
    : k₀.Untouched k' where
  slots := x.slots.trans untouched.slots
  remaining := x.remaining.trans untouched.remaining
  devices := by rw [x.devices]; exact untouched.devices
  unborn := by rw [x.services, x.freed]; exact untouched.unborn

omit [DecidableEq τ] in
theorem Kernel.Searched.bystander (searched : k₀.Searched k) (x : k.Bystander k')
    : k₀.Searched k' where
  untouched := searched.untouched.bystander x
  hint := x.hint ▸ searched.hint
  unlocked i free := x.unlocked i (searched.unlocked i free)

omit [DecidableEq τ] in
/-- What happens meanwhile does not disturb a creation, by cases on the program point. -/
theorem creates_bystander {frame : Frame} (creates : k₀.Creates k euid permission frame)
    (x : k.Bystander k')
    : k₀.Creates k' euid permission frame := by
  have adds {s : Ref} {i : Int} (adds : k₀.Adds k euid i s) : k₀.Adds k' euid i s :=
    adds.congr x.slots x.freed (x.identity s)
  have outcome {r : Int} (outcome : k₀.PrivateOutcome k euid r) : k₀.PrivateOutcome k' euid r :=
    outcome.congr x.slots x.remaining x.freed x.identity
  cases frame with
  | user last =>
      obtain ⟨r, same, done⟩ := creates
      exact ⟨r, same, outcome done⟩
  | get f =>
      obtain ⟨key, command, permission, euid, tag, ts, pc⟩ := f
      obtain ⟨rfl, rfl, rfl, rfl, creates⟩ := creates
      refine ⟨rfl, rfl, rfl, rfl, ?_⟩
      cases pc
      case entry => exact Kernel.Searched.bystander creates x
      case find pc =>
        refine ⟨creates.1.bystander x, ?_⟩
        have searches := creates.2
        cases pc
        case probe i => exact Eq.trans (b := k.tsm.firstFreeEntry) searches x.hint.symm
        case result =>
          show k₀.Vacant k'.tsm.firstFreeEntry
          rw [x.hint]
          exact searches
        all_goals exact searches
      case lock => exact ⟨creates.1.bystander x, creates.2⟩
      case available => exact ⟨creates.1.bystander x, creates.2⟩
      case kzalloc => exact ⟨creates.1.bystander x, creates.2⟩
      case fields => exact ⟨creates.1.bystander x, creates.2⟩
      case publish =>
        obtain ⟨untouched, vacant, unfreed, key, owner, alive⟩ := creates
        obtain ⟨sameKey, rest⟩ := Prod.mk.inj (x.identity ts unfreed)
        obtain ⟨sameOwner, sameAlive⟩ := Prod.mk.inj rest
        exact ⟨untouched.bystander x, vacant, x.freed ▸ unfreed, sameKey.trans key,
          sameOwner.trans owner, sameAlive.trans alive⟩
      case unlockCreated =>
        exact ⟨adds creates.1, x.remaining.trans creates.2.1, by rw [x.devices]; exact creates.2.2⟩
      case decRemaining =>
        exact ⟨adds creates.1, x.remaining.trans creates.2.1, by rw [x.devices]; exact creates.2.2⟩
      case device pc =>
        obtain ⟨added, remaining, found, unlocked⟩ := creates
        exact ⟨adds added, by rw [x.remaining]; exact remaining, found, by rw [x.devices]; exact unlocked⟩
      case print => exact ⟨adds creates.1, by rw [x.remaining]; exact creates.2⟩
      case ret r => exact outcome creates
      all_goals exact creates.elim
  | _ => exact creates.elim

-----------------------------------------------------------------------------------------
-- A whole creation
-----------------------------------------------------------------------------------------

/-- Every service that there was is as it was. -/
structure Kernel.Preserves (k₀ k : Kernel τ) : Prop where
  services : k₀.services ≤ k.services
  freed : ∀ s, s < k₀.services → k.freed s = k₀.freed s
  identity
    : ∀ s, s < k₀.services → k₀.freed s = false → (k.service s).identity = (k₀.service s).identity

/-- A step of `tag_get` stores into no service and frees none. -/
theorem preserves_of_get {external : Nat} {c : CallId τ} {f : GetFrame} {frame : Frame}
    (exec : k.exec external ((Frame.get f).op c) = some (k', frame))
    : k.Preserves k' where
  services := Kernel.exec_services exec
  freed s _ := by
    refine Kernel.exec_freed exec fun frees => ?_
    have emptied := emptied_of_frees frees
    cases emptied
  identity s born _ := by
    rw [Kernel.exec_service exec born, op_writes]
    rfl

omit [DecidableEq τ] in
theorem Kernel.Preserves.trans {k₁ : Kernel τ} (x : k₀.Preserves k) (y : k.Preserves k₁)
    : k₀.Preserves k₁ where
  services := x.services.trans y.services
  freed s born := (y.freed s (born.trans_le x.services)).trans (x.freed s born)
  identity s born unfreed :=
    (y.identity s (born.trans_le x.services) (by rw [x.freed s born, unfreed])).trans
      (x.identity s born unfreed)

omit [DecidableEq τ] in
theorem Kernel.Bystander.preserves (x : k.Bystander k') : k.Preserves k' where
  services := x.services.ge
  freed s _ := by rw [x.freed]
  identity s _ := x.identity s

variable {h h' : History (State τ) (Event τ)} {st st₁ st' : State τ} {t : τ}

/-- The event that begins a creation under `IPC_PRIVATE`. -/
abbrev createPrivate (t : τ) (euid permission : Int) : Event τ :=
  .call t euid (.tagGet IPC_PRIVATE CREATE_TAG permission)

/-- A creation that has begun between two calls and runs alone goes its way, by induction on the
run.
-/
theorem creates_run (resting : st.kernel.Resting) (valid : ValidPermission permission)
    (entered : st.step (createPrivate t euid permission) = some st₁)
    (alone : ((machine τ).startAt st₁).Run (Succeeding t) h' st')
    : st.kernel.Creates st'.kernel euid permission (st'.thread t).frame
      ∧ st.kernel.Preserves st'.kernel := by
  refine alone.invariant
    (P := fun _ st' => st.kernel.Creates st'.kernel euid permission (st'.thread t).frame
      ∧ st.kernel.Preserves st'.kernel) ?_ ?_
  · cases State.steps_of_step entered with
    | call user =>
        refine ⟨?_, Nat.le_refl _, fun _ _ => rfl, fun _ _ _ => rfl⟩
        simp only [Machine.startAt, State.setThread, Function.update_self]
        exact ⟨rfl, rfl, rfl, rfl, ⟨rfl, rfl, resting.devices, resting.unborn⟩, resting.hint,
          resting.unlocked⟩
  · intro h' s e s' _ before ok step
    obtain ⟨creates, preserves⟩ := before
    have step : s.step e = some s' := step
    cases State.steps_of_step step with
    | call => exact ok.1.elim
    | @run u external k frame exec =>
        obtain rfl : u = t := ok.1
        obtain rfl := ok.2 u external rfl
        have busy : (s.thread u).frame.idle = false := by
          cases here : (s.thread u).frame with
          | user last => rw [State.op, here] at exec; cases exec
          | _ => rfl
        obtain ⟨k', frame', exec', creates'⟩ :=
          creates_exec (c := (u, (s.thread u).calls)) resting valid creates busy
        obtain ⟨rfl, rfl⟩ := Prod.mk.inj (Option.some.inj (exec'.symm.trans exec))
        simp only [State.setThread, Function.update_self]
        refine ⟨creates', preserves.trans ?_⟩
        cases here : (s.thread u).frame with
        | get f => exact preserves_of_get (here ▸ exec')
        | user last => rw [here] at busy; cases busy
        | _ => rw [here] at creates; exact creates.elim
    | softirq ready exec =>
        have x := bystander_of_event step fun _ _ same => by cases same
        exact ⟨creates_bystander creates x, preserves.trans x.preserves⟩
    | signal busy =>
        have x := bystander_of_event step fun _ _ same => by cases same
        exact ⟨creates_bystander creates x, preserves.trans x.preserves⟩
    | reuse freed =>
        have x := bystander_of_event step fun _ _ same => by cases same
        exact ⟨creates_bystander creates x, preserves.trans x.preserves⟩

/-- A creation that runs alone can always take its next step, and returns: by induction on the
steps it has left.
-/
theorem creation_returns (resting : st.kernel.Resting) (valid : ValidPermission permission)
    (entered : st.step (createPrivate t euid permission) = some st₁)
    (alone : ((machine τ).startAt st₁).Run (Succeeding t) h' st')
    : ∃ newer st₂ r,
        ((machine τ).startAt st₁).Run (Succeeding t) (newer ++ h') st₂
        ∧ (st₂.thread t).frame = .user (some r) := by
  induction left : (st'.thread t).frame.stepsLeft (st'.kernel.woken t)
      using Nat.strongRecOn generalizing h' st' with
  | ind n ih =>
      obtain ⟨creates, -⟩ := creates_run resting valid entered alone
      cases busy : (st'.thread t).frame.idle with
      | true =>
          obtain ⟨last, user⟩ := Frame.eq_user_of_idle busy
          rw [user] at creates
          obtain ⟨r, rfl, -⟩ := creates
          exact ⟨[], st', r, alone, user⟩
      | false =>
          obtain ⟨k, frame, exec, -⟩ :=
            creates_exec (c := (t, (st'.thread t).calls)) resting valid creates busy
          have step
              : st'.step (.run t (st'.thread t).frame.success)
                = some ({ st' with kernel := k }.setThread t ⟨(st'.thread t).calls, frame⟩) := by
            simp only [State.step, State.op, exec]
          have ok : Succeeding t h' st' (.run t (st'.thread t).frame.success) :=
            ⟨rfl, fun u external same => by obtain ⟨rfl, rfl⟩ := Event.run.inj same; rfl⟩
          have fewer
              : (({ st' with kernel := k }.setThread t ⟨(st'.thread t).calls, frame⟩).thread
                  t).frame.stepsLeft (k.woken t) < n := by
            rw [State.setThread_frame, if_pos rfl]
            exact left ▸ Frame.stepsLeft_of_exec exec
          obtain ⟨newer, st₂, r, run, returned⟩ := ih _ fewer (alone.next ok step) rfl
          refine ⟨newer ++ [(st', .run t (st'.thread t).frame.success)], st₂, r, ?_, returned⟩
          simpa using run

theorem onlyBy_of_succeeding (alone : ((machine τ).startAt st₁).Run (Succeeding t) h' st')
    : ((machine τ).startAt st₁).Run (OnlyBy t) h' st' :=
  alone.mono fun _ _ _ ok => ok.1

-----------------------------------------------------------------------------------------
-- One creation after another
-----------------------------------------------------------------------------------------

/-- Creations under `IPC_PRIVATE`, one after the other, and what they return. -/
inductive PrivateCreations : State τ → List Int → State τ → Prop
  | nil {st : State τ} : PrivateCreations st [] st
  | cons {st st₁ st₂ st' : State τ} {t : τ} {euid permission r : Int} {rs : List Int}
    {h' : History (State τ) (Event τ)} (valid : ValidPermission permission)
    (entered : st.step (createPrivate t euid permission) = some st₁)
    (alone : ((machine τ).startAt st₁).Run (Succeeding t) h' st₂)
    (returned : (st₂.thread t).frame = .user (some r)) (rest : PrivateCreations st₂ rs st')
    : PrivateCreations st (r :: rs) st'

/-- What creations one after the other return: descriptors of registered private services, each
of its own and of an entry that was free before, until the table is full.
-/
structure DistinctUntilFull (st : State τ) (rs : List Int) (st' : State τ) : Prop where
  distinct : (rs.filter (· ≠ -ENOMEM)).Nodup
  free : ∀ r ∈ rs, r ≠ -ENOMEM → st.kernel.tsm.allTagServices r = none
  live : ∀ r ∈ rs, r ≠ -ENOMEM → ∃ euid s, st'.kernel.HasPrivate euid r s
  untilFull
    : ∀ n r,
        rs[n]? = some r
        → (r = -ENOMEM ↔ freeSlots st.kernel.tsm.allTagServices ≤ n)

omit [DecidableEq τ] in
/-- A creation leaves the entries in use alone. -/
theorem Kernel.PrivateOutcome.slot {r i : Int} {s : Ref} (outcome : k₀.PrivateOutcome k euid r)
    (found : k₀.tsm.allTagServices i = some s)
    : k.tsm.allTagServices i = some s := by
  by_cases failed : r = -ENOMEM
  · rw [(outcome.refused failed).1, found]
  · obtain ⟨⟨s', adds⟩, -⟩ := outcome.created failed
    have other : i ≠ r := by
      rintro rfl
      simp [adds.free] at found
    rw [adds.slots, Function.update_of_ne other, found]

omit [DecidableEq τ] in
/-- A creation fails where no entry is free, and uses one up else. -/
theorem Kernel.PrivateOutcome.freeSlots {r : Int} (outcome : k₀.PrivateOutcome k euid r)
    : (r = -ENOMEM ∧ freeSlots k₀.tsm.allTagServices = 0 ∧ freeSlots k.tsm.allTagServices = 0)
      ∨ (r ≠ -ENOMEM
        ∧ freeSlots k₀.tsm.allTagServices = freeSlots k.tsm.allTagServices + 1) := by
  by_cases failed : r = -ENOMEM
  · have none_ := freeSlots_eq_zero_iff.mpr (outcome.full.mp failed)
    exact .inl ⟨failed, none_, by rw [(outcome.refused failed).1]; exact none_⟩
  · obtain ⟨⟨s, adds⟩, -⟩ := outcome.created failed
    refine .inr ⟨failed, ?_⟩
    rw [adds.slots]
    exact freeSlots_publish adds.index adds.free

/-- Creations one after the other, by induction on them: the first is one of its own since its
entry is in use from then on.
-/
theorem creations_distinct (run : (machine τ).Run Sequential h st) (idle : st.Idle) {rs : List Int}
    (creations : PrivateCreations st rs st')
    : DistinctUntilFull st rs st'
      ∧ ∀ {euid i s}, st.kernel.HasPrivate euid i s → st'.kernel.HasPrivate euid i s := by
  induction creations generalizing h with
  | nil =>
      refine ⟨⟨List.nodup_nil, fun r member => ?_, fun r member => ?_, fun n r here => ?_⟩, id⟩
      · exact absurd member List.not_mem_nil
      · exact absurd member List.not_mem_nil
      · cases here
  | @cons st st₁ st₂ st' t euid permission r rs h' valid entered alone returned rest ih =>
      have resting := resting_of_idle run idle
      obtain ⟨creates, preserves⟩ := creates_run resting valid entered alone
      rw [returned] at creates
      obtain ⟨_, ⟨⟩, outcome⟩ := creates
      have hash : HashInRange (createPrivate t euid permission) := fun _ named => absurd rfl named
      obtain ⟨later, keeps⟩ := ih (sequential_append run idle hash entered (onlyBy_of_succeeding alone))
        (idle_of_alone idle entered (onlyBy_of_succeeding alone) returned)
      have kept {euid i s} (x : st.kernel.HasPrivate euid i s) : st₂.kernel.HasPrivate euid i s := by
        have born := ((homes_run run).slot x.slot).1
        exact x.congr ((outcome.slot x.slot).trans x.slot.symm) (preserves.freed s born)
          (preserves.identity s born)
      have occupied {i : Int} (free : st₂.kernel.tsm.allTagServices i = none)
          : st.kernel.tsm.allTagServices i = none := by
        cases found : st.kernel.tsm.allTagServices i with
        | none => rfl
        | some s => simp [outcome.slot found] at free
      refine ⟨⟨?_, fun r' member => ?_, fun r' member succeeded => ?_, fun n r' here => ?_⟩,
        fun x => keeps (kept x)⟩
      · by_cases failed : r = -ENOMEM
        · simpa [failed] using later.distinct
        · obtain ⟨⟨s, adds⟩, -⟩ := outcome.created failed
          rw [List.filter_cons_of_pos (by simpa using failed), List.nodup_cons]
          refine ⟨fun again => ?_, later.distinct⟩
          have free := later.free r (List.mem_of_mem_filter again) failed
          simp [adds.private_.slot] at free
      · intro succeeded
        rcases List.mem_cons.mp member with rfl | member
        · obtain ⟨⟨s, adds⟩, -⟩ := outcome.created succeeded
          exact adds.free
        · exact occupied (later.free r' member succeeded)
      · rcases List.mem_cons.mp member with rfl | member
        · obtain ⟨⟨s, adds⟩, -⟩ := outcome.created succeeded
          exact ⟨euid, s, keeps adds.private_⟩
        · exact later.live r' member succeeded
      · cases n with
        | zero =>
            obtain rfl : r = r' := by simpa using here
            rw [Nat.le_zero]
            exact outcome.full.trans freeSlots_eq_zero_iff.symm
        | succ n =>
            have step := later.untilFull n r' (by simpa using here)
            rcases outcome.freeSlots with ⟨-, before, after⟩ | ⟨-, fewer⟩
            · rw [before]
              rw [after] at step
              exact step.trans (iff_of_true (Nat.zero_le n) (Nat.zero_le (n + 1)))
            · rw [fewer]
              exact step.trans Nat.succ_le_succ_iff.symm

-----------------------------------------------------------------------------------------
-- Private creation
-----------------------------------------------------------------------------------------

/-- What a creation under `IPC_PRIVATE` does in a state: it returns, and with the outcome that the
free entries decide.
-/
def State.CreatesPrivately (st : State τ) : Prop :=
  ∀ t euid permission st₁,
    ValidPermission permission
    → st.step (createPrivate t euid permission) = some st₁
    → ∀ h' st',
        ((machine τ).startAt st₁).Run (Succeeding t) h' st'
        → (∃ newer st₂ r,
            ((machine τ).startAt st₁).Run (Succeeding t) (newer ++ h') st₂
            ∧ (st₂.thread t).frame = .user (some r))
          ∧ ∀ r, (st'.thread t).frame = .user (some r) → st.kernel.PrivateOutcome st'.kernel euid r

/-- Between the calls of a sequential run, a creation under `IPC_PRIVATE` whose allocations and
device succeed returns `-ENOMEM` if and only if all entries are in use, and else the index of a free
one in which it has registered its service; creations one after the other return distinct
descriptors until the table is full.
-/
theorem private_creation (run : (machine τ).Run Sequential h st) (idle : st.Idle)
    : st.CreatesPrivately
      ∧ ∀ rs st', PrivateCreations st rs st' → DistinctUntilFull st rs st' := by
  have resting := resting_of_idle run idle
  refine ⟨fun t euid permission st₁ valid entered h' st' alone => ⟨?_, fun r returned => ?_⟩,
    fun rs st' creations => (creations_distinct run idle creations).1⟩
  · exact creation_returns resting valid entered alone
  · obtain ⟨creates, -⟩ := creates_run resting valid entered alone
    rw [returned] at creates
    obtain ⟨_, ⟨⟩, outcome⟩ := creates
    exact outcome

instance (t : τ) (h : History (State τ) (Event τ)) (st : State τ) (e : Event τ)
    : Decidable (Succeeding t h st e) :=
  match e with
  | .run u external =>
      decidable_of_iff (u = t ∧ external = (st.thread u).frame.success)
        ⟨fun ok => ⟨ok.1, fun _ _ same => by cases same; exact ok.2⟩,
          fun ok => ⟨ok.1, ok.2 u external rfl⟩⟩
  | .call _ _ _ => isFalse fun ok => ok.1
  | .softirq _ | .signal _ | .reuse _ _ => isTrue ⟨trivial, fun _ _ same => by cases same⟩

/-- The steps of a creation under `IPC_PRIVATE` whose hint is of use. -/
def creatingPrivate (t : τ) : List (Event τ) :=
  runs t 6 ++ completing t

/-- A service under the key 1, a private one in the entry 0, and the first one removed: the next
private service gets the entry 1.
-/
theorem private_creation_one
    : ∃ (h h' : History (State (Fin 2)) (Event (Fin 2))) (st st₁ st' : State (Fin 2)),
        (machine (Fin 2)).Run Sequential h st
        ∧ st.Idle
        ∧ st.step (createPrivate 1 7 EVERYONE) = some st₁
        ∧ ((machine (Fin 2)).startAt st₁).Run (Succeeding 1) h' st'
        ∧ (st'.thread 1).frame = .user (some 1)
        ∧ st.kernel.PrivateOutcome st'.kernel 7 1 := by
  obtain ⟨h, st, run, facts⟩ := Machine.Run.exists_of_replay
    (M := machine (Fin 2)) (G := Sequential)
    (creating 0 1 ++ createPrivate 0 0 EVERYONE :: creatingPrivate 0 ++ removing 1 1 26)
    (fun _ st => decide st.Idle && (st.step (createPrivate 1 7 EVERYONE)).any fun st₁ =>
      (((machine (Fin 2)).startAt st₁).replay (Succeeding 1) (creatingPrivate 1) [] st₁).any
        fun end_ => (end_.2.thread 1).frame.result == some 1)
    (by decide +kernel)
  simp only [Bool.and_eq_true, decide_eq_true_eq] at facts
  obtain ⟨idle, creates⟩ := facts
  obtain ⟨st₁, entered, replayed⟩ := (Option.any_eq_true _ _).mp creates
  obtain ⟨h', st', alone, result⟩ := Machine.Run.exists_of_replay
    (M := (machine (Fin 2)).startAt st₁) (G := Succeeding 1) (creatingPrivate 1)
    (fun _ st' => (st'.thread 1).frame.result == some 1) replayed
  have returned : (st'.thread 1).frame = .user (some 1) :=
    Frame.eq_user_of_result (by simpa using result)
  have outcome := ((private_creation run idle).1 1 7 EVERYONE st₁ (by decide) entered h' st' alone).2
  exact ⟨h, h', st, st₁, st', run, idle, entered, alone, returned, outcome 1 returned⟩

end TagExchange
