import TagExchange.Properties.HeapNumbers
import TagExchange.Properties.PrivateCreation

/-! A call of `tag_get` that runs alone and fails, at whichever of its exits: it leaves the
registry, the services, the mutexes and the heap as they were.
-/

namespace TagExchange

open Concurrency Memory

variable {τ : Type}

-----------------------------------------------------------------------------------------
-- What a call finds and leaves
-----------------------------------------------------------------------------------------

/-- The registry and the services are as they were but for the hint, which names a free entry where
it has changed, and the mutexes are these.
-/
structure Kernel.Steady (k₀ k : Kernel τ) (accessLock : Int → Bool) : Prop where
  slots : k.tsm.allTagServices = k₀.tsm.allTagServices
  remaining : k.tsm.remainingEntries = k₀.tsm.remainingEntries
  hint : k.tsm.firstFreeEntry = k₀.tsm.firstFreeEntry ∨ k₀.Vacant k.tsm.firstFreeEntry
  accessLock : k.tsm.accessLock = accessLock
  service : k.service = k₀.service
  freed : k.freed = k₀.freed
  services : k.services = k₀.services

/-- The same blocks are live. -/
def SameBlocks (h₀ h : Heap HeapBlock) : Prop :=
  ∀ b, h.Live b ↔ h₀.Live b

/-- Nothing has changed but the hint. -/
structure HeapState.Unchanged (hs₀ hs : HeapState τ) : Prop where
  steady : hs₀.base.kernel.Steady hs.base.kernel hs₀.base.kernel.tsm.accessLock
  blocks : SameBlocks hs₀.heap hs.heap

/-- All the blocks of the service are live, and its messages are zero. -/
structure HeapState.Filled (hs : HeapState τ) (s : Ref) : Prop where
  live : ∀ b ∈ serviceBlocks (hs.service s), hs.heap.Live b
  zero
    : ∀ l,
        IsLevel l
        → ∀ n, n < MAX_MESSAGE_SIZE → ((hs.base.kernel.service s).level l).message n = 0

/-- The entry holds a service with all its blocks. -/
def HeapState.Published (hs : HeapState τ) (i : Int) : Prop :=
  ∃ s, hs.base.kernel.tsm.allTagServices i = some s ∧ hs.Filled s

/-- The call holds the mutex of its tag, and nothing else has changed. -/
def HeapState.Holding (hs₀ hs : HeapState τ) (tag : Int) : Prop :=
  hs₀.base.kernel.tsm.accessLock tag = false
  ∧ hs₀.base.kernel.Steady hs.base.kernel
      (Function.update hs₀.base.kernel.tsm.accessLock tag true)

/-- The blocks that are live are those of before, and what the call has got so far. -/
def HeapState.Partial (hs₀ hs : HeapState τ) : Locals → Prop
  | .creation n c =>
      (∀ b, hs.heap.Live b ↔ hs₀.heap.Live b ∨ b ∈ c.blocks n)
      ∧ ∀ b, b.number = some n → ¬ hs₀.heap.Live b
  | _ => SameBlocks hs₀.heap hs.heap

/-- The call is over, or has nothing to do but to roll back: it has changed nothing, or it has
published a service.
-/
def HeapState.Returns (hs₀ hs : HeapState τ) (command : Int) (l : Locals) (r : Int) : Prop :=
  (hs₀.base.kernel.Steady hs.base.kernel hs₀.base.kernel.tsm.accessLock ∧ hs₀.Partial hs l
    ∧ (command = CREATE_TAG → r < 0))
  ∨ (0 ≤ r ∧ l = .none ∧ hs.Published r)

/-- Where a call of `tag_get` is that began in `hs₀`, its `tag` and `ts` being these. -/
def HeapState.GetsAt (hs₀ hs : HeapState τ) (command tag : Int) (ts : Ref) (l : Locals)
    : GetPc → Prop
  | .entry | .lock | .denied => hs₀.Unchanged hs
  | .find pc => hs₀.Unchanged hs ∧ ∀ i, pc = .store i → hs₀.base.kernel.Vacant i
  | .available | .kzalloc => hs₀.Holding hs tag ∧ SameBlocks hs₀.heap hs.heap
  | .opened | .loadOpened | .lazyDeleted | .permission | .unlockDenied =>
      hs₀.Holding hs tag ∧ SameBlocks hs₀.heap hs.heap ∧ command ≠ CREATE_TAG
  | .fields => ∃ n c, l = .creation n c ∧ ∀ b ∈ serviceBlocks n, hs.heap.Live b
  | .publish => hs.Filled ts
  | .unlockCreated | .decRemaining | .device _ | .print =>
      0 ≤ tag ∧ hs.base.kernel.tsm.allTagServices tag = some ts ∧ hs.Filled ts
  | .unlock r => hs₀.Holding hs tag ∧ hs₀.Partial hs l ∧ (command = CREATE_TAG → r < 0)
  | .ret r => hs₀.Returns hs command l r
  | .oops => True

/-- The frames of a call of `tag_get` that has begun in `hs₀`. -/
def HeapState.Gets (hs₀ hs : HeapState τ) (command : Int) (l : Locals) : Frame → Prop
  | .user last => ∃ r, last = some r ∧ hs₀.Returns hs command l r
  | .get f => f.command = command ∧ hs₀.GetsAt hs command f.tag f.ts l f.pc
  | _ => False

theorem Kernel.Steady.congr {k₀ k k' : Kernel τ} {accessLock : Int → Bool}
    (x : k₀.Steady k accessLock) (tsm : k'.tsm = k.tsm) (service : k'.service = k.service)
    (freed : k'.freed = k.freed) (services : k'.services = k.services)
    : k₀.Steady k' accessLock where
  slots := by rw [tsm, x.slots]
  remaining := by rw [tsm, x.remaining]
  hint := by rw [tsm]; exact x.hint
  accessLock := by rw [tsm, x.accessLock]
  service := service.trans x.service
  freed := freed.trans x.freed
  services := services.trans x.services

/-- The mutex that the call gives back was free when it began. -/
theorem HeapState.Holding.unlock {hs₀ hs : HeapState τ} {tag : Int} (x : hs₀.Holding hs tag)
    {k : Kernel τ}
    (unlocked
      : k = hs.base.kernel.setTsm fun m =>
          { m with accessLock := Function.update m.accessLock tag false })
    : hs₀.base.kernel.Steady k hs₀.base.kernel.tsm.accessLock := by
  obtain ⟨free, steady⟩ := x
  subst unlocked
  refine ⟨steady.slots, steady.remaining, steady.hint, ?_, steady.service, steady.freed,
    steady.services⟩
  show Function.update hs.base.kernel.tsm.accessLock tag false = _
  rw [steady.accessLock, Function.update_idem, ← free, Function.update_eq_self]

-----------------------------------------------------------------------------------------
-- The steps of a call
-----------------------------------------------------------------------------------------

variable [DecidableEq τ] {hs₀ hs : HeapState τ} {t : τ} {external : Nat} {k : Kernel τ}
  {frame : Frame} {st' : State τ}

/-- A step of the search, which stores a hint only where the entry is free. -/
theorem searches_of_exec {pc : FindPc} {next : Then FindPc Int} (x : hs₀.Unchanged hs)
    (inRange : pc.InRange)
    (vacant : ∀ i, pc = .store i → hs₀.base.kernel.Vacant i)
    (exec : hs.base.kernel.exec external (findFirstEntryAvailable pc) = some (k, next))
    : hs₀.base.kernel.Steady k hs₀.base.kernel.tsm.accessLock
      ∧ ∀ pc', next = .go pc' → ∀ i, pc' = .store i → hs₀.base.kernel.Vacant i := by
  have steady := x.steady
  cases pc
  all_goals obtain ⟨rfl, rfl⟩ := Prod.mk.inj (Option.some.inj exec)
  case store i =>
    refine ⟨⟨steady.slots, steady.remaining, .inr (vacant i rfl), steady.accessLock,
      steady.service, steady.freed, steady.services⟩, ?_⟩
    rintro _ ⟨⟩ _ ⟨⟩
  case scan i =>
    refine ⟨steady, fun pc' go j store => ?_⟩
    subst store
    dsimp only at go
    split at go
    · next free =>
        obtain rfl : i = j := by cases go; rfl
        exact ⟨inRange, by rw [← steady.slots]; simpa using free⟩
    · split at go <;> cases go
  case probe i =>
    refine ⟨steady, fun pc' go j store => ?_⟩
    subst store
    dsimp only at go
    split at go <;> cases go
  case full =>
    refine ⟨steady, fun pc' go j store => ?_⟩
    subst store
    dsimp only at go
    split at go <;> cases go
  case hint =>
    refine ⟨steady, ?_⟩
    rintro _ ⟨⟩ _ ⟨⟩
  case result =>
    refine ⟨steady, ?_⟩
    rintro _ ⟨⟩

omit [DecidableEq τ] in
/-- Where the local variables point to nothing, nothing has been allocated. -/
theorem partial_of_none {l : Locals} (none_ : l = .none) (blocks : SameBlocks hs₀.heap hs.heap)
    : hs₀.Partial hs l := by
  subst none_
  exact blocks

/-- The allocations of a creation: what it has got belongs to its local variables. -/
theorem partial_of_kzalloc (t : τ) (external : Nat) (f : GetFrame) (here : f.pc = .kzalloc)
    (numbered : hs.Numbered) (none_ : hs.locals t = .none) (blocks : SameBlocks hs₀.heap hs.heap)
    : hs₀.Partial (hs.tagGet t external f) ((hs.tagGet t external f).locals t) := by
  have fresh (b : HeapBlock) (number : b.number = some hs.next) : hs.heap.Fresh b :=
    numbered.fresh number (Nat.le_refl _)
  have live (b : HeapBlock) := live_createService (b := b) (fun i => decide (external ≤ i)) fresh
  unfold HeapState.tagGet
  rw [here]
  dsimp only
  split
  · next heap c creation =>
      simp only [creation, Option.some.injEq, exists_eq_left'] at live
      simp only [HeapState.setLocals, Function.update_self]
      refine ⟨fun b => (live b).trans (or_congr_left (blocks b)), fun b number before => ?_⟩
      exact (fresh b number).not_live ((blocks b).mpr before)
  · next heap creation =>
      simp only [creation, reduceCtorEq, false_and, exists_false, or_false] at live
      rw [none_]
      exact fun b => (live b).trans (blocks b)

/-- What the call has got is freed before it returns. -/
theorem blocks_of_ret {f : GetFrame} {r : Int} (here : f.pc = .ret r)
    (partial_ : hs₀.Partial hs (hs.locals t))
    : SameBlocks hs₀.heap (hs.tagGet t external f).heap := by
  unfold HeapState.tagGet
  rw [here]
  dsimp only
  split
  · next n c creation =>
      rw [creation] at partial_
      obtain ⟨live, apart⟩ := partial_
      refine fun b => live_failNoMem.trans ?_
      rw [live]
      constructor
      · rintro ⟨out, before | inside⟩
        · exact before
        · exact absurd inside out
      · exact fun before =>
          ⟨fun inside => apart b (number_of_mem_blocks inside) before, .inl before⟩
  · next other =>
      cases locals : hs.locals t with
      | creation n c => exact absurd locals (other n c)
      | none => rw [locals] at partial_; exact partial_
      | update n m => rw [locals] at partial_; exact partial_

omit [DecidableEq τ] in
/-- A service keeps its blocks while nothing is freed, and its messages while nothing is stored. -/
theorem HeapState.Filled.congr {hs' : HeapState τ} {s : Ref} (x : hs.Filled s)
    (live : ∀ b, hs.heap.Live b → hs'.heap.Live b) (blocks : hs'.service = hs.service)
    (service : hs'.base.kernel.service = hs.base.kernel.service)
    : hs'.Filled s where
  live b member := live b (x.live b (blocks ▸ member))
  zero := service ▸ x.zero

/-- The creation of the device allocates at most a text. -/
theorem device_of_tagGet (hs : HeapState τ) (t : τ) (external : Nat) (f : GetFrame)
    {pc : CreateDevicePc} (here : f.pc = .device pc)
    : (∀ b, hs.heap.Live b → (hs.tagGet t external f).heap.Live b)
      ∧ (hs.tagGet t external f).service = hs.service := by
  unfold HeapState.tagGet
  rw [here]
  cases pc
  case content ts => exact ⟨fun b live => live.kmalloc _, rfl⟩
  all_goals exact ⟨fun b => id, rfl⟩

/-- A step of the call, by cases on the program point. -/
theorem gets_of_exec {f : GetFrame} (numbered : hs.Numbered)
    (inRange : (Frame.get f).CreatesInRange) (owns : (Frame.get f).Owns (hs.locals t))
    (gets : hs₀.GetsAt hs f.command f.tag f.ts (hs.locals t) f.pc)
    (exec : hs.base.kernel.exec external (tagGet t f) = some (st'.kernel, frame))
    : hs₀.Gets { hs.tagGet t external f with base := st' } f.command
        ((hs.tagGet t external f).locals t) frame := by
  obtain ⟨key, command, permission, euid, tag, ts, pc⟩ := f
  cases pc
  case find pc =>
    obtain ⟨next, inner, rfl⟩ := Kernel.exec_map_eq_some exec
    obtain ⟨steady, vacant⟩ := searches_of_exec gets.1 (inRange.1 pc rfl) gets.2 inner
    cases next with
    | go pc' => exact ⟨rfl, ⟨steady, gets.1.blocks⟩, vacant pc' rfl⟩
    | back i =>
        dsimp only [GetFrame.found]
        split
        · have nothing := partial_of_none owns gets.1.blocks
          exact ⟨rfl, .inl ⟨steady, nothing, fun _ => by decide⟩⟩
        · exact ⟨rfl, steady, gets.1.blocks⟩
  case lock =>
    obtain ⟨steady, blocks⟩ := gets
    obtain ⟨free, exec⟩ := Option.ite_none_left_eq_some.mp exec
    obtain ⟨kernel, rfl⟩ := Prod.mk.inj (Option.some.inj exec)
    have free : hs₀.base.kernel.tsm.accessLock tag = false := by
      rw [← steady.accessLock]
      simpa using free
    have holding : hs₀.Holding { hs with base := st' } tag := by
      refine ⟨free, ?_⟩
      simp only [← kernel]
      refine ⟨steady.slots, steady.remaining, steady.hint, ?_, steady.service, steady.freed,
        steady.services⟩
      exact congrArg (Function.update · tag true) steady.accessLock
    split
    · exact ⟨rfl, holding, blocks⟩
    · next other =>
        split
        · exact ⟨rfl, holding, blocks, other⟩
        · exact ⟨rfl, holding, partial_of_none owns blocks, fun _ => by decide⟩
  case kzalloc =>
    obtain ⟨holding, blocks⟩ := gets
    obtain ⟨after, choice, same⟩ := Option.map_eq_some_iff.mp exec
    obtain ⟨kernel, rfl⟩ := Prod.mk.inj same
    have holding : hs₀.Holding { hs with base := st' } tag := by
      rwa [HeapState.Holding, ← kernel]
    have got := partial_of_kzalloc t external ⟨key, command, permission, euid, tag, ts, .kzalloc⟩
      rfl numbered owns blocks
    dsimp only at choice
    split at choice
    · obtain rfl := Option.some.inj choice
      exact ⟨rfl, holding, got, fun _ => by decide⟩
    · next some_ =>
        split at choice <;> obtain rfl := Option.some.inj choice
        · exact ⟨rfl, holding, got, fun _ => by decide⟩
        · next all =>
            have locals := locals_kzalloc hs t external
              ⟨key, command, permission, euid, tag, ts, .kzalloc⟩ rfl
            rw [if_neg some_, if_neg all] at locals
            rw [locals] at got
            exact ⟨rfl, _, _, locals, fun b inside => (got.1 b).mpr (.inr inside)⟩
  case fields =>
    obtain ⟨n, c, here, live⟩ := gets
    obtain ⟨kernel, rfl⟩ := Prod.mk.inj (Option.some.inj exec)
    refine ⟨rfl, ?_, ?_⟩
    · simpa [HeapState.tagGet, here, HeapState.setLocals] using live
    · intro l level m bound
      simp only [← kernel, Function.update_self]
      rfl
  case publish =>
    obtain ⟨kernel, rfl⟩ := Prod.mk.inj (Option.some.inj exec)
    refine ⟨rfl, inRange.2.1, ?_, gets.congr (fun b => id) rfl ?_⟩
    · simp only [← kernel]
      exact Function.update_self ..
    · simp only [← kernel]
      rfl
  case unlockCreated =>
    obtain ⟨index, found, filled⟩ := gets
    obtain ⟨kernel, rfl⟩ := Prod.mk.inj (Option.some.inj exec)
    refine ⟨rfl, index, ?_, filled.congr (fun b => id) rfl ?_⟩
    · simp only [← kernel]
      exact found
    · simp only [← kernel]
      rfl
  case decRemaining =>
    obtain ⟨index, found, filled⟩ := gets
    obtain ⟨kernel, rfl⟩ := Prod.mk.inj (Option.some.inj exec)
    refine ⟨rfl, index, ?_, filled.congr (fun b => id) rfl ?_⟩
    · simp only [← kernel]
      exact found
    · simp only [← kernel]
      rfl
  case device pc =>
    obtain ⟨index, found, filled⟩ := gets
    have performs := Kernel.exec_performs exec
    have quiet
        : st'.kernel.tsm.allTagServices = hs.base.kernel.tsm.allTagServices
          ∧ st'.kernel.service = hs.base.kernel.service := by
      rw [performs.slots, performs.service]
      cases pc using CreateDevicePc.points <;> exact ⟨rfl, rfl⟩
    obtain ⟨live, blocks⟩ := device_of_tagGet hs t external
      ⟨key, command, permission, euid, tag, ts, .device pc⟩ rfl
    have kept
        : HeapState.Filled
            { hs.tagGet t external ⟨key, command, permission, euid, tag, ts, .device pc⟩ with
              base := st' } ts :=
      filled.congr live blocks quiet.2
    obtain ⟨next, inner, rfl⟩ := Kernel.exec_map_eq_some exec
    cases next with
    | go pc' => exact ⟨rfl, index, (congrFun quiet.1 tag).trans found, kept⟩
    | back => exact ⟨rfl, index, (congrFun quiet.1 tag).trans found, kept⟩
  case ret r =>
    obtain ⟨kernel, rfl⟩ := Prod.mk.inj (Option.some.inj exec)
    have locals
        : (hs.tagGet t external ⟨key, command, permission, euid, tag, ts, .ret r⟩).locals t
          = .none :=
      owns_of_get owns exec
    rcases gets with ⟨steady, partial_, negative⟩ | ⟨index, none_, s, found, filled⟩
    · refine ⟨r, rfl, .inl ⟨kernel ▸ steady.congr rfl rfl rfl rfl, ?_, negative⟩⟩
      exact partial_of_none locals (blocks_of_ret rfl partial_)
    · refine ⟨r, rfl, .inr ⟨index, locals, s, kernel ▸ found, ?_⟩⟩
      refine filled.congr (fun b live => ?_) ?_ (by rw [← kernel])
      · simpa only [HeapState.tagGet, none_] using live
      · simp only [HeapState.tagGet, none_]
  case oops => cases exec
  case unlock r =>
    obtain ⟨holding, blocks, negative⟩ := gets
    obtain ⟨kernel, rfl⟩ := Prod.mk.inj (Option.some.inj exec)
    exact ⟨rfl, .inl ⟨holding.unlock kernel.symm, blocks, negative⟩⟩
  case unlockDenied =>
    obtain ⟨holding, blocks, -⟩ := gets
    obtain ⟨kernel, rfl⟩ := Prod.mk.inj (Option.some.inj exec)
    exact ⟨rfl, holding.unlock kernel.symm, blocks⟩
  -- The other steps leave the kernel as it is, but for the count of the module's users.
  all_goals
    obtain ⟨kernel, rfl⟩ := Prod.mk.inj (Option.some.inj exec)
  case entry =>
    obtain ⟨steady, blocks⟩ := gets
    have steady : hs₀.base.kernel.Steady st'.kernel hs₀.base.kernel.tsm.accessLock :=
      kernel ▸ steady.congr rfl rfl rfl rfl
    split
    · exact ⟨rfl, .inl ⟨steady, partial_of_none owns blocks, fun _ => by decide⟩⟩
    · split
      · exact ⟨rfl, steady, blocks⟩
      · exact ⟨rfl, ⟨steady, blocks⟩, fun i here => by cases here⟩
  case denied =>
    obtain ⟨steady, blocks⟩ := gets
    exact ⟨rfl, .inl ⟨kernel ▸ steady, partial_of_none owns blocks, fun _ => by decide⟩⟩
  case print =>
    obtain ⟨index, found, filled⟩ := gets
    refine ⟨rfl, .inr ⟨index, owns, ts, kernel ▸ found, ?_⟩⟩
    exact filled.congr (fun b => id) rfl (by rw [← kernel])
  case available =>
    obtain ⟨holding, blocks⟩ := gets
    have holding : hs₀.Holding { hs with base := st' } tag := by
      rwa [HeapState.Holding, ← kernel]
    dsimp only
    split
    · exact ⟨rfl, holding, partial_of_none owns blocks, fun _ => by decide⟩
    · exact ⟨rfl, holding, blocks⟩
  all_goals
    obtain ⟨holding, blocks, other⟩ := gets
    have holding : hs₀.Holding { hs with base := st' } tag := by
      rwa [HeapState.Holding, ← kernel]
  case opened =>
    dsimp only
    split
    · exact ⟨rfl, holding, blocks, other⟩
    · exact ⟨rfl, holding, partial_of_none owns blocks, fun create => (other create).elim⟩
  case loadOpened =>
    cases found : hs.base.kernel.tsm.allTagServices tag with
    | none => exact ⟨rfl, trivial⟩
    | some s => exact ⟨rfl, holding, blocks, other⟩
  case lazyDeleted =>
    dsimp only
    split
    · exact ⟨rfl, holding, partial_of_none owns blocks, fun create => (other create).elim⟩
    · exact ⟨rfl, holding, blocks, other⟩
  case permission =>
    dsimp only
    split
    · exact ⟨rfl, holding, blocks, other⟩
    · exact ⟨rfl, holding, partial_of_none owns blocks, fun create => (other create).elim⟩

-----------------------------------------------------------------------------------------
-- A whole call
-----------------------------------------------------------------------------------------

/-- Only this thread takes steps. -/
def Solely (t : τ) : Guard (HeapState τ) (Event τ) :=
  fun _ _ e =>
    match e with
    | .run u _ => u = t
    | _ => False

/-- Creations use keys that hash into the arrays. -/
def KeysInRange : Guard (HeapState τ) (Event τ) :=
  OnBase fun _ e => HashInRange e

/-- The hint, and the entries that creations use, are in the arrays. -/
theorem createsInRange_run {h : History (State τ) (Event τ)} {st : State τ}
    (run : (machine τ).Run (fun _ _ e => HashInRange e) h st)
    : IsTag st.kernel.tsm.firstFreeEntry ∧ ∀ t, (st.thread t).frame.CreatesInRange := by
  refine run.invariant
    (P := fun _ st =>
      IsTag st.kernel.tsm.firstFreeEntry ∧ ∀ t, (st.thread t).frame.CreatesInRange)
    ⟨(by decide : IsTag 0), fun _ => trivial⟩ ?_
  intro h st e st' _ before hash step
  obtain ⟨hint, creating⟩ := before
  have step : st.step e = some st' := step
  cases State.steps_of_step step with
  | @call u euid c last user =>
      have entered : (c.enter euid).CreatesInRange := by
        cases c with
        | tagGet key command permission => exact ⟨fun _ here => (by cases here), hash⟩
        | tagCtl tag command => exact fun _ here => by cases here
        | _ => trivial
      exact ⟨hint, (Function.forall_update_iff st.thread
        fun _ th => th.frame.CreatesInRange).mpr ⟨entered, fun u _ => creating u⟩⟩
  | @run u external k frame exec =>
      obtain ⟨hint', after⟩ := createsInRange_of_exec hint (creating u) exec
      exact ⟨hint', (Function.forall_update_iff st.thread
        fun _ th => th.frame.CreatesInRange).mpr ⟨after, fun u _ => creating u⟩⟩
  | softirq ready exec =>
      obtain ⟨-, -, same⟩ := registry_of_callback exec
      exact ⟨same ▸ hint, creating⟩
  | signal busy => exact ⟨hint, creating⟩
  | reuse freed => exact ⟨hint, creating⟩

variable {h h' : History (HeapState τ) (Event τ)} {hs₁ hs' : HeapState τ}
  {euid key command permission : Int}

/-- A call that has begun and runs alone prolongs the run. -/
theorem keysInRange_append (run : (heapMachine τ).Run KeysInRange h hs)
    (hash : HashInRange (.call t euid (.tagGet key command permission)))
    (entered : hs.step (.call t euid (.tagGet key command permission)) = some hs₁)
    (alone : ((heapMachine τ).startAt hs₁).Run (Solely t) h' hs')
    : (heapMachine τ).Run KeysInRange
        (h' ++ (hs, .call t euid (.tagGet key command permission)) :: h) hs' := by
  have ok : KeysInRange h hs (.call t euid (.tagGet key command permission)) := hash
  refine (run.next ok entered).append alone fun {newer s e} ok => ?_
  cases e with
  | run => exact trivial
  | _ => exact ok.elim

/-- A call that runs alone goes its way, by induction on the run. -/
theorem gets_run (run : (heapMachine τ).Run KeysInRange h hs)
    (hash : HashInRange (.call t euid (.tagGet key command permission)))
    (entered : hs.step (.call t euid (.tagGet key command permission)) = some hs₁)
    (alone : ((heapMachine τ).startAt hs₁).Run (Solely t) h' hs')
    : hs.Gets hs' command (hs'.locals t) (hs'.base.thread t).frame := by
  refine alone.invariant
    (P := fun _ hs' => hs.Gets hs' command (hs'.locals t) (hs'.base.thread t).frame) ?_ ?_
  · obtain ⟨base, moved, rfl⟩ := Option.map_eq_some_iff.mp entered
    cases State.steps_of_step moved with
    | call user =>
        simp only [Machine.startAt, State.setThread, Function.update_self]
        exact ⟨rfl, ⟨rfl, rfl, .inl rfl, rfl, rfl, rfl, rfl⟩, fun _ => Iff.rfl⟩
  · intro h' s e s' before gets ok step
    have whole := keysInRange_append run hash entered before
    have numbered := numbered_run whole
    have owns := owns_run whole t
    have inRange := (createsInRange_run (base_run whole)).2 t
    have step : s.step e = some s' := step
    obtain ⟨base, moved, same⟩ := Option.map_eq_some_iff.mp step
    cases State.steps_of_step moved with
    | @run u external k frame exec =>
        obtain rfl : u = t := ok
        obtain rfl := same
        simp only [State.setThread, Function.update_self]
        cases here : (s.base.thread u).frame with
        | user last => rw [State.op, here] at exec; cases exec
        | get f =>
            rw [State.op, here] at exec
            rw [here] at owns inRange gets
            obtain ⟨rfl, gets⟩ := gets
            simp only [HeapState.run, here]
            exact gets_of_exec numbered inRange owns gets exec
        | _ => rw [here] at gets; exact gets.elim
    | _ => exact ok.elim

/-- A call of `tag_get` that runs alone from any reachable state and fails has changed nothing but
the hint, which then names a free entry; a creation that succeeds has published a service with all
its blocks.
-/
theorem failing_tag_get (run : (heapMachine τ).Run KeysInRange h hs)
    (hash : HashInRange (.call t euid (.tagGet key command permission)))
    (entered : hs.step (.call t euid (.tagGet key command permission)) = some hs₁)
    (alone : ((heapMachine τ).startAt hs₁).Run (Solely t) h' hs') {r : Int}
    (returned : (hs'.base.thread t).frame = .user (some r))
    : (r < 0 → hs.Unchanged hs') ∧ (0 ≤ r → command = CREATE_TAG → hs'.Published r) := by
  have whole := keysInRange_append run hash entered alone
  have owns := owns_run whole t
  have gets := gets_run run hash entered alone
  rw [returned] at owns gets
  obtain ⟨_, ⟨⟩, ⟨steady, partial_, negative⟩ | ⟨index, -, published⟩⟩ := gets
  · have none_ : hs'.locals t = .none := owns
    rw [none_] at partial_
    exact ⟨fun _ => ⟨steady, partial_⟩, fun low create =>
      absurd (negative create) (Int.not_lt.mpr low)⟩
  · exact ⟨fun low => absurd low (Int.not_lt.mpr index), fun _ _ => published⟩

instance (h : History (HeapState τ) (Event τ)) (hs : HeapState τ) (e : Event τ)
    : Decidable (Solely t h hs e) :=
  match e with
  | .run u _ => inferInstanceAs (Decidable (u = t))
  | .call _ _ _ | .softirq _ | .signal _ | .reuse _ _ => isFalse id

instance (h : History (HeapState τ) (Event τ)) (hs : HeapState τ) (e : Event τ)
    : Decidable (KeysInRange h hs e) :=
  inferInstanceAs (Decidable (HashInRange e))

/-- Beside a service under the key 1, a creation under the key 2 whose fourth message cannot be
allocated frees the first three.
-/
theorem failing_tag_get_at_message
    : ∃ (h h' : History (HeapState (Fin 2)) (Event (Fin 2))) (hs hs₁ hs' : HeapState (Fin 2)),
        (heapMachine (Fin 2)).Run KeysInRange h hs
        ∧ hs.heap.Live (.message 1 3)
        ∧ hs.step (.call 1 0 (.tagGet 2 CREATE_TAG EVERYONE)) = some hs₁
        ∧ ((heapMachine (Fin 2)).startAt hs₁).Run (Solely 1) h' hs'
        ∧ (hs'.base.thread 1).frame = .user (some (-ENOMEM))
        ∧ hs.Unchanged hs' := by
  obtain ⟨h, hs, run, facts⟩ := Machine.Run.exists_of_replay
    (M := heapMachine (Fin 2)) (G := KeysInRange) (creating 0 1)
    (fun _ hs =>
      decide (hs.heap.Live (.message 1 3))
      && (hs.step (.call 1 0 (.tagGet 2 CREATE_TAG EVERYONE))).any fun hs₁ =>
        (((heapMachine (Fin 2)).startAt hs₁).replay (Solely 1) (runs 1 3 ++ .run 1 5 :: runs 1 2)
          [] hs₁).any fun end_ => (end_.2.base.thread 1).frame.result == some (-ENOMEM))
    (by decide +kernel)
  simp only [Bool.and_eq_true, decide_eq_true_eq] at facts
  obtain ⟨live, creates⟩ := facts
  obtain ⟨hs₁, entered, replayed⟩ := (Option.any_eq_true _ _).mp creates
  obtain ⟨h', hs', alone, result⟩ := Machine.Run.exists_of_replay
    (M := (heapMachine (Fin 2)).startAt hs₁) (G := Solely 1) (runs 1 3 ++ .run 1 5 :: runs 1 2)
    (fun _ hs' => (hs'.base.thread 1).frame.result == some (-ENOMEM)) replayed
  have returned : (hs'.base.thread 1).frame = .user (some (-ENOMEM)) :=
    Frame.eq_user_of_result (by simpa using result)
  have hash : HashInRange (.call (1 : Fin 2) 0 (.tagGet 2 CREATE_TAG EVERYONE)) := by decide
  have unchanged := (failing_tag_get run hash entered alone returned).1 (by decide)
  exact ⟨h, h', hs, hs₁, hs', run, live, entered, alone, returned, unchanged⟩

end TagExchange
