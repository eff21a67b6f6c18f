import TagExchange.Model.Machine

/-! What one operation does to each part of the kernel's state, and what it accesses. -/

namespace TagExchange

open Concurrency

variable {τ α β : Type}

namespace Op

-----------------------------------------------------------------------------------------
-- Effects
-----------------------------------------------------------------------------------------

def onService (op : Op τ α) (k : Kernel τ) : Ref → TagService :=
  match op with
  | store s w _ => Function.update k.service s (w.apply (k.service s))
  | kzalloc ts _ => Function.update k.service k.services ts
  | _ => k.service

def onFreed (op : Op τ α) (k : Kernel τ) : Ref → Bool :=
  match op with
  | kfree s _ => Function.update k.freed s true
  | _ => k.freed

def onServices (op : Op τ α) (k : Kernel τ) : Nat :=
  match op with
  | kzalloc _ _ => k.services + 1
  | _ => k.services

def onSlots (op : Op τ α) (k : Kernel τ) : Int → Option Ref :=
  match op with
  | storeSlot i ts _ => Function.update k.tsm.allTagServices i ts
  | _ => k.tsm.allTagServices

def onFirstFree (op : Op τ α) (k : Kernel τ) : Int :=
  match op with
  | storeFirstFree i _ => i
  | _ => k.tsm.firstFreeEntry

def onRemaining (op : Op τ α) (k : Kernel τ) : Nat :=
  match op with
  | incRemaining _ => atomicInc k.tsm.remainingEntries
  | decRemaining _ => atomicDec k.tsm.remainingEntries
  | _ => k.tsm.remainingEntries

variable [DecidableEq τ]

def onQueue (op : Op τ α) (k : Kernel τ) : List τ :=
  match op with
  | wakeUpAll _ => []
  | prepareToWait t _ =>
      if k.signalled t then k.theQueue.erase t
      else if t ∈ k.theQueue then k.theQueue
      else t :: k.theQueue
  | finishWait t _ => k.theQueue.erase t
  | _ => k.theQueue

def onRcu (op : Op τ α) (k : Kernel τ) : Rcu τ (Callback τ) :=
  match op with
  | rcuReadLock t _ => k.rcu.readLock t
  | rcuReadUnlock t _ => k.rcu.readUnlock t
  | callRcu b _ => k.rcu.callRcu b
  | _ => k.rcu

def onSignalled (op : Op τ α) (k : Kernel τ) : τ → Bool :=
  match op with
  | leave t _ _ => Function.update k.signalled t false
  | _ => k.signalled

/-- The parts of the kernel's state after an operation. -/
structure Performs (op : Op τ α) (k k' : Kernel τ) : Prop where
  service : k'.service = op.onService k
  freed : k'.freed = op.onFreed k
  services : k'.services = op.onServices k
  slots : k'.tsm.allTagServices = op.onSlots k
  firstFree : k'.tsm.firstFreeEntry = op.onFirstFree k
  remaining : k'.tsm.remainingEntries = op.onRemaining k
  queue : k'.theQueue = op.onQueue k
  rcu : k'.rcu = op.onRcu k
  signalled : k'.signalled = op.onSignalled k

end Op

/-- Every operation has exactly the effects listed above, by cases on the operation. -/
theorem Kernel.exec_performs [DecidableEq τ] {k k' : Kernel τ} {external : Nat} {op : Op τ α}
    {a : α} (step : k.exec external op = some (k', a))
    : op.Performs k k' := by
  cases op <;> simp only [exec, Option.some.injEq, Prod.mk.injEq, Option.ite_none_left_eq_some,
    Option.map_eq_some_iff, reduceCtorEq] at step
  case external => obtain ⟨_, -, rfl, -⟩ := step; constructor <;> rfl
  case mutexLock => obtain ⟨-, rfl, -⟩ := step; constructor <;> rfl
  case deviceLock => obtain ⟨-, rfl, -⟩ := step; constructor <;> rfl
  case schedule => obtain ⟨-, rfl, -⟩ := step; constructor <;> rfl
  case getZeroedPage =>
    split at step <;> obtain ⟨rfl, -⟩ := Prod.mk.inj (Option.some.inj step) <;> constructor <;> rfl
  all_goals obtain ⟨rfl, -⟩ := step
  case writeText i _ _ => simp only [onContent]; split <;> constructor <;> rfl
  case freeText i _ => simp only [onContent]; split <;> constructor <;> rfl
  all_goals constructor <;> rfl

/-- The callback an operation registers. -/
def Op.registers : Op τ α → Option (Callback τ)
  | callRcu b _ => some b
  | _ => none

/-- The service an operation allocates. -/
def Op.allocates : Op τ α → Option TagService
  | kzalloc ts _ => some ts
  | _ => none

/-- The store an operation makes into a service. -/
def Op.writes : Op τ α → Option (Ref × Write)
  | store s w _ => some (s, w)
  | _ => none

/-- The service an operation frees. -/
def Op.frees : Op τ α → Option Ref
  | kfree s _ => some s
  | _ => none

/-- The slot an operation stores into, and what it stores. -/
def Op.stores : Op τ α → Option (Int × Option Ref)
  | storeSlot i ts _ => some (i, ts)
  | _ => none

-----------------------------------------------------------------------------------------
-- Outcomes
-----------------------------------------------------------------------------------------

/-- Whatever an operation finds in the shared state, what comes next satisfies `P`. -/
def Op.Yields (P : α → Prop) : Op τ α → Prop
  | nop a | tryModuleGet a | leave _ _ a | freePages a | mutexLock _ a
  | mutexUnlock _ a | storeSlot _ _ a | storeFirstFree _ a | incRemaining a | decRemaining a
  | store _ _ a | kfree _ a | deviceLock _ a | deviceUnlock _ a | newText _ a | clearText _ a
  | writeText _ _ a | freeText _ a | storeText _ _ a | wakeUpAll a | schedule _ a | finishWait _ a
  | rcuReadLock _ a | rcuReadUnlock _ a | callRcu _ a => P a
  | getZeroedPage a b => P a ∧ P b
  | external next => ∀ n a, next n = some a → P a
  | loadSlot _ next => ∀ v, P (next v)
  | loadFirstFree next => ∀ v, P (next v)
  | loadRemaining next => ∀ v, P (next v)
  | load _ next => ∀ v, P (next v)
  | loadLevel _ _ next => ∀ v, P (next v)
  | kzalloc _ next => ∀ v, P (next v)
  | copyToUser _ _ _ next => ∀ v, P (next v)
  | cdev _ next => ∀ v, P (next v)
  | loadText _ next => ∀ v, P (next v)
  | prepareToWait _ next => ∀ v, P (next v)
  | signalPending _ next => ∀ v, P (next v)
  | oops => True

theorem Op.yields_of_forall {P : α → Prop} (h : ∀ a, P a) (op : Op τ α) : op.Yields P := by
  cases op <;> simp [Yields, h]

theorem Op.yields_map {P : β → Prop} {f : α → β} {op : Op τ α}
    (h : op.Yields fun a => P (f a))
    : (op.map f).Yields P := by
  cases op
  case external next =>
    intro n b found
    obtain ⟨a, inner, rfl⟩ := Option.map_eq_some_iff.mp found
    exact h n a inner
  all_goals exact h

/-- An operation that all its outcomes survive, by cases on the operation. -/
theorem Kernel.exec_yields [DecidableEq τ] {k k' : Kernel τ} {external : Nat} {op : Op τ α}
    {a : α} {P : α → Prop} (yields : op.Yields P) (step : k.exec external op = some (k', a))
    : P a := by
  cases op <;> simp only [exec, Option.some.injEq, Prod.mk.injEq, Option.ite_none_left_eq_some,
    Option.map_eq_some_iff, reduceCtorEq] at step
  case external =>
    obtain ⟨a', found, -, rfl⟩ := step
    exact yields _ _ found
  case mutexLock => obtain ⟨-, -, rfl⟩ := step; exact yields
  case deviceLock => obtain ⟨-, -, rfl⟩ := step; exact yields
  case schedule => obtain ⟨-, -, rfl⟩ := step; exact yields
  case getZeroedPage =>
    split at step <;> obtain ⟨-, rfl⟩ := Prod.mk.inj (Option.some.inj step)
    · exact yields.1
    · exact yields.2
  all_goals
    obtain ⟨-, rfl⟩ := step
    first | exact yields | exact yields _

/-- A callback stays the same callback from stage to stage. -/
theorem Callback.yields_same (b : Callback τ)
    : b.op.Yields fun next =>
        ∀ b',
          next = some b'
          → b'.job = b.job ∧ b'.service = b.service ∧ b'.caller = b.caller
            ∧ (b'.owes = true → b.owes = true) := by
  obtain ⟨job, s, stage, caller⟩ := b
  cases job <;> cases stage <;> simp [Callback.op, Op.Yields, Callback.owes]

-----------------------------------------------------------------------------------------
-- Callbacks, tags and slots
-----------------------------------------------------------------------------------------

section

variable [DecidableEq τ] {k k' : Kernel τ} {external : Nat} {op : Op τ α} {a : α}

theorem Kernel.exec_callbacks (step : k.exec external op = some (k', a))
    : k'.rcu.callbacks = k.rcu.callbacks ++ op.registers.toList := by
  rw [(Kernel.exec_performs step).rcu]
  cases op <;> simp [Op.onRcu, Op.registers]

/-- A callback is not inside a section and opens none. -/
theorem rcu_of_softirq {b : Callback τ} {next : Option (Callback τ)}
    (exec : k.exec external b.op = some (k', next))
    : k'.rcu = k.rcu := by
  rw [(Kernel.exec_performs exec).rcu]
  obtain ⟨job, r, stage, caller⟩ := b
  cases job <;> cases stage <;> rfl

/-- The callbacks after a soft interrupt: those before it, one of them a stage further. -/
theorem Kernel.exec_callback {b : Callback τ} {next : Option (Callback τ)} {n : Nat}
    (ready : k.rcu.ready? n = some b) (step : k.exec external b.op = some (k', next))
    {b' : Callback τ} (member : b' ∈ (k'.rcu.advance n next).callbacks)
    : ∃ b₀ ∈ k.rcu.callbacks,
        b'.job = b₀.job ∧ b'.service = b₀.service ∧ b'.caller = b₀.caller
        ∧ (b'.owes = true → b₀.owes = true) := by
  have here : b ∈ k.rcu.callbacks := List.mem_of_getElem? (k.rcu.callbacks_of_ready? ready)
  have unregistered : b.op.registers = none := by
    obtain ⟨job, s, stage, caller⟩ := b
    cases job <;> cases stage <;> rfl
  rcases k'.rcu.mem_callbacks_advance member with before | rfl
  · rw [Kernel.exec_callbacks step, unregistered, Option.toList_none, List.append_nil] at before
    exact ⟨b', before, rfl, rfl, rfl, id⟩
  · exact ⟨b, here, Kernel.exec_yields b.yields_same step b' rfl⟩

theorem Kernel.exec_services (step : k.exec external op = some (k', a))
    : k.services ≤ k'.services := by
  rw [(Kernel.exec_performs step).services]
  unfold Op.onServices
  split <;> omega

theorem Kernel.exec_allocates (step : k.exec external op = some (k', a)) {ts : TagService}
    (allocates : op.allocates = some ts)
    : k'.services = k.services + 1
      ∧ k'.service = Function.update k.service k.services ts
      ∧ k'.freed = k.freed := by
  have performs := Kernel.exec_performs step
  rw [performs.services, performs.service, performs.freed]
  cases op <;> cases allocates
  exact ⟨rfl, rfl, rfl⟩

theorem Kernel.exec_allocates_none (step : k.exec external op = some (k', a))
    (allocates : op.allocates = none)
    : k'.services = k.services := by
  rw [(Kernel.exec_performs step).services]
  cases op <;> first | rfl | cases allocates

/-- A service that exists changes by the store of the operation, if it makes one. -/
theorem Kernel.exec_service (step : k.exec external op = some (k', a)) {s : Ref}
    (born : s < k.services)
    : k'.service s = match op.writes with
        | some (r, w) => if s = r then w.apply (k.service s) else k.service s
        | none => k.service s := by
  rw [(Kernel.exec_performs step).service]
  cases op
  case store r w _ =>
    rcases eq_or_ne s r with rfl | other
    · simp [Op.onService, Op.writes]
    · simp [Op.onService, Op.writes, other]
  case kzalloc ts _ =>
    simp only [Op.onService, Op.writes, Function.update_of_ne (Nat.ne_of_lt born)]
  all_goals rfl

/-- Freed memory stays freed. -/
theorem Kernel.exec_unfreed (step : k.exec external op = some (k', a)) {s : Ref}
    (unfreed : k'.freed s = false)
    : k.freed s = false := by
  rw [(Kernel.exec_performs step).freed] at unfreed
  cases op
  case kfree r _ =>
    rcases eq_or_ne s r with rfl | other
    · simp [Op.onFreed] at unfreed
    · simpa [Op.onFreed, Function.update_of_ne other] using unfreed
  all_goals exact unfreed

/-- A field that no store changes keeps its value once the service exists. -/
theorem Kernel.exec_field {φ : Type} {field : TagService → φ}
    (kept : ∀ ts (w : Write), field (w.apply ts) = field ts)
    (step : k.exec external op = some (k', a)) {s : Ref} (born : s < k.services)
    : field (k'.service s) = field (k.service s) := by
  rw [(Kernel.exec_performs step).service]
  cases op
  case store r w _ =>
    simp only [Op.onService]
    rcases eq_or_ne s r with rfl | other
    · rw [Function.update_self, kept]
    · rw [Function.update_of_ne other]
  case kzalloc ts _ =>
    have other : s ≠ k.services := Nat.ne_of_lt born
    simp only [Op.onService, Function.update_of_ne other]
  all_goals rfl

/-- A field that no callback stores into is left alone by all of them. -/
theorem Kernel.exec_callback_field {φ : Type} {field : TagService → φ}
    (ready : ∀ ts l, field ((Write.messageReady l false).apply ts) = field ts)
    (memset : ∀ ts l, field ((Write.memset l).apply ts) = field ts)
    (awake : ∀ ts, field ((Write.awakeRequest false).apply ts) = field ts)
    {b : Callback τ} {next : Option (Callback τ)} (step : k.exec external b.op = some (k', next))
    (s : Ref)
    : field (k'.service s) = field (k.service s) := by
  rw [(Kernel.exec_performs step).service]
  have stored (r : Ref) (w : Write) (kept : ∀ ts, field (w.apply ts) = field ts)
      : field (Function.update k.service r (w.apply (k.service r)) s) = field (k.service s) := by
    rcases eq_or_ne s r with rfl | other
    · rw [Function.update_self, kept]
    · rw [Function.update_of_ne other]
  obtain ⟨job, r, stage, caller⟩ := b
  cases job <;> cases stage
  case freeAfterSend.clear l => exact stored r _ fun ts => ready ts l
  case freeAfterSend.zero l => exact stored r _ fun ts => memset ts l
  case resetAwakeCondition.clear => exact stored r _ awake
  all_goals rfl

/-- The tag of a service never changes. -/
theorem Kernel.exec_tag (step : k.exec external op = some (k', a)) {s : Ref}
    (born : s < k.services)
    : s < k'.services ∧ (k'.service s).tag = (k.service s).tag :=
  ⟨Nat.lt_of_lt_of_le born (Kernel.exec_services step), Kernel.exec_field Write.apply_tag step born⟩

/-- Only a `kfree` frees. -/
theorem Kernel.exec_freed (step : k.exec external op = some (k', a)) {s : Ref}
    (kept : op.frees ≠ some s)
    : k'.freed s = k.freed s := by
  rw [(Kernel.exec_performs step).freed]
  cases op
  case kfree r _ =>
    have other : s ≠ r := fun same => kept (by rw [same]; rfl)
    simp only [Op.onFreed, Function.update_of_ne other]
  all_goals rfl

theorem Kernel.exec_stores (step : k.exec external op = some (k', a)) {i : Int}
    {ts : Option Ref} (stores : op.stores = some (i, ts))
    : k'.tsm.allTagServices = Function.update k.tsm.allTagServices i ts := by
  rw [(Kernel.exec_performs step).slots]
  cases op <;> cases stores
  rfl

theorem Kernel.exec_unstored (step : k.exec external op = some (k', a)) (stores : op.stores = none)
    : k'.tsm.allTagServices = k.tsm.allTagServices := by
  rw [(Kernel.exec_performs step).slots]
  cases op <;> first | rfl | cases stores

/-- What is in a slot after an operation was there before or has just been stored. -/
theorem Kernel.exec_slot (step : k.exec external op = some (k', a)) {i : Int} {s : Ref}
    (found : k'.tsm.allTagServices i = some s)
    : k.tsm.allTagServices i = some s ∨ op.stores = some (i, some s) := by
  rw [(Kernel.exec_performs step).slots] at found
  cases op
  case storeSlot j ts _ =>
    rcases eq_or_ne i j with rfl | other
    · exact .inr (by simpa [Op.onSlots, Op.stores] using found)
    · exact .inl (by simpa [Op.onSlots, Function.update_of_ne other] using found)
  all_goals exact .inl found

end

-----------------------------------------------------------------------------------------
-- Accesses
-----------------------------------------------------------------------------------------

/-- The service a field of which an operation reads or writes. -/
def Op.touches : Op τ α → Option Ref
  | load s _ | loadLevel s _ _ | store s _ _ | copyToUser s _ _ _ => some s
  | callRcu b _ => some b.service
  | _ => none

theorem Op.touches_of_writes {op : Op τ α} {s : Ref} {w : Write} (writes : op.writes = some (s, w))
    : op.touches = some s := by
  cases op <;> cases writes
  rfl

/-- The indices into `access_lock`, `all_tag_services`, `device_lock`, `cdev` and `content`
that an operation uses.
-/
def Op.indices : Op τ α → List Int
  | mutexLock i _ | mutexUnlock i _ | loadSlot i _ | storeSlot i _ _ | deviceLock i _
  | deviceUnlock i _ | cdev i _ | newText i _ | clearText i _ | writeText i _ _ | loadText i _
  | freeText i _ | storeText i _ _ => [i]
  | _ => []

theorem Op.mem_indices_of_stores {op : Op τ α} {i : Int} {ts : Option Ref}
    (stores : op.stores = some (i, ts))
    : i ∈ op.indices := by
  cases op <;> cases stores
  exact List.mem_singleton_self i

def Write.levels : Write → List Int
  | memcpy l _ _ | terminator l _ | size l _ | messageReady l _ | memset l | incLevel l
  | decLevel l => [l]
  | _ => []

def Job.levels : Job → List Int
  | freeAfterSend l => [l]
  | resetAwakeCondition => []

/-- The indices into the level array of a service that an operation uses. -/
def Op.levels : Op τ α → List Int
  | loadLevel _ l _ | copyToUser _ l _ _ => [l]
  | store _ w _ => w.levels
  | callRcu b _ => b.job.levels
  | _ => []

theorem Op.levels_of_registers {op : Op τ α} {b : Callback τ} (registers : op.registers = some b)
    : op.levels = b.job.levels := by
  cases op <;> cases registers
  rfl

/-- A callback uses an index of a global array only to unlock. -/
theorem Callback.stage_of_mem_indices {b : Callback τ} {i : Int} (used : i ∈ b.op.indices)
    : b.stage = .unlock i := by
  obtain ⟨job, s, stage, caller⟩ := b
  cases job <;> cases stage <;> simp_all [Callback.op, Op.indices]

theorem Callback.mem_levels_of_mem_levels {b : Callback τ} {l : Int} (used : l ∈ b.op.levels)
    : l ∈ b.job.levels := by
  obtain ⟨job, s, stage, caller⟩ := b
  cases job <;> cases stage <;> simp_all [Callback.op, Op.levels, Write.levels, Job.levels]

/-- Every copy into or out of a message buffer ends inside it. -/
def Op.CopiesInside : Op τ α → Prop
  | store _ (.memcpy _ n _) _ | copyToUser _ _ n _ => n ≤ MAX_MESSAGE_SIZE
  | store _ (.terminator _ n) _ => n < MAX_MESSAGE_SIZE
  | _ => True

instance (op : Op τ α) : Decidable op.CopiesInside := by
  unfold Op.CopiesInside
  split <;> infer_instance

namespace State

variable [DecidableEq τ] (st : State τ)

/-- The callback that a soft interrupt would run. -/
def callback (n : Nat) : Option (Callback τ) :=
  st.kernel.rcu.ready? n

/-- The indices into the global arrays that an event uses. -/
def indices : Event τ → List Int
  | .run t _ => (st.op t).indices
  | .softirq n => match st.callback n with
      | some b => b.op.indices
      | none => []
  | _ => []

/-- The indices into level arrays that an event uses. -/
def levels : Event τ → List Int
  | .run t _ => (st.op t).levels
  | .softirq n => match st.callback n with
      | some b => b.op.levels
      | none => []
  | _ => []

end State

/-- An index of the arrays of `ts_management` and `dev_manager`. -/
def IsTag (i : Int) : Prop := 0 ≤ i ∧ i < MAX_TAG_SERVICES

/-- An index of the level array of a service. -/
def IsLevel (l : Int) : Prop := 0 ≤ l ∧ l < MAX_LEVELS

instance (i : Int) : Decidable (IsTag i) := inferInstanceAs (Decidable (_ ∧ _))

instance (l : Int) : Decidable (IsLevel l) := inferInstanceAs (Decidable (_ ∧ _))

/-- Every array index of the event is in range. -/
def State.IndicesInRange [DecidableEq τ] (st : State τ) (e : Event τ) : Prop :=
  (∀ i ∈ st.indices e, IsTag i) ∧ ∀ l ∈ st.levels e, IsLevel l

instance [DecidableEq τ] (st : State τ) (e : Event τ) : Decidable (st.IndicesInRange e) :=
  inferInstanceAs (Decidable (_ ∧ _))

/-- Every message copy of the event stays inside the message buffer. -/
def State.CopiesInside (st : State τ) : Event τ → Prop
  | .run t _ => (st.op t).CopiesInside
  | _ => True

instance (st : State τ) (e : Event τ) : Decidable (st.CopiesInside e) :=
  match e with
  | .run t _ => inferInstanceAs (Decidable (st.op t).CopiesInside)
  | .call _ _ _ | .softirq _ | .signal _ | .reuse _ _ => isTrue trivial

end TagExchange
