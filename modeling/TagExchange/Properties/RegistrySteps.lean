import TagExchange.Model.CallerMoves
import TagExchange.Model.ReceiveMoves
import TagExchange.Protocol.Simulation

/-! The steps that store into `all_tag_services` or change `remaining_entries`, and what a
removal makes of a service.
-/

namespace TagExchange

open Concurrency Protocol

variable {τ : Type}

-----------------------------------------------------------------------------------------
-- Calls in flight
-----------------------------------------------------------------------------------------

/-- A creation that has published its service and not yet decremented the counter. -/
def Frame.creates : Frame → Bool
  | get f =>
      match f.pc with
      | .unlockCreated | .decRemaining => true
      | _ => false
  | _ => false

/-- A removal that has emptied its slot and not yet incremented the counter. -/
def Frame.removes : Frame → Bool
  | ctl f =>
      match f.pc with
      | .find _ | .incRemaining => true
      | _ => false
  | _ => false

/-- What a step of a call does to the slots and to the counter. -/
inductive RegistryStep (k : Kernel τ) (before : Frame) (k' : Kernel τ) (after : Frame) : Prop
  | quiet (slots : k'.tsm.allTagServices = k.tsm.allTagServices)
    (remaining : k'.tsm.remainingEntries = k.tsm.remainingEntries)
    (creates : after.creates = before.creates) (removes : after.removes = before.removes)
  | publish {s i} (view : before.view = .fresh s i)
    (slots : k'.tsm.allTagServices = Function.update k.tsm.allTagServices i (some s))
    (remaining : k'.tsm.remainingEntries = k.tsm.remainingEntries)
    (creates : before.creates = false ∧ after.creates = true)
    (removes : after.removes = before.removes)
  | decrement (slots : k'.tsm.allTagServices = k.tsm.allTagServices)
    (remaining : k'.tsm.remainingEntries = atomicDec k.tsm.remainingEntries)
    (creates : before.creates = true ∧ after.creates = false)
    (removes : after.removes = before.removes)
  | unlink {s i} (view : before.view = .removing s i)
    (slots : k'.tsm.allTagServices = Function.update k.tsm.allTagServices i none)
    (remaining : k'.tsm.remainingEntries = k.tsm.remainingEntries)
    (creates : after.creates = before.creates)
    (removes : before.removes = false ∧ after.removes = true)
  | increment (slots : k'.tsm.allTagServices = k.tsm.allTagServices)
    (remaining : k'.tsm.remainingEntries = atomicInc k.tsm.remainingEntries)
    (creates : after.creates = before.creates)
    (removes : before.removes = true ∧ after.removes = false)

variable [DecidableEq τ] {k k' : Kernel τ} {external : Nat} {frame : Frame}

omit [DecidableEq τ] in
/-- An operation that neither stores a slot nor changes the counter. -/
def Op.Unregistered {α : Type} : Op τ α → Prop
  | storeSlot _ _ _ | incRemaining _ | decRemaining _ => False
  | _ => True

/-- A step without effect on the registry, that moves no call into or out of its critical
part.
-/
theorem RegistryStep.of_quiet {before : Frame} {op : Op τ Frame}
    (step : k.exec external op = some (k', frame)) (unregistered : op.Unregistered)
    (creates : frame.creates = before.creates) (removes : frame.removes = before.removes)
    : RegistryStep k before k' frame := by
  have performs := Kernel.exec_performs step
  have slots : op.onSlots k = k.tsm.allTagServices := by
    cases op <;> first | rfl | exact unregistered.elim
  have remaining : op.onRemaining k = k.tsm.remainingEntries := by
    cases op <;> first | rfl | exact unregistered.elim
  exact .quiet (performs.slots.trans slots) (performs.remaining.trans remaining) creates removes

theorem registryStep_of_tagGet {t : τ} {f : GetFrame}
    (step : k.exec external (tagGet t f) = some (k', frame))
    : RegistryStep k (.get f) k' frame := by
  have move := getMove_of_exec step
  obtain ⟨key, command, permission, euid, tag, ts, pc⟩ := f
  cases move with
  | publish =>
      obtain ⟨rfl, -⟩ := Prod.mk.inj (Option.some.inj step)
      exact .publish rfl rfl rfl ⟨rfl, rfl⟩ rfl
  | decRemaining =>
      obtain ⟨rfl, -⟩ := Prod.mk.inj (Option.some.inj step)
      exact .decrement rfl rfl ⟨rfl, rfl⟩ rfl
  | @finding pc | @full pc | @found pc =>
      refine .of_quiet step ?_ rfl rfl
      cases pc <;> trivial
  | @creating pc | @created pc =>
      refine .of_quiet step ?_ rfl rfl
      cases pc using CreateDevicePc.points <;> trivial
  | _ => exact .of_quiet step trivial rfl rfl

theorem registryStep_of_tagSend {c : CallId τ} {f : SendFrame}
    (step : k.exec external (tagSend c f) = some (k', frame))
    : RegistryStep k (.send f) k' frame := by
  have move := sendMove_of_exec step
  obtain ⟨tag, level, buffer, size, euid, realSize, stored, ts, pc⟩ := f
  cases move <;> exact .of_quiet step trivial rfl rfl

theorem registryStep_of_tagReceive {t : τ} {f : ReceiveFrame}
    (step : k.exec external (tagReceive t f) = some (k', frame))
    : RegistryStep k (.receive f) k' frame := by
  have move := receiveMove_of_exec step
  obtain ⟨tag, level, buffer, size, euid, ts, realSize, interrupted, copied, pc⟩ := f
  cases move with
  | @entering pc | @entered pc =>
      refine .of_quiet step ?_ rfl rfl
      cases pc <;> trivial
  | @leaving x pc | @leftAwake pc | @left x pc =>
      refine .of_quiet step ?_ rfl rfl
      cases pc <;> trivial
  | _ => exact .of_quiet step trivial rfl rfl

theorem registryStep_of_tagCtl {c : CallId τ} {f : CtlFrame}
    (step : k.exec external (tagCtl c f) = some (k', frame))
    : RegistryStep k (.ctl f) k' frame := by
  have move := ctlMove_of_exec step
  obtain ⟨tag, command, euid, ts, index, awakened, pc⟩ := f
  cases move with
  | unlink =>
      obtain ⟨rfl, -⟩ := Prod.mk.inj (Option.some.inj step)
      exact .unlink rfl rfl rfl rfl ⟨rfl, rfl⟩
  | incRemaining =>
      obtain ⟨rfl, -⟩ := Prod.mk.inj (Option.some.inj step)
      exact .increment rfl rfl rfl ⟨rfl, rfl⟩
  | @finding pc | @found pc =>
      refine .of_quiet step ?_ rfl rfl
      cases pc <;> trivial
  | @destroying pc | @destroyed pc =>
      refine .of_quiet step ?_ rfl rfl
      cases pc <;> trivial
  | _ => exact .of_quiet step trivial rfl rfl

theorem registryStep_of_exec {c : CallId τ} {before : Frame}
    (step : k.exec external (before.op c) = some (k', frame))
    : RegistryStep k before k' frame := by
  cases before with
  | user last => cases step
  | get f => exact registryStep_of_tagGet step
  | send f => exact registryStep_of_tagSend step
  | receive f => exact registryStep_of_tagReceive step
  | ctl f => exact registryStep_of_tagCtl step

/-- Callbacks leave the registry alone. -/
theorem registry_of_callback {b : Callback τ} {next : Option (Callback τ)}
    (step : k.exec external b.op = some (k', next))
    : k'.tsm.allTagServices = k.tsm.allTagServices
      ∧ k'.tsm.remainingEntries = k.tsm.remainingEntries
      ∧ k'.tsm.firstFreeEntry = k.tsm.firstFreeEntry := by
  have performs := Kernel.exec_performs step
  rw [performs.slots, performs.remaining, performs.firstFree]
  obtain ⟨job, s, stage, caller⟩ := b
  cases job <;> cases stage <;> exact ⟨rfl, rfl, rfl⟩

-----------------------------------------------------------------------------------------
-- Stores into slots
-----------------------------------------------------------------------------------------

/-- A slot and the service that a removal takes out of it. -/
def Frame.unlinks : Frame → Option (Int × Ref)
  | ctl f =>
      match f.pc with
      | .unlink => some (f.tag, f.ts)
      | _ => none
  | _ => none

omit [DecidableEq τ] in
/-- What a creation stores into a slot is fresh, and what it is that a removal clears its slot of. -/
theorem stores_cases {c : CallId τ} {frame : Frame} {i : Int} {ts : Option Ref}
    (stores : (frame.op c).stores = some (i, ts))
    : (∃ s, ts = some s ∧ frame.view = .fresh s i)
      ∨ (∃ s, ts = none ∧ frame.unlinks = some (i, s) ∧ frame.view = .removing s i) := by
  rcases point_of_stores stores with
    ⟨key, command, permission, euid, s, rfl, rfl⟩ | ⟨command, euid, s, index, awakened, rfl, rfl⟩
  · exact .inl ⟨s, rfl, rfl⟩
  · exact .inr ⟨s, rfl, rfl, rfl⟩

omit [DecidableEq τ] in
theorem view_of_unlinks {frame : Frame} {i : Int} {s : Ref}
    (unlinks : frame.unlinks = some (i, s))
    : frame.view = .removing s i := by
  cases frame with
  | ctl f =>
      obtain ⟨tag, command, euid, ts, index, awakened, pc⟩ := f
      cases pc <;> simp only [Frame.unlinks, reduceCtorEq, Option.some.injEq, Prod.mk.injEq]
        at unlinks
      obtain ⟨rfl, rfl⟩ := unlinks
      rfl
  | _ => cases unlinks

-----------------------------------------------------------------------------------------
-- Services that have left the registry
-----------------------------------------------------------------------------------------

namespace Protocol

/-- Marked as deleted and in no slot. -/
def Core.Gone (c : Core τ) (s : Ref) : Prop :=
  s < c.services ∧ c.doomed s = true ∧ ∀ i, c.slot i ≠ some s

variable {c c' : Core τ} {view : τ → View} {s : Ref}

omit [DecidableEq τ] in
theorem Core.Gone.store (gone : c.Gone s) (r : Ref) (w : Write) : (c.store r w).Gone s :=
  ⟨gone.1, c.doomed_store w gone.2.1, gone.2.2⟩

omit [DecidableEq τ] in
/-- A service that has left the registry never comes back, by cases on the move: what is
published is not marked as deleted.
-/
theorem Safe.gone_move (x : Safe c view) {t : τ} {v' : View} (gone : c.Gone s)
    (move : Move c (view t) c' v')
    : c'.Gone s := by
  have fact := x.fact t
  generalize view t = v at move fact
  cases move
  case lost => exact fact.elim
  case unlink r i =>
    refine ⟨gone.1, gone.2.1, fun j h => ?_⟩
    rcases eq_or_ne j i with rfl | other
    · simp [Core.setSlot] at h
    · simp only [Core.setSlot, Function.update_of_ne other] at h
      exact gone.2.2 j h
  case publish r i =>
    refine ⟨gone.1, gone.2.1, fun j h => ?_⟩
    rcases eq_or_ne j i with rfl | other
    · obtain rfl : r = s := by simpa [Core.setSlot] using h
      have doomed : c.doomed r = true := gone.2.1
      simp [fact.2.2.1] at doomed
    · simp only [Core.setSlot, Function.update_of_ne other] at h
      exact gone.2.2 j h
  case create =>
    have old : s ≠ c.services := Nat.ne_of_lt gone.1
    refine ⟨Nat.lt_succ_of_lt gone.1, ?_, gone.2.2⟩
    simpa [Core.doomed, Core.create, Function.update_of_ne old] using gone.2.1
  all_goals first | exact gone | exact gone.store _ _

omit [DecidableEq τ] in
theorem Core.Gone.callbackMove {n : Nat} (gone : c.Gone s) (move : CallbackMove c n c')
    : c'.Gone s := by
  cases move
  case notReady => exact gone.store _ _
  case wipe => exact gone.store _ _
  case reset => exact gone.store _ _
  all_goals exact gone

/-- Taking a service out of its slot takes it out of the registry. -/
theorem Safe.gone_of_unlink (x : Safe c view) {t : τ} {i : Int}
    (here : view t = .removing s i)
    : (c.setSlot i none).Gone s := by
  have gone := (x.unlink here).fact t
  simp only [Function.update_self, Core.Fact] at gone
  exact ⟨gone.1, gone.2.2.1, gone.2.2.2⟩

end Protocol

-----------------------------------------------------------------------------------------
-- The search for a free entry
-----------------------------------------------------------------------------------------

def FindPc.InRange : FindPc → Prop
  | probe i | scan i | store i => IsTag i
  | hint | full | result => True

/-- What the search goes on with, or finds: it fails only where it has read a counter of
zero.
-/
def FindPc.Found (k : Kernel τ) (pc : FindPc) : Then FindPc Int → Prop
  | .go pc' => pc'.InRange
  | .back i => IsTag i ∨ (i = -1 ∧ pc = full ∧ k.tsm.remainingEntries = 0)

/-- An operation that leaves the hint alone. -/
def Op.KeepsHint {α : Type} : Op τ α → Prop
  | storeFirstFree _ _ => False
  | _ => True

theorem Kernel.exec_firstFree {α : Type} {op : Op τ α} {a : α} (keeps : op.KeepsHint)
    (step : k.exec external op = some (k', a))
    : k'.tsm.firstFreeEntry = k.tsm.firstFreeEntry := by
  rw [(Kernel.exec_performs step).firstFree]
  cases op <;> first | rfl | exact keeps.elim

/-- The search stays inside the registry and finds an entry of it, or nothing. -/
theorem findFirstEntryAvailable_inRange {pc : FindPc} {next : Then FindPc Int}
    (hint : IsTag k.tsm.firstFreeEntry) (inRange : pc.InRange)
    (step : k.exec external (findFirstEntryAvailable pc) = some (k', next))
    : IsTag k'.tsm.firstFreeEntry ∧ FindPc.Found k pc next := by
  cases pc <;>
    obtain ⟨rfl, rfl⟩ := Prod.mk.inj (Option.some.inj step)
  case hint => exact ⟨hint, hint⟩
  case probe i =>
    refine ⟨hint, ?_⟩
    show FindPc.InRange (if _ then _ else _)
    split <;> trivial
  case full =>
    refine ⟨hint, ?_⟩
    show FindPc.Found k _ (if _ then _ else _)
    split
    · next none_left => exact .inr ⟨rfl, rfl, none_left⟩
    · exact (by decide : IsTag 0)
  case scan i =>
    refine ⟨hint, ?_⟩
    show FindPc.Found k _ (if _ then _ else if _ then _ else _)
    split
    · exact inRange
    · split
      · next more => exact ⟨Int.le_add_one inRange.1, more⟩
      · trivial
  case store i => exact ⟨inRange, trivial⟩
  case result => exact ⟨hint, .inl hint⟩

/-- Where a call stands in the search. -/
def Frame.finds : Frame → Option FindPc
  | get f =>
      match f.pc with
      | .find pc => some pc
      | _ => none
  | ctl f =>
      match f.pc with
      | .find pc => some pc
      | _ => none
  | _ => none

omit [DecidableEq τ] in
/-- Only the search stores the hint, by cases on the program point. -/
theorem op_keepsHint {c : CallId τ} {frame : Frame} (elsewhere : frame.finds = none)
    : (frame.op c).KeepsHint := by
  cases frame with
  | user last => trivial
  | get f =>
      obtain ⟨key, command, permission, euid, tag, ts, pc⟩ := f
      cases pc
      case find pc => cases elsewhere
      case device pc => cases pc using CreateDevicePc.points <;> trivial
      all_goals trivial
  | send f =>
      obtain ⟨tag, level, buffer, size, euid, realSize, stored, ts, pc⟩ := f
      cases pc <;> trivial
  | receive f =>
      obtain ⟨tag, level, buffer, size, euid, ts, realSize, interrupted, copied, pc⟩ := f
      cases pc
      case entered pc => cases pc <;> trivial
      case left x pc => cases pc <;> trivial
      all_goals trivial
  | ctl f =>
      obtain ⟨tag, command, euid, ts, index, awakened, pc⟩ := f
      cases pc
      case find pc => cases elsewhere
      case destroy pc => cases pc <;> trivial
      all_goals trivial

/-- What the search returns to a `tag_get` call that goes on is an entry of the registry, unless the
call opens and the search has read a counter of zero.
-/
theorem found_of_exec {t : τ} {f : GetFrame} {pc : FindPc} {i : Int}
    (hint : IsTag k.tsm.firstFreeEntry) (here : f.pc = .find pc) (inRange : pc.InRange)
    (step : k.exec external (tagGet t f) = some (k', { f with tag := i }.at_ .lock))
    : IsTag i ∨ (f.command ≠ CREATE_TAG ∧ pc = .full ∧ k.tsm.remainingEntries = 0) := by
  obtain ⟨key, command, permission, euid, tag, ts, point⟩ := f
  obtain rfl := here
  obtain ⟨next, inner, same⟩ := Kernel.exec_map_eq_some step
  obtain ⟨-, found⟩ := findFirstEntryAvailable_inRange hint inRange inner
  cases next with
  | go pc' => cases same
  | back j =>
      simp only [GetFrame.found] at same
      split at same
      · cases same
      · next taken =>
          cases same
          refine found.imp_right fun full => ?_
          obtain ⟨failed, atFull, noneLeft⟩ := full
          exact ⟨fun create => taken ⟨failed, create⟩, atFull, noneLeft⟩

/-- A step keeps the hint and the search inside the registry. -/
theorem search_of_exec {c : CallId τ} {before : Frame} (hint : IsTag k.tsm.firstFreeEntry)
    (inRange : ∀ pc, before.finds = some pc → pc.InRange)
    (step : k.exec external (before.op c) = some (k', frame))
    : IsTag k'.tsm.firstFreeEntry ∧ ∀ pc, frame.finds = some pc → pc.InRange := by
  have same := Kernel.exec_sameCall step
  have elsewhere (finds : before.finds = none) : IsTag k'.tsm.firstFreeEntry :=
    Kernel.exec_firstFree (op_keepsHint finds) step ▸ hint
  cases before with
  | user last => cases step
  | get f =>
      have move := getMove_of_exec step
      obtain ⟨key, command, permission, euid, tag, ts, pc⟩ := f
      cases move with
      | search =>
          refine ⟨elsewhere rfl, ?_⟩
          rintro _ ⟨⟩
          trivial
      | finding =>
          obtain ⟨next, inner, after⟩ := Kernel.exec_map_eq_some step
          obtain ⟨hint', found⟩ := findFirstEntryAvailable_inRange hint (inRange _ rfl) inner
          refine ⟨hint', ?_⟩
          rintro _ ⟨⟩
          cases next with
          | go pc' => cases after; exact found
          | back i =>
              simp only [GetFrame.found] at after
              split at after <;> cases after
      | full | found =>
          obtain ⟨next, inner, after⟩ := Kernel.exec_map_eq_some step
          obtain ⟨hint', found⟩ := findFirstEntryAvailable_inRange hint (inRange _ rfl) inner
          exact ⟨hint', fun _ finds => by cases finds⟩
      | _ => exact ⟨elsewhere rfl, fun _ finds => by cases finds⟩
  | ctl f =>
      have move := ctlMove_of_exec step
      obtain ⟨tag, command, euid, ts, index, awakened, pc⟩ := f
      cases move with
      | unlink =>
          refine ⟨elsewhere rfl, ?_⟩
          rintro _ ⟨⟩
          trivial
      | finding =>
          obtain ⟨next, inner, after⟩ := Kernel.exec_map_eq_some step
          obtain ⟨hint', found⟩ := findFirstEntryAvailable_inRange hint (inRange _ rfl) inner
          refine ⟨hint', ?_⟩
          rintro _ ⟨⟩
          cases next with
          | go pc' => cases after; exact found
          | back i => cases after
      | found =>
          obtain ⟨next, inner, after⟩ := Kernel.exec_map_eq_some step
          obtain ⟨hint', found⟩ := findFirstEntryAvailable_inRange hint (inRange _ rfl) inner
          exact ⟨hint', fun _ finds => by cases finds⟩
      | _ => exact ⟨elsewhere rfl, fun _ finds => by cases finds⟩
  | _ =>
      refine ⟨elsewhere rfl, fun _ finds => ?_⟩
      cases frame <;> first | cases finds | cases same

end TagExchange
