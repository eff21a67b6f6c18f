import TagExchange.Properties.Pointers
import TagExchange.Properties.RegistrySteps

/-! The indices that the system calls and the callbacks use: into the arrays of
`ts_management` and `dev_manager`, and into the level array of a service.
-/

namespace TagExchange

open Concurrency Protocol

variable {τ : Type}

-----------------------------------------------------------------------------------------
-- Frames in range
-----------------------------------------------------------------------------------------

def UpdatePc.InRange : UpdatePc → Prop
  | lock i _ | read i _ | free i _ | assign i _ | unlock i => IsTag i
  | check | load | waiting _ | index _ _ | oops => True

/-- The lines of a text are counted up to the number of levels. -/
def CreateDevicePc.InRange : CreateDevicePc → Prop
  | count _ rows | print _ _ rows => rows.length < MAX_LEVELS.toNat
  | _ => True

/-- The indices a call may still use are in range. -/
def Frame.InRange : Frame → Prop
  | user _ => True
  | get f =>
      match f.pc with
      | .entry => f.ValidArguments → f.key ≠ IPC_PRIVATE → IsTag (hashFunction f.key)
      | .find pc => pc.InRange ∧ f.ValidArguments
      | .device pc => IsTag f.tag ∧ pc.InRange
      | .ret _ => True
      | _ => IsTag f.tag
  | send f =>
      match f.pc with
      | .entry => IsLevel f.level → f.tag ≠ MAX_TAG_SERVICES
      | .freePage _ | .ret _ _ => True
      | _ => IsTag f.tag ∧ IsLevel f.level
  | receive f =>
      match f.pc with
      | .entry | .ret _ => True
      | .entered pc | .left _ pc => pc.InRange ∧ IsTag f.tag ∧ IsLevel f.level
      | _ => IsTag f.tag ∧ IsLevel f.level
  | ctl f =>
      match f.pc with
      | .entry => f.ValidArguments → f.tag ≠ MAX_TAG_SERVICES
      | .load | .index => IsTag f.tag
      | .find pc => pc.InRange
      | .ret _ | .busy | .incRemaining | .kfree => True
      | _ => IsTag f.tag ∧ IsTag f.index

/-- A call whose indices are in range uses only such indices, by cases on the program
point.
-/
theorem indices_of_inRange {c : CallId τ} {frame : Frame} (inRange : frame.InRange)
    : (∀ i ∈ (frame.op c).indices, IsTag i) ∧ ∀ l ∈ (frame.op c).levels, IsLevel l := by
  cases frame with
  | user last => exact .intro (List.forall_mem_nil _) (List.forall_mem_nil _)
  | get f =>
      obtain ⟨key, command, permission, euid, tag, ts, pc⟩ := f
      cases pc
      case find pc =>
        cases pc <;>
          simp_all [Frame.op, tagGet, findFirstEntryAvailable, Op.map, Op.indices, Op.levels,
            Frame.InRange, FindPc.InRange]
      case device pc =>
        cases pc using CreateDevicePc.points
        case count | print =>
          exact ⟨List.forall_mem_nil _,
            List.forall_mem_singleton.mpr ⟨Int.natCast_nonneg _, Int.ofNat_lt.mpr inRange.2⟩⟩
        all_goals
          simp_all [Frame.op, tagGet, tsCreateCharDeviceFile, Op.map, Op.indices, Op.levels,
            Frame.InRange, CreateDevicePc.InRange, IsLevel, MAX_LEVELS]
      all_goals simp_all [Frame.op, tagGet, Op.indices, Op.levels, Frame.InRange]
  | send f =>
      obtain ⟨tag, level, buffer, size, euid, realSize, stored, ts, pc⟩ := f
      cases pc <;>
        simp_all [Frame.op, tagSend, Op.indices, Op.levels, Frame.InRange, Write.levels, Job.levels]
  | receive f =>
      obtain ⟨tag, level, buffer, size, euid, ts, realSize, interrupted, copied, pc⟩ := f
      cases pc
      case entered pc =>
        cases pc <;>
          simp_all [Frame.op, tagReceive, updateChrdev, Op.map, Op.indices, Op.levels,
            Frame.InRange, UpdatePc.InRange]
      case left x pc =>
        cases pc <;>
          simp_all [Frame.op, tagReceive, updateChrdev, Op.map, Op.indices, Op.levels,
            Frame.InRange, UpdatePc.InRange]
      all_goals simp_all [Frame.op, tagReceive, Op.indices, Op.levels, Frame.InRange, Write.levels]
  | ctl f =>
      obtain ⟨tag, command, euid, ts, index, awakened, pc⟩ := f
      cases pc
      case find pc =>
        cases pc <;>
          simp_all [Frame.op, tagCtl, findFirstEntryAvailable, Op.map, Op.indices, Op.levels,
            Frame.InRange, FindPc.InRange]
      case destroy pc =>
        cases pc <;>
          simp_all [Frame.op, tagCtl, tsDestroyCharDeviceFile, Op.map, Op.indices, Op.levels,
            Frame.InRange]
      all_goals
        simp_all [Frame.op, tagCtl, Op.indices, Op.levels, Frame.InRange, Write.levels, Job.levels]

variable [DecidableEq τ] {k k' : Kernel τ} {external : Nat} {frame : Frame}

/-- The indices a routine goes on with. -/
def Then.InRange : Then UpdatePc Unit → Prop
  | .go pc => pc.InRange
  | .back _ => True

omit [DecidableEq τ] in
/-- A creation reads as many levels as there are. -/
theorem CreateMove.inRange {i : Int} {pc pc' : CreateDevicePc} (move : CreateMove k i pc (.go pc'))
    (inRange : pc.InRange)
    : pc'.InRange := by
  cases move with
  | count => exact inRange
  | print more =>
      show List.length _ < _
      rwa [List.length_append, List.length_singleton]
  | fill => exact (by decide : 0 < MAX_LEVELS.toNat)
  | _ => trivial

omit [DecidableEq τ] in
/-- The index of a device is the tag of a service that the call points to. -/
theorem UpdateMove.inRange {i l : Int} {pc : UpdatePc} {next : Then UpdatePc Unit}
    (move : UpdateMove k external i l pc next) (inRange : pc.InRange)
    (tagged : ∀ s ∈ pc.pointers, IsTag (k.service s).tag)
    : next.InRange := by
  cases move with
  | @index s n => exact tagged s (List.mem_singleton_self s)
  | _ => first | exact inRange | trivial

/-- An `OPEN_TAG` with `IPC_PRIVATE` that is about to test whether the registry is full. -/
def Frame.opensAtFull : Frame → Bool
  | get f =>
      match f.pc with
      | .find .full => f.command = OPEN_TAG
      | _ => false
  | _ => false

omit [DecidableEq τ] in
theorem Frame.InRange.finds {frame : Frame} (inRange : frame.InRange) {pc : FindPc}
    (finds : frame.finds = some pc)
    : pc.InRange := by
  cases frame with
  | get f =>
      obtain ⟨key, command, permission, euid, tag, ts, point⟩ := f
      cases point <;> cases finds
      exact inRange.1
  | ctl f =>
      obtain ⟨tag, command, euid, ts, index, awakened, point⟩ := f
      cases point <;> cases finds
      exact inRange
  | _ => cases finds

/-- A step keeps the hint and the call in range, by cases on the move. -/
theorem inRange_of_exec {c : CallId τ} {before : Frame} (hint : IsTag k.tsm.firstFreeEntry)
    (inRange : before.InRange) (tagged : ∀ s ∈ before.pointers, IsTag (k.service s).tag)
    (notFull : before.opensAtFull = true → k.tsm.remainingEntries ≠ 0)
    (step : k.exec external (before.op c) = some (k', frame))
    : IsTag k'.tsm.firstFreeEntry ∧ frame.InRange := by
  obtain ⟨hint', finds⟩ := search_of_exec hint (fun _ finds => inRange.finds finds) step
  refine ⟨hint', ?_⟩
  cases before with
  | user last => cases step
  | get f =>
      have step : k.exec external (tagGet c.1 f) = some (k', frame) := step
      have move := getMove_of_exec step
      obtain ⟨key, command, permission, euid, tag, ts, pc⟩ := f
      -- A call that is not refused has valid arguments.
      have valid (begins : pc = .entry)
          (goesOn : ∀ r, frame ≠ .get ⟨key, command, permission, euid, tag, ts, .ret r⟩)
          : GetFrame.ValidArguments ⟨key, command, permission, euid, tag, ts, .entry⟩ := by
        subst begins
        by_contra invalid
        obtain ⟨-, same⟩ := Prod.mk.inj (Option.some.inj step)
        rw [if_pos invalid] at same
        exact goesOn _ same.symm
      cases move with
      | hash named => exact inRange (valid rfl fun _ same => by simp [GetFrame.at_] at same) named
      | search => exact ⟨finds _ rfl, valid rfl fun _ same => by cases same⟩
      | finding => exact ⟨finds _ rfl, inRange.2⟩
      | found =>
          refine (found_of_exec hint rfl inRange.1 step).resolve_right fun failure => ?_
          obtain ⟨other, rfl, none_left⟩ := failure
          have opens : command = OPEN_TAG := inRange.2.2.resolve_left other
          exact notFull (by simp [Frame.opensAtFull, opens]) none_left
      | decRemaining => exact ⟨inRange, trivial⟩
      | creating =>
          obtain ⟨next, move, same⟩ := created_of_exec rfl step
          cases next with
          | go pc' =>
              obtain rfl := GetPc.device.inj (GetFrame.mk.inj (Frame.get.inj same)).2.2.2.2.2.2
              exact ⟨inRange.1, move.inRange inRange.2⟩
          | back => cases same
      | created => exact inRange.1
      | _ => first | exact inRange | trivial
  | send f =>
      have move := sendMove_of_exec step
      obtain ⟨tag, level, buffer, size, euid, realSize, stored, ts, pc⟩ := f
      cases move with
      | accept inLevel =>
          have bound : tag ≠ MAX_TAG_SERVICES := inRange inLevel
          have checked : ¬ (tag < 0 ∨ tag > MAX_TAG_SERVICES) := by
            intro outside
            obtain ⟨-, same⟩ := Prod.mk.inj (Option.some.inj step)
            rw [if_pos outside] at same
            cases same
          have inTag : IsTag tag := ⟨by omega, by omega⟩
          exact ⟨inTag, inLevel⟩
      | _ => first | exact inRange | trivial
  | receive f =>
      have step : k.exec external (tagReceive c.1 f) = some (k', frame) := step
      have move := receiveMove_of_exec step
      obtain ⟨tag, level, buffer, size, euid, ts, realSize, interrupted, copied, pc⟩ := f
      cases move with
      | accept inLevel =>
          have checked : ¬ (tag < 0 ∨ tag > MAX_TAG_SERVICES - 1) := by
            intro outside
            obtain ⟨-, same⟩ := Prod.mk.inj (Option.some.inj step)
            rw [if_pos outside] at same
            cases same
          have inTag : IsTag tag := ⟨by omega, by omega⟩
          exact ⟨inTag, inLevel⟩
      | entering | leaving =>
          obtain ⟨f', next, same, inner, updated⟩ := updated_of_exec rfl step
          cases same
          have device := inner.inRange inRange.1 fun s member =>
            tagged s (List.mem_cons_of_mem _ member)
          cases next with
          | go pc' =>
              cases updated.update
              exact ⟨device, inRange.2⟩
          | back => cases updated.update
      | entered | leftAwake => exact inRange.2
      | _ => first | exact inRange | trivial
  | ctl f =>
      have move := ctlMove_of_exec step
      obtain ⟨tag, command, euid, ts, index, awakened, pc⟩ := f
      cases move with
      | accept valid =>
          have bound : tag ≠ MAX_TAG_SERVICES := inRange valid
          have checked : ¬ (tag < 0 ∨ tag > MAX_TAG_SERVICES) := valid.1
          have inTag : IsTag tag := ⟨by omega, by omega⟩
          exact inTag
      | index => exact ⟨inRange, tagged ts (List.mem_singleton_self ts)⟩
      | unlockIndex | destroyIndex => exact ⟨inRange.1, tagged ts (List.mem_singleton_self ts)⟩
      | finding => exact finds _ rfl
      | _ => first | exact inRange | trivial

-----------------------------------------------------------------------------------------
-- The invariant
-----------------------------------------------------------------------------------------

/-- Every index in use is in range, and every service in use carries a tag in range. -/
structure IndexInvariant (st : State τ) : Prop where
  safe : Safe st.kernel.core st.view
  hint : IsTag st.kernel.tsm.firstFreeEntry
  slots : ∀ {i s}, st.kernel.tsm.allTagServices i = some s → IsTag i
  frames : ∀ t, (st.thread t).frame.InRange
  pointers
    : ∀ t,
        ∀ s ∈ (st.thread t).frame.pointers,
          s < st.kernel.services ∧ IsTag (st.kernel.service s).tag
  callbacks : ∀ b ∈ st.kernel.rcu.callbacks, ∀ l ∈ b.job.levels, IsLevel l

/-- The calls and steps that keep the indices in range: a key whose remainder is not
negative, a tag other than `MAX_TAG_SERVICES` where the range check of the call lets it
through, and no `OPEN_TAG` with `IPC_PRIVATE` that finds the registry full.
-/
def IndexCondition : Guard (State τ) (Event τ) :=
  fun _ st e =>
    ReuseUnheld st e
    ∧ match e with
      | .call _ _ (.tagGet key command permission) =>
          (permission = EVERYONE ∨ permission = ONLY_OWNER)
          → (command = CREATE_TAG ∨ command = OPEN_TAG)
          → key ≠ IPC_PRIVATE
          → 0 ≤ hashFunction key
      | .call _ _ (.tagSend tag level _ _) => IsLevel level → tag ≠ MAX_TAG_SERVICES
      | .call _ _ (.tagCtl tag command) =>
          command = REMOVE_TAG ∨ command = AWAKE_ALL → tag ≠ MAX_TAG_SERVICES
      | .run t _ => (st.thread t).frame.opensAtFull = true → st.kernel.tsm.remainingEntries ≠ 0
      | _ => True

omit [DecidableEq τ] in
/-- What a creation fills carries the tag of the call. -/
theorem tag_of_allocates {c : CallId τ} {frame : Frame} {ts : TagService}
    (inRange : frame.InRange) (allocates : (frame.op c).allocates = some ts)
    : IsTag ts.tag := by
  cases frame with
  | user last => cases allocates
  | get f =>
      obtain ⟨key, command, permission, euid, tag, s, pc⟩ := f
      cases pc
      case find pc => cases pc <;> cases allocates
      case device pc =>
        cases pc using CreateDevicePc.points <;> cases allocates
      all_goals cases allocates
      exact inRange
  | send f =>
      obtain ⟨tag, level, buffer, size, euid, realSize, stored, s, pc⟩ := f
      cases pc <;> cases allocates
  | receive f =>
      obtain ⟨tag, level, buffer, size, euid, s, realSize, interrupted, copied, pc⟩ := f
      cases pc
      case entered pc => cases pc <;> cases allocates
      case left x pc => cases pc <;> cases allocates
      all_goals cases allocates
  | ctl f =>
      obtain ⟨tag, command, euid, s, index, awakened, pc⟩ := f
      cases pc
      case find pc => cases pc <;> cases allocates
      case destroy pc => cases pc <;> cases allocates
      all_goals cases allocates

omit [DecidableEq τ] in
theorem indexInvariant_start : IndexInvariant (State.start : State τ) where
  safe := safe_start
  hint := (by decide : IsTag 0)
  slots h := nomatch h
  frames _ := trivial
  pointers _ _ := nofun
  callbacks _ := nofun

theorem IndexInvariant.step {h : History (State τ) (Event τ)} {st st' : State τ} {e : Event τ}
    (x : IndexInvariant st) (ok : IndexCondition h st e) (step : st.step e = some st')
    : IndexInvariant st' := by
  have safe : Safe st'.kernel.core st'.view := safe_step x.safe ok.1.unseen step
  cases State.steps_of_step step with
  | @call t euid c last user =>
      have frame : (c.enter euid).InRange ∧ (c.enter euid).pointers = [] := by
        cases c with
        | tagGet key command permission =>
            exact ⟨fun valid named => ⟨ok.2 valid.1 valid.2 named, hashFunction_lt key⟩, rfl⟩
        | tagSend tag level buffer size => exact ⟨ok.2, rfl⟩
        | tagReceive tag level buffer size => exact ⟨trivial, rfl⟩
        | tagCtl tag command => exact ⟨fun valid => ok.2 valid.2, rfl⟩
      exact {
        safe
        hint := x.hint
        slots := x.slots
        frames := (Function.forall_update_iff st.thread fun _ th => th.frame.InRange).mpr
          ⟨frame.1, fun u _ => x.frames u⟩
        pointers := (Function.forall_update_iff st.thread fun _ th => ∀ s ∈ th.frame.pointers,
          s < st.kernel.services ∧ IsTag (st.kernel.service s).tag).mpr
          ⟨fun s member => by simp [frame.2] at member, fun u _ => x.pointers u⟩
        callbacks := x.callbacks
      }
  | @run t external k frame exec =>
      have tagged s (member : s ∈ (st.thread t).frame.pointers) := (x.pointers t s member).2
      obtain ⟨hint, inRange⟩ := inRange_of_exec x.hint (x.frames t) tagged ok.2 exec
      have used := indices_of_inRange (c := (t, (st.thread t).calls)) (x.frames t)
      -- What was born keeps its tag, also for the other calls.
      have kept {s} (fine : s < st.kernel.services ∧ IsTag (st.kernel.service s).tag)
          : s < k.services ∧ IsTag (k.service s).tag := by
        obtain ⟨born, same⟩ := Kernel.exec_tag exec fine.1
        exact ⟨born, same ▸ fine.2⟩
      have mine : ∀ s ∈ frame.pointers, s < k.services ∧ IsTag (k.service s).tag := by
        intro s member
        rcases pointers_of_exec exec s member with before | ⟨i, found⟩ | ⟨rfl, new⟩
        · exact kept (x.pointers t s before)
        · have tagged := (x.safe.slots found).1
          refine kept ⟨tagged.1, ?_⟩
          have tag : (st.kernel.service s).tag = i := tagged.2.1
          exact tag ▸ x.slots found
        · obtain ⟨ts, allocates⟩ := Option.ne_none_iff_exists'.mp new
          have performs := Kernel.exec_performs exec
          have range := tag_of_allocates (x.frames t) allocates
          rw [performs.services, performs.service]
          simp only [State.op] at performs allocates ⊢
          cases op : (st.thread t).frame.op (t, (st.thread t).calls) <;> rw [op] at allocates <;>
            cases allocates
          exact ⟨Nat.lt_succ_self _, by simpa [Op.onService] using range⟩
      exact {
        safe
        hint
        slots := fun {i s} found => by
          rcases Kernel.exec_slot exec found with before | stores
          · exact x.slots before
          · exact used.1 i (Op.mem_indices_of_stores stores)
        frames := (Function.forall_update_iff st.thread fun _ th => th.frame.InRange).mpr
          ⟨inRange, fun u _ => x.frames u⟩
        pointers := (Function.forall_update_iff st.thread fun _ th => ∀ s ∈ th.frame.pointers,
          s < k.services ∧ IsTag (k.service s).tag).mpr
          ⟨mine, fun u _ s member => kept (x.pointers u s member)⟩
        callbacks := fun b member l level => by
          rw [State.setThread, Kernel.exec_callbacks exec] at member
          rcases List.mem_append.mp member with before | new
          · exact x.callbacks b before l level
          · have registers := Option.mem_toList.mp new
            exact used.2 l (Op.levels_of_registers registers ▸ level)
      }
  | @softirq n b k next ready exec =>
      obtain ⟨slots, -, hint⟩ := registry_of_callback exec
      have kept {s} (fine : s < st.kernel.services ∧ IsTag (st.kernel.service s).tag)
          : s < k.services ∧ IsTag (k.service s).tag := by
        obtain ⟨born, same⟩ := Kernel.exec_tag exec fine.1
        exact ⟨born, same ▸ fine.2⟩
      exact {
        safe
        hint := hint ▸ x.hint
        slots := fun found => x.slots (slots ▸ found)
        frames := x.frames
        pointers := fun t s member => kept (x.pointers t s member)
        callbacks := fun b' member l level => by
          obtain ⟨b₀, before, job, -⟩ := Kernel.exec_callback ready exec member
          exact x.callbacks b₀ before l (job ▸ level)
      }
  | signal busy => exact { x with safe }
  | @reuse s ts freed =>
      refine { x with safe, pointers := fun t r member => ?_ }
      have other : r ≠ s := by
        rintro rfl
        exact ok.1.1 t member
      simpa only [Function.update_of_ne other] using x.pointers t r member

/-- In a state that satisfies the invariant, every event uses indices in range only. -/
theorem IndexInvariant.indicesInRange {st : State τ} (x : IndexInvariant st) (e : Event τ)
    : st.IndicesInRange e := by
  cases e with
  | run t external => exact indices_of_inRange (x.frames t)
  | softirq n =>
      simp only [State.IndicesInRange, State.indices, State.levels]
      cases ready : st.callback n with
      | none => exact .intro (List.forall_mem_nil _) (List.forall_mem_nil _)
      | some b =>
          have member : b ∈ st.kernel.rcu.callbacks :=
            List.mem_of_getElem? (st.kernel.rcu.callbacks_of_ready? ready)
          refine ⟨fun i used => ?_, fun l used => ?_⟩
          · have stage := Callback.stage_of_mem_indices used
            have pending : b ∈ st.kernel.rcu.among Callback.owes :=
              Rcu.mem_among.mpr ⟨member, by rw [Callback.owes, stage]⟩
            obtain ⟨live, -, -, unlocks⟩ := x.safe.callback b pending
            rw [unlocks stage]
            exact x.slots live.1
          · exact x.callbacks b member l (Callback.mem_levels_of_mem_levels used)
  | _ => exact .intro (List.forall_mem_nil _) (List.forall_mem_nil _)

theorem indexInvariant_run {h : History (State τ) (Event τ)} {st : State τ}
    (run : (machine τ).Run IndexCondition h st)
    : IndexInvariant st :=
  run.invariant (P := fun _ st => IndexInvariant st) indexInvariant_start
    fun _ x ok step => x.step ok step

/-- Every step of a run whose steps meet the condition uses indices in range only. -/
theorem indices_in_range {h : History (State τ) (Event τ)} {st : State τ}
    (run : (machine τ).Run IndexCondition h st) {s e} (member : (s, e) ∈ h)
    : s.IndicesInRange e := by
  obtain ⟨m, here⟩ := List.getElem?_of_mem member
  exact (indexInvariant_run (run.moment here).1).indicesInRange e

instance [Fintype τ] (h : History (State τ) (Event τ)) (st : State τ) (e : Event τ)
    : Decidable (IndexCondition h st e) := by
  unfold IndexCondition
  cases e with
  | call t euid c => cases c <;> infer_instance
  | _ => infer_instance

/-- A creation, a receiver that falls asleep and a whole send use the index 1. -/
theorem indices_in_range_of_send
    : ∃ h st s e,
        (machine (Fin 2)).Run IndexCondition h st
        ∧ (s, e) ∈ h
        ∧ 1 ∈ s.indices e
        ∧ s.IndicesInRange e := by
  obtain ⟨h, st, run, facts⟩ := Machine.Run.exists_of_replay
    (M := machine (Fin 2)) (G := IndexCondition)
    (creating 0 1 ++ fallingAsleep 1 1 0 ++ sending 0 1 0 [104, 105] 16)
    (fun h _ => h.any fun moment => decide (1 ∈ moment.1.indices moment.2))
    (by decide +kernel)
  obtain ⟨⟨s, e⟩, member, used⟩ := List.any_eq_true.mp facts
  exact ⟨h, st, s, e, run, member, of_decide_eq_true used, indices_in_range run member⟩

/-- Without the condition the indices leave the arrays: a send to `MAX_TAG_SERVICES` loads
a slot behind the registry, and a creation under the key `-1` locks a mutex before the
array.
-/
theorem indices_out_of_range
    : (¬ ∀ (h : History (State (Fin 1)) (Event (Fin 1))) (st : State (Fin 1)),
        (machine (Fin 1)).Run anyStep h st → ∀ s e, (s, e) ∈ h → s.IndicesInRange e)
      ∧ (∃ h st s e, (machine (Fin 1)).Run anyStep h st ∧ (s, e) ∈ h ∧ 512 ∈ s.indices e)
      ∧ ∃ h st s e, (machine (Fin 1)).Run anyStep h st ∧ (s, e) ∈ h ∧ -1 ∈ s.indices e := by
  have behind : ∃ h st s e,
      (machine (Fin 1)).Run anyStep h st ∧ (s, e) ∈ h ∧ 512 ∈ s.indices e := by
    obtain ⟨h, st, run, facts⟩ := Machine.Run.exists_of_replay
      (M := machine (Fin 1)) (G := anyStep) (sending 0 512 0 [104, 105] 4)
      (fun h _ => h.any fun moment => decide (512 ∈ moment.1.indices moment.2))
      (by decide +kernel)
    obtain ⟨⟨s, e⟩, member, used⟩ := List.any_eq_true.mp facts
    exact ⟨h, st, s, e, run, member, of_decide_eq_true used⟩
  have before : ∃ h st s e,
      (machine (Fin 1)).Run anyStep h st ∧ (s, e) ∈ h ∧ -1 ∈ s.indices e := by
    obtain ⟨h, st, run, facts⟩ := Machine.Run.exists_of_replay
      (M := machine (Fin 1)) (G := anyStep) (creating 0 (-1))
      (fun h _ => h.any fun moment => decide (-1 ∈ moment.1.indices moment.2))
      (by decide +kernel)
    obtain ⟨⟨s, e⟩, member, used⟩ := List.any_eq_true.mp facts
    exact ⟨h, st, s, e, run, member, of_decide_eq_true used⟩
  refine ⟨fun safe => ?_, behind, before⟩
  obtain ⟨h, st, s, e, run, member, used⟩ := behind
  exact absurd ((safe h st run s e member).1 512 used) (by decide)

end TagExchange
