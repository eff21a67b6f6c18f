import TagExchange.Model.Texts

/-! The moves of the three functions of the device driver, inside the calls that make them. -/

namespace TagExchange

open Concurrency

variable {τ : Type}

/-- A step of `update_chrdev`: what it has found in the shared state, and where it goes. -/
inductive UpdateMove (k : Kernel τ) (external : Nat) (tagMinor level : Int)
    : UpdatePc → Then UpdatePc Unit → Prop
  | reject
    (outside : tagMinor > MAX_TAG_SERVICES ∨ tagMinor < -1 ∨ level > MAX_LEVELS ∨ level < 0)
    : UpdateMove k external tagMinor level .check (.back ())
  | accept : UpdateMove k external tagMinor level .check (.go .load)
  | missing (empty : k.tsm.allTagServices tagMinor = none)
    : UpdateMove k external tagMinor level .load (.back ())
  | load {s} (found : k.tsm.allTagServices tagMinor = some s)
    : UpdateMove k external tagMinor level .load (.go (.waiting s))
  | waiting {s}
    : UpdateMove k external tagMinor level (.waiting s)
        (.go (.index s (atomicRead ((k.service s).level level).threadWaiting)))
  | index {s n} : UpdateMove k external tagMinor level (.index s n) (.go (.lock (k.service s).tag n))
  | lock {i n} (free : k.dm.deviceLock i = false)
    : UpdateMove k external tagMinor level (.lock i n) (.go (.read i n))
  | blank {i n} (nothing : k.dm.copied i external = none)
    : UpdateMove k external tagMinor level (.read i n) (.go .oops)
  | read {i n text} (found : k.dm.copied i external = some text)
    : UpdateMove k external tagMinor level (.read i n) (.go (.free i (Function.update text level n)))
  | free {i text} : UpdateMove k external tagMinor level (.free i text) (.go (.assign i text))
  | assign {i text} : UpdateMove k external tagMinor level (.assign i text) (.go (.unlock i))
  | unlock {i} : UpdateMove k external tagMinor level (.unlock i) (.back ())

/-- A step of `ts_create_char_device_file`. -/
inductive CreateMove (k : Kernel τ) (tagMinor : Int)
    : CreateDevicePc → Then CreateDevicePc Unit → Prop
  | load : CreateMove k tagMinor .load (.go (.lock (k.tsm.allTagServices tagMinor)))
  | lock {ts} (free : k.dm.deviceLock tagMinor = false)
    : CreateMove k tagMinor (.lock ts) (.go (.add ts))
  | add {ts} : CreateMove k tagMinor (.add ts) (.go (.node ts))
  | addFailed {ts} : CreateMove k tagMinor (.add ts) (.go (.unlock false))
  | node {ts} : CreateMove k tagMinor (.node ts) (.go (.content ts))
  | nodeFailed {ts} : CreateMove k tagMinor (.node ts) (.go (.unlock true))
  | noContent {ts} : CreateMove k tagMinor (.node ts) (.go .noContent)
  | content {ts} : CreateMove k tagMinor (.content ts) (.go (.fill ts))
  | clear : CreateMove k tagMinor .noContent (.go .oops)
  | fill {s} : CreateMove k tagMinor (.fill (some s)) (.go (.count s []))
  | count {s rows}
    : CreateMove k tagMinor (.count s rows)
        (.go (.print s ((k.service s).level rows.length).threadWaiting rows))
  | print {s n rows} (more : rows.length + 1 < MAX_LEVELS.toNat)
    : CreateMove k tagMinor (.print s n rows)
        (.go (.count s (rows ++ [(n, ((k.service s).level rows.length).threadWaiting)])))
  | printLast {s n rows} (last : MAX_LEVELS.toNat ≤ rows.length + 1)
    : CreateMove k tagMinor (.print s n rows)
        (.go
          (.write
            (printedCounters (rows ++ [(n, ((k.service s).level rows.length).threadWaiting)]))))
  | write {text} : CreateMove k tagMinor (.write text) (.go (.unlock false))
  | unlockFailed : CreateMove k tagMinor (.unlock true) (.go .delete)
  | unlock : CreateMove k tagMinor (.unlock false) (.back ())
  | delete : CreateMove k tagMinor .delete (.back ())

/-- A step of `ts_destroy_char_device_file`. -/
inductive DestroyMove (k : Kernel τ) (tagMinor : Int)
    : DestroyDevicePc → Then DestroyDevicePc Unit → Prop
  | lock (free : k.dm.deviceLock tagMinor = false) : DestroyMove k tagMinor .lock (.go .node)
  | node : DestroyMove k tagMinor .node (.go .content)
  | content : DestroyMove k tagMinor .content (.go .unlock)
  | unlock : DestroyMove k tagMinor .unlock (.back ())

variable [DecidableEq τ] {k k' : Kernel τ} {external : Nat}

/-- `update_chrdev` makes one of these moves, by cases on its program point. -/
theorem updateMove_of_exec {tagMinor level : Int} {pc : UpdatePc} {next : Then UpdatePc Unit}
    (step : k.exec external (updateChrdev tagMinor level pc) = some (k', next))
    : UpdateMove k external tagMinor level pc next := by
  cases pc
  case lock i n =>
    obtain ⟨free, step⟩ := Option.ite_none_left_eq_some.mp step
    obtain ⟨-, rfl⟩ := Prod.mk.inj (Option.some.inj step)
    exact .lock (by simpa using free)
  case oops => cases step
  all_goals obtain ⟨-, rfl⟩ := Prod.mk.inj (Option.some.inj step)
  case check =>
    split
    · next outside => exact .reject outside
    · exact .accept
  case load =>
    cases found : k.tsm.allTagServices tagMinor with
    | none => exact .missing found
    | some s => exact .load found
  case read i n =>
    have copied
        : (if external = 0 then (k.dm.content i).bind fun b => (k.dm.buffer b).text else none)
          = k.dm.copied i external :=
      rfl
    rw [copied]
    cases found : k.dm.copied i external with
    | none => exact .blank found
    | some text => exact .read found
  all_goals constructor

theorem createMove_of_exec {tagMinor : Int} {pc : CreateDevicePc} {next : Then CreateDevicePc Unit}
    (step : k.exec external (tsCreateCharDeviceFile tagMinor pc) = some (k', next))
    : CreateMove k tagMinor pc next := by
  cases pc
  case lock ts =>
    obtain ⟨free, step⟩ := Option.ite_none_left_eq_some.mp step
    obtain ⟨-, rfl⟩ := Prod.mk.inj (Option.some.inj step)
    exact .lock (by simpa using free)
  case fill ts =>
    cases ts with
    | none => cases step
    | some s =>
        obtain ⟨-, rfl⟩ := Prod.mk.inj (Option.some.inj step)
        exact .fill
  case oops => cases step
  all_goals obtain ⟨-, rfl⟩ := Prod.mk.inj (Option.some.inj step)
  case add ts =>
    dsimp only
    split
    · exact .add
    · exact .addFailed
  case node ts =>
    split
    · exact .node
    · split
      · exact .nodeFailed
      · exact .noContent
  case print s n rows =>
    dsimp only
    rw [List.length_append, List.length_singleton]
    split
    · next more => exact .print more
    · next last => exact .printLast (Nat.le_of_not_lt last)
  case unlock failed =>
    cases failed
    · exact .unlock
    · exact .unlockFailed
  all_goals constructor

theorem destroyMove_of_exec {tagMinor : Int} {pc : DestroyDevicePc}
    {next : Then DestroyDevicePc Unit}
    (step : k.exec external (tsDestroyCharDeviceFile tagMinor pc) = some (k', next))
    : DestroyMove k tagMinor pc next := by
  cases pc
  case lock =>
    obtain ⟨free, step⟩ := Option.ite_none_left_eq_some.mp step
    obtain ⟨-, rfl⟩ := Prod.mk.inj (Option.some.inj step)
    exact .lock (by simpa using free)
  all_goals
    obtain ⟨-, rfl⟩ := Prod.mk.inj (Option.some.inj step)
    constructor

-----------------------------------------------------------------------------------------
-- Inside the calls
-----------------------------------------------------------------------------------------

/-- The receiver after a step of its `update_chrdev`: what it was given stays the same. -/
structure ReceiveFrame.Updated (f f' : ReceiveFrame) (next : Then UpdatePc Unit) : Prop where
  tag : f'.tag = f.tag
  level : f'.level = f.level
  ts : f'.ts = f.ts
  update
    : match next with
      | .go pc => f'.pc.update = some pc
      | .back _ => f'.pc.update = none

/-- A receiver inside `update_chrdev` makes a move of that, by cases on which one it is in. -/
theorem updated_of_exec {t : τ} {f : ReceiveFrame} {frame : Frame} {pc : UpdatePc}
    (inside : f.pc.update = some pc)
    (step : k.exec external (tagReceive t f) = some (k', frame))
    : ∃ f' next,
        frame = .receive f' ∧ UpdateMove k external f.tag f.level pc next ∧ f.Updated f' next := by
  obtain ⟨tag, level, buffer, size, euid, ts, realSize, interrupted, copied, point⟩ := f
  cases point <;> cases inside
  case entered =>
    obtain ⟨next, inner, rfl⟩ := Kernel.exec_map_eq_some step
    cases next with
    | go pc' => exact ⟨_, _, rfl, updateMove_of_exec inner, rfl, rfl, rfl, rfl⟩
    | back => exact ⟨_, _, rfl, updateMove_of_exec inner, rfl, rfl, rfl, rfl⟩
  case left x =>
    obtain ⟨next, inner, rfl⟩ := Kernel.exec_map_eq_some step
    cases next with
    | go pc' => exact ⟨_, _, rfl, updateMove_of_exec inner, rfl, rfl, rfl, rfl⟩
    | back =>
        dsimp only
        split
        · exact ⟨_, _, rfl, updateMove_of_exec inner, rfl, rfl, rfl, rfl⟩
        · exact ⟨_, _, rfl, updateMove_of_exec inner, rfl, rfl, rfl, rfl⟩

/-- A creator inside `ts_create_char_device_file` makes a move of that. -/
theorem created_of_exec {t : τ} {f : GetFrame} {frame : Frame} {pc : CreateDevicePc}
    (inside : f.pc = .device pc) (step : k.exec external (tagGet t f) = some (k', frame))
    : ∃ next,
        CreateMove k f.tag pc next
        ∧ frame = match next with
            | .go pc' => f.at_ (.device pc')
            | .back _ => f.at_ .print := by
  obtain ⟨key, command, permission, euid, tag, ts, point⟩ := f
  obtain rfl := inside
  obtain ⟨next, inner, rfl⟩ := Kernel.exec_map_eq_some step
  cases next with
  | go pc' => exact ⟨_, createMove_of_exec inner, rfl⟩
  | back => exact ⟨_, createMove_of_exec inner, rfl⟩

/-- A removal inside `ts_destroy_char_device_file` makes a move of that. -/
theorem destroyed_of_exec {c : CallId τ} {f : CtlFrame} {frame : Frame} {pc : DestroyDevicePc}
    (inside : f.pc = .destroy pc) (step : k.exec external (tagCtl c f) = some (k', frame))
    : ∃ next,
        DestroyMove k f.index pc next
        ∧ frame = match next with
            | .go pc' => f.at_ (.destroy pc')
            | .back _ => f.at_ .unlink := by
  obtain ⟨tag, command, euid, ts, index, awakened, point⟩ := f
  obtain rfl := inside
  obtain ⟨next, inner, rfl⟩ := Kernel.exec_map_eq_some step
  cases next with
  | go pc' => exact ⟨_, destroyMove_of_exec inner, rfl⟩
  | back => exact ⟨_, destroyMove_of_exec inner, rfl⟩

end TagExchange
