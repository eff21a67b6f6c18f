import TagExchange.Model.Turns
import TagExchange.Properties.Waiters

/-! The counters of waiting threads are exact: that of a service and those of its levels. -/

namespace TagExchange

open Concurrency Protocol

variable {τ : Type}

/-- The level of a service that counts a receiver: between the increment and the decrement
of its `thread_waiting`.
-/
def Frame.levelRegistered : Frame → Option (Ref × Int)
  | receive f =>
      match f.pc with
      | .entered _ | .firstReady | .firstAwake | .prepare | .testReady | .testAwake | .sleep
      | .finish | .rcuLock | .signal | .ready | .size | .copy | .rcuUnlock _ | .decCount _
      | .decLevel _ => some (f.ts, f.level)
      | .entry | .load | .lazyDeleted | .permission | .incCount | .incLevel | .left _ _ | .print
      | .ret _ => none
  | _ => none

/-- The service one of whose counters a receiver has updated, and not yet the other. -/
def Frame.updating : Frame → Option Ref
  | receive f =>
      match f.pc with
      | .incLevel | .decLevel _ => some f.ts
      | _ => none
  | _ => none

/-- A call of `tag_receive`. -/
def Frame.receiving : Frame → Bool
  | receive _ => true
  | _ => false

-----------------------------------------------------------------------------------------
-- Meters
-----------------------------------------------------------------------------------------

/-- What a store does to a counter: up by one, down by one, or nothing. -/
inductive Effect
  | up
  | down
  | none
deriving DecidableEq

def Effect.apply (n : Nat) : Effect → Nat
  | up => atomicInc n
  | down => atomicDec n
  | none => n

def Effect.sign : Effect → Int
  | up => 1
  | down => -1
  | none => 0

/-- What a step that has this effect does to being counted. -/
def Effect.Moves (before after : Bool) : Effect → Prop
  | up => before = false ∧ after = true
  | down => before = true ∧ after = false
  | none => after = before

/-- The effect of a call's store on a counter of one service. -/
def Effect.on (effect : Write → Effect) (s : Ref) : Option (Ref × Write) → Effect
  | some (r, w) => if r = s then effect w else none
  | Option.none => none

/-- A counter in a service that goes up where a receiver begins to be counted and down where
it ends.
-/
structure Meter (τ : Type) where
  count : TagService → Nat
  effect : Write → Effect
  inside : Ref → Frame → Bool
  count_apply : ∀ ts (w : Write), count (w.apply ts) = (effect w).apply (count ts)
  count_created
    : ∀ key tag permission euid, count (TagService.created key tag permission euid) = 0
  receiving : ∀ {s} {frame : Frame}, inside s frame = true → frame.receiving = true
  pointer : ∀ {s} {frame : Frame}, inside s frame = true → s ∈ frame.pointers
  entered : ∀ s euid c, inside s (Syscall.enter euid c) = false
  callback : ∀ {b : Callback τ} {s w}, b.writes = some (s, w) → effect w = .none
  other
    : ∀ {frame : Frame} {s w},
        frame.receiving = false → frame.writes = some (s, w) → effect w = .none
  moves
    : ∀ {k : Kernel τ} {t f frame} (s : Ref),
        ReceiveMove k t f f.pc frame
        → (Effect.on effect s (Frame.receive f).writes).Moves
            (inside s (.receive f)) (inside s frame)

/-- The counter of a service. -/
def serviceMeter (τ : Type) : Meter τ where
  count ts := ts.threadWaitingMessageCount
  effect
    | .incCount => .up
    | .decCount => .down
    | _ => .none
  inside s frame := frame.registered == some s
  count_apply ts w := by cases w <;> rfl
  count_created _ _ _ _ := rfl
  receiving {s frame} inside := by cases frame <;> first | rfl | cases inside
  pointer inside := registered_mem_pointers (eq_of_beq inside)
  entered s euid c := by cases c <;> rfl
  callback {b s w} writes := by
    obtain ⟨job, r, stage, caller⟩ := b
    cases job <;> cases stage <;> cases writes <;> rfl
  other {frame s w} other writes := by
    cases frame with
    | send f =>
        obtain ⟨tag, level, buffer, size, euid, realSize, stored, ts, pc⟩ := f
        cases pc <;> cases writes <;> rfl
    | ctl f =>
        obtain ⟨tag, command, euid, ts, index, awakened, pc⟩ := f
        cases pc <;> cases writes <;> rfl
    | receive f => cases other
    | _ => cases writes
  moves {k t f frame} s move := by
    obtain ⟨tag, level, buffer, size, euid, ts, realSize, interrupted, copied, pc⟩ := f
    change ReceiveMove k t _ pc frame at move
    cases move with
    | incCount =>
        rcases eq_or_ne ts s with rfl | other
        · simp [Effect.on, Frame.writes, Effect.Moves, Frame.registered, ReceiveFrame.at_]
        · simp [Effect.on, Frame.writes, Effect.Moves, Frame.registered, ReceiveFrame.at_, other]
    | decCount =>
        rcases eq_or_ne ts s with rfl | other
        · simp [Effect.on, Frame.writes, Effect.Moves, Frame.registered, ReceiveFrame.at_]
        · simp [Effect.on, Frame.writes, Effect.Moves, Frame.registered, ReceiveFrame.at_, other]
    | incLevel => simp [Effect.on, Frame.writes, Effect.Moves, Frame.registered, ReceiveFrame.at_]
    | decLevel => simp [Effect.on, Frame.writes, Effect.Moves, Frame.registered, ReceiveFrame.at_]
    | _ => rfl

theorem levelRegistered_mem_pointers {frame : Frame} {s : Ref} {l : Int}
    (registered : frame.levelRegistered = some (s, l))
    : s ∈ frame.pointers := by
  cases frame with
  | receive f =>
      obtain ⟨tag, level, buffer, size, euid, ts, realSize, interrupted, copied, pc⟩ := f
      cases pc <;> cases registered
      all_goals first | exact List.mem_singleton_self _ | exact List.mem_cons_self ..
  | _ => cases registered

/-- The counter of a level. -/
def levelMeter (τ : Type) (l : Int) : Meter τ where
  count ts := (ts.level l).threadWaiting
  effect
    | .incLevel k => if k = l then .up else .none
    | .decLevel k => if k = l then .down else .none
    | _ => .none
  inside s frame := frame.levelRegistered == some (s, l)
  count_apply ts w := by
    cases w
    case incLevel k =>
      rcases eq_or_ne l k with rfl | other
      · simp [Write.apply, Effect.apply]
      · simp [Write.apply, Effect.apply, other, other.symm]
    case decLevel k =>
      rcases eq_or_ne l k with rfl | other
      · simp [Write.apply, Effect.apply]
      · simp [Write.apply, Effect.apply, other, other.symm]
    all_goals
      simp only [Write.apply, TagService.onLevel_level, Effect.apply]
      try split
      all_goals rfl
  count_created _ _ _ _ := rfl
  receiving {s frame} inside := by cases frame <;> first | rfl | cases inside
  pointer inside := levelRegistered_mem_pointers (eq_of_beq inside)
  entered s euid c := by cases c <;> rfl
  callback {b s w} writes := by
    obtain ⟨job, r, stage, caller⟩ := b
    cases job <;> cases stage <;> cases writes <;> rfl
  other {frame s w} other writes := by
    cases frame with
    | send f =>
        obtain ⟨tag, level, buffer, size, euid, realSize, stored, ts, pc⟩ := f
        cases pc <;> cases writes <;> rfl
    | ctl f =>
        obtain ⟨tag, command, euid, ts, index, awakened, pc⟩ := f
        cases pc <;> cases writes <;> rfl
    | receive f => cases other
    | _ => cases writes
  moves {k t f frame} s move := by
    obtain ⟨tag, level, buffer, size, euid, ts, realSize, interrupted, copied, pc⟩ := f
    change ReceiveMove k t _ pc frame at move
    cases move with
    | incLevel =>
        rcases eq_or_ne (ts, level) (s, l) with same | other
        · obtain ⟨rfl, rfl⟩ := Prod.mk.inj same
          simp [Effect.on, Frame.writes, Effect.Moves, Frame.levelRegistered, ReceiveFrame.at_]
        · have apart : ts = s → level ≠ l := fun same => by simpa [same] using other
          by_cases same : ts = s
          · simp [Effect.on, Frame.writes, Effect.Moves, Frame.levelRegistered,
              ReceiveFrame.at_, same, apart same]
          · simp [Effect.on, Frame.writes, Effect.Moves, Frame.levelRegistered,
              ReceiveFrame.at_, same]
    | decLevel =>
        rcases eq_or_ne (ts, level) (s, l) with same | other
        · obtain ⟨rfl, rfl⟩ := Prod.mk.inj same
          simp [Effect.on, Frame.writes, Effect.Moves, Frame.levelRegistered, ReceiveFrame.at_]
        · have apart : ts = s → level ≠ l := fun same => by simpa [same] using other
          by_cases same : ts = s
          · simp [Effect.on, Frame.writes, Effect.Moves, Frame.levelRegistered,
              ReceiveFrame.at_, same, apart same]
          · simp [Effect.on, Frame.writes, Effect.Moves, Frame.levelRegistered,
              ReceiveFrame.at_, same]
    | incCount => simp [Effect.on, Frame.writes, Effect.Moves, Frame.levelRegistered, ReceiveFrame.at_]
    | decCount => simp [Effect.on, Frame.writes, Effect.Moves, Frame.levelRegistered, ReceiveFrame.at_]
    | _ => rfl

-----------------------------------------------------------------------------------------
-- Exact counting
-----------------------------------------------------------------------------------------

/-- A call of `tag_receive` has been one from its first step. -/
theorem receiving_of_exec [DecidableEq τ] {k k' : Kernel τ} {external : Nat} {c : CallId τ}
    {before after : Frame} (exec : k.exec external (before.op c) = some (k', after))
    (later : after.receiving = true)
    : before.receiving = true := by
  have same := Kernel.exec_sameCall exec
  cases after with
  | receive f' => cases before <;> first | rfl | cases same
  | _ => cases later

/-- Fewer than `2 ^ 32` threads are in `tag_receive`. -/
def FewReceivers : Guard (State τ) (Event τ) :=
  fun _ st _ => (census st.thread (fun th => th.frame.receiving = true)).encard < (2 ^ 32 : Nat)

/-- The counter goes with the count, as long as there is room for one more. -/
theorem Effect.counted [DecidableEq τ] {σ : Type} {place : τ → σ} {p : σ → Bool} {n : Nat} {t : τ}
    {x : σ} {effect : Effect} (moves : effect.Moves (p (place t)) (p x))
    (count : Counted place (fun y => p y = true) n) (small : n < 2 ^ 32)
    (room : p (place t) = false → p x = true → n + 1 < 2 ^ 32)
    : effect.apply n < 2 ^ 32
      ∧ Counted (Function.update place t x) (fun y => p y = true) (effect.apply n) := by
  cases effect with
  | none =>
      have same : p x = p (place t) := moves
      exact ⟨small, count.keep (by rw [same])⟩
  | up =>
      obtain ⟨out, now⟩ := moves
      have more : Effect.up.apply n = n + 1 := by
        have bound := room out now
        simp only [Effect.apply, atomicInc]
        split <;> omega
      rw [more]
      exact ⟨room out now, count.join (by simp [out]) now⟩
  | down =>
      obtain ⟨here, gone⟩ := moves
      obtain ⟨rest, fewer⟩ := Nat.exists_eq_succ_of_ne_zero (count.pos here).ne'
      have less : Effect.down.apply n = rest := by
        simp only [Effect.apply, atomicDec]
        split <;> omega
      rw [less]
      rw [fewer] at count
      exact ⟨by omega, count.leave here (by simp [gone])⟩

namespace Meter

variable (m : Meter τ)

/-- The counter of a service is the number of the threads that it counts. -/
def Exact (st : State τ) (s : Ref) : Prop :=
  m.count (st.kernel.service s) < 2 ^ 32
  ∧ Counted st.thread (fun th => m.inside s th.frame = true) (m.count (st.kernel.service s))

theorem outside_of_idle {s : Ref} {frame : Frame} (idle : frame.receiving = false)
    : m.inside s frame = false := by
  cases inside : m.inside s frame with
  | false => rfl
  | true => simp [m.receiving inside] at idle

variable [DecidableEq τ] {st st' : State τ} {e : Event τ} {s : Ref}

/-- A step of a call moves the counter and the thread alike, by cases on the call. -/
theorem moves_of_exec {k k' : Kernel τ} {external : Nat} {c : CallId τ} {before after : Frame}
    (exec : k.exec external (before.op c) = some (k', after)) (s : Ref)
    : (Effect.on m.effect s before.writes).Moves (m.inside s before) (m.inside s after) := by
  cases receives : before.receiving with
  | true =>
      cases before with
      | receive f => exact m.moves s (receiveMove_of_exec exec)
      | _ => cases receives
  | false =>
      have still : after.receiving = false := by
        cases later : after.receiving with
        | false => rfl
        | true => simp [receiving_of_exec exec later] at receives
      have untouched : Effect.on m.effect s before.writes = .none := by
        cases writes : before.writes with
        | none => rfl
        | some stored =>
            simp only [Effect.on, m.other receives writes, ite_self]
      rw [untouched, m.outside_of_idle receives, m.outside_of_idle still]
      rfl

/-- The counter of a service after a step. -/
theorem count_of_step (step : st.step e = some st') (born : s < st.kernel.services)
    (kept : e.reuses ≠ some s)
    : m.count (st'.kernel.service s)
      = (Effect.on m.effect s (st.writes e)).apply (m.count (st.kernel.service s)) := by
  rw [service_of_step step born kept]
  cases st.writes e with
  | none => rfl
  | some stored =>
      obtain ⟨r, w⟩ := stored
      rcases eq_or_ne s r with rfl | other
      · simp only [Effect.on, if_pos, m.count_apply]
      · simp only [Effect.on, if_neg other, if_neg other.symm, Effect.apply]

/-- A step keeps the counter of a service exact, by cases on the event. -/
theorem Exact.step {m : Meter τ} (exact_ : m.Exact st s) (few : FewReceivers [] st e)
    (step : st.step e = some st') (born : s < st.kernel.services) (kept : e.reuses ≠ some s)
    : m.Exact st' s := by
  obtain ⟨small, count⟩ := exact_
  have after := m.count_of_step step born kept
  rw [Exact, after]
  cases State.steps_of_step step with
  | @call t euid c last user =>
      have out : m.inside s (st.thread t).frame = false := m.outside_of_idle (by rw [user]; rfl)
      refine ⟨small, count.keep ?_⟩
      rw [out, m.entered]
  | @run t external k frame exec =>
      refine Effect.counted (p := fun th : Thread => m.inside s th.frame) (m.moves_of_exec exec s) count small
        fun out now => ?_
      have receives : (st.thread t).frame.receiving = true :=
        receiving_of_exec exec (m.receiving now)
      have room := count.room (q := fun th : Thread => th.frame.receiving = true)
        (fun _ here => m.receiving here) (by simp [out]) receives
      exact_mod_cast lt_of_le_of_lt room few
  | @softirq n b k next ready exec =>
      have here : st.callback n = some b := ready
      have quiet : Effect.on m.effect s (st.writes (.softirq n)) = .none := by
        simp only [State.writes, here]
        cases writes : b.writes with
        | none => rfl
        | some stored => simp only [Effect.on, m.callback writes, ite_self]
      rw [quiet]
      exact ⟨small, count⟩
  | _ => exact ⟨small, count⟩

/-- In every run the counter of every service that has not been freed is exact. -/
theorem exact_run {h : History (State τ) (Event τ)} (run : (machine τ).Run FewReceivers h st)
    (born : s < st.kernel.services) (unfreed : st.kernel.freed s = false)
    : m.Exact st s := by
  induction run with
  | start => exact absurd born (Nat.not_lt_zero s)
  | @next h st e st' before few step ih =>
      by_cases old : s < st.kernel.services
      · have alive : st.kernel.freed s = false := unfreed_of_step step unfreed
        exact (ih old alive).step few step old (kept_of_unfreed step alive)
      · obtain ⟨key, tag, permission, euid, created⟩ := created_of_step step old born
        rw [Exact, created, m.count_created]
        refine ⟨by decide, .zero fun t here => ?_⟩
        -- Only its creator points to the service that the step has created.
        have held := m.pointer here
        have pointed : s ∉ (st.thread t).frame.pointers :=
          fun member => old (pointers_born before t s member)
        cases turn_of_step step t with
        | rest _ thread => exact pointed (thread ▸ held)
        | @enter euid c _ _ thread =>
            rw [thread] at here
            simp [m.entered] at here
        | @go external frame event exec thread =>
            rw [thread] at held here
            rcases pointers_of_exec exec s held with member | ⟨i, found⟩ | ⟨-, allocates⟩
            · exact pointed member
            · exact old ((homes_run before).slot found).1
            · have receives := receiving_of_exec exec (m.receiving here)
              rw [op_allocates] at allocates
              cases origin : (st.thread t).frame <;> rw [origin] at receives allocates
              case receive f => exact allocates rfl
              all_goals cases receives

/-- No step decrements a counter at zero. -/
theorem Exact.pos_of_down {m : Meter τ} (exact_ : m.Exact st s) (step : st.step e = some st')
    (down : Effect.on m.effect s (st.writes e) = .down)
    : 0 < m.count (st.kernel.service s) := by
  cases State.steps_of_step step with
  | @run t external k frame exec =>
      have moves := m.moves_of_exec exec s
      rw [show (st.thread t).frame.writes = st.writes (.run t external) from rfl, down] at moves
      exact exact_.2.pos moves.1
  | @softirq n b k next ready exec =>
      have here : st.callback n = some b := ready
      simp only [State.writes, here] at down
      cases writes : b.writes with
      | none => simp [writes, Effect.on] at down
      | some stored =>
          rw [writes] at down
          simp [Effect.on, m.callback writes] at down
  | _ => cases down

/-- What one moment of a run does to a counter on behalf of one call. -/
def tally (c : CallId τ) (s : Ref) : State τ × Event τ → Int
  | (st, .run t _) =>
      if t = c.1 ∧ (st.thread t).calls = c.2 then
        (Effect.on m.effect s (st.thread t).frame.writes).sign
      else 0
  | _ => 0

/-- What a call has taken from a counter and not given back. -/
def net (h : History (State τ) (Event τ)) (c : CallId τ) (s : Ref) : Int :=
  (h.map (m.tally c s)).sum

/-- A call has taken one while it is counted, and given it back when it is not. -/
theorem net_run {G : Guard (State τ) (Event τ)} {h : History (State τ) (Event τ)}
    (run : (machine τ).Run G h st) (c : CallId τ) (s : Ref)
    : m.net h c s
      = if (st.thread c.1).calls = c.2 ∧ m.inside s (st.thread c.1).frame = true then 1 else 0 := by
  refine run.invariant
    (P := fun h st => m.net h c s
      = if (st.thread c.1).calls = c.2 ∧ m.inside s (st.thread c.1).frame = true then 1 else 0)
    ?_ ?_
  · have out : m.inside s (.user none) = false := m.outside_of_idle rfl
    simp [net, machine, State.start, out]
  · intro h st e st' before balance _ step
    have total : m.net ((st, e) :: h) c s = m.tally c s (st, e) + m.net h c s := List.sum_cons
    rw [total, balance]
    cases turn_of_step step c.1 with
    | rest other thread =>
        have silent : m.tally c s (st, e) = 0 := by
          cases e with
          | run t external => exact if_neg fun both => other external (by rw [both.1])
          | _ => rfl
        rw [silent, thread, Int.zero_add]
    | @enter euid call event idle thread =>
        subst event
        have out : m.inside s (st.thread c.1).frame = false := by
          refine m.outside_of_idle ?_
          obtain ⟨last, user⟩ := Frame.eq_user_of_idle idle
          rw [user]
          rfl
        simp [thread, m.entered, out, tally]
    | @go external frame event exec thread =>
        subst event
        have moves := m.moves_of_exec exec s
        rw [thread]
        dsimp only [tally]
        by_cases current : (st.thread c.1).calls = c.2
        · simp only [current, and_true, true_and, if_true]
          generalize Effect.on m.effect s (st.thread c.1).frame.writes = effect at moves
          cases effect with
          | up =>
              obtain ⟨out, now⟩ := moves
              simp [out, now, Effect.sign]
          | down =>
              obtain ⟨here, gone⟩ := moves
              simp [here, gone, Effect.sign]
          | none =>
              have same : m.inside s frame = m.inside s (st.thread c.1).frame := moves
              simp [same, Effect.sign]
        · simp [current]

end Meter

-----------------------------------------------------------------------------------------
-- The sum over the levels
-----------------------------------------------------------------------------------------

section

variable [DecidableEq τ] {G : Guard (State τ) (Event τ)} {h : History (State τ) (Event τ)}
  {st : State τ}

/-- A receiver behind its range check has a level in range. -/
theorem isLevel_run (run : (machine τ).Run G h st)
    : ∀ {t f},
        (st.thread t).frame = .receive f
        → f.pc ≠ .entry
        → (∀ r, f.pc ≠ .ret r)
        → IsLevel f.level := by
  refine run.invariant
    (P := fun _ st => ∀ {t f}, (st.thread t).frame = .receive f → f.pc ≠ .entry
      → (∀ r, f.pc ≠ .ret r) → IsLevel f.level)
    (fun here => by cases here) ?_
  intro h st e st' before inRange _ step t f' after started stays
  cases receiveTurn_of_step step after with
  | rest _ thread => exact inRange (thread ▸ after) started stays
  | @enter euid c _ entered =>
      cases c <;> cases entered
      exact absurd rfl started
  | @move external f pc frame event here calls point move target =>
      obtain ⟨tag, level, buffer, size, euid, ts, realSize, interrupted, copied, pc⟩ := f
      obtain rfl := point
      have same : f'.level = level := by
        cases move <;> cases target <;> rfl
      rw [same]
      cases move with
      | accept level => exact level
      | refuse =>
          obtain rfl := Frame.receive.inj target
          exact absurd rfl (stays _)
      | left =>
          obtain rfl := Frame.receive.inj target
          exact absurd rfl (stays _)
      | print =>
          obtain rfl := Frame.receive.inj target
          exact absurd rfl (stays _)
      | leave => cases target
      | _ => exact inRange here (fun same => by cases same) (fun r same => by cases same)

omit [DecidableEq τ] in
/-- Between its two updates at entry and its two updates at exit a receiver is counted by
both counters or by none, by cases on the program point.
-/
theorem registered_iff_of_settled {frame : Frame} {s : Ref} (settled : frame.updating ≠ some s)
    : frame.registered = some s ↔ ∃ l, frame.levelRegistered = some (s, l) := by
  cases frame with
  | receive f =>
      obtain ⟨tag, level, buffer, size, euid, ts, realSize, interrupted, copied, pc⟩ := f
      cases pc <;> simp_all [Frame.updating, Frame.registered, Frame.levelRegistered]
  | _ => simp [Frame.registered, Frame.levelRegistered]

theorem isLevel_of_levelRegistered (run : (machine τ).Run G h st) {t : τ} {s : Ref} {l : Int}
    (registered : (st.thread t).frame.levelRegistered = some (s, l))
    : IsLevel l := by
  cases here : (st.thread t).frame with
  | receive f =>
      have inRange := isLevel_run run here
      obtain ⟨tag, level, buffer, size, euid, ts, realSize, interrupted, copied, pc⟩ := f
      rw [here] at registered
      cases pc <;> cases registered
      all_goals exact inRange (fun same => by cases same) fun r same => by cases same
  | _ => rw [here] at registered; cases registered

/-- Where nobody is between two updates the level counters add up to that of the service. -/
theorem sum_of_levels (run : (machine τ).Run FewReceivers h st) {s : Ref}
    (born : s < st.kernel.services) (unfreed : st.kernel.freed s = false)
    (settled : ∀ t, (st.thread t).frame.updating ≠ some s)
    : (st.kernel.service s).threadWaitingMessageCount
      = ∑ l ∈ Finset.range MAX_LEVELS.toNat, ((st.kernel.service s).level l).threadWaiting := by
  have service := ((serviceMeter τ).exact_run run born unfreed).2
  have levels (l : Nat) := ((levelMeter τ l).exact_run run born unfreed).2
  have sum := Counted.sum levels (fun {i j th} here there => ?_) MAX_LEVELS.toNat
  · refine (service.congr fun t => ?_).unique sum
    simp only [serviceMeter, levelMeter, beq_iff_eq]
    rw [registered_iff_of_settled (settled t)]
    constructor
    · rintro ⟨l, registered⟩
      obtain ⟨low, high⟩ := isLevel_of_levelRegistered run registered
      exact ⟨l.toNat, (Int.toNat_lt_toNat (by decide)).mpr high, by
        rw [Int.toNat_of_nonneg low, registered]⟩
    · rintro ⟨l, -, registered⟩
      exact ⟨l, registered⟩
  · simp only [levelMeter, beq_iff_eq] at here there
    simpa [here] using there

/-- The counters of a service that has not been freed are exact, none of them is decremented
at zero, every call has given back what it has taken when it is not counted any more, and
the counter of the service is the sum of those of its levels when nobody is between two
updates.
-/
theorem counters_exact (run : (machine τ).Run FewReceivers h st) {s : Ref}
    (born : s < st.kernel.services) (unfreed : st.kernel.freed s = false)
    : (Counted st.thread (fun th => th.frame.registered = some s)
          (st.kernel.service s).threadWaitingMessageCount
        ∧ ∀ l,
            Counted st.thread (fun th => th.frame.levelRegistered = some (s, l))
              ((st.kernel.service s).level l).threadWaiting)
      ∧ (∀ e st',
          st.step e = some st'
          → (st.writes e = some (s, .decCount)
              → 0 < (st.kernel.service s).threadWaitingMessageCount)
            ∧ ∀ l,
                st.writes e = some (s, .decLevel l)
                → 0 < ((st.kernel.service s).level l).threadWaiting)
      ∧ (∀ c : CallId τ,
          ((serviceMeter τ).net h c s
            = if (st.thread c.1).calls = c.2 ∧ (st.thread c.1).frame.registered = some s then 1
              else 0)
          ∧ ∀ l,
              (levelMeter τ l).net h c s
              = if (st.thread c.1).calls = c.2
                    ∧ (st.thread c.1).frame.levelRegistered = some (s, l) then 1
                else 0)
      ∧ ((∀ t, (st.thread t).frame.updating ≠ some s)
          → (st.kernel.service s).threadWaitingMessageCount
            = ∑ l ∈ Finset.range MAX_LEVELS.toNat,
                ((st.kernel.service s).level l).threadWaiting) := by
  have service := (serviceMeter τ).exact_run run born unfreed
  have level (l : Int) := (levelMeter τ l).exact_run run born unfreed
  refine ⟨⟨?_, fun l => ?_⟩, fun e st' step => ⟨fun writes => ?_, fun l writes => ?_⟩,
    fun c => ⟨?_, fun l => ?_⟩, sum_of_levels run born unfreed⟩
  · exact service.2.congr fun t => beq_iff_eq
  · exact (level l).2.congr fun t => beq_iff_eq
  · exact service.pos_of_down step (by rw [writes]; exact if_pos rfl)
  · refine (level l).pos_of_down step ?_
    rw [writes]
    simp [Effect.on, levelMeter]
  · simpa only [serviceMeter, beq_iff_eq] using (serviceMeter τ).net_run run c s
  · simpa only [levelMeter, beq_iff_eq] using (levelMeter τ l).net_run run c s

end

/-- Two threads are few. -/
theorem fewReceivers_of_two (h : History (State (Fin 2)) (Event (Fin 2))) (st : State (Fin 2))
    (e : Event (Fin 2))
    : FewReceivers h st e := by
  have few : (census st.thread (fun th => th.frame.receiving = true)).encard ≤ (2 : Nat) := by
    refine (Set.encard_le_encard (Set.subset_univ _)).trans ?_
    simp
  refine lt_of_le_of_lt few ?_
  exact_mod_cast (by decide : 2 < 2 ^ 32)

/-- A thread sleeps on level 3: the counters of the service and of that level are one. -/
theorem counters_exact_of_sleeper
    : ∃ h st,
        (machine (Fin 2)).Run FewReceivers h st
        ∧ (0 < st.kernel.services ∧ st.kernel.freed 0 = false)
        ∧ (st.thread 1).frame.levelRegistered = some (0, 3)
        ∧ Counted st.thread (fun th => th.frame.levelRegistered = some (0, 3))
            ((st.kernel.service 0).level 3).threadWaiting
        ∧ (st.kernel.service 0).threadWaitingMessageCount
          = ∑ l ∈ Finset.range MAX_LEVELS.toNat,
              ((st.kernel.service 0).level l).threadWaiting := by
  obtain ⟨h, st, run, facts⟩ := Machine.Run.exists_of_replay
    (M := machine (Fin 2)) (G := anyStep)
    (creating 0 1 ++ fallingAsleep 1 1 3)
    (fun _ st => decide (0 < st.kernel.services) && st.kernel.freed 0 == false
      && (st.thread 1).frame.levelRegistered == some (0, 3)
      && decide (∀ t, (st.thread t).frame.updating ≠ some 0))
    (by decide +kernel)
  simp only [Bool.and_eq_true, decide_eq_true_eq, beq_iff_eq] at facts
  obtain ⟨⟨⟨born, unfreed⟩, registered⟩, settled⟩ := facts
  have run := run.mono fun h st e _ => fewReceivers_of_two h st e
  have exact_ := counters_exact run born unfreed
  exact ⟨h, st, run, ⟨born, unfreed⟩, registered, exact_.1.2 3, exact_.2.2.2 settled⟩

end TagExchange
