import TagExchange.Model.Stores

/-! The moves of `tag_receive`: what each step has found in the shared state, and where it
goes from there.
-/

namespace TagExchange

open Concurrency

variable {τ : Type}

/-- A step of a receiver from the program point to the frame. The `f` is its frame before
the step; its own program point is not looked at.
-/
inductive ReceiveMove (k : Kernel τ) (t : τ) (f : ReceiveFrame) : ReceivePc → Frame → Prop
  -- before the wait
  | refuse : ReceiveMove k t f .entry (f.at_ (.ret (-EINVAL)))
  | accept (level : IsLevel f.level) : ReceiveMove k t f .entry (f.at_ .load)
  | missing (empty : k.tsm.allTagServices f.tag = none)
    : ReceiveMove k t f .load (f.at_ (.ret (-EBADF)))
  | load {s} (found : k.tsm.allTagServices f.tag = some s)
    : ReceiveMove k t f .load ({ f with ts := s }.at_ .lazyDeleted)
  | deleted (deleted : (k.service f.ts).lazyDeleted = true)
    : ReceiveMove k t f .lazyDeleted (f.at_ (.ret (-EBADF)))
  | alive (alive : (k.service f.ts).lazyDeleted = false)
    : ReceiveMove k t f .lazyDeleted (f.at_ .permission)
  | denied : ReceiveMove k t f .permission (f.at_ (.ret (-EACCES)))
  | permitted (allowed : (k.service f.ts).denies f.euid = false)
    : ReceiveMove k t f .permission ({ f with realSize := f.limit }.at_ .incCount)
  | incCount : ReceiveMove k t f .incCount (f.at_ .incLevel)
  | incLevel : ReceiveMove k t f .incLevel (f.at_ (.entered .check))
  | entering {pc pc'} : ReceiveMove k t f (.entered pc) (f.at_ (.entered pc'))
  | entered {pc} : ReceiveMove k t f (.entered pc) (f.at_ .firstReady)
  -- the wait
  | firstReady (ready : ((k.service f.ts).level f.level).messageReady = true)
    : ReceiveMove k t f .firstReady (f.at_ .rcuLock)
  | firstNotReady (ready : ((k.service f.ts).level f.level).messageReady = false)
    : ReceiveMove k t f .firstReady (f.at_ .firstAwake)
  | firstAwake (awake : (k.service f.ts).awakeRequest = true)
    : ReceiveMove k t f .firstAwake (f.at_ .rcuLock)
  | firstNotAwake (awake : (k.service f.ts).awakeRequest = false)
    : ReceiveMove k t f .firstAwake (f.at_ .prepare)
  | prepare
    : ReceiveMove k t f .prepare ({ f with interrupted := k.signalled t }.at_ .testReady)
  | testReady (ready : ((k.service f.ts).level f.level).messageReady = true)
    : ReceiveMove k t f .testReady (f.at_ .finish)
  | testNotReady (ready : ((k.service f.ts).level f.level).messageReady = false)
    : ReceiveMove k t f .testReady (f.at_ .testAwake)
  | testAwake (awake : (k.service f.ts).awakeRequest = true)
    : ReceiveMove k t f .testAwake (f.at_ .finish)
  | testInterrupted (interrupted : f.interrupted = true)
    : ReceiveMove k t f .testAwake (f.at_ .finish)
  | fallAsleep (awake : (k.service f.ts).awakeRequest = false)
    (interrupted : f.interrupted = false)
    : ReceiveMove k t f .testAwake (f.at_ .sleep)
  | wake (woken : t ∈ k.theQueue → k.signalled t = true)
    : ReceiveMove k t f .sleep (f.at_ .prepare)
  | finish : ReceiveMove k t f .finish (f.at_ .rcuLock)
  -- the read-side section
  | rcuLock : ReceiveMove k t f .rcuLock (f.at_ .signal)
  | signal (signalled : k.signalled t = true)
    : ReceiveMove k t f .signal (f.at_ (.rcuUnlock .signal))
  | noSignal (signalled : k.signalled t = false) : ReceiveMove k t f .signal (f.at_ .ready)
  | ready (ready : ((k.service f.ts).level f.level).messageReady = true)
    : ReceiveMove k t f .ready (f.at_ .size)
  | notReady (ready : ((k.service f.ts).level f.level).messageReady = false)
    : ReceiveMove k t f .ready (f.at_ (.rcuUnlock .awake))
  | size
    : ReceiveMove k t f .size
        ({ f with realSize := min ((k.service f.ts).level f.level).size f.realSize }.at_ .copy)
  | copy {n}
    : ReceiveMove k t f .copy
        ({ f with
          copied := (List.range (f.realSize - n)).map ((k.service f.ts).level f.level).message }.at_
            (.rcuUnlock .message))
  | rcuUnlock {x} : ReceiveMove k t f (.rcuUnlock x) (f.at_ (.decCount x))
  -- after the wait
  | decCount {x} : ReceiveMove k t f (.decCount x) (f.at_ (.decLevel x))
  | decLevel {x} : ReceiveMove k t f (.decLevel x) (f.at_ (.left x .check))
  | leaving {x pc pc'} : ReceiveMove k t f (.left x pc) (f.at_ (.left x pc'))
  | leftAwake {pc} : ReceiveMove k t f (.left .awake pc) (f.at_ .print)
  | left {x pc} (other : x ≠ .awake) : ReceiveMove k t f (.left x pc) (f.at_ (.ret x.result))
  | print : ReceiveMove k t f .print (f.at_ (.ret Exit.awake.result))
  | leave {r} : ReceiveMove k t f (.ret r) (.user (some r))

variable [DecidableEq τ] {k k' : Kernel τ} {external : Nat} {frame : Frame}

/-- A receiver makes one of these moves, by cases on its program point. -/
theorem receiveMove_of_exec {t : τ} {f : ReceiveFrame}
    (step : k.exec external (tagReceive t f) = some (k', frame))
    : ReceiveMove k t f f.pc frame := by
  obtain ⟨tag, level, buffer, size, euid, ts, realSize, interrupted, copied, pc⟩ := f
  cases pc
  case entered pc =>
    obtain ⟨next, -, rfl⟩ := Kernel.exec_map_eq_some step
    cases next with
    | go pc' => exact .entering
    | back => exact .entered
  case left x pc =>
    obtain ⟨next, -, rfl⟩ := Kernel.exec_map_eq_some step
    cases next with
    | go pc' => exact .leaving
    | back =>
        dsimp only
        split
        · next awake =>
            subst awake
            exact .leftAwake
        · next other => exact .left other
  case sleep =>
    obtain ⟨woken, step⟩ := Option.ite_none_left_eq_some.mp step
    obtain ⟨-, rfl⟩ := Prod.mk.inj (Option.some.inj step)
    refine .wake fun queued => ?_
    cases signalled : k.signalled t with
    | true => rfl
    | false => exact absurd ⟨queued, signalled⟩ woken
  all_goals obtain ⟨-, rfl⟩ := Prod.mk.inj (Option.some.inj step)
  case entry =>
    dsimp only
    split
    · exact .refuse
    · split
      · exact .refuse
      · next inside =>
          obtain ⟨low, high⟩ := not_or.mp inside
          exact .accept ⟨Int.not_lt.mp low, Int.not_le.mp high⟩
  case load =>
    cases found : k.tsm.allTagServices tag with
    | none => exact .missing found
    | some s => exact .load found
  case lazyDeleted =>
    dsimp only
    split
    · next deleted => exact .deleted deleted
    · next alive => exact .alive (by simpa using alive)
  case permission =>
    dsimp only
    split
    · exact .denied
    · next allowed => exact .permitted (by simpa using fun denied => allowed (.inl denied))
  case incCount => exact .incCount
  case incLevel => exact .incLevel
  case firstReady =>
    dsimp only
    split
    · next ready => exact .firstReady ready
    · next ready => exact .firstNotReady (by simpa using ready)
  case firstAwake =>
    dsimp only
    split
    · next awake => exact .firstAwake awake
    · next awake => exact .firstNotAwake (by simpa using awake)
  case prepare => exact .prepare
  case testReady =>
    dsimp only
    split
    · next ready => exact .testReady ready
    · next ready => exact .testNotReady (by simpa using ready)
  case testAwake =>
    dsimp only
    split
    · next either =>
        rcases either with awake | interrupted
        · exact .testAwake awake
        · exact .testInterrupted interrupted
    · next neither =>
        obtain ⟨awake, calm⟩ := not_or.mp neither
        exact .fallAsleep (by simpa using awake) (by simpa using calm)
  case finish => exact .finish
  case rcuLock => exact .rcuLock
  case signal =>
    dsimp only
    split
    · next signalled => exact .signal signalled
    · next signalled => exact .noSignal (by simpa using signalled)
  case ready =>
    dsimp only
    split
    · next ready => exact .ready ready
    · next ready => exact .notReady (by simpa using ready)
  case size => exact .size
  case copy => exact .copy
  case rcuUnlock x => exact .rcuUnlock
  case decCount x => exact .decCount
  case decLevel x => exact .decLevel
  case print => exact .print
  case ret r => exact .leave

end TagExchange
