import TagExchange.Model.Effects

/-! The stores that reach outside their block. A `tag_send` counts on the page it copies its user's
bytes to, and on the message it copies them on to, and a creation and a removal on the array
`all_tag_services`. The bytes that do not fit go to whatever stands there: here, to the messages.
-/

namespace TagExchange

open Concurrency

variable {τ : Type}

-----------------------------------------------------------------------------------------
-- Blocks
-----------------------------------------------------------------------------------------

/-- A store of bytes into a block: where the block stands and how long it is, the offsets from
`first` up to `last`, and the byte that goes to each of them.
-/
structure Fill where
  address : Int
  length : Int
  first : Int
  last : Int
  byte : Int → UInt8

/-- The store stays in its block. -/
def Fill.Inside (fill : Fill) : Prop :=
  0 ≤ fill.first ∧ fill.last ≤ fill.length

/-- The store reaches an address that is not one of its block. -/
def Fill.reaches (fill : Fill) (a : Int) : Bool :=
  (a < fill.address || fill.address + fill.length ≤ a)
    && (fill.address + fill.first ≤ a && a < fill.address + fill.last)

theorem Fill.Inside.reaches {fill : Fill} (inside : fill.Inside) (a : Int)
    : fill.reaches a = false := by
  obtain ⟨first, last⟩ := inside
  simp only [Fill.reaches, Bool.and_eq_false_iff, Bool.or_eq_false_iff, decide_eq_false_iff_not]
  omega

/-- The size of a `tag_service`. The array of pointers is as long as if it held the services. -/
def TAG_SERVICE_SIZE : Int := 64

/-- The size of a pointer. -/
def POINTER_SIZE : Int := 8

/-- Where the kernel has put the blocks: the messages of each service, the page of each send, and
`all_tag_services`; and the bytes of the pointers that are stored there. No two of the blocks that
last overlap.
-/
structure Layout (τ : Type) where
  message : Ref → Int → Int
  page : CallId τ → Int
  allTagServices : Int
  pointer : Option Ref → Int → UInt8
  apart
    : ∀ s l r k,
        IsLevel l
        → IsLevel k
        → message s l < message r k + MAX_MESSAGE_SIZE
        → message r k < message s l + MAX_MESSAGE_SIZE
        → s = r ∧ l = k
  behind
    : ∀ s l,
        IsLevel l
        → allTagServices + TAG_SERVICE_SIZE * MAX_TAG_SERVICES ≤ message s l
          ∨ message s l + MAX_MESSAGE_SIZE ≤ allTagServices

namespace Layout

variable (layout : Layout τ)

/-- A store into a slot. -/
def slot (i : Int) (ts : Option Ref) : Fill where
  address := layout.allTagServices
  length := TAG_SERVICE_SIZE * MAX_TAG_SERVICES
  first := POINTER_SIZE * i
  last := POINTER_SIZE * i + POINTER_SIZE
  byte := fun j => layout.pointer ts (j - POINTER_SIZE * i)

/-- What a call stores into a block in its next step. -/
def fill (c : CallId τ) (external : Nat) (frame : Frame) : Option Fill :=
  match frame with
  | .send g =>
      match g.pc with
      -- `copy_from_user` stores zeros for the bytes that it cannot copy.
      | .copyFromUser =>
          if external ≤ g.realSize then
            some {
              address := layout.page c
              length := MAX_MESSAGE_SIZE
              first := 0
              last := g.realSize
              byte := fun j => if j < g.realSize - external then g.byte j.toNat else 0
            }
          else
            none
      | .memcpy =>
          some {
            address := layout.message g.ts g.level
            length := MAX_MESSAGE_SIZE
            first := 0
            last := g.stored
            byte := fun j => g.byte j.toNat
          }
      | .terminator =>
          some {
            address := layout.message g.ts g.level
            length := MAX_MESSAGE_SIZE
            first := g.stored
            last := g.stored + 1
            byte := fun _ => 0
          }
      | _ => none
  | _ => (frame.op c).stores.map fun (i, ts) => layout.slot i ts

/-- The bytes that miss their block go to the messages that stand there. -/
def overrun (fill : Fill) (k : Kernel τ) : Kernel τ :=
  { k with
    service := fun s =>
      { k.service s with
        level := fun l =>
          { (k.service s).level l with
            message := fun j =>
              if j < MAX_MESSAGE_SIZE ∧ fill.reaches (layout.message s l + j) then
                fill.byte (layout.message s l + j - fill.address)
              else
                ((k.service s).level l).message j } } }

theorem overrun_inside {fill : Fill} (inside : fill.Inside) (k : Kernel τ)
    : layout.overrun fill k = k := by
  simp only [overrun, inside.reaches, Bool.false_eq_true, and_false, if_false]

-----------------------------------------------------------------------------------------
-- The machine with the overruns
-----------------------------------------------------------------------------------------

variable [DecidableEq τ]

/-- What an event stores into a block. -/
def filled (st : State τ) : Event τ → Option Fill
  | .run t external => layout.fill (t, (st.thread t).calls) external (st.thread t).frame
  | _ => none

def step (st : State τ) (e : Event τ) : Option (State τ) :=
  (st.step e).map fun st' =>
    match layout.filled st e with
    | some fill => { st' with kernel := layout.overrun fill st'.kernel }
    | none => st'

/-- A step that stays in its blocks is the one of the module without overruns. -/
theorem step_inside {st : State τ} {e : Event τ}
    (inside : ∀ fill, layout.filled st e = some fill → fill.Inside)
    : layout.step st e = st.step e := by
  rw [step]
  cases filled : layout.filled st e with
  | none => exact Option.map_id'
  | some fill =>
      simp only [layout.overrun_inside (inside fill filled)]
      exact Option.map_id'

/-- The module where the kernel has put its blocks so. -/
def machine : Machine (State τ) (Event τ) where
  start := .start
  step := layout.step

end Layout

end TagExchange
