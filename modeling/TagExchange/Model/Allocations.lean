import TagExchange.Memory.Heap
import TagExchange.Model.DeviceMoves
import TagExchange.Model.Machine

/-! The heap of the module: every `kmalloc`, `kzalloc` and `kfree` of the system calls and of `end`,
beside the state that they share. A pointer is the number of its block, from 1 on; blocks that
belong together have the same number.
-/

namespace TagExchange

open Concurrency Memory

variable {τ : Type}

-----------------------------------------------------------------------------------------
-- Blocks
-----------------------------------------------------------------------------------------

/-- The blocks of the module. The `n`-th creation has a `tag_service`, its level array and its
messages; the texts are those of the creations and of the updates.
-/
inductive HeapBlock
  | allTagServices
  | dm
  | service (n : Nat)
  | level (n : Nat)
  | message (n lev : Nat)
  | content (n : Nat)
  | tempBuffer (n : Nat)
  | afterString (n : Nat)
  | beforeString (n : Nat)
deriving DecidableEq

/-- The number of a block; the two that live as long as the module have none. -/
def HeapBlock.number : HeapBlock → Option Nat
  | allTagServices | dm => none
  | service n | level n | message n _ | content n | tempBuffer n | afterString n
  | beforeString n => some n

/-- The local variables `ts->level` and `lev_created` of a creation that has got its `ts`. -/
structure Creation where
  level : Bool
  levCreated : Nat
deriving DecidableEq

def Creation.complete : Creation := ⟨true, MAX_LEVELS.toNat⟩

/-- The blocks that a creation has got so far. -/
def Creation.blocks (n : Nat) (c : Creation) : List HeapBlock :=
  (List.range c.levCreated).map (.message n) ++ (if c.level then [.level n] else [])
    ++ [.service n]

/-- The blocks of a service. -/
def serviceBlocks (n : Nat) : List HeapBlock :=
  Creation.complete.blocks n

-----------------------------------------------------------------------------------------
-- tag_get
-----------------------------------------------------------------------------------------

/-- The loop over the levels, from `lev` on: it stops at the first message that is not
allocated, and returns `lev_created`.
-/
def createMessages (n : Nat) (fails : Nat → Bool) : Nat → Nat → Heap HeapBlock → Heap HeapBlock × Nat
  | 0, lev, h => (h, lev)
  | rest + 1, lev, h =>
      if fails lev then (h, lev)
      else createMessages n fails rest (lev + 1) (h.kmalloc (.message n lev))

/-- The allocations of one creation. The `i`-th `kzalloc` of the call returns `NULL` where
`fails i`.
-/
def createService (n : Nat) (fails : Nat → Bool) (h : Heap HeapBlock) : Heap HeapBlock × Option Creation :=
  if fails 0 then (h, none)
  else
    let h := h.kmalloc (.service n)
    if fails 1 then (h, some ⟨false, 0⟩)
    else
      let h := h.kmalloc (.level n)
      let (h, levCreated) := createMessages n (fun lev => fails (2 + lev)) MAX_LEVELS.toNat 0 h
      (h, some ⟨true, levCreated⟩)

/-- `fail_no_mem`. Freeing the level array does nothing where the pointer is `NULL`. -/
def failNoMem (n : Nat) (c : Creation) (h : Heap HeapBlock) : Heap HeapBlock :=
  let h := h.kfreeAll ((List.range c.levCreated).map (.message n))
  let h := if c.level then h.kfree (.level n) else h
  h.kfree (.service n)

-----------------------------------------------------------------------------------------
-- The heap beside the shared state
-----------------------------------------------------------------------------------------

/-- The blocks that the local variables of a thread point to. -/
inductive Locals
  | none
  /-- `ts` and what it points to. -/
  | creation (n : Nat) (c : Creation)
  /-- `temp_buffer`, and then `after_string`, `before_string` and `final_string`. -/
  | update (tempBuffer : Nat) (strings : Option Nat)

/-- The state, the heap, and the numbers of the blocks that the services, the texts and the
threads point to.
-/
structure HeapState (τ : Type) where
  base : State τ
  heap : Heap HeapBlock
  next : Nat
  service : Ref → Nat
  content : Nat → Nat
  locals : τ → Locals

/-- The state that `start` leaves: the registry and `dm` are allocated. -/
def HeapState.start : HeapState τ where
  base := .start
  heap := {
    allocated := fun b => b = .allTagServices ∨ b = .dm
    frees := fun _ => 0
  }
  next := 1
  service := fun _ => 0
  content := fun _ => 0
  locals := fun _ => .none

namespace HeapState

variable [DecidableEq τ]

def setLocals (hs : HeapState τ) (t : τ) (l : Locals) : HeapState τ :=
  { hs with locals := Function.update hs.locals t l }

/-- What `tag_get` does to the heap at each program point. -/
def tagGet (hs : HeapState τ) (t : τ) (external : Nat) (f : GetFrame) : HeapState τ :=
  match f.pc with
  | .kzalloc =>
      match createService hs.next (fun i => decide (external ≤ i)) hs.heap with
      | (heap, some c) =>
          { hs with heap, next := hs.next + 1 }.setLocals t (.creation hs.next c)
      | (heap, none) => { hs with heap }
  | .fields =>
      match hs.locals t with
      | .creation n _ =>
          { hs with service := Function.update hs.service hs.base.kernel.services n }.setLocals t
            .none
      | _ => hs
  | .device (.content _) =>
      { hs with
        heap := hs.heap.kmalloc (.content hs.next)
        content := Function.update hs.content hs.base.kernel.dm.buffers hs.next
        next := hs.next + 1 }
  | .ret _ =>
      match hs.locals t with
      | .creation n c => { hs with heap := failNoMem n c hs.heap }.setLocals t .none
      | _ => hs
  | _ => hs

/-- Frees the text that `content[i]` points to, or does nothing where it is `NULL`. -/
def freeContent (hs : HeapState τ) (i : Int) : HeapState τ :=
  match hs.base.kernel.dm.content i with
  | some b => { hs with heap := hs.heap.kfree (.content (hs.content b)) }
  | none => hs

/-- What `update_chrdev` does to the heap. -/
def updateChrdev (hs : HeapState τ) (t : τ) (external : Nat) (tagMinor : Int)
    : UpdatePc → HeapState τ
  | .load =>
      if (hs.base.kernel.tsm.allTagServices tagMinor).isSome then
        { hs with
          heap := hs.heap.kmalloc (.tempBuffer hs.next)
          next := hs.next + 1 }.setLocals t (.update hs.next none)
      else hs
  | .read i _ =>
      match hs.locals t, hs.base.kernel.dm.copied i external with
      | .update n _, some _ =>
          let heap := (hs.heap.kmalloc (.afterString hs.next)).kmalloc (.beforeString hs.next)
          { hs with heap := heap.kmalloc (.content hs.next), next := hs.next + 1 }.setLocals t
            (.update n (some hs.next))
      | _, _ => hs
  | .free i _ => hs.freeContent i
  | .assign _ _ =>
      match hs.locals t with
      | .update _ (some m) =>
          { hs with content := Function.update hs.content hs.base.kernel.dm.buffers m }
      | _ => hs
  | .unlock _ =>
      match hs.locals t with
      | .update n (some m) =>
          let heap := hs.heap.kfreeAll [.beforeString m, .afterString m, .tempBuffer n]
          { hs with heap }.setLocals t .none
      | _ => hs
  | _ => hs

/-- What a step of a thread does to the heap. -/
def run (hs : HeapState τ) (t : τ) (external : Nat) : HeapState τ :=
  match (hs.base.thread t).frame with
  | .get f => hs.tagGet t external f
  | .receive f =>
      match f.pc.update with
      | some pc => hs.updateChrdev t external f.tag pc
      | none => hs
  | .ctl f =>
      match f.pc with
      | .destroy .content => hs.freeContent f.index
      | .kfree => { hs with heap := hs.heap.kfree (.service (hs.service f.ts)) }
      | _ => hs
  | _ => hs

/-- A step, with what it does to the heap. -/
def step (hs : HeapState τ) (e : Event τ) : Option (HeapState τ) :=
  (hs.base.step e).map fun base =>
    match e with
    | .run t external => { hs.run t external with base }
    | _ => { hs with base }

end HeapState

-----------------------------------------------------------------------------------------
-- end
-----------------------------------------------------------------------------------------

/-- The entries that the loops of `end` go through. -/
def tags : List Int := (List.range MAX_TAG_SERVICES.toNat).map Int.ofNat

/-- What `end` frees, in its order: the texts and `dm` in `destroy_driver_and_all_devices`, then the
services and the registry.
-/
def HeapState.endBlocks (hs : HeapState τ) : List HeapBlock :=
  (tags.flatMap fun i =>
    if (hs.base.kernel.tsm.allTagServices i).isSome then
      (hs.base.kernel.dm.content i).toList.map fun b => .content (hs.content b)
    else [])
  ++ [.dm]
  ++ (tags.flatMap fun i =>
    (hs.base.kernel.tsm.allTagServices i).toList.flatMap fun s => serviceBlocks (hs.service s))
  ++ [.allTagServices]

/-- The heap after `end`. -/
def HeapState.afterEnd (hs : HeapState τ) : Heap HeapBlock :=
  hs.heap.kfreeAll hs.endBlocks

/-- The module with its heap as a machine. -/
def heapMachine (τ : Type) [DecidableEq τ] : Machine (HeapState τ) (Event τ) where
  start := .start
  step := HeapState.step

end TagExchange
