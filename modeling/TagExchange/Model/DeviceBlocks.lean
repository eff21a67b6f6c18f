import TagExchange.Model.DeviceText
import TagExchange.Model.Texts

/-! The devices of a run character by character. Each buffer of `dev_manager` has a block beside the
counters that its text is for, and each thread has the block that it has built last.
-/

namespace TagExchange

open Concurrency CStrings

variable {τ : Type}

/-- What the device driver finds in the memory that it allocates, and in its automatic arrays. -/
structure FoundMemory where
  content : Nat → Char
  line : Nat → Char
  update : Found

/-- The blocks of the buffers, and those that the threads have built. -/
structure Blocks (τ : Type) where
  buffer : Nat → Option Block
  built : τ → Option Block

namespace Blocks

variable (x : Blocks τ) (found : FoundMemory) (k : Kernel τ) (t : τ)

/-- The blocks after an access of a thread: a block is stored where its text is. -/
def access : DeviceAccess → Nat → Option Block
  | .writeText i _ => fun b => if k.dm.content i = some b then x.built t else x.buffer b
  | .storeText _ _ => Function.update x.buffer k.dm.buffers (x.built t)
  | _ => x.buffer

/-- The block that a thread has built after its next step. `ts_create_char_device_file` prints the
lines of the service, and `update_chrdev` rewrites what `content[i]` points to.
-/
def build : Frame → Option Block
  | .get f =>
      match f.pc with
      | .device (.print s n rows) =>
          let rows := rows ++ [(n, ((k.service s).level rows.length).threadWaiting)]
          tsCreateCharDeviceText found.content found.line (k.service s).key (k.service s).ownerEuid
            (countedCounters rows) (printedCounters rows)
      | _ => x.built t
  | .receive f =>
      match f.pc.update with
      | some (.read i n) =>
          (k.dm.content i).bind fun b =>
            (x.buffer b).bind fun content => updateChrdevText found.update content f.level.toNat n
      | _ => x.built t
  | _ => x.built t

variable [DecidableEq τ]

/-- The blocks after an event. -/
def next (x : Blocks τ) (found : FoundMemory) (st : State τ) : Event τ → Blocks τ
  | .run t _ =>
      ⟨((st.thread t).frame.device.map (x.access st.kernel t)).getD x.buffer,
        Function.update x.built t (x.build found st.kernel t (st.thread t).frame)⟩
  | _ => x

end Blocks

/-- The blocks at the end of a run, when its `n`-th event finds `found n` in memory. -/
def blocks [DecidableEq τ] (found : Nat → FoundMemory) : History (State τ) (Event τ) → Blocks τ
  | [] => ⟨fun _ => none, fun _ => none⟩
  | (st, e) :: h => (blocks found h).next (found h.length) st e

end TagExchange
