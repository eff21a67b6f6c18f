import TagExchange.Memory.Ownership
import TagExchange.Properties.HeapNumbers
import TagExchange.Properties.Retained

/-! Who owns the blocks of the heap in the runs in which no service is removed: the module, the
services, the devices, and the threads that are creating or updating one.
-/

namespace TagExchange

open Concurrency Memory

variable {τ : Type}

-----------------------------------------------------------------------------------------
-- Texts in use
-----------------------------------------------------------------------------------------

/-- The buffer of a device that has not been freed. -/
def DevManager.inUse (dm : DevManager) (i : Int) : Option Nat :=
  (dm.content i).filter fun b => !(dm.buffer b).freed

theorem DevManager.inUse_iff {dm : DevManager} {i : Int} {b : Nat}
    : dm.inUse i = some b ↔ dm.content i = some b ∧ (dm.buffer b).freed = false := by
  rw [inUse, Option.filter_eq_some_iff, Bool.not_eq_true']

theorem DevManager.inUse_congr {dm dm' : DevManager} {i : Int} (content : dm'.content i = dm.content i)
    (freed : ∀ b, dm.content i = some b → (dm'.buffer b).freed = (dm.buffer b).freed)
    : dm'.inUse i = dm.inUse i := by
  rw [inUse, inUse, content]
  cases found : dm.content i with
  | none => rfl
  | some b => simp only [Option.filter, freed b found]

/-- The buffers in use after an access, by cases on the access. -/
theorem DevManager.inUse_access {dm : DevManager} (x : dm.Separate) (a : DeviceAccess)
    : (dm.access a).inUse
      = match a with
        | .newText i | .storeText i _ => Function.update dm.inUse i (some dm.buffers)
        | .clearText i | .freeText i => Function.update dm.inUse i none
        | _ => dm.inUse := by
  have renewed (i : Int) (text : Option Text)
      : (dm.renew i text).inUse = Function.update dm.inUse i (some dm.buffers) := by
    funext j
    rcases eq_or_ne j i with rfl | other
    · simp [inUse, renew, Option.filter]
    · rw [Function.update_of_ne other]
      refine inUse_congr (Function.update_of_ne other ..) fun b found => ?_
      exact congrArg _ (Function.update_of_ne (Nat.ne_of_lt (x.bound found)) ..)
  cases a with
  | lock i => rfl
  | unlock i => rfl
  | newText i => exact renewed i none
  | storeText i text => exact renewed i text
  | clearText i =>
      funext j
      rcases eq_or_ne j i with rfl | other
      · simp [inUse, access, clear, Option.filter]
      · simp [inUse, access, clear, other]
  | writeText i text =>
      funext j
      refine inUse_congr (by rw [access, change_content]) fun b _ => ?_
      rw [access, change_buffer]
      split <;> rfl
  | freeText i =>
      funext j
      dsimp only
      rcases eq_or_ne j i with rfl | other
      · simp only [inUse, access, change_content, change_buffer, Function.update_self]
        cases found : dm.content j <;> simp [Option.filter]
      · rw [Function.update_of_ne other]
        refine inUse_congr (by rw [access, change_content]) fun b found => ?_
        rw [access, change_buffer, if_neg fun there => other (x.apart found there)]

-----------------------------------------------------------------------------------------
-- Owners
-----------------------------------------------------------------------------------------

/-- Who has to free a block. -/
inductive Owner (τ : Type)
  | registry
  | driver
  | service (s : Ref)
  | device (i : Int)
  | thread (t : τ)

/-- What the blocks of all owners are found with: the services that exist, the numbers of their blocks
and of those of the texts in use, and the blocks that threads have in local variables.
-/
structure Holdings (τ : Type) where
  services : Nat
  service : Ref → Nat
  inUse : Int → Option Nat
  content : Nat → Nat
  blocks : τ → List HeapBlock

def Holdings.Belongs (x : Holdings τ) : Owner τ → HeapBlock → Prop
  | .registry, b => b = .allTagServices
  | .driver, b => b = .dm
  | .service s, b => s < x.services ∧ b ∈ serviceBlocks (x.service s)
  | .device i, b => ∃ c, x.inUse i = some c ∧ b = .content (x.content c)
  | .thread t, b => b ∈ x.blocks t

/-- A receiver that has assigned its text to the device. -/
def Frame.assigned : Frame → Bool
  | receive f =>
      match f.pc.update with
      | some (.unlock _) => true
      | _ => false
  | _ => false

/-- The blocks that local variables point to, `final_string` among them until it is assigned. -/
def Locals.blocks (assigned : Bool) : Locals → List HeapBlock
  | none => []
  | creation n c => c.blocks n
  | update n Option.none => [.tempBuffer n]
  | update n (some m) =>
      [.beforeString m, .afterString m, .tempBuffer n] ++ if assigned then [] else [.content m]

def HeapState.holdings (hs : HeapState τ) : Holdings τ where
  services := hs.base.kernel.services
  service := hs.service
  inUse := hs.base.kernel.dm.inUse
  content := hs.content
  blocks := fun t => (hs.locals t).blocks (hs.base.thread t).frame.assigned

-----------------------------------------------------------------------------------------
-- Blocks change hands
-----------------------------------------------------------------------------------------

namespace Holdings

variable [DecidableEq τ] {x : Holdings τ} {h h' : Heap HeapBlock} {t : τ} {n c : Nat} {i : Int}
  {bs : List HeapBlock} {q : Owner τ} {b : HeapBlock}

/-- The blocks that a thread has in local variables are others. -/
def setBlocks (x : Holdings τ) (t : τ) (bs : List HeapBlock) : Holdings τ :=
  { x with blocks := Function.update x.blocks t bs }

theorem belongs_setBlocks_self : (x.setBlocks t bs).Belongs (.thread t) b ↔ b ∈ bs := by
  simp only [Belongs, setBlocks, Function.update_self]

theorem belongs_setBlocks (other : q ≠ .thread t)
    : (x.setBlocks t bs).Belongs q b ↔ x.Belongs q b := by
  cases q with
  | thread u =>
      have apart : u ≠ t := fun same => other (congrArg _ same)
      simp only [Belongs, setBlocks, Function.update_of_ne apart]
  | _ => rfl

/-- A thread allocates blocks. -/
theorem allocate (owned : Owned h x.Belongs) (new : List HeapBlock)
    (live : ∀ b, h'.Live b ↔ h.Live b ∨ b ∈ new) (frees : h'.frees = h.frees)
    (fresh : ∀ b ∈ new, h.Fresh b) (taken : ∀ b, b ∈ bs ↔ b ∈ x.blocks t ∨ b ∈ new)
    : Owned h' (x.setBlocks t bs).Belongs :=
  owned.grow (o := Owner.thread t) (· ∈ new) live frees (fun b member => (fresh b member).not_live)
    (fun b => belongs_setBlocks_self.trans (taken b)) fun _ other _ => belongs_setBlocks other

/-- A thread frees blocks of its own. -/
theorem release (owned : Owned h x.Belongs) (freed : List HeapBlock) (nodup : freed.Nodup)
    (all : ∀ b, b ∈ x.blocks t ↔ b ∈ freed)
    : Owned (h.kfreeAll freed) (x.setBlocks t []).Belongs :=
  owned.kfreeAll (o := Owner.thread t) nodup (fun b member => (all b).mpr member)
    (fun b => belongs_setBlocks_self.trans
      (by
        simp only [Belongs, all, List.not_mem_nil, false_iff]
        exact fun both => both.2 both.1))
    fun _ other _ => belongs_setBlocks other

/-- A receiver allocates its first buffer. -/
theorem owned_tempBuffer (owned : Owned h x.Belongs) (fresh : h.Fresh (.tempBuffer n))
    (nothing : x.blocks t = [])
    : Owned (h.kmalloc (.tempBuffer n)) (x.setBlocks t [.tempBuffer n]).Belongs := by
  have live (b : HeapBlock)
      : (h.kmalloc (.tempBuffer n)).Live b ↔ h.Live b ∨ b ∈ [HeapBlock.tempBuffer n] := by
    rw [Heap.live_kmalloc fresh, or_comm, List.mem_singleton]
  exact allocate owned _ live rfl (fun b member => List.mem_singleton.mp member ▸ fresh)
    fun b => by simp [nothing]

/-- It allocates three more, under one number. -/
theorem owned_strings {m : Nat} (owned : Owned h x.Belongs)
    (fresh : ∀ b : HeapBlock, b.number = some m → h.Fresh b) (mine : x.blocks t = [.tempBuffer n])
    : Owned (((h.kmalloc (.afterString m)).kmalloc (.beforeString m)).kmalloc (.content m))
        (x.setBlocks t ((Locals.update n (some m)).blocks false)).Belongs := by
  have second : (h.kmalloc (.afterString m)).Fresh (.beforeString m) :=
    (Heap.fresh_kmalloc fun same => by cases same).mpr (fresh _ rfl)
  have third : ((h.kmalloc (.afterString m)).kmalloc (.beforeString m)).Fresh (.content m) :=
    (Heap.fresh_kmalloc fun same => by cases same).mpr
      ((Heap.fresh_kmalloc fun same => by cases same).mpr (fresh _ rfl))
  have live (b : HeapBlock)
      : (((h.kmalloc (.afterString m)).kmalloc (.beforeString m)).kmalloc (.content m)).Live b
        ↔ h.Live b ∨ b ∈ [HeapBlock.content m, .beforeString m, .afterString m] := by
    rw [Heap.live_kmalloc third, Heap.live_kmalloc second, Heap.live_kmalloc (fresh _ rfl)]
    simp only [List.mem_cons, List.not_mem_nil, or_false]
    grind
  have new (b : HeapBlock) (member : b ∈ [HeapBlock.content m, .beforeString m, .afterString m])
      : h.Fresh b := by
    refine fresh b ?_
    simp only [List.mem_cons, List.not_mem_nil, or_false] at member
    rcases member with rfl | rfl | rfl <;> rfl
  have taken (b : HeapBlock)
      : b ∈ (Locals.update n (some m)).blocks false
        ↔ b ∈ x.blocks t ∨ b ∈ [HeapBlock.content m, .beforeString m, .afterString m] := by
    simp only [mine, Locals.blocks, Bool.false_eq_true, if_false, List.cons_append,
      List.nil_append, List.mem_cons, List.not_mem_nil, or_false]
    grind
  exact allocate owned _ live rfl new taken

/-- A creation fills the fields of a service with its blocks. -/
def fill (x : Holdings τ) (n : Nat) : Holdings τ :=
  { x with services := x.services + 1, service := Function.update x.service x.services n }

theorem owned_fill (owned : Owned h x.Belongs) (complete : x.blocks t = serviceBlocks n)
    : Owned h ((x.fill n).setBlocks t []).Belongs := by
  refine owned.move (o := Owner.thread t) (p := Owner.service x.services) (· ∈ serviceBlocks n)
    (fun same => by cases same) (fun b member => (congrArg (b ∈ ·) complete).mpr member)
    (fun b => ?_) (fun b => ?_)
    fun q first second b => ?_
  · refine belongs_setBlocks_self.trans ?_
    simp only [Belongs, complete, List.not_mem_nil, false_iff]
    exact fun both => both.2 both.1
  · refine (belongs_setBlocks fun same => by cases same).trans ?_
    simp [Belongs, fill]
  · refine (belongs_setBlocks first).trans ?_
    cases q with
    | service s =>
        have other : s ≠ x.services := fun same => second (congrArg _ same)
        have sooner : s < x.services + 1 ↔ s < x.services :=
          ⟨fun le => Nat.lt_of_le_of_ne (Nat.le_of_lt_succ le) other, Nat.lt_succ_of_lt⟩
        simp only [Belongs, fill, Function.update_of_ne other, sooner]
    | _ => rfl

/-- A device points to a text under a number. -/
def point (x : Holdings τ) (i : Int) (c n : Nat) : Holdings τ :=
  { x with
    inUse := Function.update x.inUse i (some c)
    content := Function.update x.content c n }

omit [DecidableEq τ] in
theorem belongs_point_self : (x.point i c n).Belongs (.device i) b ↔ b = .content n := by
  simp [Belongs, point]

omit [DecidableEq τ] in
/-- The texts of the other devices stay with them. -/
theorem belongs_point (unused : ∀ j, x.inUse j ≠ some c) (other : q ≠ .device i)
    : (x.point i c n).Belongs q b ↔ x.Belongs q b := by
  cases q with
  | device j =>
      have apart : j ≠ i := fun same => other (congrArg _ same)
      simp only [Belongs, point, Function.update_of_ne apart]
      refine exists_congr fun d => and_congr_right fun found => ?_
      have fresh : d ≠ c := fun same => unused j (same ▸ found)
      rw [Function.update_of_ne fresh]
  | _ => rfl

omit [DecidableEq τ] in
/-- A creation allocates the text of its device. -/
theorem owned_newText (owned : Owned h x.Belongs) (fresh : h.Fresh (.content n))
    (unused : ∀ j, x.inUse j ≠ some c) (nothing : x.inUse i = none)
    : Owned (h.kmalloc (.content n)) (x.point i c n).Belongs :=
  owned.kmalloc (o := Owner.device i) fresh
    (fun b => belongs_point_self.trans (by simp [Belongs, nothing]))
    fun _ other _ => belongs_point unused other

/-- A receiver points a device without a text to the one that it has built. -/
theorem owned_assign {m : Nat} (owned : Owned h x.Belongs) (unused : ∀ j, x.inUse j ≠ some c)
    (nothing : x.inUse i = none) (mine : x.blocks t = (Locals.update n (some m)).blocks false)
    : Owned h ((x.point i c m).setBlocks t ((Locals.update n (some m)).blocks true)).Belongs := by
  have left (b : HeapBlock)
      : b ∈ (Locals.update n (some m)).blocks true ↔ b ∈ x.blocks t ∧ b ≠ .content m := by
    simp only [mine, Locals.blocks, if_true, Bool.false_eq_true, if_false, List.append_nil,
      List.mem_append, List.mem_cons, List.not_mem_nil, or_false]
    constructor
    · rintro (rfl | rfl | rfl) <;> exact ⟨by simp, fun same => by cases same⟩
    · rintro ⟨member, other⟩
      exact member.resolve_right other
  have held : .content m ∈ x.blocks t := by simp [mine, Locals.blocks]
  refine owned.move (o := Owner.thread t) (p := Owner.device i) (· = .content m)
    (fun same => by cases same) (fun b same => same ▸ held)
    (fun b => belongs_setBlocks_self.trans (left b)) (fun b => ?_) fun q first second b => ?_
  · refine (belongs_setBlocks fun same => by cases same).trans (belongs_point_self.trans ?_)
    simp [Belongs, nothing]
  · exact (belongs_setBlocks first).trans (belongs_point unused second)

omit [DecidableEq τ] in
/-- A receiver frees the text of a device. -/
theorem owned_freeText (owned : Owned h x.Belongs) (found : x.inUse i = some c)
    : Owned (h.kfree (.content (x.content c)))
        { x with inUse := Function.update x.inUse i none }.Belongs := by
  refine owned.kfree (o := Owner.device i) ⟨c, found, rfl⟩ (fun b => ?_) fun q other b => ?_
  · simp [Belongs, found]
  · cases q with
    | device j =>
        have apart : j ≠ i := fun same => other (congrArg _ same)
        simp only [Belongs, Function.update_of_ne apart]
    | _ => rfl

end Holdings

-----------------------------------------------------------------------------------------
-- Steps
-----------------------------------------------------------------------------------------

/-- Only `final_string` changes hands by a change of frame. -/
theorem Locals.blocks_congr {l : Locals} (small : ∀ n m, l ≠ .update n (some m)) (a b : Bool)
    : l.blocks a = l.blocks b := by
  cases l with
  | none => rfl
  | creation n c => rfl
  | update n strings =>
      cases strings with
      | none => rfl
      | some m => exact absurd rfl (small n m)

theorem frees_createMessages {n rest lev : Nat} {fails : Nat → Bool} {heap : Heap HeapBlock}
    : (createMessages n fails rest lev heap).1.frees = heap.frees := by
  induction rest generalizing lev heap with
  | zero => rfl
  | succ rest ih =>
      unfold createMessages
      split
      · rfl
      · exact ih

/-- A creation frees nothing before it fails. -/
theorem frees_createService (n : Nat) (fails : Nat → Bool) (heap : Heap HeapBlock)
    : (createService n fails heap).1.frees = heap.frees := by
  unfold createService
  split
  · rfl
  · split
    · rfl
    · exact frees_createMessages

/-- The roll-back frees the blocks of the creation, in their order. -/
theorem failNoMem_eq (n : Nat) (c : Creation) (heap : Heap HeapBlock)
    : failNoMem n c heap = heap.kfreeAll (c.blocks n) := by
  obtain ⟨level, levCreated⟩ := c
  cases level <;>
    simp [failNoMem, Creation.blocks, Heap.kfreeAll, List.foldl_append]

theorem blocks_nodup (n : Nat) (c : Creation) : (c.blocks n).Nodup := by
  obtain ⟨level, levCreated⟩ := c
  have messages : ((List.range levCreated).map (HeapBlock.message n)).Nodup :=
    List.nodup_range.map fun a b same => by cases same; rfl
  cases level <;> simp [Creation.blocks, List.nodup_append, messages]

variable [DecidableEq τ]

/-- Who owns what after a step of a thread, from its heap, its kernel and its frame. -/
def HeapState.leaves (hs : HeapState τ) (blocks : τ → List HeapBlock) (k : Kernel τ) (t : τ)
    (frame : Frame)
    : Holdings τ :=
  (Holdings.mk k.services hs.service k.dm.inUse hs.content blocks).setBlocks t
    ((hs.locals t).blocks frame.assigned)

variable {hs hs' : HeapState τ} {k : Kernel τ} {t : τ} {external : Nat} {frame : Frame}

/-- The step changes only what the local variables of its thread point to. -/
theorem leaves_setLocals {heap : Heap HeapBlock} {next : Nat} {l : Locals}
    (services : k.services = hs.base.kernel.services) (inUse : k.dm.inUse = hs.base.kernel.dm.inUse)
    : ({ hs with heap, next }.setLocals t l).leaves hs.holdings.blocks k t frame
      = hs.holdings.setBlocks t (l.blocks frame.assigned) := by
  rw [HeapState.leaves, services, inUse]
  simp only [HeapState.setLocals, Function.update_self]
  rfl

/-- The step changes nothing that owners are found with. -/
theorem owned_of_quiet (owned : Owned hs.heap hs.holdings.Belongs)
    (services : k.services = hs.base.kernel.services)
    (inUse : k.dm.inUse = hs.base.kernel.dm.inUse)
    (blocks : (hs.locals t).blocks frame.assigned = hs.holdings.blocks t)
    : Owned hs.heap (hs.leaves hs.holdings.blocks k t frame).Belongs := by
  have same : hs.leaves hs.holdings.blocks k t frame = hs.holdings := by
    rw [HeapState.leaves, services, inUse, blocks, Holdings.setBlocks, Function.update_eq_self]
    rfl
  rw [same]
  exact owned

/-- A step of a call that touches no text leaves the texts in use. -/
theorem inUse_of_exec (separate : hs.base.kernel.dm.Separate)
    (exec : hs.base.kernel.exec external (hs.base.op t) = some (k, frame))
    : k.dm.inUse
      = match (hs.base.thread t).frame.device with
        | some (.newText i) | some (.storeText i _) =>
            Function.update hs.base.kernel.dm.inUse i (some hs.base.kernel.dm.buffers)
        | some (.clearText i) | some (.freeText i) =>
            Function.update hs.base.kernel.dm.inUse i none
        | _ => hs.base.kernel.dm.inUse := by
  rw [Kernel.exec_dm exec, State.op, op_device]
  cases (hs.base.thread t).frame.device with
  | none => rfl
  | some access =>
      dsimp only
      rw [DevManager.inUse_access separate]
      cases access <;> rfl

theorem services_of_exec (exec : hs.base.kernel.exec external (hs.base.op t) = some (k, frame))
    (allocates : (hs.base.thread t).frame.allocates = none)
    : k.services = hs.base.kernel.services :=
  Kernel.exec_allocates_none exec (by rw [State.op, op_allocates, allocates])

/-- A step of `tag_get`, by cases on its program point: it allocates the blocks of a service, fills
the service with them, frees them, or allocates the text of the device.
-/
theorem owned_of_get {f : GetFrame} (here : (hs.base.thread t).frame = .get f)
    (numbered : hs.Numbered) (owns : (Frame.get f).Owns (hs.locals t))
    (separate : hs.base.kernel.dm.Separate)
    (erects : ∀ i ts, (Frame.get f).erects = some (i, ts) → hs.base.kernel.dm.inUse i = none)
    (unlost : ∀ i, (Frame.get f).device ≠ some (.clearText i))
    (owned : Owned hs.heap hs.holdings.Belongs)
    (exec : hs.base.kernel.exec external (hs.base.op t) = some (k, frame))
    : Owned (hs.tagGet t external f).heap
        ((hs.tagGet t external f).leaves hs.holdings.blocks k t frame).Belongs := by
  have inUse := inUse_of_exec separate exec
  have services := services_of_exec exec
  have same := Kernel.exec_sameCall exec
  rw [here] at inUse services same
  have unassigned : frame.assigned = false := by
    cases frame <;> first | rfl | cases same
  have blocks : hs.holdings.blocks t = (hs.locals t).blocks false := by
    simp only [HeapState.holdings, here]
    rfl
  have quiet (allocates : (Frame.get f).allocates = none)
      (texts : k.dm.inUse = hs.base.kernel.dm.inUse)
      : Owned hs.heap (hs.leaves hs.holdings.blocks k t frame).Belongs :=
    owned_of_quiet owned (services allocates) texts (by rw [blocks, unassigned])
  obtain ⟨key, command, permission, euid, tag, ts, pc⟩ := f
  cases pc
  case kzalloc =>
    have nothing : hs.locals t = .none := owns
    rw [nothing] at blocks
    have fresh (b : HeapBlock) (number : b.number = some hs.next) : hs.heap.Fresh b :=
      numbered.fresh number (Nat.le_refl _)
    have live (b : HeapBlock) := live_createService (b := b) (fun i => decide (external ≤ i)) fresh
    have frees := frees_createService hs.next (fun i => decide (external ≤ i)) hs.heap
    unfold HeapState.tagGet
    dsimp only
    split
    · next heap c creation =>
        simp only [creation, Option.some.injEq, exists_eq_left'] at live frees
        have taken (b : HeapBlock)
            : b ∈ c.blocks hs.next ↔ b ∈ hs.holdings.blocks t ∨ b ∈ c.blocks hs.next := by
          simp [blocks, Locals.blocks]
        have allocated := Holdings.allocate owned (c.blocks hs.next) live frees
          (fun b member => fresh b (number_of_mem_blocks member)) taken
        rw [leaves_setLocals (services rfl) inUse]
        exact allocated
    · next heap creation =>
        have unchanged := createService_none (congrArg Prod.snd creation)
        rw [creation] at unchanged
        obtain rfl : heap = hs.heap := unchanged
        exact quiet rfl inUse
  case fields =>
    obtain ⟨n, local_⟩ := owns
    rw [local_] at blocks
    have created := (Kernel.exec_allocates exec (by rw [State.op, op_allocates, here]; rfl)).1
    have after
        : (hs.tagGet t external ⟨key, command, permission, euid, tag, ts, .fields⟩).leaves
            hs.holdings.blocks k t frame
          = (hs.holdings.fill n).setBlocks t [] := by
      simp only [HeapState.tagGet, local_, HeapState.leaves, HeapState.setLocals,
        Function.update_self, Locals.blocks, created, inUse]
      rfl
    have heap
        : (hs.tagGet t external ⟨key, command, permission, euid, tag, ts, .fields⟩).heap
          = hs.heap := by
      simp only [HeapState.tagGet, local_, HeapState.setLocals]
    rw [after, heap]
    exact Holdings.owned_fill owned blocks
  case device pc =>
    cases pc
    case content ts' =>
      have nothing : hs.locals t = .none := owns
      have unused (j : Int) : hs.holdings.inUse j ≠ some hs.base.kernel.dm.buffers := fun found =>
        absurd (separate.bound (DevManager.inUse_iff.mp found).1) (Nat.lt_irrefl _)
      have pointed := Holdings.owned_newText owned
        (numbered.fresh (b := .content hs.next) rfl (Nat.le_refl _)) unused (erects tag ts' rfl)
      have after
          : (hs.tagGet t external
              ⟨key, command, permission, euid, tag, ts, .device (.content ts')⟩).leaves
                hs.holdings.blocks k t frame
            = hs.holdings.point tag hs.base.kernel.dm.buffers hs.next := by
        have same : Function.update hs.holdings.blocks t ((hs.locals t).blocks frame.assigned)
            = hs.holdings.blocks := by
          rw [unassigned, ← blocks, Function.update_eq_self]
        simp only [HeapState.tagGet, HeapState.leaves, Holdings.setBlocks, services rfl, inUse, same]
        rfl
      rw [after]
      exact pointed
    case noContent => exact absurd rfl (unlost tag)
    all_goals exact quiet rfl inUse
  case ret r =>
    unfold HeapState.tagGet
    dsimp only
    split
    · next n c local_ =>
        rw [local_] at blocks
        rw [failNoMem_eq]
        have released := Holdings.release (t := t) owned _ (blocks_nodup n c) fun b => by
          rw [blocks]
          rfl
        rw [leaves_setLocals (services rfl) inUse]
        exact released
    · exact quiet rfl inUse
  all_goals exact quiet rfl inUse

/-- A step of `update_chrdev`, by cases on the move: it allocates its buffers, frees the text of the
device, gives the device the new one, and frees the buffers that are left.
-/
theorem owned_of_update {f f' : ReceiveFrame} {pc : UpdatePc} {next : Then UpdatePc Unit}
    (here : (hs.base.thread t).frame = .receive f) (inside : f.pc.update = some pc)
    (numbered : hs.Numbered) (owns : (Frame.receive f).Owns (hs.locals t))
    (separate : hs.base.kernel.dm.Separate)
    (freeing : ∀ i text, pc = .free i text → ∃ b, hs.base.kernel.dm.inUse i = some b)
    (assigning : ∀ i text, pc = .assign i text → hs.base.kernel.dm.inUse i = none)
    (owned : Owned hs.heap hs.holdings.Belongs)
    (exec : hs.base.kernel.exec external (hs.base.op t) = some (k, .receive f'))
    (move : UpdateMove hs.base.kernel external f.tag f.level pc next) (updated : f.Updated f' next)
    : Owned (hs.updateChrdev t external f.tag pc).heap
        ((hs.updateChrdev t external f.tag pc).leaves hs.holdings.blocks k t
          (.receive f')).Belongs := by
  have inUse := inUse_of_exec separate exec
  have services := services_of_exec exec (by rw [here]; rfl)
  have blocks : hs.holdings.blocks t = (hs.locals t).blocks (Frame.receive f).assigned := by
    simp only [HeapState.holdings, here]
  simp only [here, Frame.device, inside] at inUse
  simp only [Frame.Owns, inside] at owns
  have unassigned (other : ∀ i, next ≠ .go (.unlock i)) : (Frame.receive f').assigned = false := by
    obtain ⟨-, -, -, update⟩ := updated
    cases next with
    | back => simp only [Frame.assigned, update]
    | go pc' =>
        have update : f'.pc.update = some pc' := update
        simp only [Frame.assigned, update]
        split
        · next i same => cases same; exact absurd rfl (other i)
        · rfl
  have quiet (small : ∀ n m, hs.locals t ≠ .update n (some m))
      (texts : k.dm.inUse = hs.base.kernel.dm.inUse)
      : Owned hs.heap (hs.leaves hs.holdings.blocks k t (.receive f')).Belongs :=
    owned_of_quiet owned services texts ((Locals.blocks_congr small _ _).trans blocks.symm)
  have none_ (nothing : hs.locals t = .none) (n m : Nat) : hs.locals t ≠ .update n (some m) := by
    rw [nothing]
    exact fun same => by cases same
  have fresh (b : HeapBlock) (number : b.number = some hs.next) : hs.heap.Fresh b :=
    numbered.fresh number (Nat.le_refl _)
  have few (only : ∃ n, hs.locals t = .update n none) (n m : Nat)
      : hs.locals t ≠ .update n (some m) := by
    obtain ⟨n, only⟩ := only
    rw [only]
    exact fun same => by cases same
  cases move with
  | reject => exact quiet (none_ owns) inUse
  | accept => exact quiet (none_ owns) inUse
  | missing empty =>
      simp only [HeapState.updateChrdev, empty]
      exact quiet (none_ owns) inUse
  | load found =>
      have nothing : hs.locals t = .none := owns
      rw [nothing] at blocks
      simp only [HeapState.updateChrdev, found, Option.isSome_some, if_true]
      rw [leaves_setLocals services inUse]
      exact Holdings.owned_tempBuffer owned (fresh _ rfl) blocks
  | waiting => exact quiet (few owns) inUse
  | index => exact quiet (few owns) inUse
  | lock => exact quiet (few owns) inUse
  | blank nothing =>
      obtain ⟨n, local_⟩ := owns
      simp only [HeapState.updateChrdev, local_, nothing]
      exact quiet (few ⟨n, local_⟩) inUse
  | @read i count text found =>
      obtain ⟨n, local_⟩ := owns
      rw [local_] at blocks
      have unassigned := unassigned fun j same => by cases same
      simp only [HeapState.updateChrdev, local_, found]
      rw [leaves_setLocals services inUse, unassigned]
      exact Holdings.owned_strings owned fresh blocks
  | @free i text =>
      obtain ⟨n, m, local_⟩ := owns
      obtain ⟨c, found⟩ := freeing i text rfl
      have unassigned := unassigned fun j same => by cases same
      have same : Function.update hs.holdings.blocks t
          ((hs.locals t).blocks (Frame.receive f').assigned) = hs.holdings.blocks := by
        have before : (Frame.receive f).assigned = false := by
          simp only [Frame.assigned, inside]
        rw [unassigned, ← before, ← blocks, Function.update_eq_self]
      have content := (DevManager.inUse_iff.mp found).1
      have after
          : (hs.freeContent i).leaves hs.holdings.blocks k t (.receive f')
            = { hs.holdings with inUse := Function.update hs.holdings.inUse i none } := by
        simp only [HeapState.freeContent, content, HeapState.leaves, Holdings.setBlocks, services,
          inUse, same]
        rfl
      show Owned (hs.freeContent i).heap ((hs.freeContent i).leaves _ k t _).Belongs
      rw [after]
      simp only [HeapState.freeContent, content]
      exact Holdings.owned_freeText owned found
  | @assign i text =>
      obtain ⟨n, m, local_⟩ := owns
      have assigned : (Frame.receive f').assigned = true := by
        have update : f'.pc.update = some (.unlock i) := updated.update
        simp only [Frame.assigned, update]
      have before : (Frame.receive f).assigned = false := by simp only [Frame.assigned, inside]
      rw [local_, before] at blocks
      have unused (j : Int) : hs.holdings.inUse j ≠ some hs.base.kernel.dm.buffers := fun found =>
        absurd (separate.bound (DevManager.inUse_iff.mp found).1) (Nat.lt_irrefl _)
      have pointed := Holdings.owned_assign owned unused (assigning i text rfl) blocks
      have after
          : (hs.updateChrdev t external f.tag (.assign i text)).leaves hs.holdings.blocks k t (.receive f')
            = (hs.holdings.point i hs.base.kernel.dm.buffers m).setBlocks t
                ((Locals.update n (some m)).blocks true) := by
        simp only [HeapState.updateChrdev, local_, HeapState.leaves, services, inUse, assigned]
        rfl
      rw [after]
      simp only [HeapState.updateChrdev, local_]
      exact pointed
  | @unlock i =>
      obtain ⟨n, m, local_⟩ := owns
      have before : (Frame.receive f).assigned = true := by simp only [Frame.assigned, inside]
      rw [local_, before] at blocks
      have released := Holdings.release (t := t) owned
        [.beforeString m, .afterString m, .tempBuffer n] (by simp)
        fun b => by rw [blocks]; simp [Locals.blocks]
      simp only [HeapState.updateChrdev, local_]
      rw [leaves_setLocals services inUse]
      exact released

omit [DecidableEq τ] in
/-- What the page of a device says about the buffer in use. -/
theorem DevManager.inUse_of_page {dm : DevManager} {i : Int} {text : Option Text} {freed : Bool}
    (page : dm.page i = some ⟨text, freed⟩)
    : dm.inUse i = if freed then none else dm.content i := by
  obtain ⟨c, content, buffer⟩ := Option.map_eq_some_iff.mp page
  simp only [inUse, content, Option.filter, buffer]
  cases freed <;> rfl

/-- A step of a thread, by cases on the call that it is in. -/
theorem owned_of_exec {h : History (State τ) (Event τ)}
    (run : (machine τ).Run KeepsServices h hs.base) (numbered : hs.Numbered)
    (owns : (hs.base.thread t).frame.Owns (hs.locals t)) (owned : Owned hs.heap hs.holdings.Belongs)
    (exec : hs.base.kernel.exec external (hs.base.op t) = some (k, frame))
    : Owned (hs.run t external).heap
        ((hs.run t external).leaves hs.holdings.blocks k t frame).Belongs := by
  have separate := separate_run run
  have furnished := furnished_run run
  have inUse := inUse_of_exec separate exec
  have services := services_of_exec exec
  have same := Kernel.exec_sameCall exec
  have nobody (i : Int) (nothing : hs.base.kernel.dm.page i = none)
      : hs.base.kernel.dm.inUse i = none := by
    rw [DevManager.inUse, Option.map_eq_none_iff.mp nothing]
    rfl
  unfold HeapState.run
  cases here : (hs.base.thread t).frame with
  | user last => rw [State.op, here] at exec; cases exec
  | get f =>
      rw [here] at owns
      refine owned_of_get here numbered owns separate (fun i ts erects => ?_)
        (fun i => here ▸ unlost_run (KeepsServices.makes run)) owned exec
      rw [← here] at erects
      obtain ⟨s, building, -⟩ := building_of_erects (KeepsServices.makes run) erects
      have slot := (equips_run (KeepsServices.makes run)
        (equips_iff.mpr ⟨_, .inl rfl, building⟩)).1
      -- The device has had no text, as its creation has not made one.
      refine nobody i (Option.eq_none_iff_forall_ne_some.mpr fun b page => ?_)
      obtain ⟨r, slot', nobody⟩ := furnished.homed page
      obtain rfl := Option.some.inj (slot.symm.trans slot')
      exact nobody t building
  | send f =>
      rw [here] at owns inUse services same
      refine owned_of_quiet owned (services rfl) inUse ?_
      have nothing : hs.locals t = .none := owns
      simp only [HeapState.holdings, nothing]
      rfl
  | ctl f =>
      have undoomed := (retained_run run).undoomed t
      rw [here] at owns inUse services undoomed
      have nothing : hs.locals t = .none := owns
      obtain ⟨tag, command, euid, ts, index, awakened, pc⟩ := f
      have quiet (texts : k.dm.inUse = hs.base.kernel.dm.inUse)
          : Owned hs.heap (hs.leaves hs.holdings.blocks k t frame).Belongs := by
        refine owned_of_quiet owned (services rfl) texts ?_
        simp only [HeapState.holdings, nothing]
        rfl
      cases pc
      case destroy pc => cases undoomed
      case kfree => cases undoomed
      all_goals exact quiet inUse
  | receive f =>
      cases inside : f.pc.update with
      | some pc =>
          have exec' := exec
          rw [State.op, here] at exec'
          obtain ⟨f', next, rfl, move, updated⟩ := updated_of_exec inside exec'
          rw [here] at owns
          simp only [inside]
          refine owned_of_update here inside numbered owns separate (fun i text point => ?_)
            (fun i text point => ?_) owned exec move updated
          · have discards : (hs.base.thread t).frame.discards = some i := by
              simp only [here, Frame.discards, inside, point]
            obtain ⟨text, page⟩ := furnished.freeing discards
            obtain ⟨c, content, -⟩ := Option.map_eq_some_iff.mp page
            exact ⟨c, (DevManager.inUse_of_page page).trans content⟩
          · have assigns : (hs.base.thread t).frame.assigns = some (i, text) := by
              simp only [here, Frame.assigns, inside, point]
            obtain ⟨text, page⟩ := furnished.assigning assigns
            exact DevManager.inUse_of_page page
      | none =>
          simp only [inside]
          rw [here] at owns services inUse
          have nothing : hs.locals t = .none := by simpa only [Frame.Owns, inside] using owns
          simp only [Frame.device, inside] at inUse
          refine owned_of_quiet owned (services rfl) inUse ?_
          simp only [HeapState.holdings, nothing]
          rfl

/-- Every step keeps the blocks with their owners, by cases on the event. -/
theorem owned_of_step {h : History (State τ) (Event τ)} {e : Event τ}
    (run : (machine τ).Run KeepsServices h hs.base) (numbered : hs.Numbered)
    (owns : ∀ t, (hs.base.thread t).frame.Owns (hs.locals t))
    (owned : Owned hs.heap hs.holdings.Belongs) (step : hs.step e = some hs')
    : Owned hs'.heap hs'.holdings.Belongs := by
  obtain ⟨base, moved, same⟩ := Option.map_eq_some_iff.mp step
  cases State.steps_of_step moved with
  | @call t euid c last user =>
      obtain rfl := same
      have blocks
          : ∀ u,
              (((hs.base.setThread t ⟨(hs.base.thread t).calls + 1, c.enter euid⟩).thread
                u).frame).assigned
              = (hs.base.thread u).frame.assigned := by
        intro u
        rw [State.setThread_frame]
        split
        · next here =>
            subst here
            rw [user]
            cases c <;> rfl
        · rfl
      have holdings
          : { hs with
              base := hs.base.setThread t ⟨(hs.base.thread t).calls + 1, c.enter euid⟩ }.holdings
            = hs.holdings := by
        simp only [HeapState.holdings, blocks]
        rfl
      rw [holdings]
      exact owned
  | @run t external k frame exec =>
      obtain rfl := same
      have leaves
          : { hs.run t external with
              base := { hs.base with kernel := k }.setThread t
                ⟨(hs.base.thread t).calls, frame⟩ }.holdings
            = (hs.run t external).leaves hs.holdings.blocks k t frame := by
        refine congrArg (Holdings.mk k.services (hs.run t external).service k.dm.inUse
          (hs.run t external).content) (funext fun u => ?_)
        rw [State.setThread_frame]
        rcases eq_or_ne u t with rfl | other
        · rw [if_pos rfl, Function.update_self]
        · rw [if_neg other, Function.update_of_ne other, locals_run other]
          rfl
      have after := owned_of_exec run numbered (owns t) owned exec
      rw [← leaves] at after
      exact after
  | @softirq n b k next ready exec =>
      obtain rfl := same
      have dm : k.dm = hs.base.kernel.dm := dm_of_step moved
      obtain ⟨-, -, services⟩ := homes_of_callback exec
      have holdings
          : { hs with
              base := { hs.base with kernel := { k with rcu := k.rcu.advance n next } } }.holdings
            = hs.holdings := by
        simp only [HeapState.holdings, services, dm]
      rw [holdings]
      exact owned
  | _ =>
      obtain rfl := same
      exact owned

-----------------------------------------------------------------------------------------
-- The law
-----------------------------------------------------------------------------------------

omit [DecidableEq τ] in
/-- When the module is mounted it owns the registry and `dm`, and nothing else is live. -/
theorem owned_start
    : Owned (HeapState.start : HeapState τ).heap
        (HeapState.start : HeapState τ).holdings.Belongs := by
  have only {o : Owner τ} {b : HeapBlock}
      (belongs : (HeapState.start : HeapState τ).holdings.Belongs o b)
      : (o = .registry ∧ b = .allTagServices) ∨ (o = .driver ∧ b = .dm) := by
    cases o with
    | registry => exact .inl ⟨rfl, belongs⟩
    | driver => exact .inr ⟨rfl, belongs⟩
    | service s => exact absurd belongs.1 (Nat.not_lt_zero _)
    | device i =>
        obtain ⟨c, found, -⟩ := belongs
        cases found
    | thread t => cases belongs
  refine ⟨fun b => ⟨?_, ?_⟩, fun {o p b} here there => ?_, fun _ => Nat.zero_le _⟩
  · rintro ⟨allocated, -⟩
    rcases of_decide_eq_true allocated with registry | dm
    · exact ⟨.registry, registry⟩
    · exact ⟨.driver, dm⟩
  · rintro ⟨o, belongs⟩
    exact ⟨decide_eq_true ((only belongs).imp And.right And.right), rfl⟩
  · rcases only here with ⟨rfl, rfl⟩ | ⟨rfl, rfl⟩ <;> rcases only there with ⟨rfl, same⟩ | ⟨rfl, same⟩
    all_goals first | rfl | cases same

/-- In the runs in which no service is removed all live blocks have their owners. -/
theorem owned_run {h : History (HeapState τ) (Event τ)}
    (run : (heapMachine τ).Run (OnBase RetainsServices) h hs)
    : Owned hs.heap hs.holdings.Belongs :=
  run.invariant (P := fun _ hs => Owned hs.heap hs.holdings.Belongs) owned_start
    fun before owned _ step =>
      owned_of_step (base_run before) (numbered_run before) (owns_run before) owned step

/-- The text of a device, as its pointer finds it. -/
def HeapState.textBlocks (hs : HeapState τ) (i : Int) : List HeapBlock :=
  (hs.base.kernel.dm.content i).toList.map fun b => .content (hs.content b)

/-- The blocks of a service in a slot: its struct, levels and messages, and the text of its device. -/
def HeapState.slotBlocks (hs : HeapState τ) (i : Int) (s : Ref) : List HeapBlock :=
  serviceBlocks (hs.service s) ++ hs.textBlocks i

/-- Every block of the heap is accounted for. -/
structure HeapState.Accounted (hs : HeapState τ) : Prop where
  /-- The live blocks are those of the module and those of the registered services. -/
  live
    : ∀ b,
        hs.heap.Live b
        ↔ b = .allTagServices
          ∨ b = .dm
          ∨ ∃ i s, hs.base.kernel.tsm.allTagServices i = some s ∧ b ∈ hs.slotBlocks i s
  /-- Every registered service has a text. -/
  text
    : ∀ i s,
        hs.base.kernel.tsm.allTagServices i = some s → (hs.base.kernel.dm.content i).isSome = true
  /-- No two registered services share a block. -/
  apart
    : ∀ i j s r b,
        hs.base.kernel.tsm.allTagServices i = some s
        → hs.base.kernel.tsm.allTagServices j = some r
        → b ∈ hs.slotBlocks i s
        → b ∈ hs.slotBlocks j r
        → i = j
  once : ∀ b, hs.heap.frees b ≤ 1
  /-- After `end` no block is live, and none has been freed twice. -/
  afterEnd : ∀ b, ¬ hs.afterEnd.Live b ∧ hs.afterEnd.frees b ≤ 1

/-- What a run in which no service is removed has come to between two calls. -/
structure HeapState.Rests (hs : HeapState τ) : Prop where
  owned : Owned hs.heap hs.holdings.Belongs
  blocks : ∀ t, hs.holdings.blocks t = []
  services
    : ∀ s,
        s < hs.base.kernel.services ↔ ∃ i, hs.base.kernel.tsm.allTagServices i = some s
  inUse
    : ∀ i c,
        hs.base.kernel.dm.inUse i = some c
        ↔ (∃ s, hs.base.kernel.tsm.allTagServices i = some s)
          ∧ hs.base.kernel.dm.content i = some c
  texts
    : ∀ i s,
        hs.base.kernel.tsm.allTagServices i = some s → (hs.base.kernel.dm.content i).isSome = true
  unique
    : ∀ i j s,
        hs.base.kernel.tsm.allTagServices i = some s
        → hs.base.kernel.tsm.allTagServices j = some s
        → i = j
  inRange : ∀ i s, hs.base.kernel.tsm.allTagServices i = some s → i ∈ tags

theorem rests_of_idle {h : History (HeapState τ) (Event τ)}
    (run : (heapMachine τ).Run (OnBase RetainsServices) h hs) (idle : hs.base.Idle)
    : hs.Rests := by
  have base := base_run run
  obtain ⟨services, devices⟩ := furnished_of_idle base idle
  refine ⟨owned_run run, fun t => ?_, services, fun i c => ⟨fun found => ?_, ?_⟩, fun i s slot => ?_,
    fun i j s => (homes_run base).unique, fun i s slot => ?_⟩
  · obtain ⟨last, user⟩ := Frame.eq_user_of_idle (idle t)
    have owns := owns_run run t
    rw [user] at owns
    have nothing : hs.locals t = .none := owns
    simp only [HeapState.holdings, nothing]
    rfl
  · obtain ⟨content, unfreed⟩ := DevManager.inUse_iff.mp found
    refine ⟨(devices i).mpr ⟨(hs.base.kernel.dm.buffer c).text, ?_⟩, content⟩
    rw [DevManager.page, content, Option.map_some, ← unfreed]
  · rintro ⟨slot, content⟩
    obtain ⟨text, page⟩ := (devices i).mp slot
    exact (DevManager.inUse_of_page page).trans content
  · obtain ⟨text, page⟩ := (devices i).mp ⟨s, slot⟩
    obtain ⟨c, content, -⟩ := Option.map_eq_some_iff.mp page
    rw [content]
    rfl
  · obtain ⟨low, high⟩ := (KeepsServices.registry base).inRange slot
    refine List.mem_map.mpr ⟨i.toNat, List.mem_range.mpr ?_, Int.toNat_of_nonneg low⟩
    exact (Int.toNat_lt_toNat (Int.lt_of_le_of_lt low high)).mpr high

omit [DecidableEq τ] in
theorem HeapState.mem_textBlocks {i : Int} {b : HeapBlock}
    : b ∈ hs.textBlocks i
      ↔ ∃ c, hs.base.kernel.dm.content i = some c ∧ b = .content (hs.content c) := by
  simp only [HeapState.textBlocks, List.mem_map, Option.mem_toList, eq_comm]

omit [DecidableEq τ] in
/-- Who owns the blocks of a slot between two calls. -/
theorem HeapState.Rests.owner (x : hs.Rests) {i : Int} {s : Ref} {b : HeapBlock}
    (slot : hs.base.kernel.tsm.allTagServices i = some s)
    : b ∈ hs.slotBlocks i s
      ↔ hs.holdings.Belongs (.service s) b ∨ hs.holdings.Belongs (.device i) b := by
  have born := (x.services s).mpr ⟨i, slot⟩
  have inUse (c : Nat) : hs.holdings.inUse i = some c ↔ hs.base.kernel.dm.content i = some c :=
    (x.inUse i c).trans (and_iff_right ⟨s, slot⟩)
  rw [HeapState.slotBlocks, List.mem_append, HeapState.mem_textBlocks]
  refine or_congr (and_iff_right born).symm ?_
  exact exists_congr fun c => and_congr_left fun _ => (inUse c).symm

omit [DecidableEq τ] in
/-- The live blocks are those of the module and those of the registered services. -/
theorem HeapState.Rests.live (x : hs.Rests) (b : HeapBlock)
    : hs.heap.Live b
      ↔ b = .allTagServices
        ∨ b = .dm
        ∨ ∃ i s, hs.base.kernel.tsm.allTagServices i = some s ∧ b ∈ hs.slotBlocks i s := by
  rw [x.owned.live b]
  constructor
  · rintro ⟨o, belongs⟩
    cases o with
    | registry => exact .inl belongs
    | driver => exact .inr (.inl belongs)
    | service s =>
        obtain ⟨i, slot⟩ := (x.services s).mp belongs.1
        exact .inr (.inr ⟨i, s, slot, (x.owner slot).mpr (.inl belongs)⟩)
    | device i =>
        obtain ⟨c, found, -⟩ := id belongs
        obtain ⟨⟨s, slot⟩, -⟩ := (x.inUse i c).mp found
        exact .inr (.inr ⟨i, s, slot, (x.owner slot).mpr (.inr belongs)⟩)
    | thread t =>
        have member : b ∈ hs.holdings.blocks t := belongs
        rw [x.blocks t] at member
        cases member
  · rintro (registry | dm | ⟨i, s, slot, member⟩)
    · exact ⟨.registry, registry⟩
    · exact ⟨.driver, dm⟩
    · rcases (x.owner slot).mp member with service | device
      · exact ⟨_, service⟩
      · exact ⟨_, device⟩

omit [DecidableEq τ] in
theorem HeapState.Rests.apart (x : hs.Rests) {i j : Int} {s r : Ref} {b : HeapBlock}
    (here : hs.base.kernel.tsm.allTagServices i = some s)
    (there : hs.base.kernel.tsm.allTagServices j = some r) (first : b ∈ hs.slotBlocks i s)
    (second : b ∈ hs.slotBlocks j r)
    : i = j := by
  rcases (x.owner here).mp first with mine | mine <;>
    rcases (x.owner there).mp second with other | other <;>
    cases x.owned.apart mine other
  · exact x.unique i j s here there
  · rfl

-- What `end` frees of every owner, and in which order it comes to them.

def HeapState.releases (hs : HeapState τ) : Owner τ → List HeapBlock
  | .registry => [.allTagServices]
  | .driver => [.dm]
  | .service s => serviceBlocks (hs.service s)
  | .device i => hs.textBlocks i
  | .thread t => hs.holdings.blocks t

def HeapState.endOwners (hs : HeapState τ) : List (Owner τ) :=
  (tags.filterMap fun i => (hs.base.kernel.tsm.allTagServices i).map fun _ => .device i)
  ++ [.driver]
  ++ (tags.filterMap fun i => (hs.base.kernel.tsm.allTagServices i).map .service)
  ++ [.registry]

omit [DecidableEq τ] in
theorem HeapState.endBlocks_eq (hs : HeapState τ)
    : hs.endBlocks = hs.endOwners.flatMap hs.releases := by
  simp only [HeapState.endBlocks, HeapState.endOwners, List.flatMap_append,
    List.filterMap_eq_flatMap_toList, List.flatMap_assoc]
  refine congrArg₂ _ (congrArg₂ _ (congrArg₂ _ (List.flatMap_congr fun i _ => ?_) ?_)
    (List.flatMap_congr fun i _ => ?_)) ?_
  · cases hs.base.kernel.tsm.allTagServices i <;>
      simp [HeapState.releases, HeapState.textBlocks]
  · simp [HeapState.releases]
  · cases hs.base.kernel.tsm.allTagServices i <;> simp [HeapState.releases]
  · simp [HeapState.releases]

omit [DecidableEq τ] in
theorem HeapState.mem_endOwners {o : Owner τ}
    : o ∈ hs.endOwners
      ↔ (∃ i ∈ tags, ∃ s, hs.base.kernel.tsm.allTagServices i = some s ∧ o = .device i)
        ∨ o = .driver
        ∨ (∃ i ∈ tags, ∃ s, hs.base.kernel.tsm.allTagServices i = some s ∧ o = .service s)
        ∨ o = .registry := by
  simp only [HeapState.endOwners, List.mem_append, List.mem_filterMap, Option.map_eq_some_iff,
    List.mem_singleton, or_assoc, eq_comm (a := o)]

theorem tags_nodup : tags.Nodup :=
  List.nodup_range.map fun _ _ => Int.ofNat.inj

omit [DecidableEq τ] in
/-- `end` comes to every owner once. -/
theorem HeapState.Rests.endOwners_nodup (x : hs.Rests) : hs.endOwners.Nodup := by
  have devices
      : (tags.filterMap fun i =>
          (hs.base.kernel.tsm.allTagServices i).map fun _ => (.device i : Owner τ)).Nodup :=
    tags_nodup.filterMap fun i j o here there => by
      obtain ⟨-, -, rfl⟩ := Option.map_eq_some_iff.mp here
      obtain ⟨-, -, same⟩ := Option.map_eq_some_iff.mp there
      cases same
      rfl
  have services
      : (tags.filterMap fun i =>
          (hs.base.kernel.tsm.allTagServices i).map (.service : Ref → Owner τ)).Nodup :=
    tags_nodup.filterMap fun i j o here there => by
      obtain ⟨s, slot, rfl⟩ := Option.map_eq_some_iff.mp here
      obtain ⟨r, slot', same⟩ := Option.map_eq_some_iff.mp there
      cases same
      exact x.unique i j s slot slot'
  rw [HeapState.endOwners]
  simp only [List.nodup_append, devices, services, List.nodup_singleton, List.mem_append,
    List.mem_filterMap, Option.map_eq_some_iff, List.mem_singleton, true_and]
  refine ⟨⟨?_, ?_⟩, ?_⟩
  · rintro o ⟨i, -, s, -, rfl⟩ p rfl same
    cases same
  · rintro o (⟨i, -, s, -, rfl⟩ | rfl) p ⟨j, -, r, -, rfl⟩ same <;> cases same
  · rintro o ((⟨i, -, s, -, rfl⟩ | rfl) | ⟨i, -, s, -, rfl⟩) p rfl same <;> cases same

omit [DecidableEq τ] in
/-- `end` frees what an owner has, and each block once. -/
theorem HeapState.Rests.releases (x : hs.Rests) {o : Owner τ} (member : o ∈ hs.endOwners)
    : (hs.releases o).Nodup ∧ ∀ b, hs.holdings.Belongs o b ↔ b ∈ hs.releases o := by
  rcases HeapState.mem_endOwners.mp member with ⟨i, -, s, slot, rfl⟩ | rfl | ⟨i, -, s, slot, rfl⟩ | rfl
  · refine ⟨?_, fun b => ?_⟩
    · simp only [HeapState.releases, HeapState.textBlocks]
      cases hs.base.kernel.dm.content i <;> simp
    · refine Iff.trans ?_ HeapState.mem_textBlocks.symm
      exact exists_congr fun c => and_congr_left fun _ =>
        (x.inUse i c).trans (and_iff_right ⟨s, slot⟩)
  · exact ⟨List.nodup_singleton _, fun b => List.mem_singleton.symm⟩
  · exact ⟨blocks_nodup _ _, fun b => and_iff_right ((x.services s).mpr ⟨i, slot⟩)⟩
  · exact ⟨List.nodup_singleton _, fun b => List.mem_singleton.symm⟩

omit [DecidableEq τ] in
/-- `end` comes to everybody who owns a block. -/
theorem HeapState.Rests.mem_endOwners_of_belongs (x : hs.Rests) {o : Owner τ} {b : HeapBlock}
    (belongs : hs.holdings.Belongs o b)
    : o ∈ hs.endOwners := by
  refine HeapState.mem_endOwners.mpr ?_
  cases o with
  | registry => exact .inr (.inr (.inr rfl))
  | driver => exact .inr (.inl rfl)
  | service s =>
      obtain ⟨i, slot⟩ := (x.services s).mp belongs.1
      exact .inr (.inr (.inl ⟨i, x.inRange i s slot, s, slot, rfl⟩))
  | device i =>
      obtain ⟨c, found, -⟩ := belongs
      obtain ⟨⟨s, slot⟩, -⟩ := (x.inUse i c).mp found
      exact .inl ⟨i, x.inRange i s slot, s, slot, rfl⟩
  | thread t =>
      have member : b ∈ hs.holdings.blocks t := belongs
      rw [x.blocks t] at member
      cases member

/-- In every run in which no service is removed, all blocks are accounted for whenever no call is
going on.
-/
theorem blocks_accounted {h : History (HeapState τ) (Event τ)}
    (run : (heapMachine τ).Run (OnBase RetainsServices) h hs) (idle : hs.base.Idle)
    : hs.Accounted := by
  have x := rests_of_idle run idle
  have each o (member : o ∈ hs.endOwners) := x.releases member
  refine ⟨x.live, x.texts, fun i j s r b => x.apart, x.owned.once, fun b => ?_⟩
  rw [HeapState.afterEnd, HeapState.endBlocks_eq]
  exact ⟨x.owned.not_live_of_releaseAll x.endOwners_nodup each
      (fun o b => x.mem_endOwners_of_belongs) b,
    (x.owned.releaseAll x.endOwners_nodup each).once b⟩

-----------------------------------------------------------------------------------------
-- Runs of two threads
-----------------------------------------------------------------------------------------

def registersDevicesTest (st : State τ) : Event τ → Bool
  | .run t external => !(st.thread t).frame.addsDevice || external == 0
  | _ => true

omit [DecidableEq τ] in
theorem registersDevices_of_test {st : State τ} {e : Event τ} (passes : registersDevicesTest st e = true)
    : RegistersDevices st e := by
  rintro t external rfl adds
  simpa [registersDevicesTest, adds] using passes

/-- The test that besides this no service is marked, and keys are in range. -/
def retainsServicesTest (st : State τ) (e : Event τ) : Bool :=
  registersDevicesTest st e && decide (HashInRange e)
  && match e with
    | .run t _ =>
        match (st.thread t).frame.writes with
        | some (_, .lazyDeleted) => false
        | _ => true
    | .softirq _ => false
    | _ => true

omit [DecidableEq τ] in
theorem retainsServices_of_test {st : State τ} {e : Event τ} (passes : retainsServicesTest st e = true)
    : RetainsServices st e := by
  simp only [retainsServicesTest, Bool.and_eq_true, decide_eq_true_eq] at passes
  obtain ⟨⟨registers, hash⟩, marks⟩ := passes
  refine ⟨hash, registersDevices_of_test registers, fun s writes => ?_⟩
  cases e with
  | run t external =>
      have writes : (st.thread t).frame.writes = some (s, .lazyDeleted) := writes
      dsimp only at marks
      rw [writes] at marks
      cases marks
  | softirq n => cases marks
  | _ => cases writes

/-- A service is created, the creation of another one fails at a message, and a receiver that waits is
interrupted.
-/
theorem blocks_accounted_of_receiver
    : ∃ (h : History (HeapState (Fin 2)) (Event (Fin 2))) (hs : HeapState (Fin 2)),
        (heapMachine (Fin 2)).Run (OnBase RetainsServices) h hs
        ∧ hs.base.Idle
        ∧ hs.base.kernel.tsm.allTagServices 1 = some 0
        ∧ hs.Accounted := by
  obtain ⟨h, hs, run, facts⟩ := Machine.Run.exists_of_replay
    (M := heapMachine (Fin 2)) (G := fun _ hs e => retainsServicesTest hs.base e = true)
    (creating 0 1 ++ .call 0 0 (.tagGet 2 CREATE_TAG EVERYONE) :: runs 0 3 ++ .run 0 5 :: runs 0 2
      ++ fallingAsleep 1 1 3 ++ .signal 1 :: runs 1 20)
    (fun _ hs => decide hs.base.Idle && hs.base.kernel.tsm.allTagServices 1 == some 0)
    (by decide +kernel)
  simp only [Bool.and_eq_true, decide_eq_true_eq, beq_iff_eq] at facts
  have run : (heapMachine (Fin 2)).Run (OnBase RetainsServices) h hs :=
    run.mono fun _ _ _ passes => retainsServices_of_test passes
  exact ⟨h, hs, run, facts.1, facts.2, blocks_accounted run facts.1⟩

/-- A removal leaves the levels and the messages of its service behind. -/
theorem removal_leaks_levels
    : ¬ ∀ (h : History (HeapState (Fin 2)) (Event (Fin 2))) (hs : HeapState (Fin 2)),
        (heapMachine (Fin 2)).Run (OnBase RegistersDevices) h hs → hs.base.Idle → hs.Accounted := by
  intro always
  obtain ⟨h, hs, run, facts⟩ := Machine.Run.exists_of_replay
    (M := heapMachine (Fin 2)) (G := fun _ hs e => registersDevicesTest hs.base e = true)
    (creating 0 1 ++ removing 0 1 22)
    (fun _ hs =>
      decide hs.base.Idle && hs.base.kernel.services == 1 && hs.base.kernel.freed 0
      && decide (hs.heap.Live (.level 1)))
    (by decide +kernel)
  simp only [Bool.and_eq_true, decide_eq_true_eq, beq_iff_eq] at facts
  obtain ⟨⟨⟨idle, one⟩, freed⟩, live⟩ := facts
  have run : (heapMachine (Fin 2)).Run (OnBase RegistersDevices) h hs :=
    run.mono fun _ _ _ passes => registersDevices_of_test passes
  rcases ((always h hs run idle).live _).mp live with same | same | ⟨i, s, slot, -⟩
  · cases same
  · cases same
  · -- The only service has been freed, so it is in no slot.
    obtain ⟨born, unfreed⟩ := (homes_run (base_run run)).slot slot
    obtain rfl : s = 0 := Nat.lt_one_iff.mp (one ▸ born)
    cases freed.symm.trans unfreed

end TagExchange
