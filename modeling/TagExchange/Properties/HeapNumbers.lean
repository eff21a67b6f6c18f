import TagExchange.Model.Turns
import TagExchange.Properties.CreationBlocks
import TagExchange.Properties.DeviceLocks

/-! The heap along a run: numbers that have not been given out belong to no block, and the local
variables of a thread point to blocks only inside the routines that allocate them.
-/

namespace TagExchange

open Concurrency Memory

variable {τ : Type} [DecidableEq τ] {hs hs' : HeapState τ} {t : τ} {external : Nat}

-----------------------------------------------------------------------------------------
-- The state without the heap
-----------------------------------------------------------------------------------------

/-- A step of the machine with its heap is one of the machine without it. -/
theorem HeapState.base_step {e : Event τ} (step : hs.step e = some hs')
    : hs.base.step e = some hs'.base := by
  obtain ⟨base, moved, same⟩ := Option.map_eq_some_iff.mp step
  cases e <;> (obtain rfl := same; exact moved)

/-- A condition on steps that does not look at the heap. -/
def OnBase (G : State τ → Event τ → Prop) : Guard (HeapState τ) (Event τ) :=
  fun _ hs e => G hs.base e

omit [DecidableEq τ] in
/-- The history without the heaps. -/
def bases (h : History (HeapState τ) (Event τ)) : History (State τ) (Event τ) :=
  h.map fun moment => (moment.1.base, moment.2)

theorem base_run {G : State τ → Event τ → Prop} {h : History (HeapState τ) (Event τ)}
    (run : (heapMachine τ).Run (OnBase G) h hs)
    : (machine τ).Run (fun _ => G) (bases h) hs.base := by
  induction run with
  | start => exact .start
  | next _ ok step ih => exact ih.next ok (HeapState.base_step step)

-----------------------------------------------------------------------------------------
-- Numbers
-----------------------------------------------------------------------------------------

/-- The numbers of the blocks that local variables point to. -/
def Locals.numbers : Locals → List Nat
  | none => []
  | creation n _ => [n]
  | update n strings => n :: strings.toList

/-- All pointers are numbers that have been given out, and the others belong to no block. -/
structure HeapState.Numbered (hs : HeapState τ) : Prop where
  fresh : ∀ {b n}, b.number = some n → hs.next ≤ n → hs.heap.Fresh b
  service : ∀ s, hs.service s < hs.next
  content : ∀ b, hs.content b < hs.next
  locals : ∀ t, ∀ n ∈ (hs.locals t).numbers, n < hs.next

omit [DecidableEq τ] in
theorem numbered_start : (HeapState.start : HeapState τ).Numbered where
  fresh {b n} number _ := by
    refine ⟨?_, rfl⟩
    cases b <;> first | rfl | cases number
  service _ := Nat.one_pos
  content _ := Nat.one_pos
  locals _ _ here := nomatch here

namespace HeapState.Numbered

omit [DecidableEq τ] in
/-- A change of the heap that leaves the numbers from `next` on alone, some of which may be given
out with it.
-/
theorem grow (x : hs.Numbered) {heap : Heap HeapBlock} {next : Nat} (more : hs.next ≤ next)
    (fresh : ∀ {b n}, b.number = some n → next ≤ n → heap.Fresh b)
    : ({ hs with heap, next } : HeapState τ).Numbered where
  fresh := fresh
  service s := Nat.lt_of_lt_of_le (x.service s) more
  content b := Nat.lt_of_lt_of_le (x.content b) more
  locals t n here := Nat.lt_of_lt_of_le (x.locals t n here) more

theorem setLocals (x : hs.Numbered) {l : Locals} (given : ∀ n ∈ l.numbers, n < hs.next)
    : (hs.setLocals t l).Numbered where
  fresh := x.fresh
  service := x.service
  content := x.content
  locals := (Function.forall_update_iff hs.locals fun _ l => ∀ n ∈ l.numbers, n < hs.next).mpr
    ⟨given, fun u _ => x.locals u⟩

theorem forget (x : hs.Numbered) : (hs.setLocals t .none).Numbered :=
  x.setLocals fun _ here => absurd here List.not_mem_nil

omit [DecidableEq τ] in
/-- Allocating or freeing a block whose number has been given out. -/
theorem reheap (x : hs.Numbered) {heap : Heap HeapBlock} {b : HeapBlock} {n : Nat}
    (number : b.number = some n) (given : n < hs.next)
    (others : ∀ c, c ≠ b → (heap.Fresh c ↔ hs.heap.Fresh c))
    : ({ hs with heap } : HeapState τ).Numbered := by
  refine x.grow (Nat.le_refl _) fun {c m} number' above => (others c ?_).mpr (x.fresh number' above)
  rintro rfl
  obtain rfl : n = m := Option.some.inj (number.symm.trans number')
  exact absurd given (Nat.not_lt.mpr above)

omit [DecidableEq τ] in
theorem kfree (x : hs.Numbered) {b : HeapBlock} {n : Nat} (number : b.number = some n)
    (given : n < hs.next)
    : ({ hs with heap := hs.heap.kfree b } : HeapState τ).Numbered :=
  x.reheap number given fun _ => Heap.fresh_kfree

/-- A block under a number leaves the numbers above it alone. -/
theorem above_kmalloc {heap : Heap HeapBlock} {next : Nat} {b : HeapBlock}
    (fresh : ∀ c n, c.number = some n → next + 1 ≤ n → heap.Fresh c)
    (number : b.number = some next) (c : HeapBlock) (n : Nat) (number' : c.number = some n)
    (above : next + 1 ≤ n)
    : (heap.kmalloc b).Fresh c := by
  refine (Heap.fresh_kmalloc ?_).mpr (fresh c n number' above)
  rintro rfl
  obtain rfl : next = n := Option.some.inj (number.symm.trans number')
  exact Nat.lt_irrefl _ above

omit [DecidableEq τ] in
theorem above (x : hs.Numbered) (b : HeapBlock) (n : Nat) (number : b.number = some n)
    (above : hs.next + 1 ≤ n)
    : hs.heap.Fresh b :=
  x.fresh number (Nat.le_of_succ_le above)

omit [DecidableEq τ] in
/-- Allocating a block under the next number. -/
theorem kmallocNext (x : hs.Numbered) {b : HeapBlock} (number : b.number = some hs.next)
    : ({ hs with heap := hs.heap.kmalloc b, next := hs.next + 1 } : HeapState τ).Numbered :=
  x.grow (Nat.le_succ _) (above_kmalloc x.above number _ _)

omit [DecidableEq τ] in
theorem setContent (x : hs.Numbered) (b : Nat) {n : Nat} (given : n < hs.next)
    : ({ hs with content := Function.update hs.content b n } : HeapState τ).Numbered :=
  { x with
    content := (Function.forall_update_iff hs.content fun _ n => n < hs.next).mpr
      ⟨given, fun c _ => x.content c⟩ }

/-- What `tag_get` does keeps the numbers, by cases on the program point. -/
theorem tagGet (x : hs.Numbered) (t : τ) (external : Nat) (f : GetFrame)
    : (hs.tagGet t external f).Numbered := by
  unfold HeapState.tagGet
  split
  · have fresh {b n} (number : b.number = some n) (above : hs.next + 1 ≤ n)
        : (createService hs.next (fun i => decide (external ≤ i)) hs.heap).1.Fresh b := by
      refine (fresh_createService fun same => ?_).mpr (x.above _ _ number above)
      obtain rfl : n = hs.next := Option.some.inj (number.symm.trans same)
      exact Nat.lt_irrefl _ above
    split
    · next heap c creation =>
        rw [creation] at fresh
        refine (x.grow (Nat.le_succ _) fresh).setLocals fun n here => ?_
        obtain rfl := List.mem_singleton.mp here
        exact Nat.lt_succ_self _
    · next heap creation =>
        have same := createService_none (congrArg Prod.snd creation)
        rw [creation] at same
        obtain rfl : heap = hs.heap := same
        exact x
  · split
    · next n c here =>
        have given : n < hs.next := x.locals t n (by rw [here]; exact List.mem_singleton_self _)
        refine HeapState.Numbered.forget (t := t) ?_
        exact {
          x with
          service := (Function.forall_update_iff hs.service fun _ n => n < hs.next).mpr
            ⟨given, fun s _ => x.service s⟩
        }
    · exact x
  · exact (x.kmallocNext (b := .content hs.next) rfl).setContent _ (Nat.lt_succ_self _)
  · split
    · next n c here =>
        have given : n < hs.next := x.locals t n (by rw [here]; exact List.mem_singleton_self _)
        refine HeapState.Numbered.forget (t := t)
          (x.grow (Nat.le_refl _) fun {b m} number above => ?_)
        refine (fresh_failNoMem fun same => ?_).mpr (x.fresh number above)
        obtain rfl : m = n := Option.some.inj (number.symm.trans same)
        exact absurd given (Nat.not_lt.mpr above)
    · exact x
  · exact x

omit [DecidableEq τ] in
theorem freeContent (x : hs.Numbered) (i : Int) : (hs.freeContent i).Numbered := by
  unfold HeapState.freeContent
  split
  · exact x.kfree rfl (x.content _)
  · exact x

/-- What `update_chrdev` does keeps the numbers, by cases on the program point. -/
theorem updateChrdev (x : hs.Numbered) (t : τ) (external : Nat) (i : Int) (pc : UpdatePc)
    : (hs.updateChrdev t external i pc).Numbered := by
  unfold HeapState.updateChrdev
  split
  · split
    · refine (x.kmallocNext (b := .tempBuffer hs.next) rfl).setLocals fun n here => ?_
      obtain rfl := List.mem_singleton.mp here
      exact Nat.lt_succ_self _
    · exact x
  · split
    · next n strings _ here _ =>
        have first := above_kmalloc (b := .afterString hs.next) x.above rfl
        have second := above_kmalloc (b := .beforeString hs.next) first rfl
        have third := above_kmalloc (b := .content hs.next) second rfl
        refine (x.grow (Nat.le_succ _) (third _ _)).setLocals fun m member => ?_
        rcases List.mem_pair.mp member with rfl | rfl
        · exact Nat.lt_succ_of_lt (x.locals t m (by rw [here]; exact List.mem_cons_self))
        · exact Nat.lt_succ_self _
    · exact x
  · exact x.freeContent _
  · split
    · next n m here =>
        exact x.setContent _ (x.locals t m (by rw [here]; simp [Locals.numbers]))
    · exact x
  · split
    · next n m here =>
        have given (i : Nat) (member : i ∈ [n, m]) : i < hs.next :=
          x.locals t i (by rw [here]; exact member)
        have first := x.kfree (b := .beforeString m) rfl (given m (by simp))
        have second := first.kfree (b := .afterString m) rfl (given m (by simp))
        exact (second.kfree (b := .tempBuffer n) rfl (given n (by simp))).forget
    · exact x
  · exact x

theorem run (x : hs.Numbered) (t : τ) (external : Nat) : (hs.run t external).Numbered := by
  unfold HeapState.run
  split
  · exact x.tagGet t external _
  · split
    · exact x.updateChrdev t external _ _
    · exact x
  · split
    · exact x.freeContent _
    · exact x.kfree rfl (x.service _)
    · exact x
  · exact x

theorem step (x : hs.Numbered) {e : Event τ} (step : hs.step e = some hs') : hs'.Numbered := by
  obtain ⟨base, -, same⟩ := Option.map_eq_some_iff.mp step
  cases e with
  | run t external =>
      obtain rfl := same
      have x := x.run t external
      exact ⟨x.fresh, x.service, x.content, x.locals⟩
  | _ =>
      obtain rfl := same
      exact ⟨x.fresh, x.service, x.content, x.locals⟩

end HeapState.Numbered

theorem numbered_run {G : Guard (HeapState τ) (Event τ)} {h : History (HeapState τ) (Event τ)}
    (run : (heapMachine τ).Run G h hs)
    : hs.Numbered :=
  run.invariant (P := fun _ hs => hs.Numbered) numbered_start fun _ x _ step => x.step step

-----------------------------------------------------------------------------------------
-- Local variables
-----------------------------------------------------------------------------------------

/-- From the allocation of `temp_buffer` to the last `kfree`. -/
def UpdatePc.Owns (l : Locals) : UpdatePc → Prop
  | .check | .load => l = .none
  | .waiting _ | .index _ _ | .lock _ _ | .read _ _ | .oops => ∃ n, l = .update n none
  | .free _ _ | .assign _ _ | .unlock _ => ∃ n m, l = .update n (some m)

/-- What the local variables of a thread point to at each program point. -/
def Frame.Owns (l : Locals) : Frame → Prop
  | get f =>
      match f.pc with
      | .fields => ∃ n, l = .creation n .complete
      | .unlock _ | .ret _ => l = .none ∨ ∃ n c, l = .creation n c
      | _ => l = .none
  | receive f =>
      match f.pc.update with
      | some pc => pc.Owns l
      | none => l = .none
  | _ => l = .none

/-- The local variables of a thread are its own. -/
theorem locals_run {u : τ} (other : u ≠ t) : (hs.run t external).locals u = hs.locals u := by
  have set (hs : HeapState τ) (l : Locals) : (hs.setLocals t l).locals u = hs.locals u :=
    Function.update_of_ne other ..
  have content (i : Int) : (hs.freeContent i).locals u = hs.locals u := by
    unfold HeapState.freeContent
    split <;> rfl
  unfold HeapState.run
  split
  · unfold HeapState.tagGet
    (repeat' split) <;> first | rfl | exact set _ _
  · split
    · unfold HeapState.updateChrdev
      (repeat' split) <;> first | rfl | exact set _ _ | exact content _
    · rfl
  · split <;> first | rfl | exact content _
  · rfl

/-- The local variables after the allocations, of which so many have succeeded. -/
theorem locals_kzalloc (hs : HeapState τ) (t : τ) (external : Nat) (f : GetFrame)
    (here : f.pc = .kzalloc)
    : (hs.tagGet t external f).locals t
      = if external = 0 then hs.locals t
        else if external < creationAllocations then
          .creation hs.next (if external = 1 then ⟨false, 0⟩ else ⟨true, external - 2⟩)
        else .creation hs.next .complete := by
  have allocated := createService_external hs.next external hs.heap
  unfold HeapState.tagGet
  rw [here]
  dsimp only
  split
  · next heap c creation =>
      rw [creation] at allocated
      simp only [HeapState.setLocals, Function.update_self]
      by_cases refused : external = 0
      · rw [if_pos refused] at allocated
        cases allocated
      · rw [if_neg refused] at allocated ⊢
        by_cases bare : external = 1
        · rw [if_pos bare] at allocated
          rw [if_pos (by rw [bare]; decide), if_pos bare, Option.some.inj allocated]
        · rw [if_neg bare] at allocated ⊢
          have levels : MAX_LEVELS.toNat = 32 := rfl
          rw [Option.some.inj allocated, levels]
          by_cases few : external < creationAllocations
          · rw [if_pos few, Nat.min_eq_left (by simp only [creationAllocations] at few; omega)]
          · rw [if_neg few, Nat.min_eq_right (by simp only [creationAllocations] at few; omega)]
            rfl
  · next heap creation =>
      rw [creation] at allocated
      by_cases refused : external = 0
      · rw [if_pos refused]
      · rw [if_neg refused] at allocated
        split at allocated <;> cases allocated

/-- A step of `tag_get`: `ts` is local from the allocation to the publication or the roll-back. -/
theorem owns_of_get {k k' : Kernel τ} {f : GetFrame} {frame : Frame}
    (owns : (Frame.get f).Owns (hs.locals t))
    (exec : k.exec external (tagGet t f) = some (k', frame))
    : frame.Owns ((hs.tagGet t external f).locals t) := by
  have move := getMove_of_exec exec
  obtain ⟨key, command, permission, euid, tag, ts, pc⟩ := f
  cases pc
  case kzalloc =>
    obtain ⟨after, choice, same⟩ := Option.map_eq_some_iff.mp exec
    obtain ⟨-, rfl⟩ := Prod.mk.inj same
    have nothing : hs.locals t = .none := owns
    rw [locals_kzalloc hs t external _ rfl, nothing]
    dsimp only at choice
    split at choice
    · next refused =>
        obtain rfl := Option.some.inj choice
        rw [if_pos refused]
        exact .inl rfl
    · next some_ =>
        rw [if_neg some_]
        split at choice
        · next few =>
            obtain rfl := Option.some.inj choice
            rw [if_pos few]
            exact .inr ⟨_, _, rfl⟩
        · next all =>
            obtain rfl := Option.some.inj choice
            rw [if_neg all]
            exact ⟨_, rfl⟩
  case fields =>
    obtain ⟨n, here⟩ := owns
    have after : (hs.tagGet t external ⟨key, command, permission, euid, tag, ts, .fields⟩).locals t
        = .none := by
      simp only [HeapState.tagGet, here, HeapState.setLocals, Function.update_self]
    rw [after]
    cases move
    rfl
  case ret r =>
    cases move
    have after : (hs.tagGet t external ⟨key, command, permission, euid, tag, ts, .ret r⟩).locals t
        = .none := by
      rcases owns with here | ⟨n, c, here⟩
      · simp only [HeapState.tagGet, here]
      · simp only [HeapState.tagGet, here, HeapState.setLocals, Function.update_self]
    exact after
  case unlock r =>
    cases move
    exact owns
  case device pc =>
    have after
        : (hs.tagGet t external ⟨key, command, permission, euid, tag, ts, .device pc⟩).locals t
        = hs.locals t := by
      cases pc <;> rfl
    rw [after]
    cases move <;> exact owns
  all_goals
    cases move <;> first | exact owns | exact .inl owns

/-- A step of `update_chrdev`: `temp_buffer` is local from its allocation to the last `kfree`. -/
theorem owns_of_update {f f' : ReceiveFrame} {pc : UpdatePc} {next : Then UpdatePc Unit}
    (inside : f.pc.update = some pc) (owns : (Frame.receive f).Owns (hs.locals t))
    (move : UpdateMove hs.base.kernel external f.tag f.level pc next) (updated : f.Updated f' next)
    : (Frame.receive f').Owns ((hs.updateChrdev t external f.tag pc).locals t) := by
  simp only [Frame.Owns, inside] at owns
  obtain ⟨-, -, -, update⟩ := updated
  have goes {pc' : UpdatePc} (go : f'.pc.update = some pc') {l : Locals}
      (now : pc'.Owns l)
      : (Frame.receive f').Owns l := by
    simpa only [Frame.Owns, go] using now
  have stops (back : f'.pc.update = none) {l : Locals} (now : l = .none)
      : (Frame.receive f').Owns l := by
    simpa only [Frame.Owns, back] using now
  cases move with
  | reject => exact stops update owns
  | accept => exact goes update owns
  | missing empty =>
      refine stops update ?_
      simpa [HeapState.updateChrdev, empty, UpdatePc.Owns] using owns
  | load found =>
      refine goes update ⟨hs.next, ?_⟩
      simp [HeapState.updateChrdev, found, HeapState.setLocals]
  | waiting => exact goes update owns
  | index => exact goes update owns
  | lock => exact goes update owns
  | blank nothing =>
      obtain ⟨n, here⟩ := owns
      exact goes update ⟨n, by simp [HeapState.updateChrdev, nothing, here]⟩
  | read found =>
      obtain ⟨n, here⟩ := owns
      refine goes update ⟨n, hs.next, ?_⟩
      simp [HeapState.updateChrdev, found, here, HeapState.setLocals]
  | free =>
      obtain ⟨n, m, here⟩ := owns
      refine goes update ⟨n, m, ?_⟩
      simp only [HeapState.updateChrdev, HeapState.freeContent]
      split <;> exact here
  | assign =>
      obtain ⟨n, m, here⟩ := owns
      exact goes update ⟨n, m, by simp [HeapState.updateChrdev, here]⟩
  | unlock =>
      obtain ⟨n, m, here⟩ := owns
      exact stops update (by simp [HeapState.updateChrdev, here, HeapState.setLocals])

/-- A step keeps what the local variables of its thread point to, by cases on the call. -/
theorem owns_of_exec {k' : Kernel τ} {frame : Frame}
    (owns : (hs.base.thread t).frame.Owns (hs.locals t))
    (exec : hs.base.kernel.exec external (hs.base.op t) = some (k', frame))
    : frame.Owns ((hs.run t external).locals t) := by
  have same := Kernel.exec_sameCall exec
  unfold HeapState.run
  cases here : (hs.base.thread t).frame with
  | user last => rw [State.op, here] at exec; cases exec
  | get f =>
      rw [State.op, here] at exec
      rw [here] at owns
      exact owns_of_get owns exec
  | send f =>
      rw [here] at owns same
      cases frame <;> first | exact owns | cases same
  | ctl f =>
      rw [here] at owns same
      have kept (hs' : HeapState τ) (locals : hs'.locals = hs.locals)
          : frame.Owns (hs'.locals t) := by
        rw [locals]
        cases frame <;> first | exact owns | cases same
      have content (i : Int) : (hs.freeContent i).locals = hs.locals := by
        unfold HeapState.freeContent
        split <;> rfl
      dsimp only
      split <;> first | exact kept _ rfl | exact kept _ (content _)
  | receive f =>
      rw [State.op, here] at exec
      rw [here] at owns
      cases inside : f.pc.update with
      | some pc =>
          obtain ⟨f', next, rfl, move, updated⟩ := updated_of_exec inside exec
          simp only [inside]
          exact owns_of_update inside owns move updated
      | none =>
          simp only [inside]
          have nothing : hs.locals t = .none := by simpa only [Frame.Owns, inside] using owns
          have move := receiveMove_of_exec exec
          rw [nothing]
          cases frame with
          | receive f' =>
              cases after : f'.pc.update with
              | none => simp only [Frame.Owns, after]
              | some pc =>
                  have check := update_of_move inside move after
                  subst check
                  simp [Frame.Owns, after, UpdatePc.Owns]
          | user last => rfl
          | _ => rw [here] at same; cases same

/-- Along every run the local variables of a thread point only to what it has allocated. -/
theorem owns_run {G : Guard (HeapState τ) (Event τ)} {h : History (HeapState τ) (Event τ)}
    (run : (heapMachine τ).Run G h hs)
    : ∀ t, (hs.base.thread t).frame.Owns (hs.locals t) := by
  refine run.invariant (P := fun _ hs => ∀ t, (hs.base.thread t).frame.Owns (hs.locals t))
    (fun _ => rfl) ?_
  intro h hs e hs' _ owns _ step t
  have moved := HeapState.base_step step
  obtain ⟨base, -, same⟩ := Option.map_eq_some_iff.mp step
  cases turn_of_step moved t with
  | rest other thread =>
      rw [thread]
      cases e with
      | run u external =>
          obtain rfl := same
          have apart : t ≠ u := by
            rintro rfl
            exact other external rfl
          show Frame.Owns ((hs.run u external).locals t) _
          rw [locals_run apart]
          exact owns t
      | _ => obtain rfl := same; exact owns t
  | @enter euid c event idle thread =>
      subst event
      obtain rfl := same
      rw [thread]
      obtain ⟨last, user⟩ := Frame.eq_user_of_idle idle
      have nothing := owns t
      rw [user] at nothing
      cases c <;> exact nothing
  | @go external frame event exec thread =>
      subst event
      obtain rfl := same
      rw [thread]
      exact owns_of_exec (owns t) exec

end TagExchange
