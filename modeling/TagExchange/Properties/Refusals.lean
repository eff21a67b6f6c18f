import TagExchange.Model.Debts
import TagExchange.Properties.LockHandOff
import TagExchange.Properties.OwnerOnly

/-! The calls that a service refuses: from their first step on they only borrow from the
kernel and look.
-/

namespace TagExchange

open Concurrency Protocol

variable {τ : Type}

-----------------------------------------------------------------------------------------
-- Refused calls
-----------------------------------------------------------------------------------------

/-- The values with which a call gives up before it has changed anything of a registered
service.
-/
def refusal (r : Int) : Bool :=
  r == -EACCES || r == -EINVAL

/-- The slot from which a call has still to load its service. -/
def Frame.heads : Frame → Option Int
  | user _ => none
  | get f =>
      if f.command = OPEN_TAG ∧ f.key ≠ IPC_PRIVATE then
        match f.pc with
        | .entry => some (hashFunction f.key)
        | .lock | .opened | .loadOpened => some f.tag
        | _ => none
      else
        none
  | send f =>
      match f.pc with
      | .entry | .getPage | .copyFromUser | .load => some f.tag
      | _ => none
  | receive f =>
      match f.pc with
      | .entry | .load => some f.tag
      | _ => none
  | ctl f =>
      match f.pc with
      | .entry | .load => some f.tag
      | _ => none

/-- The service whose permission a call has still to check: it has loaded the pointer. -/
def Frame.aims : Frame → Option Ref
  | user _ => none
  | get f =>
      match f.pc with
      | .lazyDeleted | .permission => some f.ts
      | _ => none
  | send f =>
      match f.pc with
      | .lock | .lazyDeleted | .permission => some f.ts
      | _ => none
  | receive f =>
      match f.pc with
      | .lazyDeleted | .permission => some f.ts
      | _ => none
  | ctl f =>
      match f.pc with
      | .index | .lock | .lazyDeleted | .permission => some f.ts
      | _ => none

def GetPc.harmless : GetPc → Bool
  | .entry | .lock | .opened | .loadOpened | .lazyDeleted | .permission | .unlockDenied
  | .denied => true
  | .unlock r | .ret r => refusal r
  | _ => false

/-- A call that has done nothing so far but take a mutex, a page and a reference. -/
def Frame.harmless : Frame → Bool
  | user _ => false
  | get f => decide (f.command = OPEN_TAG ∧ f.key ≠ IPC_PRIVATE) && f.pc.harmless
  | send f =>
      match f.pc with
      | .entry | .getPage | .copyFromUser | .load | .lock | .lazyDeleted | .permission
      | .oops _ => true
      | .unlock r | .freePage r | .ret r true => refusal r
      | _ => false
  | receive f =>
      match f.pc with
      | .entry | .load | .lazyDeleted | .permission => true
      | .ret r => refusal r
      | _ => false
  | ctl f =>
      match f.pc with
      | .entry | .load | .index | .lock | .lazyDeleted | .permission => true
      | .unlockIndex (.ret r) | .unlock (.ret r) | .ret r => refusal r
      | _ => false

/-- On the way out of a harmless call, or back in user mode with the value it returned. -/
def Frame.refused : Frame → Bool
  | user last => last.any refusal
  | get f =>
      match f.pc with
      | .unlockDenied | .denied | .unlock _ | .ret _ => (get f).harmless
      | _ => false
  | send f =>
      match f.pc with
      | .unlock _ | .freePage _ | .ret _ _ | .oops _ => (send f).harmless
      | _ => false
  | receive f =>
      match f.pc with
      | .ret _ => (receive f).harmless
      | _ => false
  | ctl f =>
      match f.pc with
      | .unlockIndex _ | .unlock _ | .ret _ => (ctl f).harmless
      | _ => false

theorem inert_of_harmless {c : CallId τ} {frame : Frame} (harmless : frame.harmless = true)
    : (frame.op c).Inert := by
  cases frame with
  | user last => cases harmless
  | get f =>
      obtain ⟨key, command, permission, euid, tag, ts, pc⟩ := f
      have harmless := (Bool.and_eq_true_iff.mp harmless).2
      cases pc <;> trivial
  | send f =>
      obtain ⟨tag, level, buffer, size, euid, realSize, stored, ts, pc⟩ := f
      rcases pc with _ | _ | _ | _ | _ | _ | _ | _ | _ | _ | _ | _ | _ | _ | _ | _ | _ | _
        | ⟨_, _ | _⟩ <;> trivial
  | receive f =>
      obtain ⟨tag, level, buffer, size, euid, ts, realSize, interrupted, copied, pc⟩ := f
      cases pc <;> trivial
  | ctl f =>
      obtain ⟨tag, command, euid, ts, index, awakened, pc⟩ := f
      cases pc <;> trivial

variable [DecidableEq τ] {k k' : Kernel τ} {external : Nat}

/-- A call that is harmless after a step was so before, by cases on the move. -/
theorem harmless_of_exec {c : CallId τ} {before after : Frame}
    (path : ∀ f, before = .get f → f.OnPath)
    (exec : k.exec external (before.op c) = some (k', after)) (harmless : after.harmless = true)
    : before.harmless = true := by
  cases before with
  | user last => cases exec
  | get f =>
      have path := path f rfl
      have move := getMove_of_exec exec
      obtain ⟨key, command, permission, euid, tag, ts, pc⟩ := f
      change GetMove k _ pc after at move
      have opened {p : GetPc} (creates : GetPc.creates p = true) (same : pc = p)
          (opens : command = OPEN_TAG) : False := by
        subst same
        exact absurd (opens.symm.trans (path.creates creates)) (by decide)
      cases move with
      | leave => cases harmless
      | _ =>
          obtain ⟨asked, harmless⟩ := Bool.and_eq_true_iff.mp harmless
          refine Bool.and_eq_true_iff.mpr ⟨asked, ?_⟩
          have asked := of_decide_eq_true asked
          first
          | rfl
          | exact harmless
          | exact (opened rfl rfl asked.1).elim
          | exact absurd (path.searches rfl) asked.2
  | send f =>
      have move := sendMove_of_exec exec
      obtain ⟨tag, level, buffer, size, euid, realSize, stored, ts, pc⟩ := f
      change SendMove k _ pc after at move
      have result {f : SendFrame} (denied : refusal f.result = true) : False := by
        simp only [SendFrame.result] at denied
        split at denied <;> cases denied
      cases move with
      | leave => cases harmless
      | callRcu => exact (result harmless).elim
      | memset => exact (result harmless).elim
      | _ =>
          first
          | rfl
          | exact harmless
  | receive f =>
      have move := receiveMove_of_exec exec
      obtain ⟨tag, level, buffer, size, euid, ts, realSize, interrupted, copied, pc⟩ := f
      change ReceiveMove k c.1 _ pc after at move
      cases move with
      | leave => cases harmless
      | @left x pc other => cases x <;> exact harmless
      | _ =>
          first
          | rfl
          | exact harmless
  | ctl f =>
      have move := ctlMove_of_exec exec
      obtain ⟨tag, command, euid, ts, index, awakened, pc⟩ := f
      change CtlMove k _ pc after at move
      cases move with
      | leave => cases harmless
      | @unlockIndex after => cases after <;> exact harmless
      | _ =>
          first
          | rfl
          | exact harmless

variable {G : Guard (State τ) (Event τ)} {h : History (State τ) (Event τ)} {st st' : State τ}
  {e : Event τ} {t : τ} {n : Nat} {s : Ref}

/-- The call is about to load this service from its slot, or has loaded it and has still to
check the permission.
-/
def Frame.Directed (frame : Frame) (k : Kernel τ) (s : Ref) : Prop :=
  frame.aims = some s
  ∨ ∃ i, frame.heads = some i ∧ IsTag i ∧ k.tsm.allTagServices i = some s

/-- At some moment the call that the thread is in was directed at the service. -/
def Aimed (h : History (State τ) (Event τ)) (t : τ) (n : Nat) (s : Ref) (euid : Int) : Prop :=
  Once
    (fun _ st _ =>
      (st.thread t).calls = n
      ∧ (st.thread t).frame.Directed st.kernel s
      ∧ (st.thread t).frame.actor = some euid)
    h

/-- What has become of a call that was directed at a service it may not use. -/
def Frame.Refused (frame : Frame) (k : Kernel τ) (s : Ref) (euid : Int) : Prop :=
  (frame.Directed k s ∧ frame.actor = some euid) ∨ frame.refused = true

omit [DecidableEq τ] in
/-- A call that opens or uses a service is harmless until it has checked the permission. -/
theorem harmless_of_directed {frame : Frame} (path : ∀ f, frame = .get f → f.OnPath) {euid : Int}
    (directed : frame.Directed k s) (actor : frame.actor = some euid)
    : frame.harmless = true := by
  rcases directed with aims | ⟨i, heads, -⟩
  · cases frame with
    | user last => cases aims
    | get f =>
        have path := path f rfl
        obtain ⟨key, command, permission, user, tag, ts, pc⟩ := f
        have opens : command = OPEN_TAG := by
          simp only [Frame.actor] at actor
          split at actor
          · assumption
          · cases actor
        cases pc <;> cases aims
        all_goals exact Bool.and_eq_true_iff.mpr ⟨decide_eq_true ⟨opens, path.opens rfl⟩, rfl⟩
    | send f =>
        obtain ⟨tag, level, buffer, size, user, realSize, stored, ts, pc⟩ := f
        cases pc <;> cases aims <;> rfl
    | receive f =>
        obtain ⟨tag, level, buffer, size, user, ts, realSize, interrupted, copied, pc⟩ := f
        cases pc <;> cases aims <;> rfl
    | ctl f =>
        obtain ⟨tag, command, user, ts, index, awakened, pc⟩ := f
        cases pc <;> cases aims <;> rfl
  · cases frame with
    | user last => cases heads
    | get f =>
        obtain ⟨key, command, permission, user, tag, ts, pc⟩ := f
        simp only [Frame.heads] at heads
        split at heads
        · next asked =>
            cases pc <;> cases heads
            all_goals exact Bool.and_eq_true_iff.mpr ⟨decide_eq_true asked, rfl⟩
        · cases heads
    | send f =>
        obtain ⟨tag, level, buffer, size, user, realSize, stored, ts, pc⟩ := f
        cases pc <;> cases heads <;> rfl
    | receive f =>
        obtain ⟨tag, level, buffer, size, user, ts, realSize, interrupted, copied, pc⟩ := f
        cases pc <;> cases heads <;> rfl
    | ctl f =>
        obtain ⟨tag, command, user, ts, index, awakened, pc⟩ := f
        cases pc <;> cases heads <;> rfl

omit [DecidableEq τ] in
theorem harmless_of_refused {frame : Frame} (refused : frame.refused = true)
    (busy : frame.idle = false)
    : frame.harmless = true := by
  cases frame with
  | user last => cases busy
  | get f =>
      obtain ⟨key, command, permission, euid, tag, ts, pc⟩ := f
      cases pc <;> first | exact refused | cases refused
  | send f =>
      obtain ⟨tag, level, buffer, size, euid, realSize, stored, ts, pc⟩ := f
      cases pc <;> first | exact refused | cases refused
  | receive f =>
      obtain ⟨tag, level, buffer, size, euid, ts, realSize, interrupted, copied, pc⟩ := f
      cases pc <;> first | exact refused | cases refused
  | ctl f =>
      obtain ⟨tag, command, euid, ts, index, awakened, pc⟩ := f
      cases pc <;> first | exact refused | cases refused

/-- A call that is about to load the service goes on to load it, or is refused for its
arguments, by cases on the move.
-/
theorem directed_of_heads {c : CallId τ} {before after : Frame} {i : Int} {euid : Int}
    (heads : before.heads = some i) (tag : IsTag i) (found : k.tsm.allTagServices i = some s)
    (actor : before.actor = some euid) (exec : k.exec external (before.op c) = some (k', after))
    (registered : k'.tsm.allTagServices i = some s)
    : after.Refused k' s euid := by
  cases before with
  | user last => cases heads
  | get f =>
      have move := getMove_of_exec exec
      obtain ⟨key, command, permission, user, tag', ts, pc⟩ := f
      change GetMove k _ pc after at move
      simp only [Frame.heads] at heads
      split at heads
      · next asked =>
          have still {j : Int} (same : j = i) {pc : GetPc}
              (heads : Frame.heads (.get ⟨key, command, permission, user, j, ts, pc⟩) = some j)
              : Frame.Refused (.get ⟨key, command, permission, user, j, ts, pc⟩) k' s euid :=
            .inl ⟨.inr ⟨i, heads.trans (congrArg some same), tag, registered⟩, actor⟩
          cases move with
          | refuse => exact .inr (Bool.and_eq_true_iff.mpr ⟨decide_eq_true asked, rfl⟩)
          | hash =>
              refine still (Option.some.inj heads) ?_
              rw [Frame.heads, if_pos asked]
          | search key => exact absurd key asked.2
          | lockCreate _ create => exact absurd (asked.1.symm.trans create) (by decide)
          | unknown _ other => exact absurd asked.1 other
          | lockOpen =>
              refine still (Option.some.inj heads) ?_
              rw [Frame.heads, if_pos asked]
          | opened =>
              refine still (Option.some.inj heads) ?_
              rw [Frame.heads, if_pos asked]
          | missing absent =>
              obtain rfl : tag' = i := Option.some.inj heads
              rcases absent with empty | key
              · cases found.symm.trans empty
              · exact absurd key asked.2
          | loadOpened here =>
              obtain rfl : tag' = i := Option.some.inj heads
              exact .inl ⟨.inl (here.symm.trans found), actor⟩
          | oops empty =>
              obtain rfl : tag' = i := Option.some.inj heads
              cases found.symm.trans empty
          | _ => cases heads
      · cases heads
  | send f =>
      have move := sendMove_of_exec exec
      obtain ⟨tag', level, buffer, size, user, realSize, stored, ts, pc⟩ := f
      change SendMove k _ pc after at move
      cases move with
      | refuse outside =>
          obtain rfl : tag' = i := Option.some.inj heads
          obtain ⟨low, high⟩ := tag
          rcases outside with below | above
          · exact absurd low (Int.not_le.mpr below)
          · exact absurd (Int.lt_trans above high) (Int.lt_irrefl _)
      | refuseLevel => exact .inr rfl
      | missing empty =>
          obtain rfl : tag' = i := Option.some.inj heads
          cases found.symm.trans empty
      | load here =>
          obtain rfl : tag' = i := Option.some.inj heads
          exact .inl ⟨.inl (here.symm.trans found), actor⟩
      | accept => exact .inl ⟨.inr ⟨i, heads, tag, registered⟩, actor⟩
      | getPage => exact .inl ⟨.inr ⟨i, heads, tag, registered⟩, actor⟩
      | copyFromUser => exact .inl ⟨.inr ⟨i, heads, tag, registered⟩, actor⟩
      | noPage => exact .inr rfl
      | unmapped => exact .inr rfl
      | _ => cases heads
  | receive f =>
      have move := receiveMove_of_exec exec
      obtain ⟨tag', level, buffer, size, user, ts, realSize, interrupted, copied, pc⟩ := f
      change ReceiveMove k c.1 _ pc after at move
      cases move with
      | refuse => exact .inr rfl
      | missing empty =>
          obtain rfl : tag' = i := Option.some.inj heads
          cases found.symm.trans empty
      | load here =>
          obtain rfl : tag' = i := Option.some.inj heads
          exact .inl ⟨.inl (here.symm.trans found), actor⟩
      | accept => exact .inl ⟨.inr ⟨i, heads, tag, registered⟩, actor⟩
      | _ => cases heads
  | ctl f =>
      have move := ctlMove_of_exec exec
      obtain ⟨tag', command, user, ts, index, awakened, pc⟩ := f
      change CtlMove k _ pc after at move
      cases move with
      | refuse => exact .inr rfl
      | missing empty =>
          obtain rfl : tag' = i := Option.some.inj heads
          cases found.symm.trans empty
      | load here =>
          obtain rfl : tag' = i := Option.some.inj heads
          exact .inl ⟨.inl (here.symm.trans found), actor⟩
      | accept => exact .inl ⟨.inr ⟨i, heads, tag, registered⟩, actor⟩
      | _ => cases heads

/-- A call that has loaded a service it may not use goes on to the permission check and is
refused there, as long as the service has not been marked as deleted, by cases on the move.
-/
theorem refused_of_aims {c : CallId τ} {before after : Frame} {euid : Int}
    (path : ∀ f, before = .get f → f.OnPath) (aims : before.aims = some s)
    (actor : before.actor = some euid) (exec : k.exec external (before.op c) = some (k', after))
    (outsider : (k.service s).denies euid = true) (alive : (k.service s).lazyDeleted = false)
    : after.Refused k' s euid := by
  have harmless := harmless_of_directed (k := k) path (.inl aims) actor
  cases before with
  | user last => cases aims
  | get f =>
      have move := getMove_of_exec exec
      obtain ⟨key, command, permission, user, tag, ts, pc⟩ := f
      change GetMove k _ pc after at move
      have asked := (Bool.and_eq_true_iff.mp harmless).1
      have mine : user = euid := by
        simp only [Frame.actor] at actor
        split at actor
        · exact Option.some.inj actor
        · cases actor
      cases move with
      | alive => exact .inl ⟨.inl aims, actor⟩
      | denied => exact .inr (Bool.and_eq_true_iff.mpr ⟨asked, rfl⟩)
      | deleted deleted => cases aims; simp [alive] at deleted
      | permitted allowed => cases aims; simp [mine, outsider] at allowed
      | _ => cases aims
  | send f =>
      have move := sendMove_of_exec exec
      obtain ⟨tag, level, buffer, size, user, realSize, stored, ts, pc⟩ := f
      change SendMove k _ pc after at move
      have mine : user = euid := Option.some.inj actor
      cases move with
      | lock => exact .inl ⟨.inl aims, actor⟩
      | alive => exact .inl ⟨.inl aims, actor⟩
      | denied => exact .inr rfl
      | deleted deleted => cases aims; simp [alive] at deleted
      | permitted allowed => cases aims; simp [mine, outsider] at allowed
      | _ => cases aims
  | receive f =>
      have move := receiveMove_of_exec exec
      obtain ⟨tag, level, buffer, size, user, ts, realSize, interrupted, copied, pc⟩ := f
      change ReceiveMove k c.1 _ pc after at move
      have mine : user = euid := Option.some.inj actor
      cases move with
      | alive => exact .inl ⟨.inl aims, actor⟩
      | denied => exact .inr rfl
      | deleted deleted => cases aims; simp [alive] at deleted
      | permitted allowed => cases aims; simp [mine, outsider] at allowed
      | _ => cases aims
  | ctl f =>
      have move := ctlMove_of_exec exec
      obtain ⟨tag, command, user, ts, index, awakened, pc⟩ := f
      change CtlMove k _ pc after at move
      have mine : user = euid := Option.some.inj actor
      cases move with
      | index => exact .inl ⟨.inl aims, actor⟩
      | lock => exact .inl ⟨.inl aims, actor⟩
      | alive => exact .inl ⟨.inl aims, actor⟩
      | denied => exact .inr rfl
      | deleted deleted => cases aims; simp [alive] at deleted
      | remove allowed => cases aims; simp [mine, outsider] at allowed
      | awake allowed => cases aims; simp [mine, outsider] at allowed
      | unknown allowed => cases aims; simp [mine, outsider] at allowed
      | _ => cases aims

/-- A refused call leaves with the value it was refused with, by cases on the move. -/
theorem refused_of_exec {c : CallId τ} {before after : Frame} (refused : before.refused = true)
    (exec : k.exec external (before.op c) = some (k', after))
    : after.refused = true := by
  cases before with
  | user last => cases exec
  | get f =>
      have move := getMove_of_exec exec
      obtain ⟨key, command, permission, user, tag, ts, pc⟩ := f
      change GetMove k _ pc after at move
      cases move with
      | leave => exact (Bool.and_eq_true_iff.mp refused).2
      | _ => first | exact refused | cases refused
  | send f =>
      have move := sendMove_of_exec exec
      obtain ⟨tag, level, buffer, size, user, realSize, stored, ts, pc⟩ := f
      change SendMove k _ pc after at move
      cases move with
      | @leave r put => cases put <;> first | exact refused | cases refused
      | _ => first | exact refused | cases refused
  | receive f =>
      have move := receiveMove_of_exec exec
      obtain ⟨tag, level, buffer, size, user, ts, realSize, interrupted, copied, pc⟩ := f
      change ReceiveMove k c.1 _ pc after at move
      cases move <;> first | exact refused | cases refused
  | ctl f =>
      have move := ctlMove_of_exec exec
      obtain ⟨tag, command, user, ts, index, awakened, pc⟩ := f
      change CtlMove k _ pc after at move
      cases move with
      | @unlockIndex after => cases after <;> exact refused
      | _ => first | exact refused | cases refused

end TagExchange
