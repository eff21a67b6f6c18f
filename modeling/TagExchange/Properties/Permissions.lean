import TagExchange.Model.Turns
import TagExchange.Properties.Registered

/-! What a call has found out about the service it points to, and may rely on until it
returns: the slot it comes from, and that its caller may use it.
-/

namespace TagExchange

open Concurrency Protocol

variable {τ : Type}

/-- The slot and the service that a call has loaded from it, as long as it uses it. -/
def Frame.loaded : Frame → Option (Int × Ref)
  | send f =>
      match f.pc with
      | .lock | .lazyDeleted | .permission | .memcpy | .terminator | .size | .ready | .waiters
      | .wakeUp | .callRcu | .notReady | .memset => some (f.tag, f.ts)
      | .entry | .getPage | .copyFromUser | .load | .unlock _ | .freePage _ | .ret _ _
      | .oops _ => none
  | receive f =>
      match f.pc with
      | .entry | .load | .ret _ => none
      | _ => some (f.tag, f.ts)
  | ctl f =>
      match f.pc with
      | .entry | .load | .unlock (.ret _) | .ret _ => none
      | _ => some (f.tag, f.ts)
  | _ => none

/-- The service a call may use, and its effective user: it has passed the permission check. -/
def Frame.granted : Frame → Option (Ref × Int)
  | send f =>
      match f.pc with
      | .memcpy | .terminator | .size | .ready | .waiters | .wakeUp | .callRcu | .notReady
      | .memset => some (f.ts, f.euid)
      | _ => none
  | receive f =>
      match f.pc with
      | .entry | .load | .lazyDeleted | .permission | .ret _ => none
      | _ => some (f.ts, f.euid)
  | ctl f =>
      match f.pc with
      | .waiters | .delete | .unlockIndex .busy | .unlockIndex .destroy | .unlock .busy
      | .unlock .destroy | .busy | .destroyIndex | .destroy _ | .unlink | .find _
      | .incRemaining | .kfree | .awakened | .request | .wakeUp | .callRcu | .reset =>
          some (f.ts, f.euid)
      | _ => none
  | _ => none

/-- The command that leads to a program point of `tag_ctl` behind the permission check. -/
def CtlPc.command : CtlPc → Option Int
  | .waiters | .delete | .unlockIndex .busy | .unlockIndex .destroy | .unlock .busy
  | .unlock .destroy | .busy | .destroyIndex | .destroy _ | .unlink | .find _ | .incRemaining
  | .kfree => some REMOVE_TAG
  | .awakened | .request | .wakeUp | .callRcu | .reset => some AWAKE_ALL
  | _ => none

theorem loaded_mem_pointers {frame : Frame} {i : Int} {s : Ref}
    (loaded : frame.loaded = some (i, s))
    : s ∈ frame.pointers := by
  cases frame with
  | send f =>
      obtain ⟨tag, level, buffer, size, euid, realSize, stored, ts, pc⟩ := f
      cases pc <;> cases loaded
      all_goals exact List.mem_singleton_self _
  | receive f =>
      obtain ⟨tag, level, buffer, size, euid, ts, realSize, interrupted, copied, pc⟩ := f
      cases pc <;> cases loaded
      all_goals first | exact List.mem_singleton_self _ | exact List.mem_cons_self ..
  | ctl f =>
      obtain ⟨tag, command, euid, ts, index, awakened, pc⟩ := f
      rcases pc with _ | _ | _ | _ | _ | _ | _ | _ | (_ | _ | _) | (_ | _ | _) | _ | _ | _ | _ | _
        | _ | _ | _ | _ | _ | _ | _ | _ <;> cases loaded
      all_goals exact List.mem_singleton_self _
  | _ => cases loaded

theorem granted_mem_pointers {frame : Frame} {s : Ref} {euid : Int}
    (granted : frame.granted = some (s, euid))
    : s ∈ frame.pointers := by
  cases frame with
  | send f =>
      obtain ⟨tag, level, buffer, size, user, realSize, stored, ts, pc⟩ := f
      cases pc <;> cases granted
      all_goals exact List.mem_singleton_self _
  | receive f =>
      obtain ⟨tag, level, buffer, size, user, ts, realSize, interrupted, copied, pc⟩ := f
      cases pc <;> cases granted
      all_goals first | exact List.mem_singleton_self _ | exact List.mem_cons_self ..
  | ctl f =>
      obtain ⟨tag, command, user, ts, index, awakened, pc⟩ := f
      rcases pc with _ | _ | _ | _ | _ | _ | _ | _ | (_ | _ | _) | (_ | _ | _) | _ | _ | _ | _ | _
        | _ | _ | _ | _ | _ | _ | _ | _ <;> cases granted
      all_goals exact List.mem_singleton_self _
  | _ => cases granted

/-- What a call has loaded carries the tag of the slot, its user may use what it has been
granted, and it is at the program points of its own command.
-/
structure Frame.Rightful (k : Kernel τ) (frame : Frame) : Prop where
  tagged : ∀ {i s}, frame.loaded = some (i, s) → (k.service s).tag = i
  granted : ∀ {s euid}, frame.granted = some (s, euid) → (k.service s).denies euid = false
  command : ∀ {f c}, frame = .ctl f → f.pc.command = some c → f.command = c

variable [DecidableEq τ] {st st' : State τ} {e : Event τ} {t : τ}

/-- The step keeps the tag and the owner of a service. -/
structure SameOwner (st st' : State τ) (s : Ref) : Prop where
  tag : (st'.kernel.service s).tag = (st.kernel.service s).tag
  denies : ∀ euid, (st'.kernel.service s).denies euid = (st.kernel.service s).denies euid

theorem sameOwner_of_step (step : st.step e = some st') {s : Ref}
    (born : s < st.kernel.services) (kept : e.reuses ≠ some s)
    : SameOwner st st' s := by
  let owners (ts : TagService) : Int × Int := (ts.ownerEuid, ts.permission)
  have owner : owners (st'.kernel.service s) = owners (st.kernel.service s) :=
    field_of_step (fun _ w => by cases w <;> rfl) step born kept
  obtain ⟨sameEuid, samePermission⟩ := Prod.mk.inj owner
  refine ⟨field_of_step Write.apply_tag step born kept, fun euid => ?_⟩
  simp only [TagService.denies, sameEuid, samePermission]

omit [DecidableEq τ] in
/-- Memory that somebody points to is not given out again. -/
theorem ReuseUnheld.kept_of_pointer (unheld : ReuseUnheld st e) {s : Ref}
    (held : s ∈ (st.thread t).frame.pointers)
    : e.reuses ≠ some s := by
  cases e with
  | reuse r ts =>
      intro same
      obtain rfl : r = s := Option.some.inj same
      exact unheld.1 t held
  | _ => exact fun same => by cases same

/-- The runs in which freed memory that a call or a callback points to is left alone. -/
def Unheld : Guard (State τ) (Event τ) :=
  fun _ => ReuseUnheld

theorem Unheld.safe {h : History (State τ) (Event τ)} (run : (machine τ).Run Unheld h st)
    : Safe st.kernel.core st.view :=
  safe_run (fun unheld => ReuseUnheld.unseen unheld) run

theorem sameOwner_of_pointer {h : History (State τ) (Event τ)} (run : (machine τ).Run Unheld h st)
    (unheld : ReuseUnheld st e) (step : st.step e = some st') {s : Ref}
    (held : s ∈ (st.thread t).frame.pointers)
    : SameOwner st st' s :=
  sameOwner_of_step step (pointers_born run t s held) (unheld.kept_of_pointer held)

theorem sameOwner_of_slot {h : History (State τ) (Event τ)} (run : (machine τ).Run Unheld h st)
    (step : st.step e = some st') {i : Int} {s : Ref}
    (found : st.kernel.tsm.allTagServices i = some s)
    : SameOwner st st' s :=
  sameOwner_of_step step ((homes_run run).slot found).1
    (kept_of_unfreed step ((homes_run run).slot found).2)

omit [DecidableEq τ] in
theorem rightful_of_none {k : Kernel τ} {frame : Frame} (loaded : frame.loaded = none)
    (granted : frame.granted = none) (command : ∀ f, frame = .ctl f → f.pc.command = none)
    : frame.Rightful k where
  tagged loads := by simp [loaded] at loads
  granted grants := by simp [granted] at grants
  command same commands := by simp [command _ same] at commands

omit [DecidableEq τ] in
/-- A call goes on relying on what it has loaded and been granted before, or on less. -/
theorem Frame.Rightful.carry {k : Kernel τ} {before after : Frame} (x : before.Rightful k)
    (loaded : after.loaded = before.loaded ∨ after.loaded = none)
    (granted : after.granted = before.granted ∨ after.granted = none)
    (command
      : ∀ f',
          after = .ctl f'
          → f'.pc.command = none
            ∨ ∃ f, before = .ctl f ∧ f.pc.command = f'.pc.command ∧ f.command = f'.command)
    : after.Rightful k where
  tagged loads := by
    rcases loaded with same | nothing
    · exact x.tagged (same ▸ loads)
    · simp [nothing] at loads
  granted grants := by
    rcases granted with same | nothing
    · exact x.granted (same ▸ grants)
    · simp [nothing] at grants
  command {f' c} same commands := by
    rcases command f' same with nothing | ⟨f, here, pc, given⟩
    · simp [nothing] at commands
    · exact given ▸ x.command here (pc ▸ commands)

omit [DecidableEq τ] in
/-- What a sender relies on after its step. -/
theorem rightful_of_sendMove {k k' : Kernel τ} {f : SendFrame} {frame : Frame}
    (old : (Frame.send f).Rightful k')
    (fresh : ∀ {i s}, k.tsm.allTagServices i = some s → (k'.service s).tag = i)
    (allowed
      : ∀ {euid},
          f.ts ∈ (Frame.send f).pointers
          → (k.service f.ts).denies euid = false
          → (k'.service f.ts).denies euid = false)
    (move : SendMove k f f.pc frame)
    : frame.Rightful k' := by
  obtain ⟨tag, level, buffer, size, euid, realSize, stored, ts, pc⟩ := f
  have none (f' : SendFrame) (g : CtlFrame) (same : Frame.send f' = .ctl g)
      : g.pc.command = none := by cases same
  change SendMove k _ pc frame at move
  cases move with
  | load found =>
      exact {
        tagged := fun loads => by cases loads; exact fresh found
        granted := fun grants => by cases grants
        command := fun same => by cases same }
  | permitted granted =>
      exact {
        tagged := fun loads => old.tagged loads
        granted := fun grants => by
          cases grants
          exact allowed (List.mem_singleton_self _) granted
        command := fun same => by cases same }
  | leave => exact rightful_of_none rfl rfl fun _ same => by cases same
  | refuse => exact rightful_of_none rfl rfl (none _)
  | refuseLevel => exact rightful_of_none rfl rfl (none _)
  | accept => exact rightful_of_none rfl rfl (none _)
  | getPage => exact rightful_of_none rfl rfl (none _)
  | copyFromUser => exact rightful_of_none rfl rfl (none _)
  | missing => exact rightful_of_none rfl rfl (none _)
  | deleted => exact rightful_of_none rfl rfl (none _)
  | denied => exact rightful_of_none rfl rfl (none _)
  | callRcu => exact rightful_of_none rfl rfl (none _)
  | memset => exact rightful_of_none rfl rfl (none _)
  | unlock => exact rightful_of_none rfl rfl (none _)
  | freePage => exact rightful_of_none rfl rfl (none _)
  | _ => exact old.carry (.inl rfl) (.inl rfl) fun g same => .inl (none _ g same)

omit [DecidableEq τ] in
/-- What a receiver relies on after its step. -/
theorem rightful_of_receiveMove {k k' : Kernel τ} {f : ReceiveFrame} {frame : Frame}
    (old : (Frame.receive f).Rightful k')
    (fresh : ∀ {i s}, k.tsm.allTagServices i = some s → (k'.service s).tag = i)
    (allowed
      : ∀ {euid},
          f.ts ∈ (Frame.receive f).pointers
          → (k.service f.ts).denies euid = false
          → (k'.service f.ts).denies euid = false)
    (move : ReceiveMove k t f f.pc frame)
    : frame.Rightful k' := by
  obtain ⟨tag, level, buffer, size, euid, ts, realSize, interrupted, copied, pc⟩ := f
  have none (f' : ReceiveFrame) (g : CtlFrame) (same : Frame.receive f' = .ctl g)
      : g.pc.command = none := by cases same
  change ReceiveMove k t _ pc frame at move
  cases move with
  | load found =>
      exact {
        tagged := fun loads => by cases loads; exact fresh found
        granted := fun grants => by cases grants
        command := fun same => by cases same }
  | permitted granted =>
      exact {
        tagged := fun loads => old.tagged loads
        granted := fun grants => by
          cases grants
          exact allowed (List.mem_singleton_self _) granted
        command := fun same => by cases same }
  | leave => exact rightful_of_none rfl rfl fun _ same => by cases same
  | refuse => exact rightful_of_none rfl rfl (none _)
  | deleted => exact rightful_of_none rfl rfl (none _)
  | denied => exact rightful_of_none rfl rfl (none _)
  | accept => exact rightful_of_none rfl rfl (none _)
  | left => exact rightful_of_none rfl rfl (none _)
  | print => exact rightful_of_none rfl rfl (none _)
  | _ => exact old.carry (.inl rfl) (.inl rfl) fun g same => .inl (none _ g same)

omit [DecidableEq τ] in
/-- What a `tag_ctl` call relies on after its step. -/
theorem rightful_of_ctlMove {k k' : Kernel τ} {f : CtlFrame} {frame : Frame}
    (old : (Frame.ctl f).Rightful k')
    (fresh : ∀ {i s}, k.tsm.allTagServices i = some s → (k'.service s).tag = i)
    (allowed
      : ∀ {euid},
          f.ts ∈ (Frame.ctl f).pointers
          → (k.service f.ts).denies euid = false
          → (k'.service f.ts).denies euid = false)
    (move : CtlMove k f f.pc frame)
    : frame.Rightful k' := by
  obtain ⟨tag, command, euid, ts, index, awakened, pc⟩ := f
  change CtlMove k _ pc frame at move
  -- A program point with the same command, behind the same checks.
  have carry {f' : CtlFrame} (loaded : (Frame.ctl f').loaded = some (tag, ts))
      (before : (Frame.ctl ⟨tag, command, euid, ts, index, awakened, pc⟩).loaded = some (tag, ts))
      (granted
        : (Frame.ctl f').granted
          = (Frame.ctl ⟨tag, command, euid, ts, index, awakened, pc⟩).granted)
      (pc : pc.command = f'.pc.command) (same : command = f'.command)
      : (Frame.ctl f').Rightful k' :=
    old.carry (.inl (loaded.trans before.symm)) (.inl granted) fun g here =>
      .inr ⟨_, rfl, by cases here; exact pc, by cases here; exact same⟩
  have stop {f' : CtlFrame} (loaded : (Frame.ctl f').loaded = none)
      (granted : (Frame.ctl f').granted = none) (pc : f'.pc.command = none)
      : (Frame.ctl f').Rightful k' :=
    rightful_of_none loaded granted fun g here => by cases here; exact pc
  have grant {f' : CtlFrame} (loaded : (Frame.ctl f').loaded = some (tag, ts))
      (before : (Frame.ctl ⟨tag, command, euid, ts, index, awakened, pc⟩).loaded = some (tag, ts))
      (granted : (Frame.ctl f').granted = some (ts, euid))
      (checked : (k.service ts).denies euid = false) (given : f'.pc.command = some f'.command)
      : (Frame.ctl f').Rightful k' := {
    tagged := fun loads => old.tagged (by rw [before, ← loaded, loads])
    granted := fun grants => by
      rw [granted] at grants
      cases grants
      exact allowed (loaded_mem_pointers before) checked
    command := fun here commands => by
      cases here
      exact Option.some.inj (given.symm.trans commands) }
  cases move with
  | load found =>
      exact {
        tagged := fun loads => by cases loads; exact fresh found
        granted := fun grants => by cases grants
        command := fun same commands => by cases same; cases commands }
  | remove checked given => exact grant rfl rfl rfl checked (congrArg some given.symm)
  | awake checked given => exact grant rfl rfl rfl checked (congrArg some given.symm)
  | leave => exact rightful_of_none rfl rfl fun _ same => by cases same
  | unlockIndex =>
      next after => cases after <;>
        first | exact carry rfl rfl rfl rfl rfl | exact stop rfl rfl rfl
  | reset =>
      exact old.carry (.inl rfl) (.inr rfl) fun g here => .inl (by cases here; rfl)
  | refuse => exact stop rfl rfl rfl
  | missing => exact stop rfl rfl rfl
  | accept => exact stop rfl rfl rfl
  | unknown => exact stop rfl rfl rfl
  | unlockRet => exact stop rfl rfl rfl
  | busy => exact stop rfl rfl rfl
  | kfree => exact stop rfl rfl rfl
  | callRcu => exact stop rfl rfl rfl
  | _ => exact carry rfl rfl rfl rfl rfl

/-- A call relies on facts that stay true, by cases on what each step of it has found. -/
theorem rightful_run {h : History (State τ) (Event τ)} (run : (machine τ).Run Unheld h st)
    : ∀ t, (st.thread t).frame.Rightful st.kernel := by
  refine run.invariant (P := fun _ st => ∀ t, (st.thread t).frame.Rightful st.kernel)
    (fun _ => rightful_of_none rfl rfl fun _ same => by cases same) ?_
  intro h st e st' before rightful unheld step t
  -- Whatever the step has changed, the thread may still rely on what it relied on before.
  have old : (st.thread t).frame.Rightful st'.kernel := {
    tagged := fun loads => by
      rw [(sameOwner_of_pointer before unheld step (loaded_mem_pointers loads)).tag]
      exact (rightful t).tagged loads
    granted := fun grants => by
      rw [(sameOwner_of_pointer before unheld step (granted_mem_pointers grants)).denies]
      exact (rightful t).granted grants
    command := fun same commands => (rightful t).command same commands }
  have fresh {i : Int} {s : Ref} (found : st.kernel.tsm.allTagServices i = some s)
      : (st'.kernel.service s).tag = i := by
    rw [(sameOwner_of_slot before step found).tag]
    exact ((Unheld.safe before).slots found).1.2.1
  have allowed {s : Ref} {euid : Int} (held : s ∈ (st.thread t).frame.pointers)
      (allowed : (st.kernel.service s).denies euid = false)
      : (st'.kernel.service s).denies euid = false := by
    rw [(sameOwner_of_pointer before unheld step held).denies, allowed]
  cases turn_of_step step t with
  | rest other thread => rwa [thread]
  | @enter euid c event idle thread =>
      rw [thread]
      cases c <;> exact rightful_of_none rfl rfl fun _ same => by cases same <;> rfl
  | @go external frame event exec thread =>
      rw [thread]
      show frame.Rightful _
      cases here : (st.thread t).frame with
      | user last => simp [State.op, here, Frame.op, Kernel.exec] at exec
      | get f =>
          have same := Kernel.exec_sameCall exec
          rw [here] at same
          cases frame <;> first | exact rightful_of_none rfl rfl fun _ h => by cases h | cases same
      | send f =>
          rw [here] at old allowed
          rw [State.op, here] at exec
          exact rightful_of_sendMove old fresh (fun held => allowed held) (sendMove_of_exec exec)
      | receive f =>
          rw [here] at old allowed
          rw [State.op, here] at exec
          exact rightful_of_receiveMove old fresh (fun held => allowed held)
            (receiveMove_of_exec exec)
      | ctl f =>
          rw [here] at old allowed
          rw [State.op, here] at exec
          exact rightful_of_ctlMove old fresh (fun held => allowed held) (ctlMove_of_exec exec)

end TagExchange
