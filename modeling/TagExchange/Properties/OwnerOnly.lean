import TagExchange.Properties.Watertight

/-! A service that only its owner may use: nobody else writes it, takes it out of its slot,
or ends the wait of one of its receivers.
-/

namespace TagExchange

open Concurrency Protocol

variable {τ : Type}

/-- The effective user of a call that opens or uses a service. -/
def Frame.actor : Frame → Option Int
  | user _ => none
  | get f => if f.command = OPEN_TAG then some f.euid else none
  | send f => some f.euid
  | receive f => some f.euid
  | ctl f => some f.euid

-----------------------------------------------------------------------------------------
-- Effects and permissions
-----------------------------------------------------------------------------------------

/-- A call writes only into a service that it has been granted, by cases on the store. -/
theorem granted_of_writes {frame : Frame} {s : Ref} {w : Write}
    (writes : frame.writes = some (s, w))
    : ∃ euid, frame.actor = some euid ∧ frame.granted = some (s, euid) := by
  cases frame with
  | send f =>
      obtain ⟨tag, level, buffer, size, euid, realSize, stored, ts, pc⟩ := f
      cases pc <;> cases writes
      all_goals exact ⟨euid, rfl, rfl⟩
  | receive f =>
      obtain ⟨tag, level, buffer, size, euid, ts, realSize, interrupted, copied, pc⟩ := f
      cases pc <;> cases writes
      all_goals exact ⟨euid, rfl, rfl⟩
  | ctl f =>
      obtain ⟨tag, command, euid, ts, index, awakened, pc⟩ := f
      cases pc <;> cases writes
      all_goals exact ⟨euid, rfl, rfl⟩
  | _ => cases writes

/-- A removal that has marked its service has been granted it. -/
theorem granted_of_marked {frame : Frame} {s : Ref} (marked : frame.marked = some s)
    : ∃ euid, frame.actor = some euid ∧ frame.granted = some (s, euid) := by
  cases frame with
  | ctl f =>
      obtain ⟨tag, command, euid, ts, index, awakened, pc⟩ := f
      rcases pc with _ | _ | _ | _ | _ | _ | _ | _ | (_ | _ | _) | (_ | _ | _) | _ | _ | _ | _ | _
        | _ | _ | _ | _ | _ | _ | _ | _ <;> cases marked
      all_goals exact ⟨euid, rfl, rfl⟩
  | _ => cases marked

theorem marked_of_unlinks {frame : Frame} {i : Int} {s : Ref} (unlinks : frame.unlinks = some (i, s))
    : frame.marked = some s := by
  cases frame with
  | ctl f =>
      obtain ⟨tag, command, euid, ts, index, awakened, pc⟩ := f
      cases pc <;> cases unlinks
      rfl
  | _ => cases unlinks

def GetPc.creates : GetPc → Bool
  | .available | .kzalloc | .fields | .publish | .unlockCreated | .decRemaining | .device _
  | .print => true
  | _ => false

def GetPc.opens : GetPc → Bool
  | .loadOpened | .lazyDeleted | .permission => true
  | _ => false

/-- What the program point of a `tag_get` call says about its arguments. -/
structure GetFrame.OnPath (f : GetFrame) : Prop where
  creates : f.pc.creates = true → f.command = CREATE_TAG
  opens : f.pc.opens = true → f.key ≠ IPC_PRIVATE
  searches : ∀ {pc}, f.pc = .find pc → f.key = IPC_PRIVATE

variable [DecidableEq τ] {G : Guard (State τ) (Event τ)} {h : History (State τ) (Event τ)}
  {st st' : State τ} {e : Event τ} {t : τ} {s : Ref}

omit [DecidableEq τ] in
/-- A step of `tag_get` stays on the path of its arguments, by cases on the move. -/
theorem GetFrame.OnPath.move {k : Kernel τ} {f f' : GetFrame} {pc : GetPc} {frame : Frame}
    (path : f.OnPath) (point : f.pc = pc) (move : GetMove k f pc frame) (target : frame = .get f')
    : f'.OnPath := by
  obtain ⟨key, command, permission, euid, tag, ts, pc⟩ := f
  obtain rfl := point
  obtain ⟨creates, opens, searches⟩ := path
  cases move with
  | lockCreate _ create =>
      obtain rfl := Frame.get.inj target
      exact ⟨fun _ => create, fun now => (by cases now), fun same => (by cases same)⟩
  | opened key =>
      obtain rfl := Frame.get.inj target
      exact ⟨fun now => (by cases now), fun _ => key, fun same => (by cases same)⟩
  | loadOpened =>
      obtain rfl := Frame.get.inj target
      exact ⟨fun now => (by cases now), fun _ => opens rfl, fun same => (by cases same)⟩
  | alive =>
      obtain rfl := Frame.get.inj target
      exact ⟨fun now => (by cases now), fun _ => opens rfl, fun same => (by cases same)⟩
  | search key =>
      obtain rfl := Frame.get.inj target
      exact ⟨fun now => (by cases now), fun now => (by cases now), fun _ => key⟩
  | finding =>
      obtain rfl := Frame.get.inj target
      exact ⟨fun now => (by cases now), fun now => (by cases now), fun _ => searches rfl⟩
  | leave => cases target
  | _ =>
      obtain rfl := Frame.get.inj target
      exact ⟨fun now => (by first | exact creates rfl | cases now), fun now => (by cases now),
        fun same => (by cases same)⟩

theorem onPath_run (run : (machine τ).Run G h st)
    : ∀ {t f}, (st.thread t).frame = .get f → f.OnPath := by
  refine run.invariant (P := fun _ st => ∀ {t f}, (st.thread t).frame = .get f → f.OnPath)
    (fun here => by cases here) ?_
  intro h st e st' before path _ step t f' after
  cases getTurn_of_step step after with
  | rest _ thread => exact path (thread ▸ after)
  | @enter euid c _ entered =>
      cases c <;> cases entered
      exact ⟨fun now => (by cases now), fun now => (by cases now), fun same => (by cases same)⟩
  | move event here calls point move target => exact (path here).move point move target

/-- A call that publishes is a creation. -/
theorem not_actor_of_publishes (run : (machine τ).Run G h st) {r : Ref}
    (publishes : (st.thread t).frame.publishes = some r) {euid : Int}
    (actor : (st.thread t).frame.actor = some euid)
    : False := by
  cases here : (st.thread t).frame with
  | get f =>
      have command := (onPath_run run here).creates
      rw [here] at publishes actor
      obtain ⟨key, command', permission, user, tag, ts, pc⟩ := f
      cases pc <;> cases publishes
      simp only [Frame.actor] at actor
      split at actor
      · next opens => exact absurd (opens.symm.trans (command rfl)) (by decide)
      · cases actor
  | _ => rw [here] at publishes; cases publishes

/-- A step of one call has left a service, its registration and the other threads alone. -/
structure Untouched (st st' : State τ) (t : τ) (s : Ref) : Prop where
  service : st'.kernel.service s = st.kernel.service s
  freed : st'.kernel.freed s = st.kernel.freed s
  slot
    : ∀ i,
        st'.kernel.tsm.allTagServices i = some s ↔ st.kernel.tsm.allTagServices i = some s
  others
    : ∀ u,
        u ≠ t
        → st'.thread u = st.thread u ∧ st'.kernel.signalled u = st.kernel.signalled u

/-- A call by somebody who may not use the service leaves it untouched at every step. -/
theorem untouched_of_outsider (run : (machine τ).Run Unheld h st) {external : Nat}
    (step : st.step (.run t external) = some st') (born : s < st.kernel.services) {euid : Int}
    (actor : (st.thread t).frame.actor = some euid)
    (outsider : (st.kernel.service s).denies euid = true)
    : Untouched st st' t s := by
  -- What has been granted is another service.
  have ungranted {frame : Frame} (same : (st.thread t).frame = frame)
      (granted : ∃ euid, frame.actor = some euid ∧ frame.granted = some (s, euid)) : False := by
    subst same
    obtain ⟨euid', actor', granted⟩ := granted
    obtain rfl : euid' = euid := Option.some.inj (actor'.symm.trans actor)
    have allowed := (rightful_run run t).granted granted
    simp [allowed] at outsider
  refine {
    service := ?_
    freed := ?_
    slot := fun i => ?_
    others := fun u other => ⟨?_, ?_⟩ }
  · rw [service_of_step step born (fun same => by cases same)]
    split
    · next r w writes =>
        split
        · next same =>
            subst same
            exact (ungranted rfl (granted_of_writes writes)).elim
        · rfl
    · rfl
  · cases State.steps_of_step step with
    | run exec =>
        refine Kernel.exec_freed exec fun frees => ?_
        exact ungranted rfl (granted_of_marked (marked_of_emptied (emptied_of_frees frees)))
  · cases State.steps_of_step step with
    | @run _ _ k frame exec =>
        show k.tsm.allTagServices i = some s ↔ _
        cases stores : (st.op t).stores with
        | none => rw [Kernel.exec_unstored exec stores]
        | some stored =>
            obtain ⟨j, ts⟩ := stored
            rw [Kernel.exec_stores exec stores]
            rcases stores_cases stores with ⟨r, rfl, view⟩ | ⟨r, rfl, unlinks, view⟩
            · exact (not_actor_of_publishes run (publishes_of_stores stores) actor).elim
            · have here := (Unheld.safe run).fact t
              simp only [State.view, view] at here
              have found : st.kernel.tsm.allTagServices j = some r := here.1
              rcases eq_or_ne i j with rfl | other
              · rw [Function.update_self, found]
                refine ⟨fun none => (by cases none), fun same => ?_⟩
                obtain rfl := Option.some.inj same
                exact (ungranted rfl (granted_of_marked (marked_of_unlinks unlinks))).elim
              · rw [Function.update_of_ne other]
  · cases turn_of_step step u with
    | rest _ thread => exact thread
    | enter event => cases event
    | go event => cases event; exact absurd rfl other
  · rcases signalled_of_step step u with same | ⟨event, -⟩ | ⟨⟨_, event⟩, -⟩
    · exact same
    · cases event
    · cases event
      exact absurd rfl other

-----------------------------------------------------------------------------------------
-- What the owner has done
-----------------------------------------------------------------------------------------

/-- The runs in which a freed service still reads as last written. -/
def Unreused : Guard (State τ) (Event τ) :=
  fun _ _ e => NoReuse e

instance (h : History (State τ) (Event τ)) (st : State τ) (e : Event τ)
    : Decidable (Unreused h st e) :=
  inferInstanceAs (Decidable (NoReuse e))

omit [DecidableEq τ] in
theorem NoReuse.kept (noReuse : NoReuse e) : e.reuses ≠ some s := by
  cases e with
  | reuse => exact noReuse.elim
  | _ => exact fun same => by cases same

theorem Unreused.unheld (run : (machine τ).Run Unreused h st) : (machine τ).Run Unheld h st :=
  run.mono fun _ _ e ok => by cases e <;> first | exact ok | trivial

/-- Who may use a service has been the same at every moment since its creation, by induction
on what came later.
-/
theorem Since.sameOwner {R Q : Guard (State τ) (Event τ)} (run : (machine τ).Run Unreused h st)
    (born
      : ∀ {past st₁ e₁},
          (machine τ).Run Unreused past st₁ → Q past st₁ e₁ → s < st₁.kernel.services)
    (since : Since R Q h)
    : s < st.kernel.services
      ∧ Since R (fun past st₁ e₁ => Q past st₁ e₁ ∧ SameOwner st₁ st s) h := by
  induction run with
  | start => cases since
  | @next h st e st' before ok step ih =>
      have grows := services_of_step step
      cases since with
      | here holds =>
          have old := born before holds
          exact ⟨Nat.lt_of_lt_of_le old grows,
            .here ⟨holds, sameOwner_of_step step old (NoReuse.kept ok)⟩⟩
      | later earlier kept =>
          obtain ⟨old, since⟩ := ih earlier
          have same := sameOwner_of_step step old (NoReuse.kept ok)
          refine ⟨Nat.lt_of_lt_of_le old grows, .later (since.mono (fun _ _ _ kept => kept) ?_) kept⟩
          exact fun _ _ _ both => ⟨both.1, both.2.tag ▸ same.tag,
            fun euid => (same.denies euid).trans (both.2.denies euid)⟩

omit [DecidableEq τ] in
/-- Only the owner is let through. -/
theorem eq_owner_of_allowed {ts : TagService} {euid : Int} (permission : ts.permission = ONLY_OWNER)
    (allowed : ts.denies euid = false)
    : euid = ts.ownerEuid := by
  simp only [TagService.denies, permission, and_true, decide_eq_false_iff_not, ne_eq,
    not_not] at allowed
  exact allowed.symm

/-- A callback was registered by this call for a service that its user owns. -/
def RegisteredBy (h : History (State τ) (Event τ)) (b : Callback τ) (euid : Int) : Prop :=
  Once
    (fun _ st e =>
      (∃ external, e = .run b.caller.1 external)
      ∧ (st.thread b.caller.1).calls = b.caller.2
      ∧ (st.thread b.caller.1).frame.actor = some euid
      ∧ ∃ b₀, (st.op b.caller.1).registers = some b₀ ∧ b₀.service = b.service ∧ b₀.job = b.job)
    h

omit [DecidableEq τ] in
/-- A call registers a callback in its own name, for a service it has been granted. -/
theorem granted_of_registers {c : CallId τ} {frame : Frame} {b : Callback τ}
    (registers : (frame.op c).registers = some b)
    : b.caller = c
      ∧ ∃ euid, frame.actor = some euid ∧ frame.granted = some (b.service, euid) := by
  cases frame with
  | user last => cases registers
  | get f =>
      obtain ⟨key, command, permission, euid, tag, ts, pc⟩ := f
      cases pc
      case find pc => cases pc <;> cases registers
      case device pc =>
        cases pc using CreateDevicePc.points <;> cases registers
      all_goals cases registers
  | send f =>
      obtain ⟨tag, level, buffer, size, euid, realSize, stored, ts, pc⟩ := f
      cases pc <;> cases registers
      exact ⟨rfl, euid, rfl, rfl⟩
  | receive f =>
      obtain ⟨tag, level, buffer, size, euid, ts, realSize, interrupted, copied, pc⟩ := f
      cases pc
      case entered pc => cases pc <;> cases registers
      case left x pc => cases pc <;> cases registers
      all_goals cases registers
  | ctl f =>
      obtain ⟨tag, command, euid, ts, index, awakened, pc⟩ := f
      cases pc
      case find pc => cases pc <;> cases registers
      case destroy pc => cases pc <;> cases registers
      all_goals cases registers
      exact ⟨rfl, euid, rfl, rfl⟩

/-- Every pending callback has been registered by the call it names, for a service that the
user of that call may use.
-/
theorem registered_run (run : (machine τ).Run Unreused h st)
    : ∀ b ∈ st.kernel.rcu.among Callback.owes,
        ∃ euid, (st.kernel.service b.service).denies euid = false ∧ RegisteredBy h b euid := by
  refine run.invariant
    (P := fun h st => ∀ b ∈ st.kernel.rcu.among Callback.owes,
      ∃ euid, (st.kernel.service b.service).denies euid = false ∧ RegisteredBy h b euid)
    (fun b member => absurd member List.not_mem_nil) ?_
  intro h st e st' before registered ok step b member
  have safe := Unheld.safe (Unreused.unheld before)
  have constant {r : Ref} (old : r < st.kernel.services) : SameOwner st st' r :=
    sameOwner_of_step step old (NoReuse.kept ok)
  -- What was pending before is pending for the same call.
  have carry {b₀ : Callback τ} (old : b₀ ∈ st.kernel.rcu.among Callback.owes) (job : b.job = b₀.job)
      (service : b.service = b₀.service) (caller : b.caller = b₀.caller)
      : ∃ euid, (st'.kernel.service b.service).denies euid = false
          ∧ RegisteredBy ((st, e) :: h) b euid := by
    obtain ⟨euid, allowed, by_⟩ := registered b₀ old
    have here := (safe.callback b₀ old).live.1
    have same := constant (safe.slots here).1.1
    refine ⟨euid, by rw [service, same.denies, allowed], Once.cons ?_ _ _⟩
    simp only [job, service, caller]
    exact by_
  cases State.steps_of_step step with
  | @run t external k frame exec =>
      have member : b ∈ k.rcu.among Callback.owes := member
      rw [Rcu.mem_among, Kernel.exec_callbacks exec] at member
      rcases List.mem_append.mp member.1 with old | new
      · exact carry (Rcu.mem_among.mpr ⟨old, member.2⟩) rfl rfl rfl
      · have registers : (st.op t).registers = some b := by
          cases found : (st.op t).registers with
          | none => simp [found] at new
          | some b' =>
              rw [found, Option.toList_some, List.mem_singleton] at new
              rw [new]
        obtain ⟨caller, euid, actor, granted⟩ := granted_of_registers registers
        have run := Unreused.unheld before
        have born := pointers_born run t _ (granted_mem_pointers granted)
        have allowed := (rightful_run run t).granted granted
        have same := constant born
        refine ⟨euid, (same.denies euid).trans allowed, .here ⟨?_, ?_, ?_, b, ?_, rfl, rfl⟩⟩
        · exact ⟨external, by rw [caller]⟩
        · rw [caller]
        · rw [caller]
          exact actor
        · rw [caller]
          exact registers
  | softirq ready exec =>
      obtain ⟨registered, owes⟩ := Rcu.mem_among.mp member
      obtain ⟨b₀, old, job, service, caller, owed⟩ := Kernel.exec_callback ready exec registered
      exact carry (Rcu.mem_among.mpr ⟨old, owed owes⟩) job service caller
  | call user => exact carry member rfl rfl rfl
  | signal busy => exact carry member rfl rfl rfl
  | reuse freed => exact carry member rfl rfl rfl

-----------------------------------------------------------------------------------------
-- What ends a wait
-----------------------------------------------------------------------------------------

/-- The level is `READY`, and has been since a send of such a user made it so. -/
def ReadyBy (s : Ref) (l : Int) (allowed : Int → Prop) : Guard (State τ) (Event τ) :=
  fun past st _ =>
    st.ready s l = true
    ∧ Since (fun _ st _ => st.ready s l = true)
        (fun _ st e => ∃ c g, st.Posts s l c g e ∧ allowed g.euid) past

/-- `awake_request` is set, and has been since a wake-up of such a user set it. -/
def AwakeBy (s : Ref) (allowed : Int → Prop) : Guard (State τ) (Event τ) :=
  fun past st _ =>
    st.awake s = true
    ∧ Since (fun _ st _ => st.awake s = true)
        (fun _ st e => ∃ c g, st.Requests s c g e ∧ allowed g.euid) past

variable {l : Int}

omit [DecidableEq τ] in
theorem ReadyBy.mono {P Q : Int → Prop} (imp : ∀ euid, P euid → Q euid) (by_ : ReadyBy s l P h st e)
    : ReadyBy s l Q h st e :=
  ⟨by_.1, by_.2.mono (fun _ _ _ kept => kept) fun _ _ _ found =>
    found.imp fun _ found => found.imp fun g both => ⟨both.1, imp g.euid both.2⟩⟩

omit [DecidableEq τ] in
theorem AwakeBy.mono {P Q : Int → Prop} (imp : ∀ euid, P euid → Q euid) (by_ : AwakeBy s P h st e)
    : AwakeBy s Q h st e :=
  ⟨by_.1, by_.2.mono (fun _ _ _ kept => kept) fun _ _ _ found =>
    found.imp fun _ found => found.imp fun g both => ⟨both.1, imp g.euid both.2⟩⟩

/-- The users that may use a service now are those that could use it when it was marked. -/
theorem readyBy_allowed (run : (machine τ).Run Unreused h st) {n : Nat}
    (receives : st.Receives t n s l) (ready : st.ready s l = true)
    : ReadyBy s l (fun euid => (st.kernel.service s).denies euid = false) h st e := by
  obtain ⟨-, posts⟩ :=
    readyByPermittedSend (e := e) (Unreused.unheld run) receives ready
  refine ⟨ready, ?_⟩
  have born {past : History (State τ) (Event τ)} {st₁ : State τ} {e₁ : Event τ}
      (before : (machine τ).Run Unreused past st₁) (found : PermittedPost s l past st₁ e₁)
      : s < st₁.kernel.services := by
    obtain ⟨c, g, posts, -⟩ := found
    exact pointers_born before c.1 s posts.held
  obtain ⟨-, owned⟩ := Since.sameOwner run born posts
  refine owned.mono (fun _ _ _ kept => kept) fun _ st₁ e₁ both => ?_
  obtain ⟨⟨c, g, posts, allowed⟩, same⟩ := both
  exact ⟨c, g, posts, (same.denies _).trans allowed⟩

theorem awakeBy_allowed (run : (machine τ).Run Unreused h st) {n : Nat}
    (receives : st.Receives t n s l) (awake : st.awake s = true)
    : AwakeBy s (fun euid => (st.kernel.service s).denies euid = false) h st e := by
  obtain ⟨-, requests⟩ :=
    awakeByPermittedRequest (e := e) (Unreused.unheld run) receives awake
  refine ⟨awake, ?_⟩
  have born {past : History (State τ) (Event τ)} {st₁ : State τ} {e₁ : Event τ}
      (before : (machine τ).Run Unreused past st₁) (found : PermittedRequest s past st₁ e₁)
      : s < st₁.kernel.services := by
    obtain ⟨c, g, requests, -⟩ := found
    exact pointers_born before c.1 s requests.held
  obtain ⟨-, owned⟩ := Since.sameOwner run born requests
  refine owned.mono (fun _ _ _ kept => kept) fun _ st₁ e₁ both => ?_
  obtain ⟨⟨c, g, requests, -, allowed⟩, same⟩ := both
  exact ⟨c, g, requests, (same.denies _).trans allowed⟩

/-- A receiver that has left its wait without a signal has seen a mark of somebody who may
use its service.
-/
theorem mark_of_return (run : (machine τ).Run Unreused h st) {f : ReceiveFrame}
    (here : (st.thread t).frame = .receive f) (returns : f.pc = .ret 0 ∨ f.pc = .ret (-EINTR))
    : FoundSignal h t (st.thread t).calls f.ts f.level
      ∨ Once
          (fun past st₁ e₁ =>
            st₁.Receives t (st.thread t).calls f.ts f.level
            ∧ (AwakeBy f.ts (fun euid => (st.kernel.service f.ts).denies euid = false) past st₁ e₁
              ∨ ReadyBy f.ts f.level (fun euid => (st.kernel.service f.ts).denies euid = false)
                  past st₁ e₁))
          h := by
  obtain ⟨because, -⟩ := explained_run run here
  have mark
      : FoundSignal h t (st.thread t).calls f.ts f.level
        ∨ SawMark h t (st.thread t).calls f.ts f.level := by
    rcases returns with zero | eintr
    · rw [zero] at because
      exact .inr (Once.mono (fun _ _ _ saw => ⟨saw.1, .inr saw.2⟩) (because.1 rfl))
    · rw [eintr] at because
      exact because.2 rfl
  refine mark.imp_right fun saw => ?_
  have owned
      : Once
          (fun past st₁ e₁ =>
            st₁.Receives t (st.thread t).calls f.ts f.level
            ∧ (AwakeBy f.ts (fun euid => (st₁.kernel.service f.ts).denies euid = false) past st₁ e₁
              ∨ ReadyBy f.ts f.level (fun euid => (st₁.kernel.service f.ts).denies euid = false)
                  past st₁ e₁))
          h :=
    Once.strengthen run (fun before _ saw => ⟨saw.1, saw.2.imp
      (awakeBy_allowed before saw.1) (readyBy_allowed before saw.1)⟩) saw
  obtain ⟨-, owned⟩ := Since.sameOwner (s := f.ts) run
    (fun before saw => pointers_born before t _ (registered_mem_pointers saw.1.2.1)) owned
  refine Once.mono (fun _ _ _ both => ⟨both.1.1, both.1.2.imp ?_ ?_⟩) owned
  · exact AwakeBy.mono fun euid allowed => (both.2.denies euid).trans allowed
  · exact ReadyBy.mono fun euid allowed => (both.2.denies euid).trans allowed

end TagExchange
