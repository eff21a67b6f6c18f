import TagExchange.Properties.Registered

/-! What `tag_get` with `OPEN_TAG` returns, and the key under which the service that it finds
was created.
-/

namespace TagExchange

open Concurrency Protocol

variable {τ : Type}

-----------------------------------------------------------------------------------------
-- Creations
-----------------------------------------------------------------------------------------

/-- The key and the command of a call that is about to fill a new service. -/
def Frame.fills : Frame → Option (Int × Int)
  | get f =>
      match f.pc with
      | .fields => some (f.key, f.command)
      | _ => none
  | _ => none

/-- A call that has found its entry free is a creation. -/
def Frame.CreatesByCommand : Frame → Prop
  | get f =>
      match f.pc with
      | .available | .kzalloc | .fields => f.command = CREATE_TAG
      | _ => True
  | _ => True

/-- A call of `tag_get` with this key and `CREATE_TAG` has created the service. -/
def CreatedUnder (h : History (State τ) (Event τ)) (s : Ref) (key : Int) : Prop :=
  ∃ s₁ t external,
    (s₁, Event.run t external) ∈ h
    ∧ (s₁.thread t).frame.fills = some (key, CREATE_TAG)
    ∧ s₁.kernel.services = s

/-- A call allocates a service exactly where it fills one, and stores its own key there. -/
theorem allocates_key (frame : Frame)
    : frame.allocates.map (·.key) = frame.fills.map fun asked => storedKey asked.1 := by
  cases frame with
  | get f =>
      obtain ⟨key, command, permission, euid, tag, ts, pc⟩ := f
      cases pc <;> rfl
  | _ => rfl

theorem command_of_fills {frame : Frame} {key command : Int} (creates : frame.CreatesByCommand)
    (fills : frame.fills = some (key, command))
    : command = CREATE_TAG := by
  cases frame with
  | get f =>
      obtain ⟨key', command', permission, euid, tag, ts, pc⟩ := f
      cases pc <;> cases fills
      exact creates
  | _ => cases fills

variable [DecidableEq τ] {k k' : Kernel τ} {external : Nat} {frame : Frame}

theorem createsByCommand_of_exec {c : CallId τ} {before : Frame}
    (step : k.exec external (before.op c) = some (k', frame))
    (creates : before.CreatesByCommand)
    : frame.CreatesByCommand := by
  have same := Kernel.exec_sameCall step
  cases before with
  | get f =>
      have move := getMove_of_exec step
      obtain ⟨key, command, permission, euid, tag, ts, pc⟩ := f
      cases move with
      | lockCreate free create => exact create
      | vacant => exact creates
      | kzalloc => exact creates
      | _ => trivial
  | _ => cases frame <;> trivial

-----------------------------------------------------------------------------------------
-- Keys
-----------------------------------------------------------------------------------------

/-- Every service was created once, and until it is freed its `key` is the one stored then. -/
structure Keyed (h : History (State τ) (Event τ)) (st : State τ) : Prop where
  command : ∀ t, (st.thread t).frame.CreatesByCommand
  created : ∀ {s key}, CreatedUnder h s key → s < st.kernel.services
  once : ∀ {s key key'}, CreatedUnder h s key → CreatedUnder h s key' → key = key'
  key
    : ∀ {s},
        s < st.kernel.services
        → ∃ key,
            CreatedUnder h s key
            ∧ (st.kernel.freed s = false → (st.kernel.service s).key = storedKey key)

omit [DecidableEq τ] in
theorem keyed_start : Keyed [] (State.start : State τ) where
  command _ := trivial
  created := nofun
  once := nofun
  key := nofun

omit [DecidableEq τ] in
theorem CreatedUnder.later {h : History (State τ) (Event τ)} {s : Ref} {key : Int}
    (created : CreatedUnder h s key) (moment : State τ × Event τ)
    : CreatedUnder (moment :: h) s key := by
  obtain ⟨s₁, t, external, member, facts⟩ := created
  exact ⟨s₁, t, external, List.mem_cons_of_mem moment member, facts⟩

omit [DecidableEq τ] in
/-- A creation of the longer history is an old one, or the step just taken. -/
theorem createdUnder_cons {h : History (State τ) (Event τ)} {st : State τ} {e : Event τ}
    {s : Ref} {key : Int} (created : CreatedUnder ((st, e) :: h) s key)
    : CreatedUnder h s key
      ∨ ∃ t external,
          e = .run t external
          ∧ (st.thread t).frame.fills = some (key, CREATE_TAG)
          ∧ s = st.kernel.services := by
  obtain ⟨s₁, t, external, member, fills, same⟩ := created
  rcases List.mem_cons.mp member with here | before
  · obtain ⟨rfl, rfl⟩ := Prod.mk.inj here
    exact .inr ⟨t, external, rfl, fills, same.symm⟩
  · exact .inl ⟨s₁, t, external, before, fills, same⟩

variable {h : History (State τ) (Event τ)} {st st' : State τ} {e : Event τ} {t : τ}

omit [DecidableEq τ] in
/-- An event that creates nothing keeps the keys, if it keeps those of unfreed services. -/
theorem Keyed.of_same (x : Keyed h st)
    (nothing : ∀ t external, e = .run t external → (st.thread t).frame.fills = none)
    (command : ∀ t, (st'.thread t).frame.CreatesByCommand)
    (services : st'.kernel.services = st.kernel.services)
    (kept
      : ∀ {s},
          s < st.kernel.services
          → st'.kernel.freed s = false
          → st.kernel.freed s = false ∧ (st'.kernel.service s).key = (st.kernel.service s).key)
    : Keyed ((st, e) :: h) st' := by
  have old {s key} (created : CreatedUnder ((st, e) :: h) s key) : CreatedUnder h s key := by
    rcases createdUnder_cons created with before | ⟨t, external, rfl, fills, -⟩
    · exact before
    · simp [nothing t external rfl] at fills
  refine ⟨command, fun created => services ▸ x.created (old created),
    fun created created' => x.once (old created) (old created'), fun {s} born => ?_⟩
  obtain ⟨key, created, stored⟩ := x.key (services ▸ born)
  refine ⟨key, created.later _, fun unfreed => ?_⟩
  obtain ⟨before, same⟩ := kept (services ▸ born) unfreed
  exact same.trans (stored before)

/-- A step of a call keeps the keys: a new service is created under the key of the call. -/
theorem Keyed.run (x : Keyed h st) (exec : st.kernel.exec external (st.op t) = some (k, frame))
    : Keyed ((st, .run t external) :: h)
        ({ st with kernel := k }.setThread t ⟨(st.thread t).calls, frame⟩) := by
  have command (u : τ)
      : (({ st with kernel := k }.setThread t ⟨(st.thread t).calls, frame⟩).thread u).frame.CreatesByCommand := by
    rw [State.setThread_frame]
    split
    · exact createsByCommand_of_exec exec (x.command t)
    · exact x.command u
  have allocates
      : (st.op t).allocates.map (·.key)
        = (st.thread t).frame.fills.map fun asked => storedKey asked.1 := by
    rw [State.op, op_allocates, allocates_key]
  cases fills : (st.thread t).frame.fills with
  | none =>
      have none_new : (st.op t).allocates = none := by
        simpa [fills] using allocates
      refine x.of_same ?_ command (Kernel.exec_allocates_none exec none_new) fun born unfreed =>
        ⟨Kernel.exec_unfreed exec unfreed, Kernel.exec_field Write.apply_key exec born⟩
      rintro u _ ⟨⟩
      exact fills
  | some asked =>
      obtain ⟨key, asked⟩ := asked
      obtain rfl := command_of_fills (x.command t) fills
      obtain ⟨ts, here, stored⟩ : ∃ ts, (st.op t).allocates = some ts ∧ ts.key = storedKey key := by
        simpa [fills] using allocates
      obtain ⟨services, service, freed⟩ := Kernel.exec_allocates exec here
      have new : CreatedUnder ((st, .run t external) :: h) st.kernel.services key :=
        ⟨st, t, external, List.mem_cons_self .., fills, rfl⟩
      have cases {s key'} (created : CreatedUnder ((st, .run t external) :: h) s key')
          : CreatedUnder h s key' ∨ (key' = key ∧ s = st.kernel.services) := by
        rcases createdUnder_cons created with before | ⟨u, external', same, fills', here⟩
        · exact .inl before
        · obtain ⟨rfl, rfl⟩ := Event.run.inj same
          obtain ⟨rfl, -⟩ := Prod.mk.inj (Option.some.inj (fills'.symm.trans fills))
          exact .inr ⟨rfl, here⟩
      refine ⟨command, fun {s key'} created => ?_, fun created created' => ?_, fun {s} born => ?_⟩
      · show s < k.services
        rw [services]
        rcases cases created with before | ⟨-, rfl⟩
        · exact Nat.lt_succ_of_lt (x.created before)
        · exact Nat.lt_succ_self _
      · rcases cases created with before | ⟨rfl, rfl⟩ <;>
          rcases cases created' with before' | ⟨rfl, here'⟩
        · exact x.once before before'
        · exact absurd (here' ▸ x.created before) (Nat.lt_irrefl _)
        · exact absurd (x.created before') (Nat.lt_irrefl _)
        · rfl
      · have born : s < st.kernel.services + 1 := services ▸ born
        rcases Nat.lt_succ_iff_lt_or_eq.mp born with old | rfl
        · obtain ⟨key', created, kept⟩ := x.key old
          refine ⟨key', created.later _, fun unfreed => ?_⟩
          exact (Kernel.exec_field Write.apply_key exec old).trans
            (kept (Kernel.exec_unfreed exec unfreed))
        · refine ⟨key, new, fun _ => ?_⟩
          show (k.service st.kernel.services).key = _
          rw [service, Function.update_self, stored]

theorem Keyed.step (x : Keyed h st) (step : st.step e = some st')
    : Keyed ((st, e) :: h) st' := by
  cases State.steps_of_step step with
  | @call t euid c last user =>
      refine x.of_same nofun (fun u => ?_) rfl fun _ unfreed => ⟨unfreed, rfl⟩
      rw [State.setThread_frame]
      split
      · cases c <;> trivial
      · exact x.command u
  | run exec => exact x.run exec
  | softirq ready exec =>
      obtain ⟨-, freed, services⟩ := homes_of_callback exec
      refine x.of_same nofun x.command services fun {s} born unfreed => ⟨?_, ?_⟩
      · exact Kernel.exec_unfreed exec unfreed
      · exact Kernel.exec_field Write.apply_key exec born
  | signal busy => exact x.of_same nofun x.command rfl fun _ unfreed => ⟨unfreed, rfl⟩
  | @reuse s ts freed =>
      refine x.of_same nofun x.command rfl fun {r} _ unfreed => ⟨unfreed, ?_⟩
      have other : r ≠ s := by
        rintro rfl
        simp [show st.kernel.freed r = false from unfreed] at freed
      simp only [Function.update_of_ne other]

theorem keyed_run {G : Guard (State τ) (Event τ)} (run : (machine τ).Run G h st)
    : Keyed h st :=
  run.invariant keyed_start fun _ x _ step => x.step step

-----------------------------------------------------------------------------------------
-- One call alone
-----------------------------------------------------------------------------------------

/-- No other call takes a step, and none begins. -/
def OnlyBy (t : τ) : Guard (State τ) (Event τ) :=
  fun _ _ e =>
    match e with
    | .call _ _ _ => False
    | .run u _ => u = t
    | _ => True

/-- A permission that `tag_get` accepts. -/
def ValidPermission (permission : Int) : Prop :=
  permission = EVERYONE ∨ permission = ONLY_OWNER

instance (permission : Int) : Decidable (ValidPermission permission) :=
  inferInstanceAs (Decidable (_ ∨ _))

/-- What `tag_get` with `OPEN_TAG` returns when it runs alone from this state. -/
def State.openResult (st : State τ) (euid key permission : Int) : Int :=
  if ¬ ValidPermission permission then -EINVAL
  else if key = IPC_PRIVATE then -EBADR
  else
    match st.kernel.tsm.allTagServices (hashFunction key) with
    | none => -EBADR
    | some s =>
        if (st.kernel.service s).lazyDeleted then -EBADR
        else if (st.kernel.service s).denies euid then -EACCES
        else hashFunction key

/-- What the call has found out at a program point, its `tag` and `ts` being these. -/
def State.OpensAt (st : State τ) (euid key permission tag : Int) (ts : Ref) : GetPc → Prop
  | .entry => True
  | .find _ => ValidPermission permission ∧ key = IPC_PRIVATE
  | .lock | .opened =>
      ValidPermission permission ∧ (key ≠ IPC_PRIVATE → tag = hashFunction key)
  | .loadOpened =>
      ValidPermission permission ∧ key ≠ IPC_PRIVATE ∧ tag = hashFunction key
      ∧ st.kernel.tsm.allTagServices tag ≠ none
  | .lazyDeleted =>
      ValidPermission permission ∧ key ≠ IPC_PRIVATE ∧ tag = hashFunction key
      ∧ st.kernel.tsm.allTagServices tag = some ts
  | .permission =>
      ValidPermission permission ∧ key ≠ IPC_PRIVATE ∧ tag = hashFunction key
      ∧ st.kernel.tsm.allTagServices tag = some ts
      ∧ (st.kernel.service ts).lazyDeleted = false
  | .unlockDenied | .denied => -EACCES = st.openResult euid key permission
  | .unlock r | .ret r => r = st.openResult euid key permission
  | _ => False

/-- The frames of a call of `tag_get` with `OPEN_TAG` that has begun in this state. -/
def State.Opens (st : State τ) (euid key permission : Int) : Frame → Prop
  | .user last => last = some (st.openResult euid key permission)
  | .get f =>
      f.key = key ∧ f.command = OPEN_TAG ∧ f.permission = permission ∧ f.euid = euid
      ∧ st.OpensAt euid key permission f.tag f.ts f.pc
  | _ => False

/-- The entry of a service that nobody else changes while a call runs alone. -/
structure TagService.SameEntry (ts' ts : TagService) : Prop where
  lazyDeleted : ts'.lazyDeleted = ts.lazyDeleted
  permission : ts'.permission = ts.permission
  ownerEuid : ts'.ownerEuid = ts.ownerEuid

/-- The registry is as it was when the call began. -/
structure SameRegistry (st' st : State τ) : Prop where
  slots : st'.kernel.tsm.allTagServices = st.kernel.tsm.allTagServices
  freed : st'.kernel.freed = st.kernel.freed
  entry
    : ∀ {s},
        st.kernel.freed s = false → (st'.kernel.service s).SameEntry (st.kernel.service s)

/-- The call itself leaves the registry and the services alone. -/
theorem opens_silent {st₀ : State τ} {c : CallId τ} {before : Frame}
    {euid key permission : Int} (opens : st₀.Opens euid key permission before)
    (step : k.exec external (before.op c) = some (k', frame))
    : k'.tsm.allTagServices = k.tsm.allTagServices
      ∧ k'.freed = k.freed
      ∧ k'.service = k.service := by
  have performs := Kernel.exec_performs step
  rw [performs.slots, performs.freed, performs.service]
  cases before with
  | get f =>
      obtain ⟨key', command, permission', euid', tag, ts, pc⟩ := f
      cases pc
      case find pc => cases pc <;> exact ⟨rfl, rfl, rfl⟩
      all_goals first | exact opens.2.2.2.2.elim | exact ⟨rfl, rfl, rfl⟩
  | user last => exact ⟨rfl, rfl, rfl⟩
  | _ => exact opens.elim

/-- A step of the call finds out what the entry of its key says, by cases on the program
point.
-/
theorem opens_of_exec {st₀ : State τ} (homes : Homes st₀) {c : CallId τ} {before : Frame}
    {euid key permission : Int} (same : SameRegistry st st₀)
    (opens : st₀.Opens euid key permission before)
    (step : st.kernel.exec external (before.op c) = some (k, frame))
    : st₀.Opens euid key permission frame := by
  cases before with
  | get f =>
      obtain ⟨key', command, permission', euid', tag, ts, pc⟩ := f
      obtain ⟨rfl, rfl, rfl, rfl, opens⟩ := opens
      change st₀.OpensAt euid' key' permission' tag ts pc at opens
      show st₀.Opens euid' key' permission' frame
      cases pc
      case entry =>
        obtain ⟨-, rfl⟩ := Prod.mk.inj (Option.some.inj step)
        have valid
            : GetFrame.ValidArguments ⟨key', OPEN_TAG, permission', euid', tag, ts, .entry⟩
              ↔ ValidPermission permission' :=
          and_iff_left (.inr rfl)
        simp only [valid]
        split
        · next invalid =>
            refine ⟨rfl, rfl, rfl, rfl, ?_⟩
            simp [State.OpensAt, State.openResult, invalid]
        · next valid =>
            split
            · exact ⟨rfl, rfl, rfl, rfl, Decidable.not_not.mp valid, fun _ => rfl⟩
            · next unnamed =>
                exact ⟨rfl, rfl, rfl, rfl, Decidable.not_not.mp valid,
                  Decidable.not_not.mp unnamed⟩
      case find pc =>
        obtain ⟨valid, private_⟩ := opens
        obtain ⟨next, -, rfl⟩ := Kernel.exec_map_eq_some step
        cases next with
        | go pc => exact ⟨rfl, rfl, rfl, rfl, valid, private_⟩
        | back i =>
            have opening : ¬ (i = -1 ∧ OPEN_TAG = CREATE_TAG) :=
              fun both => absurd both.2 (by decide)
            simp only [GetFrame.found, opening, if_false]
            exact ⟨rfl, rfl, rfl, rfl, valid, fun named => (named private_).elim⟩
      case lock =>
        obtain ⟨-, step⟩ := Option.ite_none_left_eq_some.mp step
        obtain ⟨-, rfl⟩ := Prod.mk.inj (Option.some.inj step)
        exact ⟨rfl, rfl, rfl, rfl, opens⟩
      case opened =>
        obtain ⟨valid, index⟩ := opens
        obtain ⟨-, rfl⟩ := Prod.mk.inj (Option.some.inj step)
        rw [same.slots]
        dsimp only
        split
        · next found =>
            obtain ⟨full, named⟩ := found
            exact ⟨rfl, rfl, rfl, rfl, valid, named, index named,
              Option.isSome_iff_ne_none.mp full⟩
        · next missing =>
            refine ⟨rfl, rfl, rfl, rfl, ?_⟩
            by_cases private_ : key' = IPC_PRIVATE
            · simp [State.OpensAt, State.openResult, valid, private_]
            · have empty : st₀.kernel.tsm.allTagServices (hashFunction key') = none := by
                simpa [private_, index private_] using missing
              simp [State.OpensAt, State.openResult, valid, private_, empty]
      case loadOpened =>
        obtain ⟨valid, named, index, full⟩ := opens
        obtain ⟨-, rfl⟩ := Prod.mk.inj (Option.some.inj step)
        rw [same.slots]
        cases found : st₀.kernel.tsm.allTagServices tag with
        | none => exact absurd found full
        | some s => exact ⟨rfl, rfl, rfl, rfl, valid, named, index, found⟩
      case lazyDeleted =>
        obtain ⟨valid, named, index, found⟩ := opens
        obtain ⟨-, rfl⟩ := Prod.mk.inj (Option.some.inj step)
        have entry := same.entry (homes.slot found).2
        dsimp only
        rw [entry.lazyDeleted]
        split
        · next deleted =>
            refine ⟨rfl, rfl, rfl, rfl, ?_⟩
            simp [State.OpensAt, State.openResult, valid, named, ← index, found, deleted]
        · next alive =>
            exact ⟨rfl, rfl, rfl, rfl, valid, named, index, found, by simpa using alive⟩
      case permission =>
        obtain ⟨valid, named, index, found, alive⟩ := opens
        obtain ⟨-, rfl⟩ := Prod.mk.inj (Option.some.inj step)
        have entry := same.entry (homes.slot found).2
        have denies : (st.kernel.service ts).denies euid' = (st₀.kernel.service ts).denies euid' := by
          simp only [TagService.denies, entry.permission, entry.ownerEuid]
        dsimp only
        rw [denies]
        split
        · next denied =>
            refine ⟨rfl, rfl, rfl, rfl, ?_⟩
            simp [State.OpensAt, State.openResult, valid, named, ← index, found, alive, denied]
        · next allowed =>
            refine ⟨rfl, rfl, rfl, rfl, ?_⟩
            simp [State.OpensAt, State.openResult, valid, named, ← index, found, alive, allowed]
      case unlockDenied =>
        obtain ⟨-, rfl⟩ := Prod.mk.inj (Option.some.inj step)
        exact ⟨rfl, rfl, rfl, rfl, opens⟩
      case denied =>
        obtain ⟨-, rfl⟩ := Prod.mk.inj (Option.some.inj step)
        exact ⟨rfl, rfl, rfl, rfl, opens⟩
      case unlock r =>
        obtain ⟨-, rfl⟩ := Prod.mk.inj (Option.some.inj step)
        exact ⟨rfl, rfl, rfl, rfl, opens⟩
      case ret r =>
        obtain ⟨-, rfl⟩ := Prod.mk.inj (Option.some.inj step)
        exact congrArg some opens
      all_goals exact opens.elim
  | user last => cases step
  | _ => exact opens.elim

/-- Callbacks change messages and wake-up requests only. -/
theorem sameEntry_of_callback {b : Callback τ} {next : Option (Callback τ)}
    (step : k.exec external b.op = some (k', next)) (s : Ref)
    : (k'.service s).SameEntry (k.service s) where
  lazyDeleted :=
    Kernel.exec_callback_field (fun _ _ => rfl) (fun _ _ => rfl) (fun _ => rfl) step s
  permission :=
    Kernel.exec_callback_field (fun _ _ => rfl) (fun _ _ => rfl) (fun _ => rfl) step s
  ownerEuid :=
    Kernel.exec_callback_field (fun _ _ => rfl) (fun _ _ => rfl) (fun _ => rfl) step s

/-- A call that runs alone sees the registry of the state it began in. -/
theorem opens_run {st₀ : State τ} (homes : Homes st₀) {st₁ : State τ} {euid key permission : Int}
    (entered : st₀.step (.call t euid (.tagGet key OPEN_TAG permission)) = some st₁)
    (alone : ((machine τ).startAt st₁).Run (OnlyBy t) h st)
    : SameRegistry st st₀ ∧ st₀.Opens euid key permission (st.thread t).frame := by
  refine alone.invariant
    (P := fun _ st => SameRegistry st st₀ ∧ st₀.Opens euid key permission (st.thread t).frame)
    ?_ ?_
  · cases State.steps_of_step entered with
    | call user =>
        refine ⟨⟨rfl, rfl, fun _ => ⟨rfl, rfl, rfl⟩⟩, ?_⟩
        simp only [Machine.startAt, State.setThread, Function.update_self]
        exact ⟨rfl, rfl, rfl, rfl, trivial⟩
  · intro h st e st' _ before ok step
    obtain ⟨same, opens⟩ := before
    cases State.steps_of_step step with
    | call user => exact ok.elim
    | @run u external k frame exec =>
        obtain rfl : u = t := ok
        obtain ⟨slots, freed, service⟩ := opens_silent opens exec
        refine ⟨⟨slots.trans same.slots, freed.trans same.freed, fun {s} unfreed => ?_⟩, ?_⟩
        · show (k.service s).SameEntry _
          rw [service]
          exact same.entry unfreed
        · simp only [State.setThread, Function.update_self]
          exact opens_of_exec homes same opens exec
    | softirq ready exec =>
        obtain ⟨slots, freed, -⟩ := homes_of_callback exec
        refine ⟨⟨slots.trans same.slots, freed.trans same.freed, fun {s} unfreed => ?_⟩, opens⟩
        have now := sameEntry_of_callback exec s
        have before := same.entry unfreed
        exact ⟨now.lazyDeleted.trans before.lazyDeleted, now.permission.trans before.permission,
          now.ownerEuid.trans before.ownerEuid⟩
    | signal busy => exact ⟨⟨same.slots, same.freed, same.entry⟩, opens⟩
    | @reuse r ts freed =>
        refine ⟨⟨same.slots, same.freed, fun {s} unfreed => ?_⟩, opens⟩
        have other : s ≠ r := by
          rintro rfl
          simp [same.freed, unfreed] at freed
        simp only [Function.update_of_ne other]
        exact same.entry unfreed

-----------------------------------------------------------------------------------------
-- The service found
-----------------------------------------------------------------------------------------

/-- The service to which the key leads has that key, if the call may open it. -/
def State.KeyMatches (st : State τ) (euid key permission : Int) : Prop :=
  ValidPermission permission
  → key ≠ IPC_PRIVATE
  → 0 ≤ hashFunction key
  → ∀ s ∈ st.kernel.tsm.allTagServices (hashFunction key),
      (st.kernel.service s).lazyDeleted = false
      → (st.kernel.service s).denies euid = false
      → (st.kernel.service s).key = key

/-- The descriptor is that of a service created under this key and no other, and the key is
not `IPC_PRIVATE`.
-/
def OpensOwnKey (h : History (State τ) (Event τ)) (st : State τ) (key r : Int) : Prop :=
  key ≠ IPC_PRIVATE
  ∧ ∃ s,
      st.kernel.tsm.allTagServices r = some s
      ∧ ∀ key', CreatedUnder h s key' ↔ key' = key

omit [DecidableEq τ] in
/-- A descriptor is found only for a key that leads to a service which the call may open. -/
theorem openResult_nonneg {euid key permission : Int}
    (found : 0 ≤ st.openResult euid key permission)
    : ValidPermission permission
      ∧ key ≠ IPC_PRIVATE
      ∧ st.openResult euid key permission = hashFunction key
      ∧ ∃ s,
          st.kernel.tsm.allTagServices (hashFunction key) = some s
          ∧ (st.kernel.service s).lazyDeleted = false
          ∧ (st.kernel.service s).denies euid = false := by
  unfold State.openResult at found ⊢
  split at found
  · exact absurd found (by decide)
  · next valid =>
      split at found
      · exact absurd found (by decide)
      · next named =>
          split at found
          · exact absurd found (by decide)
          · next s full =>
              split at found
              · exact absurd found (by decide)
              · next alive =>
                  split at found
                  · exact absurd found (by decide)
                  · next allowed =>
                      refine ⟨Decidable.not_not.mp valid, named, ?_, s, full,
                        by simpa using alive, by simpa using allowed⟩
                      simp [valid, named, alive, allowed]

omit [DecidableEq τ] in
theorem openResult_of_match {euid key permission : Int} {s : Ref}
    (valid : ValidPermission permission) (named : key ≠ IPC_PRIVATE)
    (found : st.kernel.tsm.allTagServices (hashFunction key) = some s)
    (alive : (st.kernel.service s).lazyDeleted = false)
    (allowed : (st.kernel.service s).denies euid = false)
    : st.openResult euid key permission = hashFunction key := by
  simp [State.openResult, valid, named, found, alive, allowed]

/-- The key `-1`, which is stored for private services, does not hash into the arrays. -/
theorem key_of_stored {key key' : Int} (index : 0 ≤ hashFunction key)
    (stored : storedKey key' = key)
    : key' = key := by
  unfold storedKey at stored
  split at stored
  · subst stored
    exact absurd index (by decide)
  · exact stored

/-- A call with `OPEN_TAG` that runs alone from any reachable state returns no descriptor but
that of a service created under its own key, if and only if the key stored in the service
to which its key leads is that key.
-/
theorem open_tag_own_key (run : (machine τ).Run anyStep h st) {st₁ : State τ}
    {euid key permission : Int}
    (entered : st.step (.call t euid (.tagGet key OPEN_TAG permission)) = some st₁)
    {h' : History (State τ) (Event τ)}
    (alone : ((machine τ).startAt st₁).Run (OnlyBy t) h' st') {r : Int}
    (returned : (st'.thread t).frame = .user (some r))
    : (0 ≤ r → OpensOwnKey h st' key r) ↔ st.KeyMatches euid key permission := by
  have homes := homes_run run
  have keyed := keyed_run run
  obtain ⟨same, opens⟩ := opens_run homes entered alone
  obtain rfl : r = st.openResult euid key permission := by
    rw [returned] at opens
    exact Option.some.inj opens
  constructor
  · intro own valid named index s found alive allowed
    have result := openResult_of_match valid named found alive allowed
    rw [result] at own
    obtain ⟨-, s', found', created⟩ := own index
    obtain rfl : s' = s := by simpa [same.slots, show _ = some s from found] using found'.symm
    obtain ⟨born, unfreed⟩ := homes.slot found
    obtain ⟨key', here, stored⟩ := keyed.key born
    obtain rfl := (created key').mp here
    simpa [storedKey, named] using stored unfreed
  · intro agree descriptor
    obtain ⟨valid, named, result, s, found, alive, allowed⟩ := openResult_nonneg descriptor
    rw [result] at descriptor ⊢
    obtain ⟨born, unfreed⟩ := homes.slot found
    obtain ⟨key', here, stored⟩ := keyed.key born
    obtain rfl := key_of_stored descriptor
      ((stored unfreed).symm.trans (agree valid named descriptor s found alive allowed))
    refine ⟨named, s, same.slots ▸ found, fun other => ⟨fun created => keyed.once created here, ?_⟩⟩
    rintro rfl
    exact here

instance (t : τ) (h : History (State τ) (Event τ)) (st : State τ) (e : Event τ)
    : Decidable (OnlyBy t h st e) :=
  match e with
  | .call _ _ _ => isFalse id
  | .run u _ => inferInstanceAs (Decidable (u = t))
  | .softirq _ | .signal _ | .reuse _ _ => isTrue trivial

/-- The events of a call that opens a key, and the test of what it returns. -/
def opening (t : τ) (key r : Int) (st : State τ) : Bool :=
  match st.step (.call t 0 (.tagGet key OPEN_TAG EVERYONE)) with
  | some st₁ =>
      (((machine τ).startAt st₁).replay (OnlyBy t) (runs t 8) [] st₁).any fun end_ =>
        (end_.2.thread t).frame.result == some r
  | none => false

theorem exists_of_opening {key r : Int} (opens : opening t key r st = true)
    : ∃ st₁ h' st',
        st.step (.call t 0 (.tagGet key OPEN_TAG EVERYONE)) = some st₁
        ∧ ((machine τ).startAt st₁).Run (OnlyBy t) h' st'
        ∧ (st'.thread t).frame = .user (some r) := by
  unfold opening at opens
  split at opens
  · next st₁ entered =>
      obtain ⟨h', st', alone, result⟩ := Machine.Run.exists_of_replay
        (M := (machine τ).startAt st₁) (G := OnlyBy t) (runs t 8)
        (fun _ st' => (st'.thread t).frame.result == some r) opens
      exact ⟨st₁, h', st', entered, alone, Frame.eq_user_of_result (by simpa using result)⟩
  · cases opens

/-- A service created under the key 1 is opened under the key 1. -/
theorem open_tag_own_key_one
    : ∃ (h : History (State (Fin 2)) (Event (Fin 2))) (st st' : State (Fin 2)),
        (machine (Fin 2)).Run anyStep h st
        ∧ st.KeyMatches 0 1 EVERYONE
        ∧ (st'.thread 1).frame = .user (some 1)
        ∧ OpensOwnKey h st' 1 1 := by
  obtain ⟨h, st, run, facts⟩ := Machine.Run.exists_of_replay
    (M := machine (Fin 2)) (G := anyStep) (creating 0 1)
    (fun _ st => opening 1 1 1 st && st.kernel.tsm.allTagServices 1 == some 0
      && (st.kernel.service 0).key == 1)
    (by decide +kernel)
  simp only [Bool.and_eq_true, beq_iff_eq] at facts
  obtain ⟨⟨opens, found⟩, key⟩ := facts
  obtain ⟨st₁, h', st', entered, alone, returned⟩ := exists_of_opening opens
  have agree : st.KeyMatches 0 1 EVERYONE := by
    intro _ _ _ s here _ _
    have here : st.kernel.tsm.allTagServices 1 = some s := here
    obtain rfl : 0 = s := Option.some.inj (found.symm.trans here)
    exact key
  exact ⟨h, st, st', run, agree, returned,
    (open_tag_own_key run entered alone returned).mpr agree (by decide)⟩

/-- The event is a step that fills a service under this key. -/
def State.fillsUnder (st : State τ) (key : Int) : Event τ → Bool
  | .run t _ => (st.thread t).frame.fills == some (key, CREATE_TAG)
  | _ => false

/-- Without the condition a private service can be opened: it is in the entry 0, to which the
key 512 hashes.
-/
theorem open_tag_private
    : ¬ ∀ (h h' : History (State (Fin 2)) (Event (Fin 2))) (st st₁ st' : State (Fin 2))
          (t : Fin 2) (euid key permission r : Int),
        (machine (Fin 2)).Run anyStep h st
        → (∀ u, ∃ last, (st.thread u).frame = .user last)
        → st.step (.call t euid (.tagGet key OPEN_TAG permission)) = some st₁
        → ((machine (Fin 2)).startAt st₁).Run (OnlyBy t) h' st'
        → (st'.thread t).frame = .user (some r)
        → 0 ≤ r
        → OpensOwnKey h st' key r := by
  intro always
  obtain ⟨h, st, run, facts⟩ := Machine.Run.exists_of_replay
    (M := machine (Fin 2)) (G := anyStep)
    (.call 0 0 (.tagGet IPC_PRIVATE CREATE_TAG EVERYONE)
      :: runs 0 6 ++ completing 0)
    (fun h st =>
      opening 1 512 0 st && decide (∀ u, (st.thread u).frame.idle = true)
        && h.all fun moment => !moment.1.fillsUnder 512 moment.2)
    (by decide +kernel)
  simp only [Bool.and_eq_true, decide_eq_true_eq] at facts
  obtain ⟨⟨opens, idle⟩, others⟩ := facts
  obtain ⟨st₁, h', st', entered, alone, returned⟩ := exists_of_opening opens
  obtain ⟨-, s, -, created⟩ := always h h' st st₁ st' 1 0 512 EVERYONE 0 run
    (fun u => Frame.eq_user_of_idle (idle u)) entered alone returned (by decide)
  obtain ⟨s₁, t, external, member, fills, -⟩ := (created 512).mpr rfl
  have other := List.all_eq_true.mp others _ member
  simp [State.fillsUnder, fills] at other

end TagExchange
