import TagExchange.Model.CallerMoves
import TagExchange.Properties.Pointers
import TagExchange.Properties.RegistrySteps

/-! In every run, whatever the allocator does with freed memory, a service that is in a slot
has not been freed, and still carries the key of its creation.
-/

namespace TagExchange

open Concurrency Protocol

variable {τ : Type}

-----------------------------------------------------------------------------------------
-- Creations and removals in flight
-----------------------------------------------------------------------------------------

/-- The service a creation has filled and not published. -/
def Frame.publishes : Frame → Option Ref
  | get f =>
      match f.pc with
      | .publish => some f.ts
      | _ => none
  | _ => none

/-- The slot and the service that a `tag_ctl` call has loaded from it. -/
def Frame.controls : Frame → Option (Int × Ref)
  | ctl f =>
      match f.pc with
      | .entry | .load | .ret _ => none
      | _ => some (f.tag, f.ts)
  | _ => none

/-- The service a removal has taken out of its slot and not freed. -/
def Frame.emptied : Frame → Option Ref
  | ctl f =>
      match f.pc with
      | .find _ | .incRemaining | .kfree => some f.ts
      | _ => none
  | _ => none

theorem controls_of_emptied {frame : Frame} {s : Ref} (emptied : frame.emptied = some s)
    : ∃ i, frame.controls = some (i, s) := by
  cases frame with
  | ctl f =>
      obtain ⟨tag, command, euid, ts, index, awakened, pc⟩ := f
      cases pc <;> cases emptied
      all_goals exact ⟨tag, rfl⟩
  | _ => cases emptied

theorem emptied_of_frees {c : CallId τ} {frame : Frame} {s : Ref}
    (frees : (frame.op c).frees = some s)
    : frame.emptied = some s := by
  obtain ⟨tag, command, euid, index, awakened, rfl⟩ := point_of_frees frees
  rfl

/-- What a step stores into a slot is what the call was about to publish. -/
theorem publishes_of_stores {c : CallId τ} {frame : Frame} {i : Int} {s : Ref}
    (stores : (frame.op c).stores = some (i, some s))
    : frame.publishes = some s := by
  rcases point_of_stores stores with
    ⟨key, command, permission, euid, r, same, rfl⟩ | ⟨command, euid, r, index, awakened, none_, -⟩
  · exact same.symm
  · cases none_

variable [DecidableEq τ] {k k' : Kernel τ} {external : Nat} {frame : Frame}

/-- A call is about to publish only what it has just got from the allocator. -/
theorem publishes_of_exec {c : CallId τ} {before : Frame} {s : Ref}
    (step : k.exec external (before.op c) = some (k', frame))
    (publishes : frame.publishes = some s)
    : s = k.services ∧ k'.services = k.services + 1 := by
  have same := Kernel.exec_sameCall step
  cases before with
  | get f =>
      have move := getMove_of_exec step
      obtain ⟨key, command, permission, euid, tag, ts, pc⟩ := f
      cases move with
      | fields =>
          obtain ⟨rfl, -⟩ := Prod.mk.inj (Option.some.inj step)
          exact ⟨(Option.some.inj publishes).symm, rfl⟩
      | _ => cases publishes
  | _ => cases frame <;> first | cases publishes | cases same

/-- What a `tag_ctl` call holds it held before, or it has loaded it from the slot. -/
theorem controls_of_exec {c : CallId τ} {before : Frame} {i : Int} {s : Ref}
    (step : k.exec external (before.op c) = some (k', frame))
    (controls : frame.controls = some (i, s))
    : before.controls = some (i, s) ∨ k.tsm.allTagServices i = some s := by
  have same := Kernel.exec_sameCall step
  cases before with
  | ctl f =>
      have move := ctlMove_of_exec step
      obtain ⟨tag, command, euid, ts, index, awakened, pc⟩ := f
      cases move with
      | load found =>
          cases controls
          exact .inr found
      | _ => first | exact .inl controls | cases controls
  | _ => cases frame <;> first | cases controls | cases same

/-- What a removal holds after its `unlink` it has held before, or it has just unlinked. -/
theorem emptied_of_exec {c : CallId τ} {before : Frame} {s : Ref}
    (step : k.exec external (before.op c) = some (k', frame)) (emptied : frame.emptied = some s)
    : before.emptied = some s
      ∨ ∃ i, before.controls = some (i, s) ∧ (before.op c).stores = some (i, none) := by
  have same := Kernel.exec_sameCall step
  cases before with
  | ctl f =>
      have move := ctlMove_of_exec step
      obtain ⟨tag, command, euid, ts, index, awakened, pc⟩ := f
      cases move with
      | unlink =>
          cases emptied
          exact .inr ⟨tag, rfl, rfl⟩
      | _ => first | exact .inl emptied | cases emptied
  | _ => cases frame <;> first | cases emptied | cases same

-----------------------------------------------------------------------------------------
-- Homes
-----------------------------------------------------------------------------------------

/-- Every service has at most one slot, from its publication to its removal. -/
structure Homes (st : State τ) : Prop where
  slot
    : ∀ {i s},
        st.kernel.tsm.allTagServices i = some s
        → s < st.kernel.services ∧ st.kernel.freed s = false
  unique
    : ∀ {i j s},
        st.kernel.tsm.allTagServices i = some s
        → st.kernel.tsm.allTagServices j = some s
        → i = j
  unborn : ∀ {s}, st.kernel.services ≤ s → st.kernel.freed s = false
  publishes
    : ∀ {t s},
        (st.thread t).frame.publishes = some s
        → s < st.kernel.services
          ∧ st.kernel.freed s = false
          ∧ ∀ i, st.kernel.tsm.allTagServices i ≠ some s
  publisher
    : ∀ {t u s},
        (st.thread t).frame.publishes = some s → (st.thread u).frame.publishes = some s → t = u
  controls
    : ∀ {t i s},
        (st.thread t).frame.controls = some (i, s)
        → s < st.kernel.services
          ∧ (∀ {j}, st.kernel.tsm.allTagServices j = some s → j = i)
          ∧ ∀ u, (st.thread u).frame.publishes ≠ some s
  emptied
    : ∀ {t s},
        (st.thread t).frame.emptied = some s → ∀ i, st.kernel.tsm.allTagServices i ≠ some s

variable {st st' : State τ} {e : Event τ} {t : τ}

/-- Callbacks do not create, move or free services. -/
theorem homes_of_callback {b : Callback τ} {next : Option (Callback τ)}
    (step : k.exec external b.op = some (k', next))
    : k'.tsm.allTagServices = k.tsm.allTagServices
      ∧ k'.freed = k.freed
      ∧ k'.services = k.services := by
  have performs := Kernel.exec_performs step
  rw [performs.slots, performs.freed, performs.services]
  obtain ⟨job, s, stage, caller⟩ := b
  cases job <;> cases stage <;> exact ⟨rfl, rfl, rfl⟩

omit [DecidableEq τ] in
theorem homes_start : Homes (State.start : State τ) where
  slot := nofun
  unique := nofun
  unborn _ := rfl
  publishes := nofun
  publisher := nofun
  controls := nofun
  emptied := nofun

omit [DecidableEq τ] in
/-- What a removal frees was in use until then, and is about to be published by nobody. -/
theorem Homes.freeing (x : Homes st) {c : CallId τ} {s : Ref}
    (frees : ((st.thread t).frame.op c).frees = some s)
    : s < st.kernel.services
      ∧ (∀ i, st.kernel.tsm.allTagServices i ≠ some s)
      ∧ ∀ u, (st.thread u).frame.publishes ≠ some s := by
  have emptied := emptied_of_frees frees
  obtain ⟨i, controls⟩ := controls_of_emptied emptied
  exact ⟨(x.controls controls).1, x.emptied emptied, (x.controls controls).2.2⟩

section

variable {i j : Int} {s : Ref} (x : Homes st)
  (exec : st.kernel.exec external (st.op t) = some (k, frame))

/-- What is in a slot after the step was there before, or the call was about to publish it. -/
theorem slot_of_exec (exec : st.kernel.exec external (st.op t) = some (k, frame))
    (found : k.tsm.allTagServices i = some s)
    : st.kernel.tsm.allTagServices i = some s
      ∨ ((st.op t).stores = some (i, some s) ∧ (st.thread t).frame.publishes = some s) :=
  (Kernel.exec_slot exec found).imp_right fun stores => ⟨stores, publishes_of_stores stores⟩

/-- A call publishes after the step what it has just allocated, or it is another call. -/
theorem publishes_of_run (exec : st.kernel.exec external (st.op t) = some (k, frame)) {u : τ}
    (after
      : (({ st with kernel := k }.setThread t ⟨(st.thread t).calls, frame⟩).thread u).frame.publishes
        = some s)
    : (u = t ∧ s = st.kernel.services ∧ k.services = st.kernel.services + 1)
      ∨ (u ≠ t ∧ (st.thread u).frame.publishes = some s) := by
  rw [State.setThread_frame] at after
  split at after
  · next same => exact .inl ⟨same, publishes_of_exec exec after⟩
  · next other => exact .inr ⟨other, after⟩

include x exec

theorem Homes.slot_run (found : k.tsm.allTagServices i = some s)
    : s < k.services ∧ k.freed s = false := by
  have grows := Kernel.exec_services exec
  rcases slot_of_exec exec found with before | ⟨-, here⟩
  · rw [Kernel.exec_freed exec fun frees => (x.freeing frees).2.1 i before]
    exact ⟨Nat.lt_of_lt_of_le (x.slot before).1 grows, (x.slot before).2⟩
  · rw [Kernel.exec_freed exec fun frees => (x.freeing frees).2.2 t here]
    exact ⟨Nat.lt_of_lt_of_le (x.publishes here).1 grows, (x.publishes here).2.1⟩

theorem Homes.unique_run (foundI : k.tsm.allTagServices i = some s)
    (foundJ : k.tsm.allTagServices j = some s)
    : i = j := by
  rcases slot_of_exec exec foundI with beforeI | ⟨storesI, here⟩ <;>
    rcases slot_of_exec exec foundJ with beforeJ | ⟨storesJ, here'⟩
  · exact x.unique beforeI beforeJ
  · exact ((x.publishes here').2.2 i beforeI).elim
  · exact ((x.publishes here).2.2 j beforeJ).elim
  · simpa using storesI.symm.trans storesJ

theorem Homes.unborn_run (unborn : k.services ≤ s) : k.freed s = false := by
  have old : st.kernel.services ≤ s := Nat.le_trans (Kernel.exec_services exec) unborn
  rw [Kernel.exec_freed exec fun frees => Nat.not_lt.mpr old (x.freeing frees).1]
  exact x.unborn old

theorem Homes.publishes_run {u : τ}
    (after
      : (({ st with kernel := k }.setThread t ⟨(st.thread t).calls, frame⟩).thread u).frame.publishes
        = some s)
    : s < k.services ∧ k.freed s = false ∧ ∀ i, k.tsm.allTagServices i ≠ some s := by
  rcases publishes_of_run exec after with ⟨-, rfl, more⟩ | ⟨other, before⟩
  · refine ⟨more ▸ Nat.lt_succ_self _, ?_, fun i found => ?_⟩
    · rw [Kernel.exec_freed exec fun frees => absurd (x.freeing frees).1 (Nat.lt_irrefl _)]
      exact x.unborn (Nat.le_refl _)
    · rcases slot_of_exec exec found with before | ⟨-, here⟩
      · exact absurd (x.slot before).1 (Nat.lt_irrefl _)
      · exact absurd (x.publishes here).1 (Nat.lt_irrefl _)
  · obtain ⟨born, unfreed, homeless⟩ := x.publishes before
    refine ⟨Nat.lt_of_lt_of_le born (Kernel.exec_services exec), ?_, fun i found => ?_⟩
    · rw [Kernel.exec_freed exec fun frees => (x.freeing frees).2.2 u before]
      exact unfreed
    · rcases slot_of_exec exec found with old | ⟨-, here⟩
      · exact homeless i old
      · exact other (x.publisher before here)

theorem Homes.controls_run {u : τ}
    (after
      : (({ st with kernel := k }.setThread t ⟨(st.thread t).calls, frame⟩).thread u).frame.controls
        = some (i, s))
    : s < st.kernel.services
      ∧ (∀ {j}, st.kernel.tsm.allTagServices j = some s → j = i)
      ∧ ∀ u, (st.thread u).frame.publishes ≠ some s := by
  rw [State.setThread_frame] at after
  split at after
  · rcases controls_of_exec exec after with held | loaded
    · exact x.controls held
    · exact ⟨(x.slot loaded).1, fun found => x.unique found loaded,
        fun v publishes => (x.publishes publishes).2.2 i loaded⟩
  · exact x.controls after

theorem Homes.emptied_run {u : τ}
    (after
      : (({ st with kernel := k }.setThread t ⟨(st.thread t).calls, frame⟩).thread u).frame.emptied
        = some s)
    (found : k.tsm.allTagServices i = some s)
    : False := by
  have before
      : (∃ u, (st.thread u).frame.emptied = some s)
        ∨ ∃ j, (st.thread t).frame.controls = some (j, s) ∧ (st.op t).stores = some (j, none) := by
    rw [State.setThread_frame] at after
    split at after
    · exact (emptied_of_exec exec after).imp_left fun held => ⟨t, held⟩
    · exact .inl ⟨u, after⟩
  rcases before with ⟨v, emptied⟩ | ⟨j, controls, unlinks⟩
  · obtain ⟨j, controls⟩ := controls_of_emptied emptied
    rcases slot_of_exec exec found with old | ⟨-, here⟩
    · exact x.emptied emptied i old
    · exact (x.controls controls).2.2 t here
  · rcases slot_of_exec exec found with old | ⟨stores, here⟩
    · -- The only slot of the service is the one that the step empties.
      obtain rfl := (x.controls controls).2.1 old
      simp [Kernel.exec_stores exec unlinks] at found
    · simp [stores] at unlinks

/-- A step of a call keeps the homes: what it stores was about to be published, and what it
empties or frees it has loaded from its slot.
-/
theorem Homes.run
    : Homes ({ st with kernel := k }.setThread t ⟨(st.thread t).calls, frame⟩) where
  slot := x.slot_run exec
  unique := x.unique_run exec
  unborn := x.unborn_run exec
  publishes := x.publishes_run exec
  publisher afterU afterV := by
    rcases publishes_of_run exec afterU with ⟨rfl, new, -⟩ | ⟨-, beforeU⟩ <;>
      rcases publishes_of_run exec afterV with ⟨rfl, new', -⟩ | ⟨-, beforeV⟩
    · rfl
    · exact absurd (new ▸ (x.publishes beforeV).1) (Nat.lt_irrefl _)
    · exact absurd (new' ▸ (x.publishes beforeU).1) (Nat.lt_irrefl _)
    · exact x.publisher beforeU beforeV
  controls after := by
    obtain ⟨born, home, nobody⟩ := x.controls_run exec after
    refine ⟨Nat.lt_of_lt_of_le born (Kernel.exec_services exec), fun found => ?_, fun v later => ?_⟩
    · rcases slot_of_exec exec found with old | ⟨-, here⟩
      · exact home old
      · exact (nobody t here).elim
    · rcases publishes_of_run exec later with ⟨-, new, -⟩ | ⟨-, earlier⟩
      · exact absurd (new ▸ born) (Nat.lt_irrefl _)
      · exact nobody v earlier
  emptied after i found := x.emptied_run exec after found

end

omit [DecidableEq τ] in
/-- Calls that begin leave the homes as they are: a new frame holds nothing. -/
theorem Homes.of_same (x : Homes st)
    (slots : st'.kernel.tsm.allTagServices = st.kernel.tsm.allTagServices)
    (freed : st'.kernel.freed = st.kernel.freed)
    (services : st'.kernel.services = st.kernel.services)
    (frames
      : ∀ u,
          (st'.thread u).frame = (st.thread u).frame
          ∨ ((st'.thread u).frame.publishes = none
            ∧ (st'.thread u).frame.controls = none
            ∧ (st'.thread u).frame.emptied = none))
    : Homes st' where
  slot {i s} := by simpa only [slots, freed, services] using x.slot (i := i) (s := s)
  unique found found' := x.unique (slots ▸ found) (slots ▸ found')
  unborn {s} := by simpa only [freed, services] using x.unborn (s := s)
  publishes {u s} after := by
    rcases frames u with same | ⟨nothing, -, -⟩
    · simpa only [slots, freed, services] using x.publishes (same ▸ after)
    · simp [nothing] at after
  publisher {u v s} afterU afterV := by
    rcases frames u with sameU | ⟨nothing, -, -⟩
    · rcases frames v with sameV | ⟨nothing, -, -⟩
      · exact x.publisher (sameU ▸ afterU) (sameV ▸ afterV)
      · simp [nothing] at afterV
    · simp [nothing] at afterU
  controls {u i s} after := by
    rcases frames u with same | ⟨-, nothing, -⟩
    · obtain ⟨born, home, nobody⟩ := x.controls (same ▸ after)
      refine ⟨services ▸ born, fun found => home (slots ▸ found), fun v later => ?_⟩
      rcases frames v with same | ⟨nothing, -, -⟩
      · exact nobody v (same ▸ later)
      · simp [nothing] at later
    · simp [nothing] at after
  emptied {u s} after := by
    rcases frames u with same | ⟨-, -, nothing⟩
    · simpa only [slots] using x.emptied (same ▸ after)
    · simp [nothing] at after

/-- Every event keeps the homes, by cases on the event. -/
theorem Homes.step (x : Homes st) (step : st.step e = some st') : Homes st' := by
  cases State.steps_of_step step with
  | @call t euid c last user =>
      refine x.of_same rfl rfl rfl fun u => ?_
      rw [State.setThread_frame]
      split
      · refine .inr ?_
        cases c <;> exact ⟨rfl, rfl, rfl⟩
      · exact .inl rfl
  | run exec => exact x.run exec
  | softirq ready exec =>
      obtain ⟨slots, freed, services⟩ := homes_of_callback exec
      exact x.of_same slots freed services fun _ => .inl rfl
  | signal busy => exact x.of_same rfl rfl rfl fun _ => .inl rfl
  | reuse freed => exact x.of_same rfl rfl rfl fun _ => .inl rfl

theorem homes_run {G : Guard (State τ) (Event τ)} {h : History (State τ) (Event τ)}
    (run : (machine τ).Run G h st)
    : Homes st :=
  run.invariant (P := fun _ st => Homes st) homes_start fun _ x _ step => x.step step

/-- A call points only to services that exist: it has loaded the pointer from a slot, or got
it from the allocator.
-/
theorem pointers_born {G : Guard (State τ) (Event τ)} {h : History (State τ) (Event τ)}
    (run : (machine τ).Run G h st)
    : ∀ t, ∀ s ∈ (st.thread t).frame.pointers, s < st.kernel.services := by
  refine run.invariant
    (P := fun _ st => ∀ t, ∀ s ∈ (st.thread t).frame.pointers, s < st.kernel.services)
    (fun _ => nofun) ?_
  intro h st e st' before born _ step
  cases State.steps_of_step step with
  | @call t euid c last user =>
      intro u s
      rw [State.setThread_frame]
      split
      · cases c <;> nofun
      · exact born u s
  | @run t external k frame exec =>
      have grows := Kernel.exec_services exec
      intro u s
      rw [State.setThread_frame]
      show _ → s < k.services
      split
      · intro member
        rcases pointers_of_exec exec s member with held | ⟨i, found⟩ | ⟨rfl, allocates⟩
        · exact Nat.lt_of_lt_of_le (born t s held) grows
        · exact Nat.lt_of_lt_of_le ((homes_run before).slot found).1 grows
        · obtain ⟨ts, allocates⟩ := Option.ne_none_iff_exists'.mp allocates
          rw [(Kernel.exec_allocates exec allocates).1]
          exact Nat.lt_succ_self _
      · exact fun member => Nat.lt_of_lt_of_le (born u s member) grows
  | softirq ready exec =>
      obtain ⟨-, -, services⟩ := homes_of_callback exec
      exact fun u s member => services ▸ born u s member
  | signal busy => exact born
  | reuse freed => exact born

-----------------------------------------------------------------------------------------
-- Slots
-----------------------------------------------------------------------------------------

/-- A service stays in its slot until a removal takes it out, by cases on who stores. -/
theorem slot_unless_unlinked {i : Int} {s : Ref} (x : Safe st.kernel.core st.view)
    (step : st.step e = some st')
    (found : st.kernel.tsm.allTagServices i = some s)
    : st'.kernel.tsm.allTagServices i = some s
      ∨ ∃ u external,
          e = .run u external
          ∧ (st.thread u).frame.unlinks = some (i, s)
          ∧ st'.kernel.tsm.allTagServices i = none := by
  cases State.steps_of_step step with
  | @run u external k frame exec =>
      cases stores : (st.op u).stores with
      | none =>
          have same := Kernel.exec_unstored exec stores
          exact .inl (same ▸ found)
      | some stored =>
          obtain ⟨j, ts⟩ := stored
          have slots := Kernel.exec_stores exec stores
          rcases eq_or_ne i j with rfl | other
          · have fact := x.fact u
            rcases stores_cases stores with ⟨r, -, fresh⟩ | ⟨r, rfl, unlinks, removing⟩
            · have empty : st.kernel.tsm.allTagServices i = none := by
                simp only [State.view, fresh] at fact
                exact fact.2.2.2.1
              cases found.symm.trans empty
            · simp only [State.view, removing] at fact
              have slot : st.kernel.tsm.allTagServices i = some r := fact.1
              obtain rfl := Option.some.inj (found.symm.trans slot)
              refine .inr ⟨u, external, rfl, unlinks, ?_⟩
              show k.tsm.allTagServices i = none
              rw [slots, Function.update_self]
          · refine .inl ?_
            show k.tsm.allTagServices i = some s
            rw [slots, Function.update_of_ne other, found]
  | @softirq n b k next ready exec =>
      have slots := (homes_of_callback exec).1
      exact .inl (slots ▸ found)
  | _ => exact .inl found

omit [DecidableEq τ] in
/-- A removal takes out of its slot what it has marked as deleted. -/
theorem doomed_of_unlinks {i : Int} {s : Ref} (x : Safe st.kernel.core st.view)
    (unlinks : (st.thread t).frame.unlinks = some (i, s))
    : st.kernel.tsm.allTagServices i = some s ∧ (st.kernel.service s).lazyDeleted = true := by
  have fact := x.fact t
  cases here : (st.thread t).frame with
  | ctl f =>
      obtain ⟨tag, command, euid, ts, index, awakened, pc⟩ := f
      simp only [State.view] at fact
      rw [here] at unlinks fact
      cases pc <;> cases unlinks
      exact fact
  | _ => rw [here] at unlinks; cases unlinks

/-- A service stays in its slot until it has been marked as deleted. -/
theorem slot_of_step {i : Int} {s : Ref} (x : Safe st.kernel.core st.view)
    (step : st.step e = some st')
    (found : st.kernel.tsm.allTagServices i = some s)
    : st'.kernel.tsm.allTagServices i = some s ∨ (st.kernel.service s).lazyDeleted = true := by
  refine (slot_unless_unlinked x step found).imp_right ?_
  rintro ⟨u, external, rfl, unlinks, -⟩
  exact (doomed_of_unlinks x unlinks).2

end TagExchange
