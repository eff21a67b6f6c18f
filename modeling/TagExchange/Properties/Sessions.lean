import TagExchange.Concurrency.Census
import TagExchange.Properties.TextPublication

/-! Open sessions and removals: when a read finds its service and the text of its device alive. -/

namespace TagExchange

open Concurrency

variable {τ : Type}

-----------------------------------------------------------------------------------------
-- Sessions
-----------------------------------------------------------------------------------------

/-- The service pointer that a read is about to follow. -/
def DeviceFrame.follows : DeviceFrame → Option (Option Ref)
  | reading f =>
      match f.pc with
      | .tag | .lockTag | .unlockTag _ | .printTag _ => some f.ts
      | _ => none
  | _ => none

theorem reading_of_follows {frame : DeviceFrame} {ts : Option Ref} (follows : frame.follows = some ts)
    : ∃ f, frame = .reading f ∧ f.ts = ts := by
  cases frame with
  | reading f =>
      simp only [DeviceFrame.follows] at follows
      split at follows <;> cases follows
      all_goals exact ⟨f, rfl, rfl⟩
  | _ => cases follows

/-- In a read of the session. -/
def DeviceFrame.Uses (n : Nat) (frame : DeviceFrame) : Prop :=
  ∃ f, frame = .reading f ∧ f.session = n

/-- The service that a removal is about to free. -/
def Frame.kfrees : Frame → Option Ref
  | ctl f =>
      match f.pc with
      | .kfree => some f.ts
      | _ => none
  | _ => none

theorem kfrees_of_frees {c : CallId τ} {frame : Frame} {s : Ref}
    (frees : (frame.op c).frees = some s)
    : frame.kfrees = some s := by
  obtain ⟨tag, command, euid, index, awakened, rfl⟩ := point_of_frees frees
  rfl

variable [DecidableEq τ] {strlen : List (Option Nat) → Nat}
  {h : History (DeviceState τ) (DeviceEvent τ)} {st st' : DeviceState τ} {e : DeviceEvent τ}
  {t : τ} {i : Int} {s : Ref}

/-- A session counts its reads, and a read has taken the pointer of its session. -/
structure Filed (st : DeviceState τ) : Prop where
  known : ∀ {n file}, st.session n = some file → n < st.sessions
  used
    : ∀ {n file},
        st.session n = some file → Counted st.frame (DeviceFrame.Uses n) file.readers
  reading
    : ∀ {t f},
        st.frame t = .reading f
        → ∃ file, st.session f.session = some file ∧ file.privateData = f.ts

omit [DecidableEq τ] in
theorem unused_of_out {frame : DeviceFrame} {last : Option Int} (out : frame = .out last) (n : Nat)
    : ¬ frame.Uses n := by
  rintro ⟨f, here, -⟩
  cases out.symm.trans here

/-- A read keeps its session and the pointer it has taken. -/
theorem kept_of_tsRead {k k' : Kernel τ} {position position' external : Nat} {f f' : ReadFrame}
    (move : tsRead strlen t k position external f = some (k', position', f'))
    : f'.session = f.session ∧ f'.ts = f.ts := by
  obtain ⟨move, -⟩ := readMove_of_tsRead move
  generalize f.pc = pc at move
  cases move <;> exact ⟨rfl, rfl⟩

/-- A thread that starts, goes on with or ends a read of one session keeps the sessions in order,
when it counts the session's reads.
-/
theorem Filed.move (x : Filed st) {n : Nat} {file file' : Session} (found : st.session n = some file)
    (frame : DeviceFrame)
    (count : Counted (Function.update st.frame t frame) (DeviceFrame.Uses n) file'.readers)
    (others : ∀ m, m ≠ n → (frame.Uses m ↔ (st.frame t).Uses m))
    (same : file'.privateData = file.privateData)
    (reads : ∀ f, frame = .reading f → f.session = n ∧ file.privateData = f.ts)
    : Filed ((st.setSession n (some file')).setFrame t frame) := by
  refine ⟨fun {m file₁} there => ?_, fun {m file₁} there => ?_, fun {v f} here => ?_⟩
  · rcases eq_or_ne m n with rfl | other
    · exact x.known found
    · exact x.known ((Function.update_of_ne other ..).symm.trans there)
  · rcases eq_or_ne m n with rfl | other
    · cases (Function.update_self ..).symm.trans there
      exact count
    · exact (x.used ((Function.update_of_ne other ..).symm.trans there)).keep (others m other)
  · rcases eq_or_ne v t with rfl | away
    · obtain ⟨rfl, ts⟩ := reads f ((Function.update_self ..).symm.trans here)
      exact ⟨file', Function.update_self .., same.trans ts⟩
    · obtain ⟨file₁, there, ts⟩ := x.reading ((Function.update_of_ne away ..).symm.trans here)
      rcases eq_or_ne f.session n with other | other
      · rw [other] at there
        obtain rfl := Option.some.inj (found.symm.trans there)
        rw [other]
        exact ⟨file', Function.update_self .., same.trans ts⟩
      · exact ⟨file₁, (Function.update_of_ne other ..).trans there, ts⟩

/-- Every event keeps the sessions in order, by cases on the event. -/
theorem filed_run {G : Guard (DeviceState τ) (DeviceEvent τ)}
    (run : (charDevices τ strlen).Run G h st)
    : Filed st := by
  refine run.invariant (P := fun _ st => Filed st)
    ⟨fun found => (by cases found), fun found => (by cases found), fun here => (by cases here)⟩ ?_
  intro h st e st' _ x _ step
  have step : st.step strlen e = some st' := step
  -- A thread that is outside before and after its step changes nothing.
  have outside {u : τ} {frame : DeviceFrame} (refs : Int) (out : ∀ n, ¬ (st.frame u).Uses n)
      (still : ∀ n, ¬ frame.Uses n)
      : Filed { st.setFrame u frame with fileRefs := refs } := by
    refine ⟨x.known, fun {n file} found => ?_, fun {v f} here => ?_⟩
    · exact (x.used found).keep ⟨fun now => (still n now).elim, fun here => (out n here).elim⟩
    · rcases eq_or_ne v u with rfl | other
      · have here : frame = .reading f := (Function.update_self ..).symm.trans here
        exact (still f.session ⟨f, here, rfl⟩).elim
      · exact x.reading ((Function.update_of_ne other ..).symm.trans here)
  cases DeviceState.steps_of_step step with
  | base allowed inner => exact ⟨x.known, x.used, x.reading⟩
  | @lookup u minor last user out idle known =>
      refine outside _ (unused_of_out out) fun n uses => ?_
      obtain ⟨f, here, -⟩ := uses
      cases here
  | @opened u minor external here =>
      have out n : ¬ (st.frame u).Uses n := by
        rintro ⟨f, reading, -⟩
        cases here.symm.trans reading
      unfold DeviceState.tsOpen
      split
      · exact outside _ out (unused_of_out rfl)
      · -- The new session has no reads.
        have fresh {v f} (here : st.frame v = .reading f) : f.session ≠ st.sessions := by
          obtain ⟨file, found, -⟩ := x.reading here
          exact Nat.ne_of_lt (x.known found)
        have quiet := outside st.fileRefs out (unused_of_out (rfl : DeviceFrame.out (some 0) = _))
        refine ⟨fun {n file} found => ?_, fun {n file} found => ?_, fun {v f} reading => ?_⟩
        · rcases eq_or_ne n st.sessions with rfl | other
          · exact Nat.lt_succ_self _
          · exact Nat.lt_succ_of_lt (x.known ((Function.update_of_ne other ..).symm.trans found))
        · rcases eq_or_ne n st.sessions with rfl | other
          · cases (Function.update_self ..).symm.trans found
            refine Counted.zero fun v uses => ?_
            obtain ⟨f, here, same⟩ := uses
            rcases eq_or_ne v u with rfl | away
            · cases (Function.update_self ..).symm.trans here
            · exact fresh ((Function.update_of_ne away ..).symm.trans here) same
          · exact quiet.used ((Function.update_of_ne other ..).symm.trans found)
        · obtain ⟨file, found, same⟩ := quiet.reading reading
          refine ⟨file, ?_, same⟩
          have other : f.session ≠ st.sessions := Nat.ne_of_lt (x.known found)
          exact (Function.update_of_ne other ..).trans found
  | @read u n count last user file out idle found =>
      have uses {m} : DeviceFrame.Uses m (.reading ⟨n, file.privateData, count, [], .rcuLock⟩) ↔ n = m :=
        ⟨fun ⟨f, here, same⟩ => (by cases here; exact same), fun same => ⟨_, rfl, same⟩⟩
      refine x.move found (.reading ⟨n, file.privateData, count, [], .rcuLock⟩) ?_ ?_ rfl ?_
      · exact (x.used found).join (unused_of_out out n) (uses.mpr rfl)
      · exact fun m other => ⟨fun now => absurd (uses.mp now).symm other, fun now => absurd now (unused_of_out out m)⟩
      · rintro f' ⟨⟩
        exact ⟨rfl, rfl⟩
  | @run u external f file k position f' here found move =>
      obtain ⟨session, ts⟩ := kept_of_tsRead move
      have uses {m} : (st.frame u).Uses m ↔ (DeviceFrame.reading f').Uses m := by
        rw [here]
        constructor
        · rintro ⟨_, ⟨⟩, rfl⟩
          exact ⟨f', rfl, session⟩
        · rintro ⟨_, ⟨⟩, rfl⟩
          exact ⟨f, rfl, session.symm⟩
      obtain ⟨file₁, found₁, same⟩ := x.reading here
      obtain rfl := Option.some.inj (found.symm.trans found₁)
      have count
          : Counted (Function.update st.frame u (.reading f')) (DeviceFrame.Uses f.session)
              ({ file with position } : Session).readers :=
        (x.used found).keep uses.symm
      have moved := x.move found (.reading f') count (fun _ _ => uses.symm) rfl
        fun g now => (by cases now; exact ⟨session, same.trans ts.symm⟩)
      exact ⟨moved.known, moved.used, moved.reading⟩
  | @leave u external f file r here found ret =>
      have uses : (st.frame u).Uses f.session := ⟨f, here, rfl⟩
      obtain ⟨rest, readers⟩ := Nat.exists_eq_succ_of_ne_zero ((x.used found).pos uses).ne'
      refine x.move found (.out (some r)) ?_ ?_ rfl ?_
      · have count := readers ▸ x.used found
        rw [readers]
        exact count.leave uses (unused_of_out rfl _)
      · refine fun m other => ⟨fun now => absurd now (unused_of_out rfl m), ?_⟩
        rintro ⟨g, there, rfl⟩
        cases here.symm.trans there
        exact absurd rfl other
      · rintro f' ⟨⟩
  | @close n file found unused =>
      have closed {m file'} (there : (st.setSession n none).session m = some file')
          : m ≠ n ∧ st.session m = some file' := by
        rcases eq_or_ne m n with rfl | other
        · cases (Function.update_self ..).symm.trans there
        · exact ⟨other, (Function.update_of_ne other ..).symm.trans there⟩
      refine ⟨fun there => x.known (closed there).2, fun there => x.used (closed there).2, ?_⟩
      intro t f here
      obtain ⟨file', there, same⟩ := x.reading here
      have other : f.session ≠ n := by
        rintro rfl
        have nobody := (unused ▸ x.used found).nobody t
        exact nobody ⟨f, here, rfl⟩
      exact ⟨file', (Function.update_of_ne other ..).trans there, same⟩

-----------------------------------------------------------------------------------------
-- Removals beside open sessions
-----------------------------------------------------------------------------------------

/-- A service is freed only when no session is open on it, and a text only when no reader is
copying it; a reader loads the pointer only to a text that has not been freed, and a device is
opened only while its slot holds a service.
-/
def KeepsSessions : Guard (DeviceState τ) (DeviceEvent τ) :=
  fun _ st e =>
    (∀ t external s,
        e = .base (.run t external)
        → (st.base.thread t).frame.kfrees = some s
        → ∀ n file, st.session n = some file → file.privateData ≠ some s)
    ∧ (∀ t external i,
        e = .base (.run t external)
        → (st.base.thread t).frame.device = some (.freeText i)
        → ∀ u j b, (st.frame u).copies = some (j, b) → st.base.kernel.dm.content i ≠ some b)
    ∧ (∀ t external i b,
        e = .run t external
        → (st.frame t).dereferences = some i
        → st.base.kernel.dm.content i = some b
        → (st.base.kernel.dm.buffer b).freed = false)
    ∧ ∀ t external i,
        e = .run t external
        → st.frame t = .opening i
        → st.base.kernel.tsm.allTagServices i ≠ none

/-- A read follows a pointer to a service in use, and copies from a text in use. -/
structure SessionsSurvive (st : DeviceState τ) : Prop where
  /-- A read follows only the pointer to a service that has not been freed. -/
  service
    : ∀ {t ts},
        (st.frame t).follows = some ts → ∃ s, ts = some s ∧ st.base.kernel.freed s = false
  /-- A read copies only from a text that has not been freed. -/
  text
    : ∀ {t i b},
        (st.frame t).copies = some (i, b) → (st.base.kernel.dm.buffer b).freed = false

theorem homes_devices {G : Guard (DeviceState τ) (DeviceEvent τ)}
    (run : (charDevices τ strlen).Run G h st)
    : Homes st.base := by
  refine run.invariant (P := fun _ st => Homes st.base) homes_start ?_
  intro h st e st' _ x _ step
  rcases memory_of_step step with ⟨e₀, rfl, inner⟩ | ⟨same, threads, -⟩
  · exact x.step inner
  · exact x.of_same (by rw [same.tsm]) same.freed same.services fun u => .inl (by rw [threads])

/-- Only a removal frees a service. -/
theorem freed_of_step {st st' : State τ} {e : Event τ} (step : st.step e = some st')
    (kept : ∀ t external, e = .run t external → (st.thread t).frame.kfrees ≠ some s)
    : st'.kernel.freed s = st.kernel.freed s := by
  cases State.steps_of_step step with
  | @run t external k frame exec =>
      have unfreed : (st.op t).frees ≠ some s := fun frees =>
        kept t external rfl (kfrees_of_frees frees)
      exact Kernel.exec_freed exec unfreed
  | softirq ready exec => exact congrFun (homes_of_callback exec).2.1 s
  | _ => rfl

/-- Every open session is on a service that has not been freed. -/
theorem files_run (run : (charDevices τ strlen).Run KeepsSessions h st)
    : ∀ {n file},
        st.session n = some file
        → ∃ s, file.privateData = some s ∧ st.base.kernel.freed s = false := by
  refine run.invariant
    (P := fun _ st => ∀ {n file},
      st.session n = some file
      → ∃ s, file.privateData = some s ∧ st.base.kernel.freed s = false)
    (fun found => by cases found) ?_
  intro h st e st' before files ok step n file found
  have step : st.step strlen e = some st' := step
  -- A session that was there before, with the same pointer.
  have old {m file₁} (there : st.session m = some file₁)
      (same : file.privateData = file₁.privateData)
      (freed : st'.base.kernel.freed = st.base.kernel.freed)
      : ∃ s, file.privateData = some s ∧ st'.base.kernel.freed s = false := by
    obtain ⟨s, private_, unfreed⟩ := files there
    exact ⟨s, same.trans private_, freed ▸ unfreed⟩
  -- Another session than the one that the step changes.
  have set {m : Nat} {next : Option Session}
      (there : Function.update st.session m next n = some file)
      : next = some file ∨ st.session n = some file := by
    rcases eq_or_ne n m with rfl | other
    · exact .inl (by simpa using there)
    · exact .inr (by simpa [other] using there)
  cases DeviceState.steps_of_step step with
  | @base e₀ base allowed inner =>
      obtain ⟨s, private_, unfreed⟩ := files found
      refine ⟨s, private_, (freed_of_step inner ?_).trans unfreed⟩
      rintro t external rfl frees
      exact ok.1 t external s rfl frees n file found private_
  | lookup out idle known => exact old found rfl rfl
  | @opened t minor external here =>
      have opened := ok.2.2.2 t external minor rfl here
      have base : (st.tsOpen t minor external).base.kernel.freed = st.base.kernel.freed := by
        rw [DeviceState.tsOpen_base]
      simp only [DeviceState.tsOpen] at found
      split at found
      · exact old found rfl base
      · rcases set found with fresh | there
        · cases fresh
          obtain ⟨s, slot⟩ := Option.ne_none_iff_exists'.mp opened
          exact ⟨s, slot, base ▸ ((homes_devices before).slot slot).2⟩
        · exact old there rfl base
  | read out idle there =>
      rcases set found with same | kept
      · cases same
        exact old there rfl rfl
      · exact old kept rfl rfl
  | run here there move =>
      have freed := (readMove_of_tsRead move).2.freed
      rcases set found with same | kept
      · cases same
        exact old there rfl freed
      · exact old kept rfl freed
  | leave here there ret =>
      rcases set found with same | kept
      · cases same
        exact old there rfl rfl
      · exact old kept rfl rfl
  | close there unused =>
      rcases set found with same | kept
      · cases same
      · exact old kept rfl rfl

/-- A buffer that a reader is copying from is kept by every step of the module. -/
theorem unfreed_of_access {base : State τ} {e₀ : Event τ} {b : Nat}
    (ok : KeepsSessions h st (.base e₀)) (step : st.base.step e₀ = some base)
    (copies : (st.frame t).copies = some (i, b)) (bound : b < st.base.kernel.dm.buffers)
    (unfreed : (st.base.kernel.dm.buffer b).freed = false)
    : (base.kernel.dm.buffer b).freed = false ∧ b < base.kernel.dm.buffers := by
  rw [dm_of_step step]
  cases device : st.base.device e₀ with
  | none => exact ⟨unfreed, bound⟩
  | some access =>
      -- A text may be written while it is copied; it may not be freed.
      have spared j (frees : access = .freeText j) : st.base.kernel.dm.content j ≠ some b := by
        subst frees
        cases e₀ with
        | run u external => exact ok.2.1 u external j rfl device t i b copies
        | _ => cases device
      exact DevManager.freed_access bound unfreed spared

/-- Every buffer that a reader copies from is a text that has not been freed. -/
theorem unfreedCopies_run (run : (charDevices τ strlen).Run KeepsSessions h st)
    : ∀ {t i b},
        (st.frame t).copies = some (i, b)
        → (st.base.kernel.dm.buffer b).freed = false ∧ b < st.base.kernel.dm.buffers := by
  refine run.invariant
    (P := fun _ st => ∀ {t i b},
      (st.frame t).copies = some (i, b)
      → (st.base.kernel.dm.buffer b).freed = false ∧ b < st.base.kernel.dm.buffers)
    (fun copies => by cases copies) ?_
  intro h st e st' before copied ok step t i b after
  have step : st.step strlen e = some st' := step
  have kept (copies : (st.frame t).copies = some (i, b))
      : (st'.base.kernel.dm.buffer b).freed = false ∧ b < st'.base.kernel.dm.buffers := by
    obtain ⟨unfreed, bound⟩ := copied copies
    rcases memory_of_step step with ⟨e₀, rfl, inner⟩ | ⟨same, -, -⟩
    · exact unfreed_of_access ok inner copies bound unfreed
    · rw [same.buffer, same.buffers]
      exact ⟨unfreed, bound⟩
  cases driverTurn_of_step step t with
  | rest _ frame => exact kept (frame ▸ after)
  | out frame => rw [frame] at after; cases after
  | opening frame => rw [frame] at after; cases after
  | enter _ _ frame => rw [frame] at after; cases after
  | @move external f f' event here move frame =>
      rw [frame] at after
      subst event
      have same := memory_of_driver step fun _ same => by cases same
      generalize at_ : f.pc = pc at move
      cases move
      case pointer j b' found =>
        cases after
        rw [same.buffer, same.buffers]
        refine ⟨ok.2.2.1 t external i b rfl ?_ found, (separate_devices before).bound found⟩
        rw [here]
        simp only [DeviceFrame.dereferences, at_]
      case copy j b' =>
        refine kept ?_
        rw [here]
        simp only [DeviceFrame.copies, ReadFrame.copyLine] at after ⊢
        rw [at_]
        split at after
        · next point =>
            split at point
            · cases point
              exact after
            · cases point
        · cases after
      all_goals cases after

/-- In every run in which nothing is freed under an open session, no read touches what has been
freed.
-/
theorem sessions_survive (run : (charDevices τ strlen).Run KeepsSessions h st)
    : SessionsSurvive st where
  service {t ts} follows := by
    obtain ⟨f, here, rfl⟩ := reading_of_follows follows
    obtain ⟨file, found, same⟩ := (filed_run run).reading here
    obtain ⟨s, private_, unfreed⟩ := files_run run found
    exact ⟨s, same.symm.trans private_, unfreed⟩
  text copies := (unfreedCopies_run run copies).1

-----------------------------------------------------------------------------------------
-- Runs of two threads
-----------------------------------------------------------------------------------------

/-- The test that no service is freed under a session, no text under a reader, and that readers
load pointers to texts in use.
-/
def keepsSessionsTest (st : DeviceState (Fin 2)) : DeviceEvent (Fin 2) → Bool
  | .base (.run t _) =>
      ((st.base.thread t).frame.kfrees.all fun s =>
        (List.range st.sessions).all fun n =>
          (st.session n).all fun file => file.privateData != some s)
      && match (st.base.thread t).frame.device with
        | some (.freeText i) =>
            (List.finRange 2).all fun u =>
              (st.frame u).copies.all fun from_ => st.base.kernel.dm.content i != some from_.2
        | _ => true
  | .run t _ =>
      ((st.frame t).dereferences.all fun i =>
        (st.base.kernel.dm.content i).all fun b => !(st.base.kernel.dm.buffer b).freed)
      && match st.frame t with
        | .opening i => (st.base.kernel.tsm.allTagServices i).isSome
        | _ => true
  | _ => true

theorem keepsSessions_of_test {h : History (DeviceState (Fin 2)) (DeviceEvent (Fin 2))}
    {st : DeviceState (Fin 2)}
    (run : (charDevices (Fin 2) anyLength).Run (fun _ st e => keepsSessionsTest st e = true) h st)
    : (charDevices (Fin 2) anyLength).Run KeepsSessions h st := by
  refine run.strengthen fun {h st e} before passes => ⟨?_, ?_, ?_, ?_⟩
  · rintro t external s rfl frees n file found
    obtain ⟨spared, -⟩ := Bool.and_eq_true_iff.mp passes
    rw [frees] at spared
    have known := (filed_run before).known found
    have here := List.all_eq_true.mp spared n (List.mem_range.mpr known)
    simpa only [found, Option.all_some, bne_iff_ne] using here
  · rintro t external i rfl device
    obtain ⟨-, spared⟩ := Bool.and_eq_true_iff.mp passes
    intro u j b copies
    simp only [device] at spared
    have here := List.all_eq_true.mp spared u (List.mem_finRange u)
    simpa only [copies, Option.all_some, bne_iff_ne] using here
  · rintro t external i b rfl dereferences found
    obtain ⟨unfreed, -⟩ := Bool.and_eq_true_iff.mp passes
    simpa only [dereferences, found, Option.all_some, Bool.not_eq_true'] using unfreed
  · rintro t external i rfl opening
    obtain ⟨-, taken⟩ := Bool.and_eq_true_iff.mp passes
    rw [opening] at taken
    exact Option.isSome_iff_ne_none.mp taken

/-- A session is closed, its service is removed and created again, and the next session reads the
new one.
-/
theorem sessions_survive_of_reader
    : ∃ h st,
        (charDevices (Fin 2) anyLength).Run KeepsSessions h st
        ∧ st.base.kernel.freed 0 = true
        ∧ (st.frame 1).follows = some (some 1)
        ∧ st.base.kernel.freed 1 = false
        ∧ SessionsSurvive st := by
  obtain ⟨h, st, run, facts⟩ := Machine.Run.exists_of_replay
    (M := charDevices (Fin 2) anyLength) (G := fun _ st e => keepsSessionsTest st e = true)
    ((creating 0 1).map .base ++ [.lookup 1 1, .run 1 0, .close 0]
      ++ (removing 0 1 22).map .base ++ (creating 0 1).map .base
      ++ [.lookup 1 1, .run 1 0, .read 1 1 100, .run 1 0])
    (fun _ st => st.base.kernel.freed 0 && (st.frame 1).follows == some (some 1))
    (by decide +kernel)
  obtain ⟨freed, follows⟩ := Bool.and_eq_true_iff.mp facts
  have follows := eq_of_beq follows
  have law := sessions_survive (keepsSessions_of_test run)
  obtain ⟨s, same, unfreed⟩ := law.service follows
  cases same
  exact ⟨h, st, keepsSessions_of_test run, freed, follows, unfreed, law⟩

/-- Without the condition a session reads the service that a removal has freed. -/
theorem session_follows_freed
    : ¬ ∀ (h : History (DeviceState (Fin 2)) (DeviceEvent (Fin 2))) (st : DeviceState (Fin 2)),
        (charDevices (Fin 2) anyLength).Run anyStep h st → SessionsSurvive st := by
  intro always
  obtain ⟨h, st, run, facts⟩ := Machine.Run.exists_of_replay
    (M := charDevices (Fin 2) anyLength) (G := anyStep)
    ((creating 0 1).map .base ++ [.lookup 1 1, .run 1 0]
      ++ (removing 0 1 22).map .base ++ [.read 1 0 100, .run 1 0])
    (fun _ st => (st.frame 1).follows == some (some 0) && st.base.kernel.freed 0)
    (by decide +kernel)
  obtain ⟨follows, freed⟩ := Bool.and_eq_true_iff.mp facts
  obtain ⟨s, same, unfreed⟩ := (always h st run).service (eq_of_beq follows)
  cases same
  exact absurd (unfreed.symm.trans freed) (by decide)

end TagExchange
