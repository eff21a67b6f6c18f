import TagExchange.Concurrency.Past
import TagExchange.Properties.Counters
import TagExchange.Properties.DeviceLocks

/-! What the char device prints for each level of a live service, and when it is the number of
threads that wait there.
-/

namespace TagExchange

open Concurrency Protocol

variable {τ : Type}

-----------------------------------------------------------------------------------------
-- Counters and texts
-----------------------------------------------------------------------------------------

/-- The counter of the threads waiting on a level. -/
def State.waiting (st : State τ) (s : Ref) (l : Int) : Nat :=
  ((st.kernel.service s).level l).threadWaiting

/-- The level whose counter a receiver has changed, until it has rewritten the text. -/
def Frame.refreshing : Frame → Option (Ref × Int)
  | receive f => f.pc.update.map fun _ => (f.ts, f.level)
  | _ => none

/-- An update that will print this number, as far as it has come: it has still to read the
counter of the service, or has read this number and not published it yet.
-/
def UpdatePc.Fresh (s : Ref) (l : Int) (n : Nat) : UpdatePc → Prop
  | .check | .load => True
  | .waiting r => r = s
  | .index _ m | .lock _ m | .read _ m => m = n
  | .free _ text | .assign _ text => text l = n
  | .unlock _ | .oops => False

/-- The thread will print the present counter of the level. -/
def State.Refreshes (st : State τ) (t : τ) (s : Ref) (l : Int) : Prop :=
  ∃ f pc,
    (st.thread t).frame = .receive f
    ∧ f.pc.update = some pc
    ∧ (f.ts = s ∧ f.level = l)
    ∧ pc.Fresh s l (st.waiting s l)

/-- The thread has still to print the counter of the level, or has oopsed over it. -/
def State.Owes (st : State τ) (t : τ) (s : Ref) (l : Int) : Prop :=
  ∃ f pc,
    (st.thread t).frame = .receive f
    ∧ f.pc.update = some pc
    ∧ (f.ts = s ∧ f.level = l)
    ∧ (pc.Fresh s l (st.waiting s l) ∨ pc = .oops)

theorem State.Refreshes.owes {st : State τ} {t : τ} {s : Ref} {l : Int}
    (refreshes : st.Refreshes t s l)
    : st.Owes t s l := by
  obtain ⟨f, pc, here, inside, level, fresh⟩ := refreshes
  exact ⟨f, pc, here, inside, level, .inl fresh⟩

/-- The service is registered and its text prints its counters. -/
def State.Truthful (st : State τ) (i : Int) (s : Ref) : Prop :=
  st.kernel.tsm.allTagServices i = some s
  ∧ ∃ text, st.kernel.dm.text i = some text ∧ ∀ l, IsLevel l → text l = st.waiting s l

/-- The slot is not stored into, and only receivers change the text of the device. -/
def Undisturbed (i : Int) : Guard (State τ) (Event τ) :=
  fun _ st e =>
    ∀ t external,
      e = .run t external
      → (∀ ts, ((st.thread t).frame.op (t, (st.thread t).calls)).stores ≠ some (i, ts))
        ∧ ∀ access,
            (st.thread t).frame.device = some access
            → access.texts = some i
            → (st.thread t).frame.receiving = true

/-- A receiver publishes only the present counter of its level, unless another thread will still
print that; and the counter that it reads fits an `int`.
-/
def State.Publishes (st : State τ) (e : Event τ) : Prop :=
  ∀ t f external,
    e = .run t external
    → (st.thread t).frame = .receive f
    → (∀ i text s,
          f.pc.update = some (.assign i text)
          → st.kernel.tsm.allTagServices i = some s
          → text f.level = st.waiting s f.level
            ∨ ∃ u, u ≠ t ∧ st.Refreshes u s f.level)
      ∧ ∀ s, f.pc.update = some (.waiting s) → st.waiting s f.level < 2 ^ 31

variable [DecidableEq τ]

/-- The runs in which no receiver prints an old counter over a newer one. -/
def UpToDate : Guard (State τ) (Event τ) :=
  fun _ st e => ReuseUnheld st e ∧ st.Publishes e

variable {h : History (State τ) (Event τ)} {st st' : State τ} {e : Event τ} {t : τ} {i l : Int}
  {s : Ref}

theorem UpToDate.unheld (run : (machine τ).Run UpToDate h st) : (machine τ).Run Unheld h st :=
  run.mono fun _ _ _ ok => ok.1

/-- A step that does not change the counter of a level leaves it. -/
theorem waiting_of_step (step : st.step e = some st') (born : s < st.kernel.services)
    (kept : e.reuses ≠ some s)
    (quiet : st.writes e ≠ some (s, .incLevel l) ∧ st.writes e ≠ some (s, .decLevel l))
    : st'.waiting s l = st.waiting s l := by
  rw [State.waiting, service_of_step step born kept]
  split
  · next r w writes =>
      split
      · next same =>
          subst same
          have other {k : Int} (far : w = .incLevel k ∨ w = .decLevel k) : l ≠ k := by
            rintro rfl
            rcases far with rfl | rfl
            · exact quiet.1 writes
            · exact quiet.2 writes
          cases w <;> simp only [Write.apply, TagService.onLevel_level, State.waiting]
          case incLevel k => rw [if_neg (other (.inl rfl))]
          case decLevel k => rw [if_neg (other (.inr rfl))]
          all_goals split <;> rfl
      · rfl
  · rfl

/-- The text of a device is changed by the owner of its mutex only. -/
theorem text_of_step (x : st.kernel.dm.Separate) (step : st.step e = some st')
    (others : ∀ access, st.device e = some access → access.texts = some i → access = .freeText i)
    : st'.kernel.dm.text i = st.kernel.dm.text i := by
  rw [dm_of_step step]
  cases device : st.device e with
  | none => rfl
  | some access =>
      have others := others access device
      dsimp only
      rw [DevManager.text_access x]
      cases access with
      | lock j => rfl
      | unlock j => rfl
      | freeText j => rfl
      | newText j =>
          refine if_neg fun same => ?_
          cases others (by rw [same]; rfl)
      | clearText j =>
          refine if_neg fun same => ?_
          cases others (by rw [same]; rfl)
      | writeText j text =>
          refine if_neg fun same => ?_
          cases others (by rw [same]; rfl)
      | storeText j text =>
          refine if_neg fun same => ?_
          cases others (by rw [same]; rfl)

/-- What a receiver is about to publish differs from the present text at its own level only, by
cases on the moves.
-/
theorem prepared_run (run : (machine τ).Run Unheld h st)
    : ∀ {t f i text},
        (st.thread t).frame = .receive f
        → f.pc.update = some (.free i text) ∨ f.pc.update = some (.assign i text)
        → ∃ old, st.kernel.dm.text i = some old ∧ ∀ l, l ≠ f.level → text l = old l := by
  refine run.invariant
    (P := fun _ st => ∀ {t f i text},
      (st.thread t).frame = .receive f
      → f.pc.update = some (.free i text) ∨ f.pc.update = some (.assign i text)
      → ∃ old, st.kernel.dm.text i = some old ∧ ∀ l, l ≠ f.level → text l = old l)
    (fun here => by cases here) ?_
  intro h st e st' before prepared ok step t f' i text after point
  have step : st.step e = some st' := step
  have separate := separate_run before
  cases turn_of_step step t with
  | rest other thread =>
      rw [thread] at after
      obtain ⟨old, found, same⟩ := prepared after point
      refine ⟨old, ?_, same⟩
      rw [text_of_step separate step fun access device texts => ?_, found]
      -- The receiver holds the mutex of the device.
      cases e with
      | run u external =>
          have owner := deviceHolds_of_texts before device texts
          have mine : (st.thread t).frame.deviceHolds = some i := by
            rw [after]
            rcases point with point | point
            · have index : i = f'.tag := indexed_run before after point
              simp only [Frame.deviceHolds, point, index]
              rfl
            · have index : i = f'.tag := indexed_run before after point
              simp only [Frame.deviceHolds, point, index]
              rfl
          obtain rfl := (exclusive_run before).one mine owner
          exact absurd rfl (other external)
      | _ => cases device
  | @enter euid c event idle thread =>
      rw [thread] at after
      cases c <;> cases after
      rcases point with point | point <;> cases point
  | @go external frame event exec thread =>
      subst event
      rw [thread] at after
      obtain rfl : frame = .receive f' := after
      obtain ⟨pc', inside, point⟩
          : ∃ pc', f'.pc.update = some pc' ∧ (pc' = .free i text ∨ pc' = .assign i text) :=
        point.elim (fun at_ => ⟨_, at_, .inl rfl⟩) fun at_ => ⟨_, at_, .inr rfl⟩
      rcases update_of_exec exec inside with rfl | ⟨f, pc, here, within, move, -, level⟩
      · rcases point with point | point <;> cases point
      · have device : st.device (.run t external) = pc.device := by
          simp only [State.device, here, Frame.device, within, Option.bind_some]
        cases move with
        | @read j n old found =>
            rcases point with point | point
            · obtain ⟨rfl, rfl⟩ := UpdatePc.free.inj point
              have still := text_of_step (i := j) separate step fun access now => by
                rw [device] at now
                cases now
              refine ⟨old, still.trans (DevManager.text_of_copied found), fun l other => ?_⟩
              exact Function.update_of_ne (level ▸ other) ..
            · cases point
        | @free j text' =>
            rcases point with point | point
            · cases point
            · obtain ⟨rfl, rfl⟩ := UpdatePc.assign.inj point
              obtain ⟨old, found, same⟩ := prepared here (.inl within)
              have still := text_of_step (i := j) separate step fun access now _ => by
                rw [device] at now
                exact (Option.some.inj now).symm
              exact ⟨old, still.trans found, fun l other => same l (level ▸ other)⟩
        | _ => rcases point with point | point <;> cases point

/-- A receiver behind its range check has a tag in range. -/
theorem isTag_run {G : Guard (State τ) (Event τ)} (run : (machine τ).Run G h st)
    : ∀ {t f},
        (st.thread t).frame = .receive f
        → f.pc ≠ .entry
        → (∀ r, f.pc ≠ .ret r)
        → IsTag f.tag := by
  refine run.invariant
    (P := fun _ st => ∀ {t f}, (st.thread t).frame = .receive f → f.pc ≠ .entry
      → (∀ r, f.pc ≠ .ret r) → IsTag f.tag)
    (fun here => by cases here) ?_
  intro h st e st' before inRange _ step t f' after started stays
  cases turn_of_step step t with
  | rest _ thread => exact inRange (thread ▸ after) started stays
  | @enter euid c _ _ thread =>
      rw [thread] at after
      cases c <;> cases after
      exact absurd rfl started
  | @go external frame event exec thread =>
      rw [thread] at after
      obtain rfl : frame = .receive f' := after
      have same := Kernel.exec_sameCall exec
      cases here : (st.thread t).frame with
      | receive f =>
          rw [State.op, here] at exec
          rw [here] at same
          obtain ⟨tag, -⟩ := same
          have old := inRange here
          obtain ⟨tag, level, buffer, size, euid, ts, realSize, interrupted, copied, pc⟩ := f
          rw [tag]
          cases pc
          case entry =>
            obtain ⟨-, same⟩ := Prod.mk.inj (Option.some.inj exec)
            dsimp only at same
            split at same
            · obtain rfl := Frame.receive.inj same
              exact absurd rfl (stays _)
            · next inside =>
                obtain ⟨low, high⟩ := not_or.mp inside
                simp only [IsTag, MAX_TAG_SERVICES] at high ⊢
                omega
          case ret r => cases (Prod.mk.inj (Option.some.inj exec)).2
          all_goals exact old (fun same => by cases same) fun r same => by cases same
      | _ => rw [here] at same; cases same

-----------------------------------------------------------------------------------------
-- The invariant
-----------------------------------------------------------------------------------------

/-- The text prints the counter of every level, or some thread has still to print it. -/
structure State.Told (st : State τ) (i : Int) (s : Ref) : Prop where
  slot : st.kernel.tsm.allTagServices i = some s
  text
    : ∃ text,
        st.kernel.dm.text i = some text
        ∧ ∀ l, IsLevel l → text l = st.waiting s l ∨ ∃ t, st.Owes t s l

/-- The service stays in its slot. -/
theorem slot_of_undisturbed (live : Undisturbed i h st e) (step : st.step e = some st')
    : st'.kernel.tsm.allTagServices i = st.kernel.tsm.allTagServices i := by
  cases State.steps_of_step step with
  | @run t external k frame exec =>
      have elsewhere := (live t external rfl).1
      cases stores : (st.op t).stores with
      | none => exact congrFun (Kernel.exec_unstored exec stores) i
      | some stored =>
          obtain ⟨j, ts⟩ := stored
          have other : i ≠ j := fun same => elsewhere ts (same ▸ stores)
          show k.tsm.allTagServices i = _
          rw [Kernel.exec_stores exec stores, Function.update_of_ne other]
  | @softirq n b k next ready exec => exact congrFun (homes_of_callback exec).1 i
  | _ => rfl

omit [DecidableEq τ] in
theorem State.Owes.rest {u : τ} (refreshes : st.Owes u s l)
    (thread : st'.thread u = st.thread u) (same : st'.waiting s l = st.waiting s l)
    : st'.Owes u s l := by
  obtain ⟨f, pc, here, inside, level, fresh⟩ := refreshes
  exact ⟨f, pc, thread ▸ here, inside, level, same ▸ fresh⟩

omit [DecidableEq τ] in
/-- A receiver that will print the present counter goes on to do so, by cases on its move. -/
theorem State.Owes.move {f f' : ReceiveFrame} {pc : UpdatePc} {next : Then UpdatePc Unit}
    (fresh : pc.Fresh s l (st.waiting s l) ∨ pc = .oops) (level : f.level = l) (ts : f.ts = s)
    (slot : st.kernel.tsm.allTagServices f.tag = some s) (tag : IsTag f.tag) (inRange : IsLevel l)
    (small : ∀ r, pc = .waiting r → st.waiting r l < 2 ^ 31)
    (unpublished : ∀ i text, pc ≠ .assign i text)
    (move : UpdateMove st.kernel external f.tag f.level pc next) (updated : f.Updated f' next)
    (after : (st'.thread t).frame = .receive f') (same : st'.waiting s l = st.waiting s l)
    : st'.Owes t s l := by
  obtain ⟨-, level', ts', update⟩ := updated
  have go {pc' : UpdatePc} (goes : f'.pc.update = some pc') (fresh : pc'.Fresh s l (st.waiting s l))
      : st'.Owes t s l :=
    ⟨f', pc', after, goes, ⟨ts'.trans ts, level'.trans level⟩, .inl (same ▸ fresh)⟩
  have fresh : pc.Fresh s l (st.waiting s l) := by
    refine fresh.resolve_right fun oopsed => ?_
    subst oopsed
    cases move
  cases move with
  | reject outside =>
      obtain ⟨low, high⟩ := tag
      obtain ⟨low', high'⟩ := inRange
      simp only [level, MAX_TAG_SERVICES, MAX_LEVELS] at outside high high'
      omega
  | accept => exact go update trivial
  | missing empty => cases slot.symm.trans empty
  | @load r found =>
      obtain rfl := Option.some.inj (slot.symm.trans found)
      exact go update rfl
  | @waiting r =>
      obtain rfl : r = s := fresh
      refine go update ?_
      have small : st.waiting r l < 2 ^ 31 := small r rfl
      show atomicRead ((st.kernel.service r).level f.level).threadWaiting = st.waiting r l
      rw [level]
      change atomicRead (st.waiting r l) = st.waiting r l
      have low : st.waiting r l % 2 ^ 32 = st.waiting r l :=
        Nat.mod_eq_of_lt (Nat.lt_trans small (by decide))
      rw [atomicRead, low, if_pos small]
  | index => exact go update fresh
  | lock => exact go update fresh
  | blank =>
      exact ⟨f', .oops, after, update, ⟨ts'.trans ts, level'.trans level⟩, .inr rfl⟩
  | read =>
      refine go update ?_
      subst level
      exact (Function.update_self ..).trans fresh
  | free => exact go update fresh
  | @assign j text => exact absurd rfl (unpublished j text)
  | unlock => exact fresh.elim

section

variable (told : st.Told i s) (live : Undisturbed i h st e) (step : st.step e = some st')

include told live step

/-- A step that changes neither the text nor a counter, and stops nobody, keeps the text told. -/
theorem State.Told.quiet (still : st'.kernel.dm.text i = st.kernel.dm.text i)
    (same : ∀ l, st'.waiting s l = st.waiting s l)
    (refreshes : ∀ u l, st.Owes u s l → st'.Owes u s l)
    : st'.Told i s := by
  obtain ⟨slot, text, found, prints⟩ := told
  refine ⟨(slot_of_undisturbed live step).trans slot, text, still.trans found, fun l inRange => ?_⟩
  rw [same l]
  exact (prints l inRange).imp_right fun fresh => fresh.imp fun u now => refreshes u l now

/-- The step of a thread that is in no update changes no text that it does not refresh. -/
theorem State.Told.outside (before : (machine τ).Run UpToDate h st)
    (refreshing : ∀ l, ¬ st.Owes t s l)
    (still : st'.kernel.dm.text i = st.kernel.dm.text i)
    (others : ∀ u, u ≠ t → st'.thread u = st.thread u)
    (counts
      : ∀ l,
          st.writes e = some (s, .incLevel l) ∨ st.writes e = some (s, .decLevel l)
          → st'.Owes t s l)
    : st'.Told i s := by
  have unheld := UpToDate.unheld before
  obtain ⟨slot, text, found, prints⟩ := told
  obtain ⟨born, unfreed⟩ := (homes_run unheld).slot slot
  refine ⟨(slot_of_undisturbed live step).trans slot, text, still.trans found, fun l inRange => ?_⟩
  by_cases changes : st.writes e = some (s, .incLevel l) ∨ st.writes e = some (s, .decLevel l)
  · exact .inr ⟨t, counts l changes⟩
  · have same : st'.waiting s l = st.waiting s l :=
      waiting_of_step step born (kept_of_unfreed step unfreed) (not_or.mp changes)
    rw [same]
    refine (prints l inRange).imp_right fun fresh => fresh.imp fun u now => ?_
    refine now.rest (others u fun twice => ?_) same
    subst twice
    exact refreshing l now

end

omit [DecidableEq τ] in
/-- A receiver that changes a counter goes on to print it. -/
theorem update_of_counts {k : Kernel τ} {f : ReceiveFrame} {frame : Frame}
    (counts
      : (Frame.receive f).writes = some (s, .incLevel l)
        ∨ (Frame.receive f).writes = some (s, .decLevel l))
    (move : ReceiveMove k t f f.pc frame)
    : ∃ f',
        frame = .receive f' ∧ f'.pc.update = some .check ∧ f'.ts = s ∧ f'.level = l := by
  obtain ⟨tag, level, buffer, size, euid, ts, realSize, interrupted, copied, pc⟩ := f
  cases pc
  case incLevel =>
    cases move
    rcases counts with counts | counts <;> cases counts
    exact ⟨_, rfl, rfl, rfl, rfl⟩
  case decLevel x =>
    cases move
    rcases counts with counts | counts <;> cases counts
    exact ⟨_, rfl, rfl, rfl, rfl⟩
  all_goals rcases counts with counts | counts <;> cases counts

omit [DecidableEq τ] in
/-- Only receivers change the counters of levels, by cases on the program point. -/
theorem receiving_of_counts {frame : Frame}
    (counts
      : frame.writes = some (s, .incLevel l) ∨ frame.writes = some (s, .decLevel l))
    : frame.receiving = true := by
  cases frame with
  | receive f => rfl
  | send f =>
      obtain ⟨tag, level, buffer, size, euid, realSize, stored, ts, pc⟩ := f
      cases pc <;> rcases counts with counts | counts <;> cases counts
  | ctl f =>
      obtain ⟨tag, command, euid, ts, index, awakened, pc⟩ := f
      cases pc <;> rcases counts with counts | counts <;> cases counts
  | _ => rcases counts with counts | counts <;> cases counts

omit [DecidableEq τ] in
/-- Inside `update_chrdev` a receiver makes no store, and uses the service that it has loaded. -/
theorem silent_of_update {f : ReceiveFrame} {pc : UpdatePc} (within : f.pc.update = some pc)
    : (Frame.receive f).writes = none
      ∧ (Frame.receive f).loaded = some (f.tag, f.ts)
      ∧ f.pc ≠ .entry
      ∧ ∀ r, f.pc ≠ .ret r := by
  obtain ⟨tag, level, buffer, size, euid, ts, realSize, interrupted, copied, point⟩ := f
  cases point <;> cases within
  all_goals exact ⟨rfl, rfl, fun same => (by cases same), fun _ same => (by cases same)⟩

/-- A step of `update_chrdev` keeps the text told, by cases on the move. -/
theorem State.Told.update (told : st.Told i s) (before : (machine τ).Run UpToDate h st)
    {external : Nat} (ok : UpToDate h st (.run t external))
    (live : Undisturbed i h st (.run t external)) (step : st.step (.run t external) = some st')
    {f f' : ReceiveFrame} {pc : UpdatePc} {next : Then UpdatePc Unit}
    (here : (st.thread t).frame = .receive f) (within : f.pc.update = some pc)
    (move : UpdateMove st.kernel external f.tag f.level pc next) (updated : f.Updated f' next)
    (after : (st'.thread t).frame = .receive f')
    (others : ∀ u, u ≠ t → st'.thread u = st.thread u)
    : st'.Told i s := by
  have unheld := UpToDate.unheld before
  have separate := separate_run before
  obtain ⟨slot, text, found, prints⟩ := told
  obtain ⟨born, unfreed⟩ := (homes_run unheld).slot slot
  obtain ⟨silent, loaded, started, stays⟩ := silent_of_update within
  have writes : st.writes (.run t external) = none := by
    rw [State.writes, here, silent]
  have device : st.device (.run t external) = pc.device := by
    simp only [State.device, here, Frame.device, within, Option.bind_some]
  have same l : st'.waiting s l = st.waiting s l := by
    refine waiting_of_step step born (kept_of_unfreed step unfreed) ?_
    rw [writes]
    exact ⟨fun now => (by cases now), fun now => (by cases now)⟩
  have index := indexed_run unheld here within
  have own {l} (now : st.Owes t s l)
      : f.ts = s ∧ f.level = l ∧ (pc.Fresh s l (st.waiting s l) ∨ pc = .oops) := by
    obtain ⟨f₁, pc₁, here₁, inside, ⟨ts, level⟩, fresh⟩ := now
    obtain rfl := Frame.receive.inj (here.symm.trans here₁)
    obtain rfl := Option.some.inj (within.symm.trans inside)
    exact ⟨ts, level, fresh⟩
  have tagged (ts : f.ts = s) : f.tag = i := by
    have mine := (rightful_run unheld t).tagged (i := f.tag) (s := f.ts) (here ▸ loaded)
    rw [ts] at mine
    exact mine.symm.trans ((Unheld.safe unheld).slots slot).1.2.1
  have rest {u l} (other : u ≠ t) (now : st.Owes u s l) : st'.Owes u s l :=
    now.rest (others u other) (same l)
  by_cases publishes : ∃ j new, pc = .assign j new
  · obtain ⟨j, new, rfl⟩ := publishes
    have printed := DevManager.text_access separate (.storeText j new) i
    have dm : st'.kernel.dm = st.kernel.dm.access (.storeText j new) := by
      rw [dm_of_step step, device]
      rfl
    rw [← dm] at printed
    dsimp only at printed
    rcases eq_or_ne i j with rfl | other
    · rw [if_pos rfl] at printed
      refine ⟨(slot_of_undisturbed live step).trans slot, new, printed, fun l inRange => ?_⟩
      rw [same l]
      rcases eq_or_ne l f.level with rfl | apart
      · refine ((ok.2 t f external rfl here).1 i new s within slot).imp_right ?_
        rintro ⟨u, other, now⟩
        exact ⟨u, rest other now.owes⟩
      · obtain ⟨old, found', unchanged⟩ := prepared_run unheld here (.inr within)
        obtain rfl := Option.some.inj (found.symm.trans found')
        rw [unchanged l apart]
        refine (prints l inRange).imp_right fun fresh => fresh.imp fun u now => ?_
        refine rest (fun twice => ?_) now
        subst twice
        exact apart (own now).2.1.symm
    · rw [if_neg other] at printed
      refine State.Told.quiet ⟨slot, text, found, prints⟩ live step printed same
        fun u l now => rest (fun twice => ?_) now
      subst twice
      exact other ((tagged (own now).1).symm.trans index.symm)
  · have unpublished j new (assigns : pc = .assign j new) : False := publishes ⟨j, new, assigns⟩
    refine State.Told.quiet ⟨slot, text, found, prints⟩ live step ?_ same fun u l now => ?_
    · refine text_of_step separate step fun access now texts => ?_
      rw [device] at now
      cases pc <;> cases now <;> cases texts
      · rfl
      · exact (unpublished _ _ rfl).elim
    · rcases eq_or_ne u t with rfl | other
      · obtain ⟨ts, level, fresh⟩ := own now
        have tag := tagged ts
        refine State.Owes.move fresh level ts (tag ▸ slot) (isTag_run unheld here started stays)
          (level ▸ isLevel_run unheld here started stays) (fun r reads => ?_) unpublished move updated
          after (same l)
        rw [← level]
        exact (ok.2 u f external rfl here).2 r (reads ▸ within)
      · exact rest other now

/-- An event that is no step of a call keeps the text told. -/
theorem State.Told.event (told : st.Told i s) (before : (machine τ).Run UpToDate h st)
    (live : Undisturbed i h st e) (step : st.step e = some st')
    (outside : ∀ t external, e ≠ .run t external)
    : st'.Told i s := by
  obtain ⟨born, unfreed⟩ := (homes_run (UpToDate.unheld before)).slot told.slot
  have dm := dm_of_step step
  have device : st.device e = none := by
    cases e <;> first | rfl | exact absurd rfl (outside _ _)
  rw [device] at dm
  have same l : st'.waiting s l = st.waiting s l := by
    refine waiting_of_step step born (kept_of_unfreed step unfreed) ⟨fun now => ?_, fun now => ?_⟩
    all_goals
      cases e with
      | run t external => exact outside t external rfl
      | softirq n =>
          simp only [State.writes] at now
          split at now
          · next b _ =>
              obtain ⟨job, r, stage, caller⟩ := b
              cases job <;> cases stage <;> cases now
          · cases now
      | _ => cases now
  refine told.quiet live step (congrArg (·.text i) dm) same fun u l now => ?_
  refine now.rest ?_ (same l)
  cases turn_of_step step u with
  | rest _ thread => exact thread
  | enter _ idle _ =>
      obtain ⟨f, pc, here, -⟩ := now
      rw [here] at idle
      cases idle
  | go event _ _ => exact absurd event (outside _ _)

/-- Every step keeps the text told, by cases on whose step it is. -/
theorem State.Told.step (told : st.Told i s) (before : (machine τ).Run UpToDate h st)
    (ok : UpToDate h st e) (live : Undisturbed i h st e) (step : st.step e = some st')
    : st'.Told i s := by
  have separate := separate_run before
  have dm := dm_of_step step
  cases turned : e with
  | run t external =>
      subst turned
      have others u (other : u ≠ t) : st'.thread u = st.thread u := by
        cases turn_of_step step u with
        | rest _ thread => exact thread
        | enter event _ _ => cases event
        | go event _ _ => exact absurd (Event.run.inj event).1.symm other
      cases turn_of_step step t with
      | rest other _ => exact absurd rfl (other external)
      | enter event _ _ => cases event
      | @go external' frame event exec thread =>
          obtain rfl := (Event.run.inj event).2
          have outside (refreshing : ∀ l, ¬ st.Owes t s l)
              (still : ∀ access, (st.thread t).frame.device = some access → access.texts ≠ some i)
              (counts
                : ∀ l,
                    (st.thread t).frame.writes = some (s, .incLevel l)
                      ∨ (st.thread t).frame.writes = some (s, .decLevel l)
                    → st'.Owes t s l)
              : st'.Told i s := by
            refine told.outside live step before refreshing ?_ others counts
            refine text_of_step separate step fun access now texts => ?_
            exact absurd texts (still access now)
          cases here : (st.thread t).frame with
          | receive f =>
              rw [State.op, here] at exec
              have exec : st.kernel.exec external (tagReceive t f) = _ := exec
              cases within : f.pc.update with
              | none =>
                  refine outside (fun l fresh => ?_) (fun access now => ?_) fun l counts => ?_
                  · obtain ⟨f', pc, here', inside, -⟩ := fresh
                    obtain rfl := Frame.receive.inj (here.symm.trans here')
                    cases within.symm.trans inside
                  · rw [here] at now
                    simp only [Frame.device, within] at now
                    cases now
                  · rw [here] at counts
                    obtain ⟨f', rfl, inside, ts, level⟩ :=
                      update_of_counts counts (receiveMove_of_exec exec)
                    exact ⟨f', .check, by rw [thread], inside, ⟨ts, level⟩, .inl trivial⟩
              | some pc =>
                  obtain ⟨f', next, rfl, move, updated⟩ := updated_of_exec within exec
                  exact told.update before ok live step here within move updated (by rw [thread])
                    others
          | _ =>
              refine outside (fun l fresh => ?_) (fun access now texts => ?_) fun l counts => ?_
              · obtain ⟨f', pc, here', -⟩ := fresh
                cases here.symm.trans here'
              · have receives := (live t external rfl).2 access now texts
                rw [here] at receives
                cases receives
              · have receives := receiving_of_counts counts
                rw [here] at receives
                cases receives
  | _ =>
      exact told.event before live step fun t external same => by cases turned.symm.trans same

/-- From a state on in which the text is right, it is told. -/
theorem told_of_truthful (run : (machine τ).Run UpToDate h st)
    (live
      : Since (Undisturbed i) (fun past st e => st.Truthful i s ∧ Undisturbed i past st e) h)
    : st.Told i s := by
  induction run with
  | start => cases live
  | next before ok step ih =>
      cases live with
      | here now =>
          obtain ⟨⟨slot, text, found, prints⟩, undisturbed⟩ := now
          have told : State.Told _ i s :=
            ⟨slot, text, found, fun l inRange => .inl (prints l inRange)⟩
          exact told.step before ok undisturbed step
      | later earlier undisturbed => exact (ih earlier).step before ok undisturbed step

omit [DecidableEq τ] in
theorem not_owed (rest : ∀ t, (st.thread t).frame.refreshing ≠ some (s, l))
    : ¬ ∃ t, st.Owes t s l := by
  rintro ⟨t, f, pc, here, inside, ⟨ts, level⟩, -⟩
  refine rest t ?_
  rw [here]
  simp only [Frame.refreshing, inside, ts, level, Option.map_some]

-----------------------------------------------------------------------------------------
-- The law
-----------------------------------------------------------------------------------------

/-- As long as no receiver prints an old counter over a newer one, the text of a live service
prints the counter of every level that no thread has still to rewrite.
-/
theorem device_tells_truth (run : (machine τ).Run UpToDate h st)
    (live
      : Since (Undisturbed i) (fun past st e => st.Truthful i s ∧ Undisturbed i past st e) h)
    : ∃ text,
        st.kernel.dm.text i = some text
        ∧ ∀ l,
            IsLevel l
            → (∀ t, (st.thread t).frame.refreshing ≠ some (s, l))
            → text l = st.waiting s l := by
  obtain ⟨-, text, found, prints⟩ := told_of_truthful run live
  exact ⟨text, found, fun l inRange rest => (prints l inRange).resolve_right (not_owed rest)⟩

-----------------------------------------------------------------------------------------
-- Runs of two threads
-----------------------------------------------------------------------------------------

/-- The device, the text and the level with which a receiver is about to publish. -/
def Frame.publishing : Frame → Option (Int × Text × Int)
  | receive f =>
      match f.pc.update with
      | some (.assign i text) => some (i, text, f.level)
      | _ => none
  | _ => none

/-- The counter that a receiver is about to read. -/
def Frame.counting : Frame → Option (Ref × Int)
  | receive f =>
      match f.pc.update with
      | some (.waiting s) => some (s, f.level)
      | _ => none
  | _ => none

/-- The text is published with the present counter, and memory is not given out again. -/
def upToDateTest (st : State τ) : Event τ → Bool
  | .run t _ =>
      ((st.thread t).frame.publishing.all fun p =>
        (st.kernel.tsm.allTagServices p.1).all fun s => p.2.1 p.2.2 == st.waiting s p.2.2)
      && (st.thread t).frame.counting.all fun p => decide (st.waiting p.1 p.2 < 2 ^ 31)
  | .reuse _ _ => false
  | _ => true

theorem upToDate_of_test {G : Guard (State τ) (Event τ)}
    (passes : ∀ h st e, G h st e → upToDateTest st e = true) (run : (machine τ).Run G h st)
    : (machine τ).Run UpToDate h st := by
  refine run.mono fun h st e ok => ⟨?_, ?_⟩
  · have passes := passes h st e ok
    cases e <;> trivial
  · rintro t f external rfl here
    obtain ⟨published, counted⟩ := Bool.and_eq_true_iff.mp (passes h st _ ok)
    refine ⟨fun i text s assigns slot => .inl ?_, fun s waits => ?_⟩
    · have publishing : (st.thread t).frame.publishing = some (i, text, f.level) := by
        rw [here]
        simp only [Frame.publishing, assigns]
      rw [publishing] at published
      simp only [Option.all_some, slot, beq_iff_eq] at published
      exact published
    · have counting : (st.thread t).frame.counting = some (s, f.level) := by
        rw [here]
        simp only [Frame.counting, waits]
      rw [counting] at counted
      simpa only [Option.all_some, decide_eq_true_eq] using counted

/-- The test that an event disturbs neither the slot nor the text of a device. -/
def undisturbedTest (i : Int) (st : State τ) : Event τ → Bool
  | .run t _ =>
      ((((st.thread t).frame.op (t, (st.thread t).calls)).stores.map (·.1)) != some i)
      && ((((st.thread t).frame.device.bind DeviceAccess.texts) != some i)
        || (st.thread t).frame.receiving)
  | _ => true

omit [DecidableEq τ] in
theorem undisturbed_of_test (passes : undisturbedTest i st e = true) : Undisturbed i h st e := by
  rintro t external rfl
  simp only [undisturbedTest, Bool.and_eq_true, Bool.or_eq_true, bne_iff_ne] at passes
  refine ⟨fun ts stores => passes.1 (by rw [stores]; rfl), fun access device texts => ?_⟩
  exact passes.2.resolve_left (not_not_intro (by rw [device]; exact texts))

/-- The test that the text of a device prints the counters of a service. -/
def truthfulTest (i : Int) (s : Ref) (st : State τ) : Bool :=
  st.kernel.tsm.allTagServices i == some s
  && match st.kernel.dm.text i with
    | some text => (List.range 32).all fun l => text l == st.waiting s l
    | none => false

omit [DecidableEq τ] in
theorem truthful_of_test (passes : truthfulTest i s st = true) : st.Truthful i s := by
  obtain ⟨slot, prints⟩ := Bool.and_eq_true_iff.mp passes
  refine ⟨eq_of_beq slot, ?_⟩
  split at prints
  · next text found =>
      refine ⟨text, found, fun l inRange => ?_⟩
      obtain ⟨low, high⟩ := inRange
      have bound : l.toNat < 32 := by
        simp only [MAX_LEVELS] at high
        omega
      have same := List.all_eq_true.mp prints l.toNat (List.mem_range.mpr bound)
      rw [Int.toNat_of_nonneg low] at same
      exact eq_of_beq same
  · cases prints

omit [DecidableEq τ] in
theorem live_of_test
    (passes
      : sinceTest (undisturbedTest i) (fun st e => truthfulTest i s st && undisturbedTest i st e) h
        = true)
    : Since (Undisturbed i) (fun past st e => st.Truthful i s ∧ Undisturbed i past st e) h := by
  refine (since_of_test passes).mono (fun _ _ _ => undisturbed_of_test) fun _ _ _ both => ?_
  obtain ⟨truthful, undisturbed⟩ := Bool.and_eq_true_iff.mp both
  exact ⟨truthful_of_test truthful, undisturbed_of_test undisturbed⟩

/-- A thread sleeps on level 3 and the text says so. -/
theorem device_tells_truth_of_sleeper
    : ∃ h st text,
        (machine (Fin 2)).Run UpToDate h st
        ∧ Since (Undisturbed 1) (fun past st e => st.Truthful 1 0 ∧ Undisturbed 1 past st e) h
        ∧ (∀ t, (st.thread t).frame.refreshing ≠ some (0, 3))
        ∧ st.waiting 0 3 = 1
        ∧ st.kernel.dm.text 1 = some text
        ∧ text 3 = 1 := by
  obtain ⟨h, st, run, facts⟩ := Machine.Run.exists_of_replay
    (M := machine (Fin 2)) (G := fun _ st e => upToDateTest st e = true)
    (creating 0 1 ++ fallingAsleep 1 1 3)
    (fun h st =>
      sinceTest (undisturbedTest 1) (fun st e => truthfulTest 1 0 st && undisturbedTest 1 st e) h
      && [0, 1].all (fun t => (st.thread t).frame.refreshing.isNone) && st.waiting 0 3 == 1)
    (by decide +kernel)
  simp only [Bool.and_eq_true, beq_iff_eq, List.all_cons, List.all_nil, Bool.and_true] at facts
  obtain ⟨⟨live, idle⟩, waiting⟩ := facts
  have run := upToDate_of_test (fun _ _ _ ok => ok) run
  have live := live_of_test live
  have nobody : ∀ t, (st.thread t).frame.refreshing = none := by
    refine Fin.forall_fin_two.mpr ⟨?_, ?_⟩
    · exact Option.isNone_iff_eq_none.mp idle.1
    · exact Option.isNone_iff_eq_none.mp idle.2
  have rest t : (st.thread t).frame.refreshing ≠ some (0, 3) := by
    rw [nobody t]
    exact fun same => by cases same
  obtain ⟨text, found, prints⟩ := device_tells_truth run live
  exact ⟨h, st, text, run, live, rest, waiting, found, (prints 3 (by decide) rest).trans waiting⟩

/-- Without the condition the text stays wrong: two threads enter the same level, and the one
that has read the counter first publishes last.
-/
theorem device_lies
    : ¬ ∀ (h : History (State (Fin 2)) (Event (Fin 2))) (st : State (Fin 2)) (i : Int) (s : Ref),
        (machine (Fin 2)).Run anyStep h st
        → Since (Undisturbed i) (fun past st e => st.Truthful i s ∧ Undisturbed i past st e) h
        → ∃ text,
            st.kernel.dm.text i = some text
            ∧ ∀ l,
                IsLevel l
                → (∀ t, (st.thread t).frame.refreshing ≠ some (s, l))
                → text l = st.waiting s l := by
  intro always
  obtain ⟨h, st, run, facts⟩ := Machine.Run.exists_of_replay
    (M := machine (Fin 2)) (G := anyStep)
    (creating 0 1 ++ .call 1 0 (.tagReceive 1 3 true 16) :: runs 1 9
      ++ .call 0 0 (.tagReceive 1 3 true 16) :: runs 0 15 ++ runs 1 6)
    (fun h st =>
      sinceTest (undisturbedTest 1) (fun st e => truthfulTest 1 0 st && undisturbedTest 1 st e) h
      && [0, 1].all (fun t => (st.thread t).frame.refreshing.isNone) && st.waiting 0 3 == 2
      && (st.kernel.dm.text 1).all (· 3 == 1))
    (by decide +kernel)
  simp only [Bool.and_eq_true, beq_iff_eq, List.all_cons, List.all_nil, Bool.and_true] at facts
  obtain ⟨⟨⟨live, idle⟩, waiting⟩, printed⟩ := facts
  have nobody : ∀ t, (st.thread t).frame.refreshing = none := by
    refine Fin.forall_fin_two.mpr ⟨?_, ?_⟩
    · exact Option.isNone_iff_eq_none.mp idle.1
    · exact Option.isNone_iff_eq_none.mp idle.2
  obtain ⟨text, found, prints⟩ := always h st 1 0 run (live_of_test live)
  rw [found] at printed
  have one : text 3 = 1 := eq_of_beq printed
  have two := (prints 3 (by decide) fun t same => by cases (nobody t).symm.trans same).trans waiting
  exact absurd (one.symm.trans two) (by decide)

end TagExchange
