import TagExchange.Model.Overruns
import TagExchange.Properties.MessageLengths
import TagExchange.Properties.OwnerOnly
import TagExchange.Properties.SlotRegistry

/-! The runs in which every store stays in its block. Wherever the kernel has put the blocks, they
are the runs of the module without overruns.
-/

namespace TagExchange

open Concurrency Protocol

variable {τ : Type}

-----------------------------------------------------------------------------------------
-- Sends
-----------------------------------------------------------------------------------------

/-- The bytes of a send fit its buffers, if `copy_from_user` leaves so many of them. -/
def SendFrame.Fits (g : SendFrame) (notCopied : Nat) : Prop :=
  g.size > MAX_MESSAGE_SIZE - 1
  ∨ strlen g.buffer < MAX_MESSAGE_SIZE - 1
  ∨ strlen g.buffer = MAX_MESSAGE_SIZE - 1 ∧ 0 < notCopied

instance (g : SendFrame) (notCopied : Nat) : Decidable (g.Fits notCopied) :=
  inferInstanceAs (Decidable (_ ∨ _))

/-- What fits leaves room for the terminator. -/
theorem SendFrame.Fits.room {g : SendFrame} {notCopied : Nat} (fits : g.Fits notCopied)
    : g.requested ≤ MAX_MESSAGE_SIZE ∧ g.requested - notCopied < MAX_MESSAGE_SIZE := by
  rw [SendFrame.requested]
  by_cases above : g.size > MAX_MESSAGE_SIZE - 1
  · rw [if_pos above]
    exact ⟨by decide, Nat.lt_of_le_of_lt (Nat.sub_le ..) (by decide)⟩
  · rw [if_neg above]
    rcases fits with large | short | ⟨longest, left_⟩
    · exact absurd large above
    all_goals
      simp only [MAX_MESSAGE_SIZE] at *
      omega

variable [DecidableEq τ]

/-- A send that copies its user's bytes in its next step has room for them. -/
def Frame.SendsFit (notCopied : Nat) : Frame → Prop
  | send g => g.pc = .copyFromUser → notCopied ≤ g.realSize → g.Fits notCopied
  | _ => True

instance (notCopied : Nat) : (frame : Frame) → Decidable (frame.SendsFit notCopied)
  | .send g =>
      inferInstanceAs
        (Decidable (g.pc = .copyFromUser → notCopied ≤ g.realSize → g.Fits notCopied))
  | .user _ | .get _ | .receive _ | .ctl _ => isTrue trivial

def State.SendsFit (st : State τ) : Event τ → Prop
  | .run t external => (st.thread t).frame.SendsFit external
  | _ => True

/-- No freed memory is reused, the keys of creations hash into the arrays, and every send has room
for the bytes that it copies.
-/
def Confined : Guard (State τ) (Event τ) :=
  fun _ st e => NoReuse e ∧ HashInRange e ∧ st.SendsFit e

instance (st : State τ) : (e : Event τ) → Decidable (st.SendsFit e)
  | .run t external => inferInstanceAs (Decidable ((st.thread t).frame.SendsFit external))
  | .call .. | .softirq _ | .signal _ | .reuse .. => isTrue trivial

instance (h : History (State τ) (Event τ)) (st : State τ) (e : Event τ)
    : Decidable (Confined h st e) :=
  inferInstanceAs (Decidable (_ ∧ _ ∧ _))

variable {h : History (State τ) (Event τ)} {st st' : State τ} {e : Event τ} {t : τ}

theorem copied_of_step {external : Nat} (step : st.step (.run t external) = some st')
    {g g' : SendFrame} (here : (st.thread t).frame = .send g) (copies : g.pc = .copyFromUser)
    (after : (st'.thread t).frame = .send g') (copied : g'.pc.copied = true)
    : external ≤ g.realSize ∧ g'.stored = g.realSize - external := by
  cases State.steps_of_step step with
  | run exec =>
      rw [State.setThread_frame, if_pos rfl] at after
      rw [State.op, here] at exec
      obtain ⟨bound, same⟩ | ⟨-, same⟩ := copy_of_exec copies exec
      · obtain rfl := Frame.send.inj (after.symm.trans same)
        exact ⟨bound, rfl⟩
      · obtain rfl := Frame.send.inj (after.symm.trans same)
        cases copied

/-- What a send has copied leaves room for the terminator, by cases on its moves. -/
theorem roomy_run (run : (machine τ).Run Confined h st)
    : ∀ {t g}, (st.thread t).frame = .send g → g.pc.copied = true → g.stored < MAX_MESSAGE_SIZE := by
  refine run.invariant
    (P := fun _ st => ∀ {t g},
      (st.thread t).frame = .send g → g.pc.copied = true → g.stored < MAX_MESSAGE_SIZE)
    (fun here => by cases here) ?_
  intro h st e st' before stored ok step t g' after copied
  have step : st.step e = some st' := step
  cases sendTurn_of_step step after with
  | rest _ thread => exact stored (thread ▸ after) copied
  | enter calls entered =>
      rename_i euid c
      cases c <;> cases entered
      cases copied
  | @move external g pc frame event here calls point move target =>
      have stored := stored here
      by_cases copies : g.pc = .copyFromUser
      · have fits := ok.2.2
        simp only [event, State.SendsFit, Frame.SendsFit, here] at fits
        obtain ⟨bound, same⟩ := copied_of_step (event ▸ step) here copies after copied
        have room := (fits copies bound).room.2
        rwa [← (measured_run before here).realSize (by rw [copies]; rfl), ← same] at room
      obtain ⟨tag, level, buffer, size, euid, real, n, ts, pc⟩ := g
      obtain rfl := point
      cases move with
      | copyFromUser | unmapped => exact absurd rfl copies
      | getPage | refuse | refuseLevel | accept | noPage | freePage =>
          obtain rfl := Frame.send.inj target
          cases copied
      | leave => cases target
      | _ =>
          obtain rfl := Frame.send.inj target
          exact stored rfl

omit [DecidableEq τ] in
/-- How far a send reaches into its blocks. -/
theorem Layout.lengths_of_send (layout : Layout τ) {c : CallId τ} {external : Nat} {g : SendFrame}
    {fill : Fill} (filled : layout.fill c external (.send g) = some fill)
    : 0 ≤ fill.first
      ∧ fill.length = MAX_MESSAGE_SIZE
      ∧ (g.pc = .copyFromUser ∧ external ≤ g.realSize ∧ fill.last = g.realSize
        ∨ g.pc.copied = true ∧ fill.last ≤ g.stored + 1) := by
  obtain ⟨tag, level, buffer, size, euid, realSize, stored, ts, pc⟩ := g
  cases pc
  case copyFromUser =>
    simp only [Layout.fill, Option.ite_none_right_eq_some] at filled
    obtain ⟨bound, same⟩ := filled
    obtain rfl := Option.some.inj same
    exact ⟨le_refl _, rfl, .inl ⟨rfl, bound, rfl⟩⟩
  case memcpy =>
    obtain rfl := Option.some.inj filled
    exact ⟨le_refl _, rfl, .inr ⟨rfl, by dsimp only; omega⟩⟩
  case terminator =>
    obtain rfl := Option.some.inj filled
    exact ⟨Int.natCast_nonneg _, rfl, .inr ⟨rfl, le_refl _⟩⟩
  all_goals cases filled

-----------------------------------------------------------------------------------------
-- Slots
-----------------------------------------------------------------------------------------

omit [DecidableEq τ] in
/-- A store into a slot is one into the array. -/
theorem isTag_of_stores (x : RegistryInvariant st) {c : CallId τ} {i : Int} {ts : Option Ref}
    (stores : ((st.thread t).frame.op c).stores = some (i, ts))
    : IsTag i := by
  rcases stores_cases stores with ⟨s, -, view⟩ | ⟨s, -, -, view⟩
  · exact isTag_of_fresh (x.creating t) view
  · have fact := x.safe.fact t
    rw [State.view, view] at fact
    exact x.inRange fact.1

omit [DecidableEq τ] in
theorem Layout.slot_inside (layout : Layout τ) {i : Int} {ts : Option Ref} (inRange : IsTag i)
    : (layout.slot i ts).Inside := by
  obtain ⟨low, high⟩ := inRange
  simp only [Fill.Inside, Layout.slot, POINTER_SIZE, TAG_SERVICE_SIZE]
  omega

-----------------------------------------------------------------------------------------
-- The runs
-----------------------------------------------------------------------------------------

namespace Confined

theorem unreused (run : (TagExchange.machine τ).Run Confined h st)
    : (TagExchange.machine τ).Run Unreused h st :=
  run.mono fun _ _ _ ok => ok.1

theorem unheld (run : (TagExchange.machine τ).Run Confined h st)
    : (TagExchange.machine τ).Run Unheld h st :=
  Unreused.unheld (unreused run)

theorem registry (run : (TagExchange.machine τ).Run Confined h st) : RegistryInvariant st :=
  registryInvariant_run (run.mono fun _ _ _ ok => ⟨ok.1, ok.2.1⟩)

/-- Every store of a confined run is one inside its block. -/
theorem inside (layout : Layout τ) (run : (TagExchange.machine τ).Run Confined h st)
    (ok : Confined h st e) {fill : Fill} (filled : layout.filled st e = some fill)
    : fill.Inside := by
  cases e with
  | run t external =>
      cases here : (st.thread t).frame with
      | send g =>
          have fits := ok.2.2
          simp only [State.SendsFit, Frame.SendsFit, here] at fits
          rw [Layout.filled, here] at filled
          obtain ⟨first, length, last⟩ := layout.lengths_of_send filled
          refine ⟨first, ?_⟩
          rw [length]
          rcases last with ⟨copies, bound, last⟩ | ⟨copied, last⟩
          · have room := (fits copies bound).room.1
            rw [← (measured_run run here).realSize (by rw [copies]; rfl)] at room
            exact last ▸ Int.ofNat_le.mpr room
          · exact le_trans last (Int.ofNat_le.mpr (roomy_run run here copied))
      | _ =>
          rw [Layout.filled, here] at filled
          simp only [Layout.fill, Option.map_eq_some_iff, Prod.exists] at filled
          obtain ⟨i, ts, stores, rfl⟩ := filled
          exact layout.slot_inside (isTag_of_stores (t := t) (registry run) (by rw [here]; exact stores))
  | _ => cases filled

/-- Wherever the kernel has put the blocks, the confined runs are those of the module without
overruns.
-/
theorem run_iff (layout : Layout τ)
    : layout.machine.Run Confined h st ↔ (TagExchange.machine τ).Run Confined h st :=
  Machine.Run.iff_of_agree (by rfl) fun run ok =>
    layout.step_inside fun _ filled => inside layout run ok filled

end Confined

end TagExchange
