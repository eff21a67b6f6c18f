import TagExchange.Concurrency.Tally
import TagExchange.Model.Oopses
import TagExchange.Model.Turns

/-! Each system call gives back the reference to the module that it takes, and `tag_send` its page;
only a `tag_send` with a tag out of its range keeps its reference, and a call that follows a pointer
without a check and never returns.
-/

namespace TagExchange

open Concurrency

variable {τ α : Type}

-----------------------------------------------------------------------------------------
-- What is taken and given back
-----------------------------------------------------------------------------------------

/-- What a call has to give back by hand: the reference to the module, and the page that `tag_send`
copies the message to.
-/
inductive Resource
  | reference
  | page
deriving DecidableEq

/-- `try_module_get`, and `get_zeroed_page` where it succeeds. -/
def Op.acquires (external : Nat) : Resource → Op τ α → Bool
  | .reference, .tryModuleGet _ => true
  | .page, .getZeroedPage _ _ => external == 0
  | _, _ => false

/-- `module_put` and `free_pages`. -/
def Op.releases : Resource → Op τ α → Bool
  | .reference, .leave _ put _ => put
  | .page, .freePages _ => true
  | _, _ => false

/-- The module count, and the pages in use. -/
def Kernel.held (k : Kernel τ) : Resource → Int
  | .reference => k.moduleRefs
  | .page => k.pages

@[simp] theorem Kernel.held_setTsm (k : Kernel τ) (f : TsManagement → TsManagement) (r : Resource)
    : (k.setTsm f).held r = k.held r := by
  cases r <;> rfl

@[simp] theorem Kernel.held_setDm (k : Kernel τ) (f : DevManager → DevManager) (r : Resource)
    : (k.setDm f).held r = k.held r := by
  cases r <;> rfl

@[simp] theorem Kernel.held_onContent (k : Kernel τ) (i : Int) (change : TextBuffer → TextBuffer)
    (r : Resource)
    : (k.onContent i change).held r = k.held r := by
  unfold onContent
  split
  · exact held_setDm ..
  · rfl

/-- An operation changes the counts by what it takes and gives back, by cases on the operation. -/
theorem Kernel.exec_held [DecidableEq τ] {k k' : Kernel τ} {external : Nat} {op : Op τ α} {a : α}
    (step : k.exec external op = some (k', a)) (r : Resource)
    : k'.held r - k.held r
      = (if op.acquires external r then 1 else 0) - (if op.releases r then 1 else 0) := by
  cases op <;> simp only [exec, Option.some.injEq, Prod.mk.injEq, Option.ite_none_left_eq_some,
    Option.map_eq_some_iff, reduceCtorEq] at step
  case external => obtain ⟨_, -, rfl, -⟩ := step; cases r <;> simp [Op.acquires, Op.releases]
  case mutexLock => obtain ⟨-, rfl, -⟩ := step; cases r <;> simp [Op.acquires, Op.releases]
  case deviceLock => obtain ⟨-, rfl, -⟩ := step; cases r <;> simp [Op.acquires, Op.releases]
  case schedule => obtain ⟨-, rfl, -⟩ := step; cases r <;> simp [Op.acquires, Op.releases]
  case getZeroedPage next failed =>
    by_cases success : external = 0
    · rw [if_pos success] at step
      obtain ⟨rfl, -⟩ := Prod.mk.inj (Option.some.inj step)
      cases r <;> simp only [held, Op.acquires, Op.releases, success, beq_self_eq_true,
        Bool.false_eq_true, if_true, if_false] <;> omega
    · rw [if_neg success] at step
      obtain ⟨rfl, -⟩ := Prod.mk.inj (Option.some.inj step)
      cases r <;> simp [Op.acquires, Op.releases, success]
  all_goals obtain ⟨rfl, -⟩ := step
  case leave t put next =>
    cases r <;> cases put <;>
      simp only [held, Op.acquires, Op.releases, Bool.false_eq_true, if_true, if_false] <;> omega
  case tryModuleGet | freePages =>
    cases r <;>
      simp only [held, Op.acquires, Op.releases, Bool.false_eq_true, if_true, if_false] <;> omega
  case writeText => rw [held_onContent]; cases r <;> simp [Op.acquires, Op.releases]
  case freeText => rw [held_onContent]; cases r <;> simp [Op.acquires, Op.releases]
  all_goals cases r <;> simp [held, Op.acquires, Op.releases, setTsm, setDm, newContent]

-----------------------------------------------------------------------------------------
-- Program points
-----------------------------------------------------------------------------------------

/-- A call takes its reference when it begins, and `tag_send` its page behind the checks. -/
def Frame.acquires (external : Nat) (r : Resource) (frame : Frame) : Bool :=
  match frame with
  | user _ => false
  | get f => match r, f.pc with
      | .reference, .entry => true
      | _, _ => false
  | send f => match r, f.pc with
      | .reference, .entry => true
      | .page, .getPage => external == 0
      | _, _ => false
  | receive f => match r, f.pc with
      | .reference, .entry => true
      | _, _ => false
  | ctl f => match r, f.pc with
      | .reference, .entry => true
      | _, _ => false

/-- A call gives its reference back when it returns, and `tag_send` its page before that. -/
def Frame.releases (r : Resource) (frame : Frame) : Bool :=
  match frame with
  | user _ => false
  | get f => match r, f.pc with
      | .reference, .ret _ => true
      | _, _ => false
  | send f => match r, f.pc with
      | .reference, .ret _ put => put
      | .page, .freePage _ => true
      | _, _ => false
  | receive f => match r, f.pc with
      | .reference, .ret _ => true
      | _, _ => false
  | ctl f => match r, f.pc with
      | .reference, .ret _ => true
      | _, _ => false

/-- What a call will have given back in the rest of its way, beyond what it will take. -/
def Frame.owes (r : Resource) (frame : Frame) : Int :=
  match frame with
  | user _ => 0
  | get f => match r, f.pc with
      | .reference, .entry => 0
      | .reference, _ => 1
      | .page, _ => 0
  | send f => match r, f.pc with
      | .reference, .entry => if f.tag < 0 ∨ f.tag > MAX_TAG_SERVICES then -1 else 0
      | .reference, .ret _ false => 0
      | .reference, _ => 1
      | .page, .entry | .page, .getPage | .page, .ret _ _ | .page, .oops false => 0
      | .page, _ => 1
  | receive f => match r, f.pc with
      | .reference, .entry => 0
      | .reference, _ => 1
      | .page, _ => 0
  | ctl f => match r, f.pc with
      | .reference, .entry => 0
      | .reference, _ => 1
      | .page, _ => 0

/-- How often a call will still take a page at most. -/
def Frame.pagesAhead : Frame → Nat
  | send f => match f.pc with
      | .entry | .getPage => 1
      | _ => 0
  | _ => 0

/-- What the operation of a call takes and gives back, by cases on the program point. -/
theorem op_resources (external : Nat) (c : CallId τ) (frame : Frame) (r : Resource)
    : (frame.op c).acquires external r = frame.acquires external r
      ∧ (frame.op c).releases r = frame.releases r := by
  cases frame with
  | user last => cases r <;> exact ⟨rfl, rfl⟩
  | get f =>
      obtain ⟨key, command, permission, euid, tag, ts, pc⟩ := f
      cases pc
      case find pc => cases r <;> cases pc <;> exact ⟨rfl, rfl⟩
      case device pc =>
        cases r <;> cases pc using CreateDevicePc.points <;>
          exact ⟨rfl, rfl⟩
      all_goals cases r <;> exact ⟨rfl, rfl⟩
  | send f =>
      obtain ⟨tag, level, buffer, size, euid, realSize, stored, ts, pc⟩ := f
      cases r <;> cases pc <;> exact ⟨rfl, rfl⟩
  | receive f =>
      obtain ⟨tag, level, buffer, size, euid, ts, realSize, interrupted, copied, pc⟩ := f
      cases pc
      case entered pc => cases r <;> cases pc <;> exact ⟨rfl, rfl⟩
      case left x pc => cases r <;> cases pc <;> exact ⟨rfl, rfl⟩
      all_goals cases r <;> exact ⟨rfl, rfl⟩
  | ctl f =>
      obtain ⟨tag, command, euid, ts, index, awakened, pc⟩ := f
      cases pc
      case find pc => cases r <;> cases pc <;> exact ⟨rfl, rfl⟩
      case destroy pc => cases r <;> cases pc <;> exact ⟨rfl, rfl⟩
      all_goals cases r <;> exact ⟨rfl, rfl⟩

-----------------------------------------------------------------------------------------
-- Steps
-----------------------------------------------------------------------------------------

/-- What remains to be given back grows by what a step takes, and shrinks by what it gives back. -/
def Frame.Accounts (external : Nat) (before after : Frame) : Prop :=
  ∀ r, after.owes r - before.owes r
    = (if before.acquires external r then 1 else 0) - (if before.releases r then 1 else 0)

variable [DecidableEq τ] {k k' : Kernel τ} {external : Nat} {c : CallId τ} {before after : Frame}

/-- Every step of a call is accounted for, by cases on its move. -/
theorem accounts_of_exec (step : k.exec external (before.op c) = some (k', after))
    : before.Accounts external after := by
  cases before with
  | user last => cases step
  | get f =>
      have move := getMove_of_exec step
      obtain ⟨key, command, permission, euid, tag, ts, pc⟩ := f
      intro r
      cases r <;> cases move <;> rfl
  | send f =>
      change k.exec external (tagSend c f) = _ at step
      obtain ⟨tag, level, buffer, size, euid, realSize, stored, ts, pc⟩ := f
      by_cases first : pc = .entry
      · subst first
        obtain ⟨-, rfl⟩ := Prod.mk.inj (Option.some.inj step)
        dsimp only
        split
        · next outside =>
            intro r
            cases r
            · simp [SendFrame.at_, Frame.owes, Frame.acquires, Frame.releases, outside]
            · rfl
        · next inside =>
            split <;>
            · intro r
              cases r
              · simp [SendFrame.at_, Frame.owes, Frame.acquires, Frame.releases, inside]
              · rfl
      by_cases page : pc = .getPage
      · subst page
        intro r
        obtain ⟨external, rfl⟩ | ⟨external, rfl⟩ := page_of_exec rfl step <;> cases r <;>
          simp [SendFrame.at_, Frame.owes, Frame.acquires, Frame.releases, external]
      · have move := sendMove_of_exec step
        intro r
        cases move
        case getPage | noPage => exact absurd rfl page
        case leave put => cases r <;> cases put <;> rfl
        all_goals first | exact absurd rfl first | (cases r <;> rfl)
  | receive f =>
      have move := receiveMove_of_exec step
      obtain ⟨tag, level, buffer, size, euid, ts, realSize, interrupted, copied, pc⟩ := f
      intro r
      cases r <;> cases move <;> rfl
  | ctl f =>
      have move := ctlMove_of_exec step
      obtain ⟨tag, command, euid, ts, index, awakened, pc⟩ := f
      intro r
      cases r <;> cases move <;> rfl

/-- A step that takes a page does so for the only time. -/
theorem pagesAhead_of_exec (step : k.exec external (before.op c) = some (k', after))
    : after.pagesAhead + (if before.acquires external .page then 1 else 0)
      ≤ before.pagesAhead := by
  have same := Kernel.exec_sameCall step
  cases before with
  | send f =>
      have move := sendMove_of_exec step
      obtain ⟨tag, level, buffer, size, euid, realSize, stored, ts, pc⟩ := f
      cases move
      case getPage | noPage =>
        by_cases success : external = 0 <;>
          simp [SendFrame.at_, Frame.pagesAhead, Frame.acquires, success]
      all_goals simp [SendFrame.at_, Frame.pagesAhead, Frame.acquires]
  | user last => cases step
  | _ =>
      cases after
      case send => cases same
      all_goals exact Nat.le_refl 0

-----------------------------------------------------------------------------------------
-- Whole calls
-----------------------------------------------------------------------------------------

variable {st st₁ st' : State τ} {e : Event τ} {t : τ} {h : History (State τ) (Event τ)}

/-- A step of a thread that takes a resource. -/
def takes (t : τ) (r : Resource) : State τ → Event τ → Bool
  | st, .run u external => decide (u = t) && (st.op t).acquires external r
  | _, _ => false

/-- A step of a thread that gives a resource back. -/
def gives (t : τ) (r : Resource) : State τ → Event τ → Bool
  | st, .run u _ => decide (u = t) && (st.op t).releases r
  | _, _ => false

/-- The thread enters no call. -/
def EntersNone (t : τ) : Guard (State τ) (Event τ) :=
  fun _ _ e => ∀ euid c, e ≠ .call t euid c

/-- The arguments with which a call gives its reference back: `tag_send` returns from its first check
without `module_put`.
-/
def GivesBack : Syscall → Prop
  | .tagSend tag _ _ _ => 0 ≤ tag ∧ tag ≤ MAX_TAG_SERVICES
  | _ => True

instance (c : Syscall) : Decidable (GivesBack c) :=
  match c with
  | .tagSend _ _ _ _ => inferInstanceAs (Decidable (_ ∧ _))
  | .tagGet _ _ _ | .tagReceive _ _ _ _ | .tagCtl _ _ => isTrue trivial

/-- Before a call has begun it owes nothing, unless it will return from that check. -/
theorem owes_enter (euid : Int) (c : Syscall)
    : (c.enter euid).owes .reference = 0 ↔ GivesBack c := by
  cases c with
  | tagSend tag level buffer size =>
      simp only [Syscall.enter, Frame.owes, GivesBack]
      split
      · next outside => omega
      · next inside => omega
  | _ => exact iff_of_true rfl trivial

/-- One step of the system, for one thread in a call. -/
theorem owes_of_step (quiet : EntersNone t [] st e) (step : st.step e = some st') (r : Resource)
    : ((st'.thread t).frame.owes r - (st.thread t).frame.owes r
        = (if takes t r st e then 1 else 0) - (if gives t r st e then 1 else 0))
      ∧ (st'.thread t).frame.pagesAhead + (if takes t .page st e then 1 else 0)
        ≤ (st.thread t).frame.pagesAhead := by
  cases turn_of_step step t with
  | rest other thread =>
      have untaken (r : Resource) : takes t r st e = false := by
        cases e with
        | run u external =>
            have apart : u ≠ t := fun same => other external (by rw [same])
            simp [takes, apart]
        | _ => rfl
      have ungiven : gives t r st e = false := by
        cases e with
        | run u external =>
            have apart : u ≠ t := fun same => other external (by rw [same])
            simp [gives, apart]
        | _ => rfl
      simp [thread, untaken, ungiven]
  | enter event => exact absurd event (quiet _ _)
  | @go external frame event exec thread =>
      subst event
      have taken (r : Resource)
          : takes t r st (.run t external) = (st.thread t).frame.acquires external r := by
        simp only [takes, decide_true, Bool.true_and]
        exact (op_resources ..).1
      have given : gives t r st (.run t external) = (st.thread t).frame.releases r := by
        simp only [gives, decide_true, Bool.true_and]
        exact (op_resources external ..).2
      rw [thread, taken, taken, given]
      exact ⟨accounts_of_exec exec r, pagesAhead_of_exec exec⟩

/-- The counts in one step, where no other thread takes it: callbacks take nothing and give nothing
back.
-/
theorem held_of_step (own : ∀ u external, e = .run u external → u = t)
    (step : st.step e = some st') (r : Resource)
    : st'.kernel.held r - st.kernel.held r
      = (if takes t r st e then 1 else 0) - (if gives t r st e then 1 else 0) := by
  cases State.steps_of_step step with
  | @run u external k frame exec =>
      obtain rfl := own u external rfl
      simp only [takes, gives, decide_true, Bool.true_and]
      exact Kernel.exec_held exec r
  | @softirq n b k next ready exec =>
      have untaken : b.op.acquires 0 r = false := by
        obtain ⟨job, s, stage, caller⟩ := b
        cases job <;> cases stage <;> cases r <;> rfl
      have ungiven : b.op.releases r = false := by
        obtain ⟨job, s, stage, caller⟩ := b
        cases job <;> cases stage <;> cases r <;> rfl
      have effect := Kernel.exec_held exec r
      rw [untaken, ungiven] at effect
      cases r <;> exact effect
  | _ => cases r <;> exact Int.sub_self _

/-- The counts in a run. -/
theorem held_of_run {G : Guard (State τ) (Event τ)} (run : ((machine τ).startAt st₁).Run G h st)
    (alone : ∀ moment ∈ h, ∀ u external, moment.2 = .run u external → u = t) (r : Resource)
    : st.kernel.held r - st₁.kernel.held r
      = (tally (takes t r) h : Int) - tally (gives t r) h := by
  induction run with
  | start => simp [Machine.startAt]
  | @next h st e st' _ _ step ih =>
      obtain ⟨now, before⟩ := List.forall_mem_cons.mp alone
      have here := held_of_step now step r
      have earlier := ih before
      rw [tally_cons, tally_cons]
      split at here <;> split at here <;> simp_all <;> omega

/-- The thread takes a pointer in this step that it goes on to follow without a check. -/
def strays (t : τ) : State τ → Event τ → Bool
  | st, .run u external => decide (u = t) && (st.thread t).frame.strays st.kernel external
  | _, _ => false

/-- A thread in a call is doomed from the step that strays. -/
theorem doomed_of_step (quiet : EntersNone t [] st e) (step : st.step e = some st')
    : (st'.thread t).frame.doomed = ((st.thread t).frame.doomed || strays t st e) := by
  cases turn_of_step step t with
  | rest other thread =>
      have unmoved : strays t st e = false := by
        cases e with
        | run u external =>
            have apart : u ≠ t := fun same => other external (by rw [same])
            simp [strays, apart]
        | _ => rfl
      rw [thread, unmoved, Bool.or_false]
  | enter event => exact absurd event (quiet _ _)
  | @go external frame event exec thread =>
      subst event
      rw [thread]
      simp only [strays, decide_true, Bool.true_and]
      exact doomed_of_exec exec

/-- A call is doomed in the end if it has been from the start or has strayed. -/
theorem doomed_of_run (run : ((machine τ).startAt st₁).Run (EntersNone t) h st)
    : (st.thread t).frame.doomed = true
      ↔ (st₁.thread t).frame.doomed = true ∨ ∃ moment ∈ h, strays t moment.1 moment.2 = true := by
  induction run with
  | start => simp [Machine.startAt]
  | next _ quiet step ih =>
      rw [doomed_of_step quiet step, Bool.or_eq_true, ih]
      simp only [List.mem_cons, exists_eq_or_imp]
      exact or_assoc.trans (or_congr_right or_comm)

/-- The call of a thread has come to its end: it has returned, or oopsed. -/
def Frame.ended (frame : Frame) : Prop :=
  frame.idle = true ∨ frame.oopsed = true

/-- A call returns if and only if it has not strayed. -/
theorem returned_iff (entered : (st₁.thread t).frame.doomed = false)
    (run : ((machine τ).startAt st₁).Run (EntersNone t) h st) (ended : (st.thread t).frame.ended)
    : (st.thread t).frame.idle = true ↔ ∀ moment ∈ h, strays t moment.1 moment.2 = false := by
  have law := doomed_of_run run
  rw [entered] at law
  constructor
  · intro idle moment passed
    have sound := not_doomed_of_idle idle
    refine Bool.eq_false_iff.mpr fun stray => ?_
    rw [law.mpr (.inr ⟨moment, passed, stray⟩)] at sound
    cases sound
  · intro straight
    refine ended.resolve_right fun oopsed => ?_
    obtain start | ⟨moment, passed, stray⟩ := law.mp (doomed_of_oopsed oopsed)
    · cases start
    · rw [straight moment passed] at stray
      cases stray

instance (t : τ) (h : History (State τ) (Event τ)) (st : State τ) (e : Event τ)
    : Decidable (EntersNone t h st e) :=
  match e with
  | .call u _ _ => decidable_of_iff (u ≠ t) ⟨by rintro other _ _ ⟨⟩; exact other rfl, by
      rintro none rfl
      exact none _ _ rfl⟩
  | .run _ _ | .softirq _ | .signal _ | .reuse _ _ => isTrue fun _ _ same => by cases same

end TagExchange
