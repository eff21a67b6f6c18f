import TagExchange.Properties.Pointers
import TagExchange.Properties.Registered

/-! The accesses of `tag_send` and `tag_ctl` through a service pointer, and the `kfree` of a
removal.
-/

namespace TagExchange

open Concurrency Protocol

variable {τ : Type}

/-- A call of `tag_send` or `tag_ctl`. -/
def Frame.sendsOrControls : Frame → Bool
  | send _ | ctl _ => true
  | user _ | get _ | receive _ => false

/-- No `tag_send` or `tag_ctl` call points to a service that has been freed. -/
def State.PointersAlive (st : State τ) : Prop :=
  ∀ t,
    (st.thread t).frame.sendsOrControls = true
    → ∀ s ∈ (st.thread t).frame.pointers, st.kernel.freed s = false

/-- A removal frees its service only when no other `tag_send` or `tag_ctl` call still points
to it.
-/
def FreedUnheld : Guard (State τ) (Event τ) :=
  fun _ st e =>
    match e with
    | .run t _ =>
        ∀ s ∈ (st.op t).frees,
          ∀ u,
            u ≠ t
            → (st.thread u).frame.sendsOrControls = true
            → s ∉ (st.thread u).frame.pointers
    | _ => True

/-- A removal that frees its service is done with it. -/
theorem pointers_of_frees {c : CallId τ} {frame : Frame} {s : Ref}
    (frees : (frame.op c).frees = some s)
    : (frame.op c).Yields fun after => after.pointers = [] := by
  obtain ⟨tag, command, euid, index, awakened, rfl⟩ := point_of_frees frees
  rfl

variable [DecidableEq τ] {st st' : State τ} {e : Event τ}

/-- While the pointers are alive nothing that a view or a callback needs is free. -/
theorem State.PointersAlive.unseen (alive : st.PointersAlive) (x : Safe st.kernel.core st.view)
    (step : st.step e = some st')
    : ReuseUnseen st e := by
  cases State.steps_of_step step with
  | @reuse s ts freed =>
      refine ⟨fun t points => ?_, fun b member same => ?_⟩
      · have member := view_service_mem_pointers points
        have fact := x.fact t
        cases here : (st.thread t).frame with
        | user last => simp [State.view, here, Frame.view, View.service] at points
        | receive f => simp [State.view, here, Frame.view, View.service] at points
        | get f =>
            -- A creation points to the service it has filled and not published.
            have fresh : ∃ i, st.view t = .fresh s i := by
              revert points
              simp only [State.view, here, Frame.view]
              obtain ⟨key, command, permission, euid, tag, r, pc⟩ := f
              cases pc <;> simp [GetFrame.view, View.service]
            obtain ⟨i, fresh⟩ := fresh
            rw [fresh] at fact
            have unfreed : st.kernel.freed s = false := fact.2.1
            simp [freed] at unfreed
        | send f => simp [alive t (by rw [here]; rfl) s member] at freed
        | ctl f => simp [alive t (by rw [here]; rfl) s member] at freed
      · have unfreed : st.kernel.freed b.service = false :=
          (x.slots (x.callback b member).live.1).2
        simp [same, freed] at unfreed
  | _ => trivial

/-- Every event keeps the pointers alive: a new pointer comes from a slot, which holds no
freed service, or from the allocator.
-/
theorem State.PointersAlive.step {h : History (State τ) (Event τ)} (alive : st.PointersAlive)
    (x : Safe st.kernel.core st.view) (ok : FreedUnheld h st e) (step : st.step e = some st')
    : st'.PointersAlive := by
  cases State.steps_of_step step with
  | @call t euid c last user =>
      refine (Function.forall_update_iff st.thread fun _ th =>
        th.frame.sendsOrControls = true → ∀ s ∈ th.frame.pointers, st.kernel.freed s = false).mpr
        ⟨fun _ s member => ?_, fun u _ => alive u⟩
      cases c <;> cases member
  | @run t external k frame exec =>
      refine (Function.forall_update_iff st.thread fun _ th =>
        th.frame.sendsOrControls = true → ∀ s ∈ th.frame.pointers, k.freed s = false).mpr
        ⟨fun kind s member => ?_, fun u other kind s member => ?_⟩
      · have unfreed : (st.op t).frees ≠ some s := by
          intro frees
          have done := Kernel.exec_yields (pointers_of_frees frees) exec
          simp [done] at member
        rw [Kernel.exec_freed exec unfreed]
        rcases pointers_of_exec exec s member with before | ⟨i, found⟩ | ⟨rfl, -⟩
        · refine alive t ?_ s before
          have same := Kernel.exec_sameCall exec
          revert same kind
          cases (st.thread t).frame <;> cases frame <;>
            simp [Frame.SameCall, Frame.sendsOrControls]
        · exact (x.slots found).2
        · exact x.unborn (Nat.le_refl _)
      · have unfreed : (st.op t).frees ≠ some s := fun frees => ok s frees u other kind member
        rw [Kernel.exec_freed exec unfreed]
        exact alive u kind s member
  | @softirq n b k next ready exec =>
      intro t kind s member
      have unfreed : b.op.frees ≠ some s := by
        obtain ⟨job, r, stage, caller⟩ := b
        cases job <;> cases stage <;> nofun
      show k.freed s = false
      rw [Kernel.exec_freed exec unfreed]
      exact alive t kind s member
  | signal busy => exact alive
  | reuse freed => exact alive

theorem pointersAlive_run {h : History (State τ) (Event τ)}
    (run : (machine τ).Run FreedUnheld h st)
    : Safe st.kernel.core st.view ∧ st.PointersAlive := by
  refine run.invariant (P := fun _ st => Safe st.kernel.core st.view ∧ st.PointersAlive)
    ⟨safe_start, fun _ => nofun⟩ ?_
  intro h st e st' before ⟨x, alive⟩ ok step
  exact ⟨safe_step x (alive.unseen x step) step, alive.step x ok step⟩

/-- Along every run whose removals free only what nobody points to, every access of
`tag_send` and of `tag_ctl` is to a service that has not been freed.
-/
theorem accesses_alive {h : History (State τ) (Event τ)} (run : (machine τ).Run FreedUnheld h st)
    {s₁ t external s} (member : (s₁, Event.run t external) ∈ h)
    (kind : (s₁.thread t).frame.sendsOrControls = true)
    (touches : (s₁.op t).touches = some s)
    : s₁.kernel.freed s = false := by
  obtain ⟨m, here⟩ := List.getElem?_of_mem member
  exact (pointersAlive_run (run.moment here).1).2 t kind s (touches_mem_pointers touches)

instance [Fintype τ] (h : History (State τ) (Event τ)) (st : State τ) (e : Event τ)
    : Decidable (FreedUnheld h st e) :=
  match e with
  | .run t _ =>
      inferInstanceAs (Decidable (∀ s ∈ (st.op t).frees, ∀ u, u ≠ t →
        (st.thread u).frame.sendsOrControls = true → s ∉ (st.thread u).frame.pointers))
  | .call _ _ _ | .softirq _ | .signal _ | .reuse _ _ => isTrue trivial

/-- The event is an access of `tag_send` or of `tag_ctl` to a service. -/
def State.accesses (st : State τ) (s : Ref) : Event τ → Bool
  | .run t _ => (st.thread t).frame.sendsOrControls && (st.op t).touches == some s
  | _ => false

/-- The accesses of a send and of the removal that follows it and frees the service. -/
theorem accesses_alive_of_removal
    : ∃ h st s₁ t external,
        (machine (Fin 2)).Run FreedUnheld h st
        ∧ st.kernel.freed 0 = true
        ∧ (s₁, Event.run t external) ∈ h
        ∧ (s₁.op t).touches = some 0
        ∧ s₁.kernel.freed 0 = false := by
  obtain ⟨h, st, run, facts⟩ := Machine.Run.exists_of_replay
    (M := machine (Fin 2)) (G := FreedUnheld)
    (creating 0 1 ++ sending 1 1 0 [104, 105] 16 ++ removing 0 1 22)
    (fun h st => st.kernel.freed 0 && h.any fun moment => moment.1.accesses 0 moment.2)
    (by decide +kernel)
  obtain ⟨freed, somewhere⟩ := Bool.and_eq_true_iff.mp facts
  obtain ⟨⟨s₁, e⟩, member, access⟩ := List.any_eq_true.mp somewhere
  cases e with
  | run t external =>
      obtain ⟨kind, touches⟩ := Bool.and_eq_true_iff.mp access
      have touches : (s₁.op t).touches = some 0 := by simpa using touches
      exact ⟨h, st, s₁, t, external, run, freed, member, touches,
        accesses_alive run member kind touches⟩
  | _ => cases access

/-- Without the condition a send reads a freed service: it has loaded the pointer, then the
service is removed and freed, then the send takes the mutex and reads `lazy_deleted`.
-/
theorem access_after_free
    : ¬ ∀ (h : History (State (Fin 2)) (Event (Fin 2))) (st s₁ : State (Fin 2)) (t : Fin 2)
          (external : Nat) (s : Ref),
        (machine (Fin 2)).Run anyStep h st
        → (s₁, Event.run t external) ∈ h
        → (s₁.thread t).frame.sendsOrControls = true
        → (s₁.op t).touches = some s
        → s₁.kernel.freed s = false := by
  intro always
  obtain ⟨h, st, run, facts⟩ := Machine.Run.exists_of_replay
    (M := machine (Fin 2)) (G := anyStep)
    (creating 0 1 ++ sending 1 1 0 [104, 105] 4 ++ removing 0 1 22 ++ runs 1 2)
    (fun h _ => h.any fun moment => moment.1.accesses 0 moment.2 && moment.1.kernel.freed 0)
    (by decide +kernel)
  obtain ⟨⟨s₁, e⟩, member, both⟩ := List.any_eq_true.mp facts
  obtain ⟨access, freed⟩ := Bool.and_eq_true_iff.mp both
  cases e with
  | run t external =>
      obtain ⟨kind, touches⟩ := Bool.and_eq_true_iff.mp access
      have alive := always h st s₁ t external 0 run member kind (by simpa using touches)
      simp [alive] at freed
  | _ => cases access

end TagExchange
