import TagExchange.Concurrency.Past
import TagExchange.Properties.Permissions

/-! The two marks that receivers test, `READY` and `awake_request`: each has been set by a
send or a wake-up of the past, and has stood ever since.
-/

namespace TagExchange

open Concurrency Protocol

variable {τ : Type}

/-- The memory of the service has never been given to somebody else. -/
def Intact (s : Ref) (h : History (State τ) (Event τ)) : Prop :=
  ∀ moment ∈ h, moment.2.reuses ≠ some s

/-- The store with which a call makes a level of a service `READY`. -/
structure State.Posts (st : State τ) (s : Ref) (l : Int) (c : CallId τ) (g : SendFrame)
    (e : Event τ)
    : Prop where
  event : ∃ external, e = .run c.1 external
  thread : st.thread c.1 = ⟨c.2, .send g⟩
  pc : g.pc = .ready
  service : g.ts = s
  level : g.level = l

/-- The store with which a call sets `awake_request` of a service. -/
structure State.Requests (st : State τ) (s : Ref) (c : CallId τ) (g : CtlFrame) (e : Event τ)
    : Prop where
  event : ∃ external, e = .run c.1 external
  thread : st.thread c.1 = ⟨c.2, .ctl g⟩
  pc : g.pc = .request
  service : g.ts = s

variable {st st' : State τ} {e : Event τ} {s : Ref} {l : Int}

theorem State.Posts.held {c : CallId τ} {g : SendFrame} (posts : st.Posts s l c g e)
    : s ∈ (st.thread c.1).frame.pointers := by
  rw [posts.thread]
  simp only [Frame.pointers, posts.pc, posts.service, List.mem_singleton]

theorem State.Requests.held {c : CallId τ} {g : CtlFrame} (requests : st.Requests s c g e)
    : s ∈ (st.thread c.1).frame.pointers := by
  rw [requests.thread]
  simp only [Frame.pointers, requests.pc, requests.service, List.mem_singleton]

-----------------------------------------------------------------------------------------
-- Who sets the marks
-----------------------------------------------------------------------------------------

/-- Only `tag_send` makes a level `READY`, by cases on the program point. -/
theorem posts_of_writes (writes : st.writes e = some (s, .messageReady l true))
    : ∃ c g, st.Posts s l c g e := by
  rcases writes_cases writes with ⟨u, external, rfl, written⟩ | ⟨n, b, -, -, written⟩
  · cases here : (st.thread u).frame with
    | send g =>
        obtain ⟨tag, level, buffer, size, euid, realSize, stored, ts, pc⟩ := g
        rw [here] at written
        cases pc <;> cases written
        refine ⟨(u, (st.thread u).calls), _, ⟨external, rfl⟩, ?_, rfl, rfl, rfl⟩
        exact congrArg (Thread.mk _) here
    | receive f =>
        obtain ⟨tag, level, buffer, size, euid, ts, realSize, interrupted, copied, pc⟩ := f
        rw [here] at written
        cases pc <;> cases written
    | ctl f =>
        obtain ⟨tag, command, euid, ts, index, awakened, pc⟩ := f
        rw [here] at written
        cases pc <;> cases written
    | _ => rw [here] at written; cases written
  · obtain ⟨job, r, stage, caller⟩ := b
    cases job <;> cases stage <;> cases written

/-- Only `tag_ctl` sets `awake_request`, by cases on the program point. -/
theorem requests_of_writes (writes : st.writes e = some (s, .awakeRequest true))
    : ∃ c g, st.Requests s c g e := by
  rcases writes_cases writes with ⟨u, external, rfl, written⟩ | ⟨n, b, -, -, written⟩
  · cases here : (st.thread u).frame with
    | send g =>
        obtain ⟨tag, level, buffer, size, euid, realSize, stored, ts, pc⟩ := g
        rw [here] at written
        cases pc <;> cases written
    | receive f =>
        obtain ⟨tag, level, buffer, size, euid, ts, realSize, interrupted, copied, pc⟩ := f
        rw [here] at written
        cases pc <;> cases written
    | ctl g =>
        obtain ⟨tag, command, euid, ts, index, awakened, pc⟩ := g
        rw [here] at written
        cases pc <;> cases written
        refine ⟨(u, (st.thread u).calls), _, ⟨external, rfl⟩, ?_, rfl, rfl⟩
        exact congrArg (Thread.mk _) here
    | _ => rw [here] at written; cases written
  · obtain ⟨job, r, stage, caller⟩ := b
    cases job <;> cases stage <;> cases written

-----------------------------------------------------------------------------------------
-- Marks and the past
-----------------------------------------------------------------------------------------

section

variable [DecidableEq τ] {G : Guard (State τ) (Event τ)} {h : History (State τ) (Event τ)}

/-- A `READY` level has been made so by a send, and stayed so. -/
theorem ready_posted (run : (machine τ).Run G h st) (intact : Intact s h)
    (born : s < st.kernel.services) (ready : st.ready s l = true)
    : Since (fun _ st _ => st.ready s l = true) (fun _ st e => ∃ c g, st.Posts s l c g e) h := by
  induction run with
  | start => simp [machine, State.start] at born
  | next before ok step ih =>
      rcases ready_of_step step (intact _ (List.mem_cons_self ..)) born ready with
        ⟨already, old⟩ | writes
      · refine .later (ih (fun moment member => ?_) old already) already
        exact intact moment (List.mem_cons_of_mem _ member)
      · exact .here (posts_of_writes writes)

/-- An `awake_request` has been set by a `tag_ctl`, and stayed set. -/
theorem awake_requested (run : (machine τ).Run G h st) (intact : Intact s h)
    (born : s < st.kernel.services) (awake : st.awake s = true)
    : Since (fun _ st _ => st.awake s = true) (fun _ st e => ∃ c g, st.Requests s c g e) h := by
  induction run with
  | start => simp [machine, State.start] at born
  | next before ok step ih =>
      rcases awake_of_step step (intact _ (List.mem_cons_self ..)) born awake with
        ⟨already, old⟩ | writes
      · refine .later (ih (fun moment member => ?_) old already) already
        exact intact moment (List.mem_cons_of_mem _ member)
      · exact .here (requests_of_writes writes)

/-- Memory that is reused has been freed, for good. -/
theorem intact_of_unfreed (run : (machine τ).Run G h st) (unfreed : st.kernel.freed s = false)
    : Intact s h := by
  induction run with
  | start => exact List.forall_mem_nil _
  | next before ok step ih =>
      have alive := unfreed_of_step step unfreed
      exact List.forall_mem_cons.mpr ⟨kept_of_unfreed step alive, ih alive⟩

/-- As long as the allocator leaves alone what calls point to, what they point to is intact. -/
theorem intact_of_held (run : (machine τ).Run Unheld h st) {t : τ}
    (held : s ∈ (st.thread t).frame.pointers)
    : Intact s h := by
  induction run with
  | start => exact absurd held List.not_mem_nil
  | @next h st e st' before unheld step ih =>
      have carry (old : s ∈ (st.thread t).frame.pointers) : Intact s ((st, e) :: h) :=
        List.forall_mem_cons.mpr ⟨ReuseUnheld.kept_of_pointer unheld old, ih old⟩
      cases turn_of_step step t with
      | rest other thread => exact carry (thread ▸ held)
      | @enter euid c event idle thread =>
          rw [thread] at held
          cases c <;> cases held
      | @go external frame event exec thread =>
          rw [thread] at held
          subst event
          rcases pointers_of_exec exec s held with old | ⟨i, found⟩ | ⟨rfl, allocates⟩
          · exact carry old
          · refine List.forall_mem_cons.mpr ⟨fun same => (by cases same), ?_⟩
            exact intact_of_unfreed before ((homes_run before).slot found).2
          · refine List.forall_mem_cons.mpr ⟨fun same => (by cases same), ?_⟩
            exact intact_of_unfreed before ((homes_run before).unborn (Nat.le_refl _))

end

end TagExchange
