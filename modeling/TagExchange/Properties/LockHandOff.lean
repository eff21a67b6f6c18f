import TagExchange.Model.Effects
import TagExchange.Protocol.Simulation

/-! The hand-off of `access_lock` between a system call and the callback it registers, and
what a free `access_lock` says about the service registered there.
-/

namespace TagExchange

open Concurrency Protocol

variable {τ : Type}

-----------------------------------------------------------------------------------------
-- Critical sections
-----------------------------------------------------------------------------------------

/-- The tag whose `access_lock` a system call has taken and has neither released nor left
to a callback.
-/
def Frame.holds : Frame → Option Int
  | user _ | receive _ => none
  | get f =>
      match f.pc with
      | .available | .kzalloc | .fields | .publish | .unlockCreated | .opened | .loadOpened
      | .lazyDeleted | .permission | .unlockDenied | .unlock _ | .oops => some f.tag
      | .entry | .find _ | .lock | .decRemaining | .device _ | .print | .denied | .ret _ => none
  | send f =>
      match f.pc with
      | .lazyDeleted | .permission | .memcpy | .terminator | .size | .ready | .waiters
      | .wakeUp | .callRcu | .notReady | .memset | .unlock _ => some f.tag
      | .entry | .getPage | .copyFromUser | .load | .lock | .freePage _ | .ret _ _
      | .oops _ => none
  | ctl f =>
      match f.pc with
      | .lazyDeleted | .permission | .waiters | .delete | .unlockIndex _ | .unlock _ | .awakened
      | .request | .wakeUp | .callRcu | .reset => some f.index
      | .entry | .load | .index | .lock | .busy | .destroyIndex | .destroy _ | .unlink | .find _
      | .incRemaining | .kfree | .ret _ => none

/-- In a safe state the mutex a call holds is the one that its view owns, by cases on the
program point.
-/
theorem holds_eq_lock [DecidableEq τ] {st : State τ} (x : Safe st.kernel.core st.view) (t : τ)
    : (st.thread t).frame.holds = (st.view t).lock := by
  have fact := x.fact t
  simp only [State.view] at fact ⊢
  generalize (st.thread t).frame = frame at fact ⊢
  cases frame with
  | user last => rfl
  | receive f => rfl
  | get f =>
      obtain ⟨key, command, permission, euid, tag, ts, pc⟩ := f
      cases pc <;> rfl
  | send f =>
      obtain ⟨tag, level, buffer, size, euid, realSize, stored, ts, pc⟩ := f
      cases pc <;> rfl
  | ctl f =>
      obtain ⟨tag, command, euid, ts, index, awakened, pc⟩ := f
      simp only [Frame.view, CtlFrame.view, Frame.holds] at fact ⊢
      cases pc with
      | unlockIndex after =>
          simp only at fact ⊢
          split at fact
          · next own =>
              cases after <;> simp [CtlFrame.place, View.lock, own]
          · exact fact.elim
      | unlock after =>
          simp only at fact ⊢
          split at fact
          · next own =>
              cases after <;> simp [CtlFrame.place, View.lock, own]
          · exact fact.elim
      | _ =>
          simp only at fact ⊢
          first
          | rfl
          | split at fact
            · next own => simp [CtlFrame.place, View.lock, own]
            · exact fact.elim

-----------------------------------------------------------------------------------------
-- The hand-off
-----------------------------------------------------------------------------------------

/-- The callbacks that are pending, or running and have not given their mutex back. -/
def State.pending (st : State τ) : List (Callback τ) := st.kernel.rcu.among Callback.owes

/-- The `n`-th of them works on a service of this tag. -/
def State.pendingOn (st : State τ) (i : Int) (n : Nat) : Prop :=
  ∃ b, st.pending[n]? = some b ∧ (st.kernel.service b.service).tag = i

/-- The laws of `access_lock[i]` and of the service registered at `i`. -/
structure LockHandOff (st : State τ) (i : Int) : Prop where
  /-- The mutex is held exactly when a call is inside or a callback is to release it. -/
  held
    : st.kernel.tsm.accessLock i = true
      ↔ (∃ t, (st.thread t).frame.holds = some i) ∨ ∃ n, st.pendingOn i n
  oneCall
    : ∀ t u, (st.thread t).frame.holds = some i → (st.thread u).frame.holds = some i → t = u
  oneCallback : ∀ m n, st.pendingOn i m → st.pendingOn i n → m = n
  neverBoth : ¬ ((∃ t, (st.thread t).frame.holds = some i) ∧ ∃ n, st.pendingOn i n)
  /-- The `rcu_head` of a level, or of a service, is queued once. -/
  queuedOnce
    : ∀ (m n : Nat) (b b' : Callback τ),
        st.pending[m]? = some b
        → st.pending[n]? = some b'
        → b.service = b'.service
        → b.job = b'.job
        → m = n
  oneReady
    : ∀ s,
        st.kernel.tsm.allTagServices i = some s
        → ∀ l k,
            ((st.kernel.service s).level l).messageReady = true
            → ((st.kernel.service s).level k).messageReady = true
            → l = k
  awakeOrReady
    : ∀ s,
        st.kernel.tsm.allTagServices i = some s
        → (st.kernel.service s).awakeRequest = true
        → ∀ l, ((st.kernel.service s).level l).messageReady = false
  clean
    : ∀ s,
        st.kernel.tsm.allTagServices i = some s
        → st.kernel.tsm.accessLock i = false
        → (st.kernel.service s).awakeRequest = false
          ∧ ∀ l,
              ((st.kernel.service s).level l).messageReady = false
              ∧ ∀ n < MAX_MESSAGE_SIZE, ((st.kernel.service s).level l).message n = 0
  registered
    : ∀ b ∈ st.pending,
        (st.kernel.service b.service).tag = i
        → st.kernel.tsm.allTagServices i = some b.service
          ∧ st.kernel.freed b.service = false

variable [DecidableEq τ] {st : State τ}

omit [DecidableEq τ] in
/-- A pending callback, as an entry of the list of tags that are handed over. -/
theorem State.pendingOn_iff {i : Int} {n : Nat}
    : st.pendingOn i n
      ↔ (st.kernel.core.callbacks.map fun b => st.kernel.core.tag b.service)[n]? = some i := by
  simp only [State.pendingOn, List.getElem?_map, Option.map_eq_some_iff]
  exact Iff.rfl

omit [DecidableEq τ] in
/-- The owner of a mark of a live service is inside the critical section of its tag, or it
is a callback handed that mutex.
-/
theorem owned_of_mark (x : Safe st.kernel.core st.view) {α : Type} {mark : View → Option α}
    {rest : Callback τ → Option α} {a : α} {s : Ref} {i : Int}
    (owns : ∀ {v}, mark v = some a → ∃ i, v.lock = some i ∧ v.service = some s)
    (service : ∀ {b}, rest b = some a → b.service = s)
    (found : st.kernel.core.slot i = some s)
    (marked
      : (∃ t, mark (st.view t) = some a) ∨ ∃ b ∈ st.kernel.core.callbacks, rest b = some a)
    : st.kernel.tsm.accessLock i = true := by
  have tag : st.kernel.core.tag s = i := (x.slots found).1.2.1
  refine (x.excl.held i).mpr ?_
  rcases marked with ⟨t, mine⟩ | ⟨b, member, mine⟩
  · obtain ⟨j, owner, points⟩ := owns mine
    obtain rfl : i = j := tag.symm.trans (x.tag_of_view owner points)
    exact .inl ⟨t, owner⟩
  · exact .inr (List.mem_map.mpr ⟨b, member, by rw [service mine, tag]⟩)

/-- The laws hold in every safe state. -/
theorem Protocol.Safe.lockHandOff (x : Safe st.kernel.core st.view) (i : Int)
    : LockHandOff st i := by
  have holds t : (st.thread t).frame.holds = some i ↔ (st.view t).lock = some i := by
    rw [holds_eq_lock x]
  have pending : (∃ n, st.pendingOn i n)
      ↔ i ∈ st.kernel.core.callbacks.map fun b => st.kernel.core.tag b.service := by
    simp only [State.pendingOn_iff, List.mem_iff_getElem?]
  -- All marks of one service have one owner.
  have same {s l k} (found : st.kernel.core.slot i = some s)
      (ready : st.kernel.core.ready s l = true) (ready' : st.kernel.core.ready s k = true)
      : l = k := by
    have alive := (x.slots found).2
    have tag := (x.slots found).1.2.1
    rcases x.ready alive ready with ⟨t, posted⟩ | ⟨b, member, posted⟩
    · obtain ⟨j, owner, points⟩ := View.lock_of_posts posted
      have mine := x.ready_mine owner (x.tag_of_view owner points) alive ready'
      simpa using posted.symm.trans mine
    · obtain ⟨n, here⟩ := List.getElem?_of_mem member
      obtain rfl := posts_service posted
      have mine := (x.marked_by_callback here).1 k ready'
      simpa using posted.symm.trans mine
  have apart {s l} (found : st.kernel.core.slot i = some s)
      (awake : st.kernel.core.awake s = true) : st.kernel.core.ready s l = false := by
    by_contra ready
    have ready : st.kernel.core.ready s l = true := by simpa using ready
    have alive := (x.slots found).2
    rcases x.awake alive awake with ⟨t, woken⟩ | ⟨b, member, woken⟩
    · obtain ⟨j, owner, points⟩ := View.lock_of_wakes woken
      have mine := x.ready_mine owner (x.tag_of_view owner points) alive ready
      obtain ⟨j', waking⟩ := View.wakes_eq_some woken
      simp [waking, View.posts] at mine
    · obtain ⟨n, here⟩ := List.getElem?_of_mem member
      obtain rfl := wakes_service woken
      have mine := (x.marked_by_callback here).1 l ready
      revert woken mine
      simp only [wakes, posts]
      split <;> simp_all
  refine {
    held := by
      simp only [pending, holds]
      exact x.excl.held i
    oneCall := fun t u ht hu => x.excl.one ((holds t).mp ht) ((holds u).mp hu)
    oneCallback := fun m n hm hn => ?_
    neverBoth := fun both =>
      both.1.elim fun t ht => x.excl.apart ((holds t).mp ht) (pending.mp both.2)
    queuedOnce := fun m n b b' hm hn service _ =>
      (x.callback_unique hn hm (by rw [service]))
    oneReady := fun s found l k ready ready' => same found ready ready'
    awakeOrReady := fun s found awake l => apart found awake
    clean := fun s found free => ?_
    registered := fun b member tag => ?_
  }
  · rw [State.pendingOn_iff] at hm hn
    obtain ⟨bound, at_m⟩ := List.getElem?_eq_some_iff.mp hm
    obtain ⟨bound', at_n⟩ := List.getElem?_eq_some_iff.mp hn
    exact (x.excl.once.getElem_inj_iff).mp (at_m.trans at_n.symm)
  · have alive := (x.slots found).2
    have unowned : ¬ st.kernel.tsm.accessLock i = true := by simp [free]
    refine ⟨?_, fun l => ⟨?_, fun n bound => ?_⟩⟩ <;> by_contra marked <;> refine unowned ?_
    · exact owned_of_mark x View.lock_of_wakes (fun h => wakes_service h) found
        (x.awake alive (by simpa using marked))
    · exact owned_of_mark x View.lock_of_posts (fun h => posts_service h) found
        (x.ready alive (by simpa using marked))
    · exact owned_of_mark x View.lock_of_soils (fun h => soils_service h) found
        (x.bytes alive bound marked)
  · have live := (x.callback b member).live
    have here : st.kernel.core.slot i = some b.service := tag ▸ live.1
    exact ⟨here, (x.slots here).2⟩

/-- Runs whose array indices and message copies stay in bounds, and in which a freed
service still reads as last written.
-/
def WithinBounds : Guard (State τ) (Event τ) :=
  fun _ st e => NoReuse e ∧ st.IndicesInRange e ∧ st.CopiesInside e

instance (h : History (State τ) (Event τ)) (st : State τ) (e : Event τ)
    : Decidable (WithinBounds h st e) :=
  inferInstanceAs (Decidable (_ ∧ _ ∧ _))

/-- The hand-off laws hold for every tag in every reachable state. -/
theorem lock_hand_off {h : History (State τ) (Event τ)}
    (run : (machine τ).Run WithinBounds h st) (i : Int)
    : LockHandOff st i :=
  (safe_run (fun ok => ok.1.unseen _) run).lockHandOff i

/-- After a send to a waiting thread the mutex is held by the pending callback alone. -/
theorem lock_hand_off_after_send
    : ∃ h st,
        (machine (Fin 2)).Run WithinBounds h st
        ∧ (st.kernel.tsm.accessLock 1 = true ∧ st.kernel.rcu.callbacks.length = 1)
        ∧ LockHandOff st 1 := by
  obtain ⟨h, st, run, facts⟩ := Machine.Run.exists_of_replay
    (M := machine (Fin 2)) (G := WithinBounds)
    (creating 0 1 ++ fallingAsleep 1 1 0 ++ sending 0 1 0 [104, 105] 16)
    (fun _ st => st.kernel.tsm.accessLock 1 && st.kernel.rcu.callbacks.length == 1)
    (by decide +kernel)
  exact ⟨h, st, run, by simpa using facts, lock_hand_off run 1⟩

end TagExchange
