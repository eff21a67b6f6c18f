import TagExchange.Concurrency.Broadcast
import TagExchange.Concurrency.Times
import TagExchange.Properties.Integrity

/-! The order in which threads receive messages: `tag_send` and `tag_receive` as a broadcast. The
messages of a level come in one order for all threads. Those of a whole service do when no message is
taken back while somebody reads it, and those of all services when no receiver comes late.
-/

namespace TagExchange

open Concurrency

variable {τ : Type} {s : Ref} {l : Int} {c c' r : CallId τ}

-----------------------------------------------------------------------------------------
-- A call posts once, and copies once
-----------------------------------------------------------------------------------------

/-- The call has received the message of the send, on whatever level. -/
def Delivered (h : History (State τ) (Event τ)) : Deliveries τ :=
  fun c r => ∃ s l, Delivers h c r s l

/-- The call sends its message. -/
def State.Sends (st : State τ) (c : CallId τ) (e : Event τ) : Prop :=
  ∃ s l g, st.Posts s l c g e

/-- Only one call sends a message in an event. -/
theorem State.Sends.unique {st : State τ} {e : Event τ} (sends : st.Sends c e)
    (sends' : st.Sends c' e)
    : c = c' := by
  obtain ⟨s, l, g, posts⟩ := sends
  obtain ⟨s', l', g', posts'⟩ := sends'
  obtain ⟨external, event⟩ := posts.event
  obtain ⟨external', event'⟩ := posts'.event
  obtain ⟨same, -⟩ := Event.run.inj (event.symm.trans event')
  refine Prod.ext same ?_
  have thread := posts.thread
  rw [same, posts'.thread] at thread
  exact (congrArg Thread.calls thread).symm

/-- The receive has still to copy its message. -/
def Frame.uncopied : Frame → Bool
  | receive f =>
      match f.pc with
      | .rcuUnlock _ | .decCount _ | .decLevel _ | .left .. | .print | .ret _ => false
      | _ => true
  | _ => false

variable [DecidableEq τ] {G : Guard (State τ) (Event τ)} {h : History (State τ) (Event τ)}
  {st st' : State τ} {e : Event τ}

/-- A receive that is behind its copy stays there, by cases on the move. -/
theorem copied_of_exec {k k' : Kernel τ} {external : Nat} {before after : Frame}
    (copied : before.uncopied = false) (exec : k.exec external (before.op c) = some (k', after))
    : after.uncopied = false := by
  cases before with
  | user last => cases exec
  | receive f =>
      have move := receiveMove_of_exec exec
      obtain ⟨tag, level, buffer, size, euid, ts, realSize, interrupted, bytes, pc⟩ := f
      change ReceiveMove k _ _ pc after at move
      cases move <;> first | rfl | cases copied
  | _ =>
      have same := Kernel.exec_sameCall exec
      cases after <;> first | rfl | cases same

/-- A call that has copied its message does not come back to it, by induction on the run. -/
theorem uncopied_run (run : (machine τ).Run G h st)
    (copied : Once (fun past st e => ∃ s l, Copies s l r past st e) h)
    (calls : (st.thread r.1).calls = r.2)
    : (st.thread r.1).frame.uncopied = false := by
  induction run with
  | start => exact absurd copied not_once_nil
  | @next h st e st' before ok step ih =>
      have step : st.step e = some st' := step
      cases turn_of_step step r.1 with
      | rest other thread =>
          rw [thread] at calls ⊢
          cases copied with
          | here now =>
              obtain ⟨s, l, ⟨external, event⟩, -⟩ := now
              exact absurd event (other external)
          | later earlier => exact ih earlier calls
      | enter event idle thread =>
          rw [thread] at calls
          cases copied with
          | here now =>
              obtain ⟨s, l, ⟨external, run⟩, -⟩ := now
              cases event.symm.trans run
          | later earlier =>
              obtain ⟨m, st₁, e₁, found, s, l, -, now, -⟩ := Once.moment earlier
              have bound := calls_le_of_mem (t := r.1) before (List.mem_of_getElem? found)
              rw [now] at bound
              exact absurd (calls.symm ▸ bound) (Nat.not_succ_le_self _)
      | @go external frame event exec thread =>
          rw [thread] at calls ⊢
          cases copied with
          | here now =>
              obtain ⟨s, l, -, -, f, here, pc, -⟩ := now
              rw [State.op, here] at exec
              have move := receiveMove_of_exec exec
              rw [pc] at move
              cases move
              rfl
          | later earlier => exact copied_of_exec (ih earlier calls) exec

-----------------------------------------------------------------------------------------
-- The times of a run
-----------------------------------------------------------------------------------------

/-- The number of the call that a thread makes grows with time. -/
theorem calls_le_of_time (run : (machine τ).Run G h st) {x y : Time h} (order : x ≤ y) (t : τ)
    : (x.state.thread t).calls ≤ (y.state.thread t).calls := by
  rcases order.lt_or_eq with less | rfl
  · exact calls_le_of_mem (run.time y).1 (List.mem_of_getElem? (Time.getElem?_past less))
  · exact Nat.le_refl _

/-- A call sends its message at one time. -/
theorem sends_once (run : (machine τ).Run G h st) {x y : Time h} (sends : x.state.Sends c x.event)
    (sends' : y.state.Sends c y.event)
    : x = y := by
  refine Time.eq_of_apart (P := fun x => x.state.Sends c x.event) ?_ sends sends'
  rintro x y order ⟨s, l, g, posts⟩ ⟨s', l', g', posts'⟩
  have once : Once (Posted s l c) y.past := Time.once order ⟨g, posts⟩
  have behind := posted_run (run.time y).1 once (by rw [posts'.thread])
  rw [posts'.thread] at behind
  simp [Frame.unposted, posts'.pc] at behind

/-- A call copies its message at one time. -/
theorem copies_once (run : (machine τ).Run G h st) {x y : Time h} {s' : Ref} {l' : Int}
    (copies : Copies s l r x.past x.state x.event)
    (copies' : Copies s' l' r y.past y.state y.event)
    : x = y := by
  refine Time.eq_of_apart (P := fun x => ∃ s l, Copies s l r x.past x.state x.event) ?_
    ⟨s, l, copies⟩ ⟨s', l', copies'⟩
  rintro x y order earlier ⟨s', l', -, calls, f, here, pc, -⟩
  have once : Once (fun past st e => ∃ s l, Copies s l r past st e) y.past :=
    Time.once order earlier
  have behind := uncopied_run (run.time y).1 once calls
  rw [here] at behind
  simp [Frame.uncopied, pc] at behind

/-- The time of a delivery: the call copies, and the send was the last one to its level. -/
def DeliversAt (s : Ref) (l : Int) (c r : CallId τ) (z : Time h) : Prop :=
  Copies s l r z.past z.state z.event ∧ Since (NoPost s l) (Posted s l c) z.past

omit [DecidableEq τ] in
theorem Delivers.time (delivers : Delivers h c r s l) : ∃ z : Time h, DeliversAt s l c r z :=
  Once.time delivers

omit [DecidableEq τ] in
theorem DeliversAt.delivers {z : Time h} (delivers : DeliversAt s l c r z)
    : Delivers h c r s l :=
  once_of_moment z.getElem?_position delivers

/-- A call receives one message. -/
theorem delivered_unique (run : (machine τ).Run G h st) (delivers : Delivered h c r)
    (delivers' : Delivered h c' r)
    : c = c' := by
  obtain ⟨s, l, delivers⟩ := delivers
  obtain ⟨s', l', delivers'⟩ := delivers'
  obtain ⟨z, copies, sent⟩ := delivers.time
  obtain ⟨z', copies', sent'⟩ := delivers'.time
  obtain rfl := copies_once run copies copies'
  obtain ⟨-, -, f, here, -, rfl, rfl⟩ := copies
  obtain ⟨-, -, f', here', -, service, level⟩ := copies'
  obtain rfl := Frame.receive.inj (here.symm.trans here')
  subst service level
  have both := Since.both (fun _ _ _ none post => post.elim fun g posts => none c g posts)
    (fun _ _ _ none post => post.elim fun g posts => none c' g posts) sent sent'
  obtain ⟨m, st₁, e₁, -, ⟨g, posts⟩, g', posts'⟩ := both.once.moment
  exact State.Sends.unique ⟨_, _, g, posts⟩ ⟨_, _, g', posts'⟩

/-- The sends and the receives of a run. -/
def broadcast (run : (machine τ).Run G h st) : Exchange (Time h) (Delivered h) where
  calls x t := (x.state.thread t).calls
  sent c x := x.state.Sends c x.event
  calls_le order t := calls_le_of_time run order t
  calls_of_sent := by
    rintro c x ⟨s, l, g, posts⟩
    rw [posts.thread]
  time_unique := sends_once run
  call_unique := State.Sends.unique
  sent_of_got := by
    rintro c r ⟨s, l, delivers⟩
    obtain ⟨y, ⟨-, calls, -⟩, sent⟩ := delivers.time
    obtain ⟨x, order, ⟨g, posts⟩, -⟩ := sent.time
    exact ⟨x, y, ⟨s, l, g, posts⟩, order, calls⟩
  got_unique := delivered_unique run

-----------------------------------------------------------------------------------------
-- The messages of one level
-----------------------------------------------------------------------------------------

/-- A later copy from a level is never of a message that was sent to it earlier. -/
theorem sent_le_of_level (run : (machine τ).Run G h st) {r' : CallId τ} {z z' x x' : Time h}
    (delivers : DeliversAt s l c r z) (delivers' : DeliversAt s l c' r' z') (order : z < z')
    (sends : x.state.Sends c x.event) (sends' : x'.state.Sends c' x'.event)
    : x ≤ x' := by
  obtain ⟨y, before, ⟨g, posts⟩, -⟩ := delivers.2.time
  obtain ⟨y', -, ⟨g', posts'⟩, silent⟩ := delivers'.2.time
  obtain rfl := sends_once run sends ⟨s, l, g, posts⟩
  obtain rfl := sends_once run sends' ⟨s, l, g', posts'⟩
  exact le_of_not_gt fun back => silent x back (lt_trans before order) c g posts

theorem stamped_of_level (run : (machine τ).Run G h st) (s : Ref) (l : Int)
    : Stamped (broadcast run) (DeliversAt s l) where
  got_of_stamp delivers := ⟨s, l, delivers.delivers⟩
  calls_of_stamp delivers := delivers.1.2.1
  sent_le := sent_le_of_level run

/-- The messages of a level come in one order for all threads, and after those that their senders
have received, whatever the interleaving: a message is the one that was the last to be sent to its
level when the receiver copied.
-/
theorem level_in_order (run : (machine τ).Run G h st) (s : Ref) (l : Int)
    : InOrder (Delivered h) (fun c r => Delivers h c r s l) :=
  (stamped_of_level run s l).inOrder fun delivers => delivers.time

/-- The call that makes the level `READY` in this event. -/
def State.sender (st : State τ) (s : Ref) (l : Int) : Event τ → Option (CallId τ)
  | .run t _ =>
      match st.thread t with
      | ⟨n, .send g⟩ => if g.pc = .ready ∧ g.ts = s ∧ g.level = l then some (t, n) else none
      | _ => none
  | _ => none

omit [DecidableEq τ] in
theorem State.sender_eq_some : st.sender s l e = some c ↔ ∃ g, st.Posts s l c g e := by
  constructor
  · intro sends
    cases e with
    | run t external =>
        simp only [State.sender] at sends
        split at sends
        · next n g thread =>
            split at sends
            · next point =>
                obtain rfl := Option.some.inj sends
                obtain ⟨pc, service, level⟩ := point
                exact ⟨g, ⟨external, rfl⟩, thread, pc, service, level⟩
            · cases sends
        · cases sends
    | _ => cases sends
  · rintro ⟨g, ⟨external, rfl⟩, thread, pc, service, level⟩
    simp [State.sender, thread, pc, service, level]

/-- Tests whether the call copies from the level in this event. -/
def copiesTest (s : Ref) (l : Int) (r : CallId τ) (st : State τ) : Event τ → Bool
  | .run t _ =>
      decide ((t, (st.thread t).calls) = r)
      && match (st.thread t).frame with
        | .receive ⟨_, level, _, _, _, ts, _, _, _, .copy⟩ => ts == s && level == l
        | _ => false
  | _ => false

theorem copies_of_test (passes : copiesTest s l r st e = true) : Copies s l r h st e := by
  cases e with
  | run t external =>
      obtain ⟨call, point⟩ := Bool.and_eq_true_iff.mp passes
      obtain rfl := of_decide_eq_true call
      refine ⟨⟨external, rfl⟩, rfl, ?_⟩
      split at point
      · next here =>
          obtain ⟨service, level⟩ := Bool.and_eq_true_iff.mp point
          exact ⟨_, here, rfl, eq_of_beq service, eq_of_beq level⟩
      · cases point
  | _ => cases passes

/-- Tests whether the message of the send is delivered to the call. -/
def deliversTest (s : Ref) (l : Int) (c r : CallId τ) : History (State τ) (Event τ) → Bool
  | [] => false
  | (st, e) :: h =>
      copiesTest s l r st e
        && sinceTest (fun st e => st.sender s l e == none) (fun st e => st.sender s l e == some c) h
      || deliversTest s l c r h

theorem delivers_of_test (passes : deliversTest s l c r h = true) : Delivers h c r s l := by
  induction h with
  | nil => cases passes
  | cons moment h ih =>
      obtain ⟨st, e⟩ := moment
      rcases Bool.or_eq_true_iff.mp passes with now | earlier
      · obtain ⟨copies, sent⟩ := Bool.and_eq_true_iff.mp now
        refine .here ⟨copies_of_test copies, (since_of_test sent).mono ?_ ?_⟩
        · intro _ _ _ silent c g posts
          cases (State.sender_eq_some.mpr ⟨g, posts⟩).symm.trans (eq_of_beq silent)
        · exact fun _ _ _ sends => State.sender_eq_some.mp (eq_of_beq sends)
      · exact Once.cons (ih earlier) _ _

/-- Two threads fall asleep, and a third one sends them a message, which they receive. -/
def exchanging (tag level : Int) (message : UInt8) : List (Event (Fin 3)) :=
  fallingAsleep 1 tag level ++ fallingAsleep 2 tag level ++ sending 0 tag level [message] 16
    ++ runs 1 22 ++ runs 2 22 ++ List.replicate 4 (.softirq 0)

/-- The first thread sends twice, and the others receive both messages in the order of the sends. -/
theorem level_in_order_of_sleepers
    : ∃ (h : History (State (Fin 3)) (Event (Fin 3))) (st : State (Fin 3)),
        (machine (Fin 3)).Run anyStep h st
        ∧ Delivers h (0, 2) (1, 1) 0 3
        ∧ Delivers h (0, 3) (1, 2) 0 3
        ∧ Delivers h (0, 2) (2, 1) 0 3
        ∧ Delivers h (0, 3) (2, 2) 0 3
        ∧ InOrder (Delivered h) (fun c r => Delivers h c r 0 3) := by
  obtain ⟨h, st, run, facts⟩ := Machine.Run.exists_of_replay
    (M := machine (Fin 3)) (G := anyStep) (creating 0 1 ++ exchanging 1 3 104 ++ exchanging 1 3 105)
    (fun h _ =>
      deliversTest 0 3 (0, 2) (1, 1) h && deliversTest 0 3 (0, 3) (1, 2) h
      && deliversTest 0 3 (0, 2) (2, 1) h && deliversTest 0 3 (0, 3) (2, 2) h)
    (by decide +kernel)
  simp only [Bool.and_eq_true] at facts
  obtain ⟨⟨⟨first, second⟩, first'⟩, second'⟩ := facts
  exact ⟨h, st, run, delivers_of_test first, delivers_of_test second, delivers_of_test first',
    delivers_of_test second', level_in_order run 0 3⟩

-----------------------------------------------------------------------------------------
-- The messages of one service
-----------------------------------------------------------------------------------------

/-- No level of a service is `READY` when a message is sent to one of them: the sender has the mutex
of the service, and has sent nothing yet.
-/
theorem unready_of_posts (run : (machine τ).Run Unheld h st) {g : SendFrame}
    (posts : st.Posts s l c g e) (k : Int)
    : st.ready s k = false := by
  have x := Unheld.safe run
  have view : st.view c.1 = .filling s g.tag l := by
    rw [State.view, posts.thread]
    simp only [Frame.view, SendFrame.view, posts.pc, posts.service, posts.level]
  have fact := x.fact c.1
  rw [view] at fact
  exact x.not_ready (by rw [view]; rfl) (by rw [view]; rfl) fact.1 k
    fun posted => by rw [view] at posted; cases posted

/-- A level that is read has been `READY` since the last message was sent to it. -/
theorem ready_between (run : (machine τ).Run Unraced h st) {z x y : Time h}
    (copies : Copies s l r z.past z.state z.event)
    (silent : ∀ w : Time h, x < w → w < z → NoPost s l w.past w.state w.event) (after : x < y)
    (before : y < z)
    : y.state.ready s l = true := by
  obtain ⟨-, -, f, here, pc, rfl, rfl⟩ := copies
  have run := (run.time z).1
  have unheld := Unraced.unheld run
  have reading : (Frame.receive f).reading = some (f.ts, f.level) := by
    simp only [Frame.reading, pc]
  have held : f.ts ∈ (z.state.thread r.1).frame.pointers := here ▸ reading_mem_pointers reading
  have ready := (faithful_run run here).ready reading
  obtain ⟨w, earlier, ⟨c, g, posts⟩, kept⟩ :=
    (ready_posted run (intact_of_held unheld held) (pointers_born unheld r.1 _ held) ready).time
  have first : w ≤ x := le_of_not_gt fun late => silent w late earlier c g posts
  exact kept y (lt_of_le_of_lt first after) before

theorem stamped_of_service (run : (machine τ).Run Unraced h st) (s : Ref)
    : Stamped (broadcast run) (fun c r z => ∃ l, DeliversAt s l c r z) where
  got_of_stamp := by
    rintro c r z ⟨l, delivers⟩
    exact ⟨s, l, delivers.delivers⟩
  calls_of_stamp := by
    rintro c r z ⟨l, delivers⟩
    exact delivers.1.2.1
  sent_le := by
    rintro c c' r r' z z' x x' ⟨l, delivers⟩ ⟨l', delivers'⟩ order sends sends'
    obtain ⟨y, before, ⟨g, posts⟩, -⟩ := delivers.2.time
    obtain ⟨y', -, ⟨g', posts'⟩, silent⟩ := delivers'.2.time
    obtain rfl := sends_once run sends ⟨s, l, g, posts⟩
    obtain rfl := sends_once run sends' ⟨s, l', g', posts'⟩
    refine le_of_not_gt fun back => ?_
    -- The level of the later copy would have been `READY` when the earlier message was sent.
    have ready := ready_between run delivers'.1 silent back (lt_trans before order)
    have unready := unready_of_posts (Unraced.unheld (run.time x).1) posts l'
    exact absurd (ready.symm.trans unready) (by decide)

/-- The messages of a service come in one order for all threads, and after those that their senders
have received, in every run in which no message is taken back while somebody reads it.
-/
theorem service_in_order (run : (machine τ).Run Unraced h st) (s : Ref)
    : InOrder (Delivered h) (fun c r => ∃ l, Delivers h c r s l) :=
  (stamped_of_service run s).inOrder fun ⟨l, delivers⟩ => delivers.time.imp fun _ now => ⟨l, now⟩

/-- The first thread sends on the levels 3 and 5, and the others receive both messages. -/
theorem service_in_order_of_sleepers
    : ∃ (h : History (State (Fin 3)) (Event (Fin 3))) (st : State (Fin 3)),
        (machine (Fin 3)).Run Unraced h st
        ∧ Delivers h (0, 2) (1, 1) 0 3
        ∧ Delivers h (0, 3) (1, 2) 0 5
        ∧ Delivers h (0, 2) (2, 1) 0 3
        ∧ Delivers h (0, 3) (2, 2) 0 5
        ∧ InOrder (Delivered h) (fun c r => ∃ l, Delivers h c r 0 l) := by
  obtain ⟨h, st, run, facts⟩ := Machine.Run.exists_of_replay
    (M := machine (Fin 3)) (G := UnracedFresh)
    (creating 0 1 ++ exchanging 1 3 104 ++ exchanging 1 5 105)
    (fun h _ =>
      deliversTest 0 3 (0, 2) (1, 1) h && deliversTest 0 5 (0, 3) (1, 2) h
      && deliversTest 0 3 (0, 2) (2, 1) h && deliversTest 0 5 (0, 3) (2, 2) h)
    (by decide +kernel)
  simp only [Bool.and_eq_true] at facts
  obtain ⟨⟨⟨first, second⟩, first'⟩, second'⟩ := facts
  have run := UnracedFresh.unraced run
  exact ⟨h, st, run, delivers_of_test first, delivers_of_test second, delivers_of_test first',
    delivers_of_test second', service_in_order run 0⟩

-----------------------------------------------------------------------------------------
-- The messages of all services
-----------------------------------------------------------------------------------------

theorem stamped_of_module (run : (machine τ).Run InTime h st)
    : Stamped (broadcast run) (fun c r z =>
        Delivered h c r ∧ z.state.Sends c z.event ∧ (z.state.thread r.1).calls = r.2) where
  got_of_stamp delivers := delivers.1
  calls_of_stamp delivers := delivers.2.2
  sent_le := by
    rintro c c' r r' z z' x x' ⟨-, now, -⟩ ⟨-, now', -⟩ order sends sends'
    rw [sends_once run sends now, sends_once run sends' now']
    exact order.le

/-- A receiver that has received a message has copied a part of the one that was delivered to it, by
cases on its moves.
-/
theorem delivered_bytes_run (run : (machine τ).Run Unraced h st)
    : ∀ {t f},
        (st.thread t).frame = .receive f
        → f.pc.received = true
        → ∃ c g,
            Delivers h c (t, (st.thread t).calls) f.ts f.level
            ∧ Once (PostedBy f.ts f.level c g) h
            ∧ f.copied <+: g.message := by
  refine run.invariant
    (P := fun h st => ∀ {t f},
      (st.thread t).frame = .receive f
      → f.pc.received = true
      → ∃ c g,
          Delivers h c (t, (st.thread t).calls) f.ts f.level
          ∧ Once (PostedBy f.ts f.level c g) h
          ∧ f.copied <+: g.message)
    (fun here => by cases here) ?_
  intro h st e st' before old ok step t f' after received
  have step : st.step e = some st' := step
  have unheld := Unraced.unheld before
  cases receiveTurn_of_step step after with
  | rest other thread =>
      rw [thread] at after ⊢
      obtain ⟨c, g, delivers, posted, part⟩ := old after received
      exact ⟨c, g, Once.cons delivers _ _, Once.cons posted _ _, part⟩
  | enter calls entered =>
      rename_i euid c
      cases c <;> cases entered
      cases received
  | @move external f pc frame event here calls point move target =>
      subst event
      obtain ⟨tag, level, buffer, size, euid, ts, realSize, interrupted, bytes, pc⟩ := f
      obtain rfl := point
      rw [calls]
      -- Behind the copy nothing is added.
      have still (past : ReceivePc.received pc = true)
          : ∃ c g,
              Delivers ((st, .run t external) :: h) c (t, (st.thread t).calls) ts level
              ∧ Once (PostedBy ts level c g) ((st, .run t external) :: h)
              ∧ bytes <+: g.message := by
        obtain ⟨c, g, delivers, posted, part⟩ := old here past
        exact ⟨c, g, Once.cons delivers _ _, Once.cons posted _ _, part⟩
      cases move with
      | @copy n =>
          obtain rfl := Frame.receive.inj target
          have held : ts ∈ (st.thread t).frame.pointers := by
            rw [here]
            exact List.mem_singleton_self _
          have faithful := faithful_run before here
          obtain ⟨-, g₀, -, carries₀, length⟩ := faithful.carried rfl
          obtain ⟨c, g, since, carries⟩ := carries_run unheld (intact_of_held unheld held)
            (pointers_born unheld t ts held) (faithful.ready rfl)
          have fits : realSize ≤ g.stored := by
            have length : realSize = min g₀.stored _ := length
            rw [length, ← carries.size, carries₀.size]
            exact Nat.min_le_left ..
          refine ⟨c, g, .here ⟨⟨⟨external, rfl⟩, rfl, _, here, rfl, rfl, rfl⟩, ?_⟩,
            Once.cons since.once _ _, carries.copied (Nat.le_trans (Nat.sub_le realSize n) fits)⟩
          exact since.mono (fun _ _ _ none => none) fun _ _ _ posts => ⟨g, posts⟩
      | @left x pc other =>
          obtain rfl := Frame.receive.inj target
          cases x with
          | message => exact still rfl
          | signal => cases received
          | awake => cases received
      | leave => cases target
      | _ =>
          obtain rfl := Frame.receive.inj target
          first
          | exact still received
          | cases received

/-- The call is about to return 0, with these bytes of the message of the send. -/
def Receives (c r : CallId τ) (bytes : List UInt8) : Guard (State τ) (Event τ) :=
  fun past st _ =>
    (st.thread r.1).calls = r.2
    ∧ ∃ f,
        (st.thread r.1).frame = .receive f
        ∧ f.pc = .ret 0
        ∧ f.copied = bytes
        ∧ Delivers past c r f.ts f.level

/-- What a call receives is the beginning of what the send has copied from its user. -/
theorem sent_of_receives (run : (machine τ).Run Unraced h st) {bytes : List UInt8}
    (receives : Once (Receives c r bytes) h)
    : ∃ (x : Time h) (s : Ref) (l : Int) (g : SendFrame),
        x.state.Posts s l c g x.event ∧ bytes <+: g.message := by
  have sent : Once (fun _ st e => ∃ s l g, st.Posts s l c g e ∧ bytes <+: g.message) h := by
    refine Once.join (Once.strengthen run (fun before _ now => ?_) receives)
    obtain ⟨calls, f, here, pc, rfl, delivers⟩ := now
    obtain ⟨c', g, delivers', posted, part⟩ := delivered_bytes_run before here (by rw [pc]; rfl)
    rw [calls] at delivers'
    obtain rfl := delivered_unique before ⟨_, _, delivers⟩ ⟨_, _, delivers'⟩
    exact Once.mono (fun _ _ _ posts => ⟨_, _, g, posts, part⟩) posted
  exact sent.time

/-- Tests whether the call is about to return 0 with these bytes of the message of the send. -/
def receivesTest (c r : CallId τ) (bytes : List UInt8) : History (State τ) (Event τ) → Bool
  | [] => false
  | (st, _) :: h =>
      (match st.thread r.1 with
        | ⟨n, .receive ⟨_, level, _, _, _, ts, _, _, copied, .ret v⟩⟩ =>
            n == r.2 && v == 0 && copied == bytes && deliversTest ts level c r h
        | _ => false)
      || receivesTest c r bytes h

theorem receives_of_test {bytes : List UInt8} (passes : receivesTest c r bytes h = true)
    : Once (Receives c r bytes) h := by
  induction h with
  | nil => cases passes
  | cons moment h ih =>
      obtain ⟨st, e⟩ := moment
      rcases Bool.or_eq_true_iff.mp passes with now | earlier
      · split at now
        · next thread =>
            simp only [Bool.and_eq_true, beq_iff_eq] at now
            obtain ⟨⟨⟨calls, returns⟩, copied⟩, delivers⟩ := now
            subst returns
            refine .here ⟨by rw [thread, ← calls], _, by rw [thread], rfl, copied, ?_⟩
            exact delivers_of_test delivers
        · cases now
      · exact Once.cons (ih earlier) _ _

end TagExchange
