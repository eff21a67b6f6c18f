import TagExchange.Properties.Integrity

/-! The lengths of a message: what `tag_send` writes into its buffers, and how many bytes of the
sender's memory a receiver gets.
-/

namespace TagExchange

open Concurrency Protocol

variable {τ : Type}

-----------------------------------------------------------------------------------------
-- The lengths of a send
-----------------------------------------------------------------------------------------

/-- The value `not_copied` of a send that has called `copy_from_user`. -/
def SendFrame.notCopied (g : SendFrame) : Nat := g.realSize - g.stored

/-- A send that has chosen `real_size`. -/
def SendPc.measured : SendPc → Bool
  | .entry | .getPage | .ret _ _ | .oops _ => false
  | _ => true

/-- A send that has called `copy_from_user`. -/
def SendPc.copied : SendPc → Bool
  | .entry | .getPage | .copyFromUser | .ret _ _ | .oops _ => false
  | _ => true

/-- The length that a send works with is the one it has computed from its arguments. -/
structure SendFrame.Measured (g : SendFrame) : Prop where
  realSize : g.pc.measured = true → g.realSize = g.requested
  stored : g.pc.copied = true → g.stored ≤ g.realSize

variable [DecidableEq τ] {h : History (State τ) (Event τ)} {st st' : State τ} {e : Event τ} {t : τ}

/-- The lengths are chosen once, by cases on the moves of a send. -/
theorem measured_run {G : Guard (State τ) (Event τ)} (run : (machine τ).Run G h st)
    : ∀ {t g}, (st.thread t).frame = .send g → g.Measured := by
  refine run.invariant (P := fun _ st => ∀ {t g}, (st.thread t).frame = .send g → g.Measured)
    (fun here => by cases here) ?_
  intro h st e st' before measured ok step t g' after
  have step : st.step e = some st' := step
  cases sendTurn_of_step step after with
  | rest _ thread => exact measured (thread ▸ after)
  | enter calls entered =>
      rename_i euid c
      cases c <;> cases entered
      exact ⟨fun now => (by cases now), fun now => (by cases now)⟩
  | @move external g pc frame event here calls point move target =>
      obtain ⟨realSize, stored⟩ := measured here
      obtain ⟨tag, level, buffer, size, euid, real, n, ts, pc⟩ := g
      obtain rfl := point
      cases move with
      | getPage =>
          obtain rfl := Frame.send.inj target
          exact ⟨fun _ => rfl, fun now => (by cases now)⟩
      | copyFromUser =>
          obtain rfl := Frame.send.inj target
          exact ⟨fun _ => realSize rfl, fun _ => Nat.sub_le ..⟩
      | refuse | refuseLevel | accept | noPage | unmapped | freePage =>
          obtain rfl := Frame.send.inj target
          exact ⟨fun now => (by cases now), fun now => (by cases now)⟩
      | leave => cases target
      | _ =>
          obtain rfl := Frame.send.inj target
          exact ⟨fun _ => realSize rfl, fun _ => stored rfl⟩

/-- What has been copied is what was asked for, less what `copy_from_user` has left. -/
theorem SendFrame.Measured.stored_eq {g : SendFrame} (measured : g.Measured)
    (copied : g.pc.copied = true)
    : g.realSize = g.requested ∧ g.stored = g.requested - g.notCopied := by
  have asked : g.pc.measured = true := by
    cases point : g.pc <;> rw [point] at copied <;> first | rfl | cases copied
  have same := measured.realSize asked
  have bound := measured.stored copied
  refine ⟨same, ?_⟩
  rw [SendFrame.notCopied, same]
  omega

-----------------------------------------------------------------------------------------
-- The buffers of a send
-----------------------------------------------------------------------------------------

/-- How far into the message buffer a store reaches. -/
def Write.reach : Write → Nat
  | memcpy _ n _ => n
  | terminator _ n => n + 1
  | memset _ => MAX_MESSAGE_SIZE
  | _ => 0

/-- A send writes inside its buffers, at every program point: `copy_from_user` fills `real_size`
bytes of the page, with zeros where it cannot copy, and the stores go into the message.
-/
structure SendFrame.WritesInside (g : SendFrame) (c : CallId τ) : Prop where
  page : g.realSize ≤ MAX_MESSAGE_SIZE
  message
    : ∀ {pc s w next}, tagSend c { g with pc } = .store s w next → w.reach ≤ MAX_MESSAGE_SIZE

omit [DecidableEq τ] in
/-- The store that reaches furthest is the one of the terminator, by cases on the program point. -/
theorem SendFrame.writesInside_iff {g : SendFrame} {c : CallId τ}
    : g.WritesInside c ↔ g.realSize ≤ MAX_MESSAGE_SIZE ∧ g.stored < MAX_MESSAGE_SIZE := by
  constructor
  · rintro ⟨page, message⟩
    have last : tagSend c { g with pc := .terminator }
        = .store g.ts (.terminator g.level g.stored) (g.at_ .size) := rfl
    exact ⟨page, message last⟩
  · rintro ⟨page, stored⟩
    refine ⟨page, fun {pc s w next} same => ?_⟩
    cases pc <;> cases same
    · exact Nat.le_of_lt stored
    · exact stored
    · exact Nat.zero_le _
    · exact Nat.zero_le _
    · exact Nat.zero_le _
    · exact Nat.le_refl _

/-- A `tag_send` writes inside its buffers exactly if its size is above the limit, or its string
leaves room for the terminator: it is shorter than the limit, or it has just that length and
`copy_from_user` has not copied all of it.
-/
theorem sends_inside_iff (run : (machine τ).Run anyStep h st) {g : SendFrame}
    (here : (st.thread t).frame = .send g) (copied : g.pc.copied = true)
    : g.WritesInside (t, (st.thread t).calls)
      ↔ g.size > MAX_MESSAGE_SIZE - 1
        ∨ strlen g.buffer < MAX_MESSAGE_SIZE - 1
        ∨ strlen g.buffer = MAX_MESSAGE_SIZE - 1 ∧ 0 < g.notCopied := by
  obtain ⟨asked, stored⟩ := (measured_run run here).stored_eq copied
  rw [SendFrame.writesInside_iff, asked, stored, SendFrame.requested]
  by_cases above : g.size > MAX_MESSAGE_SIZE - 1
  · rw [if_pos above]
    exact iff_of_true ⟨by decide, Nat.lt_of_le_of_lt (Nat.sub_le ..) (by decide)⟩ (.inl above)
  · rw [if_neg above]
    simp only [MAX_MESSAGE_SIZE] at above ⊢
    omega

/-- The call of a thread in `tag_send`. -/
def Frame.sending : Frame → Option SendFrame
  | send g => some g
  | _ => none

theorem Frame.eq_send_of_sending {frame : Frame} {g : SendFrame} (sending : frame.sending = some g)
    : frame = .send g := by
  cases frame <;> cases sending
  rfl

/-- A send of three bytes that is about to store the terminator writes inside its buffers. -/
theorem sends_inside_iff_of_short
    : ∃ h st g,
        (machine (Fin 2)).Run anyStep h st
        ∧ ((st.thread 0).frame = .send g ∧ g.pc = .terminator)
        ∧ g.WritesInside ((0 : Fin 2), (st.thread 0).calls) := by
  obtain ⟨h, st, run, facts⟩ := Machine.Run.exists_of_replay
    (M := machine (Fin 2)) (G := anyStep)
    (creating 0 1 ++ sending 0 1 3 [104, 105] 8)
    (fun _ st => (st.thread 0).frame.sending.any fun g =>
      g.pc == .terminator && strlen g.buffer == 2)
    (by decide +kernel)
  obtain ⟨g, sending, facts⟩ := (Option.any_eq_true ..).mp facts
  simp only [Bool.and_eq_true, beq_iff_eq] at facts
  have here := Frame.eq_send_of_sending sending
  refine ⟨h, st, g, run, ⟨here, facts.1⟩, ?_⟩
  refine (sends_inside_iff run here (by rw [facts.1]; rfl)).mpr (.inr (.inl ?_))
  rw [facts.2]
  decide

/-- A string as long as the limit, sent with its own length: the terminator is stored behind the
message buffer.
-/
theorem sends_outside
    : ¬ ∀ (h : History (State (Fin 2)) (Event (Fin 2))) (st : State (Fin 2)) (t : Fin 2)
          (g : SendFrame),
        (machine (Fin 2)).Run anyStep h st
        → (st.thread t).frame = .send g
        → g.pc.copied = true
        → g.WritesInside (t, (st.thread t).calls) := by
  intro always
  obtain ⟨h, st, run, facts⟩ := Machine.Run.exists_of_replay
    (M := machine (Fin 2)) (G := anyStep)
    (creating 0 1 ++ sending 0 1 3 (List.replicate 4095 120) 8)
    (fun _ st => (st.thread 0).frame.sending.any fun g =>
      g.pc == .terminator && g.stored == 4096)
    (by decide +kernel)
  obtain ⟨g, sending, facts⟩ := (Option.any_eq_true ..).mp facts
  simp only [Bool.and_eq_true, beq_iff_eq] at facts
  have inside := always h st 0 g run (Frame.eq_send_of_sending sending) (by rw [facts.1]; rfl)
  have stored := (SendFrame.writesInside_iff.mp inside).2
  rw [facts.2] at stored
  exact absurd stored (by decide)

-----------------------------------------------------------------------------------------
-- What reaches the receiver
-----------------------------------------------------------------------------------------

namespace ReceiveFrame

/-- The number of bytes that `copy_to_user` has not copied. -/
def notCopied (f : ReceiveFrame) : Nat := f.realSize - f.copied.length

/-- The receiver's buffer after the call, from what it held before. -/
def after (f : ReceiveFrame) (before : Nat → UInt8) (i : Nat) : UInt8 := f.copied.getD i (before i)

end ReceiveFrame

/-- How many bytes of the sender's memory reach the receiver. -/
def arrived (g : SendFrame) (f : ReceiveFrame) : Nat :=
  min (g.requested - g.notCopied) f.limit - f.notCopied

/-- A receiver that has left the code of `copy_to_user` behind. -/
def ReceivePc.beyondCopy : ReceivePc → Bool
  | .rcuUnlock _ | .decCount _ | .decLevel _ | .left _ _ | .print | .ret _ => true
  | _ => false

/-- A receiver has copied nothing, or no more than it has asked for, by cases on its moves. -/
theorem fits_run {G : Guard (State τ) (Event τ)} (run : (machine τ).Run G h st)
    : ∀ {t f},
        (st.thread t).frame = .receive f
        → f.copied = [] ∨ f.pc.beyondCopy = true ∧ f.copied.length ≤ f.realSize := by
  refine run.invariant
    (P := fun _ st => ∀ {t f},
      (st.thread t).frame = .receive f
      → f.copied = [] ∨ f.pc.beyondCopy = true ∧ f.copied.length ≤ f.realSize)
    (fun here => by cases here) ?_
  intro h st e st' before fits ok step t f' after
  have step : st.step e = some st' := step
  cases receiveTurn_of_step step after with
  | rest _ thread => exact fits (thread ▸ after)
  | enter calls entered =>
      rename_i euid c
      cases c <;> cases entered
      exact .inl rfl
  | @move external f pc frame event here calls point move target =>
      have old := fits here
      obtain ⟨tag, level, buffer, size, euid, ts, realSize, interrupted, copied, pc⟩ := f
      obtain rfl := point
      cases move with
      | copy =>
          obtain rfl := Frame.receive.inj target
          refine .inr ⟨rfl, ?_⟩
          rw [List.length_map, List.length_range]
          exact Nat.sub_le ..
      | leave => cases target
      | _ =>
          obtain rfl := Frame.receive.inj target
          first
          | exact old
          | exact .inl (old.resolve_right fun later => by cases later.1)

theorem copied_le_run {G : Guard (State τ) (Event τ)} (run : (machine τ).Run G h st)
    {f : ReceiveFrame} (here : (st.thread t).frame = .receive f)
    : f.copied.length ≤ f.realSize := by
  rcases fits_run run here with none | ⟨-, fits⟩
  · rw [none]
    exact Nat.zero_le _
  · exact fits

/-- The message that a receiver brings back is the beginning of what one send has read from its
user, as far as it has arrived.
-/
theorem message_arrives (run : (machine τ).Run Unraced h st) {f : ReceiveFrame}
    (here : (st.thread t).frame = .receive f) (returns : f.pc = .ret 0)
    : ∃ c g,
        Once (fun _ st e => st.Posts f.ts f.level c g e) h
        ∧ (g.tag = f.tag ∧ g.level = f.level)
        ∧ f.copied = (List.range (arrived g f)).map g.byte := by
  obtain ⟨c, g, posted, same, part, length⟩ := message_integrity run here returns
  refine ⟨c, g, posted, same, ?_⟩
  obtain ⟨m, st₁, e₁, found, posts⟩ := Once.moment posted
  have past := (run.moment found).1
  have here₁ : (st₁.thread c.1).frame = .send g := by rw [posts.thread]
  have stored := ((measured_run past here₁).stored_eq (by rw [posts.pc]; rfl)).2
  have bound := copied_le_run run here
  have size : f.copied.length = arrived g f := by
    rw [arrived, ← stored, ← length, ReceiveFrame.notCopied]
    omega
  have inside : f.copied.length ≤ g.stored := by
    rw [length] at bound
    omega
  rw [List.prefix_iff_eq_take.mp part, ← List.map_take, List.take_range, Nat.min_eq_left inside, size]

/-- A receiver that returns 0 has written inside its user's buffer, and the message is what the
sender had there: as many bytes as both sizes and the limit of the module allow.
-/
structure ReceiveFrame.Delivers (f : ReceiveFrame) (g : SendFrame) (before : Nat → UInt8)
    : Prop where
  bytes : ∀ i < min f.size (min g.size (MAX_MESSAGE_SIZE - 1)), f.after before i = g.byte i
  inside : f.copied.length ≤ f.size

omit [DecidableEq τ] in
/-- The receiver's buffer holds the bytes that have arrived and keeps what it held behind them. -/
theorem ReceiveFrame.after_of_copied {f : ReceiveFrame} {g : SendFrame} {n : Nat}
    (copied : f.copied = (List.range n).map g.byte) (before : Nat → UInt8) (i : Nat)
    : f.after before i = if i < n then g.byte i else before i := by
  rw [ReceiveFrame.after, copied]
  split
  · next inside => simp [List.getD, inside]
  · next outside => simp [List.getD, outside]

theorem arrived_le_size (g : SendFrame) (f : ReceiveFrame) : arrived g f ≤ f.size := by
  have limit : f.limit ≤ f.size := by
    unfold ReceiveFrame.limit
    split <;> omega
  exact Nat.le_trans (Nat.sub_le ..) (Nat.le_trans (Nat.min_le_right ..) limit)

/-- A message is delivered exactly if the bytes that have not arrived happened to be in the
receiver's buffer before.
-/
theorem delivers_iff (run : (machine τ).Run Unraced h st) {f : ReceiveFrame}
    (here : (st.thread t).frame = .receive f) (returns : f.pc = .ret 0) (before : Nat → UInt8)
    : ∃ c g,
        Once (fun _ st e => st.Posts f.ts f.level c g e) h
        ∧ (g.tag = f.tag ∧ g.level = f.level)
        ∧ f.copied = (List.range (arrived g f)).map g.byte
        ∧ (f.Delivers g before
            ↔ ∀ i,
                arrived g f ≤ i
                → i < min f.size (min g.size (MAX_MESSAGE_SIZE - 1))
                → before i = g.byte i) := by
  obtain ⟨c, g, posted, same, copied⟩ := message_arrives run here returns
  refine ⟨c, g, posted, same, copied, ?_⟩
  have after := ReceiveFrame.after_of_copied copied before
  constructor
  · intro delivers i missing bound
    have byte := delivers.bytes i bound
    rwa [after, if_neg (Nat.not_lt.mpr missing)] at byte
  · intro lucky
    refine ⟨fun i bound => ?_, ?_⟩
    · rw [after]
      split
      · rfl
      · next missing => exact lucky i (Nat.not_lt.mp missing) bound
    · rw [copied, List.length_map, List.length_range]
      exact arrived_le_size g f

/-- What all sends of a run satisfy at all times, the send of a message does. -/
theorem send_of_test {h : History (State (Fin 2)) (Event (Fin 2))} {test : SendFrame → Bool}
    (passes
      : (h.all fun moment =>
          (List.finRange 2).all fun u => (moment.1.thread u).frame.sending.all test) = true)
    {s : Ref} {l : Int} {c : CallId (Fin 2)} {g : SendFrame}
    (posted : Once (fun _ st e => st.Posts s l c g e) h)
    : g.pc = .ready ∧ test g = true := by
  obtain ⟨m, st, e, found, posts⟩ := Once.moment posted
  have all := List.all_eq_true.mp passes _ (List.mem_of_getElem? found)
  have here := List.all_eq_true.mp all c.1 (List.mem_finRange _)
  rw [posts.thread] at here
  exact ⟨posts.pc, here⟩

/-- The call of a thread in `tag_receive`. -/
def Frame.receivingCall : Frame → Option ReceiveFrame
  | receive f => some f
  | _ => none

/-- A receiver that is about to return 0 and passes a test. -/
theorem Frame.returned_of_test {frame : Frame} {test : ReceiveFrame → Bool}
    (passes : (frame.receivingCall.any fun f => frame.returning == some 0 && test f) = true)
    : ∃ f, frame = .receive f ∧ f.pc = .ret 0 ∧ test f = true := by
  obtain ⟨f, receiving, facts⟩ := (Option.any_eq_true ..).mp passes
  obtain ⟨returning, facts⟩ := Bool.and_eq_true_iff.mp facts
  obtain ⟨f', here, pc⟩ := Frame.eq_receive_of_returning (eq_of_beq returning)
  rw [here] at receiving
  obtain rfl := Option.some.inj receiving
  exact ⟨f', here, pc, facts⟩

/-- Two bytes and the terminator reach a receiver that asks for sixteen. -/
theorem delivers_iff_of_sleeper
    : ∃ h st f c g,
        (machine (Fin 2)).Run Unraced h st
        ∧ ((st.thread 1).frame = .receive f ∧ f.pc = .ret 0)
        ∧ Once (fun _ st e => st.Posts f.ts f.level c g e) h
        ∧ g.buffer = [104, 105]
        ∧ f.Delivers g (fun _ => 7) := by
  obtain ⟨h, st, run, facts⟩ := Machine.Run.exists_of_replay
    (M := machine (Fin 2)) (G := UnracedFresh)
    (creating 0 1 ++ fallingAsleep 1 1 3 ++ sending 0 1 3 [104, 105] 16 ++ runs 1 21)
    (fun h st =>
      ((st.thread 1).frame.receivingCall.any fun f =>
        (st.thread 1).frame.returning == some 0 && (f.copied.length == 3))
      && h.all fun moment => (List.finRange 2).all fun u =>
        (moment.1.thread u).frame.sending.all fun g => g.buffer == [104, 105] && g.size == 2)
    (by decide +kernel)
  obtain ⟨received, sent⟩ := Bool.and_eq_true_iff.mp facts
  obtain ⟨f, here, pc, facts⟩ := Frame.returned_of_test received
  simp only [beq_iff_eq] at facts
  have run := UnracedFresh.unraced run
  obtain ⟨c, g, posted, -, copied, delivers⟩ := delivers_iff run here pc (fun _ => 7)
  have test := (send_of_test sent posted).2
  simp only [Bool.and_eq_true, beq_iff_eq] at test
  refine ⟨h, st, f, c, g, run, ⟨here, pc⟩, posted, test.1, delivers.mpr fun i missing bound => ?_⟩
  have length : arrived g f = 3 := by simpa [copied] using facts
  omega

/-- A message with a zero byte is cut behind it: the receiver's third byte stays as it was. -/
theorem cuts_messages
    : ¬ ∀ (h : History (State (Fin 2)) (Event (Fin 2))) (st : State (Fin 2)) (t : Fin 2)
          (f : ReceiveFrame) (before : Nat → UInt8),
        (machine (Fin 2)).Run Unraced h st
        → (st.thread t).frame = .receive f
        → f.pc = .ret 0
        → ∃ c g, Once (fun _ st e => st.Posts f.ts f.level c g e) h ∧ f.Delivers g before := by
  intro always
  obtain ⟨h, st, run, facts⟩ := Machine.Run.exists_of_replay
    (M := machine (Fin 2)) (G := UnracedFresh)
    (creating 0 1 ++ fallingAsleep 1 1 3 ++ sending 0 1 3 [1, 0, 2] 16 ++ runs 1 21)
    (fun h st =>
      ((st.thread 1).frame.receivingCall.any fun f =>
        (st.thread 1).frame.returning == some 0 && (f.copied == [1, 0] && f.size == 16))
      && h.all fun moment => (List.finRange 2).all fun u =>
        (moment.1.thread u).frame.sending.all fun g => g.buffer == [1, 0, 2] && g.size == 3)
    (by decide +kernel)
  obtain ⟨received, sent⟩ := Bool.and_eq_true_iff.mp facts
  obtain ⟨f, here, pc, facts⟩ := Frame.returned_of_test received
  simp only [Bool.and_eq_true, beq_iff_eq] at facts
  have run := UnracedFresh.unraced run
  obtain ⟨c, g, posted, delivers⟩ := always h st 1 f (fun _ => 7) run here pc
  have test := (send_of_test sent posted).2
  simp only [Bool.and_eq_true, beq_iff_eq] at test
  have byte := delivers.bytes 2 (by rw [facts.2, test.2]; decide)
  rw [ReceiveFrame.after, SendFrame.byte, facts.1, test.1] at byte
  exact absurd byte (by decide)

-----------------------------------------------------------------------------------------
-- Strings
-----------------------------------------------------------------------------------------

/-- The string of a send, sent with its length, or with the terminator counted, arrives whole:
the receiver's buffer holds it with its terminator.
-/
def ReceiveFrame.HoldsString (f : ReceiveFrame) (g : SendFrame) (before : Nat → UInt8) : Prop :=
  (List.range (strlen g.buffer + 1)).map (f.after before)
  = g.buffer.take (strlen g.buffer) ++ [0]

theorem strlen_le (buffer : List UInt8) : strlen buffer ≤ buffer.length :=
  (List.takeWhile_sublist _).length_le

/-- The byte behind a string is its terminator. -/
theorem SendFrame.byte_strlen (g : SendFrame) : g.byte (strlen g.buffer) = 0 := by
  rw [SendFrame.byte]
  induction g.buffer with
  | nil => rfl
  | cons b rest ih =>
      by_cases zero : b = 0
      · simp [strlen, zero]
      · simpa [strlen, zero] using ih

/-- The bytes of a string and its terminator. -/
theorem SendFrame.bytes_strlen (g : SendFrame)
    : (List.range (strlen g.buffer + 1)).map g.byte = g.buffer.take (strlen g.buffer) ++ [0] := by
  rw [List.range_succ, List.map_append, List.map_singleton, g.byte_strlen]
  congr 1
  refine List.ext_getElem (by simp [strlen_le]) fun i bound _ => ?_
  rw [List.length_map, List.length_range] at bound
  have inside := Nat.lt_of_lt_of_le bound (strlen_le g.buffer)
  simp [SendFrame.byte, List.getD, inside]

theorem ReceiveFrame.HoldsString.terminated {f : ReceiveFrame} {g : SendFrame}
    {before : Nat → UInt8} (whole : f.HoldsString g before)
    : f.after before (strlen g.buffer) = 0 := by
  have last := congrArg List.getLast? whole
  simpa [List.range_succ] using last

/-- A string sent without a fault to a receiver with room for it arrives whole exactly if it is
shorter than the limit, or the receiver's buffer happened to hold the terminator already.
-/
theorem strings_arrive_iff (run : (machine τ).Run Unraced h st) {f : ReceiveFrame}
    (here : (st.thread t).frame = .receive f) (returns : f.pc = .ret 0) (before : Nat → UInt8)
    : ∃ c g,
        Once (fun _ st e => st.Posts f.ts f.level c g e) h
        ∧ (g.tag = f.tag ∧ g.level = f.level)
        ∧ f.copied = (List.range (arrived g f)).map g.byte
        ∧ (g.size = strlen g.buffer ∨ g.size = strlen g.buffer + 1
          → g.notCopied = 0
          → f.notCopied = 0
          → g.result = 0
          → strlen g.buffer + 1 ≤ f.size
          → (f.HoldsString g before
              ↔ strlen g.buffer < MAX_MESSAGE_SIZE - 1 ∨ before (MAX_MESSAGE_SIZE - 1) = 0)) := by
  obtain ⟨c, g, posted, same, copied⟩ := message_arrives run here returns
  refine ⟨c, g, posted, same, copied, fun size sent received result room => ?_⟩
  have after := ReceiveFrame.after_of_copied copied before
  have fits : ¬ g.size > MAX_MESSAGE_SIZE - 1 := by
    intro above
    rw [SendFrame.result, if_pos above] at result
    cases result
  -- The receiver's limit cuts off the terminator of the longest string.
  have length : arrived g f = min (strlen g.buffer + 1) (MAX_MESSAGE_SIZE - 1) := by
    rw [arrived, sent, received, SendFrame.requested, if_neg fits, ReceiveFrame.limit]
    generalize MAX_MESSAGE_SIZE - 1 = limit
    split <;> omega
  rw [ReceiveFrame.HoldsString, ← g.bytes_strlen, List.map_inj_left]
  simp only [after, length, List.mem_range]
  have terminator := g.byte_strlen
  generalize MAX_MESSAGE_SIZE - 1 = limit at fits length ⊢
  have bound : strlen g.buffer ≤ limit := by omega
  rcases Nat.lt_or_eq_of_le bound with short | longest
  · exact iff_of_true (fun i bound => if_pos (by omega)) (.inl short)
  · subst longest
    constructor
    · rintro whole
      have last := whole _ (Nat.lt_succ_self _)
      rw [if_neg (by omega), terminator] at last
      exact .inr last
    · intro zero i bound
      split
      · rfl
      · next missing =>
          obtain rfl : i = strlen g.buffer := by omega
          rw [terminator]
          exact zero.resolve_left (lt_irrefl _)

/-- The string `hi` reaches a receiver with its terminator. -/
theorem strings_arrive_iff_of_sleeper
    : ∃ h st f c g,
        (machine (Fin 2)).Run Unraced h st
        ∧ ((st.thread 1).frame = .receive f ∧ f.pc = .ret 0)
        ∧ Once (fun _ st e => st.Posts f.ts f.level c g e) h
        ∧ g.buffer = [104, 105]
        ∧ f.HoldsString g (fun _ => 7) := by
  obtain ⟨h, st, run, facts⟩ := Machine.Run.exists_of_replay
    (M := machine (Fin 2)) (G := UnracedFresh)
    (creating 0 1 ++ fallingAsleep 1 1 3 ++ sending 0 1 3 [104, 105] 16 ++ runs 1 21)
    (fun h st =>
      ((st.thread 1).frame.receivingCall.any fun f =>
        (st.thread 1).frame.returning == some 0 && (f.notCopied == 0 && f.size == 16))
      && h.all fun moment => (List.finRange 2).all fun u =>
        (moment.1.thread u).frame.sending.all fun g =>
          g.buffer == [104, 105] && g.size == 2 && (g.pc != .ready || g.notCopied == 0))
    (by decide +kernel)
  obtain ⟨received, sent⟩ := Bool.and_eq_true_iff.mp facts
  obtain ⟨f, here, pc, facts⟩ := Frame.returned_of_test received
  simp only [Bool.and_eq_true, beq_iff_eq] at facts
  have run := UnracedFresh.unraced run
  obtain ⟨c, g, posted, -, -, arrives⟩ := strings_arrive_iff run here pc (fun _ => 7)
  obtain ⟨ready, test⟩ := send_of_test sent posted
  simp only [Bool.and_eq_true, Bool.or_eq_true, beq_iff_eq, bne_iff_ne] at test
  obtain ⟨⟨buffer, size⟩, sent⟩ := test
  have length : strlen g.buffer = 2 := by rw [buffer]; decide
  have complete := sent.resolve_left (not_not_intro ready)
  have result : g.result = 0 := by rw [SendFrame.result, size]; decide
  refine ⟨h, st, f, c, g, run, ⟨here, pc⟩, posted, buffer, ?_⟩
  refine (arrives (.inl (by rw [size, length])) complete facts.1 result ?_).mpr (.inl ?_)
  · rw [length, facts.2]
    decide
  · rw [length]
    decide

/-- A string as long as the limit arrives without its terminator. -/
theorem loses_terminator
    : ¬ ∀ (h : History (State (Fin 2)) (Event (Fin 2))) (st : State (Fin 2)) (t : Fin 2)
          (f : ReceiveFrame) (before : Nat → UInt8),
        (machine (Fin 2)).Run Unraced h st
        → (st.thread t).frame = .receive f
        → f.pc = .ret 0
        → ∃ c g,
            Once (fun _ st e => st.Posts f.ts f.level c g e) h
            ∧ (g.size = strlen g.buffer ∨ g.size = strlen g.buffer + 1
              → g.notCopied = 0
              → f.notCopied = 0
              → g.result = 0
              → strlen g.buffer + 1 ≤ f.size
              → f.HoldsString g before) := by
  intro always
  obtain ⟨h, st, run, facts⟩ := Machine.Run.exists_of_replay
    (M := machine (Fin 2)) (G := UnracedFresh)
    (creating 0 1 ++ .call 1 0 (.tagReceive 1 3 true 4096) :: runs 1 20
      ++ sending 0 1 3 (List.replicate 4095 120) 16 ++ runs 1 21)
    (fun h st =>
      ((st.thread 1).frame.receivingCall.any fun f =>
        (st.thread 1).frame.returning == some 0
          && (f.notCopied == 0 && f.size == 4096 && f.copied.length == 4095))
      && h.all fun moment => (List.finRange 2).all fun u =>
        (moment.1.thread u).frame.sending.all fun g =>
          strlen g.buffer == 4095 && g.size == 4095 && (g.pc != .ready || g.notCopied == 0))
    (by decide +kernel)
  obtain ⟨received, sent⟩ := Bool.and_eq_true_iff.mp facts
  obtain ⟨f, here, pc, facts⟩ := Frame.returned_of_test received
  simp only [Bool.and_eq_true, beq_iff_eq] at facts
  have run := UnracedFresh.unraced run
  obtain ⟨c, g, posted, arrives⟩ := always h st 1 f (fun _ => 7) run here pc
  obtain ⟨ready, test⟩ := send_of_test sent posted
  simp only [Bool.and_eq_true, Bool.or_eq_true, beq_iff_eq, bne_iff_ne] at test
  obtain ⟨⟨length, size⟩, sent⟩ := test
  have complete := sent.resolve_left (not_not_intro ready)
  have result : g.result = 0 := by rw [SendFrame.result, size]; decide
  have whole := arrives (.inl (by rw [size, length])) complete facts.1.1 result
    (by rw [length, facts.1.2])
  have terminator := whole.terminated
  rw [length, ReceiveFrame.after, List.getD, List.getElem?_eq_none (by rw [facts.2])] at terminator
  exact absurd terminator (by decide)

end TagExchange
