import Mathlib.Order.Lattice

/-! Messages between threads that make one call after another. When all receivers of a message get it
from one place, the order in which they get several of them can be read off the times at which the
messages were sent. The theorem here says what has to be known of these times.
-/

namespace Concurrency

variable {τ T : Type}

/-- A call is a thread and the number of its call. `got c r` says that the call `r` got the message
of the call `c`.
-/
abbrev Deliveries (τ : Type) := τ × Nat → τ × Nat → Prop

/-- A call came before another one in the knowledge of a thread: the thread that made the second one
had made the first one too, or had got its message.
-/
inductive Precedes (got : Deliveries τ) : τ × Nat → τ × Nat → Prop
  | program {t n n'} (order : n < n') : Precedes got (t, n) (t, n')
  | message {c t n n'} (gets : got c (t, n)) (order : n < n') : Precedes got c (t, n')
  | trans {c d c'} (first : Precedes got c d) (second : Precedes got d c') : Precedes got c c'

/-- The deliveries `D`, among those of all messages, are in order. -/
structure InOrder (got D : Deliveries τ) : Prop where
  /-- No two threads get two messages in opposite orders. -/
  total
    : ∀ {c c' t n n' u m m'},
        D c (t, n) → D c' (t, n') → D c (u, m) → D c' (u, m') → c ≠ c' → n < n' → m < m'
  /-- Nobody gets a message before one that its sender knew of. -/
  causal
    : ∀ {c c' u m m'}, Precedes got c c' → D c (u, m) → D c' (u, m') → m < m'

variable [LinearOrder T]

/-- What happened: the number of the call that every thread was making at a time, and the time at
which a call sent its message. A message is sent before anybody gets it, and a call gets one message.
-/
structure Exchange (T : Type) [LinearOrder T] (got : Deliveries τ) where
  calls : T → τ → Nat
  sent : τ × Nat → T → Prop
  calls_le : ∀ {x y}, x ≤ y → ∀ t, calls x t ≤ calls y t
  calls_of_sent : ∀ {c x}, sent c x → calls x c.1 = c.2
  time_unique : ∀ {c x y}, sent c x → sent c y → x = y
  call_unique : ∀ {c c' x}, sent c x → sent c' x → c = c'
  sent_of_got : ∀ {c r}, got c r → ∃ x y, sent c x ∧ x < y ∧ calls y r.1 = r.2
  got_unique : ∀ {c c' r}, got c r → got c' r → c = c'

/-- The deliveries `D` are stamped: every stamp is a time at which the receiving call was being made,
and a later stamp never goes with a message that was sent earlier.
-/
structure Stamped {got : Deliveries τ} (X : Exchange T got) (D : τ × Nat → τ × Nat → T → Prop)
    : Prop where
  got_of_stamp : ∀ {c r z}, D c r z → got c r
  calls_of_stamp : ∀ {c r z}, D c r z → X.calls z r.1 = r.2
  sent_le
    : ∀ {c c' r r' z z' x x'},
        D c r z → D c' r' z' → z < z' → X.sent c x → X.sent c' x' → x ≤ x'

variable {got : Deliveries τ} {X : Exchange T got} {c c' : τ × Nat} {t u : τ} {m m' n n' : Nat}

theorem Exchange.lt_of_calls {x y : T} (less : X.calls x t < X.calls y t) : x < y :=
  lt_of_not_ge fun order => absurd (X.calls_le order t) (Nat.not_le_of_lt less)

/-- What came before a call in somebody's knowledge had been begun by then, and its message had been
sent, by induction on the ways to know.
-/
theorem Precedes.begun {y : T} (precedes : Precedes got c c') (begun : c'.2 ≤ X.calls y c'.1)
    : c.2 ≤ X.calls y c.1 ∧ ∀ x, X.sent c x → x < y := by
  induction precedes with
  | program order =>
      refine ⟨Nat.le_trans (Nat.le_of_lt order) begun, fun x sends => ?_⟩
      exact X.lt_of_calls (Nat.lt_of_lt_of_le (X.calls_of_sent sends ▸ order) begun)
  | @message c t n n' gets order =>
      obtain ⟨x, z, sends, later, under⟩ := X.sent_of_got gets
      have before : z < y := X.lt_of_calls (t := t) (Nat.lt_of_lt_of_le (under ▸ order) begun)
      refine ⟨?_, fun x' sends' => ?_⟩
      · rw [← X.calls_of_sent sends]
        exact X.calls_le (lt_trans later before).le c.1
      · exact X.time_unique sends sends' ▸ lt_trans later before
  | trans first second firstBegun secondBegun => exact firstBegun (secondBegun begun).1

namespace Stamped

variable {D : τ × Nat → τ × Nat → T → Prop} {x x' z z' : T}

/-- A thread gets its messages in the order in which they were sent. -/
theorem le_of_lt (stamped : Stamped X D) (first : D c (t, n) z) (second : D c' (t, n') z')
    (order : n < n') (sends : X.sent c x) (sends' : X.sent c' x')
    : x ≤ x' := by
  refine stamped.sent_le first second (X.lt_of_calls (t := t) ?_) sends sends'
  rw [stamped.calls_of_stamp first, stamped.calls_of_stamp second]
  exact order

/-- The message that was sent later is got later. -/
theorem lt_of_lt (stamped : Stamped X D) (first : D c (u, m) z) (second : D c' (u, m') z')
    (sends : X.sent c x) (sends' : X.sent c' x') (order : x < x')
    : m < m' := by
  refine lt_of_not_ge fun back => ?_
  rcases back.lt_or_eq with less | same
  · exact absurd (stamped.le_of_lt second first less sends' sends) (not_le_of_gt order)
  · subst same
    obtain rfl := X.got_unique (stamped.got_of_stamp first) (stamped.got_of_stamp second)
    exact absurd (X.time_unique sends sends') (ne_of_lt order)

/-- Deliveries that can be stamped are in order. -/
theorem inOrder (stamped : Stamped X D) {D' : Deliveries τ} (stamps : ∀ {c r}, D' c r → ∃ z, D c r z)
    : InOrder got D' where
  total := by
    intro c c' t n n' u m m' delivers delivers' other other' different order
    obtain ⟨z, first⟩ := stamps delivers
    obtain ⟨z', second⟩ := stamps delivers'
    obtain ⟨w, first'⟩ := stamps other
    obtain ⟨w', second'⟩ := stamps other'
    obtain ⟨x, -, sends, -⟩ := X.sent_of_got (stamped.got_of_stamp first)
    obtain ⟨x', -, sends', -⟩ := X.sent_of_got (stamped.got_of_stamp second)
    have later := stamped.le_of_lt first second order sends sends'
    have apart : x ≠ x' := by
      rintro rfl
      exact different (X.call_unique sends sends')
    exact stamped.lt_of_lt first' second' sends sends' (lt_of_le_of_ne later apart)
  causal := by
    intro c c' u m m' precedes delivers delivers'
    obtain ⟨z, first⟩ := stamps delivers
    obtain ⟨z', second⟩ := stamps delivers'
    obtain ⟨x, -, sends, -⟩ := X.sent_of_got (stamped.got_of_stamp first)
    obtain ⟨x', -, sends', -⟩ := X.sent_of_got (stamped.got_of_stamp second)
    have begun := precedes.begun (X := X) (X.calls_of_sent sends').ge
    exact stamped.lt_of_lt first second sends sends' (begun.2 x sends)

end Stamped

end Concurrency
