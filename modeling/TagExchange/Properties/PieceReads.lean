import Mathlib.Algebra.GroupWithZero.Nat
import TagExchange.Model.CharDevice
import TagExchange.Properties.DeviceCells

/-! Reading a device in pieces: `ts_read` moves the cursor of the session, and copies every piece from
the beginning of the text.
-/

namespace TagExchange

open CStrings

variable {founds : Nat → Nat → Char} {content : Block} {text : List Char}
  {position count : Nat} {counts : List Nat}

-----------------------------------------------------------------------------------------
-- One call
-----------------------------------------------------------------------------------------

/-- What `ts_read` does at a position of a text: the length is right, the bytes are the first ones. -/
def copied (text : List Char) (position count : Nat) : Piece :=
  let r := min count (text.length - position)
  ⟨position, count, text.take r, r, position + r⟩

/-- A block with a text that fits into the buffers of the device. -/
structure Publishes (content : Block) (text : List Char) : Prop where
  holds : Holds content text
  size : content.length = BUFSIZE

theorem Publishes.length_lt (publishes : Publishes content text) : text.length < BUFSIZE :=
  publishes.size ▸ publishes.holds.length_lt

theorem tsReadText_eq_some (found : Nat → Char) (publishes : Publishes content text) (inside : position ≤ text.length)
    (limit : count ≤ MAX_RW_COUNT)
    : tsReadText found content position count = some (copied text position count) := by
  have short := publishes.length_lt
  have bufsize : BUFSIZE = 4096 := rfl
  have most : MAX_RW_COUNT < 2 ^ 31 := by decide
  have status : memcpy (fresh found BUFSIZE) content BUFSIZE = some content := by
    have room : 0 + (content.take BUFSIZE).length ≤ (fresh found BUFSIZE).length := by
      rw [length_fresh, List.length_take]
      omega
    have whole : content.take BUFSIZE = content := List.take_of_length_le (Nat.le_of_eq publishes.size)
    have nothing : (fresh found BUFSIZE).drop (0 + content.length) = [] :=
      List.drop_eq_nil_of_le (Nat.le_of_eq (by rw [length_fresh, publishes.size, Nat.zero_add]))
    rw [memcpy, if_pos (Nat.le_of_eq publishes.size.symm), write_eq _ _ _ room, whole, nothing,
      List.take_zero, List.nil_append, List.append_nil]
  have sum : (position + count) % 2 ^ 64 = position + count := Nat.mod_eq_of_lt (by omega)
  have begin_ (n : Nat) (le : n ≤ text.length) : content.take n = text.take n := by
    obtain ⟨-, rest, shape⟩ := publishes.holds
    rw [shape, List.take_append_of_le_length le]
  rw [tsReadText, status, Option.bind_eq_bind, Option.bind_some, publishes.holds.strlen,
    Option.bind_eq_bind, Option.bind_some, sum, copied]
  by_cases done : text.length ≤ position
  · have none_ : min count (text.length - position) = 0 := by omega
    rw [if_pos done, none_]
    rfl
  · rw [if_neg done]
    by_cases more : position + count > text.length
    · have length : min count (text.length - position) = text.length - position := by omega
      rw [if_pos more, length]
      dsimp only
      rw [if_neg (by omega), begin_ _ (Nat.sub_le ..)]
    · have length : min count (text.length - position) = count := by omega
      rw [if_neg more, length]
      dsimp only
      rw [if_neg (by omega), begin_ _ (by omega)]

/-- A reader of the module that holds the mutex of its device returns and moves its cursor just so,
where the text it has copied has this length.
-/
theorem transfer_eq {τ : Type} [DecidableEq τ] {strlen : List (Option Nat) → Nat} {t : τ} {k : Kernel τ}
    {f : ReadFrame} (here : f.pc = .transfer) (length : strlen f.copied = text.length)
    (inside : position ≤ text.length)
    : tsRead strlen t k position 0 f
      = some (k, (copied text position f.count).next,
          f.at_ (.unlockTag (copied text position f.count).result)) := by
  unfold tsRead
  rw [here]
  simp only [length, copied]
  by_cases done : text.length ≤ position
  · have none_ : min f.count (text.length - position) = 0 := by omega
    rw [if_pos done, none_]
    rfl
  · have count : f.toCopy position text.length = min f.count (text.length - position) := by
      unfold ReadFrame.toCopy
      dsimp only
      split <;> split <;> omega
    rw [if_neg done, if_neg (not_not_intro rfl), count]

-----------------------------------------------------------------------------------------
-- A session
-----------------------------------------------------------------------------------------

/-- The calls of a session. -/
def copies (text : List Char) : Nat → List Nat → List Piece
  | _, [] => []
  | position, count :: counts =>
      copied text position count :: copies text (copied text position count).next counts

theorem copied_next_le (inside : position ≤ text.length) (count : Nat)
    : (copied text position count).next ≤ text.length := by
  show position + min count (text.length - position) ≤ text.length
  omega

/-- A session makes these calls, by induction on what it asks for. -/
theorem tsReadTexts_eq_some (founds : Nat → Nat → Char) (publishes : Publishes content text)
    (limit : ∀ count ∈ counts, count ≤ MAX_RW_COUNT) (inside : position ≤ text.length)
    : tsReadTexts founds content position counts = some (copies text position counts) := by
  induction counts generalizing position founds with
  | nil => rfl
  | cons count counts ih =>
      have first := tsReadText_eq_some (founds 0) publishes inside
        (limit count (List.mem_cons_self ..))
      have later := ih (fun n => founds (n + 1))
        (fun count member => limit count (List.mem_cons_of_mem _ member)) (copied_next_le inside count)
      rw [tsReadTexts, first, Option.bind_eq_bind, Option.bind_some, later]
      rfl

/-- A call returns the bytes at its cursor, as many as are asked for and left, and the cursor moves
behind them.
-/
structure Piece.Right (text : List Char) (piece : Piece) : Prop where
  result : piece.result = min piece.count (text.length - piece.position)
  bytes : piece.bytes = (text.drop piece.position).take piece.result
  next : piece.next = piece.position + piece.result

/-- The calls of a session are right, and up to the first one that returns 0 they return the text. -/
structure ReadsWhole (text : List Char) (counts : List Nat) (pieces : List Piece) : Prop where
  right : ∀ piece ∈ pieces, piece.Right text
  whole : text.length ≤ counts.sum
    → (pieces.takeWhile fun piece => piece.result ≠ 0).flatMap Piece.bytes = text

/-- A call is right where the bytes it owes are the first ones of the text. -/
theorem right_copied_iff
    : (copied text position count).Right text ↔ (text.drop position).take count <+: text := by
  have length : ((text.drop position).take count).length = min count (text.length - position) := by
    rw [List.length_take, List.length_drop]
  have owed
      : (text.drop position).take (min count (text.length - position))
        = (text.drop position).take count := by
    rw [← List.length_drop, ← List.take_eq_take_min]
  constructor
  · intro right
    have bytes
        : text.take (min count (text.length - position))
          = (text.drop position).take (min count (text.length - position)) :=
      right.bytes
    rw [← owed, ← bytes]
    exact List.take_prefix ..
  · intro begins
    refine ⟨rfl, ?_, rfl⟩
    show text.take (min count (text.length - position))
      = (text.drop position).take (min count (text.length - position))
    rw [owed, ← length]
    exact (List.prefix_iff_eq_take.mp begins).symm

/-- The same for a whole session, by induction on what it asks for. -/
theorem right_copies_iff (counts : List Nat) (inside : position ≤ text.length)
    : (∀ piece ∈ copies text position counts, piece.Right text)
      ↔ ∀ before count after,
          counts = before ++ count :: after
          → (text.drop (position + before.sum)).take count <+: text := by
  induction counts generalizing position with
  | nil =>
      refine ⟨fun _ before count after split => ?_, fun _ piece member => ?_⟩
      · cases before <;> cases split
      · cases member
  | cons count counts ih =>
      have cursor (n : Nat)
          : text.drop ((copied text position count).next + n) = text.drop (position + (count + n)) := by
        show text.drop (position + min count (text.length - position) + n) = _
        by_cases more : count ≤ text.length - position
        · rw [Nat.min_eq_left more, Nat.add_assoc]
        · rw [List.drop_eq_nil_of_le (by omega), List.drop_eq_nil_of_le (by omega)]
      rw [copies, List.forall_mem_cons, right_copied_iff, ih (copied_next_le inside count)]
      constructor
      · rintro ⟨first, later⟩ before c after split
        cases before with
        | nil =>
            obtain ⟨rfl, rfl⟩ := List.cons.inj split
            exact first
        | cons b before =>
            obtain ⟨rfl, rest⟩ := List.cons.inj split
            rw [List.sum_cons, ← cursor]
            exact later before c after rest
      · intro all
        refine ⟨all [] count counts rfl, fun before c after split => ?_⟩
        rw [cursor, ← List.sum_cons]
        exact all (count :: before) c after (congrArg _ split)

/-- Right calls return what is left of the text, by induction on what the session asks for. -/
theorem flatMap_copies (positive : ∀ count ∈ counts, 0 < count)
    (right : ∀ piece ∈ copies text position counts, piece.Right text)
    (inside : position ≤ text.length) (enough : text.length ≤ position + counts.sum)
    : ((copies text position counts).takeWhile fun piece => piece.result ≠ 0).flatMap Piece.bytes
      = text.drop position := by
  induction counts generalizing position with
  | nil => exact (List.drop_eq_nil_of_le enough).symm
  | cons count counts ih =>
      have some_ := positive count (List.mem_cons_self ..)
      rw [List.sum_cons] at enough
      obtain ⟨first, later⟩ := List.forall_mem_cons.mp right
      have result : (copied text position count).result = min count (text.length - position) := rfl
      have next
          : (copied text position count).next = position + min count (text.length - position) := rfl
      by_cases done : text.length ≤ position
      · have zero : (copied text position count).result = 0 := by omega
        rw [copies, List.takeWhile_cons_of_neg (by simp [zero]), List.drop_eq_nil_of_le done]
        rfl
      · have more : (copied text position count).result ≠ 0 := by omega
        have tail := ih (fun count member => positive count (List.mem_cons_of_mem _ member)) later
          (copied_next_le inside count) (by omega)
        have bytes
            : (copied text position count).bytes
              = (text.drop position).take (copied text position count).result := first.bytes
        rw [copies, List.takeWhile_cons_of_pos (by simpa using more), List.flatMap_cons, tail, bytes,
          next, result, ← List.drop_drop, List.take_append_drop]

/-- A session reads the text where each of its calls is right. -/
theorem readsWhole_iff_right (publishes : Publishes content text)
    (limits : ∀ count ∈ counts, 0 < count ∧ count ≤ MAX_RW_COUNT)
    : (∃ pieces, tsReadTexts founds content 0 counts = some pieces ∧ ReadsWhole text counts pieces)
      ↔ ∀ piece ∈ copies text 0 counts, piece.Right text := by
  have calls := tsReadTexts_eq_some founds publishes
    (fun count member => (limits count member).2) (Nat.zero_le text.length)
  constructor
  · rintro ⟨pieces, made, whole⟩
    obtain rfl := Option.some.inj (calls.symm.trans made)
    exact whole.right
  · intro all
    refine ⟨_, calls, all, fun enough => ?_⟩
    exact flatMap_copies (fun count member => (limits count member).1) all (Nat.zero_le _)
      (by rwa [Nat.zero_add])

/-- The calls of a session return the text exactly where every piece that is owed is also the
beginning of the text.
-/
theorem readsWhole_iff (publishes : Publishes content text)
    (limits : ∀ count ∈ counts, 0 < count ∧ count ≤ MAX_RW_COUNT)
    : (∃ pieces, tsReadTexts founds content 0 counts = some pieces ∧ ReadsWhole text counts pieces)
      ↔ ∀ before count after,
          counts = before ++ count :: after → (text.drop before.sum).take count <+: text := by
  have right := right_copies_iff counts (Nat.zero_le text.length)
  simp only [Nat.zero_add] at right
  rw [readsWhole_iff_right publishes limits, right]

/-- A read that asks for more than the text returns it. -/
theorem readsWhole_of_one_read
    : ∃ pieces,
        tsReadTexts (fun _ _ => 'x') (header ++ List.replicate 4072 nul) 0 [4096, 4096] = some pieces
        ∧ ReadsWhole header [4096, 4096] pieces := by
  have publishes : Publishes (header ++ List.replicate 4072 nul) header :=
    ⟨⟨by decide, List.replicate 4071 nul, rfl⟩, by
      rw [List.length_append, List.length_replicate]
      rfl⟩
  refine (readsWhole_iff publishes (by decide)).mpr fun before count after split => ?_
  cases before with
  | nil =>
      obtain ⟨rfl, -⟩ := List.cons.inj split
      exact List.take_prefix ..
  | cons c before =>
      obtain ⟨rfl, -⟩ := List.cons.inj split
      have behind : header.drop (4096 :: before).sum = [] := by
        refine List.drop_eq_nil_of_le ?_
        have length : header.length = 24 := by decide
        rw [List.sum_cons, length]
        omega
      rw [behind, List.take_nil]
      exact List.nil_prefix

/-- Two reads of a byte return the first byte of a device twice. -/
theorem repeats_first_byte
    : ¬ ∀ (founds : Nat → Nat → Char) (content : Block) (text : List Char) (counts : List Nat),
          Publishes content text
          → (∀ count ∈ counts, 0 < count ∧ count ≤ MAX_RW_COUNT)
          → ∃ pieces,
              tsReadTexts founds content 0 counts = some pieces ∧ ReadsWhole text counts pieces := by
  intro always
  have publishes : Publishes (header ++ List.replicate 4072 nul) header :=
    ⟨⟨by decide, List.replicate 4071 nul, rfl⟩, by
      rw [List.length_append, List.length_replicate]
      rfl⟩
  have limits : ∀ count ∈ [1, 1], 0 < count ∧ count ≤ MAX_RW_COUNT := by decide
  obtain ⟨pieces, made, whole⟩ := always (fun _ _ => 'x') _ header [1, 1] publishes limits
  have calls := tsReadTexts_eq_some (fun _ _ => 'x') publishes
    (fun c member => (limits c member).2) (Nat.zero_le header.length)
  obtain rfl := Option.some.inj (calls.symm.trans made)
  have second := whole.right (copied header 1 1) (.tail _ (.head _))
  exact absurd second.bytes (by decide)

/-- In a text whose first character does not come again only a read of everything is right. -/
theorem prefix_iff_of_first {a : Char} {rest : List Char} (once : a ∉ rest) {c : Nat}
    (positive : ∀ count ∈ c :: counts, 0 < count)
    : (∀ before count after,
        c :: counts = before ++ count :: after → ((a :: rest).drop before.sum).take count <+: a :: rest)
      ↔ counts = [] ∨ (a :: rest).length ≤ c := by
  have some_ := positive c (List.mem_cons_self ..)
  constructor
  · intro begins
    cases counts with
    | nil => exact .inl rfl
    | cons d counts =>
        refine .inr (Nat.le_of_not_lt fun less => ?_)
        have second := positive d (List.mem_cons_of_mem _ (List.mem_cons_self ..))
        obtain ⟨n, rfl⟩ := Nat.exists_eq_succ_of_ne_zero (Nat.ne_of_gt some_)
        obtain ⟨m, rfl⟩ := Nat.exists_eq_succ_of_ne_zero (Nat.ne_of_gt second)
        have less : n < rest.length := Nat.lt_of_succ_lt_succ less
        have piece := begins [n + 1] (m + 1) counts rfl
        rw [List.sum_singleton, List.drop_succ_cons, List.drop_eq_getElem_cons less,
          List.take_succ_cons] at piece
        exact once ((List.cons_prefix_cons.mp piece).1 ▸ List.getElem_mem less)
  · rintro (rfl | all) before count after split
    · cases before with
      | nil => exact List.take_prefix ..
      | cons b before => cases before <;> cases (List.cons.inj split).2
    · cases before with
      | nil => exact List.take_prefix ..
      | cons b before =>
          obtain ⟨rfl, -⟩ := List.cons.inj split
          rw [List.drop_eq_nil_of_le (by rw [List.sum_cons]; omega), List.take_nil]
          exact List.nil_prefix

/-- The letter that a device begins with is not printed again. -/
theorem render_first (key euid : Int) (w : Text)
    : ∃ rest, render key euid w = 'K' :: rest ∧ 'K' ∉ rest := by
  refine ⟨header.tail ++ levels.flatMap fun l => row key euid l (w l), rfl, fun member => ?_⟩
  rcases List.mem_append.mp member with head | lines
  · exact absurd head (by decide)
  · obtain ⟨l, -, inside⟩ := List.mem_flatMap.mp lines
    have number := fun n => notMem_printInt (c := 'K') (by decide) (by decide) n
    have counter := fun n => notMem_printNat (c := 'K') (by decide) n
    simp only [row, List.mem_append, List.mem_cons, number, counter] at inside
    revert inside
    decide

/-- A device with complete lines is read right only if the session makes one read, or the first one
takes the whole text.
-/
theorem readsWhole_render_iff {key euid : Int} {w : Text} {c : Nat}
    (publishes : Publishes content (render key euid w))
    (limits : ∀ count ∈ c :: counts, 0 < count ∧ count ≤ MAX_RW_COUNT)
    : (∃ pieces,
        tsReadTexts founds content 0 (c :: counts) = some pieces
        ∧ ReadsWhole (render key euid w) (c :: counts) pieces)
      ↔ counts = [] ∨ (render key euid w).length ≤ c := by
  obtain ⟨rest, shape, once⟩ := render_first key euid w
  have right := right_copies_iff (c :: counts) (Nat.zero_le (render key euid w).length)
  simp only [Nat.zero_add] at right
  rw [readsWhole_iff_right publishes limits, right, shape]
  exact prefix_iff_of_first once fun count member => (limits count member).1

end TagExchange
