import TagExchange.Model.CharDevice
import TagExchange.Properties.Counters
import TagExchange.Properties.DeviceExists

/-! The text of a device as its readers copy it: it is one of the texts published while they were
reading, and its buffer is not freed under them, as long as the receivers that rewrite the text
wait for them.
-/

namespace TagExchange

open Concurrency

variable {τ : Type}

-----------------------------------------------------------------------------------------
-- Readers
-----------------------------------------------------------------------------------------

/-- The device whose text a reader has found or is about to find. -/
def DeviceFrame.readsText : DeviceFrame → Option Int
  | reading f =>
      match f.pc with
      | .pointer i | .copy i _ | .rcuUnlock i => some i
      | _ => none
  | _ => none

/-- The device and the buffer that a reader is copying from. -/
def DeviceFrame.copies : DeviceFrame → Option (Int × Nat)
  | reading f =>
      match f.pc with
      | .copy i b => some (i, b)
      | _ => none
  | _ => none

/-- The device whose pointer a reader is about to load. -/
def DeviceFrame.dereferences : DeviceFrame → Option Int
  | reading f =>
      match f.pc with
      | .pointer i => some i
      | _ => none
  | _ => none

/-- What a reader has copied from a device when it leaves its read-side section. -/
def DeviceFrame.obtains : DeviceFrame → Option (Int × List (Option Nat))
  | reading f =>
      match f.pc with
      | .rcuUnlock i => some (i, f.copied)
      | _ => none
  | _ => none

/-- Between `rcu_read_lock` and `rcu_read_unlock`. -/
def DeviceFrame.inSection : DeviceFrame → Bool
  | reading f =>
      match f.pc with
      | .tag | .pointer _ | .copy _ _ | .rcuUnlock _ => true
      | _ => false
  | _ => false

/-- The first lines of a text, as a reader copies them. -/
def Text.lines (text : Text) (n : Nat) : List (Option Nat) :=
  (List.range n).map fun l => some (text l)

/-- The device whose text a receiver is about to free. -/
def Frame.discards : Frame → Option Int
  | receive f =>
      match f.pc.update with
      | some (.free i _) => some i
      | _ => none
  | _ => none

/-- Only receivers change the text of the device. -/
def OnlyUpdated (i : Int) : Guard (DeviceState τ) (DeviceEvent τ) :=
  fun _ st e =>
    ∀ t external access,
      e = .base (.run t external)
      → (st.base.thread t).frame.device = some access
      → access.texts = some i
      → (st.base.thread t).frame.receiving = true

/-- The device has its text, and nobody is reading it. -/
def DeviceState.Rests (st : DeviceState τ) (i : Int) : Prop :=
  st.base.kernel.dm.Intact i
  ∧ ∀ t, (st.frame t).readsText ≠ some i

/-- A receiver frees a text only when no reader is copying it, and a reader loads the pointer only
while no receiver stands between the freeing of the old text and the assignment of the new one.
-/
def WaitsForReaders : Guard (DeviceState τ) (DeviceEvent τ) :=
  fun _ st e =>
    (∀ t external i,
        e = .base (.run t external)
        → (st.base.thread t).frame.discards = some i
        → ∀ u j b,
            (st.frame u).copies = some (j, b) → st.base.kernel.dm.content i ≠ some b)
    ∧ ∀ t external i,
        e = .run t external
        → (st.frame t).dereferences = some i
        → ∀ u text, (st.base.thread u).frame.assigns ≠ some (i, text)

/-- In its read-side section since the text was the one of the device. -/
abbrev PublishedTo (t : τ) (i : Int) (text : Text)
    : History (DeviceState τ) (DeviceEvent τ) → Prop :=
  Since (fun _ st _ => (st.frame t).inSection = true)
    fun _ st _ => (st.frame t).inSection = true ∧ st.base.kernel.dm.text i = some text

/-- The readers of a device copy a published text from a buffer in use. -/
structure TextPublication (h : History (DeviceState τ) (DeviceEvent τ)) (st : DeviceState τ)
    (i : Int)
    : Prop where
  /-- No reader copies from a freed buffer. -/
  copies
    : ∀ {t b},
        (st.frame t).copies = some (i, b) → (st.base.kernel.dm.buffer b).freed = false
  /-- A reader has one text, published at some moment of its read-side section. -/
  obtains
    : ∀ {t copied},
        (st.frame t).obtains = some (i, copied)
        → ∃ text : Text, copied = text.lines 32 ∧ PublishedTo t i text h

variable [DecidableEq τ] {strlen : List (Option Nat) → Nat}
  {h : History (DeviceState τ) (DeviceEvent τ)} {st st' : DeviceState τ} {e : DeviceEvent τ}
  {t : τ} {i : Int}

-----------------------------------------------------------------------------------------
-- The invariant
-----------------------------------------------------------------------------------------

/-- A reader that is copying has so far the first lines of a text that is in its buffer and was
published to it; no other device has this buffer.
-/
structure Copying (h : History (DeviceState τ) (DeviceEvent τ)) (st : DeviceState τ) (t : τ)
    (f : ReadFrame) (i : Int) (b : Nat) (text : Text)
    : Prop where
  buffer : st.base.kernel.dm.buffer b = ⟨some text, false⟩
  bound : b < st.base.kernel.dm.buffers
  own : ∀ {j}, st.base.kernel.dm.content j = some b → j = i
  short : f.copied.length < 32
  lines : f.copied = text.lines f.copied.length
  published : PublishedTo t i text h

/-- The text of the device is there, or a receiver is about to assign the next one; and what
readers have copied was published to them.
-/
structure Readable (h : History (DeviceState τ) (DeviceEvent τ)) (st : DeviceState τ) (i : Int)
    : Prop where
  there
    : st.base.kernel.dm.Intact i
      ∨ ∃ t text, (st.base.thread t).frame.assigns = some (i, text)
  copying
    : ∀ {t f b},
        st.frame t = .reading f → f.pc = .copy i b → ∃ text, Copying h st t f i b text
  done
    : ∀ {t copied},
        (st.frame t).obtains = some (i, copied)
        → ∃ text : Text, copied = text.lines 32 ∧ PublishedTo t i text h

/-- The devices never share a buffer. -/
theorem separate_devices {G : Guard (DeviceState τ) (DeviceEvent τ)}
    (run : (charDevices τ strlen).Run G h st)
    : st.base.kernel.dm.Separate := by
  refine run.invariant (P := fun _ st => st.base.kernel.dm.Separate) ⟨nofun, nofun⟩ ?_
  intro h st e st' _ x _ step
  rcases memory_of_step step with ⟨e₀, rfl, inner⟩ | ⟨same, -, -⟩
  · rw [dm_of_step inner]
    split
    · exact x.access _
    · exact x
  · refine ⟨?_, ?_⟩
    · rw [same.content, same.buffers]
      exact x.bound
    · rw [same.content]
      exact x.apart

/-- A reader has copied nothing before it has loaded the pointer. -/
theorem blank_run {G : Guard (DeviceState τ) (DeviceEvent τ)}
    (run : (charDevices τ strlen).Run G h st)
    : ∀ {t f},
        st.frame t = .reading f
        → (f.pc = .rcuLock ∨ f.pc = .tag ∨ ∃ i, f.pc = .pointer i)
        → f.copied = [] := by
  refine run.invariant
    (P := fun _ st => ∀ {t f},
      st.frame t = .reading f
      → (f.pc = .rcuLock ∨ f.pc = .tag ∨ ∃ i, f.pc = .pointer i)
      → f.copied = [])
    (fun here => by cases here) ?_
  intro h st e st' before blank _ step t f' after early
  cases driverTurn_of_step step t with
  | rest _ frame => exact blank (frame.symm.trans after) early
  | out frame => cases frame.symm.trans after
  | opening frame => cases frame.symm.trans after
  | enter _ _ frame =>
      cases frame.symm.trans after
      rfl
  | @move external f f'' event here move frame =>
      cases frame.symm.trans after
      have old := blank here
      generalize point : f.pc = pc at move old
      cases move
      case rcuLock => exact old (.inl rfl)
      case tag => exact old (.inr (.inl rfl))
      case copy =>
        simp only [ReadFrame.copyLine] at early
        split at early <;> rcases early with early | early | ⟨_, early⟩ <;> cases early
      all_goals rcases early with early | early | ⟨_, early⟩ <;> cases early

-----------------------------------------------------------------------------------------
-- Steps of the module
-----------------------------------------------------------------------------------------

omit [DecidableEq τ] in
theorem update_of_discards {frame : Frame} (discards : frame.discards = some i)
    : ∃ f text, frame = .receive f ∧ f.pc.update = some (.free i text) := by
  cases frame with
  | receive f =>
      simp only [Frame.discards] at discards
      split at discards
      · next point =>
          cases discards
          exact ⟨f, _, rfl, point⟩
      · cases discards
  | _ => cases discards

omit [DecidableEq τ] in
/-- Receivers change a text by freeing it and by assigning the next one. -/
theorem access_of_receiving {frame : Frame} {access : DeviceAccess}
    (receiving : frame.receiving = true) (touches : TextAccess frame i access)
    : (access = .freeText i ∧ frame.discards = some i)
      ∨ ∃ text, access = .storeText i text ∧ frame.assigns = some (i, text) := by
  cases frame with
  | receive f =>
      cases touches with
      | erect erects => cases erects
      | clear lost =>
          obtain ⟨_, here, -⟩ := noContent_of_lost lost
          cases here
      | write filling => cases filling
      | fell fells => cases fells
      | free here point =>
          cases here
          refine .inl ⟨rfl, ?_⟩
          simp only [Frame.discards, point]
      | assign assigns => exact .inr ⟨_, rfl, assigns⟩
  | _ => cases receiving

/-- The buffer of a reader is kept as it is by every step of the module. -/
theorem Copying.base {e₀ : Event τ} {base : State τ} {f : ReadFrame} {b : Nat} {text : Text}
    (copies : Copying h st t f i b text) (copying : (st.frame t).copies = some (i, b))
    (inSection : (st.frame t).inSection = true) (quiet : OnlyUpdated i h st (.base e₀))
    (waits : WaitsForReaders h st (.base e₀)) (step : st.base.step e₀ = some base)
    (same : st'.base = base)
    : Copying ((st, .base e₀) :: h) st' t f i b text := by
  obtain ⟨buffer, bound, own, short, lines, published⟩ := copies
  subst same
  have dm := dm_of_step step
  cases device : st.base.device e₀ with
  | none =>
      rw [device] at dm
      dsimp only at dm
      rw [← dm] at buffer bound own
      exact ⟨buffer, bound, own, short, lines, .later published inSection⟩
  | some access =>
      rw [device] at dm
      have kept := DevManager.buffer_access (a := access) bound fun j changes found => by
        obtain rfl := own found
        have texts : access.texts = some j := by
          rcases changes with rfl | ⟨text, rfl⟩ <;> rfl
        cases e₀ with
        | run u external =>
            have receiving := quiet u external access rfl device texts
            rcases access_of_receiving receiving (textAccess_of_device device texts) with
              ⟨-, discards⟩ | ⟨text, rfl, -⟩
            · exact waits.1 u external j rfl discards t j b copying found
            · rcases changes with change | ⟨_, change⟩ <;> cases change
        | _ => cases device
      dsimp only at dm
      rw [← dm] at kept
      obtain ⟨sameBuffer, bound', own'⟩ := kept
      exact ⟨sameBuffer.trans buffer, bound', fun found => own (own' _ found), short, lines,
        .later published inSection⟩

/-- The text is there or about to be assigned, as long as only receivers change it, by cases on
who has it.
-/
theorem there_of_step {st st' : State τ} {e : Event τ} (separate : st.kernel.dm.Separate)
    (step : st.step e = some st')
    (quiet
      : ∀ t external access,
          e = .run t external
          → (st.thread t).frame.device = some access
          → access.texts = some i
          → (st.thread t).frame.receiving = true)
    (there : st.kernel.dm.Intact i ∨ ∃ t text, (st.thread t).frame.assigns = some (i, text))
    : st'.kernel.dm.Intact i ∨ ∃ t text, (st'.thread t).frame.assigns = some (i, text) := by
  have stored {t external text} (event : e = .run t external)
      (assigns : (st.thread t).frame.assigns = some (i, text))
      : st'.kernel.dm.Intact i := by
    subst event
    have page := page_of_access (i := i) step (device_of_assigns assigns).1
    rw [DevManager.page_access separate] at page
    exact ⟨text, page.trans (if_pos rfl)⟩
  rcases there with text | ⟨t, text, assigns⟩
  · rcases page_of_step separate step i with same | ⟨u, external, access, event, device, touches⟩
    · obtain ⟨text, found⟩ := text
      exact .inl ⟨text, same.trans found⟩
    · have texts : access.texts = some i := by cases touches <;> rfl
      rcases access_of_receiving (quiet u external access event device texts) touches with
        ⟨-, discards⟩ | ⟨text, -, assigns⟩
      · obtain ⟨f, text, here, point⟩ := update_of_discards discards
        subst event
        exact .inr ⟨u, text, assigns_of_free step here point⟩
      · exact .inl (stored event assigns)
  · by_cases own : ∃ external, e = .run t external
    · obtain ⟨external, event⟩ := own
      exact .inl (stored event assigns)
    · have thread := thread_of_other step (not_exists.mp own) (device_of_assigns assigns).2
      exact .inr ⟨t, text, thread ▸ assigns⟩

-----------------------------------------------------------------------------------------
-- Steps of the readers
-----------------------------------------------------------------------------------------

omit [DecidableEq τ] in
theorem readsText_of_obtains {frame : DeviceFrame} {copied : List (Option Nat)}
    (obtains : frame.obtains = some (i, copied))
    : frame.readsText = some i := by
  cases frame with
  | reading f =>
      simp only [DeviceFrame.obtains] at obtains
      split at obtains
      · next point =>
          cases obtains
          simp only [DeviceFrame.readsText, point]
      · cases obtains
  | _ => cases obtains

theorem reading_of_copies {frame : DeviceFrame} {b : Nat} (copies : frame.copies = some (i, b))
    : ∃ f, frame = .reading f ∧ f.pc = .copy i b := by
  cases frame with
  | reading f =>
      simp only [DeviceFrame.copies] at copies
      split at copies
      · next point =>
          cases copies
          exact ⟨f, rfl, point⟩
      · cases copies
  | _ => cases copies

theorem inSection_of_obtains {frame : DeviceFrame} {copied : List (Option Nat)}
    (obtains : frame.obtains = some (i, copied))
    : frame.inSection = true := by
  cases frame with
  | reading f =>
      simp only [DeviceFrame.obtains] at obtains
      split at obtains
      · next point => simp only [DeviceFrame.inSection, point]
      · cases obtains
  | _ => cases obtains

omit [DecidableEq τ] in
/-- A step of a reader leaves the buffers as they are. -/
theorem Copying.memory {f : ReadFrame} {b : Nat} {text : Text} (copies : Copying h st t f i b text)
    (inSection : (st.frame t).inSection = true)
    (same : st.base.kernel.SameMemory st'.base.kernel)
    : Copying ((st, e) :: h) st' t f i b text := by
  obtain ⟨buffer, bound, own, short, lines, published⟩ := copies
  refine ⟨?_, ?_, ?_, short, lines, .later published inSection⟩
  · rw [same.buffer, buffer]
  · rwa [same.buffers]
  · rw [same.content]
    exact own

omit [DecidableEq τ] in
/-- A reader loads the pointer to a text that is there. -/
theorem Copying.start {f : ReadFrame} {b : Nat} (separate : st.base.kernel.dm.Separate)
    (intact : st.base.kernel.dm.Intact i) (found : st.base.kernel.dm.content i = some b)
    (inSection : (st.frame t).inSection = true) (blank : f.copied = [])
    (same : st.base.kernel.SameMemory st'.base.kernel)
    : ∃ text, Copying ((st, e) :: h) st' t f i b text := by
  obtain ⟨text, page⟩ := intact
  have buffer : st.base.kernel.dm.buffer b = ⟨some text, false⟩ := by
    simpa only [DevManager.page, found, Option.map_some, Option.some.injEq] using page
  refine ⟨text, ?_, ?_, ?_, ?_, ?_, .here ⟨inSection, ?_⟩⟩
  · rw [same.buffer, buffer]
  · rw [same.buffers]
    exact separate.bound found
  · intro j there
    rw [same.content] at there
    exact separate.apart there found
  · simp [blank]
  · simp [blank, Text.lines]
  · simp only [DevManager.text, found, Option.bind_some, buffer]

omit [DecidableEq τ] in
theorem Text.lines_succ (text : Text) (n : Nat)
    : text.lines (n + 1) = text.lines n ++ [some (text n)] := by
  simp [Text.lines, List.range_succ]

omit [DecidableEq τ] in
/-- The next line that a reader copies is the next line of its text. -/
theorem Copying.copyLine {f : ReadFrame} {b : Nat} {text : Text} (copies : Copying h st t f i b text)
    : (f.copyLine i b (st.base.kernel.dm.buffer b)).copied = text.lines (f.copied.length + 1) := by
  simp only [ReadFrame.copyLine, copies.buffer, Option.map_some]
  rw [Text.lines_succ, ← copies.lines]

/-- Every step keeps the text readable, by cases on whose step it is. -/
theorem Readable.step (x : Readable h st i) (separate : st.base.kernel.dm.Separate)
    (blank
      : ∀ {t f},
          st.frame t = .reading f
          → (f.pc = .rcuLock ∨ f.pc = .tag ∨ ∃ i, f.pc = .pointer i)
          → f.copied = [])
    (waits : WaitsForReaders h st e) (quiet : OnlyUpdated i h st e)
    (step : st.step strlen e = some st')
    : Readable ((st, e) :: h) st' i := by
  obtain ⟨there, copying, done⟩ := x
  have inSection {t f b} (here : st.frame t = .reading f) (point : f.pc = .copy i b)
      : (st.frame t).inSection = true := by
    rw [here]
    simp only [DeviceFrame.inSection, point]
  refine ⟨?_, ?_, ?_⟩
  · rcases memory_of_step step with ⟨e₀, rfl, inner⟩ | ⟨same, threads, -⟩
    · exact there_of_step separate inner (fun t external access event => by
        subst event
        exact quiet t external access rfl) there
    · rw [threads]
      have page : st'.base.kernel.dm.page i = st.base.kernel.dm.page i := by
        simp only [DevManager.page, same.content, same.buffer]
      rw [DevManager.Intact, page]
      exact there
  · intro t f' b after point
    have kept (here : st.frame t = .reading f') : ∃ text, Copying ((st, e) :: h) st' t f' i b text := by
      obtain ⟨text, copies⟩ := copying here point
      refine ⟨text, ?_⟩
      rcases memory_of_step step with ⟨e₀, rfl, inner⟩ | ⟨same, -, -⟩
      · refine copies.base ?_ (inSection here point) quiet waits inner rfl
        rw [here]
        simp only [DeviceFrame.copies, point]
      · exact copies.memory (inSection here point) same
    cases driverTurn_of_step step t with
    | rest _ frame => exact kept (frame.symm.trans after)
    | out frame => cases frame.symm.trans after
    | opening frame => cases frame.symm.trans after
    | enter _ _ frame => cases frame.symm.trans after; cases point
    | @move external f f'' event here move frame =>
        cases frame.symm.trans after
        subst event
        have same := memory_of_driver step fun _ same => by cases same
        have clear := blank here
        have pointing (loads : ∃ j, f.pc = .pointer j) : f.copied = [] := clear (.inr (.inr loads))
        generalize at_ : f.pc = pc at move pointing
        cases move
        case pointer j b' found =>
          cases point
          have intact : st.base.kernel.dm.Intact i := by
            refine there.resolve_right ?_
            rintro ⟨u, text, assigns⟩
            refine waits.2 t external i rfl ?_ u text assigns
            rw [here]
            simp only [DeviceFrame.dereferences, at_]
          refine Copying.start separate intact found ?_ (pointing ⟨i, rfl⟩) same
          rw [here]
          simp only [DeviceFrame.inSection, at_]
        case copy j b' =>
          simp only [ReadFrame.copyLine] at point
          split at point
          · next short =>
              cases point
              obtain ⟨text, copies⟩ := copying here at_
              obtain ⟨buffer, bound, own, -, -, published⟩ :=
                copies.memory (e := .run t external) (inSection here at_) same
              have lines := copies.copyLine
              have length : (text.lines (f.copied.length + 1)).length = f.copied.length + 1 := by
                simp [Text.lines]
              refine ⟨text, buffer, bound, own, ?_, ?_, published⟩
              · simp only [List.length_append, List.length_singleton, MAX_LEVELS] at short
                simp only [ReadFrame.copyLine, List.length_append, List.length_singleton]
                omega
              · rw [lines, length]
          · cases point
        all_goals cases point
  · intro t copied obtains
    have kept (here : (st.frame t).obtains = some (i, copied))
        : ∃ text : Text, copied = text.lines 32 ∧ PublishedTo t i text ((st, e) :: h) := by
      obtain ⟨text, lines, published⟩ := done here
      refine ⟨text, lines, .later published ?_⟩
      exact inSection_of_obtains here
    cases driverTurn_of_step step t with
    | rest _ frame => exact kept (frame ▸ obtains)
    | out frame => rw [frame] at obtains; cases obtains
    | opening frame => rw [frame] at obtains; cases obtains
    | enter _ _ frame => rw [frame] at obtains; cases obtains
    | @move external f f'' event here move frame =>
        rw [frame] at obtains
        generalize at_ : f.pc = pc at move
        cases move
        case copy j b' =>
          simp only [DeviceFrame.obtains, ReadFrame.copyLine] at obtains
          split at obtains
          · next point =>
              split at point
              · cases point
              · next long =>
                  cases point
                  cases obtains
                  obtain ⟨text, copies⟩ := copying here at_
                  have lines := copies.copyLine
                  have all : f.copied.length + 1 = 32 := by
                    have short := copies.short
                    simp only [List.length_append, List.length_singleton, MAX_LEVELS] at long
                    omega
                  rw [all] at lines
                  exact ⟨text, lines, .later copies.published (inSection here at_)⟩
          · cases obtains
        all_goals cases obtains

-----------------------------------------------------------------------------------------
-- The law
-----------------------------------------------------------------------------------------

/-- In every run in which receivers wait for the readers, no reader of a live device copies from
a freed buffer, and each has exactly one of the texts published while it was reading.
-/
theorem text_publication (run : (charDevices τ strlen).Run WaitsForReaders h st)
    (live
      : Since (OnlyUpdated i) (fun past st e => st.Rests i ∧ OnlyUpdated i past st e) h)
    : TextPublication h st i := by
  have readable : Readable h st i := by
    induction run with
    | start => cases live
    | @next h st e st' before waits step ih =>
        have blank := fun {t f} => blank_run before (t := t) (f := f)
        have separate := separate_devices before
        cases live with
        | here now =>
            obtain ⟨⟨intact, nobody⟩, quiet⟩ := now
            refine Readable.step ⟨.inl intact, ?_, ?_⟩ separate blank waits quiet step
            · intro t f b here point
              refine absurd ?_ (nobody t)
              rw [here]
              simp only [DeviceFrame.readsText, point]
            · intro t copied obtains
              exact absurd (readsText_of_obtains obtains) (nobody t)
        | later earlier quiet => exact (ih earlier).step separate blank waits quiet step
  refine ⟨fun {t b} copies => ?_, readable.done⟩
  obtain ⟨f, here, point⟩ := reading_of_copies copies
  obtain ⟨text, copies⟩ := readable.copying here point
  rw [copies.buffer]

-----------------------------------------------------------------------------------------
-- Runs of two threads
-----------------------------------------------------------------------------------------

/-- A thread opens a device and makes the first `n` steps of a read. -/
def reading {τ : Type} (t : τ) (minor : Int) (n : Nat) : List (DeviceEvent τ) :=
  .lookup t minor :: .run t 0 :: .read t 0 100 :: List.replicate n (.run t 0)

/-- The length of the text does not matter to these runs. -/
def anyLength (_ : List (Option Nat)) : Nat := 0

def waitsForReadersTest (st : DeviceState (Fin 2)) : DeviceEvent (Fin 2) → Bool
  | .base (.run t _) =>
      (st.base.thread t).frame.discards.all fun i =>
        (List.finRange 2).all fun u =>
          (st.frame u).copies.all fun from_ => st.base.kernel.dm.content i != some from_.2
  | .run t _ =>
      (st.frame t).dereferences.all fun i =>
        [0, 1].all fun u => (st.base.thread u).frame.assigns.all fun next => next.1 != i
  | _ => true

theorem waitsForReaders_of_test {h : History (DeviceState (Fin 2)) (DeviceEvent (Fin 2))}
    {st : DeviceState (Fin 2)} {e : DeviceEvent (Fin 2)} (passes : waitsForReadersTest st e = true)
    : WaitsForReaders h st e := by
  refine ⟨?_, ?_⟩
  · rintro t external i rfl discards
    intro u j b copies
    simp only [waitsForReadersTest, discards, Option.all_some] at passes
    have spared := List.all_eq_true.mp passes u (List.mem_finRange u)
    simpa only [copies, Option.all_some, bne_iff_ne] using spared
  · rintro t external i rfl dereferences
    intro u text assigns
    simp only [waitsForReadersTest, dereferences, Option.all_some] at passes
    have spared := List.all_eq_true.mp passes u (List.mem_finRange u)
    simp [assigns] at spared

def onlyUpdatedTest (i : Int) (st : DeviceState (Fin 2)) : DeviceEvent (Fin 2) → Bool
  | .base (.run t _) =>
      (((st.base.thread t).frame.device.bind DeviceAccess.texts) != some i)
      || (st.base.thread t).frame.receiving
  | _ => true

def restsTest (i : Int) (st : DeviceState (Fin 2)) : Bool :=
  ((st.base.kernel.dm.page i).any fun b => b.text.isSome && !b.freed)
  && (List.finRange 2).all fun t => (st.frame t).readsText != some i

/-- The history of a run in which nobody but receivers has touched the device since it rested. -/
theorem live_of_tests {h : History (DeviceState (Fin 2)) (DeviceEvent (Fin 2))} {i : Int}
    (passes
      : sinceTest (onlyUpdatedTest i) (fun st e => restsTest i st && onlyUpdatedTest i st e) h = true)
    : Since (OnlyUpdated i) (fun past st e => st.Rests i ∧ OnlyUpdated i past st e) h := by
  have updated {past st e} (passes : onlyUpdatedTest i st e = true) : OnlyUpdated i past st e := by
    rintro t external access rfl device texts
    simp only [onlyUpdatedTest, Bool.or_eq_true, bne_iff_ne] at passes
    exact passes.resolve_left (not_not_intro (by rw [device]; exact texts))
  refine (since_of_test passes).mono (fun _ _ _ => updated) fun past st e both => ?_
  obtain ⟨rests, quiet⟩ := Bool.and_eq_true_iff.mp both
  obtain ⟨text, nobody⟩ := Bool.and_eq_true_iff.mp rests
  simp only [List.all_eq_true, List.mem_finRange, true_imp_iff, bne_iff_ne] at nobody
  refine ⟨⟨?_, nobody⟩, updated quiet⟩
  obtain ⟨⟨text, freed⟩, page, facts⟩ := (Option.any_eq_true ..).mp text
  obtain ⟨written, unfreed⟩ := Bool.and_eq_true_iff.mp facts
  obtain ⟨text, rfl⟩ := Option.isSome_iff_exists.mp written
  obtain rfl : freed = false := by simpa using unfreed
  exact ⟨text, page⟩

/-- A thread reads the text while another one publishes the next, which it has then read. -/
theorem text_publication_of_reader
    : ∃ h st copied,
        (charDevices (Fin 2) anyLength).Run WaitsForReaders h st
        ∧ Since (OnlyUpdated 1) (fun past st e => st.Rests 1 ∧ OnlyUpdated 1 past st e) h
        ∧ (st.frame 1).obtains = some (1, copied)
        ∧ copied[3]? = some (some 1)
        ∧ ∃ text : Text, copied = text.lines 32 ∧ PublishedTo 1 1 text h := by
  obtain ⟨h, st, run, facts⟩ := Machine.Run.exists_of_replay
    (M := charDevices (Fin 2) anyLength) (G := fun _ st e => waitsForReadersTest st e = true)
    ((creating 0 1).map .base ++ reading 1 1 2
      ++ (.call 0 0 (.tagReceive 1 3 true 16) :: runs 0 15).map .base
      ++ List.replicate 33 (.run 1 0))
    (fun h st =>
      sinceTest (onlyUpdatedTest 1) (fun st e => restsTest 1 st && onlyUpdatedTest 1 st e) h
      && (st.frame 1).obtains.any fun from_ => from_.1 == 1 && from_.2[3]? == some (some 1))
    (by decide +kernel)
  obtain ⟨live, facts⟩ := Bool.and_eq_true_iff.mp facts
  obtain ⟨⟨j, copied⟩, obtains, facts⟩ := (Option.any_eq_true ..).mp facts
  obtain ⟨index, third⟩ := Bool.and_eq_true_iff.mp facts
  obtain rfl : j = 1 := eq_of_beq index
  have run : (charDevices (Fin 2) anyLength).Run WaitsForReaders h st :=
    run.mono fun _ _ _ passes => waitsForReaders_of_test passes
  have live := live_of_tests live
  exact ⟨h, st, copied, run, live, obtains, eq_of_beq third,
    (text_publication run live).obtains obtains⟩

/-- Without the condition a receiver frees the text while a reader copies it. -/
theorem text_freed_under_reader
    : ¬ ∀ (h : History (DeviceState (Fin 2)) (DeviceEvent (Fin 2))) (st : DeviceState (Fin 2))
        (i : Int),
        (charDevices (Fin 2) anyLength).Run anyStep h st
        → Since (OnlyUpdated i) (fun past st e => st.Rests i ∧ OnlyUpdated i past st e) h
        → TextPublication h st i := by
  intro always
  obtain ⟨h, st, run, facts⟩ := Machine.Run.exists_of_replay
    (M := charDevices (Fin 2) anyLength) (G := anyStep)
    ((creating 0 1).map .base ++ reading 1 1 3
      ++ (.call 0 0 (.tagReceive 1 3 true 16) :: runs 0 13).map .base)
    (fun h st =>
      sinceTest (onlyUpdatedTest 1) (fun st e => restsTest 1 st && onlyUpdatedTest 1 st e) h
      && (st.frame 1).copies == some (1, 0) && (st.base.kernel.dm.buffer 0).freed)
    (by decide +kernel)
  simp only [Bool.and_eq_true, beq_iff_eq] at facts
  obtain ⟨⟨live, copies⟩, freed⟩ := facts
  have unfreed := (always h st 1 run (live_of_tests live)).copies copies
  exact absurd (unfreed.symm.trans freed) (by decide)

end TagExchange
