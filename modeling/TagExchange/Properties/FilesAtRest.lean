import TagExchange.Properties.PrintedTables
import TagExchange.Properties.RegistryRefinement

/-! What a file shows when no receiver has still to rewrite it: the key and the owner of the
registered service, and how many threads are waiting on each of its levels.
-/

namespace TagExchange

open Concurrency CStrings

variable {τ : Type} {i : Int} {s : Ref}

-----------------------------------------------------------------------------------------
-- The service that a device was filled for
-----------------------------------------------------------------------------------------

/-- The step completes the table of the device for the service. -/
def FillsFor (i : Int) (s : Ref) : Guard (State τ) (Event τ) :=
  fun _ st e =>
    ∃ t external line,
      e = .run t external
      ∧ (st.thread t).frame.printsLast = some line
      ∧ line.device = i
      ∧ line.service = s

/-- The runs in which no receiver prints an old counter over a newer one, and all that is printed
fits its line.
-/
def Legible [DecidableEq τ] : Guard (State τ) (Event τ) :=
  fun h st e => UpToDate h st e ∧ LinesFit h st e

variable [DecidableEq τ] {found : Nat → FoundMemory} {h : History (State τ) (Event τ)}
  {st st' : State τ} {e : Event τ}

theorem Legible.upToDate (run : (machine τ).Run Legible h st) : (machine τ).Run UpToDate h st :=
  run.mono fun _ _ _ ok => ok.1

theorem Legible.printing (run : (machine τ).Run Legible h st) : (machine τ).Run Printing h st :=
  run.mono fun _ _ _ ok => ⟨ok.1.1, ok.2⟩

/-- A service that has not been freed has been registered as it is since the device was filled for
it, by induction on what came later.
-/
theorem registration_of_filled {R : Guard (State τ) (Event τ)} (run : (machine τ).Run Unheld h st)
    (filled : Since R (FillsFor i s) h) (unfreed : st.kernel.freed s = false)
    : s < st.kernel.services
      ∧ Since R
          (fun past st₀ e₀ =>
            FillsFor i s past st₀ e₀
            ∧ (st₀.kernel.service s).registration = (st.kernel.service s).registration) h := by
  induction run with
  | start => cases filled
  | @next h st e st' before ok step ih =>
      have step : st.step e = some st' := step
      have grows := services_of_step step
      have early := unfreed_of_step step unfreed
      have kept := kept_of_unfreed step early
      cases filled with
      | here now =>
          obtain ⟨t, external, line, rfl, prints, device, rfl⟩ := now
          have pointed : line.service ∈ (st.thread t).frame.pointers := by
            obtain ⟨f, here, inside, -⟩ := creator_of_printsLast prints
            rw [here]
            simp [Frame.pointers, CreateDevicePc.pointers, inside]
          have born := pointers_born before t line.service pointed
          exact ⟨Nat.lt_of_lt_of_le born grows,
            .here ⟨⟨t, external, line, rfl, prints, device, rfl⟩,
              (registration_of_step step born kept).symm⟩⟩
      | later earlier unfilled =>
          obtain ⟨born, since⟩ := ih earlier early
          have same := registration_of_step step born kept
          refine ⟨Nat.lt_of_lt_of_le born grows, .later (since.mono ?_ ?_) unfilled⟩
          · exact fun _ _ _ unfilled => unfilled
          · exact fun _ _ _ both => ⟨both.1, both.2.trans same.symm⟩

/-- The label of a table is the service that the device was last filled for. -/
theorem label_of_filled {key euid : Int} (run : (machine τ).Run Unheld h st)
    (filled : Since (Unfilled i) (FillsFor i s) h) (unfreed : st.kernel.freed s = false)
    (labelled : LastFilled i key euid h)
    : (st.kernel.service s).key = key ∧ (st.kernel.service s).ownerEuid = euid := by
  obtain ⟨-, registered⟩ := registration_of_filled run filled unfreed
  have both := Since.both (fun _ _ _ unfilled fills => ?_) (fun _ _ _ unfilled fills => ?_)
    registered labelled
  · obtain ⟨m, st₀, e₀, -, ⟨⟨t, external, line, event, prints, -, rfl⟩, same⟩, u, external', line',
      event', prints', -, keyed, owned⟩ := both.once.moment
    obtain ⟨rfl, -⟩ := Event.run.inj (event.symm.trans event')
    obtain rfl := Option.some.inj (prints.symm.trans prints')
    exact ⟨(congrArg Registration.key same).symm.trans keyed,
      (congrArg Registration.owner same).symm.trans owned⟩
  · obtain ⟨⟨t, external, line, event, prints, device, -⟩, -⟩ := fills
    exact unfilled t external line event prints device
  · obtain ⟨t, external, line, event, prints, device, -⟩ := fills
    exact unfilled t external line event prints device

-----------------------------------------------------------------------------------------
-- At rest
-----------------------------------------------------------------------------------------

omit [DecidableEq τ] in
theorem isLevel_of_mem {l : Int} (member : l ∈ levels) : IsLevel l := by
  obtain ⟨n, below, rfl⟩ := List.mem_map.mp member
  exact ⟨Int.natCast_nonneg n, Int.ofNat_lt.mpr (List.mem_range.mp below)⟩

omit [DecidableEq τ] in
/-- Only the counters of the levels are printed. -/
theorem render_congr {key euid : Int} {text text' : Text} (same : ∀ l, IsLevel l → text l = text' l)
    : render key euid text = render key euid text' := by
  refine congrArg (header ++ ·) (List.flatMap_congr fun l member => ?_)
  rw [same l (isLevel_of_mem member)]

/-- In every interleaving in which no receiver prints an old counter over a newer one, the file of the
service that the device was last filled for, once its counters have been right, is character by
character the header and, for every level, the line with the key and the owner of the service and a
number: that of the threads waiting on that level, unless a thread has still to rewrite it.
-/
theorem file_shows_service (zeroed : ∀ n, (found n).Zeroed) (run : (machine τ).Run Legible h st)
    (live
      : Since (Undisturbed i) (fun past st e => st.Truthful i s ∧ Undisturbed i past st e) h)
    (filled : Since (Unfilled i) (FillsFor i s) h)
    : ∃ b content text,
        st.kernel.dm.content i = some b
        ∧ (blocks found h).buffer b = some content
        ∧ Holds content
            (render (st.kernel.service s).key (st.kernel.service s).ownerEuid text)
        ∧ ∀ l,
            IsLevel l
            → (∀ t, (st.thread t).frame.refreshing ≠ some (s, l))
            → text l = st.waiting s l := by
  have upToDate := Legible.upToDate run
  obtain ⟨slot, text, shown, prints⟩ := told_of_truthful upToDate live
  have unheld := UpToDate.unheld upToDate
  obtain ⟨b, points, holds⟩ := Option.bind_eq_some_iff.mp shown
  obtain ⟨key, euid, content, labelled, -, stored, table⟩ :=
    (wellPrinted_run zeroed (Legible.printing run)).stored points holds
  obtain ⟨rfl, rfl⟩ := label_of_filled unheld filled ((homes_run unheld).slot slot).2 labelled
  exact ⟨b, content, text, points, stored, table, fun l inRange rest =>
    (prints l inRange).resolve_right (not_owed rest)⟩

-----------------------------------------------------------------------------------------
-- A run of two threads
-----------------------------------------------------------------------------------------

def fillsForTest (i : Int) (s : Ref) (st : State τ) : Event τ → Bool
  | .run t _ => (st.thread t).frame.printsLast.any fun line => line.device == i && line.service == s
  | _ => false

def unfilledTest (i : Int) (st : State τ) : Event τ → Bool
  | .run t _ => (st.thread t).frame.printsLast.all fun line => line.device != i
  | _ => true

omit [DecidableEq τ] in
theorem filled_of_test (passes : sinceTest (unfilledTest i) (fillsForTest i s) h = true)
    : Since (Unfilled i) (FillsFor i s) h := by
  refine (since_of_test passes).mono (fun _ st e unfilled => ?_) fun _ st e fills => ?_
  · rintro t external line rfl prints device
    simp [unfilledTest, prints, device] at unfilled
  · cases e with
    | run t external =>
        obtain ⟨line, prints, same⟩ := (Option.any_eq_true _ _).mp fills
        rw [Bool.and_eq_true, beq_iff_eq, beq_iff_eq] at same
        exact ⟨t, external, line, rfl, prints, same.1, same.2⟩
    | _ => cases fills

/-- A thread sleeps on level 3 of a service with the key 1, and the file says so. -/
theorem file_shows_service_of_sleeper
    : ∃ (found : Nat → FoundMemory) (h : History (State (Fin 2)) (Event (Fin 2)))
        (st : State (Fin 2)) (b : Nat) (content : Block),
        (machine (Fin 2)).Run Legible h st
        ∧ st.waiting 0 3 = 1
        ∧ st.kernel.dm.content 1 = some b
        ∧ (blocks found h).buffer b = some content
        ∧ Holds content (render 1 0 (st.waiting 0)) := by
  obtain ⟨h, st, run, facts⟩ := Machine.Run.exists_of_replay
    (M := machine (Fin 2)) (G := fun h st e => upToDateTest st e = true ∧ LinesFit h st e)
    (creating 0 1 ++ fallingAsleep 1 1 3)
    (fun h st =>
      sinceTest (undisturbedTest 1) (fun st e => truthfulTest 1 0 st && undisturbedTest 1 st e) h
      && sinceTest (unfilledTest 1) (fillsForTest 1 0) h
      && decide (∀ t, (st.thread t).frame.refreshing = none)
      && decide (st.waiting 0 3 = 1)
      && decide ((st.kernel.service 0).key = 1 ∧ (st.kernel.service 0).ownerEuid = 0))
    (by decide +kernel)
  simp only [Bool.and_eq_true, decide_eq_true_eq] at facts
  obtain ⟨⟨⟨⟨live, filled⟩, nobody⟩, waiting⟩, key, owner⟩ := facts
  have legible : (machine (Fin 2)).Run Legible h st :=
    (upToDate_of_test (fun _ _ _ ok => ok.1) run).both (run.mono fun _ _ _ ok => ok.2)
  obtain ⟨b, content, text, points, stored, table, shows_⟩ :=
    file_shows_service (fun _ => clearMemory_zeroed) legible (live_of_test live)
      (filled_of_test filled)
  rw [key, owner, render_congr fun l inRange => shows_ l inRange fun t same => by
    cases (nobody t).symm.trans same] at table
  exact ⟨_, h, st, b, content, legible, waiting, points, stored, table⟩

end TagExchange
