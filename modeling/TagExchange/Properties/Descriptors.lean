import TagExchange.Properties.Linearization

/-! What a tag descriptor is good for: from its creation on it stands for the same service, until
somebody who may use the service removes it.
-/

namespace TagExchange

open Concurrency Naming

variable {τ : Type} [DecidableEq τ] {h : History (State τ) (Event τ)} {st st' : State τ} {t : τ}
  {i euid v : Int} {c : Syscall} {s : Registration} {external : Nat}

/-- The call is about the service with this tag: it opens a key that leads there, or uses the tag. -/
def Syscall.addresses (i : Int) : Syscall → Prop
  | tagGet key command _ => command = OPEN_TAG ∧ key ≠ IPC_PRIVATE ∧ hashFunction key = i
  | tagSend tag _ _ _ | tagReceive tag _ _ _ | tagCtl tag _ => tag = i

/-- A receiver that gives no buffer. -/
def Syscall.lacksBuffer : Syscall → Bool
  | tagReceive _ _ buffer _ => !buffer
  | _ => false

/-- The service has been entered under this tag before the thread's present call, and since then
nobody who may use it has condemned it.
-/
def Lasting (h : History (State τ) (Event τ)) (i : Int) (s : Registration) (t : τ) (n : Nat) : Prop :=
  Since (fun _ st₁ e₁ => ∀ u, s.admits u = true → st₁.change e₁ ≠ some (.condemn i u))
    (fun _ st₁ e₁ => st₁.change e₁ = some (.enter i s) ∧ (st₁.thread t).calls < n) h

/-- The tag still stands for the service. -/
theorem Lasting.live {n : Nat} (run : (machine τ).Run Unheld h st) (lasting : Lasting h i s t n)
    : st.entries i = .live s := by
  have entered
      : Since (fun _ _ c => ∀ u, s.admits u = true → c ≠ .condemn i u) (fun _ _ c => c = .enter i s)
          (seen State.entries State.change h) := by
    refine Since.seen (fun _ _ _ holds => ⟨_, holds.1, rfl⟩) ?_ lasting
    rintro _ st₁ e₁ change spared sees u admitted rfl
    exact spared u admitted sees
  exact live_of_since (refines_registry.run run) entered

omit [DecidableEq τ] in
/-- What the registry answers to a call about a service in use. -/
theorem answer_of_live {r : Int → Entry Registration} {change : Option (Change Int Registration Int)}
    (index : 0 ≤ i) (live : r i = .live s) (addressed : c.addresses i)
    (answers : Answers r euid change c v)
    : v ≠ -EBADF ∧ v ≠ -EBADR ∧ (v = -EACCES → s.admits euid = false ∨ c.lacksBuffer = true) := by
  have here {j : Int} {entry : Entry Registration} (same : j = i) (there : r j = entry)
      : entry = .live s := by
    rw [← there, same, live]
  have other {w : Int} (apart : w ≠ -EBADF ∧ w ≠ -EBADR ∧ w ≠ -EACCES)
      : w ≠ -EBADF ∧ w ≠ -EBADR ∧ (w = -EACCES → s.admits euid = false ∨ c.lacksBuffer = true) :=
    ⟨apart.1, apart.2.1, fun same => absurd same apart.2.2⟩
  rcases answers with ⟨-, outcome⟩ | ⟨-, -, rfl⟩
  swap
  · exact other (by decide)
  cases outcome with
  | created | taken | noMemory => exact absurd addressed.1 (by decide)
  | opened =>
      rw [addressed.2.2]
      simp only [EBADF, EBADR, EACCES]
      omega
  | openDenied _ live' denied =>
      obtain rfl := Entry.live.inj (here addressed.2.2 live')
      exact ⟨by decide, by decide, fun _ => .inl denied⟩
  | unknown absent =>
      rcases absent with unnamed | absent
      · exact absurd unnamed addressed.2.1
      · exact absurd live (addressed.2.2 ▸ absent s)
  | sent =>
      unfold sendResult
      split <;> exact other (by decide)
  | sendDenied live' denied =>
      obtain rfl := Entry.live.inj (here addressed live')
      exact ⟨by decide, by decide, fun _ => .inl denied⟩
  | notSent absent | notReceived absent => exact absurd live (addressed ▸ absent s)
  | received x => cases x <;> exact other (by decide)
  | receiveDenied live' denied =>
      obtain rfl := Entry.live.inj (here addressed live')
      refine ⟨by decide, by decide, fun _ => denied.imp_right fun nowhere => ?_⟩
      rw [nowhere]
      rfl
  | removed | awoken | attended => exact other (by decide)
  | ctlDenied live' denied =>
      obtain rfl := Entry.live.inj (here addressed live')
      exact ⟨by decide, by decide, fun _ => .inl denied⟩
  | ctlDying dying => cases here addressed dying
  | ctlAbsent free => cases here addressed free

/-- A call that begins after a service has been entered, and returns before anybody who may use the
service has condemned it, finds it: it fails neither with `-EBADF` nor with `-EBADR`, and with
`-EACCES` only where its user may not use the service or gives no buffer.
-/
theorem descriptor_lasts (run : (machine τ).Run Unheld h st) (index : 0 ≤ i)
    (lasting : Lasting h i s t (st.thread t).calls)
    (call : (st.thread t).frame.syscall = some (euid, c)) (addressed : c.addresses i)
    (step : st.step (.run t external) = some st')
    (returned : (st'.thread t).frame = .user (some v))
    : v ≠ -EBADF ∧ v ≠ -EBADR ∧ (v = -EACCES → s.admits euid = false ∨ c.lacksBuffer = true) := by
  obtain ⟨answered, -, -⟩ := linearizable run call step returned
  -- The service has been entered before the moment of the answer.
  have later := answered.since run (fun {past st₁ e₁} before entered during => ?_) lasting
  · obtain ⟨m, st₁, e₁, here, ⟨-, -, answers⟩, entered⟩ := later.moment
    exact answer_of_live index (Lasting.live (run.moment here).1 entered) addressed answers
  · obtain ⟨m, st₂, e₂, here, calls, -⟩ := Once.moment during
    have older : (st₂.thread t).calls ≤ (st₁.thread t).calls := by
      rcases List.mem_cons.mp (List.mem_of_getElem? here) with same | earlier
      · obtain ⟨rfl, -⟩ := Prod.mk.inj same
        exact Nat.le_refl _
      · exact calls_le_of_mem before earlier
    have entered := entered.2
    omega

/-- A service is entered and found by the sender who comes later. -/
theorem descriptor_lasts_of_sender
    : ∃ h st st',
        (machine (Fin 2)).Run Unheld h st
        ∧ st.step (.run 1 0) = some st'
        ∧ (st'.thread 1).frame = .user (some 0)
        ∧ (0 : Int) ≠ -EBADF := by
  obtain ⟨h, st, run, facts⟩ := Machine.Run.exists_of_replay
    (M := machine (Fin 2)) (G := Unreused)
    (creating 0 1 ++ sending 1 1 3 [104, 105] 16)
    (fun h (st : State (Fin 2)) =>
      decide ((st.thread 1).frame.syscall = some (0, .tagSend 1 3 [104, 105] 2))
      && (st.step (.run 1 0)).any (fun st' => (st'.thread 1).frame.result == some 0)
      && sinceTest (fun (st₁ : State (Fin 2)) e₁ => decide (st₁.change e₁ = none))
        (fun st₁ e₁ =>
          decide (st₁.change e₁ = some (.enter 1 ⟨1, EVERYONE, 0⟩)
            ∧ (st₁.thread 1).calls < (st.thread 1).calls)) h)
    (by decide +kernel)
  have run := Unreused.unheld run
  simp only [Bool.and_eq_true] at facts
  obtain ⟨⟨call, returns⟩, since⟩ := facts
  obtain ⟨st', step, result⟩ := (Option.any_eq_true _ _).mp returns
  have lasting : Lasting h 1 ⟨1, EVERYONE, 0⟩ 1 (st.thread 1).calls := by
    refine (since_of_test since).mono (fun _ st₁ e₁ quiet u _ condemned => ?_) fun _ st₁ e₁ entered =>
      of_decide_eq_true entered
    cases (of_decide_eq_true quiet).symm.trans condemned
  have returned := Frame.eq_user_of_result (eq_of_beq result)
  exact ⟨h, st, st', run, step, returned,
    (descriptor_lasts run (by decide) lasting (of_decide_eq_true call) rfl step returned).1⟩

end TagExchange
