import TagExchange.Protocol.Views

/-! The protocol's invariant: every mutex has one owner, the facts a view stands for are
true, and every mark in a service (a `READY` level, bytes, `awake_request`) belongs to the
owner of its mutex.
-/

namespace TagExchange.Protocol

open Concurrency

variable {τ : Type}

namespace Core

variable (c : Core τ)

def ready (s : Ref) (l : Int) : Bool := ((c.service s).level l).messageReady
def byte (s : Ref) (l : Int) (n : Nat) : UInt8 := ((c.service s).level l).message n
def awake (s : Ref) : Bool := (c.service s).awakeRequest
def doomed (s : Ref) : Bool := (c.service s).lazyDeleted

/-- A service that carries the tag `i`, in all its levels too. -/
def Tagged (s : Ref) (i : Int) : Prop :=
  s < c.services ∧ c.tag s = i ∧ ∀ l, ((c.service s).level l).tag = i

/-- What stays true of a pointer loaded from slot `i`. -/
def Known (s : Ref) (i : Int) : Prop :=
  c.Tagged s i ∧ (c.slot i = some s ∨ c.doomed s = true)

/-- Registered and not marked as deleted. -/
def Live (s : Ref) (i : Int) : Prop :=
  c.slot i = some s ∧ c.doomed s = false

/-- What a view may rely on. -/
def Fact : View → Prop
  | .outside | .owning _ => True
  | .known s i | .checking s i => c.Known s i
  | .inside s i => c.Live s i
  | .filling s i l => c.Live s i ∧ c.ready s l = false
  | .posted s i l => c.Live s i ∧ c.ready s l = true
  | .clearing s i l => c.Live s i ∧ c.ready s l = false
  | .waking s i => c.Live s i ∧ c.awake s = true
  | .deleting s i | .removing s i => c.slot i = some s ∧ c.doomed s = true
  | .unlinked s => s < c.services ∧ c.freed s = false ∧ c.doomed s = true ∧ ∀ i, c.slot i ≠ some s
  | .vacant i => c.slot i = none
  | .fresh s i =>
      c.Tagged s i ∧ c.freed s = false ∧ c.doomed s = false ∧ c.slot i = none
      ∧ ∀ j, c.slot j ≠ some s
  | .stray => False

/-- What a pending callback may rely on. -/
structure CallbackFact (b : Callback τ) : Prop where
  live : c.Live b.service (c.tag b.service)
  ready : ∀ {l}, b.job = .freeAfterSend l → (c.ready b.service l = true ↔ b.stage = .clear)
  awake : b.job = .resetAwakeCondition → (c.awake b.service = true ↔ b.stage = .clear)
  unlocks : ∀ {i}, b.stage = .unlock i → i = c.tag b.service

end Core

/-- The invariant of the protocol. -/
structure Safe (c : Core τ) (view : τ → View) : Prop where
  excl
    : Exclusive c.locked (fun t => (view t).lock) (c.callbacks.map fun b => c.tag b.service)
  slots : ∀ {i s}, c.slot i = some s → c.Tagged s i ∧ c.freed s = false
  fact : ∀ t, c.Fact (view t)
  unborn : ∀ {s}, c.services ≤ s → c.freed s = false
  remover : ∀ {t u s}, (view t).removes = some s → (view u).removes = some s → t = u
  callback : ∀ b ∈ c.callbacks, c.CallbackFact b
  ready
    : ∀ {s l},
        c.freed s = false
        → c.ready s l = true
        → (∃ t, (view t).posts = some (s, l)) ∨ ∃ b ∈ c.callbacks, posts b = some (s, l)
  awake
    : ∀ {s},
        c.freed s = false
        → c.awake s = true
        → (∃ t, (view t).wakes = some s) ∨ ∃ b ∈ c.callbacks, wakes b = some s
  bytes
    : ∀ {s l n},
        c.freed s = false
        → n < MAX_MESSAGE_SIZE
        → c.byte s l n ≠ 0
        → (∃ t, (view t).soils = some (s, l)) ∨ ∃ b ∈ c.callbacks, soils b = some (s, l)

-----------------------------------------------------------------------------------------
-- Reading views and callbacks
-----------------------------------------------------------------------------------------

theorem View.posts_eq_some {v : View} {s l} (h : v.posts = some (s, l))
    : ∃ i, v = .posted s i l := by
  cases v <;> simp [posts] at h ⊢
  exact h

theorem View.wakes_eq_some {v : View} {s} (h : v.wakes = some s) : ∃ i, v = .waking s i := by
  cases v <;> simp [wakes] at h ⊢
  exact h

theorem View.soils_eq_some {v : View} {s l} (h : v.soils = some (s, l))
    : ∃ i, v = .filling s i l ∨ v = .posted s i l ∨ v = .clearing s i l := by
  cases v <;> simp [soils] at h ⊢
  all_goals exact h

theorem posts_service {b : Callback τ} {s l} (h : posts b = some (s, l)) : b.service = s := by
  unfold posts at h
  split at h <;> simp_all

theorem soils_service {b : Callback τ} {s l} (h : soils b = some (s, l)) : b.service = s := by
  unfold soils at h
  split at h <;> simp_all

theorem wakes_service {b : Callback τ} {s} (h : wakes b = some s) : b.service = s := by
  unfold wakes at h
  split at h <;> simp_all

end TagExchange.Protocol
