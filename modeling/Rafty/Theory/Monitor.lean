/-
# Rafty.Theory.Monitor — threads that wait on condition variables

A monitor is a machine whose sections run under one mutex.  A thread may be blocked in a
wait: the wait has a predicate, and a condition variable on which it is notified.  A
section may notify any of the variables, and then everybody who waits on it is woken.
Waits end only when their predicate holds; they may look at any time.

A wakeup is lost when a thread stays blocked although its predicate holds and nobody
notified it since it began to hold.  If nobody begins to wait for what already holds, no
wakeup is lost exactly if every section that makes the predicate of a blocked thread true
notifies its variable (`noLostWakeup_iff`).
-/
import Rafty.Theory.Run

namespace Rafty.Theory

set_option autoImplicit false

universe u v

/-- A machine with blocked threads.  `notifies s i c`: the section `i`, run in the state
`s`, notifies everybody who waits on `c`. -/
structure Monitor (σ : Type u) (ι : Type v) (τ ω κ : Type*) extends Machine σ ι where
  waiting : σ → τ → Option ω
  ready : ω → σ → Prop
  condition : ω → κ
  notifies : σ → ι → κ → Prop

namespace Monitor

variable {σ : Type u} {ι : Type v} {τ ω κ : Type*} (M : Monitor σ ι τ ω κ)

/-- Nobody begins to wait for what holds. -/
structure WaitsInNeed : Prop where
  init : ∀ s, M.init s → ∀ t w, M.waiting s t = some w → ¬ M.ready w s
  step : ∀ s i s', M.step s i = some s' → ∀ t w, M.waiting s' t = some w →
    M.waiting s t ≠ some w → ¬ M.ready w s'

variable {M} (R : Run M.toMachine)

/-- The thread was notified at some step, and from then on it has been blocked in `w` and the
predicate has held. -/
def NotifiedSince (k : Nat) (t : τ) (w : ω) : Prop :=
  ∃ j, j < k ∧ M.notifies (R.state j) (R.input j) (M.condition w) ∧
    (∀ i, j ≤ i → i ≤ k → M.waiting (R.state i) t = some w) ∧
    ∀ i, j < i → i ≤ k → M.ready w (R.state i)

/-- Every thread that is blocked although its predicate holds was notified since then. -/
def NoLostWakeup : Prop :=
  ∀ k, k ≤ R.length → ∀ t w, M.waiting (R.state k) t = some w → M.ready w (R.state k) →
    NotifiedSince R k t w

/-- Every step that makes the predicate of a blocked thread true notifies its variable. -/
def Rouses : Prop :=
  ∀ k, k < R.length → ∀ t w, M.waiting (R.state k) t = some w →
    M.waiting (R.state (k + 1)) t = some w → ¬ M.ready w (R.state k) →
      M.ready w (R.state (k + 1)) → M.notifies (R.state k) (R.input k) (M.condition w)

variable {R}

/-- A notification goes on to count while the thread is blocked and its predicate holds. -/
theorem NotifiedSince.succ {k : Nat} {t : τ} {w : ω} (notified : NotifiedSince R k t w)
    (blocked : M.waiting (R.state (k + 1)) t = some w) (ready : M.ready w (R.state (k + 1))) :
    NotifiedSince R (k + 1) t w := by
  obtain ⟨j, lt, notifies, waiting, holds⟩ := notified
  refine ⟨j, by omega, notifies, ?_, ?_⟩
  · intro i low high
    rcases Nat.lt_or_eq_of_le high with before | rfl
    · exact waiting i low (by omega)
    · exact blocked
  · intro i low high
    rcases Nat.lt_or_eq_of_le high with before | rfl
    · exact holds i low (by omega)
    · exact ready

/-- **No wakeup is lost** exactly if whoever makes a predicate true notifies. -/
theorem noLostWakeup_iff (inNeed : M.WaitsInNeed) : NoLostWakeup R ↔ Rouses R := by
  constructor
  · intro none k within t w before after notYet now
    obtain ⟨j, lt, notifies, -, holds⟩ := none (k + 1) within t w after now
    -- the predicate does not hold at `k`, so the notification is not from before
    have last : j = k := by
      by_contra other
      exact notYet (holds k (by omega) (Nat.le_succ k))
    exact last ▸ notifies
  · intro rouses k bound
    apply R.invariant (P := fun k => ∀ t w, M.waiting (R.state k) t = some w →
      M.ready w (R.state k) → NotifiedSince R k t w) ?_ ?_ k bound
    · intro t w blocked ready
      exact absurd ready (inNeed.init _ R.start t w blocked)
    · intro k within ih t w after now
      by_cases before : M.waiting (R.state k) t = some w
      · by_cases held : M.ready w (R.state k)
        · exact (ih t w before held).succ after now
        · refine ⟨k, Nat.lt_succ_self k, rouses k within t w before after held now, ?_, ?_⟩
          · intro i low high
            rcases Nat.lt_or_eq_of_le high with earlier | rfl
            · rwa [show i = k by omega]
            · exact after
          · intro i low high
            rwa [show i = k + 1 by omega]
      · exact absurd now (inNeed.step _ _ _ (R.next k within) t w after before)

end Monitor

end Rafty.Theory
