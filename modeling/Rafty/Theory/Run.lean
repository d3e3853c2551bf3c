/-
# Rafty.Theory.Run — finite runs of a partial step machine

A `Machine` is a predicate on starting states and a partial, executable step
function; `none` means that the input is not enabled.  A `Run` keeps every state
it passes through, so that a statement about the past ("at some earlier step") is
a statement about an index and needs no history variable in the state.

* `Run.invariant` packages the induction over the steps, and `Run.history` the one
  whose step may use every earlier state;
* `Run.related` packages it for a reflexive and transitive relation between
  earlier and later (a counter that only grows, a list that only extends);
* `Run.count` counts the inputs of a kind;
* `Run.of` turns a list of inputs that the machine accepts into a run, and
  `Machine.Takes` chains such lists.
-/
import Mathlib.Data.Nat.Init
import Mathlib.Data.List.Basic
import Mathlib.Tactic.Common

namespace Rafty.Theory

set_option autoImplicit false

universe u v

/-- Starting states and a partial step function. -/
structure Machine (σ : Type u) (ι : Type v) where
  init : σ → Prop
  step : σ → ι → Option σ

namespace Machine

variable {σ : Type u} {ι : Type v} (M : Machine σ ι)

/-- The state after a list of inputs, if the machine accepts all of them. -/
def exec (s : σ) : List ι → Option σ
  | [] => some s
  | i :: is => (M.step s i).bind fun s' => exec s' is

theorem exec_append (s : σ) (first second : List ι) :
    M.exec s (first ++ second) = (M.exec s first).bind fun s' => M.exec s' second := by
  induction first generalizing s with
  | nil => rfl
  | cons i is ih =>
      simp only [List.cons_append, exec, Option.bind_assoc]
      exact congrArg _ (funext fun s' => ih s')

/-- A prefix of an accepted list of inputs is accepted. -/
theorem exec_take {s : σ} {inputs : List ι} (accepted : (M.exec s inputs).isSome) (k : Nat) :
    (M.exec s (inputs.take k)).isSome := by
  rw [← List.take_append_drop k inputs, exec_append] at accepted
  cases taken : M.exec s (inputs.take k) with
  | none => simp [taken] at accepted
  | some _ => rfl

/-- The machine accepts the inputs in state `s`, and they lead to `s'`. -/
def Takes (s : σ) (inputs : List ι) (s' : σ) : Prop := M.exec s inputs = some s'

variable {M} {s s' s'' : σ}

theorem Takes.single {i : ι} (steps : M.step s i = some s') : M.Takes s [i] s' := by
  rw [Takes, exec, steps]
  rfl

theorem Takes.append {first second : List ι} (before : M.Takes s first s')
    (after : M.Takes s' second s'') : M.Takes s (first ++ second) s'' := by
  rw [Takes, exec_append, before]
  exact after

theorem Takes.cons {i : ι} {rest : List ι} (before : M.Takes s [i] s')
    (after : M.Takes s' rest s'') : M.Takes s (i :: rest) s'' :=
  before.append after

theorem Takes.isSome {inputs : List ι} (takes : M.Takes s inputs s') : (M.exec s inputs).isSome :=
  Option.isSome_of_eq_some takes

end Machine

/-- A run of `length` steps: the states it passes and the inputs it takes. -/
structure Run {σ : Type u} {ι : Type v} (M : Machine σ ι) where
  length : Nat
  state : Nat → σ
  input : Nat → ι
  start : M.init (state 0)
  next : ∀ k, k < length → M.step (state k) (input k) = some (state (k + 1))

namespace Run

variable {σ : Type u} {ι : Type v} {M : Machine σ ι} (R : Run M)

/-- What holds at the start and is kept by every step holds at every index. -/
theorem invariant {P : Nat → Prop} (base : P 0) (keep : ∀ k, k < R.length → P k → P (k + 1)) :
    ∀ k, k ≤ R.length → P k := by
  intro k
  induction k with
  | zero => exact fun _ => base
  | succ k ih => exact fun bound => keep k bound (ih (Nat.le_of_lt bound))

/-- What a step carries over from the states before it, latest or not, holds at every
index. -/
theorem history {P : Nat → Prop} (base : P 0)
    (keep : ∀ k, k < R.length → (∀ j, j ≤ k → P j) → P (k + 1)) : ∀ k, k ≤ R.length → P k := by
  intro k bound
  apply R.invariant (P := fun k => ∀ j, j ≤ k → P j) ?_ ?_ k bound k (Nat.le_refl k)
  · intro j zero
    rw [Nat.le_zero.mp zero]
    exact base
  · intro k within ih j le
    by_cases before : j ≤ k
    · exact ih j before
    · rw [show j = k + 1 by omega]
      exact keep k within ih

/-- What every step relates, a whole stretch of a run relates. -/
theorem related {α : Type*} {r : α → α → Prop} (f : Nat → α) (refl : ∀ x, r x x)
    (trans : ∀ x y z, r x y → r y z → r x z) (single : ∀ k, k < R.length → r (f k) (f (k + 1)))
    {k m : Nat} (le : k ≤ m) (bound : m ≤ R.length) : r (f k) (f m) := by
  induction m, le using Nat.le_induction with
  | base => exact refl _
  | succ m _ ih => exact trans _ _ _ (ih (by omega)) (single m bound)

/-- What does not hold at the start and holds later came about at some step. -/
theorem exists_step {P : σ → Prop} (base : ∀ s, M.init s → ¬ P s) {k : Nat} (now : P (R.state k)) :
    ∃ j, j < k ∧ ¬ P (R.state j) ∧ P (R.state (j + 1)) := by
  induction k with
  | zero => exact absurd now (base _ R.start)
  | succ k ih =>
      by_cases before : P (R.state k)
      · obtain ⟨j, lt, step⟩ := ih before
        exact ⟨j, by omega, step⟩
      · exact ⟨k, by omega, before, now⟩

/-- How many of the first `k` inputs are of the kind `p`. -/
def count (p : ι → Prop) [DecidablePred p] : Nat → Nat
  | 0 => 0
  | k + 1 => count p k + if p (R.input k) then 1 else 0

theorem count_mono (p : ι → Prop) [DecidablePred p] {k m : Nat} (le : k ≤ m) :
    R.count p k ≤ R.count p m := by
  induction m, le using Nat.le_induction with
  | base => exact Nat.le_refl _
  | succ m _ ih => exact Nat.le_trans ih (Nat.le_add_right _ _)

/-- Inputs of two kinds that exclude each other are at most all inputs. -/
theorem count_add_le {p q : ι → Prop} [DecidablePred p] [DecidablePred q]
    (apart : ∀ i, p i → ¬ q i) (k : Nat) : R.count p k + R.count q k ≤ k := by
  induction k with
  | zero => exact Nat.le_refl _
  | succ k ih =>
      simp only [count]
      by_cases isP : p (R.input k)
      · rw [if_pos isP, if_neg (apart _ isP)]
        omega
      · rw [if_neg isP]
        split <;> omega

/-- The run that takes an accepted list of inputs. -/
def of [Inhabited ι] (M : Machine σ ι) (s : σ) (inputs : List ι) (start : M.init s)
    (accepted : (M.exec s inputs).isSome) : Run M where
  length := inputs.length
  state k := (M.exec s (inputs.take k)).getD s
  input k := inputs.getD k default
  start := by simpa [Machine.exec] using start
  next k bound := by
    obtain ⟨now, atNow⟩ := Option.isSome_iff_exists.mp (M.exec_take accepted k)
    obtain ⟨after, atAfter⟩ := Option.isSome_iff_exists.mp (M.exec_take accepted (k + 1))
    have split : inputs.take (k + 1) = inputs.take k ++ [inputs[k]] := by
      rw [List.take_append_getElem]
    have stepped : M.exec now [inputs[k]] = some after := by
      rw [split, M.exec_append, atNow] at atAfter
      exact atAfter
    have single : M.step now inputs[k] = some after := by
      simpa [Machine.exec] using stepped
    simpa [atNow, atAfter, List.getD_eq_getElem?_getD, bound] using single

variable [Inhabited ι] {s s' : σ} {before rest : List ι} {start : M.init s}
  {accepted : (M.exec s (before ++ rest)).isSome}

theorem state_of (takes : M.Takes s before s') :
    (of M s (before ++ rest) start accepted).state before.length = s' := by
  change (M.exec s (List.take before.length (before ++ rest))).getD s = s'
  rw [List.take_left, takes]
  rfl

theorem input_of {i : ι} {accepted : (M.exec s (before ++ i :: rest)).isSome} :
    (of M s (before ++ i :: rest) start accepted).input before.length = i := by
  change (before ++ i :: rest).getD before.length default = i
  simp

end Run

end Rafty.Theory
