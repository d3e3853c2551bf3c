/-
# Rafty.Theory.Reach — what a machine can still do

`Reaches P s s'`: from `s` the machine can come to `s'` by steps that `P` allows, each in
the state in which it is taken.  A run that is cut at one of its states and goes on from
there another way is a run again (`Run.exists_extension`), so what holds of all runs holds
of everything that can still happen.
-/
import Rafty.Theory.Run
import Mathlib.Logic.Relation

namespace Rafty.Theory

set_option autoImplicit false

universe u v

variable {σ : Type u} {ι : Type v} {M : Machine σ ι} {P Q : σ → ι → Prop} {s s' s'' : σ} {k : Nat}

namespace Machine

/-- The machine comes from `s` to `s'` by steps that `P` allows. -/
def Reaches (M : Machine σ ι) (P : σ → ι → Prop) : σ → σ → Prop :=
  Relation.ReflTransGen fun s s' => ∃ i, P s i ∧ M.step s i = some s'

theorem Reaches.refl (s : σ) : M.Reaches P s s := Relation.ReflTransGen.refl

theorem Reaches.trans (first : M.Reaches P s s') (second : M.Reaches P s' s'') :
    M.Reaches P s s'' := Relation.ReflTransGen.trans first second

theorem Reaches.single {i : ι} (takes : M.Takes s [i] s') (allowed : P s i) :
    M.Reaches P s s' := by
  refine Relation.ReflTransGen.single ⟨i, allowed, ?_⟩
  simpa [Takes, exec] using takes

theorem Reaches.mono (reaches : M.Reaches P s s') (allowed : ∀ s i, P s i → Q s i) :
    M.Reaches Q s s' := by
  induction reaches with
  | refl => exact .refl s
  | tail _ last ih =>
      obtain ⟨i, allows, step⟩ := last
      exact Relation.ReflTransGen.tail ih ⟨i, allowed _ i allows, step⟩

/-- What every allowed step keeps. -/
theorem Reaches.invariant {I : σ → Prop} (reaches : M.Reaches P s s')
    (keep : ∀ s i s', P s i → M.step s i = some s' → I s → I s') (before : I s) : I s' := by
  induction reaches with
  | refl => exact before
  | tail _ last ih =>
      obtain ⟨i, allowed, step⟩ := last
      exact keep _ i _ allowed step ih

/-- The inputs of the steps, which `P` allowed whatever the state. -/
theorem Reaches.takes {allowed : ι → Prop} (reaches : M.Reaches P s s')
    (always : ∀ s i, P s i → allowed i) :
    ∃ inputs, (∀ i ∈ inputs, allowed i) ∧ M.Takes s inputs s' := by
  induction reaches with
  | refl => exact ⟨[], by simp, rfl⟩
  | tail _ last ih =>
      obtain ⟨inputs, all, takes⟩ := ih
      obtain ⟨i, allows, step⟩ := last
      refine ⟨inputs ++ [i], ?_, takes.append (.single step)⟩
      intro j member
      rcases List.mem_append.mp member with before | now
      · exact all j before
      · rw [List.mem_singleton.mp now]
        exact always _ i allows

end Machine

/-- The run goes on to `s'` from state `k` of `R`: up to there it is unchanged, and `P` allows
every later step. -/
structure Extension (R R' : Run M) (k : Nat) (P : σ → ι → Prop) (s' : σ) : Prop where
  le : k ≤ R'.length
  state : ∀ j, j ≤ k → R'.state j = R.state j
  input : ∀ j, j < k → R'.input j = R.input j
  allowed : ∀ j, k ≤ j → j < R'.length → P (R'.state j) (R'.input j)
  last : R'.state R'.length = s'

/-- The run up to its state `k`. -/
def Run.upTo (R : Run M) (bound : k ≤ R.length) : Run M :=
  { R with
    length := k
    next := fun j within => R.next j (Nat.lt_of_lt_of_le within bound) }

/-- The run with one more step. -/
def Run.extend (R : Run M) {i : ι} (stepped : M.step (R.state R.length) i = some s') : Run M where
  length := R.length + 1
  state j := if j ≤ R.length then R.state j else s'
  input j := if j < R.length then R.input j else i
  start := by simpa using R.start
  next j within := by
    by_cases before : j < R.length
    · have inside : j + 1 ≤ R.length := before
      simpa [before, Nat.le_of_lt before, inside] using R.next j before
    · have isLast : j = R.length := by omega
      have beyond : ¬ R.length + 1 ≤ R.length := by omega
      simpa [isLast, beyond] using stepped

/-- **A run can go on from any of its states** in every way the machine can. -/
theorem Run.exists_extension (R : Run M) (bound : k ≤ R.length)
    (reaches : M.Reaches P (R.state k) s') : ∃ R' : Run M, Extension R R' k P s' := by
  induction reaches with
  | refl =>
      refine ⟨R.upTo bound, Nat.le_refl k, fun _ _ => rfl, fun _ _ => rfl, ?_, rfl⟩
      intro j low high
      exact absurd high (Nat.not_lt.mpr low)
  | @tail s s' _ last ih =>
      obtain ⟨R₁, before⟩ := ih
      obtain ⟨i, allowed, step⟩ := last
      refine ⟨R₁.extend (before.last ▸ step), Nat.le_succ_of_le before.le, ?_, ?_, ?_, ?_⟩
      · intro j le
        exact (if_pos (Nat.le_trans le before.le)).trans (before.state j le)
      · intro j lt
        exact (if_pos (Nat.lt_of_lt_of_le lt before.le)).trans (before.input j lt)
      · intro j low high
        change P (if j ≤ R₁.length then R₁.state j else s')
          (if j < R₁.length then R₁.input j else i)
        rw [if_pos (Nat.lt_succ_iff.mp high)]
        by_cases earlier : j < R₁.length
        · rw [if_pos earlier]
          exact before.allowed j low earlier
        · have isLast : j = R₁.length := by
            have := Nat.lt_succ_iff.mp high
            omega
          rw [if_neg earlier, isLast, before.last]
          exact allowed
      · exact if_neg (by simp [Run.extend])

end Rafty.Theory
