/-
# Rafty.Theory.Divergence — where two matching logs part

The common prefix of two lists (`commonPrefix`) is, for logs that match, exactly the
range of positions at which they show one key (`key_eq_iff`).  So one party can find the
other's point of divergence by comparing keys alone.

It need not go back one entry at a time.  From a position at which the keys differ,
with `y` the other party's entry there, one step may skip all of one's own entries with
a key above that of `y` (`commonPrefix_le_last`); if one has no entry with the key of `y` at
all, it may skip all the other party's entries with that key (`commonPrefix_le_first`).
Neither step goes below the common prefix.
-/
import Rafty.Theory.Ledger

namespace Rafty.Theory

set_option autoImplicit false

universe u v

variable {α : Type u} {κ : Type v}

section CommonPrefix

variable [DecidableEq α]

/-- The length of the longest common prefix. -/
def commonPrefix : List α → List α → Nat
  | x :: l, y :: m => if x = y then commonPrefix l m + 1 else 0
  | _, _ => 0

theorem lt_commonPrefix_iff {l m : List α} {i : Nat} :
    i < commonPrefix l m ↔ i < l.length ∧ l.take (i + 1) = m.take (i + 1) := by
  induction l generalizing m i with
  | nil => simp [commonPrefix]
  | cons x l ih =>
      cases m with
      | nil => simp [commonPrefix]
      | cons y m =>
          rw [commonPrefix, List.take_succ_cons, List.take_succ_cons, List.cons.injEq]
          by_cases same : x = y
          · cases i with
            | zero => simp [same]
            | succ i => simp [same, ih]
          · simp [same]

variable {l m : List α}

/-- Below the common prefix both lists show one entry. -/
theorem getElem?_of_lt {i : Nat} (inside : i < commonPrefix l m) :
    ∃ x, l[i]? = some x ∧ m[i]? = some x := by
  obtain ⟨bound, agree⟩ := lt_commonPrefix_iff.mp inside
  have atL : l[i]? = some l[i] := List.getElem?_eq_getElem bound
  have shown : (l.take (i + 1))[i]? = some l[i] := by
    rw [List.getElem?_take_of_lt (Nat.lt_succ_self i), atL]
  rw [agree, List.getElem?_take_of_lt (Nat.lt_succ_self i)] at shown
  exact ⟨l[i], atL, shown⟩

theorem commonPrefix_le_right : commonPrefix l m ≤ m.length := by
  by_contra longer
  obtain ⟨x, -, atM⟩ := getElem?_of_lt (not_le.mp longer)
  rw [List.getElem?_eq_none le_rfl] at atM
  cases atM

/-- Lists that agree up to `n` share that much. -/
theorem le_commonPrefix {n : Nat} (bound : n ≤ l.length) (agree : l.take n = m.take n) :
    n ≤ commonPrefix l m := by
  cases n with
  | zero => exact Nat.zero_le _
  | succ n => exact lt_commonPrefix_iff.mpr ⟨bound, agree⟩

/-- **Matching logs show one key exactly where they agree.** -/
theorem key_eq_iff {key : α → κ} (matching : Matching key l m) {i : Nat} {x y : α}
    (atL : l[i]? = some x) (atM : m[i]? = some y) : key x = key y ↔ i < commonPrefix l m := by
  constructor
  · intro same
    exact lt_commonPrefix_iff.mpr
      ⟨(List.getElem?_eq_some_iff.mp atL).1, matching i x y atL atM same⟩
  · intro inside
    obtain ⟨z, inL, inM⟩ := getElem?_of_lt inside
    rw [Option.some.inj (atL.symm.trans inL), Option.some.inj (atM.symm.trans inM)]

end CommonPrefix

/-- In a sorted log earlier keys are not above later ones. -/
theorem key_le_of_sorted [Preorder κ] {key : α → κ} {l : List α}
    (sorted : l.Pairwise fun a b => key a ≤ key b) {i j : Nat} {x y : α} (le : i ≤ j)
    (at_i : l[i]? = some x) (at_j : l[j]? = some y) : key x ≤ key y := by
  obtain ⟨boundI, rfl⟩ := List.getElem?_eq_some_iff.mp at_i
  obtain ⟨boundJ, rfl⟩ := List.getElem?_eq_some_iff.mp at_j
  rcases Nat.lt_or_eq_of_le le with lt | rfl
  · exact List.pairwise_iff_getElem.mp sorted i j boundI boundJ lt
  · exact le_rfl

/-! ## Going back -/

section Backup

variable [DecidableEq α] {key : α → κ} {l m : List α} {n : Nat} {y : α}

/-- Behind the last own entry with the key of `y`, the logs have parted. -/
theorem commonPrefix_le_last [PartialOrder κ] (sortedL : l.Pairwise fun a b => key a ≤ key b)
    (sortedM : m.Pairwise fun a b => key a ≤ key b) (at_n : m[n]? = some y)
    (parted : commonPrefix l m ≤ n) {j : Nat} {x : α} (at_j : l[j]? = some x)
    (same : key x = key y)
    (last : ∀ i z, l[i]? = some z → j < i → i ≤ n → key z ≠ key y) :
    commonPrefix l m ≤ j + 1 := by
  by_contra longer
  -- the last common entry lies between the two entries with the key of `y`
  have inside : commonPrefix l m - 1 < commonPrefix l m := by omega
  obtain ⟨z, atL, atM⟩ := getElem?_of_lt inside
  have above := key_le_of_sorted sortedL (show j ≤ commonPrefix l m - 1 by omega) at_j atL
  have below := key_le_of_sorted sortedM (show commonPrefix l m - 1 ≤ n by omega) atM at_n
  exact last _ z atL (by omega) (by omega) (le_antisymm below (same ▸ above))

/-- Without an own entry with the key of `y`, the logs have parted before the other's
entries with that key. -/
theorem commonPrefix_le_first {s : Nat} (le : s ≤ n)
    (absent : ∀ i z, l[i]? = some z → i ≤ n → key z ≠ key y)
    (stretch : ∀ i z, m[i]? = some z → s ≤ i → i ≤ n → key z = key y) :
    commonPrefix l m ≤ s := by
  by_contra longer
  obtain ⟨z, atL, atM⟩ := getElem?_of_lt (not_le.mp longer)
  exact absent s z atL le (stretch s z atM le_rfl le)

end Backup

end Rafty.Theory
