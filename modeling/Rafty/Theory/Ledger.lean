/-
# Rafty.Theory.Ledger — logs whose entries carry the key of their author

A log is a list of entries, each with a key (a term, an epoch, a view).  For every
key there is at most one author, and what the author held under that key forms a
chain of prefixes (`Chained`).  A log is `Authored` when each of its prefixes was
held by the author of the prefix's last entry.

* `Authored.matching`: two authored logs that show one key at one index agree up
  to that index (Log Matching);
* `overwrite` is the receiver's splice: keep what agrees, cut at the first entry
  with another key, append the rest.  Fed with a segment of a matching source it
  leaves the log alone or installs the source (`overwrite_cases`);
* `prefix_of_upToDate`: a log whose (last key, length) is not below that of a log
  holding a prefix holds that prefix too, given that the authors of later keys
  hold it.
-/
import Mathlib.Data.List.Infix
import Mathlib.Data.List.Pairwise
import Mathlib.Order.Lattice
import Mathlib.Tactic.Common

namespace Rafty.Theory

set_option autoImplicit false

universe u v

variable {α : Type u} {κ : Type v}

/-! ## Prefixes -/

/-- Prefixes of two members of one chain are ordered by their lengths. -/
theorem prefix_of_chain {p q L M : List α} (pL : p <+: L) (qM : q <+: M)
    (comparable : L <+: M ∨ M <+: L) (le : p.length ≤ q.length) : p <+: q := by
  rcases comparable with h | h
  · exact List.prefix_of_prefix_length_le (pL.trans h) qM le
  · exact List.prefix_of_prefix_length_le pL (qM.trans h) le

theorem comparable_of_chain {p q L M : List α} (pL : p <+: L) (qM : q <+: M)
    (comparable : L <+: M ∨ M <+: L) : p <+: q ∨ q <+: p := by
  rcases le_total p.length q.length with h | h
  · exact Or.inl (prefix_of_chain pL qM comparable h)
  · exact Or.inr (prefix_of_chain qM pL comparable.symm h)

theorem take_eq_of_prefix {p l : List α} (h : p <+: l) : l.take p.length = p :=
  (List.prefix_iff_eq_take.mp h).symm

theorem getElem?_extend {p l : List α} (h : p <+: l) {i : Nat} {x : α} (at_i : p[i]? = some x) :
    l[i]? = some x := by
  obtain ⟨rest, rfl⟩ := h
  have bound : i < p.length := (List.getElem?_eq_some_iff.mp at_i).1
  rw [List.getElem?_append_left bound, at_i]

/-- Numbering keeps prefixes. -/
theorem mapIdx_prefix {β : Type*} {f : Nat → α → β} {p l : List α} (h : p <+: l) :
    p.mapIdx f <+: l.mapIdx f := by
  obtain ⟨rest, rfl⟩ := h
  rw [List.mapIdx_append]
  exact List.prefix_append _ _

/-! ## Authors -/

/-- Two logs that show one key at one index agree up to that index. -/
def Matching (key : α → κ) (l m : List α) : Prop :=
  ∀ i x y, l[i]? = some x → m[i]? = some y → key x = key y → l.take (i + 1) = m.take (i + 1)

theorem Matching.symm {key : α → κ} {l m : List α} (matching : Matching key l m) :
    Matching key m l := by
  intro i x y atM atL same
  exact (matching i y x atL atM same.symm).symm

/-- Checked index by index. -/
theorem Matching.of_checked {key : α → κ} {l m : List α}
    (checked : ∀ i < l.length, l[i]?.map key = m[i]?.map key → l.take (i + 1) = m.take (i + 1)) :
    Matching key l m := by
  intro i x y atL atM same
  apply checked i (List.getElem?_eq_some_iff.mp atL).1
  rw [atL, atM, Option.map_some, Option.map_some, same]

/-- A prefix of a log matches it. -/
theorem Matching.of_take (key : α → κ) (l : List α) (n : Nat) : Matching key (l.take n) l := by
  intro i x y atTake _ _
  have inside := (List.getElem?_eq_some_iff.mp atTake).1
  rw [List.length_take] at inside
  rw [List.take_take, Nat.min_eq_left (by omega)]

/-- What was held under one key forms a chain. -/
def Chained (held : κ → List α → Prop) : Prop :=
  ∀ t L M, held t L → held t M → L <+: M ∨ M <+: L

/-- Every prefix of the log was held by the author of its last entry. -/
def Authored (key : α → κ) (held : κ → List α → Prop) (l : List α) : Prop :=
  ∀ i x, l[i]? = some x → ∃ L, held (key x) L ∧ l.take (i + 1) <+: L

section Authored

variable {key : α → κ} {held : κ → List α → Prop} {l m : List α}

theorem Authored.nil : Authored key held [] := fun _ _ impossible => by simp at impossible

/-- An author that appends under its own key keeps its log authored. -/
theorem Authored.concat {e : α} (h : Authored key held l) (own : held (key e) (l ++ [e])) :
    Authored key held (l ++ [e]) := by
  intro i x at_i
  by_cases inside : i < l.length
  · rw [List.getElem?_append_left inside] at at_i
    obtain ⟨L, inHeld, isPrefix⟩ := h i x at_i
    exact ⟨L, inHeld, by rwa [List.take_append_of_le_length inside]⟩
  · rw [List.getElem?_append_right (not_lt.mp inside)] at at_i
    have isE : x = e := by
      have := List.mem_of_getElem? at_i
      simpa using this
    exact ⟨l ++ [e], isE ▸ own, List.take_prefix _ _⟩

/-- **Log Matching.**  Both prefixes were held by one author, so they lie on one
chain, and they have one length. -/
theorem Authored.matching (chained : Chained held) (hl : Authored key held l)
    (hm : Authored key held m) : Matching key l m := by
  intro i x y atL atM same
  obtain ⟨L, inL, preL⟩ := hl i x atL
  obtain ⟨M, inM, preM⟩ := hm i y atM
  have lengths : (l.take (i + 1)).length = (m.take (i + 1)).length := by
    have := (List.getElem?_eq_some_iff.mp atL).1
    have := (List.getElem?_eq_some_iff.mp atM).1
    simp only [List.length_take]; omega
  have comparable := chained _ L M inL (same ▸ inM)
  exact (prefix_of_chain preL preM comparable lengths.le).eq_of_length lengths

end Authored

/-! ## The receiver's splice -/

section Overwrite

variable [DecidableEq κ] (key : α → κ)

/-- Write `batch` over `log` from position `pos` on: an entry with the same key is
kept, the first entry with another key is cut off together with everything after
it, and what is left of the batch is appended. -/
def overwrite (log : List α) (pos : Nat) : List α → List α
  | [] => log
  | e :: es =>
      match log[pos]? with
      | some x => if key x = key e then overwrite log (pos + 1) es else log.take pos ++ e :: es
      | none => log ++ e :: es

/-- The keys after a splice: the log's own, or those below the splice point
followed by those of the batch. -/
theorem overwrite_keys (log : List α) (pos : Nat) (batch : List α) (le : pos ≤ log.length) :
    overwrite key log pos batch = log ∨
      (overwrite key log pos batch).map key = (log.take pos).map key ++ batch.map key := by
  induction batch generalizing pos with
  | nil => exact Or.inl rfl
  | cons e es ih =>
      simp only [overwrite]
      split
      · rename_i x atPos
        obtain ⟨inside, isX⟩ := List.getElem?_eq_some_iff.mp atPos
        split
        · rename_i same
          rcases ih (pos + 1) inside with kept | spliced
          · exact Or.inl kept
          · refine Or.inr (spliced.trans ?_)
            rw [List.take_succ_eq_append_getElem inside, isX]
            simp [same]
        · exact Or.inr (by simp)
      · rename_i beyond
        have atEnd : log.length ≤ pos := List.getElem?_eq_none_iff.mp beyond
        exact Or.inr (by simp [List.take_of_length_le atEnd])

variable {key}

/-- A splice without a conflict below `i` keeps the first `i` entries. -/
theorem overwrite_keeps {log : List α} {i : Nat} {batch : List α} {pos : Nat}
    (inside : pos ≤ log.length)
    (agree : ∀ m x y, log[pos + m]? = some x → batch[m]? = some y → pos + m < i → key x = key y) :
    log.take i <+: overwrite key log pos batch := by
  induction batch generalizing pos with
  | nil => exact List.take_prefix _ _
  | cons e es ih =>
      simp only [overwrite]
      split
      · rename_i x atPos
        obtain ⟨bound, -⟩ := List.getElem?_eq_some_iff.mp atPos
        split
        · apply ih bound
          intro m x y atX atY below
          have shift : pos + 1 + m = pos + (m + 1) := by omega
          exact agree (m + 1) x y (shift ▸ atX) (by simpa using atY) (by omega)
        · rename_i differ
          have above : i ≤ pos := by
            by_contra below
            exact differ (agree 0 x e atPos rfl (by omega))
          exact (List.take_prefix_take_left above).trans (List.prefix_append _ _)
      · exact (List.take_prefix _ _).trans (List.prefix_append _ _)

/-- What is in the log after a splice was in it, or is in the batch. -/
theorem mem_overwrite {log : List α} {pos : Nat} {batch : List α} {e : α}
    (member : e ∈ overwrite key log pos batch) : e ∈ log ∨ e ∈ batch := by
  induction batch generalizing pos with
  | nil => exact Or.inl member
  | cons x xs ih =>
      simp only [overwrite] at member
      split at member
      · split at member
        · exact (ih member).imp_right (List.mem_cons_of_mem x)
        · exact (List.mem_append.mp member).imp_left List.mem_of_mem_take
      · exact List.mem_append.mp member

/-- The length after a splice: at least to the end of the batch, and not beyond the end
of both. -/
theorem length_overwrite {log : List α} {pos : Nat} {batch : List α} (inside : pos ≤ log.length) :
    pos + batch.length ≤ (overwrite key log pos batch).length ∧
      (overwrite key log pos batch).length ≤ max log.length (pos + batch.length) := by
  induction batch generalizing pos with
  | nil => simp [overwrite, inside]
  | cons e es ih =>
      simp only [overwrite, List.length_cons]
      split
      · rename_i x atPos
        obtain ⟨bound, -⟩ := List.getElem?_eq_some_iff.mp atPos
        split
        · have next : pos + 1 ≤ log.length := bound
          have later := ih next
          omega
        · simp only [List.length_append, List.length_take, List.length_cons]
          omega
      · rename_i beyond
        have atEnd : log.length ≤ pos := List.getElem?_eq_none_iff.mp beyond
        simp only [List.length_append, List.length_cons]
        omega

/-- After a splice with a conflict the log ends with the batch. -/
theorem length_overwrite_of_conflict {log : List α} {m : Nat} {x y : α} {batch : List α} {pos : Nat}
    (atX : log[pos + m]? = some x) (atY : batch[m]? = some y) (differ : key x ≠ key y) :
    (overwrite key log pos batch).length = pos + batch.length := by
  induction batch generalizing pos m with
  | nil => simp at atY
  | cons e es ih =>
      have inside : pos + m < log.length := (List.getElem?_eq_some_iff.mp atX).1
      simp only [overwrite, List.length_cons]
      split
      · rename_i z atPos
        split
        · rename_i same
          cases m with
          | zero =>
              rw [Nat.add_zero, atPos] at atX
              simp only [List.getElem?_cons_zero, Option.some.injEq] at atX atY
              rw [← atX, ← atY] at differ
              exact absurd same differ
          | succ m =>
              have shift : pos + 1 + m = pos + (m + 1) := by omega
              have later := ih (shift ▸ atX) (by simpa using atY)
              omega
        · simp only [List.length_append, List.length_take, List.length_cons]
          omega
      · rename_i beyond
        have atEnd : log.length ≤ pos := List.getElem?_eq_none_iff.mp beyond
        omega

/-- **The splice of a matching source.**  When the log and the source agree below
`pos` and match, overwriting with the source's entries from `pos` to `pos + n`
changes nothing if the log already holds them, and otherwise installs the source
up to `pos + n`. -/
theorem overwrite_cases {log source : List α} (matching : Matching key log source) (n : Nat) :
    ∀ pos, pos ≤ log.length → pos ≤ source.length → log.take pos = source.take pos →
      (source.take (pos + n) <+: log ∧
          overwrite key log pos ((source.drop pos).take n) = log) ∨
        (¬ source.take (pos + n) <+: log ∧
          overwrite key log pos ((source.drop pos).take n) = source.take (pos + n)) := by
  induction n with
  | zero =>
      intro pos _ _ agree
      refine Or.inl ⟨?_, by simp [overwrite]⟩
      rw [Nat.add_zero, ← agree]
      exact List.take_prefix _ _
  | succ n ih =>
      intro pos inLog inSource agree
      by_cases inside : pos < source.length
      · have batch : (source.drop pos).take (n + 1) =
            source[pos] :: (source.drop (pos + 1)).take n := by
          rw [List.drop_eq_getElem_cons inside, List.take_succ_cons]
        have shift : pos + (n + 1) = pos + 1 + n := by omega
        have atSource : source[pos]? = some source[pos] := List.getElem?_eq_getElem inside
        have whole : source.take pos ++ source[pos] :: (source.drop (pos + 1)).take n =
            source.take (pos + 1 + n) := by
          rw [List.take_add, ← List.take_append_getElem inside, List.append_assoc]
          rfl
        have member : (source.take (pos + 1 + n))[pos]? = some source[pos] := by
          rw [List.getElem?_take_of_lt (by omega), atSource]
        rw [batch, shift, overwrite]
        split
        · rename_i x atPos
          split
          · rename_i same
            have bound := (List.getElem?_eq_some_iff.mp atPos).1
            exact ih (pos + 1) bound inside (matching pos x _ atPos atSource same)
          · rename_i differ
            refine Or.inr ⟨?_, by rw [agree, whole]⟩
            intro held
            have found := getElem?_extend held member
            rw [atPos, Option.some.injEq] at found
            exact differ (congrArg key found)
        · rename_i beyond
          have all : log.take pos = log :=
            List.take_of_length_le (List.getElem?_eq_none_iff.mp beyond)
          refine Or.inr ⟨?_, by rw [← whole, ← agree, all]⟩
          intro held
          rw [getElem?_extend held member] at beyond
          cases beyond
      · have atEnd := not_lt.mp inside
        have dropped : source.drop pos = [] := List.drop_eq_nil_of_le atEnd
        have same : source.take (pos + (n + 1)) = source.take pos := by
          rw [List.take_of_length_le atEnd, List.take_of_length_le (by omega)]
        rw [dropped, same, ← agree]
        exact Or.inl ⟨List.take_prefix _ _, rfl⟩

end Overwrite

/-! ## Up-to-date logs -/

/-- **An up-to-date log inherits a prefix.**  `p` ends under the key of `x`, its
author held `L`, and `voter` holds `p`.  `candidate` is not behind `voter`, and
every author of the candidate's last key, if that key is later, holds `p`. -/
theorem prefix_of_upToDate [LinearOrder κ] {key : α → κ} {held : κ → List α → Prop}
    (chained : Chained held) {p L voter candidate : List α} {x y z : α}
    (lastP : p.getLast? = some x) (author : held (key x) L) (pL : p <+: L)
    (pVoter : p <+: voter) (sorted : voter.Pairwise fun a b => key a ≤ key b)
    (lastVoter : voter.getLast? = some y) (lastCandidate : candidate.getLast? = some z)
    (upToDate : key y < key z ∨ key y = key z ∧ voter.length ≤ candidate.length)
    (authored : Authored key held candidate)
    (later : key x < key z → ∀ M, held (key z) M → p <+: M) : p <+: candidate := by
  have memP : x ∈ p := List.mem_of_getLast? lastP
  have le_last : ∀ {l : List α} {a b : α}, l.Pairwise (fun a b => key a ≤ key b) →
      l.getLast? = some b → a ∈ l → key a ≤ key b := by
    intro l a b sortedL lastL member
    obtain ⟨front, rfl⟩ := List.getLast?_eq_some_iff.mp lastL
    rcases List.mem_append.mp member with inFront | isLast
    · exact (List.pairwise_append.mp sortedL).2.2 a inFront b (by simp)
    · exact (List.mem_singleton.mp isLast) ▸ le_rfl
  have xy : key x ≤ key y := le_last sorted lastVoter (pVoter.subset memP)
  -- the candidate's whole log was held by the author of its last key
  have positive : 0 < candidate.length :=
    List.length_pos_of_mem (List.mem_of_getLast? lastCandidate)
  obtain ⟨M, heldM, preM⟩ := authored (candidate.length - 1) z
    (by rw [← List.getLast?_eq_getElem?, lastCandidate])
  rw [Nat.sub_add_cancel positive, List.take_length] at preM
  rcases lt_or_eq_of_le (xy.trans (upToDate.elim le_of_lt fun h => h.1.le)) with newer | same
  · have pM := later newer M heldM
    by_cases short : candidate.length ≤ p.length
    · -- then the candidate's last entry lies inside `p`, under a key not above `x`
      have inside : candidate <+: p := List.prefix_of_prefix_length_le preM pM short
      have member : z ∈ p := inside.subset (List.mem_of_getLast? lastCandidate)
      exact absurd (le_last (sorted.sublist pVoter.sublist) lastP member) (not_le.mpr newer)
    · exact List.prefix_of_prefix_length_le pM preM (le_of_not_ge short)
  · have tie : key y = key z ∧ voter.length ≤ candidate.length :=
      upToDate.resolve_left fun h => absurd (xy.trans_lt h) (same ▸ lt_irrefl _)
    exact prefix_of_chain pL preM (chained _ L M author (same ▸ heldM))
      (pVoter.length_le.trans tie.2)

end Rafty.Theory
