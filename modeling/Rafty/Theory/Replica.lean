/-
# Rafty.Theory.Replica — a ledger and the replicas that read it

What a replicated log is for, without nodes, terms or messages: one ledger, to whose end
entries are added, and for each replica a position up to which it has read.  A replica
never reads beyond the end (`inside`), so what two replicas have read is the same as far
as both have got (`agreement`); and what one has read, it has read in every later state
(`Grows.output`).

`longest` picks the longest member of a list of logs; if any two of them are comparable,
each is a prefix of it.
-/
import Rafty.Theory.Refinement
import Rafty.Theory.Ledger
import Mathlib.Logic.Function.Basic

namespace Rafty.Theory

set_option autoImplicit false

universe u v

variable {ι : Type u} {α : Type v}

/-! ## The longest of comparable logs -/

def longest : List (List α) → List α
  | [] => []
  | l :: ls => if (longest ls).length < l.length then l else longest ls

theorem longest_cases (ls : List (List α)) : longest ls = [] ∨ longest ls ∈ ls := by
  induction ls with
  | nil => exact Or.inl rfl
  | cons l ls ih =>
      rw [longest]
      split
      · exact Or.inr List.mem_cons_self
      · exact ih.imp_right (List.mem_cons_of_mem l)

theorem length_longest {ls : List (List α)} {l : List α} (member : l ∈ ls) :
    l.length ≤ (longest ls).length := by
  induction ls with
  | nil => simp at member
  | cons m ls ih =>
      rw [longest]
      rcases List.mem_cons.mp member with rfl | later
      · split <;> omega
      · have := ih later
        split <;> omega

/-- Any member is a prefix of the longest, if they are comparable. -/
theorem prefix_longest {ls : List (List α)} {l : List α} (member : l ∈ ls)
    (chain : ∀ m ∈ ls, l <+: m ∨ m <+: l) : l <+: longest ls := by
  have shorter := length_longest member
  rcases longest_cases ls with none | some
  · rw [none] at shorter ⊢
    rw [List.length_eq_zero_iff.mp (Nat.le_zero.mp shorter)]
  · rcases chain _ some with h | h
    · exact h
    · exact List.prefix_of_prefix_length_le (List.prefix_refl l) h shorter

/-- If every log of one list is a prefix of some log of the other, whose logs are comparable,
so are the longest. -/
theorem longest_mono {ls ms : List (List α)}
    (grows : ∀ l ∈ ls, ∃ m ∈ ms, l <+: m) (chain : ∀ l ∈ ms, ∀ m ∈ ms, l <+: m ∨ m <+: l) :
    longest ls <+: longest ms := by
  rcases longest_cases ls with none | some
  · rw [none]
    exact List.nil_prefix
  · obtain ⟨m, member, le⟩ := grows _ some
    exact le.trans (prefix_longest member (chain m member))

/-! ## Replicas -/

/-- The ledger, and how far each replica has read it. -/
structure Replicas (ι : Type u) (α : Type v) where
  ledger : List α
  position : ι → Nat

namespace Replicas

/-- Entries are added at the end of the ledger, or a replica reads some more of it. -/
inductive Act (ι : Type u) (α : Type v)
  | commit (new : List α)
  | apply (i : ι) (count : Nat)

/-- What replica `i` has read. -/
def output (s : Replicas ι α) (i : ι) : List α := s.ledger.take (s.position i)

/-- No replica is beyond the end. -/
def Inside (s : Replicas ι α) : Prop := ∀ i, s.position i ≤ s.ledger.length

variable {s s' : Replicas ι α}

/-- The ledger grows at its end, and every replica only moves on. -/
structure Grows (s s' : Replicas ι α) : Prop where
  ledger : s.ledger <+: s'.ledger
  position : ∀ i, s.position i ≤ s'.position i

theorem Grows.refl (s : Replicas ι α) : Grows s s := ⟨List.prefix_refl _, fun _ => Nat.le_refl _⟩

theorem Grows.trans {x y z : Replicas ι α} (first : Grows x y) (second : Grows y z) : Grows x z :=
  ⟨first.ledger.trans second.ledger, fun i => Nat.le_trans (first.position i) (second.position i)⟩

/-- **Agreement**: what two replicas have read is comparable. -/
theorem agreement (s : Replicas ι α) (i j : ι) :
    s.output i <+: s.output j ∨ s.output j <+: s.output i := by
  rcases Nat.le_total (s.position i) (s.position j) with le | le
  · exact Or.inl (List.take_prefix_take_left le)
  · exact Or.inr (List.take_prefix_take_left le)

/-- What was read stays read. -/
theorem Grows.output (grows : Grows s s') (inside : s.Inside) (i : ι) :
    s.output i <+: s'.output i := by
  obtain ⟨rest, longer⟩ := grows.ledger
  rw [Replicas.output, Replicas.output, ← List.take_append_of_le_length (inside i), longer]
  exact List.take_prefix_take_left (grows.position i)

/-! ## The machine -/

variable [DecidableEq ι]

def step (s : Replicas ι α) : Act ι α → Option (Replicas ι α)
  | .commit new => some { s with ledger := s.ledger ++ new }
  | .apply i count =>
      if s.position i + count ≤ s.ledger.length then
        some { s with position := Function.update s.position i (s.position i + count) }
      else none

/-- Nothing is in the ledger at the start. -/
def machine (ι : Type u) (α : Type v) [DecidableEq ι] : Machine (Replicas ι α) (Act ι α) where
  init s := s.ledger = [] ∧ ∀ i, s.position i = 0
  step := step

variable {act : Act ι α}

theorem inside_init (init : (machine ι α).init s) : s.Inside := by
  intro i
  rw [init.2 i]
  exact Nat.zero_le _

theorem inside_step (stepped : s.step act = some s') (inside : s.Inside) : s'.Inside := by
  cases act with
  | commit new =>
      cases stepped
      intro i
      simp only [List.length_append]
      exact Nat.le_add_right_of_le (inside i)
  | apply i count =>
      simp only [step] at stepped
      split at stepped
      · rename_i room
        cases stepped
        intro j
        by_cases same : j = i
        · subst same
          simpa using room
        · simpa [same] using inside j
      · cases stepped

theorem grows_step (stepped : s.step act = some s') : Grows s s' := by
  cases act with
  | commit new =>
      cases stepped
      exact ⟨List.prefix_append _ _, fun _ => Nat.le_refl _⟩
  | apply i count =>
      simp only [step] at stepped
      split at stepped
      · cases stepped
        refine ⟨List.prefix_refl _, ?_⟩
        intro j
        by_cases same : j = i
        · subst same
          simp
        · simp [same]
      · cases stepped

/-- The ledger may grow and one replica may read on within it, in two steps. -/
theorem takes_of_grows {i : ι} (ledger : s.ledger <+: s'.ledger)
    (position : s.position i ≤ s'.position i) (room : s'.position i ≤ s'.ledger.length)
    (others : ∀ j, j ≠ i → s'.position j = s.position j) :
    ∃ acts, (machine ι α).Takes s acts s' := by
  obtain ⟨new, longer⟩ := ledger
  have committed : (machine ι α).step s (.commit new) = some { s with ledger := s'.ledger } := by
    simp [machine, step, longer]
  have reached : s.position i + (s'.position i - s.position i) = s'.position i := by omega
  have applied : (machine ι α).step { s with ledger := s'.ledger }
      (.apply i (s'.position i - s.position i)) = some s' := by
    simp only [machine, step, reached, if_pos room]
    congr 1
    have same : Function.update s.position i (s'.position i) = s'.position := by
      funext j
      by_cases own : j = i
      · subst own
        simp
      · simp [own, others j own]
    rw [same]
  exact ⟨_, (Machine.Takes.single committed).cons (Machine.Takes.single applied)⟩

end Replicas

end Rafty.Theory
