/-
# Rafty.Theory.Refinement — a run of one machine seen as a run of another

A run refines a machine `N` along a view of its states if the view starts where `N` may
start and `N` can take every step that the view shows, in any number of its own steps.
What `N` keeps, the view keeps (`Refines.invariant`, `Refines.related`).

Where the states are only related, and every input of the run is one input of `N` or none,
the run has an image: a run of `N` that takes these inputs in their order
(`Run.exists_image`).  An `Image` keeps the index at which each step is imitated, so a
statement about the image is read back at the run (`Image.exists_index`).
-/
import Rafty.Theory.Run

namespace Rafty.Theory

set_option autoImplicit false

universe u v

section Takes

variable {σ : Type u} {ι : Type v} {M : Machine σ ι} {s s' : σ}

/-- What every step keeps, a list of inputs keeps. -/
theorem Machine.Takes.invariant {P : σ → Prop} {inputs : List ι} (takes : M.Takes s inputs s')
    (keep : ∀ s i s', i ∈ inputs → M.step s i = some s' → P s → P s') (before : P s) : P s' := by
  induction inputs generalizing s with
  | nil =>
      cases takes
      exact before
  | cons i is ih =>
      rw [Machine.Takes, Machine.exec, Option.bind_eq_some_iff] at takes
      obtain ⟨middle, first, rest⟩ := takes
      exact ih rest (fun s j s' later => keep s j s' (List.mem_cons_of_mem i later))
        (keep s i middle List.mem_cons_self first before)

/-- What every step relates, a list of inputs relates. -/
theorem Machine.Takes.related {r : σ → σ → Prop} (refl : ∀ s, r s s)
    (trans : ∀ x y z, r x y → r y z → r x z) (single : ∀ s i s', M.step s i = some s' → r s s')
    {inputs : List ι} (takes : M.Takes s inputs s') : r s s' := by
  apply takes.invariant (P := r s) ?_ (refl s)
  intro x i y _ step before
  exact trans s x y before (single x i y step)

end Takes

/-! ## Views -/

section Views

variable {σ : Type u} {ι : Type v} {M : Machine σ ι} {τ κ : Type*}

/-- Along `view` the run is a run of `N`, in steps of any length. -/
structure Refines (R : Run M) (N : Machine τ κ) (view : σ → τ) : Prop where
  start : N.init (view (R.state 0))
  next : ∀ k, k < R.length →
    ∃ inputs, N.Takes (view (R.state k)) inputs (view (R.state (k + 1)))

namespace Refines

variable {R : Run M} {N : Machine τ κ} {view : σ → τ} {k m : Nat}

/-- What the machine keeps holds of the view at every index. -/
theorem invariant (refines : Refines R N view) {P : τ → Prop} (base : ∀ t, N.init t → P t)
    (keep : ∀ t i t', N.step t i = some t' → P t → P t') (bound : k ≤ R.length) :
    P (view (R.state k)) := by
  apply R.invariant (P := fun k => P (view (R.state k))) (base _ refines.start) ?_ k bound
  intro k within before
  obtain ⟨inputs, takes⟩ := refines.next k within
  exact takes.invariant (fun t i t' _ => keep t i t') before

/-- What a step of the machine relates, the views along a stretch are related by. -/
theorem related (refines : Refines R N view) {r : τ → τ → Prop} (refl : ∀ t, r t t)
    (trans : ∀ x y z, r x y → r y z → r x z) (single : ∀ t i t', N.step t i = some t' → r t t')
    (le : k ≤ m) (bound : m ≤ R.length) : r (view (R.state k)) (view (R.state m)) := by
  apply R.related (fun k => view (R.state k)) refl trans ?_ le bound
  intro k within
  obtain ⟨inputs, takes⟩ := refines.next k within
  exact takes.related refl trans single

end Refines

end Views

/-! ## Images -/

section Images

variable {σ : Type u} {ι : Type v} {M : Machine σ ι} {τ κ : Type*}

/-- `R'` takes the inputs that `project` keeps of those of `R`; the step `k` of `R` is at
`index k` there. -/
structure Image (R : Run M) {N : Machine τ κ} (R' : Run N) (project : ι → Option κ)
    (sim : σ → τ → Prop) (index : Nat → Nat) : Prop where
  first : index 0 = 0
  last : index R.length = R'.length
  next : ∀ k, k < R.length → index (k + 1) = index k + (project (R.input k)).toList.length
  input : ∀ k i, k < R.length → project (R.input k) = some i → R'.input (index k) = i
  sim : ∀ k, k ≤ R.length → sim (R.state k) (R'.state (index k))

/-- The inputs kept of the first `k`. -/
def kept (project : ι → Option κ) (input : Nat → ι) (k : Nat) : List κ :=
  (List.range k).filterMap fun j => project (input j)

theorem kept_succ (project : ι → Option κ) (input : Nat → ι) (k : Nat) :
    kept project input (k + 1) = kept project input k ++ (project (input k)).toList := by
  rw [kept, List.range_succ, List.filterMap_append]
  cases h : project (input k) <;> simp [kept, h]

theorem kept_le (project : ι → Option κ) (input : Nat → ι) {k m : Nat} (le : k ≤ m) :
    kept project input k <+: kept project input m := by
  induction m, le using Nat.le_induction with
  | base => exact List.prefix_refl _
  | succ m _ ih =>
      rw [kept_succ]
      exact ih.trans (List.prefix_append _ _)

/-- **Every run that is imitated step by step has an image.** -/
theorem Run.exists_image [Inhabited κ] (R : Run M) (N : Machine τ κ) (project : ι → Option κ)
    (sim : σ → τ → Prop) (start : ∃ t, N.init t ∧ sim (R.state 0) t)
    (next : ∀ k, k < R.length → ∀ t, sim (R.state k) t →
      ∃ t', N.Takes t (project (R.input k)).toList t' ∧ sim (R.state (k + 1)) t') :
    ∃ (R' : Run N) (index : Nat → Nat), Image R R' project sim index := by
  obtain ⟨t₀, init, sim₀⟩ := start
  have takes : ∀ k, k ≤ R.length →
      ∃ t, N.Takes t₀ (kept project R.input k) t ∧ sim (R.state k) t := by
    intro k bound
    apply R.invariant (P := fun k => ∃ t, N.Takes t₀ (kept project R.input k) t ∧
      sim (R.state k) t) ⟨t₀, rfl, sim₀⟩ ?_ k bound
    intro k within before
    obtain ⟨t, earlier, related⟩ := before
    obtain ⟨t', step, related'⟩ := next k within t related
    refine ⟨t', ?_, related'⟩
    rw [kept_succ]
    exact earlier.append step
  obtain ⟨last, whole, -⟩ := takes R.length (Nat.le_refl _)
  let R' := Run.of N t₀ (kept project R.input R.length) init whole.isSome
  -- the state of the image after the inputs kept of the first `k`
  have state : ∀ k, k ≤ R.length → ∀ t, N.Takes t₀ (kept project R.input k) t →
      R'.state (kept project R.input k).length = t := by
    intro k bound t reached
    change (N.exec t₀ ((kept project R.input R.length).take _)).getD t₀ = t
    rw [← List.prefix_iff_eq_take.mp (kept_le project R.input bound), reached]
    rfl
  refine ⟨R', fun k => (kept project R.input k).length, rfl, rfl, ?_, ?_, ?_⟩
  · intro k _
    rw [kept_succ, List.length_append]
  · intro k i within keeps
    have next := kept_succ project R.input k
    rw [keeps] at next
    obtain ⟨rest, split⟩ := kept_le project R.input (show k + 1 ≤ R.length from within)
    rw [next] at split
    change (kept project R.input R.length).getD _ default = i
    rw [← split]
    simp
  · intro k bound
    obtain ⟨t, reached, related⟩ := takes k bound
    rw [state k bound t reached]
    exact related

namespace Image

variable {R : Run M} {N : Machine τ κ} {R' : Run N} {project : ι → Option κ}
  {sim : σ → τ → Prop} {index : Nat → Nat}

theorem index_mono (image : Image R R' project sim index) {k m : Nat} (le : k ≤ m)
    (bound : m ≤ R.length) : index k ≤ index m := by
  apply R.related index (r := fun x y => x ≤ y) Nat.le_refl (fun _ _ _ => Nat.le_trans) ?_ le bound
  intro k within
  rw [image.next k within]
  omega

/-- Every step of the image imitates one step of the run. -/
theorem exists_index (image : Image R R' project sim index) {g : Nat} (within : g < R'.length) :
    ∃ k, k < R.length ∧ index k = g ∧ project (R.input k) = some (R'.input g) := by
  rw [← image.last] at within
  have search : ∀ m, m ≤ R.length → g < index m →
      ∃ k, k < R.length ∧ index k = g ∧ project (R.input k) = some (R'.input g) := by
    intro m
    induction m with
    | zero =>
        intro _ before
        rw [image.first] at before
        omega
    | succ m ih =>
        intro bound before
        by_cases earlier : g < index m
        · exact ih (by omega) earlier
        have next := image.next m bound
        cases keeps : project (R.input m) with
        | none =>
            rw [keeps] at next
            simp only [Option.toList_none, List.length_nil] at next
            omega
        | some i =>
            rw [keeps] at next
            simp only [Option.toList_some, List.length_singleton] at next
            have here : index m = g := by omega
            refine ⟨m, bound, here, ?_⟩
            rw [keeps, ← here, image.input m i bound keeps]
  exact search R.length (Nat.le_refl _) within

/-- An earlier step of the image imitates an earlier step of the run. -/
theorem lt_of_index_lt (image : Image R R' project sim index) {k m : Nat} (bound : k ≤ R.length)
    (lt : index k < index m) : k < m := by
  by_contra le
  have := image.index_mono (Nat.not_lt.mp le) bound
  omega

end Image

end Images

end Rafty.Theory
