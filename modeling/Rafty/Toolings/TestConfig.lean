/-
# Rafty.Toolings.TestConfig — the tester's check of what the nodes apply

`MultiprocTestConfig` gets every applied result from every node, from one thread a node, and
its handler compares it under a mutex with what was reported before (`check_logs`).  A
report that fails ends the test: it sets `failed`, and nothing is looked at from then on.
A call of the handler is one step (`handle`); the check is made under the mutex, and the
flags, which are set after it, only ever go up.

* the test fails exactly if two reports show different data under one index, or a node
  reports an index above 1 without having reported the one before (`failed_iff`);
* until then `logs` has what was reported, and `n_committed` counts the nodes that have
  reported an index when it comes to them, and gives the data they agree on
  (`nCommitted_eq`).
-/
import Rafty.Kernel.Types
import Mathlib.Logic.Function.Basic

namespace Rafty

set_option autoImplicit false

/-- The members that the check uses.  `raftIds` is a `std::set`; `order` is the order in which
the map `logs`, which has these keys, is gone through. -/
structure TestConfig where
  raftIds : List Nat
  order : List Nat
  logs : Nat → Nat → Option String
  applyErr : Nat → String
  raftStopped : Nat → Bool
  maxIndex : Nat
  stop : Bool
  failed : Bool

/-- A result and the id of the node that the thread which read it belongs to. -/
abbrev Report := Nat × ApplyResult

namespace TestConfig

variable (t : TestConfig)

/-- `m.index - 1`. -/
def previous (index : Nat) : Nat := (index + (1 <<< 64 - 1)) % 1 <<< 64

def conflictText (i : Nat) (m : ApplyResult) (id : Nat) (other : String) : String :=
  "commit index=" ++ (toString m.index ++ " server=" ++ toString i ++ " " ++ m.data ++
    " != server=" ++ toString id ++ " " ++ other)

def orderText (i : Nat) (m : ApplyResult) : String :=
  "server " ++ (toString i ++ " apply out of order " ++ toString m.index)

/-- The loop of `check_logs`: the message about the last conflict it meets. -/
def conflict (i : Nat) (m : ApplyResult) : String :=
  t.order.foldl (fun err id =>
    match t.logs id m.index with
    | some other => if other ≠ m.data then conflictText i m id other else err
    | none => err) ""

/-- `check_logs`. -/
def checkLogs (i : Nat) (m : ApplyResult) : TestConfig × String × Bool :=
  ({ t with
      logs := Function.update t.logs i (Function.update (t.logs i) m.index (some m.data))
      maxIndex := max t.maxIndex m.index },
    t.conflict i m, (t.logs i (previous m.index)).isSome)

/-- The registered handler. -/
def handle (report : Report) : TestConfig :=
  let (i, m) := report
  if t.stop ∨ t.failed ∨ t.raftStopped i then t
  else if m.valid = false then t
  else
    let (t', conflict, prevok) := t.checkLogs i m
    let err := if 1 < m.index ∧ prevok = false then orderText i m else conflict
    if err = "" then t'
    else
      { t' with applyErr := Function.update t'.applyErr i err, failed := true, stop := true }

def handleAll (reports : List Report) : TestConfig := reports.foldl handle t

/-- `begin` has been called, and nothing was reported yet. -/
structure Begun (t : TestConfig) : Prop where
  sameIds : ∀ id, id ∈ t.order ↔ id ∈ t.raftIds
  logs : t.logs = fun _ _ => none
  applyErr : t.applyErr = fun _ => ""
  running : ∀ id ∈ t.raftIds, t.raftStopped id = false
  stop : t.stop = false
  failed : t.failed = false

/-! ## What the reports have to be -/

/-- The report that comes after `before` agrees with them and follows its node's last. -/
structure Fits (before : List Report) (i : Nat) (m : ApplyResult) : Prop where
  agrees : ∀ r ∈ before, r.2.valid = true → r.2.index = m.index → r.2.data = m.data
  inOrder : 1 < m.index → ∃ r ∈ before, r.1 = i ∧ r.2.valid = true ∧ r.2.index + 1 = m.index

/-- Every valid report fits those before it. -/
def Consistent (reports : List Report) : Prop :=
  ∀ before i m after, reports = before ++ (i, m) :: after → m.valid = true → Fits before i m

theorem consistent_nil : Consistent [] := by
  intro before i m after same
  simp at same

theorem consistent_concat {reports : List Report} {r : Report} :
    Consistent (reports ++ [r]) ↔
      Consistent reports ∧ (r.2.valid = true → Fits reports r.1 r.2) := by
  constructor
  · intro consistent
    refine ⟨?_, fun valid => consistent reports r.1 r.2 [] rfl valid⟩
    intro before i m after same valid
    exact consistent before i m (after ++ [r]) (by simp [same]) valid
  · rintro ⟨consistent, last⟩ before i m after same valid
    rcases List.eq_nil_or_concat after with rfl | ⟨init, x, rfl⟩
    · obtain ⟨rfl, rfl⟩ := List.append_inj' same rfl |>.imp_right (by simpa using ·)
      exact last valid
    · rw [List.concat_eq_append, ← List.cons_append, ← List.append_assoc] at same
      obtain ⟨same, -⟩ := List.append_inj' same rfl
      exact consistent before i m init same valid

/-! ## The check -/

variable {t} {reports : List Report}

theorem append_ne_empty {first : String} (some : first ≠ "") (second : String) :
    first ++ second ≠ "" :=
  fun empty => some (String.append_eq_empty_iff.mp empty).1

theorem conflictText_ne (i : Nat) (m : ApplyResult) (id : Nat) (other : String) :
    conflictText i m id other ≠ "" :=
  append_ne_empty (by decide) _

theorem orderText_ne (i : Nat) (m : ApplyResult) : orderText i m ≠ "" :=
  append_ne_empty (by decide) _

/-- No message means no conflict. -/
theorem conflict_eq_empty (i : Nat) (m : ApplyResult) :
    t.conflict i m = "" ↔ ∀ id ∈ t.order, ∀ other, t.logs id m.index = some other →
      other = m.data := by
  rw [conflict]
  induction t.order using List.reverseRecOn with
  | nil => simp
  | append_singleton ids id ih =>
      rw [List.foldl_append, List.foldl_cons, List.foldl_nil]
      simp only [List.mem_append, List.mem_singleton, or_imp, forall_and, forall_eq]
      rw [← ih]
      cases here : t.logs id m.index with
      | none => simp
      | some other =>
          by_cases same : other = m.data
          · simp [same]
          · simp [same, conflictText_ne]

theorem previous_eq {index : Nat} (positive : 0 < index) (small : index < 1 <<< 64) :
    previous index = index - 1 := by
  have bits : 1 <<< 64 = 18446744073709551616 := rfl
  rw [previous]
  simp only [bits] at small ⊢
  omega

/-! ## A run of the handler -/

/-- The state after reports that fit: `logs` has what was reported. -/
structure Recorded (t₀ : TestConfig) (reports : List Report) (t : TestConfig) : Prop where
  raftIds : t.raftIds = t₀.raftIds
  order : t.order = t₀.order
  raftStopped : t.raftStopped = t₀.raftStopped
  applyErr : t.applyErr = fun _ => ""
  stop : t.stop = false
  failed : t.failed = false
  logs : ∀ id n data, t.logs id n = some data ↔
    ∃ r ∈ reports, r.1 = id ∧ r.2.valid = true ∧ r.2.index = n ∧ r.2.data = data

variable {t₀ : TestConfig}

theorem Begun.recorded (begun : Begun t) : Recorded t [] t where
  raftIds := rfl
  order := rfl
  raftStopped := rfl
  applyErr := begun.applyErr
  stop := begun.stop
  failed := begun.failed
  logs id n data := by simp [begun.logs]

/-- The reports are those of the nodes of the test. -/
structure Known (t₀ : TestConfig) (reports : List Report) : Prop where
  member : ∀ r ∈ reports, r.1 ∈ t₀.raftIds
  small : ∀ r ∈ reports, r.2.index < 1 <<< 64

/-- **What `check_logs` answers**: whether the report fits. -/
theorem Recorded.fits_iff (recorded : Recorded t₀ reports t) (begun : Begun t₀)
    (known : Known t₀ reports) {i : Nat} {m : ApplyResult} (small : m.index < 1 <<< 64) :
    Fits reports i m ↔ t.conflict i m = "" ∧
      ¬ (1 < m.index ∧ (t.logs i (previous m.index)).isSome = false) := by
  rw [conflict_eq_empty, recorded.order]
  constructor
  · rintro ⟨agrees, inOrder⟩
    refine ⟨?_, ?_⟩
    · intro id _ other logged
      obtain ⟨r, member, -, valid, index, data⟩ := (recorded.logs id m.index other).mp logged
      exact data.symm.trans (agrees r member valid index)
    · rintro ⟨later, missing⟩
      obtain ⟨r, member, same, valid, index⟩ := inOrder later
      have logged := (recorded.logs i (previous m.index) r.2.data).mpr
        ⟨r, member, same, valid, by rw [previous_eq (by omega) small]; omega, rfl⟩
      simp [logged] at missing
  · rintro ⟨none, notMissing⟩
    constructor
    · intro r member valid index
      have logged := (recorded.logs r.1 m.index r.2.data).mpr ⟨r, member, rfl, valid, index, rfl⟩
      exact none r.1 ((begun.sameIds r.1).mpr (known.member r member)) _ logged
    · intro later
      obtain ⟨data, logged⟩ : ∃ data, t.logs i (previous m.index) = some data := by
        rw [← Option.isSome_iff_exists]
        by_contra missing
        exact notMissing ⟨later, by simpa using missing⟩
      obtain ⟨r, member, same, valid, index, -⟩ := (recorded.logs _ _ _).mp logged
      rw [previous_eq (by omega) small] at index
      exact ⟨r, member, same, valid, by omega⟩

/-- The handler of a report while the test is on. -/
theorem Recorded.handle_eq (recorded : Recorded t₀ reports t) (begun : Begun t₀) {i : Nat}
    {m : ApplyResult} (member : i ∈ t₀.raftIds) (valid : m.valid = true) :
    t.handle (i, m) =
      let err := if 1 < m.index ∧ (t.logs i (previous m.index)).isSome = false then orderText i m
        else t.conflict i m
      if err = "" then (t.checkLogs i m).1
      else { (t.checkLogs i m).1 with
        applyErr := Function.update t.applyErr i err, failed := true, stop := true } := by
  have running : t.raftStopped i = false := recorded.raftStopped ▸ begun.running i member
  simp [handle, recorded.stop, recorded.failed, running, valid, checkLogs]

/-- A report that fits is recorded. -/
theorem Recorded.accept (recorded : Recorded t₀ reports t) (begun : Begun t₀)
    (known : Known t₀ reports) {i : Nat} {m : ApplyResult} (member : i ∈ t₀.raftIds)
    (small : m.index < 1 <<< 64) (valid : m.valid = true) (fits : Fits reports i m) :
    Recorded t₀ (reports ++ [(i, m)]) (t.handle (i, m)) := by
  obtain ⟨none, notMissing⟩ := (recorded.fits_iff begun known small).mp fits
  rw [recorded.handle_eq begun member valid]
  simp only [if_neg notMissing, none, if_true, checkLogs]
  refine ⟨recorded.raftIds, recorded.order, recorded.raftStopped, recorded.applyErr,
    recorded.stop, recorded.failed, ?_⟩
  intro id n data
  have before := recorded.logs id n data
  simp only [List.mem_append, List.mem_singleton, or_and_right, exists_or, exists_eq_left, valid,
    true_and, ← before]
  by_cases here : i = id ∧ m.index = n
  · obtain ⟨rfl, rfl⟩ := here
    simp only [Function.update_self, Option.some.injEq, true_and]
    refine ⟨Or.inr, ?_⟩
    rintro (logged | same)
    · obtain ⟨r, isReport, -, wasValid, index, same⟩ := before.mp logged
      exact (fits.agrees r isReport wasValid index).symm.trans same
    · exact same
  · have other : Function.update t.logs i (Function.update (t.logs i) m.index (some m.data)) id n =
        t.logs id n := by
      by_cases sameId : id = i
      · subst sameId
        have differ : n ≠ m.index := fun same => here ⟨rfl, same.symm⟩
        simp [Function.update_of_ne differ]
      · rw [Function.update_of_ne sameId]
    rw [other]
    refine ⟨Or.inl, ?_⟩
    rintro (logged | ⟨sameId, sameIndex, -⟩)
    · exact logged
    · exact absurd ⟨sameId, sameIndex⟩ here

/-- A report that does not fit ends the test. -/
theorem Recorded.reject (recorded : Recorded t₀ reports t) (begun : Begun t₀)
    (known : Known t₀ reports) {i : Nat} {m : ApplyResult} (member : i ∈ t₀.raftIds)
    (small : m.index < 1 <<< 64) (valid : m.valid = true) (unfit : ¬ Fits reports i m) :
    (t.handle (i, m)).failed = true := by
  rw [recorded.fits_iff begun known small] at unfit
  rw [recorded.handle_eq begun member valid]
  simp only
  split
  · rw [if_neg (orderText_ne i m)]
  · rename_i notMissing
    have some : t.conflict i m ≠ "" := fun none => unfit ⟨none, notMissing⟩
    rw [if_neg some]

/-- What is not valid is ignored. -/
theorem Recorded.ignore (recorded : Recorded t₀ reports t) (begun : Begun t₀) {i : Nat}
    {m : ApplyResult} (member : i ∈ t₀.raftIds) (invalid : m.valid = false) :
    Recorded t₀ (reports ++ [(i, m)]) (t.handle (i, m)) := by
  have running : t.raftStopped i = false := recorded.raftStopped ▸ begun.running i member
  have same : t.handle (i, m) = t := by
    simp [handle, recorded.stop, recorded.failed, running, invalid]
  rw [same]
  refine { recorded with logs := fun id n data => ?_ }
  rw [recorded.logs]
  simp [invalid]

/-- Nothing is looked at after the test has failed. -/
theorem handle_failed (r : Report) (failed : t.failed = true) : t.handle r = t := by
  simp [handle, failed]

/-- **The state after the reports**: recorded if all of them fit, failed if not. -/
theorem handleAll_cases (begun : Begun t₀) (known : Known t₀ reports) :
    (Consistent reports ∧ Recorded t₀ reports (t₀.handleAll reports)) ∨
      (¬ Consistent reports ∧ (t₀.handleAll reports).failed = true) := by
  induction reports using List.reverseRecOn with
  | nil => exact Or.inl ⟨consistent_nil, begun.recorded⟩
  | append_singleton reports r ih =>
      have earlier : Known t₀ reports :=
        ⟨fun r member => known.member r (List.mem_append_left _ member),
          fun r member => known.small r (List.mem_append_left _ member)⟩
      have member : r.1 ∈ t₀.raftIds := known.member r (by simp)
      have small : r.2.index < 1 <<< 64 := known.small r (by simp)
      have last : t₀.handleAll (reports ++ [r]) = (t₀.handleAll reports).handle r := by
        simp [handleAll]
      rw [consistent_concat, last]
      rcases ih earlier with ⟨consistent, recorded⟩ | ⟨inconsistent, failed⟩
      · by_cases valid : r.2.valid = true
        · by_cases fits : Fits reports r.1 r.2
          · exact Or.inl ⟨⟨consistent, fun _ => fits⟩,
              recorded.accept begun earlier member small valid fits⟩
          · exact Or.inr ⟨fun both => fits (both.2 valid),
              recorded.reject begun earlier member small valid fits⟩
        · rw [Bool.not_eq_true] at valid
          exact Or.inl ⟨⟨consistent, fun isValid => by simp [valid] at isValid⟩,
            recorded.ignore begun member valid⟩
      · refine Or.inr ⟨fun both => inconsistent both.1, ?_⟩
        rw [handle_failed r failed]
        exact failed

/-- **The check is exact.**  Over any reports of the nodes of a test that has begun, in any
order, the test fails exactly if some valid report shows other data than an earlier one for
the same index, or has an index above 1 whose predecessor its node has not reported. -/
theorem failed_iff (t₀ : TestConfig) (begun : Begun t₀) (reports : List Report)
    (known : Known t₀ reports) :
    (t₀.handleAll reports).failed = true ↔ ¬ Consistent reports := by
  rcases handleAll_cases begun known with ⟨consistent, recorded⟩ | ⟨inconsistent, failed⟩
  · simp [recorded.failed, consistent]
  · simp [failed, inconsistent]

/-- A test of nodes 1 to 3 that has begun. -/
def three : TestConfig where
  raftIds := [1, 2, 3]
  order := [3, 1, 2]
  logs _ _ := none
  applyErr _ := ""
  raftStopped _ := false
  maxIndex := 0
  stop := false
  failed := false

theorem begun_three : three.Begun := by
  refine ⟨fun id => ?_, rfl, rfl, fun _ _ => rfl, rfl, rfl⟩
  simp only [three, List.mem_cons, List.not_mem_nil, or_false]
  omega

/-- Nodes 1 and 2 disagree about index 1. -/
theorem failed_iff_of_conflict : (three.handleAll
    [(1, { valid := true, data := "x", index := 1 }),
      (2, { valid := true, data := "y", index := 1 })]).failed = true := by
  refine (failed_iff three begun_three _ ⟨by decide, by decide⟩).mpr fun consistent => ?_
  have fits := consistent [(1, { valid := true, data := "x", index := 1 })] 2
    { valid := true, data := "y", index := 1 } [] rfl rfl
  have same : "x" = "y" := fits.agrees _ (List.mem_singleton_self _) rfl rfl
  exact absurd same (by decide)

/-! ## `n_committed` -/

def applyErrorText (id : Nat) (err : String) : String :=
  "server " ++ (toString id ++ " apply error: " ++ err)

def mismatchText (index : Nat) (data other : String) : String :=
  "committed values do not match: index " ++ (toString index ++ ", " ++ data ++ ", " ++ other)

/-- One round of the loop of `n_committed`.  An error is the text that is logged before the
exception that ends the test. -/
def count (t : TestConfig) (index : Nat) (found : Nat × String) (id : Nat) :
    Except String (Nat × String) :=
  if t.applyErr id ≠ "" then .error (applyErrorText id (t.applyErr id))
  else
    match t.logs id index with
    | some data =>
        if 0 < found.1 ∧ found.2 ≠ data then .error (mismatchText index found.2 data)
        else .ok (found.1 + 1, data)
    | none => .ok found

/-- `n_committed`.  The mutex is held for one round, so the round of node `id` finds the
test in a state of its own, `seen id`. -/
def nCommitted (ids : List Nat) (seen : Nat → TestConfig) (index : Nat) :
    Except String (Nat × String) :=
  ids.foldlM (fun found id => (seen id).count index found id) (0, "")

/-- If no report failed and the nodes agree on the index, it counts those that have it. -/
theorem nCommitted_eq (ids : List Nat) {seen : Nat → TestConfig} {index : Nat} {data : String}
    (clean : ∀ id, (seen id).applyErr = fun _ => "")
    (agree : ∀ id other, (seen id).logs id index = some other → other = data) :
    ∃ found, nCommitted ids seen index = .ok found ∧
      found.1 = ids.countP (fun id => ((seen id).logs id index).isSome) ∧
        (0 < found.1 → found.2 = data) := by
  have loop : ∀ (ids : List Nat) (found : Nat × String), (0 < found.1 → found.2 = data) →
      ∃ found', ids.foldlM (fun found id => (seen id).count index found id) found = .ok found' ∧
        found'.1 = found.1 + ids.countP (fun id => ((seen id).logs id index).isSome) ∧
          (0 < found'.1 → found'.2 = data) := by
    intro ids
    induction ids with
    | nil => exact fun found known => ⟨found, rfl, rfl, known⟩
    | cons id ids ih =>
        intro found known
        rw [List.foldlM_cons]
        cases here : (seen id).logs id index with
        | none =>
            obtain ⟨found', same, number, rest⟩ := ih found known
            have passes : (seen id).count index found id = .ok found := by
              simp [count, clean id, here]
            refine ⟨found', ?_, ?_, rest⟩
            · rw [passes]
              exact same
            · simp [here, number]
        | some other =>
            have isData := agree id other here
            obtain ⟨found', same, number, rest⟩ := ih (found.1 + 1, other) fun _ => isData
            have accepts : ¬ (0 < found.1 ∧ found.2 ≠ other) := by
              rintro ⟨positive, differ⟩
              exact differ ((known positive).trans isData.symm)
            have passes : (seen id).count index found id = .ok (found.1 + 1, other) := by
              simp [count, clean id, here, accepts]
            refine ⟨found', ?_, ?_, rest⟩
            · rw [passes]
              exact same
            · simp only [here, List.countP_cons, Option.isSome_some, if_true, number]
              omega
  obtain ⟨found, same, number, known⟩ :=
    loop ids (0, "") (fun impossible => by simp at impossible)
  exact ⟨found, same, by simpa using number, known⟩

/-- The rounds of a loop over the nodes see what the handler has made of the first reports:
the round of `id`, of the first `looked id` of them. -/
structure Sees (t₀ : TestConfig) (reports : List Report) (seen : Nat → TestConfig)
    (looked : Nat → Nat) : Prop where
  logs : ∀ id, (seen id).logs = (t₀.handleAll (reports.take (looked id))).logs
  applyErr : ∀ id, (seen id).applyErr = (t₀.handleAll (reports.take (looked id))).applyErr

end TestConfig

end Rafty
