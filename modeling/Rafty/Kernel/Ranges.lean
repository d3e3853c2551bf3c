/-
# Rafty.Kernel.Ranges — append_entries index by index

The source mixes `int64` fields of the request with `size()`, which is a `size_t`: a
comparison converts the field, so that a negative one becomes huge, while an index
into the log must lie between 0 and `size()` as it stands.  Here every such comparison
is made on the converted value (`asSize`), every read and the erase are checked, and the
operands of `&&` and `||` are evaluated in the order of the source.

`appendEntriesChecked` fails nowhere and is `appendEntries` (`appendEntriesChecked_eq`),
for every request of `int64` values and every log that a vector can hold.  What a refusal
leaves and reports is `append_entries_contract`.
-/
import Rafty.Kernel.Bounds
import Mathlib.Algebra.Group.Int.Defs
import Mathlib.Algebra.Group.Nat.Defs

namespace Rafty

set_option autoImplicit false

open Theory (overwrite)

/-- The conversion of an `int64` to `size_t`. -/
def asSize (i : Int) : Nat := (i % 2 ^ 64).toNat

/-- A converted value is below a size exactly if the value is an index. -/
theorem asSize_lt {i : Int} {size : Nat} (low : -(2 ^ 63) ≤ i) (high : i < 2 ^ 63)
    (vector : size < 2 ^ 63) : asSize i < size ↔ 0 ≤ i ∧ i < size := by
  unfold asSize
  by_cases negative : i < 0
  · have huge : i % 2 ^ 64 = i + 2 ^ 64 := by omega
    omega
  · have same : i % 2 ^ 64 = i := Int.emod_eq_of_lt (by omega) (by omega)
    omega

namespace Raft

variable (r : Raft) (req : AppendEntriesRequest)

/-! ## The operations on the log -/

/-- `log.erase(log.begin() + i, log.end())`; `none` outside the log. -/
def eraseLog (i : Int) : Option (List Entry) :=
  if 0 ≤ i ∧ i < r.log.length then some (r.log.take i.toNat) else none

/-- The consistency check fails. -/
def prevMismatchChecked : Option Bool :=
  if 0 < req.prevLogIndex then
    if asSize (req.prevLogIndex - 1) < r.log.length then do
      let entry ← r.readLog (req.prevLogIndex - 1)
      return decide (entry.term ≠ req.prevLogTerm) ||
        decide (r.log.length ≤ asSize (req.prevLogIndex - 1))
    else some (decide (r.log.length ≤ asSize (req.prevLogIndex - 1)))
  else some false

/-- The entry that the log line of a failed check prints. -/
def loggedEntry : Option (Option Entry) :=
  if asSize req.prevLogIndex < r.log.length + 1 ∧ 1 ≤ req.prevLogIndex then do
    let entry ← r.readLog (req.prevLogIndex - 1)
    return some entry
  else some none

/-- The conflict report of a failed check. -/
def conflictInfoChecked : Option ConflictInfo :=
  if r.log.length ≤ asSize (req.prevLogIndex - 1) then
    some { conflictIndex := r.log.length + 1, conflictTerm := 0 }
  else do
    let entry ← r.readLog (req.prevLogIndex - 1)
    let conflictIndex ← r.firstIndexOfTerm entry.term (req.prevLogIndex - 1).toNat
    return { conflictTerm := entry.term, conflictIndex := conflictIndex }

/-- The overwrite loop at the index `startIndex + i`, with the entries from `i` on: the
log it leaves, and the entries that remain to be appended. -/
def overwriteLoop : Int → List Entry → Option (List Entry × List Entry)
  | _, [] => some (r.log, [])
  | index, e :: es =>
      if asSize index < r.log.length then do
        let entry ← r.readLog index
        if entry.term ≠ e.term then
          let erased ← r.eraseLog index
          return (erased, e :: es)
        else overwriteLoop (index + 1) es
      else some (r.log, e :: es)

def writeEntriesChecked : Option Raft :=
  if req.entries = [] then some r
  else do
    let (log, rest) ← r.overwriteLoop req.prevLogIndex req.entries
    return { r with log := log ++ rest }

/-- `append_entries`, `none` if an index is outside the log. -/
def appendEntriesChecked : Option (Raft × AppendEntriesReply) :=
  if r.active = false then some (r, {})
  else if req.term < r.currentTerm then some (r, { term := r.currentTerm, success := false })
  else do
    let r' := r.acknowledge req
    if ← r'.prevMismatchChecked req then
      let _ ← r'.loggedEntry req
      let info ← r'.conflictInfoChecked req
      return (r', { term := r'.currentTerm, success := false, conflictInfo := some info })
    else
      let written ← r'.writeEntriesChecked req
      let r'' ← written.followCommit req
      return (r'', { term := r'.currentTerm, success := true })

variable {r req}

/-! ## No check fails -/

section InRange

variable (low : -(2 ^ 63) ≤ req.prevLogIndex) (high : req.prevLogIndex < 2 ^ 63)
  (vector : r.log.length < 2 ^ 63)

include low high vector

theorem prevMismatchChecked_eq :
    r.prevMismatchChecked req = some (decide (r.prevMismatch req)) := by
  unfold prevMismatchChecked prevMismatch
  split
  · rename_i positive
    have index := asSize_lt (i := req.prevLogIndex - 1) (by omega) (by omega) vector
    split
    · rename_i inside
      obtain ⟨nonneg, below⟩ := index.mp inside
      have read := r.readLog_inside (i := req.prevLogIndex - 1) nonneg (by omega)
      simp [read, positive, inside]
    · rename_i outside
      have beyond : r.readLog (req.prevLogIndex - 1) = none := by
        rw [r.readLog_pred positive, List.getElem?_eq_none]
        omega
      simp [beyond, positive]
      omega
  · rename_i notPositive
    simp [notPositive]

theorem isSome_loggedEntry : (r.loggedEntry req).isSome := by
  unfold loggedEntry
  split
  · rename_i inside
    have below : asSize (req.prevLogIndex - 1) < r.log.length := by
      have same : asSize req.prevLogIndex = req.prevLogIndex.toNat := by
        unfold asSize; rw [Int.emod_eq_of_lt (by omega) (by omega)]
      rw [asSize_lt (by omega) (by omega) vector]
      omega
    obtain ⟨nonneg, below⟩ := (asSize_lt (by omega) (by omega) vector).mp below
    rw [r.readLog_inside nonneg (by omega)]
    rfl
  · rfl

theorem conflictInfoChecked_eq (positive : 0 < req.prevLogIndex) :
    r.conflictInfoChecked req = r.conflictInfo req := by
  have index := asSize_lt (i := req.prevLogIndex - 1) (by omega) (by omega) vector
  unfold conflictInfoChecked conflictInfo
  by_cases short : (r.log.length : Int) ≤ req.prevLogIndex - 1
  · rw [if_pos short, if_pos (by omega)]
  · rw [if_neg short, if_neg (by omega)]

omit low high in
/-- From an index inside the log on, the loop keeps what agrees and erases the rest. -/
theorem overwriteLoop_eq (index : Nat) (entries : List Entry) (inside : index ≤ r.log.length) :
    ∃ log rest, r.overwriteLoop index entries = some (log, rest) ∧
      log ++ rest = overwrite Entry.term r.log index entries := by
  induction entries generalizing index with
  | nil => exact ⟨r.log, [], rfl, List.append_nil _⟩
  | cons e es ih =>
      have size : asSize index < r.log.length ↔ index < r.log.length := by
        rw [asSize_lt (by omega) (by omega) vector]
        omega
      unfold overwriteLoop overwrite
      by_cases below : index < r.log.length
      · have read : r.readLog index = some r.log[index] :=
          r.readLog_inside (i := index) (by omega) below
        rw [if_pos (size.mpr below), List.getElem?_eq_getElem below]
        simp only [read, Option.bind_eq_bind, Option.bind_some, Option.pure_def]
        by_cases same : r.log[index].term = e.term
        · rw [if_neg (not_not.mpr same), if_pos same]
          exact ih (index + 1) below
        · rw [if_pos same, if_neg same, eraseLog, if_pos ⟨by omega, by omega⟩]
          exact ⟨r.log.take index, e :: es, rfl, rfl⟩
      · rw [if_neg (mt size.mp below), List.getElem?_eq_none (by omega)]
        exact ⟨r.log, e :: es, rfl, rfl⟩

/-- The entries are written without an index outside the log, once the check passed. -/
theorem writeEntriesChecked_eq (consistent : ¬ r.prevMismatch req) :
    r.writeEntriesChecked req = some (r.writeEntries req) := by
  unfold writeEntriesChecked writeEntries
  by_cases empty : req.entries = []
  · simp [empty, overwrite]
  rw [if_neg empty]
  by_cases negative : req.prevLogIndex < 0
  · -- the converted index is huge, and the loop ends at once
    rw [if_pos negative]
    have huge : ¬ asSize req.prevLogIndex < r.log.length := by
      rw [asSize_lt low high vector]
      omega
    cases entries : req.entries with
    | nil => exact absurd entries empty
    | cons e es => simp [overwriteLoop, huge]
  · have inside : req.prevLogIndex.toNat ≤ r.log.length := by
      by_contra beyond
      apply consistent
      refine ⟨by omega, ?_⟩
      rw [r.readLog_pred (by omega), List.getElem?_eq_none (by omega)]
      exact fun _ none => by cases none
    obtain ⟨log, rest, looped, same⟩ :=
      overwriteLoop_eq vector req.prevLogIndex.toNat req.entries inside
    rw [Int.toNat_of_nonneg (by omega)] at looped
    simp [looped, same, negative]

/-- **No index is outside the log**: the checked function is the function. -/
theorem appendEntriesChecked_eq : r.appendEntriesChecked req = r.appendEntries req := by
  unfold appendEntriesChecked appendEntries
  split
  · rfl
  split
  · rfl
  · rename_i notOld
    have sameLog : (r.acknowledge req).log = r.log :=
      congrArg Core.log (r.core_acknowledge req (by omega))
    rw [← sameLog] at vector
    obtain ⟨logged, printed⟩ :=
      Option.isSome_iff_exists.mp (isSome_loggedEntry low high vector)
    simp only [prevMismatchChecked_eq low high vector, Option.bind_eq_bind, Option.bind_some,
      decide_eq_true_eq, printed]
    split
    · rename_i mismatch
      rw [conflictInfoChecked_eq low high vector mismatch.1]
    · rename_i consistent
      rw [writeEntriesChecked_eq low high vector consistent, Option.bind_some]

end InRange

/-! ## The contract -/

/-- What a refusal by the consistency check reports, in 1-based indices: the log is too
short, or it holds the whole stretch of `conflictTerm` that ends at `prev_log_index`. -/
structure Reports (r : Raft) (req : AppendEntriesRequest) (info : ConflictInfo) : Prop where
  positive : 1 ≤ info.conflictIndex
  notBeyond : info.conflictIndex ≤ req.prevLogIndex
  conflict : r.log.length < req.prevLogIndex ∧ info.conflictTerm = 0 ∧
      info.conflictIndex = r.log.length + 1 ∨
    req.prevLogIndex ≤ r.log.length ∧ info.conflictTerm ≠ req.prevLogTerm ∧
      (∀ i entry, r.readLog (i - 1) = some entry → info.conflictIndex ≤ i → i ≤ req.prevLogIndex →
        entry.term = info.conflictTerm) ∧
      ∀ entry, r.readLog (info.conflictIndex - 1 - 1) = some entry →
        entry.term ≠ info.conflictTerm

theorem readLog_eq_some {i : Int} {entry : Entry} :
    r.readLog i = some entry ↔ 0 ≤ i ∧ r.log[i.toNat]? = some entry := by
  unfold readLog
  split
  · rename_i negative
    simp only [reduceCtorEq, false_iff, not_and]
    omega
  · rename_i nonneg
    exact ⟨fun read => ⟨by omega, read⟩, And.right⟩

theorem reports_of_conflictInfo {info : ConflictInfo} (mismatch : r.prevMismatch req)
    (report : r.conflictInfo req = some info) : r.Reports req info := by
  obtain ⟨positive, different⟩ := mismatch
  obtain ⟨prev, isPrev⟩ := Int.eq_ofNat_of_zero_le (show 0 ≤ req.prevLogIndex by omega)
  rcases conflictInfo_spec (by omega) isPrev report with ⟨short, rfl⟩ |
    ⟨entry, s, read, le, rfl, stretch, before⟩
  · exact ⟨by simp only; omega, by simp only; omega, Or.inl ⟨by omega, rfl, rfl⟩⟩
  · have inside : prev - 1 < r.log.length := (List.getElem?_eq_some_iff.mp read).1
    refine ⟨by simp only; omega, by simp only; omega, Or.inr ⟨by omega, ?_, ?_, ?_⟩⟩
    · apply different entry
      rw [r.readLog_pred positive, isPrev, Int.toNat_natCast]
      exact read
    · intro i other atI low high
      obtain ⟨nonneg, atI⟩ := readLog_eq_some.mp atI
      exact stretch _ other atI (by simp only at low; omega) (by omega)
    · intro other atBefore
      obtain ⟨nonneg, atBefore⟩ := readLog_eq_some.mp atBefore
      simp only at nonneg atBefore
      exact before _ other atBefore (by omega)

/-- **The contract of `append_entries`.**  On an active node, whatever the request, no
index is outside the log; a refusal leaves the log and both indices as they are; and if
the term of the request is not old, it reports the conflict. -/
theorem append_entries_contract (r : Raft) (req : AppendEntriesRequest) (active : r.active = true)
    (low : -(2 ^ 63) ≤ req.prevLogIndex) (high : req.prevLogIndex < 2 ^ 63)
    (vector : r.log.length < 2 ^ 63) :
    ∃ r' reply, r.appendEntriesChecked req = some (r', reply) ∧
      (reply.success = false → r'.log = r.log ∧ r'.commitIndex = r.commitIndex ∧
        r'.lastApplied = r.lastApplied) ∧
      (reply.success = false → r.currentTerm ≤ req.term →
        ∃ info, reply.conflictInfo = some info ∧ r.Reports req info) := by
  have answered := r.appendEntries_answer req
  refine ⟨_, _, (appendEntriesChecked_eq low high vector).trans answered, ?_, ?_⟩
  · intro refused
    rcases appendEntries_refused answered refused with ⟨-, same⟩ | ⟨notOld, -, same, -⟩
    · rw [same]
      exact ⟨rfl, rfl, rfl⟩
    · have progress := r.progress_acknowledge req
      rw [same]
      exact ⟨congrArg Core.log (r.core_acknowledge req notOld),
        congrArg Progress.commitIndex progress, congrArg Progress.lastApplied progress⟩
  · intro refused notOld
    rcases appendEntries_refused answered refused with ⟨ignored, -⟩ |
      ⟨-, mismatch, -, info, report, same⟩
    · rcases ignored with inactive | old
      · simp [active] at inactive
      · omega
    · rw [same]
      exact ⟨info, rfl, reports_of_conflictInfo mismatch report⟩

/-- A log with the terms 1, 2, 2 is asked for an entry of term 3 at index 3. -/
theorem append_entries_contract_of_conflict :
    ∃ r' reply, ({ new .follower with
        active := true, log := [⟨1, "x"⟩, ⟨2, "y"⟩, ⟨2, "z"⟩] } : Raft).appendEntriesChecked
          ⟨3, 2, 3, 3, [], 0⟩ = some (r', reply) ∧
      reply.conflictInfo = some ⟨2, 2⟩ ∧ r'.log = [⟨1, "x"⟩, ⟨2, "y"⟩, ⟨2, "z"⟩] := by
  obtain ⟨r', reply, answered, unchanged, -⟩ := append_entries_contract
    { new .follower with active := true, log := [⟨1, "x"⟩, ⟨2, "y"⟩, ⟨2, "z"⟩] }
    ⟨3, 2, 3, 3, [], 0⟩ rfl (by decide) (by decide) (by decide)
  have refuses := answered
  refine ⟨r', reply, answered, ?_, (unchanged ?_).1⟩
  all_goals cases refuses; rfl

end Raft

end Rafty
