/-
# Rafty.Kernel.Bounds — the handlers read inside the log

A function of the model is `none` where its source would index outside `log`.
`append_entries` never is, for any request and any state.  The handler of its reply
is not as long as the log, in the leadership the request belongs to, has at least
the size it had when the request was built.
-/
import Rafty.Kernel.Progress

namespace Rafty

set_option autoImplicit false

namespace Raft

variable (config : Config) {r : Raft}

theorem readLog_pred {i : Int} (positive : 0 < i) : r.readLog (i - 1) = r.log[i.toNat - 1]? := by
  rw [readLog, if_neg (by omega)]
  congr 1
  omega

theorem readLog_inside {i : Int} (low : 0 ≤ i) (inside : i.toNat < r.log.length) :
    r.readLog i = some r.log[i.toNat] := by
  rw [readLog, if_neg (by omega), List.getElem?_eq_getElem inside]

/-! ## append_entries -/

theorem isSome_firstIndexOfTerm (conflictTerm : Int) {i : Nat} (inside : i < r.log.length) :
    (r.firstIndexOfTerm conflictTerm i).isSome := by
  induction i with
  | zero => simp [firstIndexOfTerm, List.getElem?_eq_getElem inside]
  | succ i ih =>
      simp only [firstIndexOfTerm, List.getElem?_eq_getElem inside, Option.bind_eq_bind,
        Option.bind_some]
      split
      · rfl
      · exact ih (by omega)

theorem isSome_conflictInfo {req : AppendEntriesRequest} (positive : 0 < req.prevLogIndex) :
    (r.conflictInfo req).isSome := by
  unfold conflictInfo
  split
  · rfl
  · rename_i inside
    have read : (req.prevLogIndex - 1).toNat < r.log.length := by omega
    obtain ⟨first, found⟩ := Option.isSome_iff_exists.mp
      (isSome_firstIndexOfTerm r.log[(req.prevLogIndex - 1).toNat].term read)
    rw [readLog_inside (by omega) read]
    simp only [Option.bind_eq_bind, Option.bind_some, found]
    rfl

theorem isSome_followCommit (req : AppendEntriesRequest) : (r.followCommit req).isSome := by
  unfold followCommit
  split
  · exact isSome_applyEntries _
  · rfl

/-- **No request makes `append_entries` read outside the log.** -/
theorem isSome_appendEntries (r : Raft) (req : AppendEntriesRequest) :
    (r.appendEntries req).isSome := by
  unfold appendEntries
  split
  · rfl
  split
  · rfl
  simp only [Option.pure_def, Option.bind_eq_bind]
  split
  · rename_i mismatch
    obtain ⟨info, found⟩ :=
      Option.isSome_iff_exists.mp (isSome_conflictInfo (r := r.acknowledge req) mismatch.1)
    rw [found]
    rfl
  · obtain ⟨s, followed⟩ := Option.isSome_iff_exists.mp
      (isSome_followCommit (r := (r.acknowledge req).writeEntries req) req)
    rw [followed]
    rfl

/-- What `append_entries` leaves and answers. -/
def answer (r : Raft) (req : AppendEntriesRequest) : Raft × AppendEntriesReply :=
  (r.appendEntries req).get (isSome_appendEntries r req)

theorem appendEntries_answer (r : Raft) (req : AppendEntriesRequest) :
    r.appendEntries req = some ((r.answer req).1, (r.answer req).2) :=
  (Option.some_get (isSome_appendEntries r req)).symm

/-! ## The report of a failed check -/

/-- The scan stops at the first index of the stretch of `conflictTerm` that ends at `i`, or
behind `i` if the entry there has another term. -/
theorem firstIndexOfTerm_spec {conflictTerm found : Int} {i : Nat}
    (scanned : r.firstIndexOfTerm conflictTerm i = some found) :
    ∃ s : Nat, found = s + 1 ∧ s ≤ i + 1 ∧
      (∀ q entry, r.log[q]? = some entry → s ≤ q → q ≤ i → entry.term = conflictTerm) ∧
      ∀ q entry, r.log[q]? = some entry → q + 1 = s → entry.term ≠ conflictTerm := by
  induction i with
  | zero =>
      simp only [firstIndexOfTerm, Option.bind_eq_bind, Option.bind_eq_some_iff,
        Option.pure_def, Option.some.injEq] at scanned
      obtain ⟨entry, read, rfl⟩ := scanned
      split
      · rename_i other
        refine ⟨1, rfl, le_rfl, fun q _ _ above below => by omega, ?_⟩
        intro q before atQ here
        rw [show q = 0 by omega, read] at atQ
        cases atQ
        exact other
      · rename_i same
        rw [not_not] at same
        refine ⟨0, rfl, Nat.zero_le _, ?_, fun q _ _ here => by omega⟩
        intro q other atQ _ below
        rw [Nat.le_zero.mp below, read] at atQ
        cases atQ
        exact same
  | succ i ih =>
      simp only [firstIndexOfTerm, Option.bind_eq_bind, Option.bind_eq_some_iff,
        Option.pure_def] at scanned
      obtain ⟨entry, read, scanned⟩ := scanned
      split at scanned
      · rename_i other
        cases scanned
        refine ⟨i + 2, by push_cast; omega, le_rfl, fun q _ _ above below => by omega, ?_⟩
        intro q before atQ here
        rw [show q = i + 1 by omega, read] at atQ
        cases atQ
        exact other
      · rename_i same
        rw [not_not] at same
        obtain ⟨s, isFound, le, stretch, before⟩ := ih scanned
        refine ⟨s, isFound, by omega, ?_, before⟩
        intro q other atQ above below
        rcases Nat.lt_or_eq_of_le below with lt | rfl
        · exact stretch q other atQ above (by omega)
        · rw [read] at atQ
          cases atQ
          exact same

/-- What a refusal reports: the end of a short log, or the whole stretch of the term at
`prev_log_index`. -/
theorem conflictInfo_spec {req : AppendEntriesRequest} {info : ConflictInfo} {prev : Nat}
    (positive : 0 < prev) (prevIndex : req.prevLogIndex = prev)
    (report : r.conflictInfo req = some info) :
    r.log.length < prev ∧ info = { conflictIndex := r.log.length + 1, conflictTerm := 0 } ∨
      ∃ entry, ∃ s : Nat, r.log[prev - 1]? = some entry ∧ s ≤ prev - 1 ∧
        info = { conflictIndex := s + 1, conflictTerm := entry.term } ∧
        (∀ q other, r.log[q]? = some other → s ≤ q → q ≤ prev - 1 → other.term = entry.term) ∧
        ∀ q other, r.log[q]? = some other → q + 1 = s → other.term ≠ entry.term := by
  unfold conflictInfo at report
  split at report
  · rename_i short
    cases report
    exact Or.inl ⟨by omega, rfl⟩
  · simp only [Option.bind_eq_bind, Option.bind_eq_some_iff, Option.pure_def,
      Option.some.injEq] at report
    obtain ⟨entry, read, found, scanned, rfl⟩ := report
    rw [r.readLog_pred (by omega), prevIndex, Int.toNat_natCast] at read
    rw [prevIndex, show ((prev : Int) - 1).toNat = prev - 1 by omega] at scanned
    obtain ⟨s, rfl, le, stretch, before⟩ := firstIndexOfTerm_spec scanned
    refine Or.inr ⟨entry, s, read, ?_, rfl, stretch, before⟩
    -- the entry the scan starts from has the term
    by_contra beyond
    exact before (prev - 1) entry read (by omega) rfl

/-! ## The reply -/

theorem isSome_lastOfTerm (conflictTerm : Int) (fuel : Nat) {left right last : Int}
    (low : 0 ≤ left) (high : right < r.log.length) :
    (r.lastOfTerm conflictTerm fuel left right last).isSome := by
  induction fuel generalizing left right last with
  | zero => rfl
  | succ fuel ih =>
      simp only [lastOfTerm]
      split
      · rfl
      · have inside : (left + (right - left) / 2).toNat < r.log.length := by omega
        simp only [readLog_inside (show 0 ≤ left + (right - left) / 2 by omega) inside,
          Option.bind_eq_bind, Option.bind_some]
        split
        · exact ih (by omega) high
        split
        · exact ih (by omega) high
        · exact ih low (by omega)

theorem isSome_backUp {call : AppendCall} (reply : AppendEntriesReply)
    (size : call.currentLogSize ≤ r.log.length) : (r.backUp call reply).isSome := by
  simp only [backUp]
  split
  · rfl
  · split
    · rename_i info _
      have low : 0 ≤ max 0 (r.matchIndex call.target) := le_max_left _ _
      have high : min ((call.currentLogSize : Int) - 1) (r.nextIndex call.target - 2) <
          r.log.length := by omega
      simp only [Option.bind_eq_bind]
      generalize (min _ _ - max _ _ + 1 : Int).toNat = fuel
      obtain ⟨last, found⟩ :=
        Option.isSome_iff_exists.mp (isSome_lastOfTerm info.conflictTerm fuel low high)
      rw [found]
      rfl
    · split <;> rfl

theorem isSome_commitScan {n : Nat} (inside : n ≤ r.log.length) :
    (r.commitScan config n).isSome := by
  induction n with
  | zero => rfl
  | succ n ih =>
      simp only [commitScan]
      split
      · rfl
      · simp only [List.getElem?_eq_getElem (show n < r.log.length by omega), Option.bind_eq_bind,
          Option.bind_some]
        split
        · rfl
        · exact ih (by omega)

theorem isSome_advance {call : AppendCall}
    (inside : (lastLogIndexSent call).toNat ≤ r.log.length) : (r.advance config call).isSome := by
  obtain ⟨found, scanned⟩ := Option.isSome_iff_exists.mp
    (isSome_commitScan config
      (r := (r.setMatchIndex call.target (lastLogIndexSent call)).setNextIndex call.target
        (lastLogIndexSent call + 1)) inside)
  simp only [advance, scanned, Option.bind_eq_bind, Option.bind_some]
  split
  · exact isSome_applyEntries _
  · rfl

/-- The log has not become shorter since the request of this leadership was built. -/
def Covers (r : Raft) (call : AppendCall) : Prop :=
  r.currentRole = .leader → call.req.term = r.currentTerm →
    call.currentLogSize ≤ r.log.length ∧ (lastLogIndexSent call).toNat ≤ r.log.length

/-- **The handler of a reply reads inside the log**, whatever the reply is. -/
theorem isSome_handleAppendReply {call : AppendCall} (reply : AppendEntriesReply)
    (covers : r.Covers call) : (r.handleAppendReply config call reply).isSome := by
  simp only [handleAppendReply]
  split
  · rfl
  split
  · rfl
  split
  · rfl
  · rename_i current
    simp only [not_or, not_not] at current
    obtain ⟨size, sent⟩ := covers current.1 current.2
    split
    · exact isSome_backUp reply size
    · exact isSome_advance config sent

end Raft

end Rafty
