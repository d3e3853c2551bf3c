/-
# Rafty.Replication.Delivery — what a follower makes of the segments of one log

The requests of a leader are segments of its log (`Carries`): the entries after the
first `prev`, up to `m`, and the term just before them.  A follower whose log matches
does one of three things with a segment (`log_of_segment`): it refuses it and keeps its
log; it holds the leader's log up to `m` already and keeps its own; or its log becomes the
leader's up to `m`.

None of the three depends on when the request was sent.  So requests may come late, in
any order and any number of times (`delivery`): what was taken in stays, what
agreed stays, and a second delivery changes nothing.

The commit index is another matter.  It goes up to the end of the follower's own log,
which may have a tail the request says nothing about (`commits_verified_iff`).
-/
import Rafty.Kernel.Bounds
import Rafty.Replication.Provenance
import Mathlib.Data.Finset.Lattice.Fold
import Mathlib.Order.Lattice.Nat

namespace Rafty

set_option autoImplicit false

open Theory

/-- The request carries the entries of `L` after the first `prev`, up to `m`. -/
structure AppendEntriesRequest.Carries (req : AppendEntriesRequest) (L : List Entry)
    (prev m : Nat) : Prop where
  le : prev ≤ m
  inside : m ≤ L.length
  prevLogIndex : req.prevLogIndex = prev
  prevLogTerm : 0 < prev → ∃ entry, L[prev - 1]? = some entry ∧ req.prevLogTerm = entry.term
  entries : req.entries = (L.drop prev).take (m - prev)

/-- `prev_log_index + entries_size`. -/
def AppendEntriesRequest.reach (req : AppendEntriesRequest) : Nat :=
  req.prevLogIndex.toNat + req.entries.length

/-- A segment of `L` as a request of term `t`. -/
def AppendEntriesRequest.segment (t : Int) (L : List Entry) (prev m : Nat) (leaderCommit : Int) :
    AppendEntriesRequest where
  term := t
  leaderId := 1
  prevLogIndex := prev
  prevLogTerm := if prev = 0 then 0 else (L[prev - 1]?.map Entry.term).getD 0
  entries := (L.drop prev).take (m - prev)
  leaderCommit := leaderCommit

instance : Inhabited AppendEntriesRequest := ⟨.segment 0 [] 0 0 0⟩

theorem AppendEntriesRequest.Carries.segment {t : Int} {L : List Entry} {prev m : Nat}
    {leaderCommit : Int} (le : prev ≤ m) (inside : m ≤ L.length) :
    (AppendEntriesRequest.segment t L prev m leaderCommit).Carries L prev m where
  le := le
  inside := inside
  prevLogIndex := rfl
  prevLogTerm positive := by
    have bound : prev - 1 < L.length := by omega
    refine ⟨L[prev - 1], List.getElem?_eq_getElem bound, ?_⟩
    simp [AppendEntriesRequest.segment, List.getElem?_eq_getElem bound,
      Nat.ne_of_gt positive]
  entries := rfl

theorem AppendEntriesRequest.Carries.reach {req : AppendEntriesRequest} {L : List Entry}
    {prev m : Nat} (carries : req.Carries L prev m) : req.reach = m := by
  have le := carries.le
  have inside := carries.inside
  rw [AppendEntriesRequest.reach, carries.prevLogIndex, carries.entries, List.length_take,
    List.length_drop]
  omega

namespace Raft

variable {r s : Raft} {req : AppendEntriesRequest} {reply : AppendEntriesReply} {L : List Entry}
  {prev m : Nat}

/-! ## Any request -/

/-- The request carries, at an index up to `i`, an entry of another term than the log
has there. -/
def Conflicts (r : Raft) (req : AppendEntriesRequest) (i : Nat) : Prop :=
  ∃ m x y, r.log[req.prevLogIndex.toNat + m]? = some x ∧ req.entries[m]? = some y ∧
    req.prevLogIndex.toNat + m < i ∧ x.term ≠ y.term

/-- `append_entries` gets as far as writing. -/
def TakesIn (r : Raft) (req : AppendEntriesRequest) : Prop :=
  r.active = true ∧ r.currentTerm ≤ req.term ∧ ¬ r.prevMismatch req

/-- What passes the consistency check begins inside the log. -/
theorem inside_of_consistent (consistent : ¬ r.prevMismatch req) :
    req.prevLogIndex.toNat ≤ r.log.length := by
  by_cases positive : 0 < req.prevLogIndex
  · simp only [prevMismatch, not_and, not_forall, r.readLog_pred positive] at consistent
    obtain ⟨x, read, -⟩ := consistent positive
    have := (List.getElem?_eq_some_iff.mp read).1
    omega
  · omega

/-- Without a conflict up to `i`, the first `i` entries stay. -/
theorem writeEntries_keeps {i : Nat} (consistent : ¬ r.prevMismatch req)
    (noConflict : ¬ r.Conflicts req i) : r.log.take i <+: (r.writeEntries req).log := by
  unfold writeEntries
  simp only
  split
  · exact (List.take_prefix _ _).trans (List.prefix_append _ _)
  · apply overwrite_keeps (inside_of_consistent consistent)
    intro m x y atX atY below
    by_contra differ
    exact noConflict ⟨m, x, y, atX, atY, below, differ⟩

theorem appendEntries_inactive {req : AppendEntriesRequest} (inactive : r.active = false) :
    r.appendEntries req = some (r, {}) := by
  simp [appendEntries, inactive]

/-- What is taken in is written. -/
theorem log_of_takesIn (takesIn : r.TakesIn req)
    (answered : r.appendEntries req = some (s, reply)) : s.log = (r.writeEntries req).log := by
  obtain ⟨running, notOld, consistent⟩ := takesIn
  cases success : reply.success with
  | true =>
      obtain ⟨-, -, -, followed⟩ := appendEntries_success answered success
      exact congrArg Core.log (core_accepted notOld followed)
  | false =>
      rcases appendEntries_refused answered success with ⟨inactive | old, -⟩ | ⟨-, failed, -⟩
      · simp [running] at inactive
      · omega
      · exact absurd failed consistent

/-- Where the log ends afterwards: behind what was sent, and not beyond that and its old end. -/
theorem length_writeEntries (consistent : ¬ r.prevMismatch req) (nonneg : 0 ≤ req.prevLogIndex) :
    req.reach ≤ (r.writeEntries req).log.length ∧
      (r.writeEntries req).log.length ≤ max r.log.length req.reach := by
  simp only [writeEntries, if_neg (not_lt.mpr nonneg)]
  exact length_overwrite (inside_of_consistent consistent)

/-- With a conflict it ends with what was sent. -/
theorem length_of_conflict {i : Nat} (conflict : r.Conflicts req i)
    (nonneg : 0 ≤ req.prevLogIndex) : (r.writeEntries req).log.length = req.reach := by
  obtain ⟨m, x, y, atX, atY, -, differ⟩ := conflict
  simp only [writeEntries, if_neg (not_lt.mpr nonneg)]
  exact length_overwrite_of_conflict atX atY differ

/-! ## One segment -/

/-- A refused request leaves the log. -/
theorem log_of_refused (answered : r.appendEntries req = some (s, reply))
    (refused : reply.success = false) : s.log = r.log := by
  rcases appendEntries_refused answered refused with ⟨-, rfl⟩ | ⟨notOld, -, rfl, -⟩
  · rfl
  · exact congrArg Core.log (r.core_acknowledge req notOld)

/-- Passing the consistency check, a follower whose log matches agrees up to `prev`. -/
theorem agrees_of_consistent (matching : Matching Entry.term r.log L)
    (carries : req.Carries L prev m) (consistent : ¬ r.prevMismatch req) :
    prev ≤ r.log.length ∧ r.log.take prev = L.take prev := by
  rcases Nat.eq_zero_or_pos prev with zero | positive
  · simp [zero]
  · have positiveIndex : 0 < req.prevLogIndex := by
      rw [carries.prevLogIndex]
      omega
    obtain ⟨y, atY, prevTerm⟩ := carries.prevLogTerm positive
    simp only [prevMismatch, not_and, not_forall, not_not, r.readLog_pred positiveIndex]
      at consistent
    obtain ⟨x, atX, same⟩ := consistent positiveIndex
    rw [Option.mem_def, carries.prevLogIndex, Int.toNat_natCast] at atX
    have inside := (List.getElem?_eq_some_iff.mp atX).1
    have agree := matching _ x y atX atY (same.trans prevTerm)
    rw [Nat.sub_add_cancel positive] at agree
    exact ⟨by omega, agree⟩

/-- **What a segment does to a matching log.** -/
theorem log_of_segment (matching : Matching Entry.term r.log L) (carries : req.Carries L prev m)
    (answered : r.appendEntries req = some (s, reply)) :
    reply.success = false ∧ s.log = r.log ∨
      reply.success = true ∧ L.take m <+: r.log ∧ s.log = r.log ∨
      reply.success = true ∧ ¬ L.take m <+: r.log ∧ s.log = L.take m := by
  by_cases success : reply.success = true
  · obtain ⟨notOld, consistent, -, followed⟩ := appendEntries_success answered success
    have written : s.log = (r.writeEntries req).log :=
      congrArg Core.log (core_accepted notOld followed)
    obtain ⟨inside, agree⟩ := agrees_of_consistent matching carries consistent
    have le := carries.le
    have outcome := overwrite_cases matching (m - prev) prev inside (le.trans carries.inside) agree
    have spliced : (r.writeEntries req).log =
        overwrite Entry.term r.log prev ((L.drop prev).take (m - prev)) := by
      simp only [writeEntries, carries.prevLogIndex, Int.toNat_natCast, carries.entries]
      rw [if_neg (by omega)]
    rw [Nat.add_sub_cancel' le, ← spliced, ← written] at outcome
    rcases outcome with ⟨held, same⟩ | ⟨missing, installed⟩
    · exact Or.inr (Or.inl ⟨success, held, same⟩)
    · exact Or.inr (Or.inr ⟨success, missing, installed⟩)
  · rw [Bool.not_eq_true] at success
    exact Or.inl ⟨success, log_of_refused answered success⟩

/-- What the log and `L` have in common. -/
def Agreed (L : List Entry) (r : Raft) (i : Nat) (entry : Entry) : Prop :=
  r.log[i]? = some entry ∧ L[i]? = some entry

/-- A segment does not touch what agrees. -/
theorem agreed_of_segment (matching : Matching Entry.term r.log L)
    (carries : req.Carries L prev m) (answered : r.appendEntries req = some (s, reply))
    {i : Nat} {entry : Entry} (agreed : Agreed L r i entry) : Agreed L s i entry := by
  obtain ⟨atLog, atSource⟩ := agreed
  refine ⟨?_, atSource⟩
  rcases log_of_segment matching carries answered with
    ⟨-, same⟩ | ⟨-, -, same⟩ | ⟨-, missing, installed⟩
  · rw [same, atLog]
  · rw [same, atLog]
  · -- an agreement at or after `m` would mean that nothing is missing
    have below : i < m := by
      by_contra beyond
      have agree := matching i entry entry atLog atSource rfl
      have inLog : L.take m <+: r.log.take (i + 1) := by
        rw [agree]
        exact List.take_prefix_take_left (by omega)
      exact missing (inLog.trans (List.take_prefix _ _))
    rw [installed, List.getElem?_take_of_lt below, atSource]

theorem matching_of_segment (matching : Matching Entry.term r.log L)
    (carries : req.Carries L prev m) (answered : r.appendEntries req = some (s, reply)) :
    Matching Entry.term s.log L := by
  rcases log_of_segment matching carries answered with
    ⟨-, same⟩ | ⟨-, -, same⟩ | ⟨-, -, installed⟩
  · rwa [same]
  · rwa [same]
  · rw [installed]
    exact .of_take _ _ _

/-- An accepted segment is there afterwards. -/
theorem prefix_of_segment (matching : Matching Entry.term r.log L)
    (carries : req.Carries L prev m) (answered : r.appendEntries req = some (s, reply))
    (success : reply.success = true) : L.take m <+: s.log := by
  rcases log_of_segment matching carries answered with
    ⟨refused, -⟩ | ⟨-, held, same⟩ | ⟨-, -, installed⟩
  · rw [refused] at success
    cases success
  · rwa [same]
  · rw [installed]

/-! ## Any order, any number of times -/

/-- `append_entries` answers with success. -/
def accepts (r : Raft) (req : AppendEntriesRequest) : Bool :=
  (r.appendEntries req).any fun answer => answer.2.success

theorem accepts_iff : r.accepts req = true ↔
    ∃ s reply, r.appendEntries req = some (s, reply) ∧ reply.success = true := by
  rw [accepts, Option.any_eq_true_iff_get]
  constructor
  · rintro ⟨some, success⟩
    exact ⟨_, _, (Option.some_get some).symm, success⟩
  · rintro ⟨s, reply, answered, success⟩
    simp [answered, success]

end Raft

/-- A running follower with a given log. -/
def Raft.listening (log : List Entry) : Raft :=
  { Raft.new .follower with active := true, log := log }

/-- A follower that does nothing but receive: every step delivers one request. -/
def receiver : Machine Raft AppendEntriesRequest where
  init _ := True
  step r req := (r.appendEntries req).map Prod.fst

namespace Deliveries

variable (R : Run receiver)

/-- The largest `prev_log_index + entries_size` accepted before state `k`. -/
def reached (k : Nat) : Nat :=
  (Finset.range k).sup fun j => if (R.state j).accepts (R.input j) then (R.input j).reach else 0

variable {R} {L : List Entry} {t : Int}

theorem answered {k : Nat} (within : k < R.length) :
    ∃ reply, (R.state k).appendEntries (R.input k) = some (R.state (k + 1), reply) := by
  obtain ⟨⟨s, reply⟩, answered, same⟩ := Option.map_eq_some_iff.mp (R.next k within)
  exact ⟨reply, same ▸ answered⟩

/-- Every request carries a segment of `L`. -/
def OfSegments (R : Run receiver) (L : List Entry) : Prop :=
  ∀ k, k < R.length → ∃ prev m, (R.input k).Carries L prev m

theorem matching (matching : Matching Entry.term (R.state 0).log L) (segments : OfSegments R L)
    {k : Nat} (bound : k ≤ R.length) : Matching Entry.term (R.state k).log L := by
  apply R.invariant (P := fun k => Matching Entry.term (R.state k).log L) matching ?_ k bound
  intro k within ih
  obtain ⟨prev, m, carries⟩ := segments k within
  obtain ⟨reply, answered⟩ := answered within
  exact Raft.matching_of_segment ih carries answered

theorem agreed (matching : Matching Entry.term (R.state 0).log L) (segments : OfSegments R L)
    {j k : Nat} (le : j ≤ k) (bound : k ≤ R.length) {i : Nat} {entry : Entry}
    (agreed : Raft.Agreed L (R.state j) i entry) : Raft.Agreed L (R.state k) i entry := by
  have kept : ∀ i entry, Raft.Agreed L (R.state j) i entry → Raft.Agreed L (R.state k) i entry := by
    apply R.related (r := fun r s : Raft => ∀ i entry, Raft.Agreed L r i entry →
      Raft.Agreed L s i entry) R.state (fun _ _ _ => id) ?_ ?_ le bound
    · intro x y z first second i entry before
      exact second i entry (first i entry before)
    · intro k within i entry before
      obtain ⟨prev, m, carries⟩ := segments k within
      obtain ⟨reply, answered⟩ := answered within
      exact Raft.agreed_of_segment (Deliveries.matching matching segments within.le) carries
        answered before
  exact kept i entry agreed

/-- What was accepted stays. -/
theorem accepted_stays (matching : Matching Entry.term (R.state 0).log L)
    (segments : OfSegments R L) {j k : Nat} (lt : j < k) (bound : k ≤ R.length)
    (accepts : (R.state j).accepts (R.input j) = true) :
    (R.input j).reach ≤ L.length ∧ L.take (R.input j).reach <+: (R.state k).log := by
  have within : j < R.length := by omega
  obtain ⟨prev, m, carries⟩ := segments j within
  obtain ⟨s, reply, answer, success⟩ := Raft.accepts_iff.mp accepts
  obtain ⟨reply', answered⟩ := answered within
  rw [answer] at answered
  cases answered
  have there := Raft.prefix_of_segment (Deliveries.matching matching segments within.le) carries
    answer success
  rw [carries.reach]
  refine ⟨carries.inside, List.prefix_iff_getElem?.mpr ?_⟩
  intro i inside
  have before := getElem?_extend there (List.getElem?_eq_getElem inside)
  have atSource := getElem?_extend (List.take_prefix m L) (List.getElem?_eq_getElem inside)
  exact (agreed matching segments (show j + 1 ≤ k from lt) bound ⟨before, atSource⟩).1

theorem reached_stays (matching : Matching Entry.term (R.state 0).log L)
    (segments : OfSegments R L) {k : Nat} (bound : k ≤ R.length) :
    reached R k ≤ L.length ∧ L.take (reached R k) <+: (R.state k).log := by
  apply Finset.sup_induction (p := fun n => n ≤ L.length ∧ L.take n <+: (R.state k).log)
  · simp
  · intro n before m after
    rcases le_total n m with le | le
    · rwa [sup_eq_right.mpr le]
    · rwa [sup_eq_left.mpr le]
  · intro j earlier
    split
    · rename_i accepts
      exact accepted_stays matching segments (Finset.mem_range.mp earlier) bound accepts
    · simp

/-- **Segments in any order.**  A follower whose log matches `L` receives segments of `L`,
in any order and any number of times.  After every delivery its log matches `L` and
agrees with it up to the furthest entry accepted so far; no entry on which they agreed is
ever lost; and delivering once more what was accepted leaves the log as it is. -/
theorem delivery (R : Run receiver) (L : List Entry)
    (matching : Matching Entry.term (R.state 0).log L) (segments : OfSegments R L) :
    ∀ k, k ≤ R.length →
      Matching Entry.term (R.state k).log L ∧
      (reached R k ≤ L.length ∧ L.take (reached R k) <+: (R.state k).log) ∧
      (∀ (j i : Nat) (entry : Entry), j ≤ k → (R.state j).log[i]? = some entry → L[i]? = some entry →
        (R.state k).log[i]? = some entry) ∧
      ∀ j s reply, j < k → (R.state j).accepts (R.input j) = true →
        (R.state k).appendEntries (R.input j) = some (s, reply) → s.log = (R.state k).log := by
  intro k bound
  have matchingNow := Deliveries.matching matching segments bound
  refine ⟨matchingNow, reached_stays matching segments bound, ?_, ?_⟩
  · intro j i entry le atLog atSource
    exact (agreed matching segments le bound ⟨atLog, atSource⟩).1
  · intro j s reply lt accepts again
    obtain ⟨prev, m, carries⟩ := segments j (by omega)
    have held := (accepted_stays matching segments lt bound accepts).2
    rw [carries.reach] at held
    rcases Raft.log_of_segment matchingNow carries again with
      ⟨-, same⟩ | ⟨-, -, same⟩ | ⟨-, missing, -⟩
    · exact same
    · exact same
    · exact absurd held missing

/-- Positions 2 to 2, then, late, positions 1 to 1, reach a follower with a stale tail. -/
theorem delivery_of_late :
    ∃ R : Run receiver, R.length = 2 ∧ (R.state 0).log = [⟨1, "a"⟩, ⟨1, "x"⟩] ∧
      reached R 2 = 2 ∧ [⟨1, "a"⟩, ⟨2, "b"⟩] <+: (R.state 2).log := by
  let R : Run receiver := .of receiver (.listening [⟨1, "a"⟩, ⟨1, "x"⟩])
    [.segment 2 [⟨1, "a"⟩, ⟨2, "b"⟩] 1 2 0, .segment 2 [⟨1, "a"⟩, ⟨2, "b"⟩] 0 1 0] trivial
    (by decide +kernel)
  have matching : Matching Entry.term (R.state 0).log [⟨1, "a"⟩, ⟨2, "b"⟩] :=
    .of_checked (by decide)
  have segments : OfSegments R [⟨1, "a"⟩, ⟨2, "b"⟩] := by
    intro k within
    match k, within with
    | 0, _ => exact ⟨1, 2, .segment (by decide) (by decide)⟩
    | 1, _ => exact ⟨0, 1, .segment (by decide) (by decide)⟩
    | k + 2, within =>
        change k + 2 < 2 at within
        omega
  have furthest : reached R 2 = 2 := by decide +kernel
  have held := (delivery R _ matching segments 2 le_rfl).2.1.2
  rw [furthest] at held
  exact ⟨R, rfl, rfl, furthest, held⟩

end Deliveries

/-! ## The commit index -/

namespace Raft

variable {r s : Raft} {req : AppendEntriesRequest} {reply : AppendEntriesReply} {L : List Entry}
  {prev m : Nat}

/-- What is newly committed lies inside the segment and is the leader's. -/
def CommitsVerified (L : List Entry) (m : Nat) (r s : Raft) : Prop :=
  ∀ i, r.commitIndex < i → i ≤ s.commitIndex → i ≤ m ∧ s.log[i - 1]? = L[i - 1]?

/-- The follower lacks an entry of the leader up to `m`, or `leader_commit` reaches no
further into its log than to `m`. -/
def NoTailCommitted (L : List Entry) (m : Nat) (r : Raft) (req : AppendEntriesRequest) : Prop :=
  ¬ L.take m <+: r.log ∨ min req.leaderCommit.toNat r.log.length ≤ max m r.commitIndex

/-- The commit index after an accepted request. -/
theorem commitIndex_of_success (answered : r.appendEntries req = some (s, reply))
    (success : reply.success = true) :
    s.commitIndex =
      if (r.commitIndex : Int) < req.leaderCommit then min req.leaderCommit.toNat s.log.length
      else r.commitIndex := by
  obtain ⟨-, -, -, followed⟩ := appendEntries_success answered success
  have before : ((r.acknowledge req).writeEntries req).commitIndex = r.commitIndex :=
    congrArg Progress.commitIndex (r.progress_acknowledge req)
  rw [followCommit, before] at followed
  split at followed
  · rename_i higher
    rw [if_pos higher]
    have sameLog : s.log = ((r.acknowledge req).writeEntries req).log :=
      congrArg Core.log (core_applyEntries followed)
    obtain ⟨results, -, -, applied⟩ := progress_applyEntries followed
    rw [sameLog]
    exact congrArg Progress.commitIndex applied
  · rename_i notHigher
    cases followed
    rw [if_neg notHigher, before]

/-- **When a follower commits only what the request verified.** -/
theorem commits_verified_iff (matching : Matching Entry.term r.log L)
    (carries : req.Carries L prev m) (answered : r.appendEntries req = some (s, reply))
    (success : reply.success = true) : CommitsVerified L m r s ↔ NoTailCommitted L m r req := by
  have commit := commitIndex_of_success answered success
  rw [CommitsVerified, NoTailCommitted, commit]
  split
  · rename_i higher
    rcases log_of_segment matching carries answered with
      ⟨refused, -⟩ | ⟨-, held, same⟩ | ⟨-, missing, installed⟩
    · rw [refused] at success
      cases success
    · rw [same]
      constructor
      · intro verified
        right
        by_contra beyond
        rw [not_le, max_lt_iff] at beyond
        have := (verified _ beyond.2 le_rfl).1
        omega
      · rintro (missing | short) i new le
        · exact absurd held missing
        · have inside : i ≤ m := by
            rcases le_max_iff.mp (le.trans short) with h | h
            · exact h
            · omega
          have atSource : (L.take m)[i - 1]? = L[i - 1]? :=
            List.getElem?_take_of_lt (by omega)
          have bound : i - 1 < (L.take m).length := by
            have := carries.inside
            rw [List.length_take]
            omega
          refine ⟨inside, ?_⟩
          rw [← atSource, List.getElem?_eq_getElem bound]
          exact getElem?_extend held (List.getElem?_eq_getElem bound)
    · refine iff_of_true ?_ (Or.inl missing)
      intro i new le
      rw [installed, List.length_take] at le
      refine ⟨by omega, ?_⟩
      rw [installed, List.getElem?_take_of_lt (by omega)]
  · refine iff_of_true ?_ (Or.inr ?_)
    · intro i new le
      omega
    · omega

/-- The log of a leader of term 2. -/
def leaderLog : List Entry := [⟨1, "a"⟩, ⟨2, "b"⟩]

theorem commits_verified_of_short :
    ∃ s reply, (listening [⟨1, "a"⟩]).appendEntries (.segment 2 leaderLog 1 1 2) =
      some (s, reply) ∧ s.commitIndex = 1 ∧
        CommitsVerified leaderLog 1 (listening [⟨1, "a"⟩]) s := by
  have answered := appendEntries_answer (listening [⟨1, "a"⟩]) (.segment 2 leaderLog 1 1 2)
  have short : NoTailCommitted leaderLog 1 (listening [⟨1, "a"⟩]) (.segment 2 leaderLog 1 1 2) :=
    Or.inr (by decide)
  exact ⟨_, _, answered, by decide +kernel,
    (commits_verified_iff (.of_checked (by decide)) (.segment (by decide) (by decide)) answered
      (by decide +kernel)).mpr short⟩

theorem commits_verified_refuted :
    ¬ ∀ (L : List Entry) (prev m : Nat) (r s : Raft) (req : AppendEntriesRequest)
      (reply : AppendEntriesReply), Matching Entry.term r.log L → req.Carries L prev m →
        req.leaderCommit ≤ L.length → r.currentTerm ≤ req.term →
          r.appendEntries req = some (s, reply) → reply.success = true →
            CommitsVerified L m r s := by
  intro verified
  let r := listening [⟨1, "a"⟩, ⟨1, "x"⟩]
  have answered := appendEntries_answer r (.segment 2 leaderLog 1 1 2)
  have committed : (r.answer (.segment 2 leaderLog 1 1 2)).1.commitIndex = 2 := by decide +kernel
  have held := verified leaderLog 1 1 r _ _ _ (.of_checked (by decide))
    (.segment (by decide) (by decide)) (by decide) (by decide) answered (by decide +kernel)
  exact absurd (held 2 (by decide) committed.ge).1 (by decide)

end Raft

end Rafty
