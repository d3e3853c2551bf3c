/-
# Rafty.Replication.Matching — the Log Matching property

What the leaders of one term held forms a chain: there is one of them, and its log
only grows (`chained`).  Every log is authored, that is, each prefix was held by a
leader of the term of its last entry.  A proposal extends the log of a leader, and a
splice leaves the receiver's log alone or installs the sender's
(`Splice.outcome`), so both keep logs authored, and authored logs match.
-/
import Rafty.Replication.Sorted

namespace Rafty

set_option autoImplicit false

open Theory

namespace ClusterRun

variable {cl : Cluster} {R : ClusterRun cl} {j k a b : Nat} {t : Int} {call : AppendCall}

/-! ## What leaders held -/

/-- A leader of term `t` held the log `L`. -/
def Held (R : ClusterRun cl) (t : Int) (L : List Entry) : Prop :=
  ∃ k a, R.Leads k a t ∧ (R.node k a).log = L

theorem chained (unique : R.OneLeaderPerTerm) : Chained R.Held := by
  rintro t L M ⟨j, a, first, rfl⟩ ⟨k, b, second, rfl⟩
  have same := unique.leads first second
  subst same
  rcases le_total j k with le | le
  · exact Or.inl (first.log second le)
  · exact Or.inr (second.log first le)

/-! ## Splices of matching logs -/

section Splice

variable (splice : R.Splice k a j call)
  (matching : Matching Entry.term (R.node k a).log (R.node j call.caller).log)

include splice matching

theorem Splice.take_eq :
    (R.node k a).log.take call.pos = (R.node j call.caller).log.take call.pos := by
  rcases Nat.eq_zero_or_pos call.pos with zero | positive
  · simp [zero]
  · obtain ⟨x, y, atX, atY, same⟩ := splice.agree positive
    have agree := matching _ x y atX atY same
    rwa [Nat.sub_add_cancel positive] at agree

/-- **A splice is all or nothing.**  The receiver holds the sender's log already and
keeps its own, or it installs the sender's. -/
theorem Splice.outcome :
    (R.node j call.caller).log <+: (R.node k a).log ∧
        (R.node (k + 1) a).log = (R.node k a).log ∨
      ¬ (R.node j call.caller).log <+: (R.node k a).log ∧
        (R.node (k + 1) a).log = (R.node j call.caller).log := by
  have inside := splice.sent.sends.inside
  have cases := overwrite_cases matching ((R.node j call.caller).log.length - call.pos) call.pos
    splice.inside inside (splice.take_eq matching)
  have batch : ((R.node j call.caller).log.drop call.pos).take
      ((R.node j call.caller).log.length - call.pos) = (R.node j call.caller).log.drop call.pos :=
    List.take_of_length_le (by simp)
  rw [batch, Nat.add_sub_cancel' inside, List.take_length, ← splice.log] at cases
  exact cases

/-- What was sent is there afterwards. -/
theorem Splice.installs : (R.node j call.caller).log <+: (R.node (k + 1) a).log := by
  rcases splice.outcome matching with ⟨held, same⟩ | ⟨-, installed⟩
  · rwa [same]
  · rw [installed]

end Splice

/-! ## Authored logs -/

theorem authored (unique : R.OneLeaderPerTerm) (afterRun : R.ProposesAfterRun)
    (bound : k ≤ R.length) (a : Nat) : Authored Entry.term R.Held (R.node k a).log := by
  revert a
  apply R.history (P := fun k => ∀ a, Authored Entry.term R.Held (R.node k a).log) ?_ ?_ k bound
  · intro a
    obtain ⟨role, isNew⟩ := R.start_node a
    rw [isNew]
    exact .nil
  · intro k within ih a
    have old := ih k le_rfl a
    cases logStep within a with
    | kept same => rwa [same]
    | proposed data input output ran proposes role core =>
        have leads := (leads_of_proposed afterRun ran proposes role core).2
        have log := log_of_proposed core
        rw [log]
        exact old.concat ⟨k + 1, a, leads, log⟩
    | spliced j call splice =>
        have source := ih j splice.lt.le call.caller
        rcases splice.outcome (old.matching (chained unique) source) with
          ⟨-, same⟩ | ⟨-, installed⟩
        · rwa [same]
        · rwa [installed]

/-- Any two logs of a run match. -/
theorem matching (unique : R.OneLeaderPerTerm) (afterRun : R.ProposesAfterRun)
    (boundJ : j ≤ R.length) (boundK : k ≤ R.length) (a b : Nat) :
    Matching Entry.term (R.node j a).log (R.node k b).log :=
  (authored unique afterRun boundJ a).matching (chained unique) (authored unique afterRun boundK b)

/-- Splices install, in a run with one leader in a term. -/
theorem Splice.matching (splice : R.Splice k a j call) (unique : R.OneLeaderPerTerm)
    (afterRun : R.ProposesAfterRun) :
    Matching Entry.term (R.node k a).log (R.node j call.caller).log :=
  ClusterRun.matching unique afterRun splice.within.le splice.sent.ran.within.le a call.caller

/-! ## Log Matching -/

/-- A log and the segment of a request, which starts after `call.pos` entries, are equal
up to an index where they show one term. -/
def SegmentMatching (log : List Entry) (call : AppendCall) : Prop :=
  ∀ i x y, log[call.pos + i]? = some x → call.req.entries[i]? = some y → x.term = y.term →
    (log.drop call.pos).take (i + 1) = call.req.entries.take (i + 1)

theorem segment_of_matching {log source : List Entry} (matching : Matching Entry.term log source)
    (entries : call.req.entries = source.drop call.pos) : SegmentMatching log call := by
  intro i x y atX atY same
  rw [entries, List.getElem?_drop] at atY
  have agree := congrArg (List.drop call.pos) (matching _ x y atX atY same)
  rw [List.drop_take, List.drop_take] at agree
  rw [entries]
  simpa [Nat.add_sub_cancel_left, Nat.add_assoc] using agree

/-- **Log Matching.**  Logs that show one term at one index are equal up to it, and so
are a log and a segment in flight; during a leadership the leader's log is only
appended to; and no node becomes leader of a term twice or leads it with a gap. -/
theorem log_matching (R : ClusterRun cl) (unique : R.OneLeaderPerTerm)
    (afterRun : R.ProposesAfterRun) :
    (∀ j k a b, j ≤ R.length → k ≤ R.length →
      Matching Entry.term (R.node j a).log (R.node k b).log) ∧
    (∀ j k a call, j ≤ R.length → k ≤ R.length → call ∈ (R.state k).appendRequests →
      SegmentMatching (R.node j a).log call) ∧
    (∀ j k a t, j ≤ k → R.Leads j a t → R.Leads k a t →
      (R.node j a).log <+: (R.node k a).log ∧ ∀ i, j ≤ i → i ≤ k → R.Leads i a t) ∧
    ∀ j k a t, R.Elects j a t → R.Elects k a t → j = k := by
  refine ⟨?_, ?_, ?_, ?_⟩
  · intro j k a b boundJ boundK
    exact matching unique afterRun boundJ boundK a b
  · intro j k a call boundJ boundK member
    obtain ⟨m, -, sent⟩ := sent_of_request boundK member
    exact segment_of_matching
      (matching unique afterRun boundJ sent.ran.within.le a call.caller) sent.sends.entries
  · intro j k a t le first last
    constructor
    · exact first.log last le
    · intro i lower upper
      exact first.between last lower upper
  · intro j k a t first second
    exact first.unique_step second

theorem log_matching_of_commit :
    ∃ R : ClusterRun (.ofSize 3 (by decide)), (R.node 17 2).log = [⟨1, "x"⟩] ∧
      Matching Entry.term (R.node 17 1).log (R.node 17 2).log := by
  let R : ClusterRun (.ofSize 3 (by decide)) := .of _ oneCommit oneCommit_accepted
  have unique : R.OneLeaderPerTerm := oneLeader_of_majority (Or.inl rfl) R
  have afterRun : R.ProposesAfterRun := proposesAfterRun_of_checked (by decide +kernel)
  exact ⟨R, by decide +kernel,
    (log_matching R unique afterRun).1 17 17 1 2 (by decide) (by decide)⟩

end ClusterRun

end Rafty
