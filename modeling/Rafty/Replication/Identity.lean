/-
# Rafty.Replication.Identity — every entry is one accepted proposal

A proposal is accepted at one step, by a leader, which answers with an index and a
term (`Accepts`).  One leader in a term and an append-only log make the pair unique
(`Accepts.unique`).  An entry enters a log by being proposed there, or with a splice,
which leaves every entry at its index; so each entry at index `i` with term `t`, in a
log, in a request or handed out, is the proposal that was answered with `(i, t)`.
-/
import Rafty.Replication.Matching
import Rafty.Commit.Apply

namespace Rafty

set_option autoImplicit false

open Theory

namespace Raft

variable {config : Config} {r r' : Raft}

/-- An accepted proposal is appended. -/
theorem core_of_proposal {data : String} {input : Input} {output : Output}
    (proposes : input = .propose data ∨ input = .proposeSync data) (role : r.currentRole = .leader)
    (stepped : r.step config input = some (r', output)) :
    r'.core = { r.core with log := r.log ++ [r.proposed data] } := by
  rcases proposes with rfl | rfl
  · simp only [step, Option.some.injEq, Prod.mk.injEq] at stepped
    obtain ⟨rfl, -⟩ := stepped
    rw [propose, if_pos role]
    rfl
  · simp only [step, Option.some.injEq, Prod.mk.injEq] at stepped
    obtain ⟨rfl, -⟩ := stepped
    rw [proposeSync, if_pos role]
    simp only
    split <;> rfl

end Raft

namespace ClusterRun

variable {cl : Cluster} {R : ClusterRun cl} {j k a b i : Nat} {t : Int} {data : String}
  {call : AppendCall}

/-! ## Accepted proposals -/

/-- At step `k` node `a` accepts a proposal of `data` and assigns it index `i` and term
`t`: that is what `propose` answers, and what `propose_sync` will answer. -/
structure Accepts (R : ClusterRun cl) (k a : Nat) (data : String) (i : Nat) (t : Int) : Prop where
  ran : ∃ input output, R.Ran k a input output ∧
    (input = .propose data ∨ input = .proposeSync data)
  role : (R.node k a).currentRole = .leader
  answer : (R.node k a).accepted = { index := i, term := t, isLeader := true }

theorem Accepts.index (accepts : R.Accepts k a data i t) : i = (R.node k a).log.length + 1 :=
  (congrArg ProposalResult.index accepts.answer).symm

theorem Accepts.term (accepts : R.Accepts k a data i t) : (R.node k a).currentTerm = t :=
  congrArg ProposalResult.term accepts.answer

/-- The entry is appended, and its node leads before and after. -/
theorem Accepts.leads (accepts : R.Accepts k a data i t) (afterRun : R.ProposesAfterRun) :
    R.Leads k a t ∧ R.Leads (k + 1) a t ∧
      (R.node (k + 1) a).log = (R.node k a).log ++ [⟨t, data⟩] := by
  obtain ⟨input, output, ran, proposes⟩ := accepts.ran
  have core := Raft.core_of_proposal proposes accepts.role ran.stepped
  obtain ⟨before, after⟩ := leads_of_proposed afterRun ran proposes accepts.role core
  have log := log_of_proposed core
  rw [accepts.term] at before after
  simp only [Raft.proposed, accepts.term] at log
  exact ⟨before, after, log⟩

/-- **One index and term, one proposal.** -/
theorem Accepts.unique {other : String} (first : R.Accepts j a data i t)
    (second : R.Accepts k b other i t) (unique : R.OneLeaderPerTerm)
    (afterRun : R.ProposesAfterRun) : j = k := by
  have fresh : ∀ {j k a b data other}, R.Accepts j a data i t → R.Accepts k b other i t →
      ¬ j < k := by
    intro j k a b data other first second lt
    obtain ⟨-, after, log⟩ := first.leads afterRun
    obtain ⟨before, -⟩ := second.leads afterRun
    have same := unique.leads after before
    subst same
    -- the log was already as long after the first proposal
    have longer := (after.log before lt).length_le
    have := first.index
    have := second.index
    simp only [log, List.length_append, List.length_singleton] at longer
    omega
  have := fresh first second
  have := fresh second first
  omega

/-! ## Entries -/

/-- The one proposal that was assigned index `i` and term `t` has this data. -/
def ProposedAs (R : ClusterRun cl) (i : Nat) (t : Int) (data : String) : Prop :=
  (∃ k a, R.Accepts k a data i t) ∧ ∀ k a other, R.Accepts k a other i t → other = data

/-- A step has one input. -/
theorem Accepts.data_unique {other : String} (first : R.Accepts k a data i t)
    (second : R.Accepts k b other i t) : other = data := by
  obtain ⟨input, output, ran, proposes⟩ := first.ran
  obtain ⟨input', output', ran', proposes'⟩ := second.ran
  have same := ran.action.symm.trans ran'.action
  simp only [Action.mk.injEq] at same
  rcases proposes with rfl | rfl <;> rcases proposes' with rfl | rfl <;> simp_all

/-- The entries of every log, and their indices, come from accepted proposals. -/
theorem accepted_of_log (unique : R.OneLeaderPerTerm) (afterRun : R.ProposesAfterRun)
    (bound : k ≤ R.length) (a p : Nat) (entry : Entry)
    (at_p : (R.node k a).log[p]? = some entry) :
    ∃ m b, m < k ∧ R.Accepts m b entry.command (p + 1) entry.term := by
  revert a p entry
  apply R.history (P := fun k => ∀ a p entry, (R.node k a).log[p]? = some entry →
    ∃ m b, m < k ∧ R.Accepts m b entry.command (p + 1) entry.term) ?_ ?_ k bound
  · intro a p entry at_p
    obtain ⟨role, isNew⟩ := R.start_node a
    rw [isNew] at at_p
    simp [Raft.new] at at_p
  · intro k within ih a p entry at_p
    -- an entry of an earlier state was accepted before
    have earlier : ∀ j ≤ k, ∀ a, (R.node j a).log[p]? = some entry →
        ∃ m b, m < k + 1 ∧ R.Accepts m b entry.command (p + 1) entry.term := by
      intro j le a at_p
      obtain ⟨m, b, lt, accepts⟩ := ih j le a p entry at_p
      exact ⟨m, b, by omega, accepts⟩
    cases logStep within a with
    | kept same => exact earlier k le_rfl a (same ▸ at_p)
    | proposed data input output ran proposes role core =>
        rw [log_of_proposed core] at at_p
        by_cases inside : p < (R.node k a).log.length
        · rw [List.getElem?_append_left inside] at at_p
          exact earlier k le_rfl a at_p
        · rw [List.getElem?_append_right (not_lt.mp inside)] at at_p
          have position : p - (R.node k a).log.length = 0 := by
            have := (List.getElem?_eq_some_iff.mp at_p).1
            simp only [List.length_singleton] at this
            omega
          rw [position] at at_p
          simp only [List.getElem?_cons_zero, Option.some.injEq] at at_p
          refine ⟨k, a, by omega, ⟨⟨input, output, ran, at_p ▸ proposes⟩, role, ?_⟩⟩
          have index : (R.node k a).log.length + 1 = p + 1 := by omega
          rw [Raft.accepted, index, ← at_p]
          rfl
    | spliced j call splice =>
        rcases splice.outcome (splice.matching unique afterRun) with ⟨-, same⟩ | ⟨-, installed⟩
        · exact earlier k le_rfl a (same ▸ at_p)
        · exact earlier j splice.lt.le call.caller (installed ▸ at_p)

theorem proposedAs_of_log (unique : R.OneLeaderPerTerm) (afterRun : R.ProposesAfterRun)
    (bound : k ≤ R.length) {a p : Nat} {entry : Entry}
    (at_p : (R.node k a).log[p]? = some entry) :
    R.ProposedAs (p + 1) entry.term entry.command := by
  obtain ⟨m, b, -, accepts⟩ := accepted_of_log unique afterRun bound a p entry at_p
  refine ⟨⟨m, b, accepts⟩, ?_⟩
  intro n c other accepts'
  have same := accepts.unique accepts' unique afterRun
  subst same
  exact accepts.data_unique accepts'

/-- What was handed out is an entry the node's log had at that moment. -/
theorem entry_of_result (bound : k ≤ R.length) {res : ApplyResult}
    (member : res ∈ (R.node k a).readyQueue) :
    ∃ j p entry, j ≤ k ∧ (R.node j a).log[p]? = some entry ∧
      res = { valid := true, data := entry.command, index := p + 1 } := by
  obtain ⟨j, lt, before, after⟩ := R.exists_step (P := fun w => res ∈ (w.nodes a).readyQueue)
    (fun w init => by
      obtain ⟨role, isNew⟩ := init.1 a
      simp [isNew, Raft.new]) member
  rcases node_cases (show j < R.length by omega) a with same | ⟨input, output, ran⟩
  · exact absurd (same ▸ after : res ∈ (R.node j a).readyQueue) before
  · obtain ⟨results, queue, -, applied⟩ := Raft.step_handsOut ran.stepped
    have inQueue : res ∈ (R.node j a).readyQueue ++ results := queue ▸ after
    have new := (List.mem_append.mp inQueue).resolve_left before
    obtain ⟨p, at_p⟩ := List.mem_iff_getElem?.mp new
    obtain ⟨entry, read, same⟩ := applied p res at_p
    exact ⟨j + 1, _, entry, lt, read, same⟩

/-! ## Proposal identity -/

/-- **Proposal identity.**  Different accepted proposals are answered with different
pairs of index and term, and every entry at index `i` with term `t` in a log, in a
request in flight or among the results handed out carries the data of the proposal
that was assigned `(i, t)`. -/
theorem proposal_identity (R : ClusterRun cl) (unique : R.OneLeaderPerTerm)
    (afterRun : R.ProposesAfterRun) :
    (∀ j k a b data other i t, R.Accepts j a data i t → R.Accepts k b other i t → j = k) ∧
    ∀ k, k ≤ R.length →
      (∀ a p entry, (R.node k a).log[p]? = some entry →
        R.ProposedAs (p + 1) entry.term entry.command) ∧
      (∀ call ∈ (R.state k).appendRequests, ∀ (p : Nat) (entry : Entry),
        call.req.entries[p]? = some entry → ∃ i : Nat, (i : Int) = call.req.prevLogIndex + p + 1 ∧
          R.ProposedAs i entry.term entry.command) ∧
      ∀ a, ∀ res ∈ (R.node k a).readyQueue, ∃ j entry, j ≤ k ∧ 1 ≤ res.index ∧
        (R.node j a).log[res.index - 1]? = some entry ∧
          R.ProposedAs res.index entry.term res.data := by
  constructor
  · intro j k a b data other i t first second
    exact first.unique second unique afterRun
  intro k bound
  refine ⟨?_, ?_, ?_⟩
  · intro a p entry at_p
    exact proposedAs_of_log unique afterRun bound at_p
  · intro call member p entry at_p
    obtain ⟨j, -, sent⟩ := sent_of_request bound member
    rw [sent.sends.entries, List.getElem?_drop] at at_p
    exact ⟨call.pos + p + 1, by rw [sent.sends.prev]; omega,
      proposedAs_of_log unique afterRun sent.ran.within.le at_p⟩
  · intro a res member
    obtain ⟨j, p, entry, le, at_p, rfl⟩ := entry_of_result bound member
    exact ⟨j, entry, le, Nat.le_add_left 1 p, at_p,
      proposedAs_of_log unique afterRun (le.trans bound) at_p⟩

theorem proposal_identity_of_commit :
    ∃ R : ClusterRun (.ofSize 3 (by decide)), (R.node 17 2).log[0]? = some ⟨1, "x"⟩ ∧
      R.ProposedAs 1 1 "x" := by
  let R : ClusterRun (.ofSize 3 (by decide)) := .of _ oneCommit oneCommit_accepted
  have unique : R.OneLeaderPerTerm := oneLeader_of_majority (Or.inl rfl) R
  have afterRun : R.ProposesAfterRun := proposesAfterRun_of_checked (by decide +kernel)
  have replicated : (R.node 17 2).log[0]? = some ⟨1, "x"⟩ := by decide +kernel
  exact ⟨R, replicated,
    ((proposal_identity R unique afterRun).2 17 (by decide)).1 2 0 ⟨1, "x"⟩ replicated⟩

end ClusterRun

end Rafty
