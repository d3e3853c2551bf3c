/-
# Rafty.Election.Tenure — terms, offices and elections along a run

`Tenure r s` is what an earlier and a later state of one node have in common: the
term never falls; within a term a vote stays where it went; and whoever holds an
office (candidate or leader) at the end of a stretch of one term held one at its
beginning, over a log that was only appended to, and not changed at all if the
office is still candidate.  It holds of one step by the cases of `Change`, and of
any stretch of a run because it is transitive.

An office is entered only by `become_candidate`, with a fresh term
(`candidacy_begins`), and the leader's only by `become_leader` (`election_of_leads`),
at most once in a term (`Elects.unique_step`).
-/
import Rafty.Kernel.Threads

namespace Rafty

set_option autoImplicit false

open Theory

namespace Raft

/-- What an earlier and a later state of one node have in common. -/
structure Tenure (r s : Raft) : Prop where
  term : r.currentTerm ≤ s.currentTerm
  active : r.active = true → s.active = true
  vote : s.currentTerm = r.currentTerm → r.votedFor ≠ -1 → s.votedFor = r.votedFor
  office : s.currentTerm = r.currentTerm → s.currentRole ≠ .follower →
    r.currentRole ≠ .follower ∧ r.log <+: s.log
  candidacy : s.currentTerm = r.currentTerm → s.currentRole = .candidate →
    r.currentRole = .candidate ∧ s.log = r.log

theorem Tenure.refl (r : Raft) : Tenure r r where
  term := le_rfl
  active := id
  vote _ _ := rfl
  office _ role := ⟨role, List.prefix_refl _⟩
  candidacy _ role := ⟨role, rfl⟩

theorem Tenure.trans {r s t : Raft} (first : Tenure r s) (second : Tenure s t) : Tenure r t where
  term := first.term.trans second.term
  active running := second.active (first.active running)
  vote same voted := by
    have := first.term
    have := second.term
    have kept := first.vote (by omega) voted
    rw [second.vote (by omega) (kept ▸ voted), kept]
  office same role := by
    have := first.term
    have := second.term
    obtain ⟨middle, grown⟩ := second.office (by omega) role
    obtain ⟨before, grown'⟩ := first.office (by omega) middle
    exact ⟨before, grown'.trans grown⟩
  candidacy same role := by
    have := first.term
    have := second.term
    obtain ⟨middle, kept⟩ := second.candidacy (by omega) role
    obtain ⟨before, kept'⟩ := first.candidacy (by omega) middle
    exact ⟨before, kept.trans kept'⟩

variable {config : Config} {r r' : Raft} {input : Input}

/-- A section that ends as follower, in a term not below and with the vote kept, is
within `Tenure` whatever it does to the log. -/
theorem Tenure.of_follower (term : r.currentTerm ≤ r'.currentTerm) (active : r'.active = r.active)
    (vote : r'.currentTerm = r.currentTerm → r.votedFor ≠ -1 → r'.votedFor = r.votedFor)
    (role : r'.currentRole = .follower) : Tenure r r' where
  term := term
  active running := active.trans running
  vote := vote
  office _ office := absurd role office
  candidacy _ office := by simp [role] at office

/-- One section stays within `Tenure`. -/
theorem Change.tenure (change : Change config r input r') : Tenure r r' := by
  cases change with
  | still same | count _ _ _ same =>
      simp only [core, Core.mk.injEq] at same
      obtain ⟨active, term, vote, role, -, log⟩ := same
      exact ⟨term.ge, fun h => active.trans h, fun _ _ => vote,
        fun _ office => ⟨role ▸ office, by rw [log]⟩, fun _ office => ⟨role ▸ office, log⟩⟩
  | run same =>
      simp only [core, Core.mk.injEq] at same
      obtain ⟨active, term, vote, role, -, log⟩ := same
      exact ⟨term.ge, fun _ => active, fun _ _ => vote, fun _ office => absurd role office,
        fun _ office => by simp [role] at office⟩
  | candidacy same =>
      simp only [core, Core.mk.injEq] at same
      obtain ⟨active, term, -⟩ := same
      exact ⟨by omega, fun h => active.trans h, fun same => by omega, fun same => by omega,
        fun same => by omega⟩
  | higher term higher same =>
      simp only [core, Core.mk.injEq] at same
      exact .of_follower (by omega) same.1 (fun same => by omega) same.2.2.2.1
  | grant notOld free upToDate same =>
      simp only [core, Core.mk.injEq] at same
      obtain ⟨active, term, vote, role, -⟩ := same
      apply Tenure.of_follower (by omega) active ?_ role
      intro sameTerm voted
      rcases free with h | h | h
      · omega
      · exact absurd h voted
      · rw [vote, h]
  | elect wins same =>
      simp only [core, Core.mk.injEq] at same
      obtain ⟨active, term, vote, role, -, log⟩ := same
      exact ⟨term.ge, fun h => active.trans h, fun _ _ => vote,
        fun _ _ => ⟨by simp [wins.2.1], by rw [log]⟩, fun _ office => by simp [role] at office⟩
  | refuse notOld same | write notOld _ same =>
      simp only [core, Core.mk.injEq] at same
      obtain ⟨active, term, vote, role, -⟩ := same
      apply Tenure.of_follower (by omega) active ?_ role
      intro sameTerm voted
      rw [vote, if_neg (by omega)]
  | append data _ role same =>
      simp only [core, Core.mk.injEq] at same
      obtain ⟨active, term, vote, sameRole, -, log⟩ := same
      exact ⟨term.ge, fun h => active.trans h, fun _ _ => vote,
        fun _ _ => ⟨by simp [role], log ▸ List.prefix_append _ _⟩,
        fun _ office => by simp [sameRole, role] at office⟩

/-! ## Before `run` -/

/-- A node on which `run` was not called: nothing was started on it. -/
structure Idle (r : Raft) : Prop where
  threads : r.threads = []
  currentTerm : r.currentTerm = 0
  votes : r.votes = ∅

theorem Idle.propose (idle : Idle r) (data : String) : Idle (r.propose data).1 := by
  refine ⟨(threads_propose data).trans idle.threads, ?_, ?_⟩ <;> unfold Raft.propose <;> split
  · exact idle.currentTerm
  · exact idle.currentTerm
  · exact idle.votes
  · exact idle.votes

theorem Idle.proposeSync (idle : Idle r) (data : String) : Idle (r.proposeSync data).1 := by
  have kept : (r.proposeSync data).1.currentTerm = r.currentTerm ∧
      (r.proposeSync data).1.votes = r.votes := by
    unfold Raft.proposeSync
    split
    · simp only
      split <;> exact ⟨rfl, rfl⟩
    · exact ⟨rfl, rfl⟩
  exact ⟨(threads_proposeSync data).trans idle.threads, kept.1.trans idle.currentTerm,
    kept.2.trans idle.votes⟩

theorem step_idle {output : Output} (idle : Idle r) (inactive : r.active = false)
    (stepped : r.step config input = some (r', output)) : r'.active = true ∨ Idle r' := by
  have none_pending : ∀ thread, thread ∉ r.threads := by simp [idle.threads]
  cases step_section stepped with
  | run => exact Or.inl rfl
  | kill => exact Or.inr ⟨idle.1, idle.2, idle.3⟩
  | replyVote =>
      refine Or.inr ?_
      simpa [replyVote, inactive] using idle
  | appendEntries answered =>
      simp only [appendEntries, inactive, if_true, Option.some.injEq, Prod.mk.injEq] at answered
      exact Or.inr (answered.1 ▸ idle)
  | propose => exact Or.inr (idle.propose _)
  | proposeSync => exact Or.inr (idle.proposeSync _)
  | @wakeSync call =>
      have same := core_wakeSync (r := r) call
      simp only [core, Core.mk.injEq] at same
      exact Or.inr ⟨(threads_wakeSync _).trans idle.threads, same.2.1.trans idle.currentTerm,
        same.2.2.2.2.1.trans idle.votes⟩
  -- no thread is pending
  | startElectionTimer pending | startHeartbeatTimer pending | timerExpired pending
    | timerReset pending | becomeCandidate pending | requestVotes pending | requestVote pending
    | voteReply pending | voteFailed pending | sendEntries pending | sendEntriesTo pending
    | sendNothing pending | appendReply pending | appendFailed pending =>
      exact absurd pending (none_pending _)

/-- Whoever is leader after a section was so before, over a log it only appended to, or
wins its election now. -/
theorem Change.leader (change : Change config r input r') (role : r'.currentRole = .leader) :
    r'.active = r.active ∧ r'.currentTerm = r.currentTerm ∧
      ((∃ call reply, input = .voteReply call reply ∧ r.winsElection config call reply) ∨
        r.currentRole = .leader ∧ r.log <+: r'.log) := by
  cases change with
  | elect wins same =>
      simp only [core, Core.mk.injEq] at same
      exact ⟨same.1, same.2.1, Or.inl ⟨_, _, rfl, wins⟩⟩
  | still same =>
      simp only [core, Core.mk.injEq] at same
      obtain ⟨active, term, -, sameRole, -, log⟩ := same
      exact ⟨active, term, Or.inr ⟨sameRole ▸ role, by rw [log]⟩⟩
  | append data _ before same =>
      simp only [core, Core.mk.injEq] at same
      obtain ⟨active, term, -, -, -, log⟩ := same
      exact ⟨active, term, Or.inr ⟨before, log ▸ List.prefix_append _ _⟩⟩
  | count _ candidate _ same =>
      have after := congrArg Core.currentRole same
      simp [core, role, candidate] at after
  | run same | candidacy same | higher _ _ same | grant _ _ _ same | refuse _ same
    | write _ _ same =>
      have after := congrArg Core.currentRole same
      simp [core, role] at after

end Raft

namespace ClusterRun

variable {cl : Cluster} {R : ClusterRun cl}

theorem tenure {k m : Nat} (le : k ≤ m) (bound : m ≤ R.length) (a : Nat) :
    Raft.Tenure (R.node k a) (R.node m a) := by
  apply R.related (fun k => R.node k a) Raft.Tenure.refl (fun _ _ _ => .trans) ?_ le bound
  intro k within
  rcases node_cases within a with same | ⟨input, output, ran⟩
  · exact same ▸ Raft.Tenure.refl _
  · exact ran.change.tenure

theorem idle {k : Nat} (bound : k ≤ R.length) (a : Nat) (inactive : (R.node k a).active = false) :
    Raft.Idle (R.node k a) := by
  revert inactive
  apply R.invariant (P := fun k => (R.node k a).active = false → Raft.Idle (R.node k a))
    ?_ ?_ k bound
  · intro _
    obtain ⟨role, isNew⟩ := R.start_node a
    rw [isNew]
    exact ⟨rfl, rfl, rfl⟩
  · intro k within ih inactive
    rcases node_cases within a with same | ⟨input, output, ran⟩
    · rw [same] at inactive ⊢
      exact ih inactive
    · have before : (R.node k a).active = false := by
        by_contra running
        have := ran.change.tenure.active (by simpa using running)
        simp [inactive] at this
      rcases Raft.step_idle (ih before) before ran.stepped with running | idle
      · simp [inactive] at running
      · exact idle

/-! ## Candidates -/

/-- A candidate or leader on which `run` was called entered its term through
`become_candidate`. -/
theorem candidacy_begins {k : Nat} (bound : k ≤ R.length) (a : Nat)
    (running : (R.node k a).active = true) (office : (R.node k a).currentRole ≠ .follower) :
    ∃ j output, j < k ∧ R.Ran j a .becomeCandidate output ∧
      (R.node (j + 1) a).currentTerm = (R.node k a).currentTerm := by
  revert running office
  refine R.invariant (P := fun k => (R.node k a).active = true →
    (R.node k a).currentRole ≠ .follower → ∃ j output, j < k ∧ R.Ran j a .becomeCandidate output ∧
      (R.node (j + 1) a).currentTerm = (R.node k a).currentTerm) ?_ ?_ k bound
  · intro running
    obtain ⟨role, isNew⟩ := R.start_node a
    simp [isNew, Raft.new] at running
  · intro k within ih running office
    -- it is enough that the node held an office in the same term before the step
    have from_before : (R.node k a).active = true → (R.node k a).currentRole ≠ .follower →
        (R.node (k + 1) a).currentTerm = (R.node k a).currentTerm →
        ∃ j output, j < k + 1 ∧ R.Ran j a .becomeCandidate output ∧
          (R.node (j + 1) a).currentTerm = (R.node (k + 1) a).currentTerm := by
      intro running office same
      obtain ⟨j, output, lt, ran, term⟩ := ih running office
      exact ⟨j, output, by omega, ran, term.trans same.symm⟩
    rcases node_cases within a with same | ⟨input, output, ran⟩
    · rw [same] at running office
      exact from_before running office (by rw [same])
    · cases ran.change with
      | candidacy _ => exact ⟨k, output, by omega, ran, rfl⟩
      | still same | count _ _ _ same =>
          simp only [Raft.core, Raft.Core.mk.injEq] at same
          exact from_before (same.1 ▸ running) (same.2.2.2.1 ▸ office) same.2.1
      | elect wins same =>
          simp only [Raft.core, Raft.Core.mk.injEq] at same
          exact from_before (same.1 ▸ running) (by simp [wins.2.1]) same.2.1
      | append data _ role same =>
          simp only [Raft.core, Raft.Core.mk.injEq] at same
          exact from_before (same.1 ▸ running) (by simp [role]) same.2.1
      | run same | higher _ _ same | grant _ _ _ same | refuse _ same | write _ _ same =>
          exact absurd (congrArg Raft.Core.currentRole same) office

/-! ## Leaders -/

/-- At step `k` node `a` executes `become_leader` in term `t`. -/
def Elects (R : ClusterRun cl) (k a : Nat) (t : Int) : Prop :=
  ∃ call reply output, R.Ran k a (.voteReply call reply) output ∧
    (R.node k a).winsElection (cl.config a) call reply ∧ (R.node k a).currentTerm = t

/-- No term has two leaders. -/
def OneLeaderPerTerm (R : ClusterRun cl) : Prop :=
  ∀ j k a b t, R.Elects j a t → R.Elects k b t → a = b

/-- Node `a` runs as leader of term `t` in state `k`. -/
structure Leads (R : ClusterRun cl) (k a : Nat) (t : Int) : Prop where
  bound : k ≤ R.length
  active : (R.node k a).active = true
  role : (R.node k a).currentRole = .leader
  term : (R.node k a).currentTerm = t

variable {j k a b : Nat} {t : Int}

/-- A node with a pending thread is running. -/
theorem active_of_thread (bound : k ≤ R.length) {thread : Thread}
    (pending : thread ∈ (R.node k a).threads) : (R.node k a).active = true := by
  by_contra inactive
  simp [(idle bound a (by simpa using inactive)).threads] at pending

theorem Elects.before (elects : R.Elects k a t) : k < R.length ∧ (R.node k a).active = true ∧
    (R.node k a).currentRole = .candidate ∧ (R.node k a).currentTerm = t := by
  obtain ⟨call, reply, output, ran, wins, term⟩ := elects
  exact ⟨ran.within, active_of_thread ran.within.le (ran.pending rfl), wins.2.1, term⟩

/-- The node after the reply that wins its election. -/
theorem node_of_wins {call : VoteCall} {reply : RequestVoteReply} {output : Output}
    (ran : R.Ran k a (.voteReply call reply) output)
    (wins : (R.node k a).winsElection (cl.config a) call reply) :
    R.node (k + 1) a = Raft.becomeLeader (cl.config a)
      { (R.node k a).finish (.awaitVote call) with
        votes := insert call.target (R.node k a).votes } := by
  rw [Raft.step_voteReply ran.stepped]
  exact Raft.handleVoteReply_wins (r := (R.node k a).finish _) wins

/-- What the election changes. -/
theorem Elects.core (elects : R.Elects k a t) : ∃ call reply output,
    R.Ran k a (.voteReply call reply) output ∧
      (R.node k a).winsElection (cl.config a) call reply ∧
      (R.node (k + 1) a).core =
        { (R.node k a).core with
          currentRole := .leader, votes := insert call.target (R.node k a).votes } := by
  obtain ⟨call, reply, output, ran, wins, -⟩ := elects
  refine ⟨call, reply, output, ran, wins, ?_⟩
  rw [node_of_wins ran wins]
  rfl

theorem Elects.leads (elects : R.Elects k a t) : R.Leads (k + 1) a t := by
  obtain ⟨within, running, -, term⟩ := elects.before
  obtain ⟨call, reply, output, -, -, same⟩ := elects.core
  simp only [Raft.core, Raft.Core.mk.injEq] at same
  exact ⟨within, same.1.trans running, same.2.2.2.1, same.2.1.trans term⟩

theorem Elects.log (elects : R.Elects k a t) : (R.node (k + 1) a).log = (R.node k a).log := by
  obtain ⟨call, reply, output, -, -, same⟩ := elects.core
  exact congrArg Raft.Core.log same

/-- A candidate or leader of `t` after a leader of `t` is still that leader. -/
theorem Leads.role_of_office (leads : R.Leads j a t) (le : j ≤ k) (bound : k ≤ R.length)
    (term : (R.node k a).currentTerm = t) (office : (R.node k a).currentRole ≠ .follower) :
    (R.node k a).currentRole = .leader := by
  have stretch := tenure le bound a
  have sameTerm := term.trans leads.term.symm
  cases role : (R.node k a).currentRole with
  | leader => rfl
  | follower => exact absurd role office
  | candidate =>
      have := (stretch.candidacy sameTerm role).1
      simp [leads.role] at this

/-- The leader's log of one term only grows. -/
theorem Leads.log (first : R.Leads j a t) (second : R.Leads k a t) (le : j ≤ k) :
    (R.node j a).log <+: (R.node k a).log :=
  ((tenure le second.bound a).office (second.term.trans first.term.symm) (by simp [second.role])).2

/-- A leadership has no gaps. -/
theorem Leads.between {i : Nat} (first : R.Leads j a t) (last : R.Leads k a t) (lower : j ≤ i)
    (upper : i ≤ k) : R.Leads i a t := by
  have bound : i ≤ R.length := upper.trans last.bound
  have before := tenure (R := R) lower bound a
  have after := tenure (R := R) upper last.bound a
  have rises := before.term
  have stays := after.term
  have term : (R.node i a).currentTerm = t := by
    have := first.term
    have := last.term
    omega
  have office := (after.office (last.term.trans term.symm) (by simp [last.role])).1
  exact ⟨bound, before.active first.active, first.role_of_office lower bound term office, term⟩

/-- `become_leader` comes before everything the leader does. -/
theorem Elects.lt_of_leads (elects : R.Elects j a t) (leads : R.Leads k a t) : j < k := by
  by_contra before
  obtain ⟨within, -, role, term⟩ := elects.before
  have := leads.role_of_office (by omega) within.le term (by simp [role])
  simp [role] at this

/-- **No node leads the same term twice.** -/
theorem Elects.unique_step (first : R.Elects j a t) (second : R.Elects k a t) : j = k := by
  have := first.lt_of_leads second.leads
  have := second.lt_of_leads first.leads
  omega

/-- Whoever leads was elected before. -/
theorem election_of_leads (leads : R.Leads k a t) : ∃ j, j < k ∧ R.Elects j a t := by
  obtain ⟨bound, running, role, term⟩ := leads
  revert running role term
  refine R.invariant (P := fun k => (R.node k a).active = true →
    (R.node k a).currentRole = .leader → (R.node k a).currentTerm = t →
      ∃ j, j < k ∧ R.Elects j a t) ?_ ?_ k bound
  · intro running
    obtain ⟨role, isNew⟩ := R.start_node a
    simp [isNew, Raft.new] at running
  · intro k within ih running role term
    have from_before : (R.node k a).active = true → (R.node k a).currentRole = .leader →
        (R.node k a).currentTerm = t → ∃ j, j < k + 1 ∧ R.Elects j a t := by
      intro running role term
      obtain ⟨j, lt, elects⟩ := ih running role term
      exact ⟨j, by omega, elects⟩
    rcases node_cases within a with same | ⟨input, output, ran⟩
    · rw [same] at running role term
      exact from_before running role term
    · obtain ⟨active, sameTerm, ⟨call, reply, rfl, wins⟩ | ⟨before, -⟩⟩ := ran.change.leader role
      · exact ⟨k, by omega, call, reply, output, ran, wins, sameTerm.symm.trans term⟩
      · exact from_before (active ▸ running) before (sameTerm ▸ term)

/-- One leader in a term means one node that leads in it. -/
theorem OneLeaderPerTerm.leads (unique : R.OneLeaderPerTerm) (first : R.Leads j a t)
    (second : R.Leads k b t) : a = b := by
  obtain ⟨_, -, electsA⟩ := election_of_leads first
  obtain ⟨_, -, electsB⟩ := election_of_leads second
  exact unique _ _ _ _ _ electsA electsB

end ClusterRun

end Rafty
