/-
# Rafty.Election.Requests — who asks for votes

The thread of `request_votes` for one peer fills its request from the node as it finds it
when it gets the lock.  The `election_term` it was given is only compared with the reply,
and is itself read after `become_candidate` released the lock.  So the node may have gone
on to another term, and given its vote there.

`votedFor` tells: a node's own id gets there by `become_candidate` alone, since a handler
is only asked by other nodes, and it stays for the rest of the term (`stands_of_vote`).
-/
import Rafty.Election.Safety

namespace Rafty

set_option autoImplicit false

/-- What the thread sends. -/
theorem Raft.step_requestVote {config : Config} {r r' : Raft} {target : Nat} {electionTerm : Int}
    {output : Output}
    (stepped : r.step config (.requestVote target electionTerm) = some (r', output)) :
    output = .requestVote (r.voteCall config target electionTerm) := by
  cases step_section stepped with
  | requestVote => rfl

namespace ClusterRun

variable {cl : Cluster} {R : ClusterRun cl} {k c : Nat}

/-- No node asks itself for its vote. -/
theorem target_ne_caller (bound : k ≤ R.length) {call : VoteCall}
    (member : call ∈ (R.state k).voteRequests) : call.target ≠ call.caller := by
  obtain ⟨j, b, target, electionTerm, -, ran, rfl⟩ := voteRequest_origin bound member
  obtain ⟨peer, -⟩ := pending_requestVote ran.within.le (ran.pending rfl)
  simp only [Raft.voteCall]
  exact (Cluster.mem_peers.mp peer).2

/-- **A node that voted for itself stood for the term.** -/
theorem stands_of_vote (bound : k ≤ R.length) (member : c ∈ cl.ids)
    (own : (R.node k c).votedFor = asInt64 c) :
    ∃ s, s < k ∧ R.Stands s c (R.node k c).currentTerm := by
  have positive : asInt64 c ≠ -1 := by
    rw [asInt64_id member]
    omega
  revert own
  apply R.invariant (P := fun k => (R.node k c).votedFor = asInt64 c →
    ∃ s, s < k ∧ R.Stands s c (R.node k c).currentTerm) ?_ ?_ k bound
  · intro own
    obtain ⟨role, isNew⟩ := R.start_node c
    rw [isNew] at own
    exact absurd own.symm positive
  · intro k within ih own
    have from_before : (R.node k c).votedFor = asInt64 c →
        (R.node (k + 1) c).currentTerm = (R.node k c).currentTerm →
          ∃ s, s < k + 1 ∧ R.Stands s c (R.node (k + 1) c).currentTerm := by
      intro own term
      obtain ⟨s, lt, stands⟩ := ih own
      exact ⟨s, by omega, term ▸ stands⟩
    rcases node_cases within c with same | ⟨input, output, ran⟩
    · rw [same] at own
      exact from_before own (by rw [same])
    cases ran.change with
    | candidacy _ => exact ⟨k, by omega, output, ran, rfl⟩
    | still same | run same | count _ _ _ same | elect _ same | append _ _ _ same =>
        simp only [Raft.core, Raft.Core.mk.injEq] at same
        exact from_before (same.2.2.1.symm.trans own) same.2.1
    | higher _ _ same =>
        have none : (R.node (k + 1) c).votedFor = -1 := congrArg Raft.Core.votedFor same
        exact absurd (own.symm.trans none) positive
    | refuse notOld same | write notOld _ same =>
        simp only [Raft.core, Raft.Core.mk.injEq] at same
        obtain ⟨-, term, vote, -⟩ := same
        rw [vote] at own
        split at own
        · exact absurd own.symm positive
        · exact from_before own (by omega)
    | @grant call _ notOld free upToDate same =>
        -- the vote went to the node that asked
        obtain ⟨caller, candidateId⟩ := voteRequest_caller within.le ran.delivered.1
        have other := target_ne_caller within.le ran.delivered.1
        have vote : (R.node (k + 1) c).votedFor = call.req.candidateId :=
          congrArg Raft.Core.votedFor same
        have target : call.target = c := ran.delivered.2
        rw [vote, candidateId, asInt64_id caller, asInt64_id member] at own
        omega

/-! ## Provenance of vote requests -/

/-- `call` was built before state `k` by the node it names as candidate, which had stood
for the term it asks for and gives its vote in that term to nobody else. -/
def BuiltByCandidate (R : ClusterRun cl) (k : Nat) (call : VoteCall) : Prop :=
  ∃ s j c, s < j ∧ j < k ∧ R.Stands s c call.req.term ∧
    R.Ran j c (.requestVote call.target call.electionTerm) (.requestVote call) ∧
    call.req.candidateId = asInt64 c ∧ ∀ g d, R.Grants g c d call.req.term → d = c

/-- When a thread of `request_votes` gets the lock, the vote of its node is its own. -/
def AsksForItself (R : ClusterRun cl) : Prop :=
  ∀ j c target electionTerm output, R.Ran j c (.requestVote target electionTerm) output →
    (R.node j c).votedFor = asInt64 c

/-- Whoever stood for a term still has its own vote when it asks for others. -/
theorem asksForItself_of_built
    (built : ∀ k, k ≤ R.length → ∀ call ∈ (R.state k).voteRequests, R.BuiltByCandidate k call) :
    R.AsksForItself := by
  intro j c target electionTerm output ran
  have sent := Raft.step_requestVote ran.stepped
  have posted : (R.node j c).voteCall (cl.config c) target electionTerm ∈
      (R.state (j + 1)).voteRequests := by
    rw [ran.network, sent]
    exact List.mem_append_right _ (List.mem_singleton_self _)
  obtain ⟨s, i, d, si, ij, stands, asked, candidateId, -⟩ := built (j + 1) ran.within _ posted
  simp only [Raft.voteCall, Cluster.config] at stands candidateId
  rw [asInt64_id ran.member, asInt64_id asked.member] at candidateId
  have same : c = d := by omega
  subst same
  obtain ⟨-, -, -, term, vote⟩ := (Grants.own stands rfl).recorded
  have voted : (R.node (s + 1) c).votedFor ≠ -1 := by
    rw [vote, asInt64_id ran.member]
    omega
  rw [← vote]
  exact (tenure (show s + 1 ≤ j by omega) ran.within.le c).vote term.symm voted

/-- **Provenance.**  Every vote request in flight was built by a candidate of its term, in
every state, if and only if no thread of `request_votes` gets the lock after the vote of
its node went elsewhere. -/
theorem vote_provenance (R : ClusterRun cl) :
    (∀ k, k ≤ R.length → ∀ call ∈ (R.state k).voteRequests, R.BuiltByCandidate k call) ↔
      R.AsksForItself := by
  refine ⟨asksForItself_of_built, ?_⟩
  intro asks k bound call member
  obtain ⟨j, c, target, electionTerm, lt, ran, rfl⟩ := voteRequest_origin bound member
  have own := asks j c target electionTerm _ ran
  obtain ⟨s, sj, stands⟩ := stands_of_vote ran.within.le ran.member own
  refine ⟨s, j, c, sj, lt, ?_⟩
  simp only [Raft.voteCall, Cluster.config]
  refine ⟨stands, ran, trivial, ?_⟩
  intro g d grants
  exact grants.unique (.own stands rfl)

/-- Candidate 1 of term 1 has spawned the threads for its peers.  Before the one for 3 gets
the lock, 2 stands for term 1 and again for term 2, and gets the vote of 1. -/
def lateBallot : List Action :=
  [⟨1, .run⟩, ⟨2, .run⟩, ⟨3, .run⟩] ++ (campaign 1 3 1 1).take 4 ++
    (campaign 2 1 1 1).take 3 ++
    [⟨2, .startElectionTimer⟩, ⟨2, .timerExpired 2 .election⟩, ⟨2, .becomeCandidate⟩,
      ⟨2, .requestVotes⟩, ⟨2, .requestVote 1 2⟩, ⟨1, .replyVote (ballot 2 1 2)⟩,
      ⟨1, .requestVote 3 1⟩]

theorem vote_provenance_refuted :
    ¬ ∀ (cl : Cluster) (R : ClusterRun cl) (k : Nat), k ≤ R.length →
      ∀ call ∈ (R.state k).voteRequests, R.BuiltByCandidate k call := by
  intro built
  let R : ClusterRun (.ofSize 3 (by decide)) := .of _ lateBallot (by decide +kernel)
  obtain ⟨output, ran⟩ := ran_of_action (R := R) (k := 16) (by decide)
    (show R.input 16 = ⟨1, .requestVote 3 1⟩ from rfl)
  have own := asksForItself_of_built (built _ R) 16 1 3 1 output ran
  have voted : (R.node 16 1).votedFor = 2 := by decide +kernel
  rw [voted] at own
  exact absurd own (by decide +kernel)

end ClusterRun

end Rafty
