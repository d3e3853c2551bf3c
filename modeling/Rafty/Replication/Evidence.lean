/-
# Rafty.Replication.Evidence — what stands behind `matchIndex` and a commit

A leader sets `matchIndex` from values it captured before the call.  The handler
takes them only from a reply in the term of the request, so the request was built in
this very leadership, or before it as a candidate of the term, and the log has only
grown since.  The reply was given by a splice that left the whole log of the request
at the peer (`evidence`).

When the handler advances `commitIndex`, the count of `matchIndex` is therefore a
majority of nodes that held the committed prefix in the leader's term
(`Commits.quorum`).
-/
import Rafty.Replication.Identity

namespace Rafty

set_option autoImplicit false

open Theory

namespace ClusterRun

variable {cl : Cluster} {R : ClusterRun cl} {j k a p N : Nat} {t : Int} {call : AppendCall}

/-! ## Acceptances -/

/-- Before state `k` node `p` accepted in term `t` a request that `a` had built with
term `t`, and right after that its log agreed with the log `a` has in state `k` on the
first `M` entries. -/
structure Evidence (R : ClusterRun cl) (k a p M : Nat) (t : Int) : Prop where
  accepted : ∃ j m call reply, j < m ∧ m < k ∧
    R.Ran j a (.sendEntriesTo p) (.appendEntries call) ∧ call.req.term = t ∧
    R.Ran m p (.appendEntries call) (.appendReply reply) ∧ reply.success = true ∧
    (R.node (m + 1) p).currentTerm = t ∧
    M ≤ (R.node (m + 1) p).log.length ∧
    (R.node (m + 1) p).log.take M = (R.node k a).log.take M
  covered : M ≤ (R.node k a).log.length

/-- Evidence stays while the log grows. -/
theorem Evidence.next {M : Nat} (evidence : R.Evidence k a p M t)
    (grown : (R.node k a).log <+: (R.node (k + 1) a).log) : R.Evidence (k + 1) a p M t := by
  obtain ⟨⟨j, m, call, reply, jm, mk, sent, term, ran, success, now, inside, agree⟩, covered⟩ :=
    evidence
  obtain ⟨rest, longer⟩ := grown
  refine ⟨⟨j, m, call, reply, jm, by omega, sent, term, ran, success, now, inside, ?_⟩, ?_⟩
  · rw [agree, ← longer, List.take_append_of_le_length covered]
  · rw [← longer, List.length_append]
    omega

/-- A reply with success was given by a splice. -/
theorem splice_of_success {reply : AppendEntriesReply}
    (ran : R.Ran k p (.appendEntries call) (.appendReply reply)) (success : reply.success = true) :
    ∃ j, R.Splice k p j call := by
  have stepped := ran.stepped
  simp only [Raft.step, Option.bind_eq_bind, Option.bind_eq_some_iff] at stepped
  obtain ⟨⟨s, answer⟩, answered, same⟩ := stepped
  cases same
  obtain ⟨notOld, consistent, -, followed⟩ := Raft.appendEntries_success answered success
  exact splice_of_accepted ran notOld consistent (Raft.core_accepted notOld followed)

/-- **What a counted acceptance shows.**  A leader that takes a success in the term of
the request finds in its log everything the request's sender had, which is itself, and
so does the peer. -/
theorem evidence_of_reply (unique : R.OneLeaderPerTerm) (afterRun : R.ProposesAfterRun)
    {reply : AppendEntriesReply} {output : Output}
    (ran : R.Ran k a (.appendReply call reply) output) (role : (R.node k a).currentRole = .leader)
    (term : call.req.term = (R.node k a).currentTerm) (success : reply.success = true) :
    0 ≤ Raft.lastLogIndexSent call ∧
      R.Evidence k a call.target (Raft.lastLogIndexSent call).toNat (R.node k a).currentTerm := by
  obtain ⟨_, -, built⟩ := sends_of_pending ran.within.le (ran.pending rfl)
  have caller : call.caller = a := built.caller
  obtain ⟨m, mk, answered⟩ := appendReply_given ran.within.le ran.delivered
  obtain ⟨j, splice⟩ := splice_of_success answered success
  have sent := splice.sent
  have sends := sent.sends
  have installed := splice.installs (splice.matching unique afterRun)
  rw [caller] at sends installed
  have jm := splice.lt
  have grown : (R.node j a).log <+: (R.node k a).log :=
    ((tenure (R := R) (show j ≤ k by omega) ran.within.le a).office
      (term.symm.trans sends.term) (by simp [role])).2
  have whole := sends.lastLogIndexSent
  have length : (Raft.lastLogIndexSent call).toNat = (R.node j a).log.length := by omega
  refine ⟨by omega, ⟨j, m, call, reply, jm, mk, ?_, term, answered, success, ?_, ?_, ?_⟩, ?_⟩
  · exact caller ▸ sent.ran
  · rw [splice.term, term]
  · rw [length]
    exact installed.length_le
  · rw [length, take_eq_of_prefix installed, take_eq_of_prefix grown]
  · rw [length]
    exact grown.length_le

/-- `become_leader` clears `matchIndex`. -/
theorem matchIndex_of_wins {voteCall : VoteCall} {reply : RequestVoteReply} {output : Output}
    (ran : R.Ran k a (.voteReply voteCall reply) output)
    (wins : (R.node k a).winsElection (cl.config a) voteCall reply) :
    (R.node (k + 1) a).matchIndex = fun _ => 0 := by
  rw [node_of_wins ran wins]
  rfl

/-- **Every positive `matchIndex` of a leader has its acceptance.** -/
theorem evidence (unique : R.OneLeaderPerTerm) (afterRun : R.ProposesAfterRun)
    (bound : k ≤ R.length) (a : Nat) (role : (R.node k a).currentRole = .leader) (p : Nat)
    (positive : 0 < (R.node k a).matchIndex p) :
    R.Evidence k a p ((R.node k a).matchIndex p).toNat (R.node k a).currentTerm := by
  revert role positive
  refine R.invariant (P := fun k => (R.node k a).currentRole = .leader →
    0 < (R.node k a).matchIndex p →
      R.Evidence k a p ((R.node k a).matchIndex p).toNat (R.node k a).currentTerm) ?_ ?_ k bound
  · intro _ positive
    obtain ⟨role, isNew⟩ := R.start_node a
    simp [isNew, Raft.new] at positive
  · intro k within ih role positive
    -- the node led before, in the same term, and its log has only grown
    have led : (R.node k a).currentRole = .leader →
        (R.node (k + 1) a).currentTerm = (R.node k a).currentTerm →
        (R.node k a).log <+: (R.node (k + 1) a).log →
        R.Evidence (k + 1) a p ((R.node (k + 1) a).matchIndex p).toNat
          (R.node (k + 1) a).currentTerm := by
      intro before sameTerm grown
      rcases node_cases within a with same | ⟨input, output, ran⟩
      · rw [same] at positive ⊢
        exact (ih before positive).next (by rw [same])
      rw [sameTerm]
      have kept : (R.node (k + 1) a).matchIndex = (R.node k a).matchIndex →
          R.Evidence (k + 1) a p ((R.node (k + 1) a).matchIndex p).toNat
            (R.node k a).currentTerm := by
        intro same
        rw [same] at positive ⊢
        exact (ih before positive).next grown
      cases Raft.step_advance ran.stepped with
      | still same | record same | backUp _ _ _ same =>
          exact kept (congrArg Raft.Progress.matchIndex same)
      | follow _ _ _ _ _ _ _ same => exact kept (congrArg Raft.Progress.matchIndex same)
      | elect wins _ => exact absurd (before.symm.trans wins.2.1) (by decide)
      | acknowledge commit results fresh leading term success core _ _ same =>
          have matched := congrArg Raft.Progress.matchIndex same
          simp only [Raft.progress] at matched
          rw [matched, Raft.setAt]
          split
          · rename_i isTarget
            obtain ⟨-, shown⟩ := evidence_of_reply unique afterRun ran leading term success
            exact isTarget ▸ shown.next grown
          · rename_i other
            rw [matched, Raft.setAt, if_neg other] at positive
            exact (ih before positive).next grown
    rcases node_cases within a with same | ⟨input, output, ran⟩
    · exact led (same ▸ role) (by rw [same]) (by rw [same])
    · obtain ⟨-, sameTerm, ⟨voteCall, reply, rfl, wins⟩ | ⟨before, grown⟩⟩ := ran.change.leader role
      · simp [matchIndex_of_wins ran wins] at positive
      · exact led before sameTerm grown

/-! ## Commits -/

/-- At step `k` the reply handler of `a` advances `commitIndex` to `N`. -/
structure Commits (R : ClusterRun cl) (k a N : Nat) : Prop where
  ran : ∃ call reply output, R.Ran k a (.appendReply call reply) output
  above : (R.node k a).commitIndex < N
  reached : (R.node (k + 1) a).commitIndex = N

/-- Only a scan advances `commitIndex`: it runs on the leader, and it has found an entry of
the leader's term that more than half of the nodes hold as far as `matchIndex` says. -/
theorem Commits.scanned (commits : R.Commits k a N) :
    (R.node k a).currentRole = .leader ∧ (R.node (k + 1) a).core = (R.node k a).core ∧
      (∃ entry, (R.node k a).log[N - 1]? = some entry ∧
        entry.term = (R.node k a).currentTerm) ∧
      cl.size < 2 * (1 + (cl.config a).peers.countP fun p =>
        (N : Int) ≤ (R.node (k + 1) a).matchIndex p) := by
  obtain ⟨⟨call, reply, output, ran⟩, above, reached⟩ := commits
  cases Raft.step_advance ran.stepped with
  | still same | record same | backUp _ _ _ same =>
      have unmoved := congrArg Raft.Progress.commitIndex same
      simp only [Raft.progress] at unmoved
      omega
  | acknowledge commit results fresh role term success core committed applied same =>
      have moved := congrArg Raft.Progress.commitIndex same
      have matched := congrArg Raft.Progress.matchIndex same
      simp only [Raft.progress] at moved matched
      rcases committed with ⟨kept, -⟩ | ⟨-, -, entry, enough, -⟩
      · omega
      have isN : commit = N := by omega
      rw [isN] at entry enough
      have size := Cluster.length_peers ran.member
      have count : 1 + (cl.config a).peers.countP
          (fun p => (N : Int) ≤ (R.node (k + 1) a).matchIndex p) =
          ((R.node k a).setMatchIndex call.target (Raft.lastLogIndexSent call)).replicaCount
            (cl.config a) N := by
        rw [Raft.replicaCount, matched]
        rfl
      exact ⟨role, core, entry, by omega⟩

/-- The node leads, and the last entry it commits is of its own term. -/
theorem Commits.own (commits : R.Commits k a N) :
    R.Leads k a (R.node k a).currentTerm ∧ (R.node (k + 1) a).core = (R.node k a).core ∧
      ∃ entry, (R.node k a).log[N - 1]? = some entry ∧
        entry.term = (R.node k a).currentTerm := by
  obtain ⟨role, core, entry, -⟩ := commits.scanned
  obtain ⟨⟨call, reply, output, ran⟩, -, -⟩ := commits
  have running := active_of_thread ran.within.le (ran.pending rfl)
  exact ⟨⟨ran.within.le, running, role, rfl⟩, core, entry⟩

theorem Commits.inside (commits : R.Commits k a N) : N ≤ (R.node k a).log.length := by
  obtain ⟨-, -, entry, read, -⟩ := commits.own
  have := (List.getElem?_eq_some_iff.mp read).1
  omega

/-- **The quorum of a commit.**  More than half of the nodes, the leader among them,
held what it commits at some state while they were in its term. -/
theorem Commits.quorum (commits : R.Commits k a N) (unique : R.OneLeaderPerTerm)
    (afterRun : R.ProposesAfterRun) :
    ∃ holders : Finset Nat, cl.size < 2 * holders.card ∧ a ∈ holders ∧
      ∀ v ∈ holders, v ∈ cl.ids ∧ ∃ m, m ≤ k + 1 ∧
        (R.node m v).currentTerm = (R.node k a).currentTerm ∧
        (R.node k a).log.take N <+: (R.node m v).log := by
  obtain ⟨leads, sameCore, -⟩ := commits.own
  obtain ⟨-, -, -, counted⟩ := commits.scanned
  have above := commits.above
  obtain ⟨⟨call, reply, output, ran⟩, -, -⟩ := commits
  have after : k + 1 ≤ R.length := ran.within
  have log : (R.node (k + 1) a).log = (R.node k a).log := congrArg Raft.Core.log sameCore
  have role : (R.node (k + 1) a).currentRole = .leader :=
    (congrArg Raft.Core.currentRole sameCore).trans leads.role
  have term : (R.node (k + 1) a).currentTerm = (R.node k a).currentTerm :=
    congrArg Raft.Core.currentTerm sameCore
  refine ⟨insert a ((cl.config a).peers.filter fun p =>
    (N : Int) ≤ (R.node (k + 1) a).matchIndex p).toFinset, ?_, Finset.mem_insert_self _ _, ?_⟩
  · rwa [Cluster.card_counted]
  · intro v member
    rcases Finset.mem_insert.mp member with rfl | isPeer
    · exact ⟨ran.member, k, Nat.le_succ k, rfl, List.take_prefix _ _⟩
    · have inPeers := List.mem_filter.mp (List.mem_toFinset.mp isPeer)
      have reaches : (N : Int) ≤ (R.node (k + 1) a).matchIndex v := by simpa using inPeers.2
      refine ⟨(Cluster.mem_peers.mp inPeers.1).1, ?_⟩
      obtain ⟨⟨j, m, _, _, _, mk, _, _, _, _, now, inside, agree⟩, covered⟩ :=
        evidence unique afterRun after a role v (by omega)
      refine ⟨m + 1, mk, now.trans term, ?_⟩
      rw [log] at agree
      have shorter := congrArg (List.take N) agree
      rw [List.take_take, List.take_take, Nat.min_eq_left (by omega)] at shorter
      rw [← shorter]
      exact List.take_prefix _ _

/-! ## Commit evidence -/

/-- **Commit evidence.**  Every positive `matchIndex` of a leader has an acceptance
behind it; and where its reply handler advances `commitIndex`, the entry committed
last is of its term, and more than half of the nodes, itself included, held the
committed entries while in that term. -/
theorem commit_evidence (R : ClusterRun cl) (unique : R.OneLeaderPerTerm)
    (afterRun : R.ProposesAfterRun) :
    (∀ k a p, k ≤ R.length → (R.node k a).currentRole = .leader →
      0 < (R.node k a).matchIndex p →
      R.Evidence k a p ((R.node k a).matchIndex p).toNat (R.node k a).currentTerm) ∧
    ∀ k a N, R.Commits k a N →
      (∃ entry, (R.node k a).log[N - 1]? = some entry ∧ entry.term = (R.node k a).currentTerm) ∧
      ∃ holders : Finset Nat, cl.size < 2 * holders.card ∧ a ∈ holders ∧
        ∀ v ∈ holders, v ∈ cl.ids ∧ ∃ m, m ≤ k + 1 ∧
          (R.node m v).currentTerm = (R.node k a).currentTerm ∧
          N ≤ (R.node m v).log.length ∧
          (R.node m v).log.take N = (R.node k a).log.take N := by
  constructor
  · intro k a p bound role positive
    exact evidence unique afterRun bound a role p positive
  · intro k a N commits
    obtain ⟨-, -, entry⟩ := commits.own
    obtain ⟨holders, majority, own, held⟩ := commits.quorum unique afterRun
    have length : ((R.node k a).log.take N).length = N := by
      rw [List.length_take, Nat.min_eq_left commits.inside]
    refine ⟨entry, holders, majority, own, ?_⟩
    intro v member
    obtain ⟨inIds, m, le, term, isPrefix⟩ := held v member
    refine ⟨inIds, m, le, term, ?_, ?_⟩
    · rw [← length]
      exact isPrefix.length_le
    · have taken := take_eq_of_prefix isPrefix
      rwa [length] at taken

theorem commit_evidence_of_commit :
    ∃ R : ClusterRun (.ofSize 3 (by decide)), (R.node 17 1).commitIndex = 1 ∧
      R.Evidence 17 1 2 1 1 := by
  let R : ClusterRun (.ofSize 3 (by decide)) := .of _ oneCommit oneCommit_accepted
  have unique : R.OneLeaderPerTerm := oneLeader_of_majority (Or.inl rfl) R
  have afterRun : R.ProposesAfterRun := proposesAfterRun_of_checked (by decide +kernel)
  have matched : (R.node 17 1).matchIndex 2 = 1 := by decide +kernel
  have term : (R.node 17 1).currentTerm = 1 := by decide +kernel
  have shown := (commit_evidence R unique afterRun).1 17 1 2 (by decide) (by decide +kernel)
    (by rw [matched]; decide)
  rw [matched, term] at shown
  exact ⟨R, by decide +kernel, shown⟩

end ClusterRun

end Rafty
