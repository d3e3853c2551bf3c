/-
# Rafty.Election.Votes — where the votes of a candidate come from

A vote is given at a step (`Grants`): a handler answers a request with it, or a new
candidate gives it to itself.  `votedFor` remembers it until the term ends, so no
node gives two votes in one term.

The other direction starts from the set `votes` of a candidate or leader.  A
request is built by a thread that may run late, from the term and the log of that
moment, and its reply is counted only if the node is a candidate of the term that
was current when the thread was spawned.  That term is a lower bound for the
request's term and the counting term an upper bound, so the three are one
(`counted_vote`), and the log did not change while the node was a candidate.
-/
import Rafty.Election.Tenure

namespace Rafty

set_option autoImplicit false

open Theory

namespace Raft

variable {config : Config} {r r' : Raft}

/-- The log of `r` is not greater than the log of `s`, by the term of the last entry
and then the length. -/
def NotAhead (r s : Raft) : Prop :=
  r.lastLogTerm < s.lastLogTerm ∨
    r.lastLogTerm = s.lastLogTerm ∧ r.log.length ≤ s.log.length

theorem NotAhead.of_log {s s' : Raft} (notAhead : r.NotAhead s) (same : s'.log = s.log) :
    r.NotAhead s' := by
  simpa only [NotAhead, lastLogTerm, same] using notAhead

theorem notAhead_of_log (same : r'.log = r.log) : r.NotAhead r' :=
  NotAhead.of_log (Or.inr ⟨rfl, le_rfl⟩) same

/-- A granted vote is recorded, in the term of the request. -/
theorem replyVote_granted {req : RequestVoteRequest}
    (granted : (r.replyVote req).2.voteGranted = true) :
    (r.replyVote req).1.currentTerm = req.term ∧
      (r.replyVote req).1.votedFor = req.candidateId ∧ r.candidateUpToDate req := by
  unfold replyVote at granted ⊢
  split at granted
  · cases granted
  split at granted
  · cases granted
  rename_i running notOld
  rw [if_neg running, if_neg notOld]
  have term : (if r.currentTerm < req.term then (r.adoptTerm req.term).stepDown
      else r).currentTerm = req.term := by
    split
    · exact congrArg Core.currentTerm (core_stepDown (r.adoptTerm req.term))
    · omega
  have log : (if r.currentTerm < req.term then (r.adoptTerm req.term).stepDown else r).log =
      r.log := by
    split
    · exact congrArg Core.log (core_stepDown (r.adoptTerm req.term))
    · rfl
  generalize (if r.currentTerm < req.term then (r.adoptTerm req.term).stepDown else r) = s
    at granted term log ⊢
  simp only at granted ⊢
  split at granted
  · cases granted
  split at granted
  · rename_i free upToDate
    rw [if_neg free, if_pos upToDate]
    have recorded := s.core_grantVote req.candidateId (!decide (r.currentTerm < req.term))
    exact ⟨(congrArg Core.currentTerm recorded).trans term, congrArg Core.votedFor recorded,
      (candidateUpToDate_congr log).mp upToDate⟩
  · cases granted

/-- Only the thread of `request_votes` sends a vote request. -/
theorem voteRequest_built {input : Input} {call : VoteCall}
    (stepped : r.step config input = some (r', .requestVote call)) :
    ∃ target electionTerm, input = .requestVote target electionTerm ∧
      call = r.voteCall config target electionTerm := by
  generalize sent : Output.requestVote call = output at stepped
  cases step_section stepped with
  | requestVote => exact ⟨_, _, rfl, Output.requestVote.inj sent⟩
  | @proposeSync data =>
      cases result : (r.proposeSync data).2 <;> simp [result, Output.ofResult] at sent
  | @wakeSync woken =>
      cases result : (r.wakeSync woken).2 <;> simp [result, Output.ofResult] at sent
  | _ => cases sent

theorem step_becomeCandidate {output : Output}
    (stepped : r.step config .becomeCandidate = some (r', output)) :
    r'.core =
      { r.core with
        currentRole := .candidate
        currentTerm := r.currentTerm + 1
        votedFor := asInt64 config.id
        votes := {config.id} } := by
  cases step_section stepped with
  | becomeCandidate => simp only [becomeCandidate, core, spawn, finish]

end Raft

namespace ClusterRun

variable {cl : Cluster} {R : ClusterRun cl} {j k a c d v : Nat} {t : Int}

/-! ## Giving a vote -/

/-- At step `k` node `c` becomes candidate of term `t`. -/
def Stands (R : ClusterRun cl) (k c : Nat) (t : Int) : Prop :=
  ∃ output, R.Ran k c .becomeCandidate output ∧ (R.node (k + 1) c).currentTerm = t

/-- At step `k` node `v` gives its vote in term `t` to node `c`. -/
inductive Grants (R : ClusterRun cl) (k v c : Nat) (t : Int) : Prop
  | reply {call : VoteCall} {reply : RequestVoteReply}
      (ran : R.Ran k v (.replyVote call) (.voteReply reply)) (granted : reply.voteGranted = true)
      (caller : call.caller = c) (term : call.req.term = t)
  | own (stands : R.Stands k c t) (same : v = c)

theorem Stands.core (stands : R.Stands k c t) : (R.node (k + 1) c).core =
    { (R.node k c).core with
      currentRole := .candidate
      currentTerm := (R.node k c).currentTerm + 1
      votedFor := asInt64 c
      votes := {c} } := by
  obtain ⟨output, ran, -⟩ := stands
  have same := Raft.step_becomeCandidate ran.stepped
  exact same

/-- A node stands once in a term. -/
theorem Stands.unique_step (first : R.Stands j c t) (second : R.Stands k c t) : j = k := by
  have fresh : ∀ {j k}, R.Stands j c t → R.Stands k c t → ¬ j < k := by
    intro j k first second lt
    have up := congrArg Raft.Core.currentTerm second.core
    obtain ⟨_, ran, term⟩ := second
    obtain ⟨_, -, firstTerm⟩ := first
    have grown := (tenure (R := R) (show j + 1 ≤ k from lt) ran.within.le c).term
    simp only [Raft.core] at up
    omega
  have := fresh first second
  have := fresh second first
  omega

/-- A delivered vote request was built by its caller. -/
theorem voteRequest_origin (bound : k ≤ R.length) {call : VoteCall}
    (member : call ∈ (R.state k).voteRequests) : ∃ j b target electionTerm, j < k ∧
      R.Ran j b (.requestVote target electionTerm) (.requestVote call) ∧
      call = (R.node j b).voteCall (cl.config b) target electionTerm := by
  obtain ⟨j, b, input, lt, ran⟩ := voteRequest_sent bound member
  obtain ⟨target, electionTerm, rfl, built⟩ := Raft.voteRequest_built ran.stepped
  exact ⟨j, b, target, electionTerm, lt, ran, built⟩

/-- Its caller is the candidate it names. -/
theorem voteRequest_caller (bound : k ≤ R.length) {call : VoteCall}
    (member : call ∈ (R.state k).voteRequests) : call.caller ∈ cl.ids ∧
      call.req.candidateId = asInt64 call.caller := by
  obtain ⟨j, b, target, electionTerm, -, ran, rfl⟩ := voteRequest_origin bound member
  simp only [Raft.voteCall, Cluster.config]
  exact ⟨ran.member, trivial⟩

/-- A vote is recorded in `votedFor`. -/
theorem Grants.recorded (grants : R.Grants k v c t) : k < R.length ∧ v ∈ cl.ids ∧ c ∈ cl.ids ∧
    (R.node (k + 1) v).currentTerm = t ∧ (R.node (k + 1) v).votedFor = asInt64 c := by
  cases grants with
  | reply ran granted caller term =>
      obtain ⟨member, candidateId⟩ := voteRequest_caller ran.within.le ran.delivered.1
      have stepped := ran.stepped
      simp only [Raft.step, Option.some.injEq, Prod.mk.injEq] at stepped
      obtain ⟨after, answer⟩ := stepped
      obtain ⟨sameTerm, vote, -⟩ := Raft.replyVote_granted (Output.voteReply.inj answer ▸ granted)
      rw [after] at sameTerm vote
      exact ⟨ran.within, ran.member, caller ▸ member, sameTerm.trans term,
        vote.trans (caller ▸ candidateId)⟩
  | own stands same =>
      subst same
      have same := stands.core
      simp only [Raft.core, Raft.Core.mk.injEq] at same
      obtain ⟨output, ran, term⟩ := stands
      exact ⟨ran.within, ran.member, ran.member, term, same.2.2.1⟩

/-- Ids of the cluster are told apart as `int64`, and none of them is -1. -/
theorem asInt64_id (member : c ∈ cl.ids) : asInt64 c = c := by
  have small := cl.small c member
  rw [asInt64_of_lt small]

/-- **One vote in a term.** -/
theorem Grants.unique (first : R.Grants j v c t) (second : R.Grants k v d t) : c = d := by
  have later : ∀ {j k c d}, j ≤ k → R.Grants j v c t → R.Grants k v d t → c = d := by
    intro j k c d le first second
    obtain ⟨-, -, memberC, termC, voteC⟩ := first.recorded
    obtain ⟨within, -, memberD, termD, voteD⟩ := second.recorded
    rw [asInt64_id memberC] at voteC
    rw [asInt64_id memberD] at voteD
    -- the first vote is still there after the second
    have kept := (tenure (R := R) (show j + 1 ≤ k + 1 by omega) within v).vote
      (termD.trans termC.symm) (by omega)
    omega
  rcases le_total j k with le | le
  · exact later le first second
  · exact (later le second first).symm

/-! ## Counting a vote -/

theorem pending_requestVote (bound : k ≤ R.length) {target : Nat} {electionTerm : Int}
    (pending : .requestVote target electionTerm ∈ (R.node k c).threads) :
    target ∈ (cl.config c).peers ∧ electionTerm ≤ (R.node k c).currentTerm := by
  obtain ⟨j, input, output, lt, ran, spawned⟩ := thread_spawned bound pending
  cases spawned with
  | requestVote peer => exact ⟨peer, (tenure lt.le bound c).term⟩

/-- **The filter of `request_votes`.**  A reply is counted by a candidate only if the
request was built in the very same candidacy. -/
theorem counted_vote {call : VoteCall} {reply : RequestVoteReply} {output : Output}
    (ran : R.Ran k c (.voteReply call reply) output)
    (term : (R.node k c).currentTerm = call.electionTerm)
    (role : (R.node k c).currentRole = .candidate) :
    call.caller = c ∧ call.target ∈ (cl.config c).peers ∧
      call.req.term = (R.node k c).currentTerm ∧
      call.req.lastLogTerm = (R.node k c).lastLogTerm ∧
      call.req.lastLogIndex = (R.node k c).log.length := by
  obtain ⟨j, input, output', lt, built, spawned⟩ := thread_spawned ran.within.le (ran.pending rfl)
  cases spawned with
  | awaitVote =>
      obtain ⟨peer, lower⟩ := pending_requestVote built.within.le (built.pending rfl)
      have stretch := tenure lt.le ran.within.le c
      have upper := stretch.term
      simp only [Raft.voteCall] at term
      have log := (stretch.candidacy (by omega) role).2
      refine ⟨rfl, peer, ?_, ?_, ?_⟩
      · simp only [Raft.voteCall]
        omega
      · simp only [Raft.voteCall, Raft.lastLogTerm, log]
      · simp only [Raft.voteCall, log]

/-- A counted vote was given, by a voter that was not ahead. -/
theorem vote_given {call : VoteCall} {reply : RequestVoteReply} {output : Output}
    (ran : R.Ran k c (.voteReply call reply) output)
    (term : (R.node k c).currentTerm = call.electionTerm)
    (role : (R.node k c).currentRole = .candidate) (granted : reply.voteGranted = true) :
    ∃ g, g < k ∧ R.Grants g call.target c (R.node k c).currentTerm ∧
      (R.node g call.target).NotAhead (R.node k c) := by
  obtain ⟨caller, -, sameTerm, lastTerm, lastIndex⟩ := counted_vote ran term role
  obtain ⟨g, lt, answered⟩ := voteReply_given ran.within.le ran.delivered
  have stepped := answered.stepped
  simp only [Raft.step, Option.some.injEq, Prod.mk.injEq] at stepped
  obtain ⟨-, -, upToDate⟩ :=
    Raft.replyVote_granted (Output.voteReply.inj stepped.2 ▸ granted)
  refine ⟨g, lt, .reply answered granted caller sameTerm, ?_⟩
  rw [Raft.candidateUpToDate, lastTerm, lastIndex] at upToDate
  rcases upToDate with newer | ⟨same, longer⟩
  · exact Or.inl newer
  · exact Or.inr ⟨same.symm, by exact_mod_cast longer⟩

/-! ## The set `votes` -/

/-- The vote of `v` that `c` counts in state `k`: it was given in the term of `c`, and
when it was counted, at step `m`, `c` was a candidate of that term with a log not
behind. -/
def Counted (R : ClusterRun cl) (k c v : Nat) : Prop :=
  ∃ g m, g < m ∧ m < k ∧ R.Grants g v c (R.node k c).currentTerm ∧
    (R.node m c).currentTerm = (R.node k c).currentTerm ∧
    (R.node m c).currentRole = .candidate ∧ (R.node g v).NotAhead (R.node m c)

theorem Counted.next {k : Nat} (counted : R.Counted k c v)
    (same : (R.node (k + 1) c).currentTerm = (R.node k c).currentTerm) :
    R.Counted (k + 1) c v := by
  obtain ⟨g, m, gm, mk, grants, term, role, notAhead⟩ := counted
  exact ⟨g, m, gm, by omega, same ▸ grants, term.trans same.symm, role, notAhead⟩

/-- Its own vote is there, and every other one was counted. -/
def VotesCounted (R : ClusterRun cl) (k c : Nat) : Prop :=
  c ∈ (R.node k c).votes ∧ ∀ v ∈ (R.node k c).votes, v ≠ c → R.Counted k c v

/-- A step that leaves term and votes alone. -/
theorem VotesCounted.kept (counted : R.VotesCounted k c)
    (term : (R.node (k + 1) c).currentTerm = (R.node k c).currentTerm)
    (votes : (R.node (k + 1) c).votes = (R.node k c).votes) : R.VotesCounted (k + 1) c := by
  obtain ⟨own, others⟩ := counted
  constructor
  · rwa [votes]
  · intro v member other
    rw [votes] at member
    exact (others v member other).next term

/-- A vote that is counted now joins the ones counted before. -/
theorem VotesCounted.join (counted : R.VotesCounted k c) {call : VoteCall}
    {reply : RequestVoteReply} {output : Output} (ran : R.Ran k c (.voteReply call reply) output)
    (electionTerm : (R.node k c).currentTerm = call.electionTerm)
    (role : (R.node k c).currentRole = .candidate) (granted : reply.voteGranted = true)
    (term : (R.node (k + 1) c).currentTerm = (R.node k c).currentTerm)
    (votes : (R.node (k + 1) c).votes = insert call.target (R.node k c).votes) :
    R.VotesCounted (k + 1) c := by
  obtain ⟨own, others⟩ := counted
  rw [VotesCounted, votes]
  constructor
  · exact Finset.mem_insert_of_mem own
  · intro v member other
    rcases Finset.mem_insert.mp member with rfl | before
    · obtain ⟨g, lt, grants, notAhead⟩ := vote_given ran electionTerm role granted
      exact ⟨g, k, lt, by omega, term ▸ grants, term.symm, role, notAhead⟩
    · exact (others v before other).next term

/-- Every vote a running candidate or leader holds was counted. -/
theorem votes_counted (bound : k ≤ R.length) (c : Nat) (running : (R.node k c).active = true)
    (office : (R.node k c).currentRole ≠ .follower) : R.VotesCounted k c := by
  revert running office
  apply R.invariant (P := fun k => (R.node k c).active = true →
    (R.node k c).currentRole ≠ .follower → R.VotesCounted k c) ?_ ?_ k bound
  · intro running
    obtain ⟨role, isNew⟩ := R.start_node c
    simp [isNew, Raft.new] at running
  · intro k within ih running office
    rcases node_cases within c with same | ⟨input, output, ran⟩
    · rw [same] at running office
      exact (ih running office).kept (by rw [same]) (by rw [same])
    cases ran.change with
    | still same | append _ _ _ same =>
        simp only [Raft.core, Raft.Core.mk.injEq] at same
        obtain ⟨active, term, -, role, votes, -⟩ := same
        rw [active] at running
        rw [role] at office
        exact (ih running office).kept term votes
    | candidacy same =>
        have votes : (R.node (k + 1) c).votes = {c} := congrArg Raft.Core.votes same
        rw [VotesCounted, votes]
        constructor
        · exact Finset.mem_singleton_self c
        · intro v member other
          exact absurd (Finset.mem_singleton.mp member) other
    | count electionTerm role granted same =>
        simp only [Raft.core, Raft.Core.mk.injEq] at same
        obtain ⟨active, term, -, -, votes, -⟩ := same
        rw [active] at running
        exact (ih running (by simp [role])).join ran electionTerm role granted term votes
    | elect wins same =>
        obtain ⟨electionTerm, role, granted, -⟩ := wins
        simp only [Raft.core, Raft.Core.mk.injEq] at same
        obtain ⟨active, term, -, -, votes, -⟩ := same
        rw [active] at running
        exact (ih running (by simp [role])).join ran electionTerm role granted term votes
    | run same | higher _ _ same | grant _ _ _ same | refuse _ same | write _ _ same =>
        exact absurd (congrArg Raft.Core.currentRole same) office

/-! ## Candidacies -/

/-- From step `s` to state `m` the log of `c` does not change. -/
def Steady (R : ClusterRun cl) (s m c : Nat) : Prop :=
  ∀ i, s ≤ i → i ≤ m → (R.node i c).log = (R.node s c).log

/-- A candidate still has the log it stood with. -/
theorem Stands.steady {s : Nat} (stands : R.Stands s c t) (lt : s < k) (bound : k ≤ R.length)
    (role : (R.node k c).currentRole = .candidate) (term : (R.node k c).currentTerm = t) :
    R.Steady s k c := by
  have first : (R.node (s + 1) c).log = (R.node s c).log := congrArg Raft.Core.log stands.core
  obtain ⟨_, -, firstTerm⟩ := stands
  have whole := (tenure (R := R) (show s + 1 ≤ k from lt) bound c).candidacy
    (term.trans firstTerm.symm) role
  intro i from_s to_k
  by_cases later : s < i
  · have before := tenure (R := R) (show s + 1 ≤ i from later) (by omega) c
    have after := tenure (R := R) to_k bound c
    have lower := before.term
    have upper := after.term
    rw [← (after.candidacy (by omega) role).2, whole.2, first]
  · rw [show i = s by omega]

/-- An election leaves the log the node stood with. -/
theorem Elects.steady {s : Nat} (elects : R.Elects k c t) (stands : R.Stands s c t) :
    s < k ∧ R.Steady s (k + 1) c := by
  obtain ⟨within, running, role, term⟩ := elects.before
  obtain ⟨j, output, lt, ran, sameTerm⟩ :=
    candidacy_begins within.le c running (by simp [role])
  have same := stands.unique_step ⟨output, ran, sameTerm.trans term⟩
  subst same
  have steady := stands.steady lt within.le role term
  refine ⟨lt, ?_⟩
  intro i from_s to_k
  by_cases inside : i ≤ k
  · exact steady i from_s inside
  · rw [show i = k + 1 by omega, elects.log, steady k lt.le le_rfl]

theorem stands_of_office (bound : k ≤ R.length) (running : (R.node k c).active = true)
    (office : (R.node k c).currentRole ≠ .follower) :
    ∃ s, s < k ∧ R.Stands s c (R.node k c).currentTerm := by
  obtain ⟨s, output, lt, ran, term⟩ := candidacy_begins bound c running office
  exact ⟨s, lt, output, ran, term⟩

/-- A vote that was counted was given by a voter not ahead of the log the candidate
stood with. -/
theorem Counted.notAhead {s : Nat} (counted : R.Counted k c v) (bound : k ≤ R.length)
    (stands : R.Stands s c (R.node k c).currentTerm) :
    ∃ g, g + 1 < k ∧ R.Grants g v c (R.node k c).currentTerm ∧
      (R.node g v).NotAhead (R.node s c) := by
  obtain ⟨g, m, gm, mk, grants, term, role, notAhead⟩ := counted
  have up := congrArg Raft.Core.currentTerm stands.core
  have now : (R.node (s + 1) c).currentTerm = (R.node k c).currentTerm := stands.choose_spec.2
  simp only [Raft.core] at up
  -- before `s` the term was lower
  have later : s < m := by
    by_contra before
    have := (tenure (R := R) (show m ≤ s by omega) stands.choose_spec.1.within.le c).term
    omega
  have steady := stands.steady later (by omega) role term
  exact ⟨g, by omega, grants, notAhead.of_log (steady m later.le le_rfl).symm⟩

/-- **The quorum of an election.**  Who is elected has the votes of a set of nodes,
each given in its term by a node not ahead of it. -/
theorem Elects.quorum (elects : R.Elects k c t) :
    ∃ votes : Finset Nat, (cl.size - 1) / 2 < votes.card ∧ 2 ≤ votes.card ∧
      ∀ v ∈ votes, ∃ g, g < k ∧ R.Grants g v c t ∧ (R.node g v).NotAhead (R.node k c) := by
  have leads := elects.leads
  obtain ⟨s, lt, stands⟩ := stands_of_office leads.bound leads.active (by simp [leads.role])
  obtain ⟨own, counted⟩ := votes_counted leads.bound c leads.active (by simp [leads.role])
  rw [leads.term] at stands
  obtain ⟨earlier, steady⟩ := elects.steady stands
  have sameLog : (R.node k c).log = (R.node s c).log := steady k earlier.le (by omega)
  obtain ⟨call, reply, output, ran, wins, same⟩ := elects.core
  have votes : (R.node (k + 1) c).votes = insert call.target (R.node k c).votes :=
    congrArg Raft.Core.votes same
  obtain ⟨-, peer, -⟩ := counted_vote ran wins.1 wins.2.1
  have enough := wins.2.2.2
  have length := Cluster.length_peers ran.member
  refine ⟨(R.node (k + 1) c).votes, ?_, ?_, ?_⟩
  · rw [votes, ← length]
    simpa using enough
  · have pair : ({c, call.target} : Finset Nat) ⊆ (R.node (k + 1) c).votes := by
      intro v member
      rcases Finset.mem_insert.mp member with rfl | isTarget
      · exact own
      · rw [Finset.mem_singleton.mp isTarget, votes]
        exact Finset.mem_insert_self _ _
    have two := Finset.card_pair (Cluster.mem_peers.mp peer).2.symm
    exact two ▸ Finset.card_le_card pair
  · intro v member
    by_cases isOwn : v = c
    · subst isOwn
      exact ⟨s, earlier, .own stands rfl, Raft.notAhead_of_log sameLog⟩
    · obtain ⟨g, before, grants, notAhead⟩ :=
        (counted v member isOwn).notAhead leads.bound (leads.term.symm ▸ stands)
      exact ⟨g, by omega, leads.term ▸ grants, notAhead.of_log sameLog⟩

/-! ## The bookkeeping as a whole -/

/-- What the vote of `v` rests on that the candidate or leader `c` holds in state `k`. -/
def Earned (R : ClusterRun cl) (k c v : Nat) : Prop :=
  ∃ s g, s < k ∧ g < k ∧ R.Stands s c (R.node k c).currentTerm ∧
    R.Grants g v c (R.node k c).currentTerm ∧ (R.node g v).NotAhead (R.node s c) ∧
    ((R.node k c).currentRole = .candidate → R.Steady s k c) ∧
    ∀ e, R.Elects e c (R.node k c).currentTerm → s < e ∧ R.Steady s (e + 1) c

/-- A node that holds votes is running. -/
theorem active_of_vote (bound : k ≤ R.length) (member : v ∈ (R.node k c).votes) :
    (R.node k c).active = true := by
  by_contra inactive
  simp [(idle bound c (by simpa using inactive)).votes] at member

theorem earned (bound : k ≤ R.length) (office : (R.node k c).currentRole ≠ .follower)
    (member : v ∈ (R.node k c).votes) (other : v ≠ c) : R.Earned k c v := by
  have running := active_of_vote bound member
  obtain ⟨s, lt, stands⟩ := stands_of_office bound running office
  obtain ⟨-, counted⟩ := votes_counted bound c running office
  obtain ⟨g, before, grants, notAhead⟩ := (counted v member other).notAhead bound stands
  exact ⟨s, g, lt, by omega, stands, grants, notAhead,
    fun role => stands.steady lt bound role rfl, fun e elects => elects.steady stands⟩

/-- Whoever is in the votes of a candidate or leader voted for it in its term. -/
theorem grants_of_vote (bound : k ≤ R.length) (office : (R.node k c).currentRole ≠ .follower)
    (member : v ∈ (R.node k c).votes) : ∃ g, R.Grants g v c (R.node k c).currentTerm := by
  by_cases isOwn : v = c
  · obtain ⟨s, -, stands⟩ := stands_of_office bound (active_of_vote bound member) office
    exact ⟨s, .own stands isOwn⟩
  · obtain ⟨s, g, -, -, -, grants, -⟩ := earned bound office member isOwn
    exact ⟨g, grants⟩

/-- **Vote bookkeeping.**  No node gives two votes in one term; every vote a candidate
or leader holds was given to it in its term by a node whose log was not ahead of the
log it stood with, which it kept until it became leader; and two candidates or
leaders of one term hold disjoint votes. -/
theorem vote_bookkeeping (R : ClusterRun cl) :
    (∀ j k v c d t, R.Grants j v c t → R.Grants k v d t → c = d) ∧
      (∀ k c v, k ≤ R.length → (R.node k c).currentRole ≠ .follower →
        v ∈ (R.node k c).votes → v ≠ c → R.Earned k c v) ∧
      ∀ j k c d, j ≤ R.length → k ≤ R.length → (R.node j c).currentRole ≠ .follower →
        (R.node k d).currentRole ≠ .follower →
        (R.node j c).currentTerm = (R.node k d).currentTerm → c ≠ d →
        Disjoint (R.node j c).votes (R.node k d).votes := by
  refine ⟨?_, ?_, ?_⟩
  · intro j k v c d t first second
    exact first.unique second
  · intro k c v bound office member other
    exact earned bound office member other
  · intro j k c d boundJ boundK officeC officeD sameTerm differ
    rw [Finset.disjoint_left]
    intro v memberC memberD
    obtain ⟨g, grantsC⟩ := grants_of_vote boundJ officeC memberC
    obtain ⟨h, grantsD⟩ := grants_of_vote boundK officeD memberD
    exact differ (grantsC.unique (sameTerm ▸ grantsD))

end ClusterRun

end Rafty
