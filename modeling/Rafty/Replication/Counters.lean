/-
# Rafty.Replication.Counters — what the numbers of a node can come to

The terms and indices of the source are `int64`s and `uint64`s, and grow by addition only.
How far they get is bounded by what has happened:

* a term is at most the number of candidacies of the run so far, since a node tells no term
  but its own (`step_tells`) and takes over no term but one it is told (`step_term`);
* the length of a log, and every index that is made from one, is at most the number of
  proposals so far, since only a proposal makes a log longer than all logs before it;
* a reply counter is at most the number of steps.

This holds in every run, with no assumption on who leads and who sends (`counters`).  In a
run of fewer than 2^63 - 1 steps no such number overflows.
-/
import Rafty.Replication.Sender

namespace Rafty

set_option autoImplicit false

open Theory

/-- The term that comes in with an input. -/
def Input.term : Input → Int
  | .replyVote call => call.req.term
  | .voteReply _ reply => reply.term
  | .appendEntries call => call.req.term
  | .appendReply _ reply => reply.term
  | _ => 0

/-- The term that an output tells. -/
def Output.term : Output → Int
  | .requestVote call => call.req.term
  | .voteReply reply => reply.term
  | .appendEntries call => call.req.term
  | .appendReply reply => reply.term
  | _ => 0

namespace Raft

variable {config : Config} {r r' : Raft} {input : Input} {output : Output}

/-! ## Terms come from nodes -/

/-- What `reply_vote` does to the term, and what it tells. -/
theorem term_replyVote (req : RequestVoteRequest) :
    ((r.replyVote req).1.currentTerm = r.currentTerm ∨
        (r.replyVote req).1.currentTerm = req.term) ∧
      ((r.replyVote req).2.term = 0 ∨ (r.replyVote req).2.term = r.currentTerm ∨
        (r.replyVote req).2.term = (r.replyVote req).1.currentTerm) := by
  have adopted : (if r.currentTerm < req.term then (r.adoptTerm req.term).stepDown
      else r).currentTerm = r.currentTerm ∨
        (if r.currentTerm < req.term then (r.adoptTerm req.term).stepDown
          else r).currentTerm = req.term := by
    split
    · exact Or.inr (congrArg Core.currentTerm (core_stepDown (r.adoptTerm req.term)))
    · exact Or.inl rfl
  unfold replyVote
  split
  · exact ⟨Or.inl rfl, Or.inl rfl⟩
  split
  · exact ⟨Or.inl rfl, Or.inr (Or.inl rfl)⟩
  generalize (if r.currentTerm < req.term then (r.adoptTerm req.term).stepDown else r) = s
    at adopted ⊢
  simp only
  split
  · exact ⟨adopted, Or.inr (Or.inr rfl)⟩
  split
  · have kept : (s.grantVote req.candidateId (!decide (r.currentTerm < req.term))).currentTerm =
        s.currentTerm := congrArg Core.currentTerm (s.core_grantVote _ _)
    exact ⟨kept ▸ adopted, Or.inr (Or.inr kept.symm)⟩
  · exact ⟨adopted, Or.inr (Or.inr rfl)⟩

theorem term_handleVoteReply (call : VoteCall) (reply : RequestVoteReply) :
    (r.handleVoteReply config call reply).currentTerm = r.currentTerm ∨
      (r.handleVoteReply config call reply).currentTerm = reply.term := by
  unfold handleVoteReply
  split
  · rename_i refused
    rw [countVote_refused refused.1]
    exact Or.inr (congrArg Core.currentTerm (core_stepDown (r.adoptTerm reply.term)))
  · unfold countVote
    split
    · simp only
      split <;> exact Or.inl rfl
    · exact Or.inl rfl

/-- The same of `append_entries`. -/
theorem term_appendEntries {req : AppendEntriesRequest} {reply : AppendEntriesReply}
    (answered : r.appendEntries req = some (r', reply)) :
    (r'.currentTerm = r.currentTerm ∨ r'.currentTerm = req.term) ∧
      (reply.term = 0 ∨ reply.term = r.currentTerm ∨ reply.term = r'.currentTerm) := by
  unfold appendEntries at answered
  split at answered
  · cases answered
    exact ⟨Or.inl rfl, Or.inl rfl⟩
  split at answered
  · cases answered
    exact ⟨Or.inl rfl, Or.inr (Or.inl rfl)⟩
  rename_i notOld
  rw [not_lt] at notOld
  have acknowledged : (r.acknowledge req).currentTerm = req.term :=
    congrArg Core.currentTerm (r.core_acknowledge req notOld)
  simp only [Option.pure_def, Option.bind_eq_bind] at answered
  split at answered <;>
    simp only [Option.bind_eq_some_iff, Option.some.injEq, Prod.mk.injEq] at answered
  · obtain ⟨info, -, rfl, rfl⟩ := answered
    exact ⟨Or.inr acknowledged, Or.inr (Or.inr rfl)⟩
  · obtain ⟨s, followed, rfl, rfl⟩ := answered
    have kept := congrArg Core.currentTerm (core_accepted notOld followed)
    exact ⟨Or.inr kept, Or.inr (Or.inr (acknowledged.trans kept.symm))⟩

theorem term_handleAppendReply {call : AppendCall} {reply : AppendEntriesReply}
    (handled : r.handleAppendReply config call reply = some r') :
    r'.currentTerm = r.currentTerm ∨ r'.currentTerm = reply.term := by
  simp only [handleAppendReply] at handled
  split at handled
  · cases handled
    exact Or.inl rfl
  split at handled
  · cases handled
    exact Or.inr (congrArg Core.currentTerm (core_stepDown _))
  split at handled
  · cases handled
    exact Or.inl rfl
  split at handled
  · exact Or.inl (congrArg Core.currentTerm (core_backUp handled))
  · exact Or.inl (congrArg Core.currentTerm (core_advance handled))

/-- **Where a term comes from.**  A section keeps the term, takes over the one that came in,
or is a candidacy. -/
theorem step_term (stepped : r.step config input = some (r', output)) :
    r'.currentTerm = r.currentTerm ∨ r'.currentTerm = input.term ∨
      input = .becomeCandidate ∧ r'.currentTerm = r.currentTerm + 1 := by
  cases step_section stepped with
  | becomeCandidate => exact Or.inr (Or.inr ⟨rfl, rfl⟩)
  | replyVote => exact (term_replyVote _).1.imp_right Or.inl
  | voteReply => exact (term_handleVoteReply _ _).imp_right Or.inl
  | appendEntries answered => exact (term_appendEntries answered).1.imp_right Or.inl
  | appendReply _ handled => exact (term_handleAppendReply handled).imp_right Or.inl
  | timerExpired => exact Or.inl (congrArg Core.currentTerm (core_timerExpired _))
  | propose =>
      unfold propose
      split <;> exact Or.inl rfl
  | proposeSync =>
      unfold proposeSync
      split
      · simp only
        split <;> exact Or.inl rfl
      · exact Or.inl rfl
  | wakeSync => exact Or.inl (congrArg Core.currentTerm (core_wakeSync _))
  | _ => exact Or.inl rfl

/-- **A node tells no term but its own**, of before or after the section. -/
theorem step_tells (stepped : r.step config input = some (r', output)) :
    output.term = 0 ∨ output.term = r.currentTerm ∨ output.term = r'.currentTerm := by
  cases step_section stepped with
  | replyVote => exact (term_replyVote _).2
  | appendEntries answered => exact (term_appendEntries answered).2
  | requestVote => exact Or.inr (Or.inl rfl)
  | sendEntriesTo _ built => exact Or.inr (Or.inl (sends_of_appendCall built).term)
  | @proposeSync data => cases (r.proposeSync data).2 <;> exact Or.inl rfl
  | @wakeSync call => cases (r.wakeSync call).2 <;> exact Or.inl rfl
  | _ => exact Or.inl rfl

end Raft

namespace ClusterRun

variable {cl : Cluster} {R : ClusterRun cl} {j k m a b p : Nat} {input : Input} {output : Output}

/-- The candidacies before state `k`. -/
def candidacies (R : ClusterRun cl) (k : Nat) : Nat :=
  R.count (fun action => action.input = .becomeCandidate) k

/-- The calls of `propose` and `propose_sync` before state `k`. -/
def proposals (R : ClusterRun cl) (k : Nat) : Nat :=
  R.count (fun action => action.input.Proposes) k

theorem candidacies_mono (le : k ≤ m) : R.candidacies k ≤ R.candidacies m := R.count_mono _ le

theorem proposals_mono (le : k ≤ m) : R.proposals k ≤ R.proposals m := R.count_mono _ le

theorem Ran.candidacies (ran : R.Ran k a .becomeCandidate output) :
    R.candidacies (k + 1) = R.candidacies k + 1 := by
  simp [ClusterRun.candidacies, Run.count, ran.action]

theorem Ran.proposals (ran : R.Ran k a input output) (proposes : input.Proposes) :
    R.proposals (k + 1) = R.proposals k + 1 := by
  simp [ClusterRun.proposals, Run.count, ran.action, proposes]

/-! ## Terms -/

/-- A term that comes in was told before. -/
theorem Ran.told (ran : R.Ran k a input output) :
    input.term = 0 ∨ ∃ j b input' output', j < k ∧ R.Ran j b input' output' ∧
      output'.term = input.term := by
  have delivered := ran.delivered
  cases input with
  | replyVote call =>
      obtain ⟨j, b, input', lt, asked⟩ := voteRequest_sent ran.within.le delivered.1
      exact Or.inr ⟨j, b, input', _, lt, asked, rfl⟩
  | voteReply call reply =>
      obtain ⟨j, lt, given⟩ := voteReply_given ran.within.le delivered
      exact Or.inr ⟨j, _, _, _, lt, given, rfl⟩
  | appendEntries call =>
      obtain ⟨j, b, input', lt, sent⟩ := appendRequest_sent ran.within.le delivered.1
      exact Or.inr ⟨j, b, input', _, lt, sent, rfl⟩
  | appendReply call reply =>
      obtain ⟨j, lt, given⟩ := appendReply_given ran.within.le delivered
      exact Or.inr ⟨j, _, _, _, lt, given, rfl⟩
  | _ => exact Or.inl rfl

/-- **A term is at most the number of candidacies.** -/
theorem term_le_candidacies (bound : k ≤ R.length) (a : Nat) :
    (R.node k a).currentTerm ≤ R.candidacies k := by
  revert a
  apply R.history (P := fun k => ∀ a, (R.node k a).currentTerm ≤ R.candidacies k) ?_ ?_ k bound
  · intro a
    obtain ⟨role, isNew⟩ := R.start_node a
    rw [isNew]
    exact Int.natCast_nonneg _
  · intro k within ih a
    have grows := R.candidacies_mono (Nat.le_add_right k 1)
    have old := ih k le_rfl a
    rcases node_cases within a with same | ⟨input, output, ran⟩
    · rw [same]
      omega
    rcases Raft.step_term ran.stepped with kept | told | ⟨rfl, up⟩
    · omega
    · rw [told]
      rcases ran.told with none | ⟨j, b, input', output', lt, tells, same⟩
      · omega
      · -- the teller had this term when it told it
        have before := ih j lt.le b
        have after := ih (j + 1) lt b
        have until_j := R.candidacies_mono lt.le
        have until_after := R.candidacies_mono (show j + 1 ≤ k from lt)
        have source := Raft.step_tells tells.stepped
        simp only [node] at before after source
        omega
    · have counted := ran.candidacies
      omega

/-! ## Logs -/

/-- The terms in a log were terms of nodes, and the log is as long as the proposals allow. -/
structure LogCounts (R : ClusterRun cl) (k a : Nat) : Prop where
  length : (R.node k a).log.length ≤ R.proposals k
  terms : ∀ entry ∈ (R.node k a).log, 0 ≤ entry.term ∧ entry.term ≤ R.candidacies k

theorem LogCounts.of_log (counts : R.LogCounts j b) (le : j ≤ k)
    (same : (R.node k a).log = (R.node j b).log) : R.LogCounts k a where
  length := by
    rw [same]
    exact counts.length.trans (proposals_mono (R := R) le)
  terms entry member := by
    rw [same] at member
    obtain ⟨low, high⟩ := counts.terms entry member
    have grows := candidacies_mono (R := R) le
    omega

theorem logCounts (bound : k ≤ R.length) (a : Nat) : R.LogCounts k a := by
  revert a
  apply R.history (P := fun k => ∀ a, R.LogCounts k a) ?_ ?_ k bound
  · intro a
    obtain ⟨role, isNew⟩ := R.start_node a
    constructor
    · rw [isNew]
      exact Nat.zero_le _
    · rw [isNew]
      simp [Raft.new]
  · intro k within ih a
    have old := ih k le_rfl a
    cases logStep within a with
    | kept same => exact old.of_log (Nat.le_add_right k 1) same
    | proposed data input output ran proposes role core =>
        have isProposal : input.Proposes := by
          rcases proposes with rfl | rfl <;> trivial
        have counted := ran.proposals isProposal
        have log := log_of_proposed core
        have term := term_le_candidacies within.le a
        have nonneg := term_nonneg within.le a
        have grows := R.candidacies_mono (Nat.le_add_right k 1)
        constructor
        · rw [log, List.length_append, List.length_singleton, counted]
          exact Nat.succ_le_succ old.length
        · intro entry member
          rw [log] at member
          rcases List.mem_append.mp member with before | last
          · obtain ⟨low, high⟩ := old.terms entry before
            omega
          · rw [List.mem_singleton.mp last]
            change 0 ≤ (R.node k a).currentTerm ∧ (R.node k a).currentTerm ≤ _
            omega
    | spliced j call splice =>
        have source := ih j splice.lt.le call.caller
        have inside := splice.sent.sends.inside
        have until_j := R.proposals_mono splice.lt.le
        have grows := R.proposals_mono (Nat.le_add_right k 1)
        constructor
        · have longest : (overwrite Entry.term (R.node k a).log call.pos
              ((R.node j call.caller).log.drop call.pos)).length ≤ _ :=
            (length_overwrite splice.inside).2
          rw [← splice.log, List.length_drop] at longest
          have := old.length
          have := source.length
          omega
        · intro entry member
          rw [splice.log] at member
          rcases mem_overwrite member with own | sent
          · obtain ⟨low, high⟩ := old.terms entry own
            have := R.candidacies_mono (Nat.le_add_right k 1)
            omega
          · obtain ⟨low, high⟩ := source.terms entry (List.mem_of_mem_drop sent)
            have := R.candidacies_mono (show j ≤ k + 1 by have := splice.lt; omega)
            omega

/-! ## Indices -/

/-- `commitIndex` and `lastApplied` were indices of logs. -/
theorem commit_le_proposals (bound : k ≤ R.length) (a : Nat) :
    (R.node k a).commitIndex ≤ R.proposals k ∧ (R.node k a).lastApplied ≤ R.proposals k := by
  apply R.invariant (P := fun k => (R.node k a).commitIndex ≤ R.proposals k ∧
    (R.node k a).lastApplied ≤ R.proposals k) ?_ ?_ k bound
  · obtain ⟨role, isNew⟩ := R.start_node a
    rw [isNew]
    exact ⟨Nat.zero_le _, Nat.zero_le _⟩
  · intro k within ih
    have grows := R.proposals_mono (Nat.le_add_right k 1)
    rcases node_cases within a with same | ⟨input, output, ran⟩
    · rw [same]
      omega
    cases Raft.step_advance ran.stepped with
    | still same | record same | backUp _ _ _ same | elect _ same =>
        simp only [Raft.progress, Raft.Progress.mk.injEq] at same
        omega
    | follow results notOld consistent core higher applied length same =>
        have inside := (logCounts (R := R) (k := k + 1) within a).length
        simp only [Raft.progress, Raft.Progress.mk.injEq] at same
        omega
    | acknowledge commit results fresh role term success core committed applied same =>
        simp only [Raft.progress, Raft.Progress.mk.injEq] at same
        rcases committed with ⟨kept, rfl⟩ | ⟨newer, -, ⟨entry, read, -⟩, -, length⟩
        · simp only [List.length_nil] at same
          omega
        · have inside := (logCounts (R := R) within.le a).length
          have := (List.getElem?_eq_some_iff.mp read).1
          omega

/-- A call is made to a peer. -/
theorem peer_of_await (bound : k ≤ R.length) {call : AppendCall}
    (pending : .awaitAppend call ∈ (R.node k a).threads) : call.target ∈ (cl.config a).peers := by
  obtain ⟨j, input, output, lt, ran, spawned⟩ := thread_spawned bound pending
  cases spawned with
  | awaitAppend built =>
      have receiver := (Raft.sends_of_appendCall built).receiver
      exact receiver ▸ (led_of_sending ran.within.le (ran.pending rfl)).1

/-- What a node keeps for peer `p`. -/
structure PeerCounts (R : ClusterRun cl) (k a p : Nat) : Prop where
  next : 0 ≤ (R.node k a).nextIndex p ∧ (R.node k a).nextIndex p ≤ R.proposals k + 1
  matched : 0 ≤ (R.node k a).matchIndex p ∧ (R.node k a).matchIndex p ≤ R.proposals k
  counter : 0 ≤ (R.node k a).replyCounter p ∧ (R.node k a).replyCounter p ≤ k

/-- A map with one value set is bounded if it was and the value is. -/
theorem setAt_bounded {map : Nat → Int} {target : Nat} {value high : Int}
    (isSet : 0 ≤ value ∧ value ≤ high) (was : 0 ≤ map p ∧ map p ≤ high) :
    0 ≤ Raft.setAt map target value p ∧ Raft.setAt map target value p ≤ high := by
  unfold Raft.setAt
  split
  · exact isSet
  · exact was

/-- A running leader's `nextIndex` lies inside its log. -/
theorem next_of_leader (within : k < R.length) (running : (R.node (k + 1) a).active = true)
    (role : (R.node (k + 1) a).currentRole = .leader) (peer : p ∈ (cl.config a).peers) :
    0 ≤ (R.node (k + 1) a).nextIndex p ∧
      (R.node (k + 1) a).nextIndex p ≤ R.proposals (k + 1) + 1 := by
  have leads : R.Leads (k + 1) a (R.node (k + 1) a).currentTerm := ⟨within, running, role, rfl⟩
  have bounds := bounds_of_leads leads peer
  have low := bounds.low
  have high := bounds.high
  have inside := (logCounts leads.bound a).length
  omega

theorem peerCounts (bound : k ≤ R.length) (a p : Nat) : R.PeerCounts k a p := by
  revert a p
  apply R.history (P := fun k => ∀ a p, R.PeerCounts k a p) ?_ ?_ k bound
  · intro a p
    obtain ⟨role, isNew⟩ := R.start_node a
    constructor <;> rw [isNew] <;> simp [Raft.new]
    omega
  · intro k within ih a p
    have grows := R.proposals_mono (Nat.le_add_right k 1)
    obtain ⟨next, matched, counter⟩ := ih k le_rfl a p
    have next' : 0 ≤ (R.node k a).nextIndex p ∧
        (R.node k a).nextIndex p ≤ R.proposals (k + 1) + 1 := by omega
    have matched' : 0 ≤ (R.node k a).matchIndex p ∧
        (R.node k a).matchIndex p ≤ R.proposals (k + 1) := by omega
    have counter' : 0 ≤ (R.node k a).replyCounter p ∧
        (R.node k a).replyCounter p ≤ (k + 1 : Nat) := by omega
    rcases node_cases within a with same | ⟨input, output, ran⟩
    · exact ⟨same ▸ next', same ▸ matched', same ▸ counter'⟩
    -- the numbers in a call are those of the state in which it was built
    have built : ∀ {call reply}, input = .appendReply call reply →
        (0 ≤ call.currentReplyCounter ∧ call.currentReplyCounter ≤ (k + 1 : Nat)) ∧
          0 ≤ Raft.lastLogIndexSent call ∧ Raft.lastLogIndexSent call ≤ R.proposals k := by
      rintro call reply rfl
      obtain ⟨j, lt, sends⟩ := sends_of_pending ran.within.le (ran.pending rfl)
      have before := (ih j lt.le a call.target).counter
      have inside := (logCounts (R := R) (by omega : j ≤ R.length) a).length
      have until_j := R.proposals_mono lt.le
      have number := sends.counter
      have reach := sends.lastLogIndexSent
      omega
    cases Raft.step_advance ran.stepped with
    | still same | follow _ _ _ _ _ _ _ same =>
        simp only [Raft.progress, Raft.Progress.mk.injEq] at same
        obtain ⟨-, -, -, nextIndex, matchIndex, replyCounter⟩ := same
        exact ⟨nextIndex ▸ next', matchIndex ▸ matched', replyCounter ▸ counter'⟩
    | elect wins same =>
        simp only [Raft.progress, Raft.Progress.mk.injEq] at same
        obtain ⟨-, -, -, nextIndex, matchIndex, replyCounter⟩ := same
        have inside := (logCounts (R := R) within.le a).length
        refine ⟨?_, ?_, ?_⟩
        · simp only [nextIndex]
          split <;> omega
        · simp only [matchIndex]
          omega
        · simp only [replyCounter]
          omega
    | record same =>
        simp only [Raft.progress, Raft.Progress.mk.injEq] at same
        obtain ⟨-, -, -, nextIndex, matchIndex, replyCounter⟩ := same
        exact ⟨nextIndex ▸ next', matchIndex ▸ matched',
          replyCounter ▸ setAt_bounded (built rfl).1 counter'⟩
    | @backUp call reply _ value role term same =>
        simp only [Raft.progress, Raft.Progress.mk.injEq] at same
        obtain ⟨-, -, -, nextIndex, matchIndex, replyCounter⟩ := same
        refine ⟨?_, matchIndex ▸ matched', replyCounter ▸ setAt_bounded (built rfl).1 counter'⟩
        rcases Raft.nextIndex_of_handled (Raft.step_appendReply ran.stepped) with office | kept
        · by_cases isTarget : p = call.target
          · have pending : .awaitAppend call ∈ (R.node k a).threads := ran.pending rfl
            have running := active_of_thread within.le pending
            have stays := (tenure (R := R) (Nat.le_add_right k 1) within a).active running
            exact next_of_leader within stays (office.trans role)
              (isTarget ▸ peer_of_await within.le pending)
          · rw [nextIndex, Raft.setAt, if_neg isTarget]
            exact next'
        · rw [show (R.node (k + 1) a).nextIndex = (R.node k a).nextIndex from kept]
          exact next'
    | acknowledge commit results fresh role term success core committed applied same =>
        simp only [Raft.progress, Raft.Progress.mk.injEq] at same
        obtain ⟨-, -, -, nextIndex, matchIndex, replyCounter⟩ := same
        have sent := (built rfl).2
        exact ⟨nextIndex ▸ setAt_bounded (by omega) next',
          matchIndex ▸ setAt_bounded (by omega) matched',
          replyCounter ▸ setAt_bounded (built rfl).1 counter'⟩

/-! ## All of them -/

/-- The numbers of node `a` in state `k`. -/
structure Counters (R : ClusterRun cl) (k a : Nat) : Prop where
  term : 0 ≤ (R.node k a).currentTerm ∧ (R.node k a).currentTerm ≤ R.candidacies k
  log : R.LogCounts k a
  commitIndex : (R.node k a).commitIndex ≤ R.proposals k
  lastApplied : (R.node k a).lastApplied ≤ R.proposals k
  peers : ∀ p, R.PeerCounts k a p

/-- The numbers of a request under way in state `k`. -/
structure RequestCounts (R : ClusterRun cl) (k : Nat) (req : AppendEntriesRequest) : Prop where
  term : 0 ≤ req.term ∧ req.term ≤ R.candidacies k
  prevLogIndex : 0 ≤ req.prevLogIndex ∧ req.prevLogIndex ≤ R.proposals k
  prevLogTerm : 0 ≤ req.prevLogTerm ∧ req.prevLogTerm ≤ R.candidacies k
  entries : ∀ entry ∈ req.entries, 0 ≤ entry.term ∧ entry.term ≤ R.candidacies k
  reach : req.prevLogIndex + req.entries.length ≤ R.proposals k
  leaderCommit : 0 ≤ req.leaderCommit ∧ req.leaderCommit ≤ R.proposals k

theorem requestCounts (bound : k ≤ R.length) {call : AppendCall}
    (member : call ∈ (R.state k).appendRequests) : R.RequestCounts k call.req := by
  obtain ⟨j, lt, sent⟩ := sent_of_request bound member
  have boundJ : j ≤ R.length := lt.le.trans bound
  have sends := sent.sends
  have log := logCounts boundJ call.caller
  have proposed := R.proposals_mono lt.le
  have stood := R.candidacies_mono lt.le
  have length := log.length
  have inside := sends.inside
  have prev := sends.prev
  refine ⟨?_, ?_, ?_, ?_, ?_, ?_⟩
  · rw [sends.term]
    have nonneg := term_nonneg boundJ call.caller
    have term := term_le_candidacies boundJ call.caller
    omega
  · omega
  · rcases sends.prevTerm with ⟨-, zero⟩ | ⟨entry, -, read, same⟩
    · omega
    · have bounds := log.terms entry (List.mem_of_getElem? read)
      omega
  · intro entry isSent
    rw [sends.entries] at isSent
    have bounds := log.terms entry (List.mem_of_mem_drop isSent)
    omega
  · rw [sends.entries, List.length_drop]
    omega
  · rw [sends.leaderCommit]
    have commit := (commit_le_proposals boundJ call.caller).1
    omega

/-- **Nothing overflows.**  In every run, of every cluster and in every order, terms are at
most the number of candidacies, lengths and indices at most the number of proposals, and
reply counters at most the number of steps; so are the numbers of the requests under way.
Candidacies and proposals are steps. -/
theorem counters (R : ClusterRun cl) :
    ∀ k, k ≤ R.length → R.candidacies k + R.proposals k ≤ k ∧ (∀ a, R.Counters k a) ∧
      ∀ call ∈ (R.state k).appendRequests, R.RequestCounts k call.req := by
  intro k bound
  refine ⟨?_, ?_, fun call member => requestCounts bound member⟩
  · apply R.count_add_le
    rintro ⟨node, input⟩ rfl
    exact id
  · intro a
    exact
      { term := ⟨term_nonneg bound a, term_le_candidacies bound a⟩
        log := logCounts bound a
        commitIndex := (commit_le_proposals bound a).1
        lastApplied := (commit_le_proposals bound a).2
        peers := peerCounts bound a }

theorem counters_of_commit :
    ∃ R : ClusterRun (.ofSize 3 (by decide)), R.candidacies 17 = 1 ∧ R.proposals 17 = 1 ∧
      (R.node 17 1).commitIndex = 1 ∧ (R.node 17 1).commitIndex ≤ R.proposals 17 := by
  let R : ClusterRun (.ofSize 3 (by decide)) := .of _ oneCommit oneCommit_accepted
  exact ⟨R, by decide +kernel, by decide +kernel, by decide +kernel,
    ((counters R 17 (by decide)).2.1 1).commitIndex⟩

end ClusterRun

end Rafty
