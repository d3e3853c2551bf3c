/-
# Rafty.Network.Silence — what a killed node still sends

`kill` sets `dead` and nothing else: threads that are already detached go on, handlers
still answer, and a vote that is still awaited can even make the node leader.  What ends
is the supply of new rounds, since only an expired timer starts one and a dead node's
timers are reset instead of expiring.

The threads pending when the node is killed pay for all it will ever send.  A weight
counts, for each thread, the requests it can still lead to (`Prepays`); one section of a
dead node spends what it sends and puts nothing back (`step_prepaid`).
-/
import Rafty.Election.Standing
import Rafty.Replication.Provenance
import Mathlib

namespace Rafty

set_option autoImplicit false

open Theory

/-! ## Counting what is sent -/

namespace Output

def voteCalls : Output → List VoteCall
  | .requestVote call => [call]
  | _ => []

def appendCalls : Output → List AppendCall
  | .appendEntries call => [call]
  | _ => []

end Output

namespace World

theorem voteRequests_post (w : World) (input : Input) (output : Output) :
    (w.post input output).voteRequests = w.voteRequests ++ output.voteCalls := by
  unfold post
  split <;> simp [Output.voteCalls]

theorem appendRequests_post (w : World) (input : Input) (output : Output) :
    (w.post input output).appendRequests = w.appendRequests ++ output.appendCalls := by
  unfold post
  split <;> simp [Output.appendCalls]

/-- How many vote requests `a` has sent. -/
def votesAskedBy (w : World) (a : Nat) : Nat := w.voteRequests.countP (·.caller = a)

/-- How many `append_entries` requests `a` has sent. -/
def entriesSentBy (w : World) (a : Nat) : Nat := w.appendRequests.countP (·.caller = a)

end World

/-! ## What threads lead to -/

/-- The vote requests a thread of a node with `n` peers leads to before a timer expires. -/
def Thread.votesToAsk (n : Nat) : Thread → Nat
  | .becomeCandidate | .requestVotes => n
  | .requestVote _ _ => 1
  | _ => 0

/-- The same for `append_entries` requests. -/
def Thread.entriesToSend (n : Nat) : Thread → Nat
  | .sendEntries => n
  | .sendEntriesTo _ => 1
  | _ => 0

namespace Raft

/-- The sum of the weights of the pending threads. -/
def pending (weight : Thread → Nat) (r : Raft) : Nat := (r.threads.map weight).sum

/-- With `n` peers, a thread's weight covers the cost of its own section and the weights of
the threads it spawns; a thread that only starts a timer or waits weighs nothing. -/
structure Prepays (n : Nat) (weight : Thread → Nat) (cost : Output → Nat) : Prop where
  startElectionTimer : weight .startElectionTimer = 0
  startHeartbeatTimer : weight .startHeartbeatTimer = 0
  startTimer : ∀ counter mode, weight (.startTimer counter mode) = 0
  awaitVote : ∀ call, weight (.awaitVote call) = 0
  awaitAppend : ∀ call, weight (.awaitAppend call) = 0
  becomeCandidate : weight .requestVotes ≤ weight .becomeCandidate
  requestVotes : ∃ each, (∀ target term, weight (.requestVote target term) = each) ∧
    n * each ≤ weight .requestVotes
  requestVote : ∀ target term call, cost (.requestVote call) ≤ weight (.requestVote target term)
  sendEntries : ∃ each, (∀ target, weight (.sendEntriesTo target) = each) ∧
    n * each ≤ weight .sendEntries
  sendEntriesTo : ∀ target call, cost (.appendEntries call) ≤ weight (.sendEntriesTo target)
  none : cost .none = 0
  voteReply : ∀ reply, cost (.voteReply reply) = 0
  appendReply : ∀ reply, cost (.appendReply reply) = 0
  proposal : ∀ res, cost (.proposal res) = 0

theorem prepays_votes (n : Nat) :
    Prepays n (Thread.votesToAsk n) (fun output => output.voteCalls.length) where
  startElectionTimer := rfl
  startHeartbeatTimer := rfl
  startTimer _ _ := rfl
  awaitVote _ := rfl
  awaitAppend _ := rfl
  becomeCandidate := le_rfl
  requestVotes := ⟨1, fun _ _ => rfl, (Nat.mul_one n).le⟩
  requestVote _ _ _ := le_rfl
  sendEntries := ⟨0, fun _ => rfl, le_rfl⟩
  sendEntriesTo _ _ := le_rfl
  none := rfl
  voteReply _ := rfl
  appendReply _ := rfl
  proposal _ := rfl

theorem prepays_entries (n : Nat) :
    Prepays n (Thread.entriesToSend n) (fun output => output.appendCalls.length) where
  startElectionTimer := rfl
  startHeartbeatTimer := rfl
  startTimer _ _ := rfl
  awaitVote _ := rfl
  awaitAppend _ := rfl
  becomeCandidate := le_rfl
  requestVotes := ⟨0, fun _ _ => rfl, le_rfl⟩
  requestVote _ _ _ := le_rfl
  sendEntries := ⟨1, fun _ => rfl, (Nat.mul_one n).le⟩
  sendEntriesTo _ _ := le_rfl
  none := rfl
  voteReply _ := rfl
  appendReply _ := rfl
  proposal _ := rfl

section Pending

variable {weight : Thread → Nat} {cost : Output → Nat} {n : Nat} {config : Config} {r r' : Raft}

theorem pending_spawn (thread : Thread) :
    (r.spawn thread).pending weight = r.pending weight + weight thread := by
  simp [pending, spawn]

/-- What is pending is the thread that ends and the others. -/
theorem pending_finish {thread : Thread} (member : thread ∈ r.threads) :
    weight thread + (r.finish thread).pending weight = r.pending weight :=
  List.sum_map_erase weight member

theorem pending_of_threads (same : r'.threads = r.threads) :
    r'.pending weight = r.pending weight := by
  rw [pending, pending, same]

/-- The threads that start timers weigh nothing. -/
theorem pending_restarts (pays : Prepays n weight cost) (restarts : Restarts r r') :
    r'.pending weight = r.pending weight := by
  obtain ⟨starts, threads, kinds, -⟩ := restarts.threads
  have free : (starts.map weight).sum = 0 := by
    apply List.sum_eq_zero
    intro w member
    obtain ⟨thread, isStart, rfl⟩ := List.mem_map.mp member
    rcases kinds thread isStart with rfl | rfl
    · exact pays.startElectionTimer
    · exact pays.startHeartbeatTimer
  rw [pending, pending, threads, List.map_append, List.sum_append, free, Nat.add_zero]

theorem pending_startTimer (pays : Prepays n weight cost) (mode : TimerMode) :
    (r.startTimer mode).pending weight = r.pending weight := by
  have kept : (({ r with timerCounter := r.timerCounter + 1 } : Raft)).pending weight =
      r.pending weight := rfl
  rw [startTimer, pending_spawn, pays.startTimer, kept, Nat.add_zero]

theorem pending_becomeCandidate (pays : Prepays n weight cost) :
    (r.becomeCandidate config).pending weight = r.pending weight + weight .requestVotes := by
  rw [becomeCandidate, pending_spawn, pending_spawn, pays.startElectionTimer]
  rfl

theorem pending_requestVotes (pays : Prepays config.peers.length weight cost) :
    (r.requestVotes config).pending weight ≤ r.pending weight + weight .requestVotes := by
  obtain ⟨each, weighs, enough⟩ := pays.requestVotes
  simp only [pending, requestVotes, List.map_append, List.map_map, List.sum_append]
  have sum : (config.peers.map (weight ∘ (.requestVote · r.currentTerm))).sum =
      config.peers.length * each := by
    simp [Function.comp_def, weighs]
  omega

theorem pending_sendEntries (pays : Prepays config.peers.length weight cost) :
    (r.sendEntries config).pending weight ≤ r.pending weight + weight .sendEntries := by
  obtain ⟨each, weighs, enough⟩ := pays.sendEntries
  simp only [sendEntries, pending_spawn, pays.startHeartbeatTimer]
  simp only [pending, List.map_append, List.map_map, List.sum_append]
  have sum : (config.peers.map (weight ∘ Thread.sendEntriesTo)).sum =
      config.peers.length * each := by
    simp [Function.comp_def, weighs]
  omega

theorem Prepays.ofResult (pays : Prepays n weight cost) (res : Option ProposalResult) :
    cost (.ofResult res) = 0 := by
  cases res with
  | none => exact pays.none
  | some res => exact pays.proposal res

/-- **A dead node only spends.**  What a section sends was paid for by the thread that
executes it, and no timer expires. -/
theorem step_prepaid {input : Input} {output : Output}
    (pays : Prepays config.peers.length weight cost) (dead : r.dead = true)
    (stepped : r.step config input = some (r', output)) :
    r'.pending weight + cost output ≤ r.pending weight := by
  cases step_section stepped with
  | run =>
      rw [Raft.run, pending_spawn, pays.startElectionTimer, pays.none]
      exact le_rfl
  | kill => exact (congrArg (r.pending weight + ·) pays.none).le
  | startElectionTimer pending | startHeartbeatTimer pending =>
      rw [pending_startTimer pays, pays.none, ← pending_finish pending]
      omega
  | timerExpired pending live => exact absurd (Or.inl dead) live
  | timerReset pending | voteFailed pending | appendFailed pending | sendNothing pending =>
      rw [pays.none, ← pending_finish pending]
      omega
  | becomeCandidate pending =>
      have covered := pays.becomeCandidate
      rw [pending_becomeCandidate pays, pays.none, ← pending_finish pending]
      omega
  | requestVotes pending =>
      have spread := pending_requestVotes (r := r.finish .requestVotes) pays
      rw [pays.none, ← pending_finish pending]
      omega
  | sendEntries pending =>
      have spread := pending_sendEntries (r := r.finish .sendEntries) pays
      rw [pays.none, ← pending_finish pending]
      omega
  | @requestVote target electionTerm pending =>
      have paid := pays.requestVote target electionTerm (r.voteCall config target electionTerm)
      rw [pending_spawn, pays.awaitVote, ← pending_finish pending]
      omega
  | @sendEntriesTo target call pending =>
      have paid := pays.sendEntriesTo target call
      rw [pending_spawn, pays.awaitAppend, ← pending_finish pending]
      omega
  | replyVote =>
      rw [pending_restarts pays (restarts_replyVote _), pays.voteReply, Nat.add_zero]
  | appendEntries answered =>
      rw [pending_restarts pays (restarts_appendEntries answered), pays.appendReply, Nat.add_zero]
  | voteReply pending =>
      rw [pending_restarts pays (restarts_handleVoteReply _ _), pays.none,
        ← pending_finish pending]
      omega
  | appendReply pending handled =>
      rw [pending_restarts pays (restarts_handleAppendReply handled), pays.none,
        ← pending_finish pending]
      omega
  | propose => rw [pending_of_threads (threads_propose _), pays.proposal, Nat.add_zero]
  | proposeSync => rw [pending_of_threads (threads_proposeSync _), pays.ofResult, Nat.add_zero]
  | wakeSync => rw [pending_of_threads (threads_wakeSync _), pays.ofResult, Nat.add_zero]

/-- A dead node stays dead. -/
theorem step_stays_dead {input : Input} {output : Output} (dead : r.dead = true)
    (stepped : r.step config input = some (r', output)) : r'.dead = true := by
  by_cases isKill : input = .kill
  · subst isKill
    cases stepped
    rfl
  · exact (step_dead isKill stepped).trans dead

end Pending

end Raft

/-! ## Runs -/

namespace ClusterRun

variable {cl : Cluster} {R : ClusterRun cl} {k m a b : Nat} {input : Input} {output : Output}

theorem Ran.votesAsked (ran : R.Ran k b input output) :
    (R.state (k + 1)).votesAskedBy a =
      (R.state k).votesAskedBy a + if b = a then output.voteCalls.length else 0 := by
  have callers : ∀ call ∈ output.voteCalls, call.caller = b := by
    intro call member
    cases output with
    | requestVote sent =>
        obtain ⟨target, electionTerm, -, built⟩ := Raft.voteRequest_built ran.stepped
        rw [List.mem_singleton.mp member, built]
        rfl
    | _ => cases member
  rw [ran.network, World.votesAskedBy, World.voteRequests_post, List.countP_append]
  congr 1
  split
  · rename_i same
    exact List.countP_eq_length.mpr fun call member => by simp [callers call member, same]
  · rename_i other
    exact List.countP_eq_zero.mpr fun call member => by simp [callers call member, other]

theorem Ran.entriesSent (ran : R.Ran k b input output) :
    (R.state (k + 1)).entriesSentBy a =
      (R.state k).entriesSentBy a + if b = a then output.appendCalls.length else 0 := by
  have callers : ∀ call ∈ output.appendCalls, call.caller = b := by
    intro call member
    cases output with
    | appendEntries sent =>
        rw [List.mem_singleton.mp member]
        exact (Raft.appendRequest_built ran.stepped).2.caller
    | _ => cases member
  rw [ran.network, World.entriesSentBy, World.appendRequests_post, List.countP_append]
  congr 1
  split
  · rename_i same
    exact List.countP_eq_length.mpr fun call member => by simp [callers call member, same]
  · rename_i other
    exact List.countP_eq_zero.mpr fun call member => by simp [callers call member, other]

/-- From a state in which the node is dead to a later one, what was sent and what is
still paid for together do not grow. -/
def Spends (a : Nat) (weight : Thread → Nat) (sent : World → Nat) (w w' : World) : Prop :=
  (w.nodes a).dead = true → (w'.nodes a).dead = true ∧
    (w'.nodes a).pending weight + sent w' ≤ (w.nodes a).pending weight + sent w

theorem spends {weight : Thread → Nat} {cost : Output → Nat} {sent : World → Nat}
    (pays : Raft.Prepays (cl.config a).peers.length weight cost)
    (counts : ∀ j b input output, R.Ran j b input output →
      sent (R.state (j + 1)) = sent (R.state j) + if b = a then cost output else 0)
    (le : k ≤ m) (bound : m ≤ R.length) : Spends a weight sent (R.state k) (R.state m) := by
  apply R.related (r := Spends a weight sent) R.state ?_ ?_ ?_ le bound
  · exact fun w dead => ⟨dead, le_rfl⟩
  · intro w w' w'' first second dead
    obtain ⟨dead', spent⟩ := first dead
    obtain ⟨dead'', spent'⟩ := second dead'
    exact ⟨dead'', spent'.trans spent⟩
  · intro j within dead
    obtain ⟨b, input, output, ran⟩ := exists_ran within
    have counted := counts j b input output ran
    by_cases same : b = a
    · subst same
      rw [if_pos rfl] at counted
      have paid := Raft.step_prepaid pays dead ran.stepped
      simp only [node] at paid
      exact ⟨Raft.step_stays_dead dead ran.stepped, by omega⟩
    · have untouched : (R.state (j + 1)).nodes a = (R.state j).nodes a :=
        ran.others a (Ne.symm same)
      rw [if_neg same] at counted
      exact ⟨untouched ▸ dead, by rw [untouched, counted, Nat.add_zero]⟩

/-- **A killed node falls silent.**  From any state in which node `a` is dead, in any run,
it sends no more requests than the threads pending in that state already lead to: one for
each peer for each round not yet begun, and one for each request thread. -/
theorem silent_after_kill (dead : (R.node k a).dead = true) (le : k ≤ m) (bound : m ≤ R.length) :
    (R.state m).votesAskedBy a ≤ (R.state k).votesAskedBy a +
        (R.node k a).pending (Thread.votesToAsk (cl.config a).peers.length) ∧
      (R.state m).entriesSentBy a ≤ (R.state k).entriesSentBy a +
        (R.node k a).pending (Thread.entriesToSend (cl.config a).peers.length) := by
  have votes : Spends a _ (World.votesAskedBy · a) (R.state k) (R.state m) :=
    spends (Raft.prepays_votes _) (fun _ _ _ _ ran => ran.votesAsked) le bound
  have entries : Spends a _ (World.entriesSentBy · a) (R.state k) (R.state m) :=
    spends (Raft.prepays_entries _) (fun _ _ _ _ ran => ran.entriesSent) le bound
  have votesPaid : _ + (R.state m).votesAskedBy a ≤ _ + (R.state k).votesAskedBy a :=
    (votes dead).2
  have entriesPaid : _ + (R.state m).entriesSentBy a ≤ _ + (R.state k).entriesSentBy a :=
    (entries dead).2
  simp only [node]
  exact ⟨by omega, by omega⟩

/-- Node 1 is killed with two threads left that ask for votes, and one of them asks. -/
def killedCandidate : List Action :=
  [⟨1, .run⟩, ⟨1, .startElectionTimer⟩, ⟨1, .timerExpired 1 .election⟩, ⟨1, .becomeCandidate⟩,
    ⟨1, .requestVotes⟩, ⟨1, .kill⟩, ⟨1, .requestVote 2 1⟩]

theorem silent_after_kill_of_candidate :
    ∃ R : ClusterRun (.ofSize 3 (by decide)), (R.node 6 1).dead = true ∧
      (R.node 6 1).pending (Thread.votesToAsk 2) = 2 ∧ (R.state 7).votesAskedBy 1 = 1 ∧
        (R.state 7).votesAskedBy 1 ≤ (R.state 6).votesAskedBy 1 + 2 := by
  let R : ClusterRun (.ofSize 3 (by decide)) := .of _ killedCandidate (by decide +kernel)
  have dead : (R.node 6 1).dead = true := by decide +kernel
  have left : (R.node 6 1).pending (Thread.votesToAsk 2) = 2 := by decide +kernel
  obtain ⟨votes, -⟩ := silent_after_kill (R := R) dead (show 6 ≤ 7 by decide) (by decide)
  have peers : ((Cluster.ofSize 3 (by decide)).config 1).peers.length = 2 := by decide
  rw [peers, left] at votes
  exact ⟨R, dead, left, by decide +kernel, votes⟩

end ClusterRun

end Rafty
