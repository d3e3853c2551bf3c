/-
# Rafty.Kernel.Threads — which section spawns which thread

`Spawned` lists the threads a section can leave behind that were not pending
before, with the values they captured; `step_threads` proves the list complete.
From it a run can say of a pending thread or a waiting call at which step it came
about (`thread_spawned`).

The handlers do with the timers one thing only: they spawn threads that start one, and
they do so whenever the role calls for another timer than before (`Restarts`).
-/
import Rafty.Kernel.Cluster

namespace Rafty

set_option autoImplicit false

namespace Raft

/-- The threads that running `input` with `output` can add. -/
inductive Spawned (config : Config) (r : Raft) : Input → Output → Thread → Prop
  | electionTimer {input : Input} {output : Output} :
      Spawned config r input output .startElectionTimer
  | heartbeatTimer {input : Input} {output : Output} :
      Spawned config r input output .startHeartbeatTimer
  | timer {input : Input} {output : Output} (mode : TimerMode) :
      Spawned config r input output (.startTimer (r.timerCounter + 1) mode)
  | becomeCandidate {currentCounter : Nat} {mode : TimerMode} {output : Output} :
      Spawned config r (.timerExpired currentCounter mode) output .becomeCandidate
  | sendEntries {currentCounter : Nat} {mode : TimerMode} {output : Output}
      (role : r.currentRole = .leader) :
      Spawned config r (.timerExpired currentCounter mode) output .sendEntries
  | requestVotes {output : Output} : Spawned config r .becomeCandidate output .requestVotes
  | requestVote {output : Output} {target : Nat} (peer : target ∈ config.peers) :
      Spawned config r .requestVotes output (.requestVote target r.currentTerm)
  | awaitVote {target : Nat} {electionTerm : Int} :
      Spawned config r (.requestVote target electionTerm)
        (.requestVote (r.voteCall config target electionTerm))
        (.awaitVote (r.voteCall config target electionTerm))
  | sendEntriesTo {output : Output} {target : Nat} (peer : target ∈ config.peers) :
      Spawned config r .sendEntries output (.sendEntriesTo target)
  | awaitAppend {target : Nat} {call : AppendCall} (built : r.appendCall config target = some call) :
      Spawned config r (.sendEntriesTo target) (.appendEntries call) (.awaitAppend call)

/-! ## The threads of the handlers -/

section Threads

variable {config : Config} {r r' : Raft}

theorem threads_releaseSyncProps (r : Raft) : r.releaseSyncProps.threads = r.threads := by
  unfold releaseSyncProps; split <;> rfl

theorem threads_stepDown (r : Raft) : r.stepDown.threads = r.threads ++ [.startElectionTimer] := by
  rw [← r.threads_releaseSyncProps]; rfl

theorem threads_applyRange {indices : List Nat} (applied : indices.foldlM applyEntry r = some r') :
    r'.threads = r.threads := by
  induction indices generalizing r with
  | nil => cases applied; rfl
  | cons i rest ih =>
      simp only [List.foldlM_cons, Option.bind_eq_bind, Option.bind_eq_some_iff] at applied
      obtain ⟨middle, first, others⟩ := applied
      rw [ih others]
      simp only [applyEntry, Option.bind_eq_bind, Option.bind_eq_some_iff] at first
      obtain ⟨entry, -, first⟩ := first
      split at first <;> cases first <;> rfl

theorem threads_applyEntries (applied : r.applyEntries = some r') : r'.threads = r.threads := by
  unfold applyEntries at applied
  split at applied
  · cases applied; rfl
  · exact threads_applyRange applied

/-- A handler adds a timer thread at most. -/
def AddsTimer (r r' : Raft) : Prop :=
  ∀ thread ∈ r'.threads,
    thread ∈ r.threads ∨ thread = .startElectionTimer ∨ thread = .startHeartbeatTimer

/-- What the timers of a node depend on besides its threads and its role. -/
structure Clock where
  active : Bool
  dead : Bool
  timerCounter : Nat

def clock (r : Raft) : Clock where
  active := r.active
  dead := r.dead
  timerCounter := r.timerCounter

end Threads

end Raft

/-- The timer a role calls for. -/
def Role.timer : Role → TimerMode
  | .leader => .heartbeat
  | .follower | .candidate => .election

namespace Raft

section Threads

variable {config : Config} {r r' : Raft}

/-- A handler leaves the clock and the pending threads; it may add threads that start a
timer, and does when the role calls for another timer than before. -/
structure Restarts (r r' : Raft) : Prop where
  clock : r'.clock = r.clock
  threads : ∃ starts, r'.threads = r.threads ++ starts ∧
    (∀ thread ∈ starts, thread = .startElectionTimer ∨ thread = .startHeartbeatTimer) ∧
    (starts = [] → r'.currentRole.timer = r.currentRole.timer)

theorem Restarts.addsTimer (restarts : Restarts r r') : AddsTimer r r' := by
  obtain ⟨starts, threads, kinds, -⟩ := restarts.threads
  intro thread member
  rw [threads] at member
  exact (List.mem_append.mp member).imp_right (kinds thread)

/-- Nothing that concerns the timers changes. -/
theorem restarts_of_eq (clock : r'.clock = r.clock) (threads : r'.threads = r.threads)
    (role : r'.currentRole = r.currentRole) : Restarts r r' :=
  ⟨clock, [], by simp [threads], by simp, fun _ => congrArg Role.timer role⟩

theorem Restarts.refl (r : Raft) : Restarts r r := restarts_of_eq rfl rfl rfl

theorem restarts_of_election (clock : r'.clock = r.clock)
    (threads : r'.threads = r.threads ++ [.startElectionTimer]) : Restarts r r' :=
  ⟨clock, _, threads, by simp, by simp⟩

theorem restarts_of_heartbeat (clock : r'.clock = r.clock)
    (threads : r'.threads = r.threads ++ [.startHeartbeatTimer]) : Restarts r r' :=
  ⟨clock, _, threads, by simp, by simp⟩

theorem Restarts.trans {s : Raft} (first : Restarts r s) (second : Restarts s r') :
    Restarts r r' := by
  obtain ⟨clock, starts, threads, kinds, timer⟩ := first
  obtain ⟨clock', starts', threads', kinds', timer'⟩ := second
  refine ⟨clock'.trans clock, starts ++ starts', ?_, ?_, ?_⟩
  · rw [threads', threads, List.append_assoc]
  · intro thread member
    exact (List.mem_append.mp member).elim (kinds thread) (kinds' thread)
  · intro nothing
    obtain ⟨none, none'⟩ := List.append_eq_nil_iff.mp nothing
    exact (timer' none').trans (timer none)

theorem clock_releaseSyncProps (r : Raft) : r.releaseSyncProps.clock = r.clock := by
  unfold releaseSyncProps; split <;> rfl

theorem restarts_stepDown (r : Raft) : Restarts r r.stepDown :=
  restarts_of_election r.clock_releaseSyncProps r.threads_stepDown

theorem restarts_adoptTerm (term : Int) : Restarts r (r.adoptTerm term).stepDown :=
  Restarts.trans (s := r.adoptTerm term) (restarts_of_eq rfl rfl rfl) (restarts_stepDown _)

theorem restarts_countVote (call : VoteCall) (reply : RequestVoteReply) :
    Restarts r (r.countVote config call reply) := by
  unfold countVote
  split
  · split
    · exact restarts_of_heartbeat rfl rfl
    · exact restarts_of_eq rfl rfl rfl
  · exact .refl r

theorem restarts_handleVoteReply (call : VoteCall) (reply : RequestVoteReply) :
    Restarts r (r.handleVoteReply config call reply) := by
  unfold handleVoteReply
  split
  · exact (restarts_adoptTerm reply.term).trans (restarts_countVote call reply)
  · exact restarts_countVote call reply

/-- A vote is given with a restart of the election timer, or by a node that is no leader. -/
theorem restarts_grantVote (candidateId : Int) {flag : Bool}
    (timer : flag = true ∨ r.currentRole.timer = .election) :
    Restarts r (r.grantVote candidateId flag) := by
  have clock := clock_releaseSyncProps { r with votedFor := candidateId }
  have threads := threads_releaseSyncProps { r with votedFor := candidateId }
  unfold grantVote
  split
  · exact restarts_of_election clock (congrArg (· ++ [Thread.startElectionTimer]) threads)
  · rename_i keeps
    exact ⟨clock, [], by simpa using threads, by simp,
      fun _ => (timer.resolve_left keeps).symm⟩

theorem restarts_replyVote (req : RequestVoteRequest) : Restarts r (r.replyVote req).1 := by
  unfold replyVote
  split
  · exact .refl r
  split
  · exact .refl r
  by_cases higher : r.currentTerm < req.term
  · have adopted := restarts_adoptTerm (r := r) req.term
    simp only [if_pos higher]
    split
    · exact adopted
    split
    · exact adopted.trans (restarts_grantVote _ (Or.inr rfl))
    · exact adopted
  · simp only [if_neg higher]
    split
    · exact .refl r
    split
    · exact restarts_grantVote _ (Or.inl (by simp [higher]))
    · exact .refl r

theorem clock_applyRange {indices : List Nat} (applied : indices.foldlM applyEntry r = some r') :
    r'.clock = r.clock := by
  induction indices generalizing r with
  | nil => cases applied; rfl
  | cons i rest ih =>
      simp only [List.foldlM_cons, Option.bind_eq_bind, Option.bind_eq_some_iff] at applied
      obtain ⟨middle, first, others⟩ := applied
      rw [ih others]
      simp only [applyEntry, Option.bind_eq_bind, Option.bind_eq_some_iff] at first
      obtain ⟨entry, -, first⟩ := first
      split at first <;> cases first <;> rfl

theorem restarts_applyEntries (applied : r.applyEntries = some r') : Restarts r r' := by
  refine restarts_of_eq ?_ (threads_applyEntries applied)
    (congrArg Core.currentRole (core_applyEntries applied))
  unfold applyEntries at applied
  split at applied
  · cases applied; rfl
  · exact clock_applyRange applied

theorem restarts_acknowledge (req : AppendEntriesRequest) : Restarts r (r.acknowledge req) := by
  unfold acknowledge
  split
  · exact restarts_adoptTerm req.term
  · exact restarts_stepDown r

theorem restarts_appendEntries {req : AppendEntriesRequest} {reply : AppendEntriesReply}
    (answered : r.appendEntries req = some (r', reply)) : Restarts r r' := by
  unfold appendEntries at answered
  split at answered
  · cases answered; exact .refl r
  split at answered
  · cases answered; exact .refl r
  simp only [Option.pure_def, Option.bind_eq_bind] at answered
  split at answered <;>
    simp only [Option.bind_eq_some_iff, Option.some.injEq, Prod.mk.injEq] at answered
  · obtain ⟨info, -, rfl, -⟩ := answered
    exact restarts_acknowledge req
  · obtain ⟨s, followed, rfl, -⟩ := answered
    have written : Restarts r ((r.acknowledge req).writeEntries req) :=
      (restarts_acknowledge req).trans (restarts_of_eq rfl rfl rfl)
    unfold followCommit at followed
    split at followed
    · refine Restarts.trans ?_ (restarts_applyEntries followed)
      exact written.trans (restarts_of_eq rfl rfl rfl)
    · cases followed; exact written

theorem restarts_backUp {call : AppendCall} {reply : AppendEntriesReply}
    (backed : r.backUp call reply = some r') : Restarts r r' := by
  simp only [backUp] at backed
  split at backed
  · cases backed; exact .refl r
  · split at backed
    · simp only [Option.bind_eq_bind, Option.bind_eq_some_iff] at backed
      obtain ⟨last, -, backed⟩ := backed
      cases backed; exact restarts_of_eq rfl rfl rfl
    · split at backed <;> cases backed <;> exact restarts_of_eq rfl rfl rfl

theorem restarts_handleAppendReply {call : AppendCall} {reply : AppendEntriesReply}
    (handled : r.handleAppendReply config call reply = some r') : Restarts r r' := by
  have recorded : Restarts r (r.setReplyCounter call.target call.currentReplyCounter) :=
    restarts_of_eq rfl rfl rfl
  simp only [handleAppendReply] at handled
  split at handled
  · cases handled; exact .refl r
  split at handled
  · cases handled; exact recorded.trans (restarts_adoptTerm reply.term)
  split at handled
  · cases handled; exact recorded
  split at handled
  · exact recorded.trans (restarts_backUp handled)
  · simp only [advance, Option.bind_eq_bind, Option.bind_eq_some_iff] at handled
    obtain ⟨newCommitIndex, -, handled⟩ := handled
    split at handled
    · refine Restarts.trans ?_ (restarts_applyEntries handled)
      exact restarts_of_eq rfl rfl rfl
    · cases handled; exact restarts_of_eq rfl rfl rfl

theorem threads_proposeSync (data : String) : (r.proposeSync data).1.threads = r.threads := by
  unfold proposeSync
  split
  · simp only
    split <;> rfl
  · rfl

theorem threads_propose (data : String) : (r.propose data).1.threads = r.threads := by
  unfold propose; split <;> rfl

theorem threads_wakeSync (call : SyncCall) : (r.wakeSync call).1.threads = r.threads := by
  unfold wakeSync
  simp only
  split <;> rfl

theorem restarts_propose (data : String) : Restarts r (r.propose data).1 := by
  unfold propose
  split <;> exact restarts_of_eq rfl rfl rfl

theorem restarts_proposeSync (data : String) : Restarts r (r.proposeSync data).1 := by
  unfold proposeSync
  split
  · simp only
    split <;> exact restarts_of_eq rfl rfl rfl
  · exact .refl r

theorem restarts_wakeSync (call : SyncCall) : Restarts r (r.wakeSync call).1 := by
  unfold wakeSync
  simp only
  split <;> exact restarts_of_eq rfl rfl rfl

/-! ## Completeness of the list -/

theorem AddsTimer.spawned {thread : Thread} {input : Input} {output : Output}
    (adds : AddsTimer r r') (member : thread ∈ r'.threads) :
    thread ∈ r.threads ∨ Spawned config r input output thread := by
  rcases adds thread member with h | rfl | rfl
  · exact Or.inl h
  · exact Or.inr .electionTimer
  · exact Or.inr .heartbeatTimer

theorem AddsTimer.of_erase {done : Thread}
    (adds : AddsTimer { r with threads := r.threads.erase done } r') : AddsTimer r r' :=
  fun thread member => (adds thread member).imp_left List.mem_of_mem_erase

/-- **The list is complete.** -/
theorem step_threads {input : Input} {output : Output} {thread : Thread}
    (stepped : r.step config input = some (r', output)) (member : thread ∈ r'.threads) :
    thread ∈ r.threads ∨ Spawned config r input output thread := by
  -- a thread that spawns one more ends its own section
  have spawned : ∀ {done new : Thread}, Spawned config r input output new →
      thread ∈ ((r.finish done).spawn new).threads →
        thread ∈ r.threads ∨ Spawned config r input output thread := by
    intro done new isNew inThreads
    rcases List.mem_append.mp inThreads with h | h
    · exact Or.inl (List.mem_of_mem_erase h)
    · exact Or.inr (List.mem_singleton.mp h ▸ isNew)
  cases step_section stepped with
  | run =>
      rcases List.mem_append.mp member with h | h
      · exact Or.inl h
      · exact Or.inr (List.mem_singleton.mp h ▸ .electionTimer)
  | kill => exact Or.inl member
  | replyVote => exact (restarts_replyVote _).addsTimer.spawned member
  | propose => exact (restarts_propose _).addsTimer.spawned member
  | proposeSync => exact (restarts_proposeSync _).addsTimer.spawned member
  | wakeSync => exact (restarts_wakeSync _).addsTimer.spawned member
  | appendEntries answered => exact (restarts_appendEntries answered).addsTimer.spawned member
  | appendReply _ handled => exact (restarts_handleAppendReply handled).addsTimer.of_erase.spawned member
  | voteReply => exact (restarts_handleVoteReply _ _).addsTimer.of_erase.spawned member
  | startElectionTimer => exact spawned (.timer .election) member
  | startHeartbeatTimer => exact spawned (.timer .heartbeat) member
  | timerExpired pending live =>
      unfold timerExpired at member
      split at member
      · exact spawned .becomeCandidate member
      · rename_i role
        refine spawned (.sendEntries ?_) member
        simp only [finish, not_or] at role
        cases atRole : r.currentRole with
        | leader => rfl
        | follower => exact absurd atRole role.1
        | candidate => exact absurd atRole role.2
  | becomeCandidate =>
      simp only [becomeCandidate, spawn, finish, List.mem_append, List.mem_singleton] at member
      rcases member with (h | rfl) | rfl
      · exact Or.inl (List.mem_of_mem_erase h)
      · exact Or.inr .electionTimer
      · exact Or.inr .requestVotes
  | requestVotes =>
      rcases List.mem_append.mp member with h | h
      · exact Or.inl (List.mem_of_mem_erase h)
      · obtain ⟨target, peer, rfl⟩ := List.mem_map.mp h
        exact Or.inr (.requestVote peer)
  | requestVote => exact spawned .awaitVote member
  | sendEntries =>
      simp only [sendEntries, spawn, finish, List.mem_append, List.mem_singleton,
        List.mem_map] at member
      rcases member with (h | ⟨target, peer, rfl⟩) | rfl
      · exact Or.inl (List.mem_of_mem_erase h)
      · exact Or.inr (.sendEntriesTo peer)
      · exact Or.inr .heartbeatTimer
  | sendEntriesTo _ built => exact spawned (.awaitAppend built) member
  | timerReset | voteFailed | sendNothing | appendFailed =>
      exact Or.inl (List.mem_of_mem_erase member)

end Threads

end Raft

namespace ClusterRun

open Theory

/-- A pending thread was spawned at an earlier step. -/
theorem thread_spawned {cl : Cluster} {R : ClusterRun cl} {k a : Nat} (bound : k ≤ R.length)
    {thread : Thread} (pending : thread ∈ (R.node k a).threads) :
    ∃ j input output, j < k ∧ R.Ran j a input output ∧
      Raft.Spawned (cl.config a) (R.node j a) input output thread := by
  obtain ⟨j, lt, before, after⟩ := R.exists_step (P := fun w => thread ∈ (w.nodes a).threads)
    (fun w init => by
      obtain ⟨role, isNew⟩ := init.1 a
      simp [isNew, Raft.new]) pending
  rcases node_cases (show j < R.length by omega) a with same | ⟨input, output, ran⟩
  · exact absurd (same ▸ after : thread ∈ (R.node j a).threads) before
  · exact ⟨j, input, output, lt, ran, (Raft.step_threads ran.stepped after).resolve_left before⟩

end ClusterRun

end Rafty
