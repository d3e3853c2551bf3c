/-
# Rafty.Kernel.Node — one raft object as a step machine

`Raft.step` runs one section of the source that is atomic under `mtx`: a detached
thread that gets the lock, an RPC handler, or a call of the application.  A section
of a thread is enabled while that thread is pending.  `Output` is what leaves the
object.  `Section` lists the sections one by one: every step is one of them
(`step_section`) and every one of them is a step (`step_of_section`), so proofs about a
step go by its cases.
-/
import Rafty.Kernel.Replication

namespace Rafty

set_option autoImplicit false

/-- The section that runs. -/
inductive Input
  | run
  | kill
  | startElectionTimer
  | startHeartbeatTimer
  | timerExpired (currentCounter : Nat) (mode : TimerMode)
  | timerReset (currentCounter : Nat) (mode : TimerMode)
  | becomeCandidate
  | requestVotes
  | requestVote (target : Nat) (electionTerm : Int)
  | replyVote (call : VoteCall)
  | voteReply (call : VoteCall) (reply : RequestVoteReply)
  | voteFailed (call : VoteCall)
  | sendEntries
  | sendEntriesTo (target : Nat)
  | appendEntries (call : AppendCall)
  | appendReply (call : AppendCall) (reply : AppendEntriesReply)
  | appendFailed (call : AppendCall)
  | propose (data : String)
  | proposeSync (data : String)
  | wakeSync (call : SyncCall)
  deriving DecidableEq, Repr

instance : Inhabited Input := ⟨.kill⟩

/-- What a section sends, answers or returns. -/
inductive Output
  | none
  | requestVote (call : VoteCall)
  | voteReply (reply : RequestVoteReply)
  | appendEntries (call : AppendCall)
  | appendReply (reply : AppendEntriesReply)
  | proposal (res : ProposalResult)
  deriving DecidableEq, Repr

/-- A returned result, if the caller did not block. -/
def Output.ofResult : Option ProposalResult → Output
  | Option.some res => .proposal res
  | Option.none => .none

namespace Raft

variable (config : Config)

/-- Let a pending thread run its next section. -/
def resume (r : Raft) (thread : Thread) (section_ : Raft → Option (Raft × Output)) :
    Option (Raft × Output) :=
  if thread ∈ r.threads then section_ { r with threads := r.threads.erase thread } else none

def step (r : Raft) : Input → Option (Raft × Output)
  | .run => some (r.run, .none)
  | .kill => some ({ r with dead := true }, .none)
  | .startElectionTimer =>
      r.resume .startElectionTimer fun r => some (r.startTimer .election, .none)
  | .startHeartbeatTimer =>
      r.resume .startHeartbeatTimer fun r => some (r.startTimer .heartbeat, .none)
  | .timerExpired currentCounter mode =>
      r.resume (.startTimer currentCounter mode) fun r =>
        if r.timerSuperseded currentCounter then none else some (r.timerExpired, .none)
  | .timerReset currentCounter mode =>
      r.resume (.startTimer currentCounter mode) fun r =>
        if r.timerSuperseded currentCounter then some (r, .none) else none
  | .becomeCandidate =>
      r.resume .becomeCandidate fun r => some (r.becomeCandidate config, .none)
  | .requestVotes => r.resume .requestVotes fun r => some (r.requestVotes config, .none)
  | .requestVote target electionTerm =>
      r.resume (.requestVote target electionTerm) fun r =>
        let call := r.voteCall config target electionTerm
        some (r.spawn (.awaitVote call), .requestVote call)
  | .replyVote call =>
      let (r', reply) := r.replyVote call.req
      some (r', .voteReply reply)
  | .voteReply call reply =>
      r.resume (.awaitVote call) fun r => some (r.handleVoteReply config call reply, .none)
  | .voteFailed call => r.resume (.awaitVote call) fun r => some (r, .none)
  | .sendEntries => r.resume .sendEntries fun r => some (r.sendEntries config, .none)
  | .sendEntriesTo target =>
      r.resume (.sendEntriesTo target) fun r =>
        match r.appendCall config target with
        | some call => some (r.spawn (.awaitAppend call), .appendEntries call)
        | none => some (r, .none)
  | .appendEntries call => do
      let (r', reply) ← r.appendEntries call.req
      return (r', .appendReply reply)
  | .appendReply call reply =>
      r.resume (.awaitAppend call) fun r => do
        let r' ← r.handleAppendReply config call reply
        return (r', .none)
  | .appendFailed call => r.resume (.awaitAppend call) fun r => some (r, .none)
  | .propose data =>
      let (r', res) := r.propose data
      some (r', .proposal res)
  | .proposeSync data =>
      let (r', res) := r.proposeSync data
      some (r', Output.ofResult res)
  | .wakeSync call =>
      if call ∈ r.waiters then
        let (r', res) := r.wakeSync call
        some (r', Output.ofResult res)
      else none

theorem resume_eq_some {r : Raft} {thread : Thread} {section_ : Raft → Option (Raft × Output)}
    {result : Raft × Output} :
    r.resume thread section_ = some result ↔
      thread ∈ r.threads ∧ section_ { r with threads := r.threads.erase thread } = some result := by
  unfold resume
  split <;> simp_all

/-! ## The sections one by one -/

/-- The thread ended its section, or itself. -/
def finish (r : Raft) (thread : Thread) : Raft := { r with threads := r.threads.erase thread }

/-- When a section runs, what it leaves and what it gives out. -/
inductive Section (config : Config) (r : Raft) : Input → Raft → Output → Prop
  | run : Section config r .run r.run .none
  | kill : Section config r .kill { r with dead := true } .none
  | startElectionTimer (pending : .startElectionTimer ∈ r.threads) :
      Section config r .startElectionTimer
        ((r.finish .startElectionTimer).startTimer .election) .none
  | startHeartbeatTimer (pending : .startHeartbeatTimer ∈ r.threads) :
      Section config r .startHeartbeatTimer
        ((r.finish .startHeartbeatTimer).startTimer .heartbeat) .none
  | timerExpired {currentCounter : Nat} {mode : TimerMode}
      (pending : .startTimer currentCounter mode ∈ r.threads)
      (live : ¬ r.timerSuperseded currentCounter) :
      Section config r (.timerExpired currentCounter mode)
        (r.finish (.startTimer currentCounter mode)).timerExpired .none
  | timerReset {currentCounter : Nat} {mode : TimerMode}
      (pending : .startTimer currentCounter mode ∈ r.threads)
      (superseded : r.timerSuperseded currentCounter) :
      Section config r (.timerReset currentCounter mode)
        (r.finish (.startTimer currentCounter mode)) .none
  | becomeCandidate (pending : .becomeCandidate ∈ r.threads) :
      Section config r .becomeCandidate
        ((r.finish .becomeCandidate).becomeCandidate config) .none
  | requestVotes (pending : .requestVotes ∈ r.threads) :
      Section config r .requestVotes ((r.finish .requestVotes).requestVotes config) .none
  | requestVote {target : Nat} {electionTerm : Int}
      (pending : .requestVote target electionTerm ∈ r.threads) :
      Section config r (.requestVote target electionTerm)
        ((r.finish (.requestVote target electionTerm)).spawn
          (.awaitVote (r.voteCall config target electionTerm)))
        (.requestVote (r.voteCall config target electionTerm))
  | replyVote {call : VoteCall} :
      Section config r (.replyVote call) (r.replyVote call.req).1
        (.voteReply (r.replyVote call.req).2)
  | voteReply {call : VoteCall} {reply : RequestVoteReply}
      (pending : .awaitVote call ∈ r.threads) :
      Section config r (.voteReply call reply)
        ((r.finish (.awaitVote call)).handleVoteReply config call reply) .none
  | voteFailed {call : VoteCall} (pending : .awaitVote call ∈ r.threads) :
      Section config r (.voteFailed call) (r.finish (.awaitVote call)) .none
  | sendEntries (pending : .sendEntries ∈ r.threads) :
      Section config r .sendEntries ((r.finish .sendEntries).sendEntries config) .none
  | sendEntriesTo {target : Nat} {call : AppendCall} (pending : .sendEntriesTo target ∈ r.threads)
      (built : r.appendCall config target = some call) :
      Section config r (.sendEntriesTo target)
        ((r.finish (.sendEntriesTo target)).spawn (.awaitAppend call)) (.appendEntries call)
  /-- An index would be outside the log: nothing is sent. -/
  | sendNothing {target : Nat} (pending : .sendEntriesTo target ∈ r.threads)
      (outside : r.appendCall config target = Option.none) :
      Section config r (.sendEntriesTo target) (r.finish (.sendEntriesTo target)) .none
  | appendEntries {call : AppendCall} {r' : Raft} {reply : AppendEntriesReply}
      (answered : r.appendEntries call.req = some (r', reply)) :
      Section config r (.appendEntries call) r' (.appendReply reply)
  | appendReply {call : AppendCall} {reply : AppendEntriesReply} {r' : Raft}
      (pending : .awaitAppend call ∈ r.threads)
      (handled : (r.finish (.awaitAppend call)).handleAppendReply config call reply = some r') :
      Section config r (.appendReply call reply) r' .none
  | appendFailed {call : AppendCall} (pending : .awaitAppend call ∈ r.threads) :
      Section config r (.appendFailed call) (r.finish (.awaitAppend call)) .none
  | propose {data : String} :
      Section config r (.propose data) (r.propose data).1 (.proposal (r.propose data).2)
  | proposeSync {data : String} :
      Section config r (.proposeSync data) (r.proposeSync data).1
        (.ofResult (r.proposeSync data).2)
  | wakeSync {call : SyncCall} (blocked : call ∈ r.waiters) :
      Section config r (.wakeSync call) (r.wakeSync call).1 (.ofResult (r.wakeSync call).2)

/-- **Every step is one of the sections.** -/
theorem step_section {config : Config} {r r' : Raft} {input : Input} {output : Output}
    (stepped : r.step config input = some (r', output)) : Section config r input r' output := by
  cases input with
  | run => cases stepped; exact .run
  | kill => cases stepped; exact .kill
  | replyVote call => cases stepped; exact .replyVote
  | propose data => cases stepped; exact .propose
  | proposeSync data => cases stepped; exact .proposeSync
  | wakeSync call =>
      simp only [step] at stepped
      split at stepped
      · rename_i blocked
        cases stepped
        exact .wakeSync blocked
      · cases stepped
  | appendEntries call =>
      simp only [step, Option.bind_eq_bind, Option.bind_eq_some_iff] at stepped
      obtain ⟨⟨s, reply⟩, answered, stepped⟩ := stepped
      cases stepped
      exact .appendEntries answered
  | appendReply call reply =>
      simp only [step, resume_eq_some, Option.bind_eq_bind, Option.bind_eq_some_iff] at stepped
      obtain ⟨pending, s, handled, stepped⟩ := stepped
      cases stepped
      exact .appendReply pending handled
  | sendEntriesTo target =>
      simp only [step, resume_eq_some] at stepped
      obtain ⟨pending, stepped⟩ := stepped
      split at stepped
      · rename_i call built
        cases stepped
        exact .sendEntriesTo pending built
      · rename_i outside
        cases stepped
        exact .sendNothing pending outside
  | timerExpired currentCounter mode =>
      simp only [step, resume_eq_some] at stepped
      obtain ⟨pending, stepped⟩ := stepped
      split at stepped
      · cases stepped
      · rename_i live
        cases stepped
        exact .timerExpired pending live
  | timerReset currentCounter mode =>
      simp only [step, resume_eq_some] at stepped
      obtain ⟨pending, stepped⟩ := stepped
      split at stepped
      · rename_i superseded
        cases stepped
        exact .timerReset pending superseded
      · cases stepped
  | startElectionTimer | startHeartbeatTimer | becomeCandidate | requestVotes | requestVote
    | voteReply | voteFailed | sendEntries | appendFailed =>
      simp only [step, resume_eq_some] at stepped
      obtain ⟨pending, stepped⟩ := stepped
      cases stepped
      constructor
      exact pending

/-- **Every section is a step.** -/
theorem step_of_section {config : Config} {r r' : Raft} {input : Input} {output : Output}
    (runs : Section config r input r' output) : r.step config input = some (r', output) := by
  cases runs with
  | run | kill | replyVote | propose | proposeSync => rfl
  | wakeSync blocked => exact if_pos blocked
  | appendEntries answered => simp [step, answered]
  | appendReply pending handled =>
      simp only [step, resume_eq_some, Option.bind_eq_bind, Option.bind_eq_some_iff]
      exact ⟨pending, r', handled, rfl⟩
  | sendEntriesTo pending built =>
      simp only [step, resume_eq_some]
      refine ⟨pending, ?_⟩
      split
      · rename_i other same
        cases built.symm.trans same
        rfl
      · rename_i none
        cases built.symm.trans none
  | sendNothing pending outside =>
      simp only [step, resume_eq_some]
      refine ⟨pending, ?_⟩
      split
      · rename_i other some
        cases outside.symm.trans some
      · rfl
  | timerExpired pending live =>
      simp only [step, resume_eq_some]
      exact ⟨pending, if_neg live⟩
  | timerReset pending superseded =>
      simp only [step, resume_eq_some]
      exact ⟨pending, if_pos superseded⟩
  | startElectionTimer pending | startHeartbeatTimer pending | becomeCandidate pending
    | requestVotes pending | requestVote pending | voteReply pending | voteFailed pending
    | sendEntries pending | appendFailed pending =>
      simp only [step, resume_eq_some]
      exact ⟨pending, rfl⟩


/-- The detached thread that executes the section, if one does. -/
def executor : Input → Option Thread
  | .startElectionTimer => some .startElectionTimer
  | .startHeartbeatTimer => some .startHeartbeatTimer
  | .timerExpired currentCounter mode | .timerReset currentCounter mode =>
      some (.startTimer currentCounter mode)
  | .becomeCandidate => some .becomeCandidate
  | .requestVotes => some .requestVotes
  | .requestVote target electionTerm => some (.requestVote target electionTerm)
  | .voteReply call _ | .voteFailed call => some (.awaitVote call)
  | .sendEntries => some .sendEntries
  | .sendEntriesTo target => some (.sendEntriesTo target)
  | .appendReply call _ | .appendFailed call => some (.awaitAppend call)
  | .run | .kill | .replyVote _ | .appendEntries _ | .propose _ | .proposeSync _ | .wakeSync _ =>
      none

theorem pending_of_step {config : Config} {r r' : Raft} {input : Input} {output : Output}
    (stepped : r.step config input = some (r', output)) {thread : Thread}
    (executes : executor input = some thread) : thread ∈ r.threads := by
  cases step_section stepped with
  | run | kill | replyVote | appendEntries | propose | proposeSync | wakeSync => cases executes
  | startElectionTimer pending | startHeartbeatTimer pending | timerExpired pending
    | timerReset pending | becomeCandidate pending | requestVotes pending | requestVote pending
    | voteReply pending | voteFailed pending | sendEntries pending | sendEntriesTo pending
    | sendNothing pending | appendReply pending | appendFailed pending =>
      cases executes
      exact pending

theorem step_voteReply {config : Config} {r r' : Raft} {call : VoteCall} {reply : RequestVoteReply}
    {output : Output} (stepped : r.step config (.voteReply call reply) = some (r', output)) :
    r' = (r.finish (.awaitVote call)).handleVoteReply config call reply := by
  cases step_section stepped with
  | voteReply => rfl

theorem step_appendReply {config : Config} {r r' : Raft} {call : AppendCall}
    {reply : AppendEntriesReply} {output : Output}
    (stepped : r.step config (.appendReply call reply) = some (r', output)) :
    (r.finish (.awaitAppend call)).handleAppendReply config call reply = some r' := by
  cases step_section stepped with
  | appendReply _ handled => exact handled

end Raft

end Rafty
