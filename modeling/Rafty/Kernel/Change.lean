/-
# Rafty.Kernel.Change — what one section can do to a node

The core of a node is its term, vote, role, votes and log (and whether it runs).
`Change` lists what one section can do to the core, with the guard of the source
under which it does it, and `step_change` proves the list complete.  The election
and log proofs go by the cases of `Change` and never unfold a handler.
-/
import Rafty.Kernel.Node

namespace Rafty

set_option autoImplicit false

namespace Raft

/-! ## The core of a node -/

/-- The part of a node that elections and log replication are about. -/
structure Core where
  active : Bool
  currentTerm : Int
  votedFor : Int
  currentRole : Role
  votes : Finset Nat
  log : List Entry

def core (r : Raft) : Core where
  active := r.active
  currentTerm := r.currentTerm
  votedFor := r.votedFor
  currentRole := r.currentRole
  votes := r.votes
  log := r.log

section Core

variable {config : Config} (r : Raft)

@[simp] theorem core_threads (threads : List Thread) :
    ({ r with threads := threads } : Raft).core = r.core := rfl

@[simp] theorem core_spawn (thread : Thread) : (r.spawn thread).core = r.core := rfl

@[simp] theorem core_notifyCv (cv : Nat) : (r.notifyCv cv).core = r.core := rfl

@[simp] theorem core_releaseSyncProps : r.releaseSyncProps.core = r.core := by
  unfold releaseSyncProps; split <;> rfl

@[simp] theorem core_startTimer (mode : TimerMode) : (r.startTimer mode).core = r.core := rfl

@[simp] theorem core_timerExpired : r.timerExpired.core = r.core := by
  unfold timerExpired; split <;> rfl

@[simp] theorem core_adoptTerm (term : Int) :
    (r.adoptTerm term).core = { r.core with currentTerm := term, votedFor := -1 } := rfl

@[simp] theorem core_stepDown : r.stepDown.core = { r.core with currentRole := .follower } := by
  have same := r.core_releaseSyncProps
  simp only [core, Core.mk.injEq] at same ⊢
  exact ⟨same.1, same.2.1, same.2.2.1, rfl, same.2.2.2.2.1, same.2.2.2.2.2⟩

@[simp] theorem core_setNextIndex (target : Nat) (value : Int) :
    (r.setNextIndex target value).core = r.core := rfl

@[simp] theorem core_setMatchIndex (target : Nat) (value : Int) :
    (r.setMatchIndex target value).core = r.core := rfl

@[simp] theorem core_setReplyCounter (target : Nat) (value : Int) :
    (r.setReplyCounter target value).core = r.core := rfl

theorem core_applyEntry {r r' : Raft} {i : Nat} (applied : r.applyEntry i = some r') :
    r'.core = r.core := by
  simp only [applyEntry, Option.bind_eq_bind, Option.bind_eq_some_iff] at applied
  obtain ⟨entry, -, applied⟩ := applied
  split at applied <;> cases applied <;> rfl

theorem core_applyRange {r r' : Raft} {indices : List Nat}
    (applied : indices.foldlM applyEntry r = some r') : r'.core = r.core := by
  induction indices generalizing r with
  | nil => cases applied; rfl
  | cons i rest ih =>
      simp only [List.foldlM_cons, Option.bind_eq_bind, Option.bind_eq_some_iff] at applied
      obtain ⟨middle, first, others⟩ := applied
      exact (ih others).trans (core_applyEntry first)

theorem core_applyEntries {r r' : Raft} (applied : r.applyEntries = some r') :
    r'.core = r.core := by
  unfold applyEntries at applied
  split at applied
  · cases applied; rfl
  · exact core_applyRange applied

theorem core_followCommit {r r' : Raft} {req : AppendEntriesRequest}
    (followed : r.followCommit req = some r') : r'.core = r.core := by
  unfold followCommit at followed
  split at followed
  · exact (core_applyEntries followed).trans rfl
  · cases followed; rfl

theorem core_backUp {r r' : Raft} {call : AppendCall} {reply : AppendEntriesReply}
    (backed : r.backUp call reply = some r') : r'.core = r.core := by
  simp only [backUp] at backed
  split at backed
  · cases backed; rfl
  · split at backed
    · simp only [Option.bind_eq_bind, Option.bind_eq_some_iff] at backed
      obtain ⟨last, -, backed⟩ := backed
      cases backed; rfl
    · split at backed <;> cases backed <;> rfl

theorem core_advance {r r' : Raft} {call : AppendCall}
    (advanced : r.advance config call = some r') :
    r'.core = r.core := by
  simp only [advance, Option.bind_eq_bind, Option.bind_eq_some_iff] at advanced
  obtain ⟨newCommitIndex, -, advanced⟩ := advanced
  split at advanced
  · exact (core_applyEntries advanced).trans rfl
  · cases advanced; rfl

@[simp] theorem core_acknowledge (req : AppendEntriesRequest) (notOld : r.currentTerm ≤ req.term) :
    (r.acknowledge req).core =
      { r.core with
        currentTerm := req.term
        votedFor := if r.currentTerm < req.term then -1 else r.votedFor
        currentRole := .follower } := by
  unfold acknowledge
  split
  · simp
  · have same : r.currentTerm = req.term := by omega
    rw [core_stepDown, ← same]
    simp [core]

theorem core_grantVote (candidateId : Int) (flag : Bool) :
    (r.grantVote candidateId flag).core =
      { r.core with votedFor := candidateId, currentRole := .follower } := by
  unfold grantVote releaseSyncProps
  split <;> split <;> rfl

end Core

/-! ## The changes -/

/-- What one section can do to the core, and when. -/
inductive Change (config : Config) (r : Raft) : Input → Raft → Prop
  /-- The core stays. -/
  | still {input : Input} {r' : Raft} (core : r'.core = r.core) : Change config r input r'
  | run {r' : Raft} (core : r'.core = { r.core with active := true, currentRole := .follower }) :
      Change config r .run r'
  | candidacy {r' : Raft}
      (core : r'.core =
        { r.core with
          currentRole := .candidate
          currentTerm := r.currentTerm + 1
          votedFor := asInt64 config.id
          votes := {config.id} }) : Change config r .becomeCandidate r'
  /-- A higher term came in, with a vote request, a vote reply or an append reply. -/
  | higher {input : Input} {r' : Raft} (term : Int) (higher : r.currentTerm < term)
      (core : r'.core = { r.core with currentTerm := term, votedFor := -1, currentRole := .follower }) :
      Change config r input r'
  | grant {call : VoteCall} {r' : Raft} (notOld : r.currentTerm ≤ call.req.term)
      (free : r.currentTerm < call.req.term ∨ r.votedFor = -1 ∨ r.votedFor = call.req.candidateId)
      (upToDate : r.candidateUpToDate call.req)
      (core : r'.core =
        { r.core with
          currentTerm := call.req.term
          votedFor := call.req.candidateId
          currentRole := .follower }) : Change config r (.replyVote call) r'
  /-- A vote is counted and does not suffice yet. -/
  | count {call : VoteCall} {reply : RequestVoteReply} {r' : Raft}
      (term : r.currentTerm = call.electionTerm) (role : r.currentRole = .candidate)
      (granted : reply.voteGranted = true)
      (core : r'.core = { r.core with votes := insert call.target r.votes }) :
      Change config r (.voteReply call reply) r'
  /-- A vote is counted and `become_leader` runs. -/
  | elect {call : VoteCall} {reply : RequestVoteReply} {r' : Raft}
      (wins : r.winsElection config call reply)
      (core : r'.core =
        { r.core with currentRole := .leader, votes := insert call.target r.votes }) :
      Change config r (.voteReply call reply) r'
  /-- `append_entries` steps down and refuses. -/
  | refuse {call : AppendCall} {r' : Raft} (notOld : r.currentTerm ≤ call.req.term)
      (core : r'.core =
        { r.core with
          currentTerm := call.req.term
          votedFor := if r.currentTerm < call.req.term then -1 else r.votedFor
          currentRole := .follower }) : Change config r (.appendEntries call) r'
  /-- `append_entries` steps down and accepts. -/
  | write {call : AppendCall} {r' : Raft} (notOld : r.currentTerm ≤ call.req.term)
      (consistent : ¬ r.prevMismatch call.req)
      (core : r'.core =
        { r.core with
          currentTerm := call.req.term
          votedFor := if r.currentTerm < call.req.term then -1 else r.votedFor
          currentRole := .follower
          log := (r.writeEntries call.req).log }) : Change config r (.appendEntries call) r'
  | append {input : Input} {r' : Raft} (data : String)
      (proposes : input = .propose data ∨ input = .proposeSync data)
      (role : r.currentRole = .leader)
      (core : r'.core = { r.core with log := r.log ++ [r.proposed data] }) :
      Change config r input r'

/-! ## Completeness of the list -/

variable {config : Config} {r r' : Raft}

/-- Pending threads do not matter to the core. -/
theorem Change.of_threads {input : Input} {threads : List Thread}
    (change : Change config { r with threads := threads } input r') : Change config r input r' := by
  cases change with
  | still core => exact .still core
  | run core => exact .run core
  | candidacy core => exact .candidacy core
  | higher term higher core => exact .higher term higher core
  | grant notOld free upToDate core => exact .grant notOld free upToDate core
  | count term role granted core => exact .count term role granted core
  | elect wins core => exact .elect wins core
  | refuse notOld core => exact .refuse notOld core
  | write notOld consistent core => exact .write notOld consistent core
  | append data proposes role core => exact .append data proposes role core

theorem becomeCandidate_change : Change config r .becomeCandidate (r.becomeCandidate config) := by
  refine .candidacy ?_
  simp only [becomeCandidate, core, spawn]

/-- The up-to-date check and the consistency check read the log only. -/
theorem candidateUpToDate_congr {s : Raft} {req : RequestVoteRequest} (same : s.log = r.log) :
    s.candidateUpToDate req ↔ r.candidateUpToDate req := by
  simp only [candidateUpToDate, lastLogTerm, same]

theorem prevMismatch_congr {s : Raft} {req : AppendEntriesRequest} (same : s.log = r.log) :
    s.prevMismatch req ↔ r.prevMismatch req := by
  simp only [prevMismatch, readLog, same]

theorem countVote_change (call : VoteCall) (reply : RequestVoteReply) :
    Change config r (.voteReply call reply) (r.countVote config call reply) := by
  unfold countVote
  split
  · rename_i counted
    split
    · rename_i wins
      exact .elect wins rfl
    · exact .count counted.1 counted.2.1 counted.2.2 rfl
  · exact .still rfl

/-- A refused vote counts for nothing. -/
theorem countVote_refused {call : VoteCall} {reply : RequestVoteReply}
    (refused : reply.voteGranted = false) : r.countVote config call reply = r := by
  simp [countVote, refused]

/-- The reply that wins the election makes the candidate leader. -/
theorem handleVoteReply_wins {call : VoteCall} {reply : RequestVoteReply}
    (wins : r.winsElection config call reply) :
    r.handleVoteReply config call reply =
      ({ r with votes := insert call.target r.votes } : Raft).becomeLeader config := by
  have granted : ¬ (reply.voteGranted = false ∧ r.currentTerm < reply.term) := by
    simp [wins.2.2.1]
  rw [handleVoteReply, if_neg granted, countVote, if_pos ⟨wins.1, wins.2.1, wins.2.2.1⟩]
  simp only [if_pos wins]

theorem handleVoteReply_change (call : VoteCall) (reply : RequestVoteReply) :
    Change config r (.voteReply call reply) (r.handleVoteReply config call reply) := by
  unfold handleVoteReply
  split
  · rename_i refused
    rw [countVote_refused refused.1]
    exact .higher reply.term refused.2 (by simp)
  · exact countVote_change call reply

theorem replyVote_change (call : VoteCall) :
    Change config r (.replyVote call) (r.replyVote call.req).1 := by
  unfold replyVote
  split
  · exact .still rfl
  split
  · exact .still rfl
  rename_i notOld
  rw [not_lt] at notOld
  by_cases higher : r.currentTerm < call.req.term
  · have adopted : ((r.adoptTerm call.req.term).stepDown).core =
        { r.core with
          currentTerm := call.req.term, votedFor := -1, currentRole := .follower } := by simp
    have sameLog : ((r.adoptTerm call.req.term).stepDown).log = r.log := congrArg Core.log adopted
    simp only [if_pos higher]
    split
    · exact .higher _ higher adopted
    split
    · rename_i upToDate
      refine .grant notOld (Or.inl higher) ((candidateUpToDate_congr sameLog).mp upToDate) ?_
      rw [core_grantVote, adopted]
    · exact .higher _ higher adopted
  · have same : r.currentTerm = call.req.term := by omega
    simp only [if_neg higher]
    split
    · exact .still rfl
    split
    · rename_i taken upToDate
      refine .grant notOld (Or.inr (by tauto)) upToDate ?_
      rw [core_grantVote]
      simp [core, same]
    · exact .still rfl

/-- What acceptance by `append_entries` leaves. -/
theorem core_accepted {req : AppendEntriesRequest} (notOld : r.currentTerm ≤ req.term)
    (followed : ((r.acknowledge req).writeEntries req).followCommit req = some r') :
    r'.core =
      { r.core with
        currentTerm := req.term
        votedFor := if r.currentTerm < req.term then -1 else r.votedFor
        currentRole := .follower
        log := (r.writeEntries req).log } := by
  have acknowledged := r.core_acknowledge req notOld
  have sameLog : (r.acknowledge req).log = r.log := congrArg Core.log acknowledged
  have written : ((r.acknowledge req).writeEntries req).log = (r.writeEntries req).log := by
    simp only [writeEntries, sameLog]
  rw [core_followCommit followed, ← written]
  simp only [core, Core.mk.injEq] at acknowledged ⊢
  exact ⟨acknowledged.1, acknowledged.2.1, acknowledged.2.2.1, acknowledged.2.2.2.1,
    acknowledged.2.2.2.2.1, trivial⟩

/-- Only acceptance answers with success. -/
theorem appendEntries_success {req : AppendEntriesRequest} {reply : AppendEntriesReply}
    (answered : r.appendEntries req = some (r', reply)) (success : reply.success = true) :
    r.currentTerm ≤ req.term ∧ ¬ r.prevMismatch req ∧ reply.term = req.term ∧
      ((r.acknowledge req).writeEntries req).followCommit req = some r' := by
  unfold appendEntries at answered
  split at answered
  · cases answered; cases success
  split at answered
  · cases answered; cases success
  rename_i notOld
  rw [not_lt] at notOld
  have acknowledged := r.core_acknowledge req notOld
  simp only [Option.pure_def, Option.bind_eq_bind] at answered
  split at answered <;>
    simp only [Option.bind_eq_some_iff, Option.some.injEq, Prod.mk.injEq] at answered
  · obtain ⟨info, -, -, rfl⟩ := answered
    cases success
  · rename_i consistent
    obtain ⟨r'', followed, rfl, rfl⟩ := answered
    exact ⟨notOld, mt (prevMismatch_congr (congrArg Core.log acknowledged)).mpr consistent,
      congrArg Core.currentTerm acknowledged, followed⟩

/-- The conflict report reads the log only. -/
theorem firstIndexOfTerm_congr {s : Raft} (same : s.log = r.log) (conflictTerm : Int) (i : Nat) :
    s.firstIndexOfTerm conflictTerm i = r.firstIndexOfTerm conflictTerm i := by
  induction i with
  | zero => simp only [firstIndexOfTerm, same]
  | succ i ih => simp only [firstIndexOfTerm, same, ih]

theorem conflictInfo_congr {s : Raft} {req : AppendEntriesRequest} (same : s.log = r.log) :
    s.conflictInfo req = r.conflictInfo req := by
  simp only [conflictInfo, readLog, same, firstIndexOfTerm_congr same]

/-- A refusal leaves the node alone, or reports the conflict after the first half. -/
theorem appendEntries_refused {req : AppendEntriesRequest} {reply : AppendEntriesReply}
    (answered : r.appendEntries req = some (r', reply)) (refused : reply.success = false) :
    (r.active = false ∨ req.term < r.currentTerm) ∧ r' = r ∨
      r.currentTerm ≤ req.term ∧ r.prevMismatch req ∧ r' = r.acknowledge req ∧
        ∃ info, r.conflictInfo req = some info ∧
          reply = { term := req.term, success := false, conflictInfo := some info } := by
  unfold appendEntries at answered
  split at answered
  · rename_i inactive
    cases answered
    exact Or.inl ⟨Or.inl inactive, rfl⟩
  split at answered
  · rename_i old
    cases answered
    exact Or.inl ⟨Or.inr old, rfl⟩
  rename_i notOld
  rw [not_lt] at notOld
  have acknowledged := r.core_acknowledge req notOld
  have sameLog : (r.acknowledge req).log = r.log := congrArg Core.log acknowledged
  have term : (r.acknowledge req).currentTerm = req.term := congrArg Core.currentTerm acknowledged
  simp only [Option.pure_def, Option.bind_eq_bind] at answered
  split at answered <;>
    simp only [Option.bind_eq_some_iff, Option.some.injEq, Prod.mk.injEq] at answered
  · rename_i mismatch
    obtain ⟨info, report, rfl, rfl⟩ := answered
    refine Or.inr ⟨notOld, (prevMismatch_congr sameLog).mp mismatch, rfl, info, ?_, ?_⟩
    · rw [← conflictInfo_congr sameLog, report]
    · rw [term]
  · obtain ⟨r'', -, -, rfl⟩ := answered
    cases refused

/-- Only a failed check reports a conflict. -/
theorem appendEntries_report {req : AppendEntriesRequest} {reply : AppendEntriesReply}
    {info : ConflictInfo} (answered : r.appendEntries req = some (r', reply))
    (report : reply.conflictInfo = some info) :
    r.prevMismatch req ∧ r.conflictInfo req = some info := by
  unfold appendEntries at answered
  split at answered
  · cases answered; cases report
  split at answered
  · cases answered; cases report
  rename_i notOld
  rw [not_lt] at notOld
  have sameLog : (r.acknowledge req).log = r.log :=
    congrArg Core.log (r.core_acknowledge req notOld)
  simp only [Option.pure_def, Option.bind_eq_bind] at answered
  split at answered <;>
    simp only [Option.bind_eq_some_iff, Option.some.injEq, Prod.mk.injEq] at answered
  · rename_i mismatch
    obtain ⟨found, reported, -, rfl⟩ := answered
    cases report
    exact ⟨(prevMismatch_congr sameLog).mp mismatch, by rw [← conflictInfo_congr sameLog, reported]⟩
  · obtain ⟨r'', -, -, rfl⟩ := answered
    cases report

theorem appendEntries_change {call : AppendCall} {reply : AppendEntriesReply}
    (answered : r.appendEntries call.req = some (r', reply)) :
    Change config r (.appendEntries call) r' := by
  unfold appendEntries at answered
  split at answered
  · cases answered; exact .still rfl
  split at answered
  · cases answered; exact .still rfl
  rename_i notOld
  rw [not_lt] at notOld
  have acknowledged := r.core_acknowledge call.req notOld
  have sameLog : (r.acknowledge call.req).log = r.log := congrArg Core.log acknowledged
  simp only [Option.pure_def, Option.bind_eq_bind] at answered
  split at answered
  · simp only [Option.bind_eq_some_iff, Option.some.injEq, Prod.mk.injEq] at answered
    obtain ⟨info, -, rfl, -⟩ := answered
    exact .refuse notOld acknowledged
  · rename_i consistent
    simp only [Option.bind_eq_some_iff, Option.some.injEq, Prod.mk.injEq] at answered
    obtain ⟨r'', followed, rfl, -⟩ := answered
    exact .write notOld (mt (prevMismatch_congr sameLog).mpr consistent)
      (core_accepted notOld followed)

theorem handleAppendReply_change {call : AppendCall} {reply : AppendEntriesReply}
    (handled : r.handleAppendReply config call reply = some r') :
    Change config r (.appendReply call reply) r' := by
  simp only [handleAppendReply] at handled
  split at handled
  · cases handled; exact .still rfl
  split at handled
  · rename_i higher
    cases handled
    exact .higher reply.term higher (by simp)
  split at handled
  · cases handled; exact .still rfl
  split at handled
  · exact .still ((core_backUp handled).trans rfl)
  · exact .still ((core_advance handled).trans rfl)

theorem proposeSync_change (data : String) :
    Change config r (.proposeSync data) (r.proposeSync data).1 := by
  unfold proposeSync
  split
  · rename_i role
    refine .append data (Or.inr rfl) role ?_
    simp only
    split <;> rfl
  · exact .still rfl

theorem propose_change (data : String) :
    Change config r (.propose data) (r.propose data).1 := by
  unfold propose
  split
  · rename_i role
    exact .append data (Or.inl rfl) role rfl
  · exact .still rfl

theorem core_wakeSync (call : SyncCall) : (r.wakeSync call).1.core = r.core := by
  unfold wakeSync
  simp only
  split <;> rfl

/-- **The list is complete.**  One section changes the core as `Change` says. -/
theorem step_change {input : Input} {output : Output}
    (stepped : r.step config input = some (r', output)) : Change config r input r' := by
  cases step_section stepped with
  | run => exact .run rfl
  | timerExpired => exact .still (core_timerExpired _)
  | becomeCandidate => exact becomeCandidate_change.of_threads
  | replyVote => exact replyVote_change _
  | voteReply => exact (handleVoteReply_change _ _).of_threads
  | appendEntries answered => exact appendEntries_change answered
  | appendReply _ handled => exact (handleAppendReply_change handled).of_threads
  | propose => exact propose_change _
  | proposeSync => exact proposeSync_change _
  | wakeSync => exact .still (core_wakeSync _)
  -- the other sections touch timers and threads only
  | _ => exact .still rfl

end Raft

end Rafty
