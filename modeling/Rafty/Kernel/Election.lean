/-
# Rafty.Kernel.Election — timers, candidacy and votes

`start_timer`, the two functions that arm it, `become_candidate`, `request_votes`
with the thread it spawns for each peer, `reply_vote` and `become_leader`.  Every
function is what its source does while it holds `mtx`; what the source hands to a
detached thread appears in `threads`.
-/
import Rafty.Kernel.Types

namespace Rafty

set_option autoImplicit false

namespace Raft

variable (config : Config)

/-! ## Timers -/

/-- `start_election_timer` and `start_heartbeat_timer`: bump the version, so that
every older timer is superseded, and spawn `start_timer` for the new one. -/
def startTimer (r : Raft) (mode : TimerMode) : Raft :=
  { r with timerCounter := r.timerCounter + 1 }.spawn (.startTimer (r.timerCounter + 1) mode)

/-- The predicate `start_timer` waits for. -/
def timerSuperseded (r : Raft) (currentCounter : Nat) : Prop :=
  r.dead = true ∨ r.timerCounter ≠ currentCounter

instance (r : Raft) (currentCounter : Nat) : Decidable (r.timerSuperseded currentCounter) :=
  inferInstanceAs (Decidable (_ ∨ _))

/-- `start_timer` after its timeout. -/
def timerExpired (r : Raft) : Raft :=
  if r.currentRole = .follower ∨ r.currentRole = .candidate then r.spawn .becomeCandidate
  else r.spawn .sendEntries

/-- `run`, with `become_follower` inlined. -/
def run (r : Raft) : Raft :=
  { r with active := true, currentRole := .follower }.spawn .startElectionTimer

/-! ## Roles -/

/-- `currentTerm = term; votedFor = -1`. -/
def adoptTerm (r : Raft) (term : Int) : Raft := { r with currentTerm := term, votedFor := -1 }

/-- `if (currentRole == Role::Leader) handle_pending_sync_props();` -/
def releaseSyncProps (r : Raft) : Raft :=
  if r.currentRole = .leader then r.handlePendingSyncProps else r

/-- Back to follower, with a thread that restarts the election timer. -/
def stepDown (r : Raft) : Raft :=
  { r.releaseSyncProps with currentRole := .follower }.spawn .startElectionTimer

/-- `become_candidate`.  It spawns `start_election_timer` and goes on, without the
lock, to `request_votes(currentTerm)`. -/
def becomeCandidate (r : Raft) : Raft :=
  { r with
    currentRole := .candidate
    currentTerm := r.currentTerm + 1
    votedFor := asInt64 config.id
    votes := {config.id} }.spawn .startElectionTimer |>.spawn .requestVotes

/-- `become_leader`. -/
def becomeLeader (r : Raft) : Raft :=
  { r with
    currentRole := .leader
    nextIndex := fun p => if p ∈ config.peers then (r.log.length : Int) + 1 else 0
    matchIndex := fun _ => 0
    replyCounter := fun _ => 0 }.spawn .startHeartbeatTimer

/-- `request_votes(currentTerm)`: the argument is read without the lock, and a
thread is spawned for every peer. -/
def requestVotes (r : Raft) : Raft :=
  { r with threads := r.threads ++ config.peers.map (.requestVote · r.currentTerm) }

/-- The call the thread for `target` makes.  The request carries the term and the
log read now, not `election_term`. -/
def voteCall (r : Raft) (target : Nat) (electionTerm : Int) : VoteCall where
  caller := config.id
  target := target
  electionTerm := electionTerm
  req :=
    { term := r.currentTerm
      candidateId := asInt64 config.id
      lastLogIndex := r.log.length
      lastLogTerm := r.lastLogTerm }

/-- A granted vote that makes `become_leader` run: the term is still the one asked
for, the role is still candidate, and the votes exceed half of `peers_`. -/
def winsElection (r : Raft) (call : VoteCall) (reply : RequestVoteReply) : Prop :=
  r.currentTerm = call.electionTerm ∧ r.currentRole = .candidate ∧ reply.voteGranted = true ∧
    config.peers.length / 2 < (insert call.target r.votes).card

instance (r : Raft) (call : VoteCall) (reply : RequestVoteReply) :
    Decidable (r.winsElection config call reply) :=
  inferInstanceAs (Decidable (_ ∧ _))

/-- Count a granted vote in the election it was asked for. -/
def countVote (r : Raft) (call : VoteCall) (reply : RequestVoteReply) : Raft :=
  if r.currentTerm = call.electionTerm ∧ r.currentRole = .candidate ∧ reply.voteGranted = true then
    let r' := { r with votes := insert call.target r.votes }
    if r.winsElection config call reply then r'.becomeLeader config else r'
  else r

/-- The thread of `request_votes` after its call returned `ok`. -/
def handleVoteReply (r : Raft) (call : VoteCall) (reply : RequestVoteReply) : Raft :=
  if reply.voteGranted = false ∧ r.currentTerm < reply.term then
    ((r.adoptTerm reply.term).stepDown).countVote config call reply
  else r.countVote config call reply

/-! ## Answering -/

/-- `candidateUpToDate`. -/
def candidateUpToDate (r : Raft) (req : RequestVoteRequest) : Prop :=
  r.lastLogTerm < req.lastLogTerm ∨
    req.lastLogTerm = r.lastLogTerm ∧ (r.log.length : Int) ≤ req.lastLogIndex

instance (r : Raft) (req : RequestVoteRequest) : Decidable (r.candidateUpToDate req) :=
  inferInstanceAs (Decidable (_ ∨ _))

/-- Give the vote.  `flag` is the source's: no higher term was adopted just now, so
the election timer is still to be restarted. -/
def grantVote (r : Raft) (candidateId : Int) (flag : Bool) : Raft :=
  let r' := { r with votedFor := candidateId }.releaseSyncProps
  let r'' := { r' with currentRole := .follower }
  if flag then r''.spawn .startElectionTimer else r''

/-- `reply_vote`. -/
def replyVote (r : Raft) (req : RequestVoteRequest) : Raft × RequestVoteReply :=
  if r.active = false then (r, { voteGranted := false })
  else if req.term < r.currentTerm then (r, { term := r.currentTerm, voteGranted := false })
  else
    let flag := !decide (r.currentTerm < req.term)
    let r' := if r.currentTerm < req.term then (r.adoptTerm req.term).stepDown else r
    if r'.votedFor ≠ -1 ∧ r'.votedFor ≠ req.candidateId then
      (r', { term := r'.currentTerm, voteGranted := false })
    else if r'.candidateUpToDate req then
      (r'.grantVote req.candidateId flag, { term := r'.currentTerm, voteGranted := true })
    else (r', { term := r'.currentTerm, voteGranted := false })

end Raft

end Rafty
