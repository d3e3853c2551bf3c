/-
# Rafty.Kernel.Types — the data of one raft object

The records of `raft.proto`, the `Raft` object of `raft.hpp` and the detached
threads it has spawned.  A thread is kept with the values its lambda captured and
the local variables it still needs, so that "the thread gets the lock later" is a
step of its own.

Conventions.  Terms and the `int64` fields of a message are integers: nothing here
counts to 2^63.  `commitIndex`, `lastApplied` and the sizes are naturals (they are
never assigned a negative value).  A node id is the `uint64` it is configured
with; `asInt64` is its conversion in a message and in `votedFor`.  The three maps
keyed by a peer are total functions, because `operator[]` inserts 0 for a missing
key.
-/
import Mathlib.Data.Finset.Card
import Mathlib.Tactic.Common

namespace Rafty

set_option autoImplicit false

/-- The conversion of a `uint64` to `int64`. -/
def asInt64 (n : Nat) : Int := (n : Int).bmod (1 <<< 64)

theorem asInt64_of_lt {n : Nat} (small : n < 1 <<< 63) : asInt64 n = n :=
  Int.bmod_eq_of_le (by omega) (by omega)

/-! ## Messages -/

structure Entry where
  term : Int
  command : String
  deriving DecidableEq, Repr

structure RequestVoteRequest where
  term : Int
  candidateId : Int
  lastLogIndex : Int
  lastLogTerm : Int
  deriving DecidableEq, Repr

/-- Unset fields of a reply hold the protobuf defaults. -/
structure RequestVoteReply where
  term : Int := 0
  voteGranted : Bool := false
  deriving DecidableEq, Repr

structure AppendEntriesRequest where
  term : Int
  leaderId : Int
  prevLogIndex : Int
  prevLogTerm : Int
  entries : List Entry
  leaderCommit : Int
  deriving DecidableEq, Repr

structure ConflictInfo where
  conflictTerm : Int
  conflictIndex : Int
  deriving DecidableEq, Repr

/-- `conflictInfo` is a message field: `none` is `!has_conflict_info()`. -/
structure AppendEntriesReply where
  term : Int := 0
  success : Bool := false
  conflictInfo : Option ConflictInfo := none
  deriving DecidableEq, Repr

structure ApplyResult where
  valid : Bool
  data : String
  index : Nat
  deriving DecidableEq, Repr

/-- Without `isLeader` the source leaves `index` and `term` indeterminate. -/
structure ProposalResult where
  index : Nat := 0
  term : Int := 0
  isLeader : Bool
  deriving DecidableEq, Repr

/-- A `RequestVote` call: who asks whom, the `election_term` the lambda captured,
and the request it built. -/
structure VoteCall where
  caller : Nat
  target : Nat
  electionTerm : Int
  req : RequestVoteRequest
  deriving DecidableEq, Repr

/-- An `AppendEntries` call with the locals read when the request was built. -/
structure AppendCall where
  caller : Nat
  target : Nat
  req : AppendEntriesRequest
  currentLogSize : Nat
  currentReplyCounter : Int
  currentNextIndex : Int
  currentMatchIndex : Int
  deriving DecidableEq, Repr

/-- A caller blocked in `propose_sync`: its condition variable (by identity), its
index, the result it will return, the data it proposed, and whether the variable
was notified since the caller last looked. -/
structure SyncCall where
  cv : Nat
  proposalIndex : Nat
  res : ProposalResult
  data : String
  notified : Bool
  deriving DecidableEq, Repr

/-! ## The object -/

inductive Role
  | leader
  | follower
  | candidate
  deriving DecidableEq, Repr

/-- The `mode` argument of `start_timer`. -/
inductive TimerMode
  | election
  | heartbeat
  deriving DecidableEq, Repr

/-- A detached thread that has not finished. -/
inductive Thread
  | startElectionTimer
  | startHeartbeatTimer
  | startTimer (currentCounter : Nat) (mode : TimerMode)
  | becomeCandidate
  | requestVotes
  | requestVote (target : Nat) (electionTerm : Int)
  | awaitVote (call : VoteCall)
  | sendEntries
  | sendEntriesTo (target : Nat)
  | awaitAppend (call : AppendCall)
  deriving DecidableEq, Repr

/-- What a node is constructed with: its id and the keys of `peers_`. -/
structure Config where
  id : Nat
  peers : List Nat

/-- The members of `class Raft`.  `readyQueue` lists what was handed to
`ready_queue.enqueue`, `waiters` the callers blocked in `propose_sync`, and
`nextCv` is the identity of the next condition variable. -/
structure Raft where
  active : Bool
  dead : Bool
  currentTerm : Int
  votedFor : Int
  log : List Entry
  commitIndex : Nat
  lastApplied : Nat
  nextIndex : Nat → Int
  matchIndex : Nat → Int
  replyCounter : Nat → Int
  currentRole : Role
  votes : Finset Nat
  timerCounter : Nat
  proposalCvs : List (Nat × Nat)
  nextCv : Nat
  waiters : List SyncCall
  readyQueue : List ApplyResult
  threads : List Thread

namespace Raft

/-- The constructor.  It does not set `currentRole`, so the role is a parameter. -/
def new (currentRole : Role) : Raft where
  active := false
  dead := false
  currentTerm := 0
  votedFor := -1
  log := []
  commitIndex := 0
  lastApplied := 0
  nextIndex := fun _ => 0
  matchIndex := fun _ => 0
  replyCounter := fun _ => 0
  currentRole := currentRole
  votes := ∅
  timerCounter := 0
  proposalCvs := []
  nextCv := 0
  waiters := []
  readyQueue := []
  threads := []

/-- Spawn a detached thread. -/
def spawn (r : Raft) (thread : Thread) : Raft := { r with threads := r.threads ++ [thread] }

/-- `log.back().term`, or 0 for the empty log. -/
def lastLogTerm (r : Raft) : Int := (r.log.getLast?.map Entry.term).getD 0

/-- `log[i]`; `none` is a read outside the log. -/
def readLog (r : Raft) (i : Int) : Option Entry := if i < 0 then none else r.log[i.toNat]?

/-! ## Waking the callers of `propose_sync` -/

/-- `notify_one` on a condition variable. -/
def notifyCv (r : Raft) (cv : Nat) : Raft :=
  { r with waiters := r.waiters.map fun w => if w.cv = cv then { w with notified := true } else w }

/-- Notify every registered condition variable and forget the registrations. -/
def handlePendingSyncProps (r : Raft) : Raft :=
  { r with
    waiters := r.waiters.map fun w =>
      if w.cv ∈ r.proposalCvs.map Prod.snd then { w with notified := true } else w
    proposalCvs := [] }

end Raft

end Rafty
