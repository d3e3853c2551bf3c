/-
# Rafty.Kernel.Replication — the log: proposing, sending, appending, applying

`propose` and `propose_sync`, `send_entries` with the thread it spawns for each
peer, `append_entries`, the handler of its reply, and `apply_entries`.

A function whose source indexes `log` returns `none` when an index would be
outside it.  The one exception is the request builder: there `none` is a send that
puts nothing on the wire.
-/
import Rafty.Kernel.Election
import Rafty.Theory.Ledger

namespace Rafty

set_option autoImplicit false

open Theory (overwrite)

namespace Raft

variable (config : Config)

/-! ## Applying -/

/-- One round of the loop of `apply_entries`, at index `i`. -/
def applyEntry (r : Raft) (i : Nat) : Option Raft := do
  let entry ← r.log[i - 1]?
  let r' :=
    { r with
      readyQueue := r.readyQueue ++ [{ valid := true, data := entry.command, index := i }]
      lastApplied := r.lastApplied + 1 }
  match r.proposalCvs.lookup i with
  | some cv => return r'.notifyCv cv
  | none => return r'

/-- `apply_entries`.  Its exception for `commitIndex > log.size()` is caught inside. -/
def applyEntries (r : Raft) : Option Raft :=
  if r.log.length < r.commitIndex then some r
  else (List.range' (r.lastApplied + 1) (r.commitIndex - r.lastApplied)).foldlM applyEntry r

/-! ## Proposing -/

/-- The entry a proposal becomes. -/
def proposed (r : Raft) (data : String) : Entry := { term := r.currentTerm, command := data }

/-- `log.push_back(e)`. -/
def append (r : Raft) (entry : Entry) : Raft := { r with log := r.log ++ [entry] }

/-- The answer to an accepted proposal. -/
def accepted (r : Raft) : ProposalResult :=
  { index := r.log.length + 1, term := r.currentTerm, isLeader := true }

/-- `propose`. -/
def propose (r : Raft) (data : String) : Raft × ProposalResult :=
  if r.currentRole = .leader then (r.append (r.proposed data), r.accepted)
  else (r, { isLeader := false })

/-- The predicate a caller of `propose_sync` waits for. -/
def syncReady (r : Raft) (call : SyncCall) : Prop :=
  call.proposalIndex ≤ r.commitIndex ∨ r.currentRole ≠ .leader

instance (r : Raft) (call : SyncCall) : Decidable (r.syncReady call) :=
  inferInstanceAs (Decidable (_ ∨ _))

/-- `propose_sync` after its wait: forget the registration and decide by
`commitIndex`. -/
def finishSync (r : Raft) (call : SyncCall) : Raft × ProposalResult :=
  ({ r with proposalCvs := r.proposalCvs.filter fun kv => kv.1 ≠ call.proposalIndex },
    if call.proposalIndex ≤ r.commitIndex then call.res
    else { call.res with isLeader := false })

/-- What an accepted `propose_sync` waits with. -/
def syncCall (r : Raft) (data : String) : SyncCall where
  cv := r.nextCv
  proposalIndex := r.accepted.index
  res := r.accepted
  data := data
  notified := false

/-- `propose_sync` up to its wait, or to the end when the predicate holds at once. -/
def proposeSync (r : Raft) (data : String) : Raft × Option ProposalResult :=
  if r.currentRole = .leader then
    let call := r.syncCall data
    let others := r.proposalCvs.filter fun kv => kv.1 ≠ call.proposalIndex
    let r' :=
      { r.append (r.proposed data) with
        proposalCvs := (call.proposalIndex, call.cv) :: others
        nextCv := r.nextCv + 1 }
    if r'.syncReady call then
      let (r'', res) := r'.finishSync call
      (r'', some res)
    else ({ r' with waiters := r'.waiters ++ [call] }, none)
  else (r, some { isLeader := false })

/-- A caller of `propose_sync` wakes, notified or not, and looks again. -/
def wakeSync (r : Raft) (call : SyncCall) : Raft × Option ProposalResult :=
  let r' := { r with waiters := r.waiters.erase call }
  if r.syncReady call then
    let (r'', res) := r'.finishSync call
    (r'', some res)
  else ({ r' with waiters := r'.waiters ++ [{ call with notified := false }] }, none)

/-! ## Sending -/

/-- `send_entries`: a thread for every peer, then one that restarts the heartbeat. -/
def sendEntries (r : Raft) : Raft :=
  { r with threads := r.threads ++ config.peers.map Thread.sendEntriesTo }.spawn .startHeartbeatTimer

/-- The call the thread for `target` makes.  It reads `log[nextIndex - 2]` when
`nextIndex > 1`, and `log[i]` for every `i` from `nextIndex - 1` to the end; these
are inside the log exactly when `nextIndex` lies between 1 and `log.size() + 1`.
Otherwise nothing is sent. -/
def appendCall (r : Raft) (target : Nat) : Option AppendCall :=
  let next := r.nextIndex target
  if 1 ≤ next ∧ next ≤ r.log.length + 1 then
    some
      { caller := config.id
        target := target
        req :=
          { term := r.currentTerm
            leaderId := asInt64 config.id
            prevLogIndex := if 1 < next then next - 1 else 0
            prevLogTerm := if 1 < next then ((r.readLog (next - 2)).map Entry.term).getD 0 else 0
            entries := r.log.drop (next - 1).toNat
            leaderCommit := r.commitIndex }
        currentLogSize := r.log.length
        currentReplyCounter := r.replyCounter target + 1
        currentNextIndex := next
        currentMatchIndex := r.matchIndex target }
  else none

/-! ## Appending -/

/-- The consistency check of `append_entries` fails. -/
def prevMismatch (r : Raft) (req : AppendEntriesRequest) : Prop :=
  0 < req.prevLogIndex ∧
    ∀ entry ∈ r.readLog (req.prevLogIndex - 1), entry.term ≠ req.prevLogTerm

instance (r : Raft) (req : AppendEntriesRequest) : Decidable (r.prevMismatch req) :=
  inferInstanceAs (Decidable (_ ∧ ∀ entry ∈ r.readLog (req.prevLogIndex - 1), _))

/-- The scan for the first index of a term: `i` is the 0-based position looked at,
from `i` down to 0. -/
def firstIndexOfTerm (r : Raft) (conflictTerm : Int) : Nat → Option Int
  | 0 => do
      let entry ← r.log[0]?
      return if entry.term ≠ conflictTerm then 2 else 1
  | i + 1 => do
      let entry ← r.log[i + 1]?
      if entry.term ≠ conflictTerm then return (i + 1 : Int) + 2
      else r.firstIndexOfTerm conflictTerm i

/-- The conflict report of a failed check. -/
def conflictInfo (r : Raft) (req : AppendEntriesRequest) : Option ConflictInfo :=
  if (r.log.length : Int) ≤ req.prevLogIndex - 1 then
    some { conflictIndex := r.log.length + 1, conflictTerm := 0 }
  else do
    let entry ← r.readLog (req.prevLogIndex - 1)
    let conflictIndex ← r.firstIndexOfTerm entry.term (req.prevLogIndex - 1).toNat
    return { conflictTerm := entry.term, conflictIndex := conflictIndex }

/-- The overwrite loop and the appending loop.  `startIndex + i < log.size()`
compares unsigned, so with a negative `prev_log_index` the first loop ends at once
and everything is appended. -/
def writeEntries (r : Raft) (req : AppendEntriesRequest) : Raft :=
  { r with
    log :=
      if req.prevLogIndex < 0 then r.log ++ req.entries
      else overwrite Entry.term r.log req.prevLogIndex.toNat req.entries }

/-- `leader_commit > commitIndex`: commit up to the own log's end and apply. -/
def followCommit (r : Raft) (req : AppendEntriesRequest) : Option Raft :=
  if (r.commitIndex : Int) < req.leaderCommit then
    { r with commitIndex := min req.leaderCommit.toNat r.log.length }.applyEntries
  else some r

/-- The first half of `append_entries`: take over the term and step down. -/
def acknowledge (r : Raft) (req : AppendEntriesRequest) : Raft :=
  (if r.currentTerm < req.term then r.adoptTerm req.term else r).stepDown

/-- `append_entries`. -/
def appendEntries (r : Raft) (req : AppendEntriesRequest) : Option (Raft × AppendEntriesReply) :=
  if r.active = false then some (r, {})
  else if req.term < r.currentTerm then some (r, { term := r.currentTerm, success := false })
  else do
    let r' := r.acknowledge req
    if r'.prevMismatch req then
      let info ← r'.conflictInfo req
      return (r', { term := r'.currentTerm, success := false, conflictInfo := some info })
    else
      let r'' ← (r'.writeEntries req).followCommit req
      return (r'', { term := r'.currentTerm, success := true })

/-! ## The reply -/

/-- The binary search for the last entry of `conflictTerm` between the 0-based
positions `left` and `right`; `last` is the best so far, `-1` at first. -/
def lastOfTerm (r : Raft) (conflictTerm : Int) : Nat → Int → Int → Int → Option Int
  | 0, _, _, last => some last
  | fuel + 1, left, right, last =>
      if right < left then some last
      else do
        let mid := left + (right - left) / 2
        let entry ← r.readLog mid
        if entry.term = conflictTerm then r.lastOfTerm conflictTerm fuel (mid + 1) right mid
        else if entry.term < conflictTerm then r.lastOfTerm conflictTerm fuel (mid + 1) right last
        else r.lastOfTerm conflictTerm fuel left (mid - 1) last

/-- `nextIndex[target] = value` and the like. -/
def setNextIndex (r : Raft) (target : Nat) (value : Int) : Raft :=
  { r with nextIndex := fun p => if p = target then value else r.nextIndex p }

def setMatchIndex (r : Raft) (target : Nat) (value : Int) : Raft :=
  { r with matchIndex := fun p => if p = target then value else r.matchIndex p }

def setReplyCounter (r : Raft) (target : Nat) (value : Int) : Raft :=
  { r with replyCounter := fun p => if p = target then value else r.replyCounter p }

/-- A refusal in the current leadership: back `nextIndex` up.  The search gets as
much fuel as its interval has positions. -/
def backUp (r : Raft) (call : AppendCall) (reply : AppendEntriesReply) : Option Raft :=
  let target := call.target
  if call.currentNextIndex ≠ r.nextIndex target ∨ call.currentMatchIndex ≠ r.matchIndex target then
    some r
  else
    match reply.conflictInfo with
    | some info => do
        let left := max 0 (r.matchIndex target)
        let right := min ((call.currentLogSize : Int) - 1) (r.nextIndex target - 2)
        let last ← r.lastOfTerm info.conflictTerm (right - left + 1).toNat left right (-1)
        return r.setNextIndex target (if last ≠ -1 then last + 2 else info.conflictIndex)
    | none =>
        if r.matchIndex target + 1 < r.nextIndex target then
          some (r.setNextIndex target (r.nextIndex target - 1))
        else some r

/-- `count`: the leader and the peers whose `matchIndex` reaches `n`. -/
def replicaCount (r : Raft) (n : Nat) : Nat :=
  1 + config.peers.countP fun p => (n : Int) ≤ r.matchIndex p

/-- The scan from `n` downwards for the highest index of the current term that
enough nodes hold; `commitIndex` if there is none above it. -/
def commitScan (r : Raft) : Nat → Option Nat
  | 0 => some r.commitIndex
  | n + 1 =>
      if n + 1 ≤ r.commitIndex then some r.commitIndex
      else do
        let entry ← r.log[n]?
        if entry.term = r.currentTerm ∧ (config.peers.length + 1) / 2 < r.replicaCount config (n + 1)
        then return n + 1
        else r.commitScan n

/-- `currentNextIndex + req.entries_size() - 1`. -/
def lastLogIndexSent (call : AppendCall) : Int :=
  call.currentNextIndex + call.req.entries.length - 1

/-- An acceptance in the current leadership: record it and try to commit. -/
def advance (r : Raft) (call : AppendCall) : Option Raft := do
  let sent := lastLogIndexSent call
  let r' := (r.setMatchIndex call.target sent).setNextIndex call.target (sent + 1)
  let newCommitIndex ← r'.commitScan config sent.toNat
  if r'.commitIndex < newCommitIndex then
    ({ r' with commitIndex := newCommitIndex } : Raft).applyEntries
  else return r'

/-- The thread of `send_entries` after its call returned `ok`. -/
def handleAppendReply (r : Raft) (call : AppendCall) (reply : AppendEntriesReply) : Option Raft :=
  if call.currentReplyCounter < r.replyCounter call.target then some r
  else
    let r' := r.setReplyCounter call.target call.currentReplyCounter
    if r'.currentTerm < reply.term then some ((r'.adoptTerm reply.term).stepDown)
    else if r'.currentRole ≠ .leader ∨ call.req.term ≠ r'.currentTerm then some r'
    else if reply.success = false then r'.backUp call reply
    else r'.advance config call

end Raft

end Rafty
