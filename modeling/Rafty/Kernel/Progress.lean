/-
# Rafty.Kernel.Progress — what one section can do to the indices

The progress of a node is what it has committed, applied and handed out, and what a
leader knows of its peers.  `apply_entries` is characterised once
(`progress_applyEntries`): it never reads outside the log, and it hands out the
next entries in order.  `Advance` lists what a section can do to the progress, and
`step_advance` proves the list complete.
-/
import Rafty.Kernel.Change

namespace Rafty

set_option autoImplicit false

open Theory

namespace Raft

/-! ## The progress of a node -/

/-- Committing, applying, and the three maps of a leader. -/
structure Progress where
  commitIndex : Nat
  lastApplied : Nat
  readyQueue : List ApplyResult
  nextIndex : Nat → Int
  matchIndex : Nat → Int
  replyCounter : Nat → Int

def progress (r : Raft) : Progress where
  commitIndex := r.commitIndex
  lastApplied := r.lastApplied
  readyQueue := r.readyQueue
  nextIndex := r.nextIndex
  matchIndex := r.matchIndex
  replyCounter := r.replyCounter

section Frame

variable (r : Raft)

@[simp] theorem progress_spawn (thread : Thread) : (r.spawn thread).progress = r.progress := rfl

@[simp] theorem progress_releaseSyncProps : r.releaseSyncProps.progress = r.progress := by
  unfold releaseSyncProps; split <;> rfl

@[simp] theorem progress_adoptTerm (term : Int) : (r.adoptTerm term).progress = r.progress := rfl

@[simp] theorem progress_stepDown : r.stepDown.progress = r.progress :=
  r.progress_releaseSyncProps

@[simp] theorem progress_timerExpired : r.timerExpired.progress = r.progress := by
  unfold timerExpired; split <;> rfl

@[simp] theorem progress_acknowledge (req : AppendEntriesRequest) :
    (r.acknowledge req).progress = r.progress := by
  unfold acknowledge
  rw [progress_stepDown]
  split <;> rfl

theorem progress_grantVote (candidateId : Int) (flag : Bool) :
    (r.grantVote candidateId flag).progress = r.progress := by
  have kept := progress_releaseSyncProps { r with votedFor := candidateId }
  unfold grantVote
  split
  · exact kept
  · exact kept

theorem progress_replyVote (req : RequestVoteRequest) :
    (r.replyVote req).1.progress = r.progress := by
  have adopted : (if r.currentTerm < req.term then (r.adoptTerm req.term).stepDown
      else r).progress = r.progress := by
    split
    · simp
    · rfl
  unfold replyVote
  split
  · rfl
  split
  · rfl
  generalize (if r.currentTerm < req.term then (r.adoptTerm req.term).stepDown else r) = s
    at adopted ⊢
  simp only
  split
  · exact adopted
  split
  · exact (s.progress_grantVote _ _).trans adopted
  · exact adopted

theorem progress_propose (data : String) : (r.propose data).1.progress = r.progress := by
  unfold propose; split <;> rfl

theorem progress_proposeSync (data : String) : (r.proposeSync data).1.progress = r.progress := by
  unfold proposeSync
  split
  · simp only
    split <;> rfl
  · rfl

theorem progress_wakeSync (call : SyncCall) : (r.wakeSync call).1.progress = r.progress := by
  unfold wakeSync
  simp only
  split <;> rfl

end Frame

/-! ## Applying -/

/-- The results for the entries of `log` from position `start` on, in order. -/
def Applied (log : List Entry) (start : Nat) (results : List ApplyResult) : Prop :=
  ∀ p res, results[p]? = some res → ∃ entry, log[start + p]? = some entry ∧
    res = { valid := true, data := entry.command, index := start + p + 1 }

theorem Applied.nil {log : List Entry} {start : Nat} : Applied log start [] :=
  fun _ _ impossible => by simp at impossible

theorem Applied.cons {log : List Entry} {start : Nat} {results : List ApplyResult} {entry : Entry}
    (first : log[start]? = some entry) (rest : Applied log (start + 1) results) :
    Applied log start ({ valid := true, data := entry.command, index := start + 1 } :: results) := by
  intro p res at_p
  cases p with
  | zero =>
      simp only [List.getElem?_cons_zero, Option.some.injEq] at at_p
      exact ⟨entry, first, at_p.symm⟩
  | succ p =>
      simp only [List.getElem?_cons_succ] at at_p
      obtain ⟨next, at_next, same⟩ := rest p res at_p
      have shift : start + (p + 1) = start + 1 + p := by omega
      exact ⟨next, by rw [shift, at_next], by rw [shift, same]⟩

variable {config : Config} {r r' : Raft}

theorem progress_applyEntry {i : Nat} (applied : r.applyEntry i = some r') :
    ∃ entry, r.log[i - 1]? = some entry ∧
      r'.progress =
        { r.progress with
          lastApplied := r.lastApplied + 1
          readyQueue :=
            r.readyQueue ++ [{ valid := true, data := entry.command, index := i }] } := by
  simp only [applyEntry, Option.bind_eq_bind, Option.bind_eq_some_iff] at applied
  obtain ⟨entry, read, applied⟩ := applied
  refine ⟨entry, read, ?_⟩
  split at applied <;> cases applied <;> rfl

theorem progress_applyRange {n : Nat}
    (applied : (List.range' (r.lastApplied + 1) n).foldlM applyEntry r = some r') :
    ∃ results, results.length = n ∧ Applied r.log r.lastApplied results ∧
      r'.progress =
        { r.progress with
          lastApplied := r.lastApplied + n
          readyQueue := r.readyQueue ++ results } := by
  induction n generalizing r with
  | zero =>
      cases applied
      exact ⟨[], rfl, .nil, by simp [progress]⟩
  | succ n ih =>
      simp only [List.range'_succ, List.foldlM_cons, Option.bind_eq_bind,
        Option.bind_eq_some_iff] at applied
      obtain ⟨middle, first, others⟩ := applied
      have log : middle.log = r.log := congrArg Core.log (core_applyEntry first)
      obtain ⟨entry, read, once⟩ := progress_applyEntry first
      simp only [progress, Progress.mk.injEq] at once
      obtain ⟨commit, last, queue, peers⟩ := once
      rw [← last] at others
      obtain ⟨results, length, rest, more⟩ := ih others
      rw [log, last] at rest
      refine ⟨_ :: results, by simp [length], Applied.cons read rest, ?_⟩
      simp only [progress, Progress.mk.injEq] at more ⊢
      rw [commit, last, queue] at more
      refine ⟨more.1, by omega, ?_, more.2.2.2.1.trans peers.1,
        more.2.2.2.2.1.trans peers.2.1, more.2.2.2.2.2.trans peers.2.2⟩
      rw [more.2.2.1, List.append_assoc]
      rfl

theorem isSome_applyRange {n : Nat} (inside : r.lastApplied + n ≤ r.log.length) :
    ((List.range' (r.lastApplied + 1) n).foldlM applyEntry r).isSome := by
  induction n generalizing r with
  | zero => rfl
  | succ n ih =>
      have read : r.log[r.lastApplied + 1 - 1]? = some r.log[r.lastApplied] :=
        List.getElem?_eq_getElem _
      obtain ⟨middle, first⟩ : ∃ middle, r.applyEntry (r.lastApplied + 1) = some middle := by
        simp only [applyEntry, read, Option.bind_eq_bind, Option.bind_some]
        split <;> exact ⟨_, rfl⟩
      obtain ⟨entry, -, once⟩ := progress_applyEntry first
      have last : middle.lastApplied = r.lastApplied + 1 := congrArg Progress.lastApplied once
      have log : middle.log = r.log := congrArg Core.log (core_applyEntry first)
      simp only [List.range'_succ, List.foldlM_cons, first, Option.bind_eq_bind, Option.bind_some]
      rw [← last]
      exact ih (by rw [last, log]; omega)

/-- `apply_entries` reads inside the log, whatever `commitIndex` and `lastApplied`
are: its guard compares with the log's size. -/
theorem isSome_applyEntries (r : Raft) : r.applyEntries.isSome := by
  unfold applyEntries
  split
  · rfl
  · rename_i inside
    by_cases behind : r.lastApplied < r.commitIndex
    · apply isSome_applyRange
      omega
    · rw [Nat.sub_eq_zero_of_le (not_lt.mp behind)]
      rfl

/-- **What `apply_entries` does.**  It hands out the next entries in order, up to
`commitIndex` if that lies inside the log. -/
theorem progress_applyEntries (applied : r.applyEntries = some r') :
    ∃ results, Applied r.log r.lastApplied results ∧
      (r.commitIndex ≤ r.log.length → results.length = r.commitIndex - r.lastApplied) ∧
      r'.progress =
        { r.progress with
          lastApplied := r.lastApplied + results.length
          readyQueue := r.readyQueue ++ results } := by
  unfold applyEntries at applied
  split at applied
  · cases applied
    exact ⟨[], .nil, fun inside => by omega, by simp [progress]⟩
  · obtain ⟨results, length, inOrder, same⟩ := progress_applyRange applied
    exact ⟨results, inOrder, fun _ => length, length.symm ▸ same⟩

/-! ## Counting -/

/-- What the scan finds: `commitIndex`, or an entry of the current term that enough
nodes hold. -/
theorem commitScan_found {n found : Nat} (scanned : r.commitScan config n = some found) :
    found = r.commitIndex ∨
      r.commitIndex < found ∧ found ≤ n ∧ (∃ entry, r.log[found - 1]? = some entry ∧
        entry.term = r.currentTerm) ∧
        (config.peers.length + 1) / 2 < r.replicaCount config found := by
  induction n with
  | zero => exact Or.inl (Option.some.inj scanned).symm
  | succ n ih =>
      simp only [commitScan] at scanned
      split at scanned
      · exact Or.inl (Option.some.inj scanned).symm
      · rename_i above
        simp only [Option.bind_eq_bind, Option.bind_eq_some_iff] at scanned
        obtain ⟨entry, read, scanned⟩ := scanned
        split at scanned
        · rename_i enough
          cases scanned
          exact Or.inr ⟨by omega, le_rfl, ⟨entry, read, enough.1⟩, enough.2⟩
        · rcases ih scanned with same | ⟨newer, le, rest⟩
          · exact Or.inl same
          · exact Or.inr ⟨newer, by omega, rest⟩

/-! ## The advances -/

/-- The map with one value set. -/
def setAt (map : Nat → Int) (target : Nat) (value : Int) : Nat → Int :=
  fun p => if p = target then value else map p

/-- What one section can do to the progress, and when. -/
inductive Advance (config : Config) (r : Raft) : Input → Raft → Prop
  | still {input : Input} {r' : Raft} (progress : r'.progress = r.progress) :
      Advance config r input r'
  | elect {call : VoteCall} {reply : RequestVoteReply} {r' : Raft}
      (wins : r.winsElection config call reply)
      (progress : r'.progress =
        { r.progress with
          nextIndex := fun p => if p ∈ config.peers then (r.log.length : Int) + 1 else 0
          matchIndex := fun _ => 0
          replyCounter := fun _ => 0 }) : Advance config r (.voteReply call reply) r'
  /-- `append_entries` accepts and the leader has committed more. -/
  | follow {call : AppendCall} {r' : Raft} (results : List ApplyResult)
      (notOld : r.currentTerm ≤ call.req.term) (consistent : ¬ r.prevMismatch call.req)
      (core : r'.core =
        { r.core with
          currentTerm := call.req.term
          votedFor := if r.currentTerm < call.req.term then -1 else r.votedFor
          currentRole := .follower
          log := (r.writeEntries call.req).log })
      (higher : (r.commitIndex : Int) < call.req.leaderCommit)
      (applied : Applied r'.log r.lastApplied results)
      (length : results.length = min call.req.leaderCommit.toNat r'.log.length - r.lastApplied)
      (progress : r'.progress =
        { r.progress with
          commitIndex := min call.req.leaderCommit.toNat r'.log.length
          lastApplied := r.lastApplied + results.length
          readyQueue := r.readyQueue ++ results }) : Advance config r (.appendEntries call) r'
  /-- A reply is recorded and has no other effect on the progress. -/
  | record {call : AppendCall} {reply : AppendEntriesReply} {r' : Raft}
      (progress : r'.progress =
        { r.progress with
          replyCounter := setAt r.replyCounter call.target call.currentReplyCounter }) :
      Advance config r (.appendReply call reply) r'
  | backUp {call : AppendCall} {reply : AppendEntriesReply} {r' : Raft} (value : Int)
      (role : r.currentRole = .leader) (term : call.req.term = r.currentTerm)
      (progress : r'.progress =
        { r.progress with
          nextIndex := setAt r.nextIndex call.target value
          replyCounter := setAt r.replyCounter call.target call.currentReplyCounter }) :
      Advance config r (.appendReply call reply) r'
  /-- An acceptance is recorded; `commit` is the `commitIndex` it leads to. -/
  | acknowledge {call : AppendCall} {reply : AppendEntriesReply} {r' : Raft} (commit : Nat)
      (results : List ApplyResult) (fresh : r.replyCounter call.target ≤ call.currentReplyCounter)
      (role : r.currentRole = .leader) (term : call.req.term = r.currentTerm)
      (success : reply.success = true) (core : r'.core = r.core)
      (committed : commit = r.commitIndex ∧ results = [] ∨
        r.commitIndex < commit ∧ commit ≤ (lastLogIndexSent call).toNat ∧
          (∃ entry, r.log[commit - 1]? = some entry ∧ entry.term = r.currentTerm) ∧
          (config.peers.length + 1) / 2 <
            (r.setMatchIndex call.target (lastLogIndexSent call)).replicaCount config commit ∧
          results.length = commit - r.lastApplied)
      (applied : Applied r.log r.lastApplied results)
      (progress : r'.progress =
        { commitIndex := commit
          lastApplied := r.lastApplied + results.length
          readyQueue := r.readyQueue ++ results
          nextIndex := setAt r.nextIndex call.target (lastLogIndexSent call + 1)
          matchIndex := setAt r.matchIndex call.target (lastLogIndexSent call)
          replyCounter := setAt r.replyCounter call.target call.currentReplyCounter }) :
      Advance config r (.appendReply call reply) r'

/-! ## Completeness of the list -/

/-- Pending threads do not matter to the progress. -/
theorem Advance.of_threads {input : Input} {threads : List Thread}
    (advance : Advance config { r with threads := threads } input r') :
    Advance config r input r' := by
  cases advance with
  | still progress => exact .still progress
  | elect wins progress => exact .elect wins progress
  | follow results notOld consistent core higher applied length progress =>
      exact .follow results notOld consistent core higher applied length progress
  | record progress => exact .record progress
  | backUp value role term progress => exact .backUp value role term progress
  | acknowledge commit results fresh role term success core committed applied progress =>
      exact .acknowledge commit results fresh role term success core committed applied progress

theorem countVote_advance (call : VoteCall) (reply : RequestVoteReply) :
    Advance config r (.voteReply call reply) (r.countVote config call reply) := by
  unfold countVote
  split
  · split
    · rename_i wins
      exact .elect wins rfl
    · exact .still rfl
  · exact .still rfl

theorem handleVoteReply_advance (call : VoteCall) (reply : RequestVoteReply) :
    Advance config r (.voteReply call reply) (r.handleVoteReply config call reply) := by
  unfold handleVoteReply
  split
  · rename_i refused
    rw [countVote_refused refused.1]
    exact .still (by simp)
  · exact countVote_advance call reply

theorem appendEntries_advance {call : AppendCall} {reply : AppendEntriesReply}
    (answered : r.appendEntries call.req = some (r', reply)) :
    Advance config r (.appendEntries call) r' := by
  by_cases success : reply.success = true
  · obtain ⟨notOld, consistent, -, followed⟩ := appendEntries_success answered success
    have core := core_accepted notOld followed
    unfold followCommit at followed
    have before : ((r.acknowledge call.req).writeEntries call.req).progress = r.progress :=
      r.progress_acknowledge call.req
    simp only [progress, Progress.mk.injEq] at before
    obtain ⟨commit, last, queue, next, matched, counter⟩ := before
    split at followed
    · rename_i higher
      have log := congrArg Core.log (core_applyEntries followed)
      simp only [Raft.core] at log
      obtain ⟨results, applied, length, after⟩ := progress_applyEntries followed
      simp only [last, queue, ← log] at applied length after
      refine .follow results notOld consistent core (commit ▸ higher) applied
        (length (min_le_right _ _)) (after.trans ?_)
      simp only [progress, Progress.mk.injEq]
      exact ⟨trivial, trivial, trivial, next, matched, counter⟩
    · cases followed
      exact .still (r.progress_acknowledge call.req)
  · unfold appendEntries at answered
    split at answered
    · cases answered; exact .still rfl
    split at answered
    · cases answered; exact .still rfl
    simp only [Option.pure_def, Option.bind_eq_bind] at answered
    split at answered <;>
      simp only [Option.bind_eq_some_iff, Option.some.injEq, Prod.mk.injEq] at answered
    · obtain ⟨info, -, rfl, -⟩ := answered
      exact .still (r.progress_acknowledge call.req)
    · obtain ⟨r'', -, -, rfl⟩ := answered
      exact absurd rfl success

theorem backUp_progress {call : AppendCall} {reply : AppendEntriesReply}
    (backed : r.backUp call reply = some r') :
    r'.progress = r.progress ∨
      ∃ value, r'.progress = { r.progress with nextIndex := setAt r.nextIndex call.target value } := by
  simp only [Raft.backUp] at backed
  split at backed
  · cases backed; exact Or.inl rfl
  · split at backed
    · simp only [Option.bind_eq_bind, Option.bind_eq_some_iff] at backed
      obtain ⟨last, -, backed⟩ := backed
      cases backed
      exact Or.inr ⟨_, rfl⟩
    · split at backed
      · cases backed; exact Or.inr ⟨_, rfl⟩
      · cases backed; exact Or.inl rfl

theorem handleAppendReply_advance {call : AppendCall} {reply : AppendEntriesReply}
    (handled : r.handleAppendReply config call reply = some r') :
    Advance config r (.appendReply call reply) r' := by
  simp only [handleAppendReply] at handled
  split at handled
  · cases handled; exact .still rfl
  rename_i fresh
  rw [not_lt] at fresh
  split at handled
  · cases handled; exact .record (by simp; rfl)
  split at handled
  · cases handled; exact .record rfl
  rename_i current
  simp only [not_or, not_not] at current
  obtain ⟨role, term⟩ := current
  split at handled
  · rcases backUp_progress handled with same | ⟨value, same⟩
    · exact .record same
    · exact .backUp value role term same
  · rename_i accepted
    have success : reply.success = true := by simpa using accepted
    simp only [Raft.advance, Option.bind_eq_bind, Option.bind_eq_some_iff] at handled
    obtain ⟨found, scanned, handled⟩ := handled
    split at handled
    · rename_i newer
      rcases commitScan_found scanned with same | ⟨-, le, ⟨entry, read, own⟩, enough⟩
      · simp [same] at newer
      · obtain ⟨results, applied, length, after⟩ := progress_applyEntries handled
        have inside : found ≤ r.log.length := by
          have : found - 1 < r.log.length := (List.getElem?_eq_some_iff.mp read).1
          omega
        have core : r'.core = r.core := (core_applyEntries handled).trans rfl
        exact .acknowledge found results fresh role term success core
          (Or.inr ⟨newer, le, ⟨entry, read, own⟩, enough, length inside⟩) applied after
    · cases handled
      exact .acknowledge r.commitIndex [] fresh role term success rfl (Or.inl ⟨rfl, rfl⟩) .nil
        (by simp; rfl)

/-- **The list is complete.** -/
theorem step_advance {input : Input} {output : Output}
    (stepped : r.step config input = some (r', output)) : Advance config r input r' := by
  cases step_section stepped with
  | timerExpired => exact .still (progress_timerExpired _)
  | replyVote => exact .still (r.progress_replyVote _)
  | voteReply => exact (handleVoteReply_advance _ _).of_threads
  | appendEntries answered => exact appendEntries_advance answered
  | appendReply _ handled => exact (handleAppendReply_advance handled).of_threads
  | propose => exact .still (r.progress_propose _)
  | proposeSync => exact .still (r.progress_proposeSync _)
  | wakeSync => exact .still (r.progress_wakeSync _)
  | _ => exact .still rfl

end Raft

end Rafty
