/-
# Rafty.Replication.Repair — how a leader finds where a follower's log parts from its own

A round: the leader builds a request from `nextIndex`, the follower answers it, and the
leader handles the answer.  For matching logs the follower accepts exactly when the
request starts at or below the common prefix.  When it refuses, it reports the term it
has at `prev_log_index` and the first index of that term; the leader looks for its own
last entry of the term and goes behind it, or takes the reported index.

The three ways back (the follower's log is short, the leader has the term, the leader
has it not) each lead strictly down and not below the common prefix (`round_outcome`),
so the rounds end with the request that starts exactly there (`repair_converges`).
-/
import Rafty.Replication.Delivery
import Rafty.Replication.Sorted
import Rafty.Theory.Divergence

namespace Rafty

set_option autoImplicit false

open Theory

namespace Raft

variable {config : Config} {r : Raft} {req : AppendEntriesRequest}

/-! ## The leader's search -/

/-- What the search says: no entry between `left` and `right` has the term, or `j` is the
last one that does. -/
inductive Searched (r : Raft) (conflictTerm left right last found : Int) : Prop
  | absent (unchanged : found = last)
      (other : ∀ (q : Nat) (entry : Entry), r.log[q]? = some entry → left ≤ q → q ≤ right →
        entry.term ≠ conflictTerm)
  | last (j : Nat) (entry : Entry) (isFound : found = j) (low : left ≤ j) (high : j ≤ right)
      (read : r.log[j]? = some entry) (same : entry.term = conflictTerm)
      (other : ∀ (q : Nat) (entry : Entry), r.log[q]? = some entry → j < q → q ≤ right →
        entry.term ≠ conflictTerm)

variable {conflictTerm left right mid last found : Int}

/-- Entries of other terms may be added below, -/
theorem Searched.below (searched : Searched r conflictTerm (mid + 1) right last found)
    (low : left ≤ mid + 1)
    (other : ∀ (q : Nat) (entry : Entry), r.log[q]? = some entry → q ≤ mid →
      entry.term ≠ conflictTerm) :
    Searched r conflictTerm left right last found := by
  cases searched with
  | absent unchanged others =>
      refine .absent unchanged ?_
      intro q entry atQ above below
      by_cases inLower : q ≤ mid
      · exact other q entry atQ inLower
      · exact others q entry atQ (by omega) below
  | last j entry isFound lowJ high read same others =>
      exact .last j entry isFound (by omega) high read same others

/-- and above. -/
theorem Searched.above (searched : Searched r conflictTerm left (mid - 1) last found)
    (high : mid - 1 ≤ right)
    (other : ∀ (q : Nat) (entry : Entry), r.log[q]? = some entry → mid ≤ q →
      entry.term ≠ conflictTerm) :
    Searched r conflictTerm left right last found := by
  cases searched with
  | absent unchanged others =>
      refine .absent unchanged ?_
      intro q entry atQ above below
      by_cases inUpper : mid ≤ q
      · exact other q entry atQ inUpper
      · exact others q entry atQ above (by omega)
  | last j entry isFound low highJ read same others =>
      refine .last j entry isFound low (by omega) read same ?_
      intro q e atQ above below
      by_cases inUpper : mid ≤ q
      · exact other q e atQ inUpper
      · exact others q e atQ above (by omega)

/-- The search goes on above an entry of the term, which is the last one if there is no
later one. -/
theorem Searched.later {m : Nat} {entry : Entry}
    (searched : Searched r conflictTerm (m + 1) right m found) (low : left ≤ m) (high : m ≤ right)
    (read : r.log[m]? = some entry) (same : entry.term = conflictTerm) :
    Searched r conflictTerm left right last found := by
  cases searched with
  | absent unchanged others =>
      refine .last m entry unchanged low high read same ?_
      intro q e atQ above below
      exact others q e atQ (by omega) below
  | last j e isFound lowJ highJ readJ sameJ others =>
      exact .last j e isFound (by omega) highJ readJ sameJ others

/-- **The binary search finds the last entry of the term** in a sorted log. -/
theorem lastOfTerm_spec (sorted : r.log.Pairwise fun a b => a.term ≤ b.term)
    {conflictTerm : Int} {fuel : Nat} {left right last found : Int} (low : 0 ≤ left)
    (enough : right - left + 1 ≤ fuel)
    (searched : r.lastOfTerm conflictTerm fuel left right last = some found) :
    Searched r conflictTerm left right last found := by
  induction fuel generalizing left right last with
  | zero =>
      cases searched
      exact .absent rfl fun q _ _ above below => by omega
  | succ fuel ih =>
      simp only [lastOfTerm] at searched
      split at searched
      · cases searched
        exact .absent rfl fun q _ _ above below => by omega
      rename_i inside
      simp only [Option.bind_eq_bind, Option.bind_eq_some_iff] at searched
      obtain ⟨entry, read, searched⟩ := searched
      obtain ⟨mid, isMid⟩ : ∃ mid : Nat, left + (right - left) / 2 = mid :=
        ⟨(left + (right - left) / 2).toNat, by omega⟩
      rw [isMid, readLog, if_neg (by omega), Int.toNat_natCast] at read
      rw [isMid] at searched
      split at searched
      · rename_i same
        exact (ih (by omega) (by omega) searched).later (by omega) (by omega) read same
      split at searched
      · rename_i differ smaller
        refine (ih (by omega) (by omega) searched).below (by omega) ?_
        intro q e atQ below
        have := key_le_of_sorted sorted (by omega) atQ read
        omega
      · rename_i differ notSmaller
        refine (ih low (by omega) searched).above (by omega) ?_
        intro q e atQ above
        have := key_le_of_sorted sorted (by omega) read atQ
        omega

/-! ## The leader's side of a reply -/

variable {r' : Raft} {call : AppendCall} {reply : AppendEntriesReply}

/-- In the leadership of the request the reply decides between backing up and advancing. -/
theorem handleAppendReply_current (fresh : r.replyCounter call.target ≤ call.currentReplyCounter)
    (role : r.currentRole = .leader) (term : call.req.term = r.currentTerm)
    (notNewer : reply.term ≤ r.currentTerm) :
    r.handleAppendReply config call reply =
      if reply.success = false then
        (r.setReplyCounter call.target call.currentReplyCounter).backUp call reply
      else (r.setReplyCounter call.target call.currentReplyCounter).advance config call := by
  have sameTerm : (r.setReplyCounter call.target call.currentReplyCounter).currentTerm =
      r.currentTerm := rfl
  have sameRole : (r.setReplyCounter call.target call.currentReplyCounter).currentRole =
      r.currentRole := rfl
  rw [handleAppendReply, if_neg (not_lt.mpr fresh)]
  simp only [sameTerm, sameRole, role, term]
  rw [if_neg (not_lt.mpr notNewer), if_neg (by simp)]

/-- What an acceptance is recorded as. -/
theorem indices_of_advance (advanced : r.advance config call = some r') :
    r'.nextIndex = setAt r.nextIndex call.target (lastLogIndexSent call + 1) ∧
      r'.matchIndex = setAt r.matchIndex call.target (lastLogIndexSent call) := by
  simp only [advance, Option.bind_eq_bind, Option.bind_eq_some_iff] at advanced
  obtain ⟨found, -, advanced⟩ := advanced
  split at advanced
  · obtain ⟨results, -, -, after⟩ := progress_applyEntries advanced
    exact ⟨congrArg Progress.nextIndex after, congrArg Progress.matchIndex after⟩
  · cases advanced
    exact ⟨rfl, rfl⟩

/-- Where a conflict report sends the leader, if nothing changed since the request. -/
theorem backUp_report {info : ConflictInfo} (sorted : r.log.Pairwise fun a b => a.term ≤ b.term)
    (sameNext : call.currentNextIndex = r.nextIndex call.target)
    (sameMatch : call.currentMatchIndex = r.matchIndex call.target)
    (none : r.matchIndex call.target = 0) (size : call.currentLogSize = r.log.length)
    (high : r.nextIndex call.target ≤ r.log.length + 1)
    (report : reply.conflictInfo = some info) (backed : r.backUp call reply = some r') :
    ∃ last, Searched r info.conflictTerm 0 (r.nextIndex call.target - 2) (-1) last ∧
      r' = r.setNextIndex call.target (if last ≠ -1 then last + 2 else info.conflictIndex) := by
  simp only [backUp, sameNext, sameMatch, ne_eq, not_true_eq_false, or_self, if_false, report,
    none, max_self, size] at backed
  rw [min_eq_right (by omega)] at backed
  simp only [Option.bind_eq_bind, Option.bind_eq_some_iff, Option.pure_def, Option.some.injEq]
    at backed
  obtain ⟨last, searched, same⟩ := backed
  exact ⟨last, lastOfTerm_spec sorted le_rfl (by omega) searched, same.symm⟩

/-! ## One round -/

/-- The leader builds a request for `p` from `nextIndex`, the follower answers it, and the
leader handles the answer.  Gives both nodes afterwards, the call and the answer. -/
def round (config : Config) (p : Nat) (pair : Raft × Raft) :
    Option ((Raft × Raft) × AppendCall × AppendEntriesReply) := do
  let call ← pair.1.appendCall config p
  let (follower, reply) ← pair.2.appendEntries call.req
  let leader ← pair.1.handleAppendReply config call reply
  return ((leader, follower), call, reply)

/-- A leader and a running follower in a term not above the leader's, with sorted logs
that match, and an index for the follower inside the leader's log. -/
structure Repairable (p : Nat) (leader follower : Raft) : Prop where
  role : leader.currentRole = .leader
  running : follower.active = true
  notOld : follower.currentTerm ≤ leader.currentTerm
  sortedLeader : leader.log.Pairwise fun a b => a.term ≤ b.term
  sortedFollower : follower.log.Pairwise fun a b => a.term ≤ b.term
  positive : ∀ entry ∈ leader.log, 1 ≤ entry.term
  matching : Matching Entry.term leader.log follower.log
  low : 1 ≤ leader.nextIndex p
  high : leader.nextIndex p ≤ leader.log.length + 1

variable {p : Nat} {leader follower : Raft}

/-- What the leader sends is the segment from `nextIndex` to the end of its log. -/
theorem Sends.carries (sends : Sends config leader p call) :
    call.req.Carries leader.log call.pos leader.log.length where
  le := sends.inside
  inside := le_rfl
  prevLogIndex := sends.prev
  prevLogTerm positive := by
    rcases sends.prevTerm with ⟨zero, -⟩ | ⟨entry, -, read, prevTerm⟩
    · omega
    · exact ⟨entry, read, prevTerm⟩
  entries := by rw [sends.entries, List.take_of_length_le (by simp)]

/-- **The check fails exactly above the common prefix.** -/
theorem prevMismatch_iff {prev m : Nat} (matching : Matching Entry.term leader.log follower.log)
    (carries : req.Carries leader.log prev m) :
    follower.prevMismatch req ↔ commonPrefix leader.log follower.log < prev := by
  have prevIndex := carries.prevLogIndex
  rcases Nat.eq_zero_or_pos prev with zero | positive
  · simp [prevMismatch, prevIndex, zero]
  obtain ⟨y, atY, prevTerm⟩ := carries.prevLogTerm positive
  have read := follower.readLog_pred (i := req.prevLogIndex) (by omega)
  rw [prevIndex, Int.toNat_natCast] at read
  rw [prevMismatch, prevIndex, read, prevTerm]
  constructor
  · intro mismatch
    by_contra inside
    obtain ⟨z, inLeader, inFollower⟩ :=
      getElem?_of_lt (show prev - 1 < commonPrefix leader.log follower.log by omega)
    rw [atY] at inLeader
    cases inLeader
    exact mismatch.2 y inFollower rfl
  · intro beyond
    refine ⟨by omega, ?_⟩
    intro x atX same
    have := (key_eq_iff matching atY atX).mp same.symm
    omega

/-- **Backing up goes down, and not below the common prefix.** -/
theorem backUp_outcome (ready : Repairable p leader follower) (none : leader.matchIndex p = 0)
    (sends : Sends config leader p call)
    (beyond : commonPrefix leader.log follower.log < call.pos) {info : ConflictInfo} {counter : Int}
    (conflict : follower.conflictInfo call.req = some info)
    (report : reply.conflictInfo = some info)
    (backed : (leader.setReplyCounter p counter).backUp call reply = some r') :
    ∃ value : Int, r' = (leader.setReplyCounter p counter).setNextIndex p value ∧ 1 ≤ value ∧
      value < leader.nextIndex p ∧
      (commonPrefix leader.log follower.log : Int) ≤ value - 1 := by
  have receiver := sends.receiver
  have inside := sends.inside
  have next : leader.nextIndex p = call.pos + 1 := sends.sameNext.symm.trans sends.next
  obtain ⟨last, searched, rfl⟩ := backUp_report (r := leader.setReplyCounter p counter)
    ready.sortedLeader (receiver ▸ sends.sameNext) (receiver ▸ sends.matched) (receiver ▸ none)
    sends.size (receiver ▸ ready.high) report backed
  have upTo : (leader.setReplyCounter p counter).nextIndex call.target - 2 = call.pos - 1 := by
    rw [receiver]
    change leader.nextIndex p - 2 = call.pos - 1
    omega
  rw [upTo] at searched
  rw [receiver]
  refine ⟨_, rfl, ?_⟩
  rcases conflictInfo_spec (by omega) sends.prev conflict with ⟨short, rfl⟩ |
    ⟨entry, s, read, le, rfl, stretch, -⟩
  · -- the follower's log is short, and the leader has no entry of term 0
    have bound : commonPrefix leader.log follower.log ≤ follower.log.length := commonPrefix_le_right
    simp only at searched ⊢
    cases searched with
    | absent unchanged other =>
        rw [unchanged, if_neg (by simp)]
        omega
    | last j e isFound low high readJ same other =>
        have := ready.positive e (List.mem_of_getElem? readJ)
        omega
  · simp only at searched ⊢
    cases searched with
    | last j e isFound low high readJ same other =>
        -- the terms at the position of the check differ
        have notThere : j ≠ call.pos - 1 := by
          rintro rfl
          have := (key_eq_iff ready.matching readJ read).mp same
          omega
        have bound := commonPrefix_le_last ready.sortedLeader ready.sortedFollower read (by omega)
          readJ same fun q e atQ above below => other q e atQ (by omega) (by omega)
        rw [isFound, if_pos (by omega)]
        omega
    | absent unchanged other =>
        have bound : commonPrefix leader.log follower.log ≤ s := commonPrefix_le_first le
          (fun q e atQ below => other q e atQ (by omega) (by omega)) stretch
        rw [unchanged, if_neg (by simp)]
        omega

/-- How a round ends. -/
inductive RoundOutcome (p : Nat) (leader follower leader' follower' : Raft) (call : AppendCall)
    (reply : AppendEntriesReply) : Prop
  | accepted (success : reply.success = true)
      (within : call.pos ≤ commonPrefix leader.log follower.log)
      (installed : leader.log <+: follower'.log)
      (matched : leader'.matchIndex p = leader.log.length)
      (next : leader'.nextIndex p = leader.log.length + 1)
  | refused (refusal : reply.success = false)
      (beyond : commonPrefix leader.log follower.log < call.pos)
      (log : follower'.log = follower.log) (matched : leader'.matchIndex p = 0)
      (low : 1 ≤ leader'.nextIndex p) (down : leader'.nextIndex p < leader.nextIndex p)
      (above : (commonPrefix leader.log follower.log : Int) ≤ leader'.nextIndex p - 1)

/-- The leader has no acceptance of the follower yet, or the follower holds its log. -/
def Open (p : Nat) (leader follower : Raft) : Prop :=
  leader.matchIndex p = 0 ∨
    leader.log <+: follower.log ∧ leader.nextIndex p = leader.log.length + 1

/-- The leader builds a request, and its handler reads inside the log. -/
theorem appendCall_of_ready (config : Config) (ready : Repairable p leader follower) :
    ∃ call, leader.appendCall config p = some call ∧ Sends config leader p call := by
  obtain ⟨call, built⟩ : ∃ call, leader.appendCall config p = some call := by
    rw [appendCall]
    simp only [if_pos (show 1 ≤ leader.nextIndex p ∧ leader.nextIndex p ≤ leader.log.length + 1 from
      ⟨ready.low, ready.high⟩)]
    exact ⟨_, rfl⟩
  exact ⟨call, built, sends_of_appendCall built⟩

/-- The answer of a running follower in a term not above the request's. -/
theorem answer_term {s : Raft} (running : r.active = true) (notOld : r.currentTerm ≤ req.term)
    (answered : r.appendEntries req = some (s, reply)) :
    reply.term = req.term ∧ s.active = true ∧ s.currentTerm = req.term := by
  by_cases success : reply.success = true
  · obtain ⟨-, -, term, followed⟩ := appendEntries_success answered success
    have core := core_accepted notOld followed
    exact ⟨term, (congrArg Core.active core).trans running, congrArg Core.currentTerm core⟩
  · rw [Bool.not_eq_true] at success
    rcases appendEntries_refused answered success with ⟨inactive | old, -⟩ |
      ⟨-, -, rfl, info, -, rfl⟩
    · simp [running] at inactive
    · omega
    · have core := r.core_acknowledge req notOld
      exact ⟨rfl, (congrArg Core.active core).trans running, congrArg Core.currentTerm core⟩

/-- A round that ends with an acceptance. -/
theorem outcome_accepted {leader' follower' : Raft} (ready : Repairable p leader follower)
    (sends : Sends config leader p call)
    (answered : follower.appendEntries call.req = some (follower', reply))
    (success : reply.success = true)
    (handled : (leader.setReplyCounter call.target call.currentReplyCounter).advance config call =
      some leader') :
    leader'.log = leader.log ∧ Repairable p leader' follower' ∧
      RoundOutcome p leader follower leader' follower' call reply := by
  have receiver := sends.receiver
  have carries := sends.carries
  have notOld : follower.currentTerm ≤ call.req.term := sends.term ▸ ready.notOld
  obtain ⟨-, running, term⟩ := answer_term ready.running notOld answered
  obtain ⟨-, consistent, -, -⟩ := appendEntries_success answered success
  have within : call.pos ≤ commonPrefix leader.log follower.log := by
    by_contra beyond
    exact consistent ((prevMismatch_iff ready.matching carries).mpr (not_le.mp beyond))
  have installed := prefix_of_segment ready.matching.symm carries answered success
  rw [List.take_length] at installed
  obtain ⟨next, matched⟩ := indices_of_advance handled
  have core : leader'.core = leader.core := (core_advance handled).trans rfl
  simp only [Raft.core, Core.mk.injEq] at core
  obtain ⟨-, sameTerm, -, role, -, log⟩ := core
  have nextP : leader'.nextIndex p = leader.log.length + 1 := by
    rw [next, setAt, if_pos receiver.symm, sends.lastLogIndexSent]
  have matchedP : leader'.matchIndex p = leader.log.length := by
    rw [matched, setAt, if_pos receiver.symm, sends.lastLogIndexSent]
  have sortedAfter : follower'.log.Pairwise fun a b => a.term ≤ b.term := by
    rcases log_of_segment ready.matching.symm carries answered with
      ⟨refused, -⟩ | ⟨-, -, same⟩ | ⟨-, -, same⟩
    · simp [success] at refused
    · rw [same]
      exact ready.sortedFollower
    · rw [same, List.take_length]
      exact ready.sortedLeader
  refine ⟨log, ?_, .accepted success within installed matchedP nextP⟩
  exact
    { role := role.trans ready.role
      running := running
      notOld := by rw [term, sends.term, sameTerm]
      sortedLeader := log ▸ ready.sortedLeader
      sortedFollower := sortedAfter
      positive := log ▸ ready.positive
      matching := log ▸ (matching_of_segment ready.matching.symm carries answered).symm
      low := by rw [nextP]; omega
      high := by rw [nextP, log] }

/-- A round that ends with a refusal. -/
theorem outcome_refused {leader' follower' : Raft} (ready : Repairable p leader follower)
    (isOpen : Open p leader follower) (sends : Sends config leader p call)
    (answered : follower.appendEntries call.req = some (follower', reply))
    (refusal : reply.success = false)
    (handled : (leader.setReplyCounter call.target call.currentReplyCounter).backUp call reply =
      some leader') :
    leader'.log = leader.log ∧ Repairable p leader' follower' ∧
      RoundOutcome p leader follower leader' follower' call reply := by
  have notOld : follower.currentTerm ≤ call.req.term := sends.term ▸ ready.notOld
  obtain ⟨-, running, term⟩ := answer_term ready.running notOld answered
  rcases appendEntries_refused answered refusal with ⟨inactive | old, -⟩ |
    ⟨-, failed, rfl, info, report, rfl⟩
  · simp [ready.running] at inactive
  · omega
  have beyond := (prevMismatch_iff ready.matching sends.carries).mp failed
  have inside := sends.inside
  have next : leader.nextIndex p = call.pos + 1 := sends.sameNext.symm.trans sends.next
  have none : leader.matchIndex p = 0 := by
    rcases isOpen with none | ⟨held, atEnd⟩
    · exact none
    · -- a follower that holds the leader's log accepts
      have whole := take_eq_of_prefix held
      have := le_commonPrefix le_rfl (List.take_length.trans whole.symm)
      omega
  have unchanged : (follower.acknowledge call.req).log = follower.log :=
    congrArg Core.log (follower.core_acknowledge call.req notOld)
  rw [sends.receiver] at handled
  obtain ⟨value, after, low, down, above⟩ :=
    backUp_outcome ready none sends beyond report rfl handled
  have sameLog : leader'.log = leader.log := by rw [after]; rfl
  have nextP : leader'.nextIndex p = value := by rw [after]; exact if_pos rfl
  have noneP : leader'.matchIndex p = 0 := by rw [after]; exact none
  refine ⟨sameLog, ?_, .refused rfl beyond unchanged noneP (nextP ▸ low) (nextP ▸ down)
    (nextP ▸ above)⟩
  exact
    { role := by rw [after]; exact ready.role
      running := running
      notOld := by rw [term, sends.term, after]; exact le_rfl
      sortedLeader := sameLog ▸ ready.sortedLeader
      sortedFollower := unchanged ▸ ready.sortedFollower
      positive := sameLog ▸ ready.positive
      matching := by rw [sameLog, unchanged]; exact ready.matching
      low := nextP ▸ low
      high := by rw [nextP, sameLog]; exact down.le.trans ready.high }

/-- **A round** ends with an acceptance from at or below the common prefix, or goes down
towards it. -/
theorem round_outcome (config : Config) (ready : Repairable p leader follower)
    (isOpen : Open p leader follower) :
    ∃ leader' follower' call reply,
      round config p (leader, follower) = some ((leader', follower'), call, reply) ∧
        Sends config leader p call ∧ leader'.log = leader.log ∧
        Repairable p leader' follower' ∧
        RoundOutcome p leader follower leader' follower' call reply := by
  obtain ⟨call, built, sends⟩ := appendCall_of_ready config ready
  have answered := follower.appendEntries_answer call.req
  obtain ⟨leader', handled⟩ := Option.isSome_iff_exists.mp
    (isSome_handleAppendReply config (follower.answer call.req).2 (sends.covers (.refl _)))
  generalize (follower.answer call.req).1 = follower' at answered handled
  generalize (follower.answer call.req).2 = reply at answered handled
  refine ⟨leader', follower', call, reply, ?_, sends, ?_⟩
  · simp only [round, built, answered, handled, Option.bind_eq_bind, Option.bind_some,
      Option.pure_def]
  have notOld : follower.currentTerm ≤ call.req.term := sends.term ▸ ready.notOld
  have replyTerm := (answer_term ready.running notOld answered).1
  have fresh : leader.replyCounter call.target ≤ call.currentReplyCounter := by
    rw [sends.counter, sends.receiver]
    omega
  rw [handleAppendReply_current fresh ready.role sends.term (replyTerm.trans sends.term).le]
    at handled
  by_cases success : reply.success = true
  · rw [if_neg (by simp [success])] at handled
    exact outcome_accepted ready sends answered success handled
  · rw [Bool.not_eq_true] at success
    rw [if_pos success] at handled
    exact outcome_refused ready isOpen sends answered success handled

/-! ## Round after round -/

/-- Both nodes after `k` rounds. -/
def rounds (config : Config) (p : Nat) : Nat → Raft × Raft → Option (Raft × Raft)
  | 0, pair => some pair
  | k + 1, pair => do
      let (after, _, _) ← round config p pair
      rounds config p k after

/-- Round `k` from `start`, counted from 0. -/
structure RoundAt (config : Config) (p : Nat) (start : Raft × Raft) (k : Nat)
    (before after : Raft × Raft) (call : AppendCall) (reply : AppendEntriesReply) : Prop where
  reached : rounds config p k start = some before
  ran : round config p before = some (after, call, reply)

theorem RoundAt.next {start middle before after : Raft × Raft} {k : Nat} {first : AppendCall}
    {answer : AppendEntriesReply} (ran : round config p start = some (middle, first, answer))
    (later : RoundAt config p middle k before after call reply) :
    RoundAt config p start (k + 1) before after call reply where
  reached := by
    simp only [rounds, ran, Option.bind_eq_bind, Option.bind_some]
    exact later.reached
  ran := later.ran

/-- After a round the leader has an acceptance, or has none as before. -/
theorem RoundOutcome.isOpen {leader' follower' : Raft}
    (outcome : RoundOutcome p leader follower leader' follower' call reply)
    (log : leader'.log = leader.log) : Open p leader' follower' := by
  cases outcome with
  | accepted success within installed matched next =>
      exact Or.inr ⟨log ▸ installed, log ▸ next⟩
  | refused refusal beyond sameLog matched low down above => exact Or.inl matched

/-- Every round runs, and a refusal lowers `nextIndex`. -/
theorem rounds_run (k : Nat) : ∀ {leader follower : Raft}, Repairable p leader follower →
    Open p leader follower → ∃ before after call reply,
      RoundAt config p (leader, follower) k before after call reply ∧
        (reply.success = false → 1 ≤ after.1.nextIndex p ∧
          after.1.nextIndex p < before.1.nextIndex p) := by
  induction k with
  | zero =>
      intro leader follower ready isOpen
      obtain ⟨leader', follower', call, reply, ran, -, -, -, outcome⟩ :=
        round_outcome config ready isOpen
      refine ⟨_, _, call, reply, ⟨rfl, ran⟩, ?_⟩
      intro refusal
      cases outcome with
      | accepted success => simp [refusal] at success
      | refused _ _ _ _ low down => exact ⟨low, down⟩
  | succ k ih =>
      intro leader follower ready isOpen
      obtain ⟨leader', follower', call, reply, ran, -, log, ready', outcome⟩ :=
        round_outcome config ready isOpen
      obtain ⟨before, after, call', reply', later, down⟩ := ih ready' (outcome.isOpen log)
      exact ⟨before, after, call', reply', later.next ran, down⟩

/-- The first accepted round, its number bounded by `nextIndex`. -/
theorem accepts_within (config : Config) (bound : Nat) : ∀ {leader follower : Raft},
    Repairable p leader follower → Open p leader follower → leader.nextIndex p ≤ bound →
      ∃ n : Nat, (n : Int) < leader.nextIndex p ∧
        (∀ k < n, ∃ before after call reply,
          RoundAt config p (leader, follower) k before after call reply ∧ reply.success = false) ∧
        ∃ before after call reply,
          RoundAt config p (leader, follower) n before after call reply ∧ reply.success = true ∧
            leader.log <+: after.2.log ∧ after.1.matchIndex p = leader.log.length ∧
            after.1.nextIndex p = leader.log.length + 1 ∧
            (0 < n ∨ (commonPrefix leader.log follower.log : Int) ≤ leader.nextIndex p - 1 →
              call.req.prevLogIndex = commonPrefix leader.log follower.log) := by
  induction bound with
  | zero =>
      intro leader follower ready _ le
      have := ready.low
      omega
  | succ bound ih =>
      intro leader follower ready isOpen le
      obtain ⟨leader', follower', call, reply, ran, sends, log, ready', outcome⟩ :=
        round_outcome config ready isOpen
      have stillOpen := outcome.isOpen log
      have next : leader.nextIndex p = call.pos + 1 := sends.sameNext.symm.trans sends.next
      have prev := sends.prev
      cases outcome with
      | accepted success within installed matched nextP =>
          refine ⟨0, by omega, fun k impossible => absurd impossible (Nat.not_lt_zero k),
            _, _, call, reply, ⟨rfl, ran⟩, success, installed, matched, nextP, ?_⟩
          intro atLeast
          omega
      | refused refusal beyond sameLog matched low down above =>
          obtain ⟨n, lt, earlier, before, after, call', reply', last, success, installed,
            matched', nextP, exactly⟩ := ih ready' stillOpen (by omega)
          rw [log, sameLog] at exactly
          rw [log] at installed matched' nextP
          refine ⟨n + 1, by push_cast; omega, ?_, before, after, call', reply', last.next ran,
            success, installed, matched', nextP, fun _ => exactly (Or.inr above)⟩
          intro k inside
          cases k with
          | zero => exact ⟨_, _, call, reply, ⟨rfl, ran⟩, refusal⟩
          | succ k =>
              obtain ⟨before, after, call, reply, at_k, refusal⟩ := earlier k (by omega)
              exact ⟨before, after, call, reply, at_k.next ran, refusal⟩

/-- **Log repair converges.**  The leader has no acceptance of the follower yet, and the two
do nothing but round after round.  Every refusal lowers `nextIndex`, to 1 at the least;
of the first `nextIndex` rounds one is accepted; then the follower holds the leader's log, the
leader knows it, and if there was a refusal before, the accepted request started
exactly at the end of the common prefix. -/
theorem repair_converges (config : Config) (p : Nat) (leader follower : Raft)
    (ready : Repairable p leader follower) (none : leader.matchIndex p = 0) :
    (∀ k, ∃ before after call reply,
      RoundAt config p (leader, follower) k before after call reply ∧
        (reply.success = false → 1 ≤ after.1.nextIndex p ∧
          after.1.nextIndex p < before.1.nextIndex p)) ∧
    ∃ n : Nat, (n : Int) < leader.nextIndex p ∧
      (∀ k < n, ∃ before after call reply,
        RoundAt config p (leader, follower) k before after call reply ∧ reply.success = false) ∧
      ∃ before after call reply,
        RoundAt config p (leader, follower) n before after call reply ∧ reply.success = true ∧
          leader.log <+: after.2.log ∧ after.1.matchIndex p = leader.log.length ∧
          after.1.nextIndex p = leader.log.length + 1 ∧
          (0 < n → call.req.prevLogIndex = commonPrefix leader.log follower.log) := by
  constructor
  · intro k
    exact rounds_run k ready (Or.inl none)
  · obtain ⟨n, lt, earlier, before, after, call, reply, last, success, installed, matched, next,
      exactly⟩ := accepts_within config (leader.nextIndex p).toNat ready (Or.inl none)
        (by omega)
    exact ⟨n, lt, earlier, before, after, call, reply, last, success, installed, matched, next,
      fun positive => exactly (Or.inl positive)⟩

/-- A leader of term 3 that knows nothing of node 2, and node 2, whose second entry is of
term 2. -/
theorem repair_converges_of_fork :
    ∃ leader follower : Raft, leader.log = [⟨1, "a"⟩, ⟨3, "b"⟩, ⟨3, "c"⟩] ∧
      follower.log = [⟨1, "a"⟩, ⟨2, "x"⟩] ∧
      ∃ n before after call reply, RoundAt ⟨1, [2]⟩ 2 (leader, follower) n before after call reply ∧
        reply.success = true ∧ after.1.matchIndex 2 = 3 := by
  let leader : Raft := { Raft.new .leader with
    currentTerm := 3, log := [⟨1, "a"⟩, ⟨3, "b"⟩, ⟨3, "c"⟩], nextIndex := fun _ => 4 }
  let follower : Raft := listening [⟨1, "a"⟩, ⟨2, "x"⟩]
  have ready : Repairable 2 leader follower :=
    { role := rfl
      running := rfl
      notOld := by decide
      sortedLeader := by decide
      sortedFollower := by decide
      positive := by decide
      matching := .of_checked (by decide)
      low := by decide
      high := by decide }
  obtain ⟨n, -, -, before, after, call, reply, last, success, -, matched, -⟩ :=
    (repair_converges ⟨1, [2]⟩ 2 leader follower ready rfl).2
  exact ⟨leader, follower, rfl, rfl, n, before, after, call, reply, last, success, matched⟩

end Raft

end Rafty
