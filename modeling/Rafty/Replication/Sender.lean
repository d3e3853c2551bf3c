/-
# Rafty.Replication.Sender — does a sending thread read inside the log?

The per-peer thread of `send_entries` reads the log from `nextIndex` on, without a look
at the role.  While the node leads, `nextIndex` lies inside its log.  When it has
stepped down, `nextIndex` stays as it is, but requests of other leaders may cut the
log.

Whether the log still reaches up to `nextIndex` is a matter of its length only
(`InRange`).  A request that conflicts below leaves the log as long as the request reaches;
any other leaves it as long as the longer of the two.  So the thread reads inside
the log exactly if after the last cut some request reached far enough
(`sender_in_range`).
-/
import Rafty.Replication.Indices

namespace Rafty

set_option autoImplicit false

open Theory

namespace Raft

variable {config : Config} {r r' : Raft} {call : AppendCall} {reply : AppendEntriesReply}

/-- The number of entries before `nextIndex`. -/
def sentBefore (r : Raft) (target : Nat) : Nat := (r.nextIndex target - 1).toNat

/-- Only a leader moves `nextIndex`, and it stays leader. -/
theorem nextIndex_of_handled (handled : r.handleAppendReply config call reply = some r') :
    r'.currentRole = r.currentRole ∨ r'.nextIndex = r.nextIndex := by
  simp only [handleAppendReply] at handled
  split at handled
  · cases handled
    exact Or.inl rfl
  split at handled
  · cases handled
    exact Or.inr (congrArg Progress.nextIndex (progress_stepDown _))
  split at handled
  · cases handled
    exact Or.inl rfl
  split at handled
  · exact Or.inl (congrArg Core.currentRole (core_backUp handled))
  · exact Or.inl (congrArg Core.currentRole (core_advance handled))

end Raft

namespace ClusterRun

variable {cl : Cluster} {R : ClusterRun cl} {i k a target : Nat} {call call' : AppendCall}

/-! ## Requests taken in -/

/-- At step `k` node `a` takes `call` in. -/
structure Took (R : ClusterRun cl) (k a : Nat) (call : AppendCall) : Prop where
  ran : ∃ output, R.Ran k a (.appendEntries call) output
  takesIn : (R.node k a).TakesIn call.req

theorem Took.unique (first : R.Took k a call) (second : R.Took k a call') : call = call' := by
  obtain ⟨_, ran⟩ := first.ran
  obtain ⟨_, ran'⟩ := second.ran
  have same := ran.action.symm.trans ran'.action
  simpa using same

theorem Took.nonneg (took : R.Took k a call) : 0 ≤ call.req.prevLogIndex := by
  obtain ⟨_, ran⟩ := took.ran
  obtain ⟨j, -, sent⟩ := sent_of_request ran.within.le ran.delivered.1
  have prev := sent.sends.prev
  omega

theorem Took.log (took : R.Took k a call) :
    (R.node (k + 1) a).log = ((R.node k a).writeEntries call.req).log := by
  obtain ⟨_, ran⟩ := took.ran
  have stepped := ran.stepped
  simp only [Raft.step, Option.bind_eq_bind, Option.bind_eq_some_iff] at stepped
  obtain ⟨⟨s, reply⟩, answered, same⟩ := stepped
  cases same
  exact Raft.log_of_takesIn took.takesIn answered

/-- A step that takes nothing in leaves the log of a node that does not lead after it. -/
theorem log_of_untaken (within : k < R.length) (untaken : ∀ call, ¬ R.Took k a call)
    (role : (R.node (k + 1) a).currentRole ≠ .leader) :
    (R.node (k + 1) a).log = (R.node k a).log := by
  rcases node_cases within a with same | ⟨input, output, ran⟩
  · rw [same]
  cases ran.change with
  | @write call _ notOld consistent same =>
      cases running : (R.node k a).active with
      | true => exact absurd ⟨⟨output, ran⟩, running, notOld, consistent⟩ (untaken call)
      | false =>
          have stepped := ran.stepped
          simp only [Raft.step, Raft.appendEntries_inactive running, Option.bind_eq_bind,
            Option.bind_some, Option.pure_def, Option.some.injEq, Prod.mk.injEq] at stepped
          rw [← stepped.1]
  | append data _ before same =>
      exact absurd ((congrArg Raft.Core.currentRole same).trans before) role
  | still same | run same | candidacy same | higher _ _ same | grant _ _ _ same
    | count _ _ _ same | elect _ same | refuse _ same => exact congrArg Raft.Core.log same

/-! ## The length of the log since the last leadership -/

/-- Since step `i`, and up to state `k`, node `a` was not leader. -/
def OutOfOffice (R : ClusterRun cl) (i k a : Nat) : Prop :=
  ∀ m, i < m → m ≤ k → (R.node m a).currentRole ≠ .leader

/-- Every request that cut the log of `a` among its first `n` entries, since it was last
leader, was made up for: it, or one taken in later, reached up to `n`. -/
def Restored (R : ClusterRun cl) (k a n : Nat) : Prop :=
  ∀ i call, i < k → R.OutOfOffice i k a → R.Took i a call → (R.node i a).Conflicts call.req n →
    ∃ m later, i ≤ m ∧ m < k ∧ R.Took m a later ∧ n ≤ later.req.reach

theorem restored_of_leader (role : (R.node k a).currentRole = .leader) (n : Nat) :
    R.Restored k a n := by
  intro i call lt out
  exact absurd role (out k lt le_rfl)

/-- A step that takes nothing in. -/
theorem restored_of_untaken {n : Nat} (untaken : ∀ call, ¬ R.Took k a call)
    (role : (R.node (k + 1) a).currentRole ≠ .leader) :
    R.Restored (k + 1) a n ↔ R.Restored k a n := by
  constructor
  · intro restored i call lt out took conflict
    have out' : R.OutOfOffice i (k + 1) a := by
      intro m above below
      rcases Nat.lt_or_eq_of_le below with before | rfl
      · exact out m above (by omega)
      · exact role
    obtain ⟨m, later, le, within, tookLater, reaches⟩ :=
      restored i call (by omega) out' took conflict
    have notLast : m ≠ k := fun same => untaken later (same ▸ tookLater)
    exact ⟨m, later, le, by omega, tookLater, reaches⟩
  · intro restored i call lt out took conflict
    have notLast : i ≠ k := fun same => untaken call (same ▸ took)
    obtain ⟨m, later, le, within, tookLater, reaches⟩ := restored i call (by omega)
      (fun m above below => out m above (by omega)) took conflict
    exact ⟨m, later, le, by omega, tookLater, reaches⟩

/-- A step that takes `call` in. -/
theorem restored_of_took {n : Nat} (took : R.Took k a call)
    (role : (R.node (k + 1) a).currentRole ≠ .leader) :
    R.Restored (k + 1) a n ↔
      n ≤ call.req.reach ∨ ¬ (R.node k a).Conflicts call.req n ∧ R.Restored k a n := by
  constructor
  · intro restored
    by_cases reaches : n ≤ call.req.reach
    · exact Or.inl reaches
    -- then `call` makes up for nothing
    have notLast : ∀ {m later}, R.Took m a later → n ≤ later.req.reach → m ≠ k := by
      rintro m later tookLater far rfl
      exact reaches (tookLater.unique took ▸ far)
    refine Or.inr ⟨?_, ?_⟩
    · intro conflict
      have out : R.OutOfOffice k (k + 1) a := by
        intro m above below
        rw [show m = k + 1 by omega]
        exact role
      obtain ⟨m, later, le, within, tookLater, far⟩ :=
        restored k call (Nat.lt_succ_self k) out took conflict
      have := notLast tookLater far
      omega
    · intro i other lt out tookOther conflict
      have out' : R.OutOfOffice i (k + 1) a := by
        intro m above below
        rcases Nat.lt_or_eq_of_le below with before | rfl
        · exact out m above (by omega)
        · exact role
      obtain ⟨m, later, le, within, tookLater, far⟩ :=
        restored i other (by omega) out' tookOther conflict
      have := notLast tookLater far
      exact ⟨m, later, le, by omega, tookLater, far⟩
  · rintro (reaches | ⟨noConflict, restored⟩) i other lt out tookOther conflict
    · exact ⟨k, call, by omega, Nat.lt_succ_self k, took, reaches⟩
    · have notLast : i ≠ k := by
        rintro rfl
        exact noConflict (tookOther.unique took ▸ conflict)
      obtain ⟨m, later, le, within, tookLater, far⟩ := restored i other (by omega)
        (fun m above below => out m above (by omega)) tookOther conflict
      exact ⟨m, later, le, by omega, tookLater, far⟩

/-- **The length of the log** after a step that leaves the node out of office. -/
theorem length_iff_restored {n : Nat} (within : k < R.length)
    (role : (R.node (k + 1) a).currentRole ≠ .leader)
    (before : n ≤ (R.node k a).log.length ↔ R.Restored k a n) :
    n ≤ (R.node (k + 1) a).log.length ↔ R.Restored (k + 1) a n := by
  by_cases taken : ∃ call, R.Took k a call
  · obtain ⟨call, took⟩ := taken
    have nonneg := took.nonneg
    rw [restored_of_took took role, ← before, took.log]
    by_cases conflict : (R.node k a).Conflicts call.req n
    · rw [Raft.length_of_conflict conflict nonneg]
      simp [conflict]
    · obtain ⟨reached, bound⟩ := Raft.length_writeEntries took.takesIn.2.2 nonneg
      have kept := (Raft.writeEntries_keeps took.takesIn.2.2 conflict).length_le
      rw [List.length_take] at kept
      simp only [conflict, not_false_eq_true, true_and]
      omega
  · rw [not_exists] at taken
    rw [restored_of_untaken taken role, log_of_untaken within taken role, before]

/-! ## The sending thread -/

/-- `nextIndex` stays when the node does not lead afterwards. -/
theorem nextIndex_kept (within : k < R.length)
    (role : (R.node (k + 1) a).currentRole ≠ .leader) :
    (R.node (k + 1) a).nextIndex = (R.node k a).nextIndex := by
  rcases node_cases within a with same | ⟨input, output, ran⟩
  · rw [same]
  cases Raft.step_advance ran.stepped with
  | still same | record same => exact congrArg Raft.Progress.nextIndex same
  | follow _ _ _ _ _ _ _ same => exact congrArg Raft.Progress.nextIndex same
  | elect wins _ =>
      rw [node_of_wins ran wins] at role
      exact absurd rfl role
  | backUp _ before _ _ =>
      rcases Raft.nextIndex_of_handled (Raft.step_appendReply ran.stepped) with stays | same
      · exact absurd (stays.trans before) role
      · exact same
  | acknowledge _ _ _ before _ _ core =>
      exact absurd ((congrArg Raft.Core.currentRole core).trans before) role

/-- A sending thread goes back to a leadership. -/
theorem led_of_sending (bound : k ≤ R.length)
    (pending : .sendEntriesTo target ∈ (R.node k a).threads) :
    target ∈ (cl.config a).peers ∧ ∃ j, j < k ∧ (R.node j a).active = true ∧
      (R.node j a).currentRole = .leader := by
  obtain ⟨i, _, _, ik, ran, spawned⟩ := thread_spawned bound pending
  cases spawned with
  | sendEntriesTo peer =>
      obtain ⟨j, _, _, ji, armed, spawned⟩ := thread_spawned ran.within.le (ran.pending rfl)
      cases spawned with
      | sendEntries role =>
          exact ⟨peer, j, by omega, active_of_thread armed.within.le (armed.pending rfl), role⟩

/-- Once a node has led, its `nextIndex` lies inside its log exactly if what was cut is
restored. -/
theorem inRange_of_led (bound : k ≤ R.length) (peer : target ∈ (cl.config a).peers)
    (led : ∃ j, j ≤ k ∧ (R.node j a).active = true ∧ (R.node j a).currentRole = .leader) :
    1 ≤ (R.node k a).nextIndex target ∧
      ((R.node k a).sentBefore target ≤ (R.node k a).log.length ↔
        R.Restored k a ((R.node k a).sentBefore target)) := by
  -- a leader is in range, and nothing was cut since it led
  have leading : ∀ k, k ≤ R.length → (R.node k a).active = true →
      (R.node k a).currentRole = .leader → 1 ≤ (R.node k a).nextIndex target ∧
        ((R.node k a).sentBefore target ≤ (R.node k a).log.length ↔
          R.Restored k a ((R.node k a).sentBefore target)) := by
    intro k bound running role
    have bounds := bounds_of_leads ⟨bound, running, role, rfl⟩ peer
    have low := bounds.low
    have high := bounds.high
    refine ⟨low, iff_of_true ?_ (restored_of_leader role _)⟩
    rw [Raft.sentBefore]
    omega
  revert led
  apply R.invariant (P := fun k => (∃ j, j ≤ k ∧ (R.node j a).active = true ∧
    (R.node j a).currentRole = .leader) → 1 ≤ (R.node k a).nextIndex target ∧
      ((R.node k a).sentBefore target ≤ (R.node k a).log.length ↔
        R.Restored k a ((R.node k a).sentBefore target))) ?_ ?_ k bound
  · rintro ⟨j, le, running, role⟩
    rw [Nat.le_zero.mp le] at running role
    exact leading 0 (Nat.zero_le _) running role
  · rintro k within ih ⟨j, le, running, role⟩
    by_cases leads : (R.node (k + 1) a).currentRole = .leader
    · exact leading (k + 1) within ((tenure (R := R) le within a).active running) leads
    · have earlier : j ≤ k := by
        by_contra last
        rw [show j = k + 1 by omega] at role
        exact leads role
      obtain ⟨low, before⟩ := ih ⟨j, earlier, running, role⟩
      have next := nextIndex_kept within leads
      have same : (R.node (k + 1) a).sentBefore target = (R.node k a).sentBefore target := by
        rw [Raft.sentBefore, Raft.sentBefore, next]
      rw [next, same]
      exact ⟨low, length_iff_restored within leads before⟩

/-- **When a sender reads inside the log.**  A per-peer thread that builds its request finds
`nextIndex` between 1 and `log.size() + 1` exactly if every request that cut the log below
`nextIndex` since the node was last leader was made up for by one that reached as far. -/
theorem sender_in_range (R : ClusterRun cl) :
    ∀ k a target output, R.Ran k a (.sendEntriesTo target) output →
      ((1 ≤ (R.node k a).nextIndex target ∧
          (R.node k a).nextIndex target ≤ (R.node k a).log.length + 1) ↔
        R.Restored k a ((R.node k a).sentBefore target)) := by
  intro k a target output ran
  obtain ⟨peer, j, lt, led⟩ := led_of_sending ran.within.le (ran.pending rfl)
  obtain ⟨low, length⟩ := inRange_of_led ran.within.le peer ⟨j, lt.le, led⟩
  rw [← length, Raft.sentBefore]
  omega

theorem sender_in_range_of_commit :
    ∃ R : ClusterRun (.ofSize 3 (by decide)), (R.input 14) = ⟨1, .sendEntriesTo 2⟩ ∧
      (R.node 14 1).nextIndex 2 ≤ (R.node 14 1).log.length + 1 := by
  let R : ClusterRun (.ofSize 3 (by decide)) := .of _ oneCommit oneCommit_accepted
  have action : R.input 14 = ⟨1, .sendEntriesTo 2⟩ := rfl
  obtain ⟨output, ran⟩ := ran_of_action (R := R) (by decide) action
  have leads : (R.node 14 1).currentRole = .leader := by decide +kernel
  exact ⟨R, action, ((sender_in_range R 14 1 2 output ran).mpr (restored_of_leader leads _)).2⟩

/-- The vote request of node 1 for term 3, with two entries of term 1. -/
def secondBallot : VoteCall where
  caller := 1
  target := 3
  electionTerm := 3
  req := { term := 3, candidateId := 1, lastLogIndex := 2, lastLogTerm := 1 }

/-- Leader 1 of term 1 appends `x` and `y`, gives way to the candidate 2 of term 2, and is
elected again in term 3, with `nextIndex` 3.  Its heartbeat spawns the threads for its
peers.  Then 3 is elected in term 4, its request replaces `x` and `y` by `z`, and the
thread of 1 for 2 gets the lock. -/
def cutWhileSending : List Action :=
  oneElection ++ [⟨1, .propose "x"⟩, ⟨1, .propose "y"⟩] ++
    [⟨2, .startElectionTimer⟩, ⟨2, .timerExpired 1 .election⟩, ⟨2, .becomeCandidate⟩,
      ⟨2, .requestVotes⟩, ⟨2, .requestVote 1 2⟩, ⟨1, .replyVote (ballot 2 1 2)⟩] ++
    [⟨1, .startElectionTimer⟩, ⟨1, .timerExpired 2 .election⟩, ⟨1, .becomeCandidate⟩,
      ⟨1, .requestVotes⟩, ⟨1, .requestVote 3 3⟩, ⟨3, .replyVote secondBallot⟩,
      ⟨1, .voteReply secondBallot { term := 3, voteGranted := true }⟩] ++
    heartbeat 1 3 ++ campaign 3 2 1 4 ++ [⟨3, .propose "z"⟩] ++ heartbeat 3 2 ++
    [⟨3, .sendEntriesTo 1⟩, ⟨1, .appendEntries (wholeLog 3 1 4 [⟨4, "z"⟩] 0 1)⟩,
      ⟨1, .sendEntriesTo 2⟩]

theorem sender_in_range_refuted :
    ¬ ∀ (cl : Cluster) (R : ClusterRun cl) (k a target : Nat) (output : Output),
      R.Ran k a (.sendEntriesTo target) output →
        1 ≤ (R.node k a).nextIndex target ∧
          (R.node k a).nextIndex target ≤ (R.node k a).log.length + 1 := by
  intro inRange
  let R : ClusterRun (.ofSize 3 (by decide)) := .of _ cutWhileSending (by decide +kernel)
  obtain ⟨output, ran⟩ := ran_of_action (R := R) (by decide)
    (show R.input 41 = ⟨1, .sendEntriesTo 2⟩ from rfl)
  have next : (R.node 41 1).nextIndex 2 = 3 := by decide +kernel
  have log : (R.node 41 1).log = [⟨4, "z"⟩] := by decide +kernel
  have high := (inRange _ R 41 1 2 output ran).2
  rw [next, log] at high
  exact absurd high (by decide)

end ClusterRun

end Rafty
