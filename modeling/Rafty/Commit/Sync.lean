/-
# Rafty.Commit.Sync — what propose_sync returns

A blocked call waits on the entry it appended.  The entry stays at its index as long
as no request that the node accepts conflicts with the log there or below (`KeptFor`,
`awaits`), and then the call returns its own committed entry (`sync_proposal`).  But a
caller that was overtaken, its entry erased and replaced by another leader's, looks at
`commitIndex` only, and returns success all the same (`sync_proposal_refuted`).
-/
import Rafty.Commit.Safety
import Rafty.Kernel.Waiters
import Rafty.Replication.Delivery

namespace Rafty

set_option autoImplicit false

open Theory

namespace Raft

variable {config : Config} {r r' : Raft}

/-- The entry the call waits on is in the log, at the index it will return. -/
structure Awaits (r : Raft) (call : SyncCall) : Prop where
  res : call.res = { index := call.proposalIndex, term := call.res.term, isLeader := true }
  positive : 1 ≤ call.proposalIndex
  entry : r.log[call.proposalIndex - 1]? = some ⟨call.res.term, call.data⟩

/-- It is still there if the log keeps its first entries. -/
theorem Awaits.keep {call : SyncCall} (awaits : r.Awaits call)
    (kept : r.log.take call.proposalIndex <+: r'.log) : r'.Awaits call where
  res := awaits.res
  positive := awaits.positive
  entry := by
    have positive := awaits.positive
    apply getElem?_extend kept
    rw [List.getElem?_take_of_lt (by omega), awaits.entry]

/-- A call begins to wait on what it appends. -/
theorem awaits_syncCall {data : String}
    (log : r'.log = r.log ++ [r.proposed data]) : r'.Awaits (r.syncCall data) where
  res := rfl
  positive := Nat.le_add_left 1 _
  entry := by
    rw [log]
    simp [syncCall, accepted, proposed]

end Raft

namespace ClusterRun

variable {cl : Cluster} {R : ClusterRun cl} {k a : Nat} {data : String} {res : ProposalResult}

/-- While the call `w` is blocked on `a`, before state `k`, no request that `a` takes in
conflicts with its log up to the index of the call. -/
def KeptFor (R : ClusterRun cl) (k a : Nat) (w : SyncCall) : Prop :=
  ∀ j call output, j < k → R.Ran j a (.appendEntries call) output →
    (R.node j a).TakesIn call.req → w.known ∈ (R.node j a).calls →
      ¬ (R.node j a).Conflicts call.req w.proposalIndex

/-- That is so for every call that wakes and finds its index committed. -/
def AwaitedKept (R : ClusterRun cl) : Prop :=
  ∀ k a w output, R.Ran k a (.wakeSync w) output →
    w.proposalIndex ≤ (R.node k a).commitIndex → R.KeptFor k a w

/-- Without a conflict a node keeps its log up to the index of a call. -/
theorem keeps_awaited {w : SyncCall} {input : Input} {output : Output}
    (ran : R.Ran k a input output) (noConflict : ∀ call, input = .appendEntries call →
      (R.node k a).TakesIn call.req → ¬ (R.node k a).Conflicts call.req w.proposalIndex) :
    (R.node k a).log.take w.proposalIndex <+: (R.node (k + 1) a).log := by
  have same_or : (R.node (k + 1) a).log = (R.node k a).log →
      (R.node k a).log.take w.proposalIndex <+: (R.node (k + 1) a).log := by
    intro same
    rw [same]
    exact List.take_prefix _ _
  cases ran.change with
  | append data _ _ same =>
      rw [log_of_proposed same]
      exact (List.take_prefix _ _).trans (List.prefix_append _ _)
  | write notOld consistent same =>
      by_cases running : (R.node k a).active = true
      · have log := congrArg Raft.Core.log same
        simp only [Raft.core] at log
        rw [log]
        apply Raft.writeEntries_keeps consistent
        exact noConflict _ rfl ⟨running, notOld, consistent⟩
      · have stepped := ran.stepped
        simp only [Raft.step, Raft.appendEntries_inactive (by simpa using running),
          Option.bind_eq_bind, Option.bind_some, Option.pure_def, Option.some.injEq,
          Prod.mk.injEq] at stepped
        rw [← stepped.1]
        exact List.take_prefix _ _
  | still same | run same | candidacy same | higher _ _ same | grant _ _ _ same
    | count _ _ _ same | elect _ same | refuse _ same => exact same_or (congrArg Raft.Core.log same)

/-- **A blocked call waits on its own entry**, if the entry is kept for it. -/
theorem awaits {w : SyncCall} (kept : R.KeptFor k a w) (bound : k ≤ R.length)
    (blocked : w.known ∈ (R.node k a).calls) : (R.node k a).Awaits w.known := by
  revert kept blocked
  apply R.invariant (P := fun k => R.KeptFor k a w → w.known ∈ (R.node k a).calls →
    (R.node k a).Awaits w.known) ?_ ?_ k bound
  · intro _ blocked
    obtain ⟨role, isNew⟩ := R.start_node a
    simp [isNew, Raft.calls, Raft.new] at blocked
  · intro k within ih kept blocked
    have keptBefore : R.KeptFor k a w := by
      intro j call output lt
      exact kept j call output (by omega)
    rcases node_cases within a with same | ⟨input, output, ran⟩
    · rw [same] at blocked ⊢
      exact ih keptBefore blocked
    · rcases Raft.step_calls ran.stepped blocked with old | ⟨data, isSync, role, isNew⟩
      · apply (ih keptBefore old).keep
        apply keeps_awaited ran
        rintro call rfl takesIn
        exact kept k call output (Nat.lt_succ_self k) ran takesIn old
      · have core := Raft.core_of_proposal (Or.inr isSync) role ran.stepped
        rw [isNew]
        exact Raft.awaits_syncCall (log_of_proposed core)

/-- At step `k` a call of `propose_sync(data)` on node `a` returns `res`. -/
def Returns (R : ClusterRun cl) (k a : Nat) (data : String) (res : ProposalResult) : Prop :=
  R.Ran k a (.proposeSync data) (.proposal res) ∨
    ∃ call, call.data = data ∧ R.Ran k a (.wakeSync call) (.proposal res)

/-- **Synchronous proposals.**  If for no call that wakes to find its index committed the
node took in, while it was blocked, a request that conflicts with the log up to that
index, then a call that returns with `isLeader` has its own entry committed there. -/
theorem sync_proposal (R : ClusterRun cl) (keeps : R.AwaitedKept) :
    ∀ k a data res, R.Returns k a data res → res.isLeader = true →
      1 ≤ res.index ∧ res.index ≤ (R.node (k + 1) a).commitIndex ∧
        (R.node (k + 1) a).log[res.index - 1]? = some ⟨res.term, data⟩ := by
  rintro k a data res (ran | ⟨call, rfl, ran⟩) success
  · have stepped := ran.stepped
    simp only [Raft.step, Option.some.injEq, Prod.mk.injEq] at stepped
    obtain ⟨after, answer⟩ := stepped
    obtain ⟨role, rfl, reached⟩ :=
      Raft.proposeSync_success (Raft.ofResult_eq_proposal answer) success
    have core := Raft.core_of_proposal (Or.inr rfl) role ran.stepped
    have waits := Raft.awaits_syncCall (log_of_proposed core)
    have commit := congrArg Raft.Progress.commitIndex ((R.node k a).progress_proposeSync data)
    rw [after] at commit
    simp only [Raft.progress] at commit
    exact ⟨waits.positive, commit ▸ reached, waits.entry⟩
  · have stepped := ran.stepped
    simp only [Raft.step] at stepped
    split at stepped
    · rename_i blocked
      simp only [Option.some.injEq, Prod.mk.injEq] at stepped
      obtain ⟨after, answer⟩ := stepped
      obtain ⟨rfl, reached⟩ := Raft.wakeSync_success (Raft.ofResult_eq_proposal answer) success
      have waits := awaits (keeps k a call _ ran reached) ran.within.le
        (List.mem_map_of_mem blocked)
      have log := congrArg Raft.Core.log (Raft.core_wakeSync (r := R.node k a) call)
      have commit := congrArg Raft.Progress.commitIndex ((R.node k a).progress_wakeSync call)
      rw [after] at log commit
      simp only [Raft.core, Raft.progress] at log commit
      have index : call.res.index = call.proposalIndex := congrArg ProposalResult.index waits.res
      rw [index, log, commit]
      exact ⟨waits.positive, reached, waits.entry⟩
    · cases stepped

/-- A waking caller that has a result returns it. -/
theorem returns_of_wake {call : SyncCall} (within : k < R.length)
    (action : R.input k = ⟨a, .wakeSync call⟩)
    (answer : ((R.node k a).wakeSync call).2 = some res) : R.Returns k a call.data res := by
  obtain ⟨output, ran⟩ := ran_of_action within action
  have stepped := ran.stepped
  simp only [Raft.step] at stepped
  split at stepped
  · simp only [answer, Output.ofResult, Option.some.injEq, Prod.mk.injEq] at stepped
    exact Or.inr ⟨call, rfl, stepped.2 ▸ ran⟩
  · cases stepped

/-- The call that waits for `x` at index 1 of leader 1 of term 1, notified. -/
def waitsForX : SyncCall where
  cv := 0
  proposalIndex := 1
  res := { index := 1, term := 1, isLeader := true }
  data := "x"
  notified := true

/-- Leader 1 proposes `x`, replicates it to 2, and the caller wakes. -/
def syncCommit : List Action :=
  oneElection ++ [⟨1, .proposeSync "x"⟩] ++ heartbeat 1 2 ++
    [⟨1, .sendEntriesTo 2⟩, ⟨2, .appendEntries (wholeLog 1 2 1 [⟨1, "x"⟩] 0 1)⟩,
      ⟨1, .appendReply (wholeLog 1 2 1 [⟨1, "x"⟩] 0 1) { term := 1, success := true }⟩,
      ⟨1, .wakeSync waitsForX⟩]

theorem sync_proposal_of_commit :
    ∃ R : ClusterRun (.ofSize 3 (by decide)),
      R.Returns 17 1 "x" { index := 1, term := 1, isLeader := true } ∧
        (R.node 18 1).log[0]? = some ⟨1, "x"⟩ := by
  let R : ClusterRun (.ofSize 3 (by decide)) := .of _ syncCommit (by decide +kernel)
  have toTwo : ∀ k < 18, (∀ call ∈ (R.state k).appendRequests, call.target = 2) ∧
      (R.node k 2).waiters = [] := by decide +kernel
  have keeps : R.AwaitedKept := by
    intro k a w _ _ _ j call output _ ran _ blocked
    obtain ⟨target, free⟩ := toTwo j ran.within
    obtain ⟨member, isA⟩ := ran.delivered
    rw [← isA, target call member, Raft.calls, free] at blocked
    cases blocked
  have returns : R.Returns 17 1 waitsForX.data { index := 1, term := 1, isLeader := true } :=
    returns_of_wake (by decide) rfl (by decide +kernel)
  exact ⟨R, returns, (sync_proposal R keeps 17 1 "x" _ returns rfl).2.2⟩

/-- The caller waits for `x` at leader 1 of term 1.  Leader 2 of term 2 commits `y` at
the same index and sends it to 1 with its `commitIndex`, and the caller wakes. -/
def overtaken : List Action :=
  oneElection ++ [⟨1, .proposeSync "x"⟩] ++ campaign 2 3 1 2 ++ [⟨2, .propose "y"⟩] ++
    heartbeat 2 2 ++
    [⟨2, .sendEntriesTo 3⟩, ⟨3, .appendEntries (wholeLog 2 3 2 [⟨2, "y"⟩] 0 1)⟩,
      ⟨2, .appendReply (wholeLog 2 3 2 [⟨2, "y"⟩] 0 1) { term := 2, success := true }⟩,
      ⟨2, .sendEntriesTo 1⟩, ⟨1, .appendEntries (wholeLog 2 1 2 [⟨2, "y"⟩] 1 1)⟩,
      ⟨1, .wakeSync waitsForX⟩]

theorem sync_proposal_refuted :
    ¬ ∀ (cl : Cluster) (R : ClusterRun cl) (k a : Nat) (data : String) (res : ProposalResult),
      R.Returns k a data res → res.isLeader = true →
        1 ≤ res.index ∧ res.index ≤ (R.node (k + 1) a).commitIndex ∧
          (R.node (k + 1) a).log[res.index - 1]? = some ⟨res.term, data⟩ := by
  intro own
  let R : ClusterRun (.ofSize 3 (by decide)) := .of _ overtaken (by decide +kernel)
  have returns : R.Returns 27 1 waitsForX.data { index := 1, term := 1, isLeader := true } :=
    returns_of_wake (by decide) rfl (by decide +kernel)
  have entry : (R.node 28 1).log[1 - 1]? = some ⟨2, "y"⟩ := by decide +kernel
  have held := (own _ R 27 1 "x" _ returns rfl).2.2
  rw [entry] at held
  exact absurd held (by decide)

end ClusterRun

end Rafty
