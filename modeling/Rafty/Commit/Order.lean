/-
# Rafty.Commit.Order — logs are in the order of acceptance

When a leader accepts a proposal, all of what stands before it in that leader's log was
accepted earlier; and wherever the new entry turns up later, Log Matching puts the same
entries before it.  So every log, at any time, lists proposals in the order in which they
were accepted, whichever leaders accepted them (`in_order`).

The ledger is one of these logs.  A proposal that ever enters it therefore comes after
everything that any node had committed when the proposal was accepted
(`ledger_below`): the order of the ledger never contradicts real time
(`real_time_order`).
-/
import Rafty.Commit.Refinement
import Rafty.Commit.Sync

namespace Rafty

set_option autoImplicit false

open Theory

namespace ClusterRun

variable {cl : Cluster} {R : ClusterRun cl} {j k m n a b v p q i : Nat} {t : Int}
  {data other : String} {x y : Entry} {res : ProposalResult}

/-! ## Logs -/

section Logs

variable (unique : R.OneLeaderPerTerm) (afterRun : R.ProposesAfterRun)

include unique afterRun

/-- Of two entries of one log, the one at the lower position was accepted first. -/
theorem accepted_before (bound : n ≤ R.length) (at_p : (R.node n v).log[p]? = some x)
    (at_q : (R.node n v).log[q]? = some y) (first : R.Accepts j a data (p + 1) x.term)
    (second : R.Accepts k b other (q + 1) y.term) (lt : p < q) : j < k := by
  obtain ⟨before, after, log⟩ := second.leads afterRun
  have position : (R.node k b).log.length = q := by
    have := second.index
    omega
  -- the log of the leader that accepted `y` is the same up to `y`
  have accepted_at : (R.node (k + 1) b).log[q]? = some ⟨y.term, other⟩ := by
    rw [log, ← position, List.getElem?_concat_length]
  have same := matching unique afterRun bound after.bound v b q y _ at_q accepted_at rfl
  have held : (R.node k b).log[p]? = some x := by
    have inside := congrArg (·[p]?) same
    simp only [List.getElem?_take_of_lt (Nat.lt_succ_of_lt lt), at_p, log] at inside
    rw [List.getElem?_append_left (position ▸ lt)] at inside
    exact inside.symm
  obtain ⟨j', c, earlier, accepts⟩ := accepted_of_log unique afterRun before.bound b p x held
  exact first.unique accepts unique afterRun ▸ earlier

/-- **A log is in the order of acceptance.** -/
theorem in_order (bound : n ≤ R.length) (at_p : (R.node n v).log[p]? = some x)
    (at_q : (R.node n v).log[q]? = some y) (first : R.Accepts j a data (p + 1) x.term)
    (second : R.Accepts k b other (q + 1) y.term) : p < q ↔ j < k := by
  constructor
  · exact accepted_before unique afterRun bound at_p at_q first second
  · intro earlier
    rcases Nat.lt_trichotomy p q with lt | rfl | gt
    · exact lt
    · cases at_p.symm.trans at_q
      have same := first.unique second unique afterRun
      omega
    · have later := accepted_before unique afterRun bound at_q at_p second first gt
      omega

end Logs

/-! ## The ledger -/

/-- A call that is blocked will return the index it waits for. -/
theorem blocked_index (bound : k ≤ R.length) (call : SyncCall)
    (blocked : call ∈ (R.node k a).calls) : call.res.index = call.proposalIndex := by
  apply R.invariant (P := fun k => ∀ call ∈ (R.node k a).calls,
    call.res.index = call.proposalIndex) ?_ ?_ k bound call blocked
  · intro call blocked
    obtain ⟨role, isNew⟩ := R.start_node a
    simp [isNew, Raft.calls, Raft.new] at blocked
  · intro k within ih call blocked
    rcases node_cases within a with same | ⟨input, output, ran⟩
    · exact ih call (same ▸ blocked)
    · rcases Raft.step_calls ran.stepped blocked with old | ⟨data, -, -, rfl⟩
      · exact ih call old
      · rfl

/-- A call returns success only when `commitIndex` has reached the index it returns. -/
theorem Returns.committed (returns : R.Returns k a data res) (success : res.isLeader = true) :
    a ∈ cl.ids ∧ k < R.length ∧ res.index ≤ (R.node (k + 1) a).commitIndex := by
  rcases returns with ran | ⟨call, rfl, ran⟩
  · have stepped := ran.stepped
    simp only [Raft.step, Option.some.injEq, Prod.mk.injEq] at stepped
    obtain ⟨after, answer⟩ := stepped
    obtain ⟨-, rfl, reached⟩ :=
      Raft.proposeSync_success (Raft.ofResult_eq_proposal answer) success
    have commit := congrArg Raft.Progress.commitIndex ((R.node k a).progress_proposeSync data)
    rw [after] at commit
    exact ⟨ran.member, ran.within, reached.trans commit.ge⟩
  · have stepped := ran.stepped
    simp only [Raft.step] at stepped
    split at stepped
    · rename_i blocked
      simp only [Option.some.injEq, Prod.mk.injEq] at stepped
      obtain ⟨after, answer⟩ := stepped
      obtain ⟨rfl, reached⟩ := Raft.wakeSync_success (Raft.ofResult_eq_proposal answer) success
      have commit := congrArg Raft.Progress.commitIndex ((R.node k a).progress_wakeSync call)
      rw [after] at commit
      have index : call.res.index = call.proposalIndex :=
        blocked_index ran.within.le call.known (List.mem_map_of_mem blocked)
      exact ⟨ran.member, ran.within, index ▸ reached.trans commit.ge⟩
    · cases stepped

section Ledger

variable (unique : R.OneLeaderPerTerm) (afterRun : R.ProposesAfterRun) (sends : R.SendsAsLeader)

include unique afterRun sends

/-- What a node has committed is not beyond the end of the ledger. -/
theorem commit_le_ledger (bound : k ≤ R.length) (member : a ∈ cl.ids) :
    (R.node k a).commitIndex ≤ ((R.state k).replicas cl).ledger.length := by
  have length := (committed_le_ledger unique afterRun sends bound member).length_le
  rwa [committed_eq, List.length_take,
    Nat.min_eq_left (sound unique afterRun sends bound a).inside] at length

/-- A proposal that enters the ledger was accepted when the ledger was shorter than its
index. -/
theorem ledger_below (bound : m ≤ R.length) (accepts : R.Accepts k b data i t)
    (at_i : ((R.state m).replicas cl).ledger[i - 1]? = some x) (term : x.term = t) (le : n ≤ k) :
    ((R.state n).replicas cl).ledger.length < i := by
  have positive : i - 1 + 1 = i := by
    have := accepts.index
    omega
  have accepted_then : ∀ l, l ≤ R.length →
      ((R.state l).replicas cl).ledger[i - 1]? = some x → k < l := by
    intro l boundL at_l
    obtain ⟨k', c, lt, accepts'⟩ := accepted_of_ledger unique afterRun boundL at_l
    rw [positive, term] at accepts'
    exact accepts.unique accepts' unique afterRun ▸ lt
  have later := accepted_then m bound at_i
  by_contra longer
  have inside : i - 1 < ((R.state n).replicas cl).ledger.length := by omega
  have read := List.getElem?_eq_getElem inside
  have kept := getElem?_extend
    (grows unique afterRun sends (show n ≤ m by omega) bound).ledger read
  rw [at_i] at kept
  have tooEarly := accepted_then n (by omega) (read.trans kept.symm)
  omega

end Ledger

/-- **The order never contradicts real time.**  Every log at every time lists proposals in
the order in which they were accepted.  And a proposal that is ever committed has a higher
index than anything that any node had committed when it was accepted; in particular than
every index that `propose_sync` had returned with success before. -/
theorem real_time_order (R : ClusterRun cl) (unique : R.OneLeaderPerTerm)
    (afterRun : R.ProposesAfterRun) (sends : R.SendsAsLeader) :
    (∀ n v p q x y j k a b data other, n ≤ R.length →
      (R.node n v).log[p]? = some x → (R.node n v).log[q]? = some y →
        R.Accepts j a data (p + 1) x.term → R.Accepts k b other (q + 1) y.term →
          (p < q ↔ j < k)) ∧
    ∀ m k b data i entry, m ≤ R.length → R.Accepts k b data i entry.term →
      ((R.state m).replicas cl).ledger[i - 1]? = some entry →
        (∀ n a, n ≤ k → a ∈ cl.ids → (R.node n a).commitIndex < i) ∧
          ∀ j a other res, j < k → R.Returns j a other res → res.isLeader = true →
            res.index < i := by
  constructor
  · intro n v p q x y j k a b data other bound at_p at_q first second
    exact in_order unique afterRun bound at_p at_q first second
  · intro m k b data i entry bound accepts at_i
    have above : ∀ n a, n ≤ k → a ∈ cl.ids → (R.node n a).commitIndex < i := by
      intro n a le member
      have boundN : n ≤ R.length := le.trans (accepts.leads afterRun).1.bound
      exact (commit_le_ledger unique afterRun sends boundN member).trans_lt
        (ledger_below unique afterRun sends bound accepts at_i rfl le)
    refine ⟨above, ?_⟩
    intro j a other res earlier returns success
    obtain ⟨member, -, reached⟩ := returns.committed success
    exact reached.trans_lt (above (j + 1) a earlier member)

/-- The request of leader 1 that sends its second entry `y` to 2. -/
def secondEntry : AppendCall where
  caller := 1
  target := 2
  req :=
    { term := 1
      leaderId := 1
      prevLogIndex := 1
      prevLogTerm := 1
      entries := [⟨1, "y"⟩]
      leaderCommit := 1 }
  currentLogSize := 2
  currentReplyCounter := 2
  currentNextIndex := 2
  currentMatchIndex := 1

/-- After the call that proposed `x` has returned, leader 1 accepts `y` and commits it. -/
def commitTwice : List Action :=
  syncCommit ++ [⟨1, .propose "y"⟩] ++ heartbeat 1 3 ++
    [⟨1, .sendEntriesTo 2⟩, ⟨2, .appendEntries secondEntry⟩,
      ⟨1, .appendReply secondEntry { term := 1, success := true }⟩]

theorem real_time_order_of_commits :
    ∃ R : ClusterRun (.ofSize 3 (by decide)),
      R.Returns 17 1 "x" { index := 1, term := 1, isLeader := true } ∧
        R.Accepts 18 1 "y" 2 1 ∧
          ((R.state 25).replicas (.ofSize 3 (by decide))).ledger[1]? = some ⟨1, "y"⟩ ∧ 1 < 2 := by
  let R : ClusterRun (.ofSize 3 (by decide)) := .of _ commitTwice (by decide +kernel)
  have unique : R.OneLeaderPerTerm := oneLeader_of_majority (Or.inl rfl) R
  have afterRun : R.ProposesAfterRun := proposesAfterRun_of_checked (by decide +kernel)
  have sends : R.SendsAsLeader := sendsAsLeader_of_checked (by decide +kernel)
  have returns : R.Returns 17 1 waitsForX.data { index := 1, term := 1, isLeader := true } :=
    returns_of_wake (by decide) rfl (by decide +kernel)
  have accepts : R.Accepts 18 1 "y" 2 1 := by
    obtain ⟨output, ran⟩ := ran_of_action (R := R) (k := 18) (by decide) rfl
    exact ⟨⟨_, output, ran, Or.inl rfl⟩, by decide +kernel, by decide +kernel⟩
  have committed : ((R.state 25).replicas (.ofSize 3 (by decide))).ledger[1]? = some ⟨1, "y"⟩ := by
    decide +kernel
  have order := (real_time_order R unique afterRun sends).2 25 18 1 "y" 2 ⟨1, "y"⟩ (by decide)
    accepts committed
  exact ⟨R, returns, accepts, committed, order.2 17 1 "x" _ (by decide) returns rfl⟩

end ClusterRun

end Rafty
