/-
# Rafty.Toolings.TestRun — the tester watches a cluster

From a node to the tester: the node enqueues its results, `RaftWrapper::applier` takes them
out and writes the valid ones to a stream, and one thread a node reads the stream and calls
the handler.  The threads of different nodes interleave in any way (`Watched`).

* What the tester has is what the ledger of the cluster has (`Watched.shown`), so on a run
  that is safe it never fails: there is no false alarm (`no_false_alarm`).
* What `n_committed` counts is real: so many nodes have handed out that command under that
  index.  Its loop lets reports in between two nodes, so it looks at each node in a state of
  its own (`TestConfig.Sees`).
-/
import Rafty.Toolings.TestConfig
import Rafty.Toolings.Fifo
import Rafty.Commit.Refinement

namespace Rafty

set_option autoImplicit false

open Theory

/-- `ApplyResult{}`, which a closed queue returns. -/
instance : Inhabited ApplyResult := ⟨{ valid := false, data := "", index := 0 }⟩

/-- What `RaftWrapper::applier` writes, of what it dequeues. -/
def applier (dequeued : List ApplyResult) : List ApplyResult := dequeued.filter fun r => r.valid

/-- The reports of node `i`, in order. -/
def streamOf (i : Nat) (reports : List Report) : List ApplyResult :=
  (reports.filter fun r => r.1 = i).map Prod.snd

@[simp] theorem streamOf_append (i : Nat) (first second : List Report) :
    streamOf i (first ++ second) = streamOf i first ++ streamOf i second := by
  simp [streamOf]

@[simp] theorem streamOf_cons_self (i : Nat) (m : ApplyResult) (rest : List Report) :
    streamOf i ((i, m) :: rest) = m :: streamOf i rest := by
  simp [streamOf]

theorem mem_streamOf {i : Nat} {m : ApplyResult} {reports : List Report} :
    m ∈ streamOf i reports ↔ (i, m) ∈ reports := by
  simp [streamOf]

namespace ClusterRun

variable {cl : Cluster} {R : ClusterRun cl} {k i : Nat} {reports before after : List Report}
  {m : ApplyResult}

/-- The reports came from the nodes through their queues, up to state `k`. -/
structure Watched (R : ClusterRun cl) (k : Nat) (reports : List Report) : Prop where
  member : ∀ r ∈ reports, r.1 ∈ cl.ids
  queue : ∀ i ∈ cl.ids, ∃ Q : Toolings.QueueRun ApplyResult,
    Q.pushed Q.length <+: (R.node k i).readyQueue ∧
      streamOf i reports <+: applier (Q.taken Q.length)

/-- What has been reported so far is watched, too. -/
theorem Watched.take (watched : R.Watched k reports) (n : Nat) : R.Watched k (reports.take n) where
  member r inReports := watched.member r (List.mem_of_mem_take inReports)
  queue i member := by
    obtain ⟨Q, pushed, stream⟩ := watched.queue i member
    refine ⟨Q, pushed, ?_⟩
    have split := streamOf_append i (reports.take n) (reports.drop n)
    rw [List.take_append_drop] at split
    exact (split ▸ List.prefix_append _ _).trans stream

section Watched

variable (unique : R.OneLeaderPerTerm) (afterRun : R.ProposesAfterRun) (sends : R.SendsAsLeader)

include unique afterRun sends

/-- A node hands out the ledger. -/
theorem ledger_of_queue (bound : k ≤ R.length) (member : i ∈ cl.ids) {p : Nat}
    (read : (R.node k i).readyQueue[p]? = some m) :
    ∃ entry, ((R.state k).replicas cl).ledger[p]? = some entry ∧ m = entry.result p := by
  rw [queue_eq_output unique afterRun sends bound member, List.getElem?_mapIdx,
    Option.map_eq_some_iff] at read
  obtain ⟨entry, at_p, same⟩ := read
  exact ⟨entry, getElem?_extend (List.take_prefix _ _) at_p, same.symm⟩

/-- The stream of a node is an initial part of what it handed out. -/
theorem Watched.stream (watched : R.Watched k reports) (bound : k ≤ R.length)
    (member : i ∈ cl.ids) : streamOf i reports <+: (R.node k i).readyQueue := by
  obtain ⟨Q, pushed, stream⟩ := watched.queue i member
  rw [Toolings.QueueRun.pushed_eq le_rfl] at pushed
  have taken : Q.taken Q.length <+: (R.node k i).readyQueue :=
    (List.prefix_append _ _).trans pushed
  have valid : applier (Q.taken Q.length) = Q.taken Q.length := by
    rw [applier, List.filter_eq_self]
    intro r inTaken
    obtain ⟨p, inside, same⟩ := List.getElem_of_mem (taken.subset inTaken)
    obtain ⟨entry, -, isResult⟩ := ledger_of_queue unique afterRun sends bound member
      (List.getElem?_eq_some_iff.mpr ⟨inside, same⟩)
    rw [isResult]
    rfl
  exact (valid ▸ stream).trans taken

/-- **A report shows the ledger** at the index that is its turn. -/
theorem Watched.shown (watched : R.Watched k reports) (bound : k ≤ R.length)
    (here : reports = before ++ (i, m) :: after) :
    ∃ entry, ((R.state k).replicas cl).ledger[(streamOf i before).length]? = some entry ∧
      m = entry.result (streamOf i before).length := by
  have member := watched.member (i, m) (by simp [here])
  have stream := watched.stream unique afterRun sends bound member
  rw [here, streamOf_append, streamOf_cons_self] at stream
  exact ledger_of_queue unique afterRun sends bound member
    (getElem?_extend stream (by simp))

/-- **The reports of a safe cluster are consistent.** -/
theorem Watched.consistent (watched : R.Watched k reports) (bound : k ≤ R.length) :
    TestConfig.Consistent reports := by
  intro before i m after here _
  obtain ⟨entry, at_m, isM⟩ := watched.shown unique afterRun sends bound here
  constructor
  · intro r inBefore _ sameIndex
    obtain ⟨first, second, split⟩ := List.append_of_mem inBefore
    obtain ⟨other, at_r, isR⟩ := watched.shown unique afterRun sends bound
      (show reports = first ++ (r.1, r.2) :: (second ++ (i, m) :: after) by
        rw [here, split]
        simp)
    rw [isR, isM] at sameIndex
    have samePlace : (streamOf r.1 first).length = (streamOf i before).length := by
      simpa [Entry.result] using sameIndex
    rw [samePlace, at_m, Option.some.injEq] at at_r
    rw [isR, isM, at_r]
    rfl
  · intro later
    rw [isM] at later
    have member : i ∈ cl.ids := watched.member (i, m) (by simp [here])
    have stream := watched.stream unique afterRun sends bound member
    rw [here, streamOf_append] at stream
    -- the last report of the node before this one
    rcases List.eq_nil_or_concat (streamOf i before) with none | ⟨init, last, split⟩
    · simp [none, Entry.result] at later
    rw [List.concat_eq_append] at split
    have inBefore : (i, last) ∈ before := by
      rw [← mem_streamOf, split]
      exact List.mem_append_right init (List.mem_singleton_self last)
    rw [split, List.append_assoc] at stream
    obtain ⟨other, -, isLast⟩ := ledger_of_queue unique afterRun sends bound member
      (getElem?_extend stream (show (init ++ ([last] ++ _))[init.length]? = some last by simp))
    have lastIndex : last.index = init.length + 1 := congrArg ApplyResult.index isLast
    have index : m.index = (streamOf i before).length + 1 := congrArg ApplyResult.index isM
    refine ⟨(i, last), inBefore, rfl, congrArg ApplyResult.valid isLast, ?_⟩
    rw [lastIndex, index, split, List.length_append, List.length_singleton]

/-- A report of a node that hands out, with its place in the stream. -/
theorem Watched.report (watched : R.Watched k reports) (bound : k ≤ R.length) {r : Report}
    (member : r ∈ reports) : ∃ p entry, p < (streamOf r.1 reports).length ∧
      ((R.state k).replicas cl).ledger[p]? = some entry ∧ r.2 = entry.result p := by
  obtain ⟨before, after, here⟩ := List.append_of_mem member
  obtain ⟨entry, at_r, isR⟩ := watched.shown unique afterRun sends bound
    (show reports = before ++ (r.1, r.2) :: after from here)
  refine ⟨(streamOf r.1 before).length, entry, ?_, at_r, isR⟩
  rw [here, streamOf_append, List.length_append, show r = (r.1, r.2) from rfl, streamOf_cons_self,
    List.length_cons]
  omega

variable {t₀ t : TestConfig} {looked : Nat → Nat} {seen : Nat → TestConfig} {p : Nat}

/-- What has been logged under an index: the ledger, for the nodes that have come so far. -/
theorem Watched.logs (watched : R.Watched k reports) (bound : k ≤ R.length)
    (recorded : TestConfig.Recorded t₀ reports t) (member : i ∈ cl.ids) :
    (t.logs i (p + 1)).isSome = true ↔ p < (streamOf i reports).length := by
  constructor
  · intro logged
    obtain ⟨data, logged⟩ := Option.isSome_iff_exists.mp logged
    obtain ⟨r, isReport, rfl, -, index, -⟩ := (recorded.logs i (p + 1) data).mp logged
    obtain ⟨q, entry, inside, -, isR⟩ := watched.report unique afterRun sends bound isReport
    have place : q = p := by simpa [isR, Entry.result] using index
    omega
  · intro inside
    have stream := watched.stream unique afterRun sends bound member
    obtain ⟨entry, -, isResult⟩ := ledger_of_queue unique afterRun sends bound member
      (getElem?_extend stream (List.getElem?_eq_getElem inside))
    have isReport : (i, entry.result p) ∈ reports := by
      rw [← mem_streamOf, ← isResult]
      exact List.getElem_mem inside
    rw [(recorded.logs i (p + 1) entry.command).mpr ⟨_, isReport, rfl, rfl, rfl, rfl⟩]
    rfl

/-- **The tester records what it is told**, as long as indices fit 64 bits. -/
theorem Watched.recorded (watched : R.Watched k reports) (bound : k ≤ R.length)
    (begun : t₀.Begun) (ids : t₀.raftIds = cl.ids)
    (small : ∀ i ∈ cl.ids, (R.node k i).lastApplied < 1 <<< 64) :
    TestConfig.Recorded t₀ reports (t₀.handleAll reports) := by
  have known : t₀.Known reports := by
    refine ⟨fun r member => ids ▸ watched.member r member, fun r member => ?_⟩
    obtain ⟨p, entry, inside, -, isR⟩ := watched.report unique afterRun sends bound member
    have isId := watched.member r member
    have stream := (watched.stream unique afterRun sends bound isId).length_le
    rw [(queue_applied unique afterRun sends bound r.1).1] at stream
    have := small r.1 isId
    rw [isR]
    change p + 1 < _
    omega
  have consistent := watched.consistent unique afterRun sends bound
  rcases TestConfig.handleAll_cases begun known with ⟨-, recorded⟩ | ⟨inconsistent, -⟩
  · exact recorded
  · exact absurd consistent inconsistent

/-- **What `n_committed` answers**: the number of nodes that had come to the index when it
looked at them, and what the ledger has there. -/
theorem Watched.nCommitted (watched : R.Watched k reports) (bound : k ≤ R.length)
    (begun : t₀.Begun) (ids : t₀.raftIds = cl.ids)
    (small : ∀ i ∈ cl.ids, (R.node k i).lastApplied < 1 <<< 64)
    (sees : TestConfig.Sees t₀ reports seen looked) :
    ∃ found, TestConfig.nCommitted cl.ids seen (p + 1) = .ok found ∧
      found.1 = cl.ids.countP (fun i => p < (streamOf i (reports.take (looked i))).length) ∧
      (0 < found.1 → ∃ entry, ((R.state k).replicas cl).ledger[p]? = some entry ∧
        found.2 = entry.command) := by
  have recorded : ∀ n, TestConfig.Recorded t₀ (reports.take n) (t₀.handleAll (reports.take n)) :=
    fun n => (watched.take n).recorded unique afterRun sends bound begun ids small
  -- whatever is logged under the index is in the ledger there
  have shown : ∀ id other, (seen id).logs id (p + 1) = some other →
      ∃ entry, ((R.state k).replicas cl).ledger[p]? = some entry ∧ other = entry.command := by
    intro id other logged
    rw [sees.logs, (recorded _).logs] at logged
    obtain ⟨r, isReport, -, -, index, data⟩ := logged
    obtain ⟨q, entry, -, at_q, isR⟩ := watched.report unique afterRun sends bound
      (List.mem_of_mem_take isReport)
    have place : q = p := by simpa [isR, Entry.result] using index
    exact ⟨entry, place ▸ at_q, by rw [← data, isR]; rfl⟩
  have agree : ∀ id other, (seen id).logs id (p + 1) = some other →
      other = (((R.state k).replicas cl).ledger[p]?.map Entry.command).getD "" := by
    intro id other logged
    obtain ⟨entry, at_p, same⟩ := shown id other logged
    simp [at_p, same]
  have clean : ∀ id, (seen id).applyErr = fun _ => "" :=
    fun id => (sees.applyErr id).trans (recorded _).applyErr
  obtain ⟨found, answers, number, data⟩ := TestConfig.nCommitted_eq cl.ids clean agree
  refine ⟨found, answers, ?_, ?_⟩
  · rw [number]
    refine List.countP_congr fun i member => ?_
    rw [sees.logs, (watched.take _).logs unique afterRun sends bound (recorded _) member]
    simp
  · intro positive
    have known := data positive
    rw [number, List.countP_pos_iff] at positive
    obtain ⟨i, -, some⟩ := positive
    obtain ⟨other, logged⟩ := Option.isSome_iff_exists.mp some
    obtain ⟨entry, at_p, -⟩ := shown i other logged
    refine ⟨entry, at_p, ?_⟩
    simp [known, at_p]

end Watched

/-- **No false alarm.**  However the reports of the nodes of a run in which requests are built
by leaders interleave, with each other and with the loop of `n_committed`: the test does not
fail, and `n_committed` answers with the number of nodes whose stream had come to the index
when it looked at them and, if there are any, with the command that the ledger has there. -/
theorem no_false_alarm (R : ClusterRun cl) (unique : R.OneLeaderPerTerm)
    (afterRun : R.ProposesAfterRun) (sends : R.SendsAsLeader) (bound : k ≤ R.length)
    (t₀ : TestConfig) (begun : t₀.Begun) (ids : t₀.raftIds = cl.ids)
    (watched : R.Watched k reports)
    (small : ∀ i ∈ cl.ids, (R.node k i).lastApplied < 1 <<< 64) :
    (t₀.handleAll reports).failed = false ∧
      ∀ p seen looked, TestConfig.Sees t₀ reports seen looked →
        ∃ found, TestConfig.nCommitted t₀.raftIds seen (p + 1) = .ok found ∧
          found.1 =
            cl.ids.countP (fun i => p < (streamOf i (reports.take (looked i))).length) ∧
          (0 < found.1 → ∃ entry, ((R.state k).replicas cl).ledger[p]? = some entry ∧
            found.2 = entry.command) := by
  constructor
  · exact (watched.recorded unique afterRun sends bound begun ids small).failed
  · intro p seen looked sees
    rw [ids]
    exact watched.nCommitted unique afterRun sends bound begun ids small sees

theorem three_small : 3 < 1 <<< 63 - 1 := by decide

/-- The run of `oneCommit`: leader 1 commits `x`. -/
def commitRun : ClusterRun (.ofSize 3 three_small) := .of _ oneCommit oneCommit_accepted

/-- Its leader reports `x`, through a queue without a buffer, as `node` makes it. -/
theorem watched_commitRun : commitRun.Watched 17 [(1, Entry.result ⟨1, "x"⟩ 0)] := by
  refine ⟨by decide, ?_⟩
  intro i member
  by_cases first : i = 1
  · subst first
    let Q : Toolings.QueueRun ApplyResult :=
      .of 0 [.enqueue 0 (Entry.result ⟨1, "x"⟩ 0), .dequeue 1] (by decide +kernel)
    exact ⟨Q, by decide +kernel, by decide +kernel⟩
  · let Q : Toolings.QueueRun ApplyResult := .of 0 [] (by decide +kernel)
    refine ⟨Q, List.nil_prefix, ?_⟩
    simp [streamOf, Ne.symm first]

theorem no_false_alarm_of_commit :
    ∃ R : ClusterRun (.ofSize 3 (by decide)), R.Watched 17 [(1, Entry.result ⟨1, "x"⟩ 0)] ∧
      (TestConfig.three.handleAll [(1, Entry.result ⟨1, "x"⟩ 0)]).failed = false ∧
        ∃ found, TestConfig.nCommitted [1, 2, 3]
          (fun _ => TestConfig.three.handleAll [(1, Entry.result ⟨1, "x"⟩ 0)]) 1 = .ok found ∧
            found.1 = 1 := by
  have unique : commitRun.OneLeaderPerTerm := oneLeader_of_majority (Or.inl rfl) commitRun
  have afterRun : commitRun.ProposesAfterRun := proposesAfterRun_of_checked (by decide +kernel)
  have sends : commitRun.SendsAsLeader := sendsAsLeader_of_checked (by decide +kernel)
  obtain ⟨none, counts⟩ := no_false_alarm commitRun unique afterRun sends
    (show 17 ≤ commitRun.length by decide) .three TestConfig.begun_three rfl watched_commitRun
    (by decide +kernel)
  obtain ⟨found, answers, number, -⟩ := counts 0
    (fun _ => TestConfig.three.handleAll [(1, Entry.result ⟨1, "x"⟩ 0)]) (fun _ => 1)
    ⟨fun _ => rfl, fun _ => rfl⟩
  exact ⟨commitRun, watched_commitRun, none, found, answers, number⟩

end ClusterRun

end Rafty
