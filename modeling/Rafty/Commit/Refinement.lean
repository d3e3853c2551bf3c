/-
# Rafty.Commit.Refinement — a cluster is one ledger read by its nodes

In a run in which no term has two leaders and requests are built by leaders, the nodes of
a cluster together are one ledger that only grows at its end, and each node is a reader
of it: the ledger is the longest committed part of a log, and the position of a node is
its `lastApplied` (`World.replicas`).  Every section of every node is, in this view, an
addition to the ledger, some reading on by this node, both, or nothing
(`refines_replicas`); what a node has handed to its ready queue is what it has read of
the ledger, numbered from 1; and the ledger holds accepted proposals only.  So what any
two nodes have handed out, at whatever times, is the same as far as both have got
(`queues_agree`).

Behind it stands that a committed part never shrinks (`commit_step`), that `lastApplied`
follows `commitIndex` in the same section (`caught_up`), and that certified prefixes are
comparable, whichever nodes and states they are from.
-/
import Rafty.Commit.Safety
import Rafty.Theory.Replica

namespace Rafty

set_option autoImplicit false

open Theory

namespace World

/-- What node `a` has committed. -/
def committed (w : World) (a : Nat) : List Entry := (w.nodes a).log.take (w.nodes a).commitIndex

/-- The ledger, and how far each node has applied it. -/
def replicas (cl : Cluster) (w : World) : Replicas Nat Entry where
  ledger := longest (cl.ids.map w.committed)
  position a := (w.nodes a).lastApplied

end World

/-- The result that hands out `entry` at the 0-based position `p`. -/
def Entry.result (entry : Entry) (p : Nat) : ApplyResult where
  valid := true
  data := entry.command
  index := p + 1

namespace ClusterRun

variable {cl : Cluster} {R : ClusterRun cl} {k m a b v i : Nat} {t u : Int}

theorem committed_eq : (R.state k).committed a = (R.node k a).log.take (R.node k a).commitIndex :=
  rfl

theorem position_eq : ((R.state k).replicas cl).position a = (R.node k a).lastApplied := rfl

/-- The ledger holds accepted proposals, each under its index. -/
theorem accepted_of_ledger (unique : R.OneLeaderPerTerm) (afterRun : R.ProposesAfterRun)
    (bound : k ≤ R.length) {p : Nat} {entry : Entry}
    (at_p : ((R.state k).replicas cl).ledger[p]? = some entry) :
    ∃ j b, j < k ∧ R.Accepts j b entry.command (p + 1) entry.term := by
  change (longest (cl.ids.map (R.state k).committed))[p]? = some entry at at_p
  rcases longest_cases (cl.ids.map (R.state k).committed) with none | some
  · rw [none] at at_p
    simp at at_p
  · obtain ⟨a, -, same⟩ := List.mem_map.mp some
    rw [← same] at at_p
    exact accepted_of_log unique afterRun bound a p entry
      (getElem?_extend (List.take_prefix _ _) at_p)

section Refinement

variable (unique : R.OneLeaderPerTerm) (afterRun : R.ProposesAfterRun) (sends : R.SendsAsLeader)

include unique afterRun sends

/-! ## What a node has committed -/

/-- `commitIndex` never falls, and a node that has applied all it committed does so
again. -/
theorem commit_step (within : k < R.length) (v : Nat) :
    (R.node k v).commitIndex ≤ (R.node (k + 1) v).commitIndex ∧
      ((R.node k v).lastApplied = (R.node k v).commitIndex →
        (R.node (k + 1) v).lastApplied = (R.node (k + 1) v).commitIndex) := by
  have old := sound unique afterRun sends within.le v
  rcases node_cases within v with same | ⟨input, output, ran⟩
  · rw [same]
    exact ⟨le_rfl, id⟩
  cases Raft.step_advance ran.stepped with
  | still same | record same | backUp _ _ _ same | elect _ same =>
      simp only [Raft.progress, Raft.Progress.mk.injEq] at same
      rw [same.1, same.2.1]
      exact ⟨le_rfl, id⟩
  | follow results notOld consistent core higher applied length same =>
      -- the old committed part is still there, so the log did not get shorter than it
      have held :=
        (old.certified.step unique afterRun sends within (List.take_prefix _ _)).length_le
      rw [List.length_take, Nat.min_eq_left old.inside] at held
      simp only [Raft.progress, Raft.Progress.mk.injEq] at same
      rw [same.1, same.2.1, length]
      omega
  | acknowledge commit results fresh role term success core committed applied same =>
      simp only [Raft.progress, Raft.Progress.mk.injEq] at same
      rw [same.1, same.2.1]
      rcases committed with ⟨kept, none_new⟩ | ⟨newer, -, -, -, length⟩
      · rw [kept, none_new]
        exact ⟨le_rfl, id⟩
      · rw [length]
        omega

/-- Between two sections a node has applied all it has committed. -/
theorem caught_up (bound : k ≤ R.length) (v : Nat) :
    (R.node k v).lastApplied = (R.node k v).commitIndex := by
  apply R.invariant (P := fun k => (R.node k v).lastApplied = (R.node k v).commitIndex) ?_ ?_ k
    bound
  · obtain ⟨role, isNew⟩ := R.start_node v
    rw [isNew]
    rfl
  · intro k within
    exact (commit_step unique afterRun sends within v).2

/-- What is committed stays committed. -/
theorem committed_step (within : k < R.length) (v : Nat) :
    (R.state k).committed v <+: (R.state (k + 1)).committed v := by
  have old := sound unique afterRun sends within.le v
  have held := old.certified.step unique afterRun sends within (List.take_prefix _ _)
  have length : ((R.node k v).log.take (R.node k v).commitIndex).length =
      (R.node k v).commitIndex := by
    rw [List.length_take, Nat.min_eq_left old.inside]
  have grown := (commit_step unique afterRun sends within v).1
  rw [committed_eq, committed_eq, ← take_eq_of_prefix held, length]
  exact List.take_prefix_take_left grown

/-- Whatever two nodes have committed is comparable. -/
theorem committed_comparable (first : k ≤ R.length) (second : m ≤ R.length) (a b : Nat) :
    (R.state k).committed a <+: (R.state m).committed b ∨
      (R.state m).committed b <+: (R.state k).committed a :=
  (sound unique afterRun sends first a).certified.comparable unique afterRun sends
    (sound unique afterRun sends second b).certified

/-! ## The ledger -/

theorem committed_le_ledger (bound : k ≤ R.length) (member : a ∈ cl.ids) :
    (R.state k).committed a <+: ((R.state k).replicas cl).ledger := by
  apply prefix_longest (List.mem_map_of_mem member)
  intro l isCommitted
  obtain ⟨b, -, rfl⟩ := List.mem_map.mp isCommitted
  exact committed_comparable unique afterRun sends bound bound a b

theorem ledger_step (within : k < R.length) :
    ((R.state k).replicas cl).ledger <+: ((R.state (k + 1)).replicas cl).ledger := by
  apply longest_mono
  · intro l isCommitted
    obtain ⟨a, member, rfl⟩ := List.mem_map.mp isCommitted
    exact ⟨_, List.mem_map_of_mem member, committed_step unique afterRun sends within a⟩
  · intro l first l' second
    obtain ⟨a, -, rfl⟩ := List.mem_map.mp first
    obtain ⟨b, -, rfl⟩ := List.mem_map.mp second
    exact committed_comparable unique afterRun sends within within a b

/-- A node's position lies in its committed part. -/
theorem position_le (bound : k ≤ R.length) (member : a ∈ cl.ids) :
    ((R.state k).replicas cl).position a ≤ ((R.state k).replicas cl).ledger.length := by
  have sound := sound unique afterRun sends bound a
  have length := (committed_le_ledger unique afterRun sends bound member).length_le
  rw [committed_eq, List.length_take, Nat.min_eq_left sound.inside] at length
  exact sound.applied.trans length

/-- **A cluster run is a run of the replicas.** -/
theorem refines : Refines R (Replicas.machine Nat Entry) (World.replicas cl) where
  start := by
    constructor
    · have empty : ∀ l ∈ cl.ids.map (R.state 0).committed, l = [] := by
        intro l isCommitted
        obtain ⟨a, -, rfl⟩ := List.mem_map.mp isCommitted
        obtain ⟨role, isNew⟩ := R.start_node a
        rw [committed_eq, isNew]
        rfl
      rcases longest_cases (cl.ids.map (R.state 0).committed) with none | some
      · exact none
      · exact empty _ some
    · intro a
      obtain ⟨role, isNew⟩ := R.start_node a
      change (R.node 0 a).lastApplied = 0
      rw [isNew]
      rfl
  next k within := by
    obtain ⟨a, input, output, ran⟩ := exists_ran within
    apply Replicas.takes_of_grows (i := a)
    · exact ledger_step unique afterRun sends within
    · change (R.node k a).lastApplied ≤ (R.node (k + 1) a).lastApplied
      rw [caught_up unique afterRun sends within.le, caught_up unique afterRun sends within]
      exact (commit_step unique afterRun sends within a).1
    · exact position_le unique afterRun sends within ran.member
    · intro b ne
      exact congrArg Raft.lastApplied (ran.others b ne)

/-- The ledger grows at its end and the nodes only read on, along every stretch. -/
theorem grows (le : k ≤ m) (bound : m ≤ R.length) :
    ((R.state k).replicas cl).Grows ((R.state m).replicas cl) :=
  (refines unique afterRun sends).related Replicas.Grows.refl (fun _ _ _ => .trans)
    (fun _ _ _ => Replicas.grows_step) le bound

/-- No node reads beyond the end. -/
theorem reads_inside (bound : k ≤ R.length) : ((R.state k).replicas cl).Inside :=
  (refines unique afterRun sends).invariant (fun _ => Replicas.inside_init)
    (fun _ _ _ => Replicas.inside_step) bound

/-- What two nodes have read is comparable, whenever they have read it. -/
theorem outputs_agree (le : k ≤ m) (bound : m ≤ R.length) (a b : Nat) :
    ((R.state k).replicas cl).output a <+: ((R.state m).replicas cl).output b ∨
      ((R.state m).replicas cl).output b <+: ((R.state k).replicas cl).output a := by
  have kept := (grows unique afterRun sends le bound).output
    (reads_inside unique afterRun sends (le.trans bound)) a
  rcases Replicas.agreement ((R.state m).replicas cl) a b with less | more
  · exact Or.inl (kept.trans less)
  · exact List.prefix_or_prefix_of_prefix kept more

/-- A node has read of the ledger what its log holds up to `lastApplied`. -/
theorem output_eq (bound : k ≤ R.length) (member : a ∈ cl.ids) :
    ((R.state k).replicas cl).output a = (R.node k a).log.take (R.node k a).lastApplied := by
  have committed := committed_le_ledger unique afterRun sends bound member
  have sound := sound unique afterRun sends bound a
  obtain ⟨rest, whole⟩ := committed
  have applied := sound.applied
  rw [Replicas.output, ← whole, committed_eq, position_eq, List.take_append_of_le_length,
    List.take_take, Nat.min_eq_left applied]
  rw [List.length_take, Nat.min_eq_left sound.inside]
  exact applied

/-- What a node handed out is what it has read, numbered from 1. -/
theorem queue_eq_output (bound : k ≤ R.length) (member : a ∈ cl.ids) :
    (R.node k a).readyQueue =
      (((R.state k).replicas cl).output a).mapIdx fun p entry => entry.result p := by
  obtain ⟨length, applied⟩ := queue_applied unique afterRun sends bound a
  have sound := sound unique afterRun sends bound a
  have inside := sound.applied.trans sound.inside
  rw [output_eq unique afterRun sends bound member]
  apply List.ext_getElem
  · simp only [List.length_mapIdx, List.length_take]
    omega
  · intro p low high
    obtain ⟨entry, read, same⟩ := applied p _ (List.getElem?_eq_getElem low)
    rw [Nat.zero_add] at read same
    rw [same, List.getElem_mapIdx, List.getElem_take]
    rw [← Option.some.inj ((List.getElem?_eq_getElem (by omega)).symm.trans read)]
    rfl

/-- **The ready queues agree**: what two nodes have handed out, each at some time, is the
same as far as both have got. -/
theorem queues_agree (le : k ≤ m) (bound : m ≤ R.length) (first : a ∈ cl.ids)
    (second : b ∈ cl.ids) :
    (R.node k a).readyQueue <+: (R.node m b).readyQueue ∨
      (R.node m b).readyQueue <+: (R.node k a).readyQueue := by
  rw [queue_eq_output unique afterRun sends (le.trans bound) first,
    queue_eq_output unique afterRun sends bound second]
  exact (outputs_agree unique afterRun sends le bound a b).imp mapIdx_prefix mapIdx_prefix

end Refinement

/-- **A cluster is one ledger read by its nodes.**  Every run in which requests are built
by leaders is, section by section, a run of a ledger that only grows at its end and of
readers that only move on; what a node has handed out is what it has read, numbered from
1, and it has read all it has committed; and what is in the ledger was proposed. -/
theorem refines_replicas (R : ClusterRun cl) (unique : R.OneLeaderPerTerm)
    (afterRun : R.ProposesAfterRun) (sends : R.SendsAsLeader) :
    Refines R (Replicas.machine Nat Entry) (World.replicas cl) ∧
      ∀ k, k ≤ R.length →
        (∀ a ∈ cl.ids, (R.node k a).lastApplied = (R.node k a).commitIndex ∧
          (R.node k a).readyQueue =
            (((R.state k).replicas cl).output a).mapIdx fun p entry => entry.result p) ∧
        ∀ p entry, ((R.state k).replicas cl).ledger[p]? = some entry →
          ∃ j b, j < k ∧ R.Accepts j b entry.command (p + 1) entry.term := by
  refine ⟨refines unique afterRun sends, ?_⟩
  intro k bound
  constructor
  · intro a member
    exact ⟨caught_up unique afterRun sends bound a,
      queue_eq_output unique afterRun sends bound member⟩
  · intro p entry at_p
    exact accepted_of_ledger unique afterRun bound at_p

theorem refines_replicas_of_commit :
    ∃ R : ClusterRun (.ofSize 3 (by decide)),
      ((R.state 17).replicas (.ofSize 3 (by decide))).ledger = [⟨1, "x"⟩] ∧
        (R.node 17 1).readyQueue = [Entry.result ⟨1, "x"⟩ 0] ∧
        ∃ j b, j < 17 ∧ R.Accepts j b "x" 1 1 := by
  let R : ClusterRun (.ofSize 3 (by decide)) := .of _ oneCommit oneCommit_accepted
  have unique : R.OneLeaderPerTerm := oneLeader_of_majority (Or.inl rfl) R
  have afterRun : R.ProposesAfterRun := proposesAfterRun_of_checked (by decide +kernel)
  have sends : R.SendsAsLeader := sendsAsLeader_of_checked (by decide +kernel)
  have ledger : ((R.state 17).replicas (.ofSize 3 (by decide))).ledger = [⟨1, "x"⟩] := by
    decide +kernel
  have position : ((R.state 17).replicas (.ofSize 3 (by decide))).position 1 = 1 := by
    decide +kernel
  obtain ⟨nodes, proposed⟩ := (refines_replicas R unique afterRun sends).2 17 (by decide)
  refine ⟨R, ledger, ?_, ?_⟩
  · rw [(nodes 1 (by decide)).2, Replicas.output, ledger, position]
    rfl
  · exact proposed 0 ⟨1, "x"⟩ (by rw [ledger]; rfl)

/-! ## Leaders -/

/-- **Leader completeness.**  What a node has committed while in a term is in the log of
every leader of a later term, whenever it leads, and of the leader of that very term from
then on. -/
theorem leader_completeness (R : ClusterRun cl) (unique : R.OneLeaderPerTerm)
    (afterRun : R.ProposesAfterRun) (sends : R.SendsAsLeader) (bound : m ≤ R.length)
    (leads : R.Leads k b u)
    (later : (R.node m v).currentTerm < u ∨ (R.node m v).currentTerm = u ∧ m ≤ k) :
    (R.state m).committed v <+: (R.node k b).log := by
  rw [committed_eq]
  rcases (sound unique afterRun sends bound v).certified with empty | ⟨l, a, N, lt, commits, term,
    isPrefix⟩
  · rw [empty]
    exact List.nil_prefix
  apply isPrefix.trans
  by_cases newer : (R.node l a).currentTerm < u
  · exact commits.complete unique afterRun sends newer leads
  · -- the commit is of the leader's own term, so it is its own
    have same : (R.node l a).currentTerm = u := by omega
    have own : R.Leads l a u := same ▸ commits.own.1
    have isLeader := unique.leads own leads
    subst isLeader
    exact (List.take_prefix _ _).trans (own.log leads (by omega))

/-- Node 2, which holds `x`, asks for votes in term 2. -/
def ballotOfTwo : VoteCall where
  caller := 2
  target := 3
  electionTerm := 2
  req := { term := 2, candidateId := 2, lastLogIndex := 1, lastLogTerm := 1 }

/-- After `oneCommit`, 3 elects 2. -/
def nextLeader : List Action :=
  oneCommit ++ stand 2 ++
    [⟨2, .requestVote 3 2⟩, ⟨3, .replyVote ballotOfTwo⟩,
      ⟨2, .voteReply ballotOfTwo { term := 2, voteGranted := true }⟩]

theorem leader_completeness_of_next :
    ∃ R : ClusterRun (.ofSize 3 (by decide)), (R.state 17).committed 1 = [⟨1, "x"⟩] ∧
      R.Leads 24 2 2 ∧ (R.state 17).committed 1 <+: (R.node 24 2).log := by
  let R : ClusterRun (.ofSize 3 (by decide)) := .of _ nextLeader (by decide +kernel)
  have unique : R.OneLeaderPerTerm := oneLeader_of_majority (Or.inl rfl) R
  have afterRun : R.ProposesAfterRun := proposesAfterRun_of_checked (by decide +kernel)
  have sends : R.SendsAsLeader := sendsAsLeader_of_checked (by decide +kernel)
  have leads : R.Leads 24 2 2 :=
    ⟨by decide, by decide +kernel, by decide +kernel, by decide +kernel⟩
  exact ⟨R, by decide +kernel, leads, leader_completeness R unique afterRun sends (by decide) leads
    (Or.inl (by decide +kernel))⟩

end ClusterRun

end Rafty
