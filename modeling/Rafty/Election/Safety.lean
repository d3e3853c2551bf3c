/-
# Rafty.Election.Safety — one leader in a term, and when

`become_leader` runs as soon as the votes exceed half of `peers_`.  In a cluster of
an odd number of nodes that is a majority of the nodes, and two majorities meet in
a node that would have voted twice (`oneLeader_of_majority`).  In a cluster of two,
a candidate needs its only peer.  In an even cluster of four or more, half of the
nodes is enough, and each half can elect a leader (`split_elects`).
-/
import Rafty.Election.Split

namespace Rafty

set_option autoImplicit false

open Theory

/-- The votes that make a leader are a majority of the nodes. -/
def Cluster.MajorityElects (cl : Cluster) : Prop := cl.size % 2 = 1 ∨ cl.size = 2

namespace ClusterRun

variable {cl : Cluster} {R : ClusterRun cl} {j k a b : Nat} {t : Int}

/-- Two elections of one term had a common voter, if their quorums outnumber the
cluster. -/
theorem Elects.same_node (first : R.Elects j a t) (second : R.Elects k b t)
    (majority : cl.MajorityElects) : a = b := by
  obtain ⟨A, halfA, pairA, grantsA⟩ := first.quorum
  obtain ⟨B, halfB, pairB, grantsB⟩ := second.quorum
  have inA : ∀ v ∈ A, v ∈ cl.ids := by
    intro v member
    obtain ⟨g, -, grants, -⟩ := grantsA v member
    exact grants.recorded.2.1
  have inB : ∀ v ∈ B, v ∈ cl.ids := by
    intro v member
    obtain ⟨g, -, grants, -⟩ := grantsB v member
    exact grants.recorded.2.1
  have many : cl.size < A.card + B.card := by
    rcases majority with odd | two <;> omega
  obtain ⟨v, memberA, memberB⟩ := Cluster.overlap inA inB many
  obtain ⟨g, -, forA, -⟩ := grantsA v memberA
  obtain ⟨h, -, forB, -⟩ := grantsB v memberB
  exact forA.unique forB

theorem oneLeader_of_majority (majority : cl.MajorityElects) (R : ClusterRun cl) :
    R.OneLeaderPerTerm := by
  intro j k a b t first second
  exact first.same_node second majority

/-! ## The elections of a run on paper -/

/-- Node `c` with an empty log stands for term `t` when its election timer of version
`timer` expires, and gets the vote of `v`. -/
def campaign (c v timer : Nat) (t : Int) : List Action :=
  [⟨c, .startElectionTimer⟩, ⟨c, .timerExpired timer .election⟩, ⟨c, .becomeCandidate⟩,
    ⟨c, .requestVotes⟩, ⟨c, .requestVote v t⟩, ⟨v, .replyVote (ballot c v t)⟩,
    ⟨c, .voteReply (ballot c v t) { term := t, voteGranted := true }⟩]

/-! ## Election safety -/

/-- **Election safety.**  No two nodes of a cluster ever execute `become_leader` in one
term, in any run, if and only if the number of nodes is odd or two. -/
theorem election_safety (cl : Cluster) (two : 2 ≤ cl.size) :
    (∀ (R : ClusterRun cl) (j k a b : Nat) (t : Int),
      R.Elects j a t → R.Elects k b t → a = b) ↔ cl.MajorityElects := by
  constructor
  · intro safe
    by_contra minority
    rw [Cluster.MajorityElects, not_or] at minority
    obtain ⟨R, j, k, a, b, first, second, differ⟩ :=
      split_elects (show cl.size % 2 = 0 by omega) (by omega)
    exact differ (safe R j k a b 1 first second)
  · intro majority R j k a b t first second
    exact first.same_node second majority

/-- Three nodes: 2 votes for 1 in term 1. -/
def oneElection : List Action :=
  [⟨1, .run⟩, ⟨2, .run⟩, ⟨3, .run⟩] ++ campaign 1 2 1 1

theorem election_safety_of_three :
    ∃ R : ClusterRun (.ofSize 3 (by decide)), R.Elects 9 1 1 ∧ ∀ k b, R.Elects k b 1 → b = 1 := by
  let R : ClusterRun (.ofSize 3 (by decide)) := .of _ oneElection (by decide +kernel)
  have elected : R.Elects 9 1 1 :=
    elects_of_wins (by decide) rfl (by decide +kernel) (by decide +kernel)
  refine ⟨R, elected, ?_⟩
  intro k b elects
  exact (election_safety _ (by decide)).mpr (Or.inl rfl) R k 9 b 1 1 elects elected

/-- Four nodes: 3 votes for 1 and 4 votes for 2, both in term 1. -/
def splitVote : List Action :=
  [⟨1, .run⟩, ⟨2, .run⟩, ⟨3, .run⟩, ⟨4, .run⟩] ++ campaign 1 3 1 1 ++ campaign 2 4 1 1

theorem election_safety_refuted :
    ¬ ∀ (cl : Cluster), 2 ≤ cl.size → ∀ (R : ClusterRun cl) (j k a b : Nat) (t : Int),
      R.Elects j a t → R.Elects k b t → a = b := by
  intro safe
  let R : ClusterRun (.ofSize 4 (by decide)) := .of _ splitVote (by decide +kernel)
  have first : R.Elects 10 1 1 :=
    elects_of_wins (by decide) rfl (by decide +kernel) (by decide +kernel)
  have second : R.Elects 17 2 1 :=
    elects_of_wins (by decide) rfl (by decide +kernel) (by decide +kernel)
  exact absurd (safe _ (by decide) R 10 17 1 2 1 first second) (by decide)

end ClusterRun

end Rafty
