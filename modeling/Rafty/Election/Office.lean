/-
# Rafty.Election.Office — a node shows itself as leader only after it was elected

`propose`, `propose_sync` and `get_state` look at `currentRole` and at nothing else.
Once `run` was called the role is Follower, and it becomes Leader only in
`become_leader`.  Before that it is what the memory held when the node was
constructed: the handlers of requests do nothing yet, no thread runs, so it stays
(`Untouched`), and if it happens to be Leader, proposals are accepted in term 0
(`leadership_won`).
-/
import Rafty.Election.Safety
import Rafty.Kernel.Waiters

namespace Rafty

set_option autoImplicit false

open Theory

namespace Raft

variable {config : Config} {r r' : Raft}

/-! ## Who is taken for a leader -/

/-- The role and the indices are as the constructor left them. -/
structure Untouched (r r' : Raft) : Prop where
  role : r'.currentRole = r.currentRole
  nextIndex : r'.nextIndex = r.nextIndex
  matchIndex : r'.matchIndex = r.matchIndex

theorem Untouched.refl (r : Raft) : Untouched r r := ⟨rfl, rfl, rfl⟩

theorem Untouched.trans {r'' : Raft} (first : Untouched r r') (second : Untouched r' r'') :
    Untouched r r'' where
  role := second.role.trans first.role
  nextIndex := second.nextIndex.trans first.nextIndex
  matchIndex := second.matchIndex.trans first.matchIndex

theorem step_untouched {input : Input} {output : Output} (idle : Idle r)
    (inactive : r.active = false) (stepped : r.step config input = some (r', output)) :
    r'.active = true ∨ Untouched r r' := by
  have none_pending : ∀ thread, thread ∉ r.threads := by simp [idle.threads]
  cases step_section stepped with
  | run => exact Or.inl rfl
  | kill => exact Or.inr ⟨rfl, rfl, rfl⟩
  | replyVote =>
      refine Or.inr ?_
      simpa [replyVote, inactive] using Untouched.refl r
  | appendEntries answered =>
      simp only [appendEntries, inactive, if_true, Option.some.injEq, Prod.mk.injEq] at answered
      exact Or.inr (answered.1 ▸ Untouched.refl r)
  | @propose data =>
      have same := r.progress_propose data
      refine Or.inr ⟨?_, congrArg Progress.nextIndex same, congrArg Progress.matchIndex same⟩
      unfold Raft.propose
      split <;> rfl
  | @proposeSync data =>
      have same := r.progress_proposeSync data
      refine Or.inr ⟨?_, congrArg Progress.nextIndex same, congrArg Progress.matchIndex same⟩
      unfold Raft.proposeSync
      split
      · simp only
        split <;> rfl
      · rfl
  | @wakeSync call =>
      have same := r.progress_wakeSync call
      exact Or.inr ⟨congrArg Core.currentRole (core_wakeSync call),
        congrArg Progress.nextIndex same, congrArg Progress.matchIndex same⟩
  -- no thread is pending
  | startElectionTimer pending | startHeartbeatTimer pending | timerExpired pending
    | timerReset pending | becomeCandidate pending | requestVotes pending | requestVote pending
    | voteReply pending | voteFailed pending | sendEntries pending | sendEntriesTo pending
    | sendNothing pending | appendReply pending | appendFailed pending =>
      exact absurd pending (none_pending _)

end Raft

namespace ClusterRun

variable {cl : Cluster} {R : ClusterRun cl} {k a : Nat}

theorem untouched (bound : k ≤ R.length) (a : Nat) (inactive : (R.node k a).active = false) :
    Raft.Untouched (R.node 0 a) (R.node k a) := by
  revert inactive
  apply R.invariant (P := fun k => (R.node k a).active = false →
    Raft.Untouched (R.node 0 a) (R.node k a)) ?_ ?_ k bound
  · intro _
    exact .refl _
  · intro k within ih inactive
    have before : (R.node k a).active = false := by
      by_contra running
      have := (tenure (R := R) (Nat.le_add_right k 1) within a).active (by simpa using running)
      simp [inactive] at this
    rcases node_cases within a with same | ⟨input, output, ran⟩
    · rw [same]
      exact ih before
    · rcases Raft.step_untouched (idle within.le a before) before ran.stepped with running | kept
      · simp [inactive] at running
      · exact (ih before).trans kept

/-- `run` was called, or the memory of the new node did not say Leader. -/
def RoleWasSet (R : ClusterRun cl) (k a : Nat) : Prop :=
  (R.node k a).active = true ∨ (R.node 0 a).currentRole ≠ .leader

/-- New nodes whose memory says Leader. -/
def leftAsLeaders : World := { World.fresh with nodes := fun _ => Raft.new .leader }

theorem initial_leftAsLeaders : World.Initial leftAsLeaders :=
  ⟨fun _ => ⟨.leader, rfl⟩, rfl, rfl, rfl, rfl⟩

/-- A proposal reaches node 1 before `run`. -/
def earlyProposal : List Action := [⟨1, .propose "x"⟩]

end ClusterRun

end Rafty
