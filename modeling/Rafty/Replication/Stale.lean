/-
# Rafty.Replication.Stale — replies of an earlier leadership

A reply is stale when its request was sent in another term or its node leads no more.
The handler checks both and returns, but only after it has written
`replyCounter[target]`, and `become_leader` starts that counter from 0 again.  So the
number of a stale reply may be above the numbers of the requests now under way, and
then the replies to these are skipped.

* `handleAppendReply_stale`: what a stale reply leaves behind, in any state;
* `stale_replies`: stale replies do nothing, and the run is one in which they were all
  lost, exactly if each one's number is at most the counter of its target;
* `leftover`: the acknowledgement of a new leadership is skipped.
-/
import Rafty.Replication.Provenance

namespace Rafty

set_option autoImplicit false

open Theory

namespace Raft

variable {config : Config} {r : Raft} {call : AppendCall} {reply : AppendEntriesReply}

/-! ## One stale reply -/

/-- The reply is not above the term of the node, and its request does not belong to a
leadership that the node is in. -/
def Stale (r : Raft) (call : AppendCall) (reply : AppendEntriesReply) : Prop :=
  reply.term ≤ r.currentTerm ∧ (call.req.term ≠ r.currentTerm ∨ r.currentRole ≠ .leader)

instance (r : Raft) (call : AppendCall) (reply : AppendEntriesReply) :
    Decidable (r.Stale call reply) :=
  inferInstanceAs (Decidable (_ ∧ _))

/-- A stale reply is either skipped or recorded in `replyCounter`. -/
theorem handleAppendReply_stale (stale : r.Stale call reply) :
    r.handleAppendReply config call reply =
      some (if call.currentReplyCounter < r.replyCounter call.target then r
        else r.setReplyCounter call.target call.currentReplyCounter) := by
  obtain ⟨notHigher, left⟩ := stale
  unfold handleAppendReply
  split
  · rfl
  · have below : ¬ (r.setReplyCounter call.target call.currentReplyCounter).currentTerm <
        reply.term := not_lt.mpr notHigher
    have filtered : (r.setReplyCounter call.target call.currentReplyCounter).currentRole ≠ .leader ∨
        call.req.term ≠ (r.setReplyCounter call.target call.currentReplyCounter).currentTerm :=
      left.symm
    rw [if_neg below, if_pos filtered]

/-- Writing a counter changes nothing exactly if it has that value. -/
theorem setReplyCounter_eq_self {target : Nat} {value : Int} :
    r.setReplyCounter target value = r ↔ r.replyCounter target = value := by
  constructor
  · intro same
    have counters := congrFun (congrArg Raft.replyCounter same) target
    simpa [setReplyCounter] using counters.symm
  · intro same
    have counters : (fun p => if p = target then value else r.replyCounter p) = r.replyCounter := by
      funext p
      split
      · rename_i isTarget
        rw [isTarget, same]
      · rfl
    rw [setReplyCounter, counters]

/-- **A stale reply does nothing** exactly if its number is at most the counter. -/
theorem stale_ignored_iff (stale : r.Stale call reply) :
    r.handleAppendReply config call reply = some r ↔
      call.currentReplyCounter ≤ r.replyCounter call.target := by
  rw [handleAppendReply_stale stale, Option.some.injEq]
  split
  · rename_i skipped
    exact ⟨fun _ => skipped.le, fun _ => rfl⟩
  · rename_i recorded
    rw [setReplyCounter_eq_self]
    omega

end Raft

namespace ClusterRun

variable {cl : Cluster} {R : ClusterRun cl} {k a : Nat} {call : AppendCall}
  {reply : AppendEntriesReply} {output : Output}

/-! ## Stale replies in a run -/

/-- The actions of the run, with every stale reply lost on its way. -/
def withoutStale (R : ClusterRun cl) (k : Nat) : Action :=
  match R.input k with
  | ⟨a, .appendReply call reply⟩ =>
      if (R.node k a).Stale call reply then ⟨a, .appendFailed call⟩
      else ⟨a, .appendReply call reply⟩
  | action => action

/-- No stale reply has an effect. -/
structure StaleHarmless (R : ClusterRun cl) : Prop where
  /-- The thread that waited for it ends, and the node is as before. -/
  ignored : ∀ k a call reply output, R.Ran k a (.appendReply call reply) output →
    (R.node k a).Stale call reply → R.node (k + 1) a = (R.node k a).finish (.awaitAppend call)
  /-- Every other step, of any reply in particular, is as if no stale reply had come. -/
  independent : ∃ R' : ClusterRun cl, R'.length = R.length ∧ R'.state = R.state ∧
    R'.input = R.withoutStale

/-- The number of a stale reply is at most the counter of its target. -/
def StaleNumbersOld (R : ClusterRun cl) : Prop :=
  ∀ k a call reply output, R.Ran k a (.appendReply call reply) output →
    (R.node k a).Stale call reply →
      call.currentReplyCounter ≤ (R.node k a).replyCounter call.target

theorem ignored_iff (ran : R.Ran k a (.appendReply call reply) output)
    (stale : (R.node k a).Stale call reply) :
    R.node (k + 1) a = (R.node k a).finish (.awaitAppend call) ↔
      call.currentReplyCounter ≤ (R.node k a).replyCounter call.target := by
  have finished : ((R.node k a).finish (.awaitAppend call)).Stale call reply := stale
  rw [← Option.some.injEq, ← Raft.step_appendReply ran.stepped]
  exact Raft.stale_ignored_iff finished

/-- A reply that is ignored might as well have been lost. -/
theorem lost_of_ignored (ran : R.Ran k a (.appendReply call reply) output)
    (ignored : R.node (k + 1) a = (R.node k a).finish (.awaitAppend call)) :
    (machine cl).step (R.state k) ⟨a, .appendFailed call⟩ = some (R.state (k + 1)) := by
  have failed : (R.node k a).step (cl.config a) (.appendFailed call) =
      some (R.node (k + 1) a, .none) := by
    rw [ignored]
    exact Raft.step_of_section (.appendFailed (ran.pending rfl))
  have silent : output = .none := by
    cases Raft.step_section ran.stepped with
    | appendReply => rfl
  have nodes : (R.state (k + 1)).nodes =
      Function.update (R.state k).nodes a (R.node (k + 1) a) := by
    funext b
    by_cases same : b = a
    · rw [same, Function.update_self]
      rfl
    · rw [Function.update_of_ne same]
      exact ran.others b same
  have network := ran.network
  rw [silent, nodes] at network
  have member := ran.member
  rw [network]
  simp only [node] at failed ⊢
  simp [machine, World.step, World.Delivers, member, failed, World.post]

/-- **Stale replies are no-ops**, and do not touch the effect of any other reply, exactly
if each one's number is at most the counter of its target when it is handled. -/
theorem stale_replies (R : ClusterRun cl) : R.StaleHarmless ↔ R.StaleNumbersOld := by
  constructor
  · intro harmless k a call reply output ran stale
    exact (ignored_iff ran stale).mp (harmless.ignored k a call reply output ran stale)
  · intro old
    have ignored : ∀ k a call reply output, R.Ran k a (.appendReply call reply) output →
        (R.node k a).Stale call reply →
          R.node (k + 1) a = (R.node k a).finish (.awaitAppend call) := by
      intro k a call reply output ran stale
      exact (ignored_iff ran stale).mpr (old k a call reply output ran stale)
    refine ⟨ignored, ⟨R.length, R.state, R.withoutStale, R.start, ?_⟩, rfl, rfl, rfl⟩
    intro k within
    have unchanged := R.next k within
    unfold withoutStale
    split
    · rename_i a call reply action
      rw [action] at unchanged
      split
      · rename_i stale
        obtain ⟨output, ran⟩ := ran_of_action within action
        exact lost_of_ignored ran (ignored k a call reply output ran stale)
      · exact unchanged
    · exact unchanged

/-! ## The counter of a new leadership -/

/-- Leader 1 of term 1 has one acknowledged request and one under way to node 2 when node 2
makes it step down.  It is elected again, in term 3, and sends an entry.  The late reply
arrives just before the acknowledgement of that entry, which is then skipped. -/
def leftover : List Action :=
  oneElection ++ heartbeat 1 2 ++
    [⟨1, .sendEntriesTo 2⟩, ⟨2, .appendEntries (wholeLog 1 2 1 [] 0 1)⟩,
      ⟨1, .appendReply (wholeLog 1 2 1 [] 0 1) { term := 1, success := true }⟩] ++
    heartbeat 1 3 ++
    [⟨1, .sendEntriesTo 2⟩, ⟨2, .appendEntries (wholeLog 1 2 1 [] 0 2)⟩] ++
    (campaign 2 1 1 2).take 6 ++ campaign 1 3 4 3 ++ [⟨1, .propose "x"⟩] ++ heartbeat 1 5 ++
    [⟨1, .sendEntriesTo 2⟩, ⟨2, .appendEntries (wholeLog 1 2 3 [⟨3, "x"⟩] 0 1)⟩,
      ⟨1, .appendReply (wholeLog 1 2 1 [] 0 2) { term := 1, success := true }⟩,
      ⟨1, .appendReply (wholeLog 1 2 3 [⟨3, "x"⟩] 0 1) { term := 3, success := true }⟩]

theorem stale_replies_refuted : ¬ ∀ (cl : Cluster) (R : ClusterRun cl), R.StaleHarmless := by
  intro harmless
  let R : ClusterRun (.ofSize 3 (by decide)) := .of _ leftover (by decide +kernel)
  obtain ⟨output, ran⟩ := ran_of_action (R := R) (by decide)
    (show R.input 40 =
      ⟨1, .appendReply (wholeLog 1 2 1 [] 0 2) { term := 1, success := true }⟩ from rfl)
  have stale : (R.node 40 1).Stale (wholeLog 1 2 1 [] 0 2) { term := 1, success := true } := by
    decide +kernel
  have counter := congrArg (fun r => r.replyCounter 2)
    ((harmless _ R).ignored _ _ _ _ _ ran stale)
  have before : (R.node 40 1).replyCounter 2 = 0 := by decide +kernel
  have after : (R.node 41 1).replyCounter 2 = 2 := by decide +kernel
  simp only [Raft.finish, before, after] at counter
  exact absurd counter (by decide)

end ClusterRun

end Rafty
