/-
# Rafty.Kernel.Waiters — the callers blocked in propose_sync

A call that is blocked is known by its condition variable, its index, the result it
will return and its data; being notified does not change these (`Raft.calls`).  Only
`propose_sync` adds a call, and only a waking caller takes its own away
(`step_calls`).
-/
import Rafty.Kernel.Notify

namespace Rafty

set_option autoImplicit false

/-- The call, whether it was notified or not. -/
def SyncCall.known (call : SyncCall) : SyncCall := { call with notified := false }

namespace Raft

/-- The blocked calls. -/
def calls (r : Raft) : List SyncCall := r.waiters.map SyncCall.known

/-! ## The calls after a section -/

variable {config : Config} {r r' : Raft}

/-- Who serves the callers leaves the calls alone. -/
theorem Serves.calls (serves : Serves r r') : r'.calls = r.calls := by
  obtain ⟨cvs, waiters, -⟩ := serves.heard
  rw [Raft.calls, Raft.calls, waiters, notifyAll, List.map_map]
  apply List.map_congr_left
  intro w _
  simp only [Function.comp_apply, SyncCall.hear]
  split <;> rfl

theorem calls_proposeSync {data : String} {call : SyncCall}
    (member : call ∈ (r.proposeSync data).1.calls) :
    call ∈ r.calls ∨ r.currentRole = .leader ∧ call = r.syncCall data := by
  unfold proposeSync at member
  split at member
  · rename_i role
    simp only at member
    split at member
    · exact Or.inl member
    · simp only [calls, List.map_append, List.map_cons, List.map_nil, List.mem_append,
        List.mem_singleton] at member
      exact member.imp_right fun same => ⟨role, same⟩
  · exact Or.inl member

theorem calls_wakeSync {woken call : SyncCall} (blocked : woken ∈ r.waiters)
    (member : call ∈ (r.wakeSync woken).1.calls) : call ∈ r.calls := by
  have fewer : ∀ w ∈ (r.waiters.erase woken).map SyncCall.known, w ∈ r.calls := by
    intro w inErased
    obtain ⟨original, inWaiters, rfl⟩ := List.mem_map.mp inErased
    exact List.mem_map_of_mem (List.mem_of_mem_erase inWaiters)
  unfold wakeSync at member
  simp only at member
  split at member
  · exact fewer call member
  · simp only [calls, List.map_append, List.map_cons, List.map_nil, List.mem_append,
      List.mem_singleton] at member
    rcases member with old | same
    · exact fewer call old
    · have known : woken.known ∈ r.calls := List.mem_map_of_mem blocked
      exact same ▸ known

/-- **Which calls are blocked.**  Those that were, and a new one of `propose_sync`. -/
theorem step_calls {input : Input} {output : Output} {call : SyncCall}
    (stepped : r.step config input = some (r', output)) (member : call ∈ r'.calls) :
    call ∈ r.calls ∨
      ∃ data, input = .proposeSync data ∧ r.currentRole = .leader ∧ call = r.syncCall data := by
  cases step_attends stepped with
  | serves serves => exact Or.inl (serves.calls ▸ member)
  | office role _ waiting =>
      have same : r'.waiters = r.waiters := congrArg Waiting.waiters waiting
      rw [calls, same] at member
      exact Or.inl member
  | proposeSync data => exact (calls_proposeSync member).imp_right fun new => ⟨data, rfl, new⟩
  | wakeSync blocked => exact Or.inl (calls_wakeSync blocked member)

/-! ## Answers -/

theorem ofResult_eq_proposal {result : Option ProposalResult} {res : ProposalResult}
    (same : Output.ofResult result = .proposal res) : result = some res := by
  cases result with
  | none => cases same
  | some other => cases same; rfl

/-- A waking call returns success only with its own result, and only when
`commitIndex` has reached its index. -/
theorem wakeSync_success {call : SyncCall} {res : ProposalResult}
    (returned : (r.wakeSync call).2 = some res) (success : res.isLeader = true) :
    res = call.res ∧ call.proposalIndex ≤ r.commitIndex := by
  unfold wakeSync at returned
  simp only at returned
  split at returned
  · simp only [finishSync, Option.some.injEq] at returned
    split at returned
    · rename_i reached
      exact ⟨returned.symm, reached⟩
    · rw [← returned] at success
      cases success
  · cases returned

/-- The same of a call that returns without waiting. -/
theorem proposeSync_success {data : String} {res : ProposalResult}
    (returned : (r.proposeSync data).2 = some res) (success : res.isLeader = true) :
    r.currentRole = .leader ∧ res = (r.syncCall data).res ∧
      (r.syncCall data).proposalIndex ≤ r.commitIndex := by
  unfold proposeSync at returned
  split at returned
  · rename_i role
    simp only at returned
    split at returned
    · simp only [finishSync, Option.some.injEq] at returned
      split at returned
      · rename_i reached
        exact ⟨role, returned.symm, reached⟩
      · rw [← returned] at success
        cases success
    · cases returned
  · simp only [Option.some.injEq] at returned
    rw [← returned] at success
    cases success

end Raft

end Rafty
