/-
# Rafty.Commit.Wakeup — no caller of propose_sync sleeps on

A blocked call is woken by whoever makes its predicate true.  The handlers do so
(`step_attends`), but not everybody does: `become_candidate` and `run` take a leader out
of office without a word to its callers, `become_leader` takes a node back into office
although callers of its last leadership may still be blocked, their registrations gone,
and `apply_entries` never comes back to an index it has passed.  If none of this happens
to a call whose index is not committed, no wakeup is lost (`no_lost_wakeup`).
-/
import Rafty.Commit.Sync

namespace Rafty

set_option autoImplicit false

namespace Raft

variable {r r' s : Raft} {w : SyncCall} {data : String}

/-! ## Changes of role, new calls and waking calls -/

/-- Dropping one index leaves the others registered. -/
theorem lookup_filter_ne {cvs : List (Nat × Nat)} {i j : Nat} (ne : i ≠ j) :
    (cvs.filter fun kv => kv.1 ≠ j).lookup i = cvs.lookup i := by
  induction cvs with
  | nil => rfl
  | cons kv rest ih =>
      obtain ⟨key, cv⟩ := kv
      by_cases same : key = j
      · have other : (i == key) = false := by simpa [same] using ne
        rw [List.filter_cons_of_neg (by simpa using same), List.lookup_cons, other]
        exact ih
      · rw [List.filter_cons_of_pos (by simpa using same), List.lookup_cons, List.lookup_cons, ih]

/-- So does registering another one there. -/
theorem lookup_register_ne {cvs : List (Nat × Nat)} {i j cv : Nat} (ne : i ≠ j) :
    ((j, cv) :: cvs.filter fun kv => kv.1 ≠ j).lookup i = cvs.lookup i := by
  have other : (i == j) = false := by simpa using ne
  rw [List.lookup_cons, other]
  exact lookup_filter_ne ne

/-- A call stays registered if nothing it depends on changes. -/
theorem Registered.stay (registered : r.Registered w) (role : s.currentRole = r.currentRole)
    (commit : s.commitIndex = r.commitIndex) (applied : s.lastApplied = r.lastApplied)
    (log : r.log.length ≤ s.log.length)
    (cvs : s.proposalCvs.lookup w.proposalIndex = r.proposalCvs.lookup w.proposalIndex) :
    s.Registered w where
  waits := by
    rw [syncReady, commit, role]
    exact registered.waits
  cv := cvs.trans registered.cv
  ahead := applied ▸ registered.ahead
  inside := registered.inside.trans log

/-- The role may change behind the backs of callers whose indices are committed. -/
theorem attended_office {role : Role} (attended : r.Attended)
    (waiting : r'.waiting = { r.waiting with currentRole := role })
    (nobody : r.currentRole = .leader ∨ role = .leader →
      ∀ w ∈ r.waiters, w.proposalIndex ≤ r.commitIndex) : r'.Attended := by
  simp only [Raft.waiting, Waiting.mk.injEq] at waiting
  obtain ⟨sameRole, commit, -, -, waiters⟩ := waiting
  intro w blocked
  rw [waiters] at blocked
  have settled : r.syncReady w := by
    by_cases leader : r.currentRole = .leader
    · exact Or.inl (nobody (Or.inl leader) w blocked)
    · exact Or.inr leader
  constructor
  · intro _
    exact (attended w blocked).1 settled
  · intro waits
    obtain ⟨beyond, leader⟩ := not_syncReady.mp waits
    have committed := nobody (Or.inr (sameRole ▸ leader)) w blocked
    omega

/-- A new call blocks at an index that nobody waits at. -/
theorem attended_proposeSync (attended : r.Attended)
    (ahead : r.currentRole = .leader → r.commitIndex ≤ r.log.length →
      r.lastApplied ≤ r.log.length) : (r.proposeSync data).1.Attended := by
  unfold proposeSync
  split
  · rename_i leader
    have index : (r.syncCall data).proposalIndex = r.log.length + 1 := rfl
    simp only
    split
    · -- the index is committed already
      intro w blocked
      obtain ⟨notified, registered⟩ := attended w blocked
      refine ⟨notified, fun waits => ?_⟩
      have before := registered waits
      have inside := before.inside
      refine before.stay rfl rfl rfl (by simp [finishSync, append]) ?_
      exact (lookup_filter_ne (by omega)).trans (lookup_register_ne (by omega))
    · rename_i waits
      have beyond := (not_syncReady.mp waits).1
      intro w blocked
      rcases List.mem_append.mp blocked with old | new
      · obtain ⟨notified, registered⟩ := attended w old
        refine ⟨notified, fun waits => ?_⟩
        have before := registered waits
        have inside := before.inside
        exact before.stay rfl rfl rfl (by simp [append]) (lookup_register_ne (by omega))
      · cases List.mem_singleton.mp new
        refine ⟨fun ready => absurd ready waits, fun _ => ⟨waits, ?_, ?_, ?_⟩⟩
        · exact List.lookup_cons_self
        · have last := ahead leader (by
            change r.commitIndex < r.log.length + 1 at beyond
            omega)
          change r.lastApplied < r.log.length + 1
          omega
        · simp [syncCall, accepted, append]
  · exact attended

/-- A caller that wakes takes away its own registration only, or waits on. -/
theorem attended_wakeSync {call : SyncCall} (attended : r.Attended) (blocked : call ∈ r.waiters) :
    (r.wakeSync call).1.Attended := by
  unfold wakeSync
  simp only
  split
  · rename_i ready
    intro w remains
    obtain ⟨notified, registered⟩ := attended w (List.mem_of_mem_erase remains)
    refine ⟨notified, fun waits => ?_⟩
    have before := registered waits
    obtain ⟨beyond, leader⟩ := not_syncReady.mp waits
    change r.commitIndex < w.proposalIndex at beyond
    change r.currentRole = .leader at leader
    -- the waking call's index is committed, and the index of `w` is not
    have committed : call.proposalIndex ≤ r.commitIndex :=
      ready.resolve_right fun left => left leader
    exact before.stay rfl rfl rfl le_rfl (lookup_filter_ne (by omega))
  · rename_i waits
    intro w remains
    rcases List.mem_append.mp remains with old | again
    · obtain ⟨notified, registered⟩ := attended w (List.mem_of_mem_erase old)
      exact ⟨notified, fun waits => (registered waits).stay rfl rfl rfl le_rfl rfl⟩
    · cases List.mem_singleton.mp again
      refine ⟨fun ready => absurd ready waits, fun _ => ?_⟩
      obtain ⟨-, cv, ahead, inside⟩ := (attended call blocked).2 waits
      exact ⟨waits, cv, ahead, inside⟩

theorem lastApplied_proposeSync : (r.proposeSync data).1.lastApplied = r.lastApplied :=
  congrArg Progress.lastApplied (r.progress_proposeSync data)

theorem lastApplied_wakeSync (call : SyncCall) :
    (r.wakeSync call).1.lastApplied = r.lastApplied :=
  congrArg Progress.lastApplied (r.progress_wakeSync call)

end Raft

namespace ClusterRun

variable {cl : Cluster} {R : ClusterRun cl} {k a : Nat} {w : SyncCall}

/-- No call is left alone with an index that is not committed: no leader leaves office by
`become_candidate` or `run`, and nobody becomes leader, over one, and none begins to wait
at an index that was applied before. -/
structure NobodyStranded (R : ClusterRun cl) : Prop where
  leaving : ∀ k a input output, R.Ran k a input output → input = .becomeCandidate ∨ input = .run →
    (R.node k a).currentRole = .leader →
      ∀ w ∈ (R.node k a).waiters, w.proposalIndex ≤ (R.node k a).commitIndex
  winning : ∀ k a t, R.Elects k a t →
    ∀ w ∈ (R.node k a).waiters, w.proposalIndex ≤ (R.node k a).commitIndex
  proposing : ∀ k a data output, R.Ran k a (.proposeSync data) output →
    (R.node k a).currentRole = .leader → (R.node k a).commitIndex ≤ (R.node k a).log.length →
      (R.node k a).lastApplied ≤ (R.node k a).log.length

/-- The wakeup of the call `w`, blocked on node `a` in state `k`, is not lost. -/
structure Reached (R : ClusterRun cl) (k a : Nat) (w : SyncCall) : Prop where
  /-- If its predicate holds, it was notified since it last looked. -/
  notified : (R.node k a).syncReady w → w.notified = true
  /-- If not, it is registered at its index, which is still to be applied. -/
  registered : ¬ (R.node k a).syncReady w →
    (R.node k a).proposalCvs.lookup w.proposalIndex = some w.cv ∧
      (R.node k a).lastApplied < w.proposalIndex
  /-- The step that applies it notifies it. -/
  applies : ¬ (R.node k a).syncReady w → k < R.length →
    w.proposalIndex ≤ (R.node (k + 1) a).lastApplied →
      { w with notified := true } ∈ (R.node (k + 1) a).waiters

/-- One step keeps the callers attended. -/
theorem attended_step (nobody : R.NobodyStranded) {input : Input} {output : Output}
    (ran : R.Ran k a input output) (attended : (R.node k a).Attended) :
    (R.node (k + 1) a).Attended := by
  generalize after : R.node (k + 1) a = r'
  cases after ▸ Raft.step_attends ran.stepped with
  | serves serves => exact serves.attended attended
  | office role changes waiting =>
      apply Raft.attended_office attended waiting
      rcases changes with ⟨leaves, notLeader⟩ | ⟨call, reply, rfl, wins⟩
      · rintro (leader | isLeader)
        · exact nobody.leaving k a input output ran leaves leader
        · exact absurd isLeader notLeader
      · intro _
        exact nobody.winning k a _ ⟨call, reply, output, ran, wins, rfl⟩
  | proposeSync data =>
      exact Raft.attended_proposeSync attended (nobody.proposing k a data output ran)
  | wakeSync blocked => exact Raft.attended_wakeSync attended blocked

theorem attended (nobody : R.NobodyStranded) (bound : k ≤ R.length) (a : Nat) :
    (R.node k a).Attended := by
  apply R.invariant (P := fun k => (R.node k a).Attended) ?_ ?_ k bound
  · obtain ⟨role, isNew⟩ := R.start_node a
    intro w blocked
    simp [isNew, Raft.new] at blocked
  · intro k within ih
    rcases node_cases within a with same | ⟨input, output, ran⟩
    · rwa [same]
    · exact attended_step nobody ran ih

/-- **No lost wakeup.**  In a run that strands nobody, every blocked call whose predicate
holds was notified, and every other one is registered and will be notified by the step
that applies its index. -/
theorem no_lost_wakeup (R : ClusterRun cl) (nobody : R.NobodyStranded) :
    ∀ k, k ≤ R.length → ∀ a, ∀ w ∈ (R.node k a).waiters, R.Reached k a w := by
  intro k bound a w blocked
  obtain ⟨notified, registered⟩ := attended nobody bound a w blocked
  refine ⟨notified, fun waits => ⟨(registered waits).cv, (registered waits).ahead⟩, ?_⟩
  intro waits within applied
  have before := registered waits
  have ahead := before.ahead
  rcases node_cases within a with same | ⟨input, output, ran⟩
  · rw [same] at applied
    omega
  generalize after : R.node (k + 1) a = r' at applied ⊢
  cases after ▸ Raft.step_attends ran.stepped with
  | serves serves => exact serves.applies before blocked applied
  | office role changes waiting =>
      have last : r'.lastApplied = (R.node k a).lastApplied :=
        congrArg Raft.Waiting.lastApplied waiting
      omega
  | proposeSync data =>
      rw [Raft.lastApplied_proposeSync] at applied
      omega
  | wakeSync _ =>
      rw [Raft.lastApplied_wakeSync] at applied
      omega

theorem no_lost_wakeup_of_commit :
    ∃ R : ClusterRun (.ofSize 3 (by decide)), ∃ w ∈ (R.node 16 1).waiters,
      w.notified = false ∧ { w with notified := true } ∈ (R.node 17 1).waiters := by
  let R : ClusterRun (.ofSize 3 (by decide)) := .of _ syncCommit (by decide +kernel)
  have leaving : ∀ k < 18, (R.input k).input = .becomeCandidate ∨ (R.input k).input = .run →
      (R.node k (R.input k).node).currentRole ≠ .leader := by decide +kernel
  have winning : ∀ k < 18, (R.node k (R.input k).node).currentRole = .candidate →
      (R.node k (R.input k).node).waiters = [] := by decide +kernel
  have proposing : ∀ k < 18, (R.node k (R.input k).node).lastApplied ≤
      (R.node k (R.input k).node).log.length := by decide +kernel
  have nobody : R.NobodyStranded := by
    constructor
    · intro k a input output ran leaves leader
      have follower := leaving k ran.within
      rw [ran.action] at follower
      exact absurd leader (follower leaves)
    · intro k a t elects w blocked
      obtain ⟨within, -, role, -⟩ := elects.before
      obtain ⟨_, _, _, ran, -, -⟩ := elects
      have free := winning k within
      rw [ran.action] at free
      rw [free role] at blocked
      cases blocked
    · intro k a data output ran _ _
      have inside := proposing k ran.within
      rwa [ran.action] at inside
  have blocked : { waitsForX with notified := false } ∈ (R.node 16 1).waiters := by
    decide +kernel
  have reached := no_lost_wakeup R nobody 16 (by decide) 1 _ blocked
  exact ⟨R, _, blocked, rfl, reached.applies (by decide +kernel) (by decide) (by decide +kernel)⟩

/-- The election timer of candidate 1 expires again before it is elected.  A client calls
`propose_sync` on the new leader, and then the second `become_candidate` gets the lock. -/
def secondTimeout : List Action :=
  [⟨1, .run⟩, ⟨2, .run⟩, ⟨3, .run⟩] ++ (campaign 1 2 1 1).take 5 ++
    [⟨1, .startElectionTimer⟩, ⟨1, .timerExpired 2 .election⟩] ++ (campaign 1 2 1 1).drop 5 ++
    [⟨1, .proposeSync "x"⟩, ⟨1, .becomeCandidate⟩]

theorem no_lost_wakeup_refuted :
    ¬ ∀ (cl : Cluster) (R : ClusterRun cl) (k : Nat), k ≤ R.length → ∀ a,
      ∀ w ∈ (R.node k a).waiters, R.Reached k a w := by
  intro reached
  let R : ClusterRun (.ofSize 3 (by decide)) := .of _ secondTimeout (by decide +kernel)
  have blocked : { waitsForX with notified := false } ∈ (R.node 14 1).waiters := by
    decide +kernel
  have notified := (reached _ R 14 (by decide) 1 _ blocked).notified (by decide +kernel)
  cases notified

end ClusterRun

end Rafty
