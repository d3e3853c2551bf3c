/-
# Rafty.Replication.Indices — nextIndex and matchIndex of a leader lie inside its log

A leader sets `nextIndex` from four sources: its own log at the election, a
`conflict_index` it is told, its own search, and one less than before.  The reported
index lies at or below the `prev_log_index` of the request, the search looks at
positions of the log the request was built from, and only as far down as `matchIndex`
is a single step taken.  That log has only grown since (`Covers`), so all stay inside
(`bounds_handleAppendReply`).

A node elected by `become_leader` is therefore never out of bounds.  A node on which
`run` was not called may show the Leader role too, because the constructor leaves
`currentRole` as the memory held it; its maps are empty, and an empty `nextIndex` is 0
(`leader_index_bounds`).
-/
import Rafty.Election.Office
import Rafty.Replication.Repair

namespace Rafty

set_option autoImplicit false

open Theory

namespace Raft

variable {config : Config} {r r' : Raft} {call : AppendCall} {reply : AppendEntriesReply}
  {p : Nat}

/-- The indices a leader keeps for peer `p` lie inside its log. -/
structure IndexBounds (r : Raft) (p : Nat) : Prop where
  low : 1 ≤ r.nextIndex p
  high : r.nextIndex p ≤ r.log.length + 1
  matched : 0 ≤ r.matchIndex p
  covered : r.matchIndex p ≤ r.log.length

theorem IndexBounds.keep (bounds : IndexBounds r p) (next : r'.nextIndex p = r.nextIndex p)
    (matched : r'.matchIndex p = r.matchIndex p) (grown : r.log <+: r'.log) : IndexBounds r' p := by
  have longer := grown.length_le
  obtain ⟨low, high, nonneg, covered⟩ := bounds
  constructor <;> omega

/-- A new leader. -/
theorem bounds_becomeLeader (peer : p ∈ config.peers) : IndexBounds (r.becomeLeader config) p := by
  have next : (r.becomeLeader config).nextIndex p = r.log.length + 1 := by
    simp only [becomeLeader, spawn, if_pos peer]
  exact ⟨by omega, next.le, le_rfl, Int.natCast_nonneg _⟩

/-! ## Handling a reply -/

/-- The search finds nothing or a position in its interval. -/
theorem lastOfTerm_bounds {conflictTerm : Int} {fuel : Nat} {left right last found : Int}
    (searched : r.lastOfTerm conflictTerm fuel left right last = some found) :
    found = last ∨ left ≤ found ∧ found ≤ right := by
  induction fuel generalizing left right last with
  | zero =>
      cases searched
      exact Or.inl rfl
  | succ fuel ih =>
      simp only [lastOfTerm] at searched
      split at searched
      · cases searched
        exact Or.inl rfl
      simp only [Option.bind_eq_bind, Option.bind_eq_some_iff] at searched
      obtain ⟨entry, -, searched⟩ := searched
      split at searched
      · rcases ih searched with same | inside
        · exact Or.inr (by omega)
        · exact Or.inr (by omega)
      split at searched
      · rcases ih searched with same | inside
        · exact Or.inl same
        · exact Or.inr (by omega)
      · rcases ih searched with same | inside
        · exact Or.inl same
        · exact Or.inr (by omega)

/-- A conflict report that answers the request: its index is at most `prev_log_index`. -/
def Answers (call : AppendCall) (reply : AppendEntriesReply) : Prop :=
  ∀ info, reply.conflictInfo = some info → 1 ≤ info.conflictIndex ∧ info.conflictIndex ≤ call.pos

theorem bounds_backUp (bounds : IndexBounds r call.target) (answers : Answers call reply)
    (inside : call.pos ≤ r.log.length) (size : call.currentLogSize ≤ r.log.length)
    (backed : r.backUp call reply = some r') : IndexBounds r' call.target := by
  simp only [backUp] at backed
  split at backed
  · cases backed
    exact bounds
  split at backed
  · rename_i info report
    simp only [Option.bind_eq_bind, Option.bind_eq_some_iff, Option.pure_def,
      Option.some.injEq] at backed
    obtain ⟨last, searched, rfl⟩ := backed
    obtain ⟨lowIndex, highIndex⟩ := answers info report
    have found := lastOfTerm_bounds searched
    have value : 1 ≤ (if last ≠ -1 then last + 2 else info.conflictIndex) ∧
        (if last ≠ -1 then last + 2 else info.conflictIndex) ≤ r.log.length + 1 := by
      split <;> omega
    exact
      { low := by rw [setNextIndex]; simpa using value.1
        high := by rw [setNextIndex]; simpa using value.2
        matched := bounds.matched
        covered := bounds.covered }
  · split at backed
    · rename_i room
      cases backed
      have nonneg := bounds.matched
      have high := bounds.high
      exact
        { low := by simp only [setNextIndex, if_true]; omega
          high := by simp only [setNextIndex, if_true]; omega
          matched := bounds.matched
          covered := bounds.covered }
    · cases backed
      exact bounds

/-- An acceptance sets the indices of its peer to the end of the request. -/
theorem bounds_advance (bounds : IndexBounds r p) (sent : 0 ≤ lastLogIndexSent call)
    (reach : (lastLogIndexSent call).toNat ≤ r.log.length)
    (advanced : r.advance config call = some r') : IndexBounds r' p := by
  have log : r'.log = r.log := congrArg Core.log (core_advance advanced)
  obtain ⟨next, matched⟩ := indices_of_advance advanced
  by_cases isTarget : p = call.target
  · have nextP : r'.nextIndex p = lastLogIndexSent call + 1 := by
      rw [next, setAt, if_pos isTarget]
    have matchedP : r'.matchIndex p = lastLogIndexSent call := by
      rw [matched, setAt, if_pos isTarget]
    constructor
    · rw [nextP]; omega
    · rw [nextP, log]; omega
    · rw [matchedP]; exact sent
    · rw [matchedP, log]; omega
  · apply bounds.keep ?_ ?_ (by rw [log])
    · rw [next, setAt, if_neg isTarget]
    · rw [matched, setAt, if_neg isTarget]

/-- **Handling a reply keeps the bounds**, for the peer that gave it and the others. -/
theorem bounds_handleAppendReply (bounds : IndexBounds r p) (answers : Answers call reply)
    (covers : r.Covers call) (size : call.pos ≤ call.currentLogSize)
    (sent : 0 ≤ lastLogIndexSent call)
    (handled : r.handleAppendReply config call reply = some r') : IndexBounds r' p := by
  have log : r'.log = r.log := by
    cases handleAppendReply_change handled with
    | still same => exact congrArg Core.log same
    | higher _ _ same => exact congrArg Core.log same
    | append _ proposes _ _ => simp at proposes
  have grown : r.log <+: r'.log := by rw [log]
  simp only [handleAppendReply] at handled
  split at handled
  · cases handled
    exact bounds
  split at handled
  · cases handled
    have same := progress_stepDown ((r.setReplyCounter call.target
      call.currentReplyCounter).adoptTerm reply.term)
    exact bounds.keep (congrFun (congrArg Progress.nextIndex same) p)
      (congrFun (congrArg Progress.matchIndex same) p) grown
  split at handled
  · cases handled
    exact bounds.keep rfl rfl grown
  rename_i current
  simp only [not_or, not_not] at current
  obtain ⟨room, reach⟩ := covers current.1 current.2
  have recorded : IndexBounds (r.setReplyCounter call.target call.currentReplyCounter) p :=
    bounds.keep rfl rfl (List.prefix_refl _)
  split at handled
  · by_cases isTarget : p = call.target
    · subst isTarget
      exact bounds_backUp recorded answers (size.trans room) room handled
    · rcases backUp_progress handled with same | ⟨value, same⟩
      · exact recorded.keep (congrFun (congrArg Progress.nextIndex same) p)
          (congrFun (congrArg Progress.matchIndex same) p) grown
      · refine recorded.keep ?_ (congrFun (congrArg Progress.matchIndex same) p) grown
        have next := congrFun (congrArg Progress.nextIndex same) p
        simpa [progress, setAt, isTarget] using next
  · exact bounds_advance recorded sent reach handled

end Raft

namespace ClusterRun

variable {cl : Cluster} {R : ClusterRun cl} {k a p : Nat} {call : AppendCall}
  {reply : AppendEntriesReply}

/-! ## Calls that wait for a reply -/

/-- In the leadership of the request the log covers it. -/
theorem covers (bound : k ≤ R.length) (pending : .awaitAppend call ∈ (R.node k a).threads) :
    (R.node k a).Covers call := by
  obtain ⟨j, lt, sends⟩ := sends_of_pending bound pending
  exact sends.covers (tenure lt.le bound a)

/-- Replies answer their requests. -/
theorem answers {output : Output} (ran : R.Ran k a (.appendReply call reply) output) :
    Raft.Answers call reply := by
  intro info report
  obtain ⟨m, -, answered⟩ := appendReply_given ran.within.le ran.delivered
  obtain ⟨j, -, sent⟩ := sent_of_request answered.within.le answered.delivered.1
  have stepped := answered.stepped
  simp only [Raft.step, Option.bind_eq_bind, Option.bind_eq_some_iff] at stepped
  obtain ⟨⟨s, other⟩, handled, same⟩ := stepped
  cases same
  obtain ⟨failed, found⟩ := Raft.appendEntries_report handled report
  have prev := sent.sends.prev
  have positive := failed.1
  rcases Raft.conflictInfo_spec (by omega) prev found with ⟨short, rfl⟩ |
    ⟨entry, s, -, le, rfl, -⟩
  · simp only
    omega
  · simp only
    omega

theorem bounds_of_reply {output : Output} (bounds : (R.node k a).IndexBounds p)
    (ran : R.Ran k a (.appendReply call reply) output) : (R.node (k + 1) a).IndexBounds p := by
  have pending : .awaitAppend call ∈ (R.node k a).threads := ran.pending rfl
  obtain ⟨j, lt, sends⟩ := sends_of_pending ran.within.le pending
  have inside := sends.inside
  have size := sends.size
  have sent := sends.lastLogIndexSent
  -- the thread that handles the reply has left the list, which no index depends on
  have begun : ((R.node k a).finish (.awaitAppend call)).IndexBounds p :=
    bounds.keep rfl rfl (List.prefix_refl _)
  exact Raft.bounds_handleAppendReply begun (answers ran) (covers ran.within.le pending) (by omega)
    (by omega) (Raft.step_appendReply ran.stepped)

/-! ## Leaders -/

/-- **The indices of a running leader lie inside its log.** -/
theorem bounds_of_leads {t : Int} (leads : R.Leads k a t) (peer : p ∈ (cl.config a).peers) :
    (R.node k a).IndexBounds p := by
  obtain ⟨bound, running, role, -⟩ := leads
  revert running role
  apply R.invariant (P := fun k => (R.node k a).active = true →
    (R.node k a).currentRole = .leader → (R.node k a).IndexBounds p) ?_ ?_ k bound
  · intro running
    obtain ⟨role, isNew⟩ := R.start_node a
    simp [isNew, Raft.new] at running
  · intro k within ih running role
    rcases node_cases within a with same | ⟨input, output, ran⟩
    · rw [same] at running role ⊢
      exact ih running role
    obtain ⟨active, -, ⟨voteCall, reply, rfl, wins⟩ | ⟨before, grown⟩⟩ := ran.change.leader role
    · rw [node_of_wins ran wins]
      exact Raft.bounds_becomeLeader peer
    have bounds := ih (active ▸ running) before
    cases Raft.step_advance ran.stepped with
    | still same =>
        exact bounds.keep (congrFun (congrArg Raft.Progress.nextIndex same) p)
          (congrFun (congrArg Raft.Progress.matchIndex same) p) grown
    | elect wins _ => exact absurd (before.symm.trans wins.2.1) (by decide)
    | follow _ _ _ core _ _ _ _ =>
        have after := congrArg Raft.Core.currentRole core
        simp [Raft.core, role] at after
    | record | backUp | acknowledge => exact bounds_of_reply bounds ran

/-- As a leader the node keeps indices inside its log for every peer, and whatever reply a
waiting call of it gets, its handler reads inside the log. -/
structure IndicesInside (R : ClusterRun cl) (k a : Nat) : Prop where
  bounds : (R.node k a).currentRole = .leader →
    ∀ p ∈ (cl.config a).peers, (R.node k a).IndexBounds p
  reads : ∀ call reply, .awaitAppend call ∈ (R.node k a).threads →
    ((R.node k a).finish (.awaitAppend call)).handleAppendReply (cl.config a) call reply ≠ none

/-- **Leader index bounds.**  In every reachable state the indices of a leader lie inside
its log, and its reply handlers read inside it, exactly if `run` was called on the
node, or its memory did not say Leader from the start, or it has no peers. -/
theorem leader_index_bounds (R : ClusterRun cl) :
    ∀ k a, k ≤ R.length →
      (R.IndicesInside k a ↔ R.RoleWasSet k a ∨ (cl.config a).peers = []) := by
  intro k a bound
  constructor
  · intro inside
    by_contra unset
    simp only [RoleWasSet, not_or, not_not, Bool.not_eq_true] at unset
    obtain ⟨⟨inactive, role⟩, somePeer⟩ := unset
    have kept := untouched bound a inactive
    obtain ⟨p, peer⟩ := List.exists_mem_of_ne_nil _ somePeer
    have low := (inside.bounds (kept.role.trans role) p peer).low
    obtain ⟨started, isNew⟩ := R.start_node a
    rw [kept.nextIndex, isNew] at low
    simp [Raft.new] at low
  · intro set
    refine ⟨?_, ?_⟩
    · intro role p peer
      rcases set with (running | other) | none
      · exact bounds_of_leads ⟨bound, running, role, rfl⟩ peer
      · cases inactive : (R.node k a).active with
        | false => exact absurd ((untouched bound a inactive).role.symm.trans role) other
        | true => exact bounds_of_leads ⟨bound, inactive, role, rfl⟩ peer
      · rw [none] at peer
        cases peer
    · intro call reply pending outside
      have read := Raft.isSome_handleAppendReply (cl.config a)
        (r := (R.node k a).finish (.awaitAppend call)) reply (covers bound pending)
      rw [outside] at read
      cases read

theorem leader_index_bounds_of_commit :
    ∃ R : ClusterRun (.ofSize 3 (by decide)), (R.node 17 1).currentRole = .leader ∧
      (R.node 17 1).IndexBounds 2 := by
  let R : ClusterRun (.ofSize 3 (by decide)) := .of _ oneCommit oneCommit_accepted
  have leader : (R.node 17 1).currentRole = .leader := by decide +kernel
  have started : R.RoleWasSet 17 1 := Or.inl (by decide +kernel)
  have inside := (leader_index_bounds R 17 1 (by decide)).mpr (Or.inl started)
  exact ⟨R, leader, inside.bounds leader 2 (by decide)⟩

theorem leader_index_bounds_refuted :
    ¬ ∀ (cl : Cluster) (R : ClusterRun cl) (k a : Nat), k ≤ R.length → R.IndicesInside k a := by
  intro inside
  let R : ClusterRun (.ofSize 2 (by decide)) :=
    Run.of _ leftAsLeaders earlyProposal initial_leftAsLeaders (by decide +kernel)
  have low := ((inside _ R 1 1 le_rfl).bounds (by decide +kernel) 2 (by decide)).low
  have zero : (R.node 1 1).nextIndex 2 = 0 := by decide +kernel
  omega

end ClusterRun

end Rafty
