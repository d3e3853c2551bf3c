/-
# Rafty.Commit.Scan — the capped scan finds what the full rule would

The rule for a leader is to commit the largest index that holds an entry of its term and
that more than half of the nodes have (`Committable`).  The handler of an acceptance looks
only at the indices up to the end of the one request it answers.

It misses nothing, because a leader is settled at all times: no committable index lies
above its `commitIndex`.  A new leader has counted nobody; a proposal is at the leader
only; and an acceptance cannot make an index committable beyond the request's end, since
it sets the peer's `matchIndex` to that end, up or down (`advanced_of_advance`).
-/
import Rafty.Replication.Monotone
import Mathlib.Data.Nat.Find

namespace Rafty

set_option autoImplicit false

open Theory

namespace Raft

variable {config : Config} {r r' : Raft} {call : AppendCall}

/-- The entry at index `n` is of the current term, and more than half of the nodes have it. -/
def Committable (config : Config) (r : Raft) (n : Nat) : Prop :=
  0 < n ∧ (∃ entry ∈ r.log[n - 1]?, entry.term = r.currentTerm) ∧
    (config.peers.length + 1) / 2 < r.replicaCount config n

instance (r : Raft) (n : Nat) : Decidable (r.Committable config n) :=
  inferInstanceAs (Decidable (_ ∧ (∃ entry ∈ r.log[n - 1]?, _) ∧ _))

/-- The largest committable index, or 0. -/
def fullRule (config : Config) (r : Raft) : Nat :=
  Nat.findGreatest (r.Committable config) r.log.length

/-- Every committable index is committed. -/
def Settled (config : Config) (r : Raft) : Prop :=
  ∀ n, r.Committable config n → n ≤ r.commitIndex

theorem Committable.inside {n : Nat} (committable : r.Committable config n) :
    n ≤ r.log.length := by
  obtain ⟨positive, ⟨entry, read, -⟩, -⟩ := committable
  have := (List.getElem?_eq_some_iff.mp (Option.mem_def.mp read)).1
  omega

/-! ## The scan -/

/-- The scan passes over no committable index. -/
theorem commitScan_max {n found : Nat} (scanned : r.commitScan config n = some found) :
    r.commitIndex ≤ found ∧
      ∀ i, i ≤ n → r.commitIndex < i → r.Committable config i → i ≤ found := by
  induction n with
  | zero =>
      cases scanned
      exact ⟨le_rfl, fun i le above => by omega⟩
  | succ n ih =>
      simp only [commitScan] at scanned
      split at scanned
      · cases scanned
        exact ⟨le_rfl, fun i le above => by omega⟩
      simp only [Option.bind_eq_bind, Option.bind_eq_some_iff] at scanned
      obtain ⟨entry, read, scanned⟩ := scanned
      split at scanned
      · cases scanned
        exact ⟨by omega, fun i le _ _ => le⟩
      · rename_i refused
        obtain ⟨atLeast, rest⟩ := ih scanned
        refine ⟨atLeast, ?_⟩
        intro i le above committable
        rcases Nat.lt_or_eq_of_le le with lt | rfl
        · exact rest i (by omega) above committable
        · obtain ⟨-, ⟨other, readOther, own⟩, many⟩ := committable
          rw [Option.mem_def, Nat.add_sub_cancel, read] at readOther
          cases readOther
          exact absurd ⟨own, many⟩ refused

/-- A larger `matchIndex` counts for more. -/
theorem replicaCount_mono {s : Raft} {n : Nat}
    (le : ∀ p ∈ config.peers, (n : Int) ≤ r.matchIndex p → (n : Int) ≤ s.matchIndex p) :
    r.replicaCount config n ≤ s.replicaCount config n := by
  rw [replicaCount, replicaCount]
  apply Nat.add_le_add_left
  apply List.countP_mono_left
  intro p peer counted
  simpa using le p peer (by simpa using counted)

/-- An index nobody has reached is at the leader only. -/
theorem replicaCount_beyond {n : Nat} (beyond : ∀ p ∈ config.peers, r.matchIndex p < n) :
    r.replicaCount config n = 1 := by
  rw [replicaCount, List.countP_eq_zero.mpr]
  intro p peer
  simpa using beyond p peer

/-! ## Settled leaders -/

/-- A new leader has counted nobody. -/
theorem settled_becomeLeader (two : 2 ≤ config.peers.length + 1) :
    (r.becomeLeader config).Settled config := by
  rintro n ⟨positive, -, many⟩
  have alone : (r.becomeLeader config).replicaCount config n = 1 := by
    apply replicaCount_beyond
    intro p _
    change (0 : Int) < n
    omega
  omega

/-- What the leader appends is at the leader only. -/
theorem Settled.grow (settled : r.Settled config) (two : 2 ≤ config.peers.length + 1)
    (covered : ∀ p ∈ config.peers, r.matchIndex p ≤ r.log.length)
    (term : r'.currentTerm = r.currentTerm) (commit : r'.commitIndex = r.commitIndex)
    (matched : r'.matchIndex = r.matchIndex) (grown : r.log <+: r'.log) : r'.Settled config := by
  rintro n ⟨positive, ⟨entry, read, own⟩, many⟩
  have sameCount : r'.replicaCount config n = r.replicaCount config n := by
    rw [replicaCount, replicaCount, matched]
  rw [sameCount] at many
  by_cases inside : n ≤ r.log.length
  · have old : r.log[n - 1]? = some r.log[n - 1] := List.getElem?_eq_getElem (by omega)
    rw [Option.mem_def, getElem?_extend grown old] at read
    rw [commit]
    rw [← Option.some.inj read] at own
    exact settled n ⟨positive, ⟨_, old, own.trans term⟩, many⟩
  · have alone : r.replicaCount config n = 1 := by
      apply replicaCount_beyond
      intro p peer
      have := covered p peer
      omega
    omega

/-- What the handler of an acceptance commits. -/
theorem commitIndex_of_advance (advanced : r.advance config call = some r') :
    ∃ found, ((r.setMatchIndex call.target (lastLogIndexSent call)).setNextIndex call.target
        (lastLogIndexSent call + 1)).commitScan config (lastLogIndexSent call).toNat = some found ∧
      r'.commitIndex = found := by
  simp only [advance, Option.bind_eq_bind, Option.bind_eq_some_iff] at advanced
  obtain ⟨found, scanned, advanced⟩ := advanced
  refine ⟨found, scanned, ?_⟩
  split at advanced
  · obtain ⟨results, -, -, after⟩ := progress_applyEntries advanced
    exact congrArg Progress.commitIndex after
  · rename_i notAbove
    cases advanced
    have atLeast := (commitScan_max scanned).1
    exact le_antisymm atLeast (not_lt.mp notAbove)

/-- Committing does not change what is committable. -/
theorem committable_congr {s : Raft} {n : Nat} (log : s.log = r.log)
    (term : s.currentTerm = r.currentTerm) (matched : s.matchIndex = r.matchIndex) :
    s.Committable config n ↔ r.Committable config n := by
  simp only [Committable, replicaCount, log, term, matched]

theorem Settled.finish {thread : Thread} (settled : r.Settled config) :
    (r.finish thread).Settled config :=
  fun n committable => settled n ((committable_congr rfl rfl rfl).mp committable)

theorem Settled.setReplyCounter {p : Nat} {counter : Int} (settled : r.Settled config) :
    (r.setReplyCounter p counter).Settled config :=
  fun n committable => settled n ((committable_congr rfl rfl rfl).mp committable)

/-- How far the handling of a success takes a leader: it is settled again, and what is newly
committed is committable. -/
structure Advanced (config : Config) (r' r : Raft) : Prop where
  settled : r'.Settled config
  atLeast : r.commitIndex ≤ r'.commitIndex
  new : r.commitIndex < r'.commitIndex → r'.Committable config r'.commitIndex

/-- **An acceptance leaves a settled leader settled**, and commits only a committable
index. -/
theorem advanced_of_advance (settled : r.Settled config)
    (advanced : r.advance config call = some r') : r'.Advanced config r := by
  obtain ⟨found, scanned, isFound⟩ := commitIndex_of_advance advanced
  have core := core_advance advanced
  have log : r'.log = r.log := congrArg Core.log core
  have term : r'.currentTerm = r.currentTerm := congrArg Core.currentTerm core
  have matched := (indices_of_advance advanced).2
  have same : ∀ n, r'.Committable config n ↔
      ((r.setMatchIndex call.target (lastLogIndexSent call)).setNextIndex call.target
        (lastLogIndexSent call + 1)).Committable config n :=
    fun n => committable_congr log term matched
  obtain ⟨atLeast, maximal⟩ := commitScan_max scanned
  refine ⟨?_, isFound ▸ atLeast, ?_⟩
  · intro n committable
    have scannedFor := (same n).mp committable
    rw [isFound]
    by_cases committed : n ≤ r.commitIndex
    · exact committed.trans atLeast
    by_cases capped : n ≤ (lastLogIndexSent call).toNat
    · exact maximal n capped (not_le.mp committed) scannedFor
    · -- beyond the request's end the peer counts for less than before
      have before : r.Committable config n := by
        obtain ⟨positive, own, many⟩ := scannedFor
        refine ⟨positive, own, many.trans_le (replicaCount_mono ?_)⟩
        intro p _ counted
        by_cases isTarget : p = call.target
        · have sent : (n : Int) ≤ lastLogIndexSent call := by
            simpa [setNextIndex, setMatchIndex, isTarget] using counted
          omega
        · simpa [setNextIndex, setMatchIndex, isTarget] using counted
      exact absurd (settled n before) committed
  · intro newer
    rw [isFound] at newer ⊢
    rcases commitScan_found scanned with unchanged | ⟨above, -, ⟨entry, read, own⟩, many⟩
    · change r.commitIndex < found at newer
      change found = r.commitIndex at unchanged
      omega
    · exact (same found).mpr ⟨by omega, ⟨entry, read, own⟩, many⟩

/-- Handling a success in the leadership of its request. -/
theorem advanced_of_success {reply : AppendEntriesReply} (settled : r.Settled config)
    (role : r.currentRole = .leader) (term : call.req.term = r.currentTerm)
    (notNewer : reply.term ≤ r.currentTerm) (success : reply.success = true)
    (handled : r.handleAppendReply config call reply = some r') : r'.Advanced config r := by
  by_cases fresh : r.replyCounter call.target ≤ call.currentReplyCounter
  · rw [handleAppendReply_current fresh role term notNewer, if_neg (by simp [success])] at handled
    obtain ⟨settled, atLeast, new⟩ := advanced_of_advance settled.setReplyCounter handled
    exact ⟨settled, atLeast, new⟩
  · -- an overtaken reply is skipped
    rw [handleAppendReply, if_pos (not_le.mp fresh)] at handled
    cases handled
    exact ⟨settled, le_rfl, fun impossible => absurd impossible (lt_irrefl _)⟩

/-- A settled leader has committed what the full rule gives. -/
theorem Advanced.fullRule (advanced : r'.Advanced config r) :
    r'.commitIndex = max r.commitIndex (r'.fullRule config) := by
  obtain ⟨settled, atLeast, new⟩ := advanced
  apply le_antisymm
  · rcases Nat.lt_or_eq_of_le atLeast with newer | same
    · have committable := new newer
      exact le_max_of_le_right (Nat.le_findGreatest committable.inside committable)
    · exact le_max_of_le_left same.ge
  · apply max_le atLeast
    rcases Nat.eq_zero_or_pos (r'.fullRule config) with none | positive
    · omega
    · exact settled _ (Nat.findGreatest_of_ne_zero rfl (Nat.pos_iff_ne_zero.mp positive))

end Raft

namespace ClusterRun

variable {cl : Cluster} {R : ClusterRun cl} {k a : Nat} {t : Int} {call : AppendCall}
  {reply : AppendEntriesReply} {output : Output}

/-- Only a member of the cluster leads. -/
theorem Leads.member (leads : R.Leads k a t) : a ∈ cl.ids := by
  obtain ⟨_, -, _, _, _, ran, -⟩ := election_of_leads leads
  exact ran.member

/-- What handling a success in the leadership of its request leaves and commits. -/
theorem handled_settled (settled : (R.node k a).Settled (cl.config a))
    (ran : R.Ran k a (.appendReply call reply) output) (role : (R.node k a).currentRole = .leader)
    (term : call.req.term = (R.node k a).currentTerm) (success : reply.success = true) :
    (R.node (k + 1) a).Advanced (cl.config a) (R.node k a) := by
  have replyTerm := reply_term ran success
  obtain ⟨settled, atLeast, new⟩ :=
    Raft.advanced_of_success (r := (R.node k a).finish _) settled.finish role term
      (replyTerm.trans term).le success (Raft.step_appendReply ran.stepped)
  exact ⟨settled, atLeast, new⟩

/-- **A leader is settled at all times.** -/
theorem settled_of_leads (two : 2 ≤ cl.size) (leads : R.Leads k a t) :
    (R.node k a).Settled (cl.config a) := by
  have peers := Cluster.length_peers leads.member
  obtain ⟨e, lt, elects⟩ := election_of_leads leads
  induction k, (show e + 1 ≤ k from lt) using Nat.le_induction with
  | base =>
      obtain ⟨_, _, _, ran, wins, -⟩ := elects
      rw [node_of_wins ran wins]
      exact Raft.settled_becomeLeader (peers ▸ two)
  | succ k le ih =>
      have before : R.Leads k a t := elects.leads.between leads le (Nat.le_succ k)
      have settled := ih before (by omega)
      have covered : ∀ p ∈ (cl.config a).peers,
          (R.node k a).matchIndex p ≤ (R.node k a).log.length :=
        fun p peer => (bounds_of_leads before peer).covered
      have grown := before.log leads (Nat.le_succ k)
      have sameTerm := leads.term.trans before.term.symm
      rcases node_cases (show k < R.length from leads.bound) a with same | ⟨input, output, ran⟩
      · rwa [same]
      cases Raft.step_advance ran.stepped with
      | still same | record same | backUp _ _ _ same =>
          exact settled.grow (peers ▸ two) covered sameTerm
            (congrArg Raft.Progress.commitIndex same) (congrArg Raft.Progress.matchIndex same) grown
      | elect wins _ => exact absurd (before.role.symm.trans wins.2.1) (by decide)
      | follow _ _ _ core _ _ _ _ =>
          have after : (R.node (k + 1) a).currentRole = .follower :=
            congrArg Raft.Core.currentRole core
          simp [leads.role] at after
      | acknowledge _ _ _ role term success =>
          exact (handled_settled settled ran role term success).settled

/-- **The capped scan is the full rule.**  Right after a leader has processed a success in
its term, `commitIndex` is the maximum of what it was and the largest index of an entry of the
current term that more than half of the nodes have. -/
theorem commit_scan_full (R : ClusterRun cl) (two : 2 ≤ cl.size) :
    ∀ k a call reply output, R.Ran k a (.appendReply call reply) output →
      (R.node k a).currentRole = .leader → call.req.term = (R.node k a).currentTerm →
      reply.success = true →
        (R.node (k + 1) a).commitIndex =
          max (R.node k a).commitIndex ((R.node (k + 1) a).fullRule (cl.config a)) := by
  intro k a call reply output ran role term success
  have running := active_of_thread ran.within.le (ran.pending rfl)
  have leads : R.Leads k a (R.node k a).currentTerm := ⟨ran.within.le, running, role, rfl⟩
  exact (handled_settled (settled_of_leads two leads) ran role term success).fullRule

theorem commit_scan_full_of_commit :
    ∃ R : ClusterRun (.ofSize 3 (by decide)), (R.node 16 1).commitIndex = 0 ∧
      (R.node 17 1).commitIndex = 1 ∧
        (R.node 17 1).commitIndex =
          max (R.node 16 1).commitIndex
            ((R.node 17 1).fullRule ((Cluster.ofSize 3 (by decide)).config 1)) := by
  let R : ClusterRun (.ofSize 3 (by decide)) := .of _ oneCommit oneCommit_accepted
  obtain ⟨output, ran⟩ := ran_of_action (R := R) (by decide)
    (show R.input 16 = ⟨1, .appendReply (wholeLog 1 2 1 [⟨1, "x"⟩] 0 1)
      { term := 1, success := true }⟩ from rfl)
  exact ⟨R, by decide +kernel, by decide +kernel,
    commit_scan_full R (by decide) 16 1 (wholeLog 1 2 1 [⟨1, "x"⟩] 0 1)
      { term := 1, success := true } output ran (by decide +kernel) (by decide +kernel) rfl⟩

end ClusterRun

end Rafty
