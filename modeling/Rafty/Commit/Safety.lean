/-
# Rafty.Commit.Safety — State Machine Safety

What a node has committed is a committed prefix of a commit in a term not above its
own (`Certified`): a leader commits at its own commit, and a follower takes over the
`commitIndex` that the sender had when it built the request, which the spliced log
covers.  Such prefixes survive every splice, are all comparable, and what was applied
is one of them; so nodes apply the same commands at the same indices, and no applied
entry is ever removed or replaced (`state_machine_safety`).

All of it rests on requests being built by leaders.  The per-peer threads of
`send_entries` do not see to that, and one request built after a step-down replaces an
applied entry (`state_machine_safety_refuted`).
-/
import Rafty.Commit.Completeness

namespace Rafty

set_option autoImplicit false

open Theory

namespace ClusterRun

variable {cl : Cluster} {R : ClusterRun cl} {j k a b v m N : Nat} {t u : Int} {call : AppendCall}
  {p q : List Entry}

/-! ## Certificates -/

/-- `p` is empty, or a prefix of what was committed before state `m` in a term up to
`t`. -/
def Certified (R : ClusterRun cl) (m : Nat) (t : Int) (p : List Entry) : Prop :=
  p = [] ∨ ∃ k a N, k < m ∧ R.Commits k a N ∧ (R.node k a).currentTerm ≤ t ∧
    p <+: (R.node k a).log.take N

theorem Certified.mono (certified : R.Certified m t p) {n : Nat} (le : m ≤ n) (notOlder : t ≤ u) :
    R.Certified n u p := by
  rcases certified with empty | ⟨k, a, N, lt, commits, term, isPrefix⟩
  · exact Or.inl empty
  · exact Or.inr ⟨k, a, N, by omega, commits, term.trans notOlder, isPrefix⟩

theorem Certified.of_prefix (certified : R.Certified m t p) (isPrefix : q <+: p) :
    R.Certified m t q := by
  rcases certified with rfl | ⟨k, a, N, lt, commits, term, whole⟩
  · exact Or.inl (List.prefix_nil.mp isPrefix)
  · exact Or.inr ⟨k, a, N, lt, commits, term, isPrefix.trans whole⟩

/-- The committed part of a log lies inside it and is certified, and nothing beyond it
was applied. -/
structure Sound (R : ClusterRun cl) (m v : Nat) : Prop where
  inside : (R.node m v).commitIndex ≤ (R.node m v).log.length
  certified : R.Certified m (R.node m v).currentTerm
    ((R.node m v).log.take (R.node m v).commitIndex)
  applied : (R.node m v).lastApplied ≤ (R.node m v).commitIndex

section Safety

variable (unique : R.OneLeaderPerTerm) (afterRun : R.ProposesAfterRun) (sends : R.SendsAsLeader)

include unique afterRun sends

/-- Any two certified prefixes are comparable. -/
theorem Certified.comparable {n : Nat} (first : R.Certified m t p) (second : R.Certified n u q) :
    p <+: q ∨ q <+: p := by
  rcases first with rfl | ⟨k, a, N, -, commits, -, isPrefix⟩
  · exact Or.inl List.nil_prefix
  rcases second with rfl | ⟨l, b, M, -, commits', -, isPrefix'⟩
  · exact Or.inr List.nil_prefix
  rcases le_total (R.node k a).currentTerm (R.node l b).currentTerm with le | le
  · have leads := commits'.own.1
    exact comparable_of_chain isPrefix (isPrefix'.trans (List.take_prefix _ _))
      (commits.comparable unique afterRun sends le leads)
  · have leads := commits.own.1
    exact (comparable_of_chain isPrefix' (isPrefix.trans (List.take_prefix _ _))
      (commits'.comparable unique afterRun sends le leads)).symm

/-- **Certified prefixes stay.** -/
theorem Certified.step (certified : R.Certified k (R.node k v).currentTerm p)
    (within : k < R.length) (held : p <+: (R.node k v).log) : p <+: (R.node (k + 1) v).log := by
  rcases certified with rfl | ⟨l, a, N, -, commits, term, isPrefix⟩
  · exact List.nil_prefix
  apply retained_step unique afterRun within held
  intro j call splice
  exact comparable_of_chain isPrefix (List.prefix_refl _)
    (commits.comparable unique afterRun sends (term.trans splice.notOld)
      (splice.sent.leads sends))

theorem Certified.retained {n : Nat} (certified : R.Certified m (R.node m v).currentTerm p)
    (le : m ≤ n) (bound : n ≤ R.length) (held : p <+: (R.node m v).log) :
    p <+: (R.node n v).log := by
  induction n, le using Nat.le_induction with
  | base => exact held
  | succ n from_m ih =>
      have within : n < R.length := bound
      have grown := (tenure (R := R) from_m within.le v).term
      exact (certified.mono from_m grown).step unique afterRun sends within (ih within.le)

/-- The committed part survives a step that leaves `commitIndex` alone. -/
theorem Sound.keep (sound : R.Sound k v) (within : k < R.length)
    (commit : (R.node (k + 1) v).commitIndex = (R.node k v).commitIndex)
    (last : (R.node (k + 1) v).lastApplied = (R.node k v).lastApplied) : R.Sound (k + 1) v := by
  have grown := (tenure (R := R) (Nat.le_add_right k 1) within v).term
  have held := sound.certified.step unique afterRun sends within (List.take_prefix _ _)
  have length : ((R.node k v).log.take (R.node k v).commitIndex).length =
      (R.node k v).commitIndex := by
    rw [List.length_take, Nat.min_eq_left sound.inside]
  have same := take_eq_of_prefix held
  rw [length] at same
  refine ⟨?_, ?_, ?_⟩
  · rw [commit, ← length]
    exact held.length_le
  · rw [commit, same]
    exact sound.certified.mono (Nat.le_add_right k 1) grown
  · rw [commit, last]
    exact sound.applied

/-- **Every node is sound in every state.** -/
theorem sound (bound : m ≤ R.length) (v : Nat) : R.Sound m v := by
  revert v
  apply R.history (P := fun m => ∀ v, R.Sound m v) ?_ ?_ m bound
  · intro v
    obtain ⟨role, isNew⟩ := R.start_node v
    exact ⟨by simp [isNew, Raft.new], Or.inl (by simp [isNew, Raft.new]),
      by simp [isNew, Raft.new]⟩
  · intro k within ih v
    have old := ih k le_rfl v
    rcases node_cases within v with same | ⟨input, output, ran⟩
    · exact old.keep unique afterRun sends within (by rw [same]) (by rw [same])
    cases Raft.step_advance ran.stepped with
    | still same | record same | backUp _ _ _ same | elect _ same =>
        simp only [Raft.progress, Raft.Progress.mk.injEq] at same
        exact old.keep unique afterRun sends within same.1 same.2.1
    | follow results notOld consistent core higher applied length same =>
        rename_i call
        obtain ⟨j, splice⟩ := splice_of_accepted ran notOld consistent core
        -- a follower's certificate is that of the sender when it built the request
        have source := ih j splice.lt.le call.caller
        have installed := splice.installs (splice.matching unique afterRun)
        have shared := splice.sent.sends.leaderCommit
        simp only [Raft.progress, Raft.Progress.mk.injEq] at same
        -- the sender's `commitIndex` lies inside what was spliced in
        have longer := installed.length_le
        have inside := source.inside
        rw [shared, Int.toNat_natCast] at same length
        have commit := same.1
        have covered : (R.node j call.caller).commitIndex ≤ (R.node (k + 1) v).log.length :=
          inside.trans longer
        rw [Nat.min_eq_left covered] at commit length
        refine ⟨commit ▸ covered, ?_, ?_⟩
        · obtain ⟨rest, whole⟩ := installed
          rw [commit, ← whole, List.take_append_of_le_length inside, splice.term,
            splice.sent.sends.term]
          exact source.certified.mono (by have := splice.lt; omega) le_rfl
        · have := old.applied
          rw [shared] at higher
          omega
    | acknowledge commit results fresh role term success core committed applied same =>
        simp only [Raft.progress, Raft.Progress.mk.injEq] at same
        rcases committed with ⟨kept, none_new⟩ | ⟨newer, -, ⟨entry, read, -⟩, -, length⟩
        · refine old.keep unique afterRun sends within (same.1.trans kept) ?_
          simpa [none_new] using same.2.1
        · have commits : R.Commits k v commit :=
            ⟨⟨_, _, output, ran⟩, newer, same.1⟩
          have log : (R.node (k + 1) v).log = (R.node k v).log := congrArg Raft.Core.log core
          have sameTerm : (R.node (k + 1) v).currentTerm = (R.node k v).currentTerm :=
            congrArg Raft.Core.currentTerm core
          refine ⟨?_, Or.inr ⟨k, v, commit, Nat.lt_succ_self k, commits, sameTerm.ge, ?_⟩, ?_⟩
          · rw [same.1, log]
            exact commits.inside
          · rw [same.1, log]
          · have := old.applied
            omega

/-- The applied part of a log is certified. -/
theorem certified_applied (bound : m ≤ R.length) (v : Nat) :
    R.Certified m (R.node m v).currentTerm ((R.node m v).log.take (R.node m v).lastApplied) := by
  have here := sound unique afterRun sends bound v
  exact here.certified.of_prefix (List.take_prefix_take_left here.applied)

/-- **What was handed out is the applied part of the log**, to this day. -/
theorem queue_applied (bound : m ≤ R.length) (v : Nat) :
    (R.node m v).readyQueue.length = (R.node m v).lastApplied ∧
      Raft.Applied (R.node m v).log 0 (R.node m v).readyQueue := by
  refine R.invariant (P := fun m => (R.node m v).readyQueue.length = (R.node m v).lastApplied ∧
    Raft.Applied (R.node m v).log 0 (R.node m v).readyQueue) ?_ ?_ m bound
  · obtain ⟨role, isNew⟩ := R.start_node v
    rw [isNew]
    exact ⟨rfl, .nil⟩
  · intro k within ih
    rcases node_cases within v with same | ⟨input, output, ran⟩
    · rwa [same]
    obtain ⟨results, queue, last, applied⟩ := Raft.step_handsOut ran.stepped
    have held := (certified_applied unique afterRun sends within.le v).step unique afterRun sends
      within (List.take_prefix _ _)
    rw [queue, List.length_append, last, ih.1]
    constructor
    · rfl
    intro p res at_p
    by_cases old : p < (R.node k v).readyQueue.length
    · -- handed out before: the entry is still there
      rw [List.getElem?_append_left old] at at_p
      obtain ⟨entry, read, same⟩ := ih.2 p res at_p
      refine ⟨entry, getElem?_extend held ?_, same⟩
      rw [List.getElem?_take_of_lt (by omega), read]
    · rw [List.getElem?_append_right (not_lt.mp old)] at at_p
      obtain ⟨entry, read, same⟩ := applied _ res at_p
      have position : (R.node k v).lastApplied + (p - (R.node k v).readyQueue.length) = 0 + p := by
        omega
      rw [position] at read same
      exact ⟨entry, read, same⟩

end Safety

/-! ## State Machine Safety -/

/-- Index `i` is applied at node `v` in state `m`, as `res`. -/
def AppliedAt (R : ClusterRun cl) (m v i : Nat) (res : ApplyResult) : Prop :=
  1 ≤ i ∧ i ≤ (R.node m v).lastApplied ∧ (R.node m v).readyQueue[i - 1]? = some res

/-- **State Machine Safety.**  If every request is built by a leader: an index that is
applied was handed out, and wherever and whenever it is applied, it is the same
command; and the log entry at an applied index stays, and is what was handed out. -/
theorem state_machine_safety (R : ClusterRun cl) (unique : R.OneLeaderPerTerm)
    (afterRun : R.ProposesAfterRun) (sends : R.SendsAsLeader) :
    (∀ m v i, m ≤ R.length → 1 ≤ i → i ≤ (R.node m v).lastApplied →
      ∃ res, R.AppliedAt m v i res) ∧
    (∀ m n v w i res res', m ≤ R.length → n ≤ R.length → R.AppliedAt m v i res →
      R.AppliedAt n w i res' → res = res') ∧
    ∀ m n v i res, m ≤ n → n ≤ R.length → R.AppliedAt m v i res →
      ∃ entry, (R.node m v).log[i - 1]? = some entry ∧ (R.node n v).log[i - 1]? = some entry ∧
        res = { valid := true, data := entry.command, index := i } := by
  have shown : ∀ {m v i res}, m ≤ R.length → R.AppliedAt m v i res →
      ∃ entry, ((R.node m v).log.take (R.node m v).lastApplied)[i - 1]? = some entry ∧
        res = { valid := true, data := entry.command, index := i } := by
    rintro m v i res bound ⟨low, high, at_i⟩
    obtain ⟨entry, read, same⟩ := (queue_applied unique afterRun sends bound v).2 _ _ at_i
    rw [Nat.zero_add] at read same
    refine ⟨entry, ?_, ?_⟩
    · rw [List.getElem?_take_of_lt (by omega), read]
    · rw [same, Nat.sub_add_cancel low]
  refine ⟨?_, ?_, ?_⟩
  · intro m v i bound low high
    have length := (queue_applied unique afterRun sends bound v).1
    have inside : i - 1 < (R.node m v).readyQueue.length := by omega
    exact ⟨_, low, high, List.getElem?_eq_getElem inside⟩
  · intro m n v w i res res' boundM boundN first second
    obtain ⟨x, atX, rfl⟩ := shown boundM first
    obtain ⟨y, atY, rfl⟩ := shown boundN second
    have one := certified_applied unique afterRun sends boundM v
    have two := certified_applied unique afterRun sends boundN w
    -- the longer of the two prefixes shows both entries
    rcases one.comparable unique afterRun sends two with h | h
    · have found := getElem?_extend h atX
      rw [atY, Option.some.injEq] at found
      rw [found]
    · have found := getElem?_extend h atY
      rw [atX, Option.some.injEq] at found
      rw [found]
  · intro m n v i res le bound applied
    have boundM : m ≤ R.length := le.trans bound
    obtain ⟨entry, at_i, same⟩ := shown boundM applied
    have held := List.take_prefix (R.node m v).lastApplied (R.node m v).log
    have kept := (certified_applied unique afterRun sends boundM v).retained unique afterRun sends
      le bound held
    exact ⟨entry, getElem?_extend held at_i, getElem?_extend kept at_i, same⟩

/-- Checked on the node that acts. -/
theorem sendsAsLeader_of_checked
    (checked : ∀ k < R.length, (R.input k).input.Builds →
      (R.node k (R.input k).node).currentRole = .leader) : R.SendsAsLeader := by
  intro j call sent
  have here := checked j sent.ran.within
  rw [sent.ran.action] at here
  exact here trivial

theorem state_machine_safety_of_commit :
    ∃ R : ClusterRun (.ofSize 3 (by decide)),
      R.AppliedAt 17 1 1 { valid := true, data := "x", index := 1 } ∧
        ∀ n v res, n ≤ 17 → R.AppliedAt n v 1 res → res.data = "x" := by
  let R : ClusterRun (.ofSize 3 (by decide)) := .of _ oneCommit oneCommit_accepted
  have unique : R.OneLeaderPerTerm := oneLeader_of_majority (Or.inl rfl) R
  have afterRun : R.ProposesAfterRun := proposesAfterRun_of_checked (by decide +kernel)
  have sends : R.SendsAsLeader := sendsAsLeader_of_checked (by decide +kernel)
  have applied : R.AppliedAt 17 1 1 { valid := true, data := "x", index := 1 } :=
    ⟨le_rfl, by decide +kernel, by decide +kernel⟩
  refine ⟨R, applied, ?_⟩
  intro n v res bound other
  have same := (state_machine_safety R unique afterRun sends).2.1 17 n 1 v 1 _ res
    (by decide) bound applied other
  rw [← same]

/-- Leader 1 of term 1 proposes `x`, and its thread for 2 is late.  Meanwhile 2 becomes
leader of term 2 with the vote of 3, 1 adopts term 2 from its vote request, and 2
proposes, replicates to 3, commits and applies `y`.  Then 1 sends what it has, under
term 2, and 2 accepts it. -/
def lateReplace : List Action :=
  oneElection ++ [⟨1, .propose "x"⟩] ++ heartbeat 1 2 ++ campaign 2 3 1 2 ++
    [⟨2, .requestVote 1 2⟩, ⟨1, .replyVote (ballot 2 1 2)⟩, ⟨2, .propose "y"⟩] ++
    heartbeat 2 2 ++
    [⟨2, .sendEntriesTo 3⟩, ⟨3, .appendEntries (wholeLog 2 3 2 [⟨2, "y"⟩] 0 1)⟩,
      ⟨2, .appendReply (wholeLog 2 3 2 [⟨2, "y"⟩] 0 1) { term := 2, success := true }⟩,
      ⟨1, .sendEntriesTo 2⟩, ⟨2, .appendEntries (wholeLog 1 2 2 [⟨1, "x"⟩] 0 1)⟩]

theorem state_machine_safety_refuted :
    ¬ ∀ (cl : Cluster) (R : ClusterRun cl), R.OneLeaderPerTerm → R.ProposesAfterRun →
      (∀ m n v w i res res', m ≤ R.length → n ≤ R.length → R.AppliedAt m v i res →
        R.AppliedAt n w i res' → res = res') ∧
      ∀ m n v i, m ≤ n → n ≤ R.length → 1 ≤ i → i ≤ (R.node m v).lastApplied →
        (R.node n v).log[i - 1]? = (R.node m v).log[i - 1]? := by
  intro safe
  let R : ClusterRun (.ofSize 3 (by decide)) := .of _ lateReplace (by decide +kernel)
  have unique : R.OneLeaderPerTerm := oneLeader_of_majority (Or.inl rfl) R
  have afterRun : R.ProposesAfterRun := proposesAfterRun_of_checked (by decide +kernel)
  have before : (R.node 30 2).log[1 - 1]? = some ⟨2, "y"⟩ := by decide +kernel
  have after : (R.node 32 2).log[1 - 1]? = some ⟨1, "x"⟩ := by decide +kernel
  have same := (safe _ R unique afterRun).2 30 32 2 1 (by decide) (by decide) le_rfl
    (by decide +kernel)
  rw [before, after] at same
  exact absurd same (by decide)

end ClusterRun

end Rafty
