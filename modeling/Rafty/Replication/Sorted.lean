/-
# Rafty.Replication.Sorted — the terms of a log never fall

In every log the terms are non-decreasing, at least 1 and at most the node's term.
A proposal adds the highest term there is.  A splice keeps entries up to one whose
term the sender's log shows at the same index, and takes what follows there
(`Ordered.splice`).  The requests inherit it from their senders' logs.
-/
import Rafty.Replication.Provenance

namespace Rafty

set_option autoImplicit false

open Theory

/-! ## Ordered lists of terms -/

/-- Non-decreasing terms between 1 and `bound`. -/
structure Ordered (bound : Int) (terms : List Int) : Prop where
  sorted : terms.Pairwise (· ≤ ·)
  within : ∀ t ∈ terms, 1 ≤ t ∧ t ≤ bound

namespace Ordered

variable {b c : Int} {l s : List Int}

theorem nil : Ordered b [] := ⟨.nil, by simp⟩

theorem mono (ordered : Ordered b l) (le : b ≤ c) : Ordered c l where
  sorted := ordered.sorted
  within t member := ⟨(ordered.within t member).1, (ordered.within t member).2.trans le⟩

theorem concat (ordered : Ordered b l) (positive : 1 ≤ b) : Ordered b (l ++ [b]) where
  sorted := by
    refine List.pairwise_append.mpr ⟨ordered.sorted, List.pairwise_singleton _ _, ?_⟩
    intro t member u isLast
    rw [List.mem_singleton.mp isLast]
    exact (ordered.within t member).2
  within t member := by
    rcases List.mem_append.mp member with old | new
    · exact ordered.within t old
    · rw [List.mem_singleton.mp new]
      exact ⟨positive, le_rfl⟩

theorem drop (ordered : Ordered b l) (n : Nat) : Ordered b (l.drop n) where
  sorted := ordered.sorted.drop
  within t member := ordered.within t (List.mem_of_mem_drop member)

/-- Earlier terms are not above later ones. -/
theorem le_of_index (ordered : Ordered b l) {i j : Nat} {t u : Int} (le : i ≤ j)
    (at_i : l[i]? = some t) (at_j : l[j]? = some u) : t ≤ u := by
  rcases Nat.lt_or_eq_of_le le with lt | rfl
  · obtain ⟨boundI, rfl⟩ := List.getElem?_eq_some_iff.mp at_i
    obtain ⟨boundJ, rfl⟩ := List.getElem?_eq_some_iff.mp at_j
    exact List.pairwise_iff_getElem.mp ordered.sorted i j boundI boundJ lt
  · exact (Option.some.inj (at_i.symm.trans at_j)).le

/-- **The splice point.**  Two ordered lists that show one term just before `n` can be
crossed over at `n`. -/
theorem splice (ordered : Ordered b l) (source : Ordered c s) (le : b ≤ c) (n : Nat)
    (agree : 0 < n → ∃ t, l[n - 1]? = some t ∧ s[n - 1]? = some t) :
    Ordered c (l.take n ++ s.drop n) where
  sorted := by
    refine List.pairwise_append.mpr ⟨ordered.sorted.take, source.sorted.drop, ?_⟩
    intro x inTake y inDrop
    obtain ⟨i, boundI, rfl⟩ := List.getElem_of_mem inTake
    obtain ⟨j, boundJ, rfl⟩ := List.getElem_of_mem inDrop
    simp only [List.length_take, List.length_drop] at boundI boundJ
    obtain ⟨t, inL, inS⟩ := agree (by omega)
    have insideL : i < l.length := by omega
    have insideS : n + j < s.length := by omega
    have below : l[i] ≤ t :=
      ordered.le_of_index (show i ≤ n - 1 by omega) (List.getElem?_eq_getElem _) inL
    have above : t ≤ s[n + j] :=
      source.le_of_index (show n - 1 ≤ n + j by omega) inS (List.getElem?_eq_getElem _)
    rw [List.getElem_take, List.getElem_drop]
    exact below.trans above
  within t member := by
    rcases List.mem_append.mp member with inTake | inDrop
    · exact (ordered.mono le).within t (List.mem_of_mem_take inTake)
    · exact source.within t (List.mem_of_mem_drop inDrop)

end Ordered

/-- The terms of the entries. -/
def Raft.terms (r : Raft) : List Int := r.log.map Entry.term

/-- The terms a request shows. -/
def AppendCall.terms (call : AppendCall) : List Int :=
  call.req.prevLogTerm :: call.req.entries.map Entry.term

namespace ClusterRun

variable {cl : Cluster} {R : ClusterRun cl} {j k a : Nat} {t : Int} {call : AppendCall}

/-! ## Terms along a run -/

theorem term_nonneg (bound : k ≤ R.length) (a : Nat) : 0 ≤ (R.node k a).currentTerm := by
  obtain ⟨role, isNew⟩ := R.start_node a
  have grown := (tenure (R := R) (Nat.zero_le k) bound a).term
  rwa [isNew] at grown

/-- Leaders have positive terms. -/
theorem Leads.positive (leads : R.Leads k a t) : 1 ≤ t := by
  obtain ⟨s, lt, stands⟩ := stands_of_office leads.bound leads.active (by simp [leads.role])
  have up := congrArg Raft.Core.currentTerm stands.core
  obtain ⟨_, ran, term⟩ := stands
  have start := term_nonneg ran.within.le a
  have now := leads.term
  simp only [Raft.core] at up
  omega

/-- **Every log is ordered.** -/
theorem ordered (afterRun : R.ProposesAfterRun) (bound : k ≤ R.length) (a : Nat) :
    Ordered (R.node k a).currentTerm (R.node k a).terms := by
  revert a
  apply R.history (P := fun k => ∀ a, Ordered (R.node k a).currentTerm (R.node k a).terms)
    ?_ ?_ k bound
  · intro a
    obtain ⟨role, isNew⟩ := R.start_node a
    rw [isNew]
    exact .nil
  · intro k within ih a
    have old := ih k le_rfl a
    have grown := (tenure (R := R) (Nat.le_add_right k 1) within a).term
    cases logStep within a with
    | kept same =>
        rw [Raft.terms, same]
        exact old.mono grown
    | proposed data input output ran proposes role core =>
        have leads := (leads_of_proposed afterRun ran proposes role core).2
        have log : (R.node (k + 1) a).terms =
            (R.node k a).terms ++ [(R.node k a).currentTerm] := by
          simp [Raft.terms, log_of_proposed core, Raft.proposed]
        rw [log, leads.term]
        exact old.concat leads.positive
    | spliced j call splice =>
        -- the batch comes from the sender's log in an earlier state
        have source := ih j splice.lt.le call.caller
        rw [← splice.sent.sends.term] at source
        rw [splice.term, Raft.terms, splice.log]
        rcases overwrite_keys Entry.term _ _ _ splice.inside with kept | spliced
        · rw [kept]
          exact old.mono splice.notOld
        · rw [spliced, List.map_take, List.map_drop]
          apply old.splice source splice.notOld
          intro positive
          obtain ⟨x, y, atX, atY, same⟩ := splice.agree positive
          exact ⟨x.term, by simp [Raft.terms, atX], by simp [Raft.terms, atY, same]⟩

/-! ## Requests -/

/-- The terms a request shows are non-decreasing, and not above its own. -/
theorem Sent.ordered (sent : R.Sent j call) (afterRun : R.ProposesAfterRun) :
    call.terms.Pairwise (· ≤ ·) ∧ ∀ t ∈ call.terms, t ≤ call.req.term := by
  have bound := sent.ran.within.le
  have source := ClusterRun.ordered afterRun bound call.caller
  have entries : call.req.entries.map Entry.term = (R.node j call.caller).terms.drop call.pos := by
    rw [sent.sends.entries, Raft.terms, List.map_drop]
  rw [← sent.sends.term] at source
  rw [AppendCall.terms, entries]
  rcases sent.sends.prevTerm with ⟨zero, prevTerm⟩ | ⟨entry, positive, at_pos, prevTerm⟩
  · -- nothing precedes what is sent
    have later := source.drop call.pos
    rw [prevTerm]
    constructor
    · apply List.Pairwise.cons ?_ later.sorted
      intro t member
      have := (later.within t member).1
      omega
    · intro t member
      rcases List.mem_cons.mp member with rfl | inEntries
      · rw [sent.sends.term]
        exact term_nonneg bound call.caller
      · exact (later.within t inEntries).2
  · have whole : call.req.prevLogTerm :: (R.node j call.caller).terms.drop call.pos =
        (R.node j call.caller).terms.drop (call.pos - 1) := by
      have at_prev : (R.node j call.caller).terms[call.pos - 1]? = some call.req.prevLogTerm := by
        simp [Raft.terms, at_pos, prevTerm]
      obtain ⟨inside, isTerm⟩ := List.getElem?_eq_some_iff.mp at_prev
      rw [List.drop_eq_getElem_cons inside, isTerm, Nat.sub_add_cancel positive]
    have later := source.drop (call.pos - 1)
    rw [whole]
    constructor
    · exact later.sorted
    · intro t member
      exact (later.within t member).2

/-- **Sorted logs.**  In every reachable state the terms of each log are non-decreasing
and between 1 and the node's term, and those of each request are non-decreasing and
at most the request's. -/
theorem sorted_logs (R : ClusterRun cl) (afterRun : R.ProposesAfterRun) :
    ∀ k, k ≤ R.length →
      (∀ a, (R.node k a).terms.Pairwise (· ≤ ·) ∧
        ∀ t ∈ (R.node k a).terms, 1 ≤ t ∧ t ≤ (R.node k a).currentTerm) ∧
      ∀ call ∈ (R.state k).appendRequests,
        call.terms.Pairwise (· ≤ ·) ∧ ∀ t ∈ call.terms, t ≤ call.req.term := by
  intro k bound
  constructor
  · intro a
    have inOrder := ordered afterRun bound a
    exact ⟨inOrder.sorted, inOrder.within⟩
  · intro call member
    obtain ⟨j, -, sent⟩ := sent_of_request bound member
    exact sent.ordered afterRun

/-- Leader 1 of three nodes proposes `x` and replicates it to 2. -/
def oneCommit : List Action :=
  oneElection ++ [⟨1, .propose "x"⟩] ++ heartbeat 1 2 ++
    [⟨1, .sendEntriesTo 2⟩, ⟨2, .appendEntries (wholeLog 1 2 1 [⟨1, "x"⟩] 0 1)⟩,
      ⟨1, .appendReply (wholeLog 1 2 1 [⟨1, "x"⟩] 0 1) { term := 1, success := true }⟩]

theorem oneCommit_accepted :
    ((machine (.ofSize 3 (by decide))).exec World.fresh oneCommit).isSome := by decide +kernel

/-- Checked on the node that acts. -/
theorem proposesAfterRun_of_checked
    (checked : ∀ k < R.length, (R.input k).input.Proposes →
      (R.node k (R.input k).node).active = true) : R.ProposesAfterRun := by
  intro k a input output ran proposes
  have here := checked k ran.within
  rw [ran.action] at here
  exact here proposes

theorem sorted_logs_of_commit :
    ∃ R : ClusterRun (.ofSize 3 (by decide)), R.length = 17 ∧ (R.node 17 2).terms = [1] ∧
      ∀ t ∈ (R.node 17 2).terms, 1 ≤ t ∧ t ≤ (R.node 17 2).currentTerm := by
  let R : ClusterRun (.ofSize 3 (by decide)) := .of _ oneCommit oneCommit_accepted
  have afterRun : R.ProposesAfterRun := proposesAfterRun_of_checked (by decide +kernel)
  exact ⟨R, by decide, by decide +kernel,
    ((sorted_logs R afterRun 17 (by decide)).1 2).2⟩

end ClusterRun

end Rafty
