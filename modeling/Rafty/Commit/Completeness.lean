/-
# Rafty.Commit.Completeness — later leaders hold what was committed

The committed prefix of a commit is what its leader held up to the new `commitIndex`.
In a run in which requests are built by leaders only (`SendsAsLeader`), it is in the
log of every leader of a later term (`Commits.complete`), by strong induction on the
term.  A voter of the election held the prefix while in the term of the commit, since
the two quorums meet, and it still holds it when it votes: every splice in between
came from a leader of a term in between, whose log is comparable with the prefix
(`Splice.retains`, `Commits.retained_below`).  The elected node is not behind this
voter, so it holds the prefix too (`prefix_of_upToDate`).
-/
import Rafty.Replication.Evidence

namespace Rafty

set_option autoImplicit false

open Theory

namespace Raft

/-- A voter with a proper last entry votes only for a candidate that has one too, and
not an older one. -/
theorem NotAhead.getLast {r s : Raft} (notAhead : r.NotAhead s) {y : Entry}
    (last : r.log.getLast? = some y) (positive : 1 ≤ y.term) :
    ∃ z, s.log.getLast? = some z ∧
      (y.term < z.term ∨ y.term = z.term ∧ r.log.length ≤ s.log.length) := by
  have mine : r.lastLogTerm = y.term := by simp [lastLogTerm, last]
  cases other : s.log.getLast? with
  | some z =>
      have its : s.lastLogTerm = z.term := by simp [lastLogTerm, other]
      exact ⟨z, rfl, by rwa [NotAhead, mine, its] at notAhead⟩
  | none =>
      have its : s.lastLogTerm = 0 := by simp [lastLogTerm, other]
      rw [NotAhead, mine, its] at notAhead
      omega

end Raft

namespace ClusterRun

variable {cl : Cluster} {R : ClusterRun cl} {j k a b v m N : Nat} {t u : Int} {call : AppendCall}
  {p : List Entry}

/-- Every request is built by a node in the Leader role. -/
def SendsAsLeader (R : ClusterRun cl) : Prop :=
  ∀ j call, R.Sent j call → (R.node j call.caller).currentRole = .leader

theorem Sent.leads (sent : R.Sent j call) (sends : R.SendsAsLeader) :
    R.Leads j call.caller call.req.term := by
  have bound := sent.ran.within.le
  exact ⟨bound, active_of_thread bound (sent.ran.pending rfl), sends j call sent,
    sent.sends.term.symm⟩

/-! ## Keeping a prefix -/

/-- A prefix comparable with what is spliced in survives. -/
theorem Splice.retains (splice : R.Splice k a j call)
    (matching : Matching Entry.term (R.node k a).log (R.node j call.caller).log)
    (held : p <+: (R.node k a).log)
    (comparable : p <+: (R.node j call.caller).log ∨ (R.node j call.caller).log <+: p) :
    p <+: (R.node (k + 1) a).log := by
  rcases splice.outcome matching with ⟨-, same⟩ | ⟨notHeld, installed⟩
  · rwa [same]
  · rw [installed]
    exact comparable.resolve_right fun shorter => notHeld (shorter.trans held)

/-- A prefix survives a step if it is comparable with what may be spliced in there. -/
theorem retained_step (unique : R.OneLeaderPerTerm) (afterRun : R.ProposesAfterRun)
    (within : k < R.length) (held : p <+: (R.node k a).log)
    (comparable : ∀ j call, R.Splice k a j call →
      p <+: (R.node j call.caller).log ∨ (R.node j call.caller).log <+: p) :
    p <+: (R.node (k + 1) a).log := by
  cases logStep within a with
  | kept same => rwa [same]
  | proposed data input output ran proposes role core =>
      rw [log_of_proposed core]
      exact held.trans (List.prefix_append _ _)
  | spliced j call splice =>
      exact splice.retains (splice.matching unique afterRun) held (comparable j call splice)

/-! ## The committed prefix -/

/-- The committed prefix ends with an entry of the leader's term. -/
theorem Commits.getLast (commits : R.Commits k a N) :
    ∃ x, ((R.node k a).log.take N).getLast? = some x ∧ x.term = (R.node k a).currentTerm := by
  obtain ⟨-, -, x, read, term⟩ := commits.own
  have inside := commits.inside
  have above := commits.above
  refine ⟨x, ?_, term⟩
  rw [List.getLast?_eq_getElem?, List.length_take, Nat.min_eq_left inside,
    List.getElem?_take_of_lt (by omega), read]

/-- The committed prefix is comparable with the logs of the leaders of its term. -/
theorem Commits.comparable_own (commits : R.Commits k a N) (unique : R.OneLeaderPerTerm)
    (leads : R.Leads m b (R.node k a).currentTerm) :
    (R.node k a).log.take N <+: (R.node m b).log ∨
      (R.node m b).log <+: (R.node k a).log.take N := by
  obtain ⟨own, -⟩ := commits.own
  exact comparable_of_chain (List.take_prefix _ _) (List.prefix_refl _)
    (chained unique _ _ _ ⟨k, a, own, rfl⟩ ⟨m, b, leads, rfl⟩)

/-! ## The term of an election -/

/-- Nobody leads a term before it was won in the run, -/
theorem Elects.first {e : Nat} (elects : R.Elects e b u) (unique : R.OneLeaderPerTerm)
    (leads : R.Leads j a u) : e < j := by
  have same := unique.leads elects.leads leads
  subst same
  exact elects.lt_of_leads leads

/-- and the elected node has no entry of the term yet. -/
theorem Elects.entry_older {e i : Nat} {z : Entry} (elects : R.Elects e b u)
    (unique : R.OneLeaderPerTerm) (afterRun : R.ProposesAfterRun)
    (read : (R.node e b).log[i]? = some z) : z.term < u := by
  obtain ⟨within, -, -, term⟩ := elects.before
  have member : z.term ∈ (R.node e b).terms :=
    List.mem_map_of_mem (List.mem_of_getElem? read)
  have bound := ((ordered afterRun within.le b).within z.term member).2
  obtain ⟨n, c, lt, accepts⟩ := accepted_of_log unique afterRun within.le b _ z read
  obtain ⟨proposing, -⟩ := accepts.leads afterRun
  have strict : z.term ≠ u := by
    intro same
    have := elects.first unique (same ▸ proposing)
    omega
  omega

/-! ## Leader completeness -/

section Completeness

variable (unique : R.OneLeaderPerTerm) (afterRun : R.ProposesAfterRun) (sends : R.SendsAsLeader)

include unique afterRun sends

/-- The prefix stays at a node up to term `u`, while the leaders of the terms below `u`
are known to hold it and term `u` has no leader yet. -/
theorem Commits.retained_below (commits : R.Commits k a N) {g : Nat}
    (later : ∀ w, (R.node k a).currentTerm < w → w < u → ∀ i c, R.Leads i c w →
      (R.node k a).log.take N <+: (R.node i c).log)
    (quiet : ∀ i c, i < g → ¬ R.Leads i c u)
    (le : m ≤ g) (bound : g ≤ R.length)
    (lower : (R.node k a).currentTerm ≤ (R.node m v).currentTerm)
    (upper : (R.node g v).currentTerm ≤ u)
    (held : (R.node k a).log.take N <+: (R.node m v).log) :
    (R.node k a).log.take N <+: (R.node g v).log := by
  induction g, le using Nat.le_induction with
  | base => exact held
  | succ g from_m ih =>
      have within : g < R.length := bound
      have grown := (tenure (R := R) (Nat.le_add_right g 1) bound v).term
      have before := ih (fun i c lt => quiet i c (by omega)) within.le (by omega)
      apply retained_step unique afterRun within before
      intro j call splice
      have leads := splice.sent.leads sends
      have since := (tenure (R := R) from_m within.le v).term
      have notOld := splice.notOld
      have term := splice.term
      have sooner := splice.lt
      by_cases own : call.req.term = (R.node k a).currentTerm
      · exact commits.comparable_own unique (own ▸ leads)
      by_cases last : call.req.term = u
      · exact absurd (last ▸ leads) (quiet j call.caller (by omega))
      · exact Or.inl (later call.req.term (by omega) (by omega) j call.caller leads)

/-- A voter of an election held the prefix in the term of the commit, and still holds it
when it votes. -/
theorem Commits.voter (commits : R.Commits k a N)
    (later : ∀ w, (R.node k a).currentTerm < w → w < u → ∀ i c, R.Leads i c w →
      (R.node k a).log.take N <+: (R.node i c).log)
    (newer : (R.node k a).currentTerm < u) {e : Nat} (elects : R.Elects e b u) :
    ∃ g v, g ≤ R.length ∧ (R.node g v).NotAhead (R.node e b) ∧
      (R.node k a).log.take N <+: (R.node g v).log := by
  obtain ⟨holders, majority, -, holds⟩ := commits.quorum unique afterRun
  obtain ⟨votes, half, -, gives⟩ := elects.quorum
  have holdersIn : ∀ v ∈ holders, v ∈ cl.ids := by
    intro v member
    exact (holds v member).1
  have votersIn : ∀ v ∈ votes, v ∈ cl.ids := by
    intro v member
    obtain ⟨g, -, grants, -⟩ := gives v member
    exact grants.recorded.2.1
  obtain ⟨v, holder, voter⟩ := Cluster.overlap holdersIn votersIn (by omega)
  obtain ⟨-, m, mk, termM, held⟩ := holds v holder
  obtain ⟨g, ge, grants, notAhead⟩ := gives v voter
  obtain ⟨withinG, -, -, termG, -⟩ := grants.recorded
  have m_le : m ≤ g := by
    by_contra after
    have boundM : m ≤ R.length := by
      obtain ⟨⟨_, _, _, ran⟩, -, -⟩ := commits
      have := ran.within
      omega
    have := (tenure (R := R) (show g + 1 ≤ m by omega) boundM v).term
    omega
  have quiet : ∀ i c, i < g → ¬ R.Leads i c u := by
    intro i c lt leads
    have := elects.first unique leads
    omega
  have upper := (tenure (R := R) (Nat.le_add_right g 1) withinG v).term
  exact ⟨g, v, withinG.le, notAhead, commits.retained_below unique afterRun sends later quiet m_le
    withinG.le termM.ge (by omega) held⟩

/-- **An election passes the prefix on**, if the leaders of the terms in between hold
it. -/
theorem Commits.elected (commits : R.Commits k a N)
    (later : ∀ w, (R.node k a).currentTerm < w → w < u → ∀ i c, R.Leads i c w →
      (R.node k a).log.take N <+: (R.node i c).log)
    (newer : (R.node k a).currentTerm < u) {e : Nat} (elects : R.Elects e b u) :
    (R.node k a).log.take N <+: (R.node e b).log := by
  obtain ⟨within, -⟩ := elects.before
  obtain ⟨g, v, boundG, notAhead, kept⟩ :=
    commits.voter unique afterRun sends later newer elects
  -- the voter's last entry, and the last entry of the elected node
  obtain ⟨x, lastP, termX⟩ := commits.getLast
  have inOrder := ordered afterRun boundG v
  have sorted : (R.node g v).log.Pairwise fun x y => x.term ≤ y.term := by
    have := inOrder.sorted
    rwa [Raft.terms, List.pairwise_map] at this
  obtain ⟨y, lastVoter⟩ : ∃ y, (R.node g v).log.getLast? = some y := by
    have member := kept.subset (List.mem_of_getLast? lastP)
    exact ⟨_, List.getLast?_eq_some_getLast (List.ne_nil_of_mem member)⟩
  have positive : 1 ≤ y.term :=
    (inOrder.within y.term (List.mem_map_of_mem (List.mem_of_getLast? lastVoter))).1
  obtain ⟨z, lastB, upToDate⟩ := notAhead.getLast lastVoter positive
  apply prefix_of_upToDate (chained unique) lastP (termX ▸ ⟨k, a, commits.own.1, rfl⟩)
    (List.take_prefix _ _) kept sorted lastVoter lastB upToDate
    (authored unique afterRun within.le b)
  rintro newerZ M ⟨i, c, leads, rfl⟩
  have older := elects.entry_older unique afterRun (List.getLast?_eq_getElem? ▸ lastB)
  exact later z.term (termX ▸ newerZ) older i c leads

/-- **Leader completeness.**  Every leader of a later term holds what was committed. -/
theorem Commits.complete (commits : R.Commits k a N) (newer : (R.node k a).currentTerm < u)
    (leads : R.Leads m b u) : (R.node k a).log.take N <+: (R.node m b).log := by
  -- by induction on how much later the term is
  have all : ∀ n : Nat, ∀ w, (R.node k a).currentTerm < w → w ≤ (R.node k a).currentTerm + n →
      ∀ i c, R.Leads i c w → (R.node k a).log.take N <+: (R.node i c).log := by
    intro n
    induction n with
    | zero => intro w above upTo; omega
    | succ n ih =>
        intro w above upTo i c leads
        obtain ⟨e, lt, elects⟩ := election_of_leads leads
        have held := commits.elected unique afterRun sends
          (fun w' above' below i c => ih w' above' (by omega) i c) above elects
        rw [← elects.log] at held
        exact held.trans (elects.leads.log leads lt)
  exact all (u - (R.node k a).currentTerm).toNat u newer (by omega) m b leads

/-- A committed prefix is comparable with the log of every leader from its term on. -/
theorem Commits.comparable (commits : R.Commits k a N) (notOlder : (R.node k a).currentTerm ≤ u)
    (leads : R.Leads m b u) :
    (R.node k a).log.take N <+: (R.node m b).log ∨
      (R.node m b).log <+: (R.node k a).log.take N := by
  rcases Int.lt_or_eq_of_le notOlder with newer | same
  · exact Or.inl (commits.complete unique afterRun sends newer leads)
  · exact commits.comparable_own unique (same ▸ leads)

end Completeness

end ClusterRun

end Rafty
