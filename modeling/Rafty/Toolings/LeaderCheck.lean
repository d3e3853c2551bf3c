/-
# Rafty.Toolings.LeaderCheck — the tester's search for the leader

`MultiprocTestConfig::check_one_leader` polls the connected nodes up to ten times.  It
groups the ids of those that answer `is_leader` by the term they answer with, fails on a
term with two ids, and otherwise takes the id under the largest term.

`get_state` reads `currentTerm` and `currentRole` without the lock, so an answer is put
together from two states of the node.  A read can fall into a section of another thread; it
sees the state before or after that section then, so the later read need not be of the later
state.

* If no answer is torn, that is, no node that shows itself as leader changed its term
  between the two reads, the check never fails for two leaders, and it returns the node
  that leads in the latest of the answered terms (`check_one_leader`).
* A torn answer can show a node as leader of a term that another one leads, and then the
  check fails on a cluster that is correct (`torn_answer`).
-/
import Rafty.Replication.Sorted
import Rafty.Kernel.Ranges
import Mathlib.Data.Finset.Card

namespace Rafty

set_option autoImplicit false

open Theory

/-- `testerpb::State`.  A call that fails leaves the default. -/
structure Answer where
  term : Nat := 0
  isLeader : Bool := false
  id : Nat := 0
  deriving DecidableEq, Repr

/-- The entries of `leaders`, a map from terms to the ids that answered with them. -/
abbrev Leaders := List (Nat × List Nat)

namespace Leaders

/-- The body of the loop over the answers. -/
def record (leaders : Leaders) (state : Answer) : Leaders :=
  if state.isLeader then
    if state.term ∈ leaders.map Prod.fst then
      leaders.map fun (term, ids) =>
        (term, if term = state.term then ids ++ [state.id] else ids)
    else leaders ++ [(state.term, [state.id])]
  else leaders

def ofStates (states : List Answer) : Leaders := states.foldl record []

/-- `static_cast<int>` of a `uint64`. -/
def asInt (n : Nat) : Int := (n : Int).bmod (1 <<< 32)

/-- The loop over the map, in whatever order it goes through it: the largest term, or a
term with more than one leader and their number. -/
def scan : Leaders → Int → Except (Nat × Nat) Int
  | [], lastTermWithLeader => .ok lastTermWithLeader
  | (term, ids) :: rest, lastTermWithLeader =>
      if 1 < ids.length then .error (term, ids.length)
      else scan rest (max lastTermWithLeader (asInt term))

/-- What one poll leads to.  `undefined` is `front` of the empty vector that `leaders[]`
creates for a term that is not there. -/
inductive Verdict
  | nobody
  | leader (id : Nat)
  | tooMany (term count : Nat)
  | undefined
  deriving DecidableEq, Repr

def verdict (leaders : Leaders) : Verdict :=
  match leaders.scan (-1) with
  | .error (term, count) => .tooMany term count
  | .ok lastTermWithLeader =>
      if leaders.isEmpty then .nobody
      else
        match leaders.lookup (asSize lastTermWithLeader) with
        | some (id :: _) => .leader id
        | _ => .undefined

/-! ## The groups -/

/-- The ids under a term, in the order of the answers. -/
def reported (states : List Answer) (term : Nat) : List Nat :=
  (states.filter fun state => state.isLeader && state.term == term).map Answer.id

/-- The terms are distinct, and each has the ids that reported it. -/
structure Groups (states : List Answer) (leaders : Leaders) : Prop where
  nodup : (leaders.map Prod.fst).Nodup
  mem : ∀ term ids, (term, ids) ∈ leaders ↔ ids ≠ [] ∧ ids = reported states term

variable {states : List Answer} {leaders : Leaders}

theorem mem_filter_term {term : Nat} {s : Answer} :
    s ∈ states.filter (fun state => state.isLeader && state.term == term) ↔
      s ∈ states ∧ s.isLeader = true ∧ s.term = term := by
  simp [List.mem_filter]

theorem reported_concat (state : Answer) (term : Nat) :
    reported (states ++ [state]) term =
      reported states term ++
        if state.isLeader = true ∧ state.term = term then [state.id] else [] := by
  simp only [reported, List.filter_append, List.map_append]
  by_cases isLeader : state.isLeader = true <;> by_cases same : state.term = term <;>
    simp [isLeader, same]

theorem Groups.mem_terms (groups : Groups states leaders) {term : Nat} :
    term ∈ leaders.map Prod.fst ↔ reported states term ≠ [] := by
  simp only [List.mem_map, Prod.exists, exists_and_right, exists_eq_right, groups.mem]

theorem Groups.record (groups : Groups states leaders) (state : Answer) :
    Groups (states ++ [state]) (leaders.record state) := by
  unfold Leaders.record
  split
  case isFalse follower =>
    refine ⟨groups.nodup, fun term ids => ?_⟩
    rw [reported_concat, if_neg (fun both => follower both.1), List.append_nil, groups.mem]
  case isTrue isLeader =>
    split
    case isTrue old =>
      refine ⟨by simpa [Function.comp_def] using groups.nodup, fun term ids => ?_⟩
      simp only [List.mem_map, Prod.mk.injEq, Prod.exists, reported_concat, isLeader, true_and]
      constructor
      · rintro ⟨_, before, member, rfl, rfl⟩
        obtain ⟨some, rfl⟩ := (groups.mem _ _).mp member
        split
        · rename_i same
          simp [same]
        · rename_i other
          simp [Ne.symm other, some]
      · rintro ⟨some, rfl⟩
        refine ⟨term, reported states term, ?_, rfl, ?_⟩
        · by_cases same : state.term = term
          · exact (groups.mem _ _).mpr ⟨groups.mem_terms.mp (same ▸ old), rfl⟩
          · exact (groups.mem _ _).mpr ⟨by simpa [same] using some, rfl⟩
        · by_cases same : state.term = term
          · simp [same]
          · simp [same, Ne.symm same]
    case isFalse new =>
      have none : reported states state.term = [] := by
        by_contra some
        exact new (groups.mem_terms.mpr some)
      constructor
      · rw [List.map_append, List.nodup_append]
        refine ⟨groups.nodup, by simp, ?_⟩
        rintro term member _ last rfl
        have same : term = state.term := List.mem_singleton.mp last
        exact new (same ▸ member)
      · intro term ids
        simp only [List.mem_append, List.mem_singleton, Prod.mk.injEq, groups.mem,
          reported_concat, isLeader, true_and]
        by_cases same : state.term = term
        · subst same
          have some : ids = [state.id] → ids ≠ [] := fun isId => isId ▸ List.cons_ne_nil _ _
          simp only [none, List.nil_append, if_true, true_and]
          tauto
        · simp [same, Ne.symm same]

theorem groups_ofStates (states : List Answer) : Groups states (ofStates states) := by
  induction states using List.reverseRecOn with
  | nil => exact ⟨by simp [ofStates], by simp [ofStates, reported]⟩
  | append_singleton states state ih =>
      rw [ofStates, List.foldl_concat]
      exact ih.record state

/-- The order in which the map is gone through does not matter to the groups. -/
theorem Groups.perm (groups : Groups states leaders) {entries : Leaders}
    (order : entries.Perm leaders) : Groups states entries where
  nodup := (order.map Prod.fst).nodup_iff.mpr groups.nodup
  mem term ids := order.mem_iff.trans (groups.mem term ids)

/-! ## The scan -/

theorem asInt_of_small {term : Nat} (small : term < 1 <<< 31) : asInt term = term :=
  Int.bmod_eq_of_le (by omega) (by omega)

theorem asSize_of_small {term : Nat} (small : term < 1 <<< 31) : asSize term = term := by
  have lower : term < 2 ^ 31 := small
  unfold asSize
  omega

/-- Without a term with two leaders the scan ends, at a bound of the terms that one of
them reaches, or that it started from. -/
theorem scan_ok {entries : Leaders} (alone : ∀ entry ∈ entries, entry.2.length ≤ 1)
    (small : ∀ entry ∈ entries, entry.1 < 1 <<< 31) (start : Int) :
    ∃ last, entries.scan start = .ok last ∧ start ≤ last ∧
      (∀ entry ∈ entries, (entry.1 : Int) ≤ last) ∧
        (last = start ∨ ∃ entry ∈ entries, last = entry.1) := by
  induction entries generalizing start with
  | nil => exact ⟨start, rfl, le_rfl, by simp, Or.inl rfl⟩
  | cons entry rest ih =>
      obtain ⟨term, ids⟩ := entry
      have here : (term : Int) = asInt term :=
        (asInt_of_small (small (term, ids) List.mem_cons_self)).symm
      have single : ¬ 1 < ids.length := not_lt.mpr (alone (term, ids) List.mem_cons_self)
      obtain ⟨last, scanned, above, bounds, reached⟩ :=
        ih (fun e member => alone e (List.mem_cons_of_mem _ member))
          (fun e member => small e (List.mem_cons_of_mem _ member)) (max start (asInt term))
      refine ⟨last, by rw [scan, if_neg single, scanned], (le_max_left _ _).trans above, ?_, ?_⟩
      · intro e member
        rcases List.mem_cons.mp member with rfl | later
        · exact here.le.trans ((le_max_right _ _).trans above)
        · exact bounds e later
      · rcases reached with same | ⟨e, member, same⟩
        · rcases le_total start (asInt term) with le | le
          · exact Or.inr ⟨(term, ids), List.mem_cons_self,
              same.trans ((max_eq_right le).trans here.symm)⟩
          · exact Or.inl (same.trans (max_eq_left le))
        · exact Or.inr ⟨e, List.mem_cons_of_mem _ member, same⟩

theorem lookup_of_mem {entries : Leaders} (nodup : (entries.map Prod.fst).Nodup) {term : Nat}
    {ids : List Nat} (member : (term, ids) ∈ entries) : entries.lookup term = some ids := by
  induction entries with
  | nil => cases member
  | cons entry rest ih =>
      obtain ⟨first, firstIds⟩ := entry
      rw [List.map_cons, List.nodup_cons] at nodup
      rcases List.mem_cons.mp member with same | later
      · cases same
        simp
      · have other : term ≠ first := by
          rintro rfl
          exact nodup.1 (List.mem_map.mpr ⟨_, later, rfl⟩)
        rw [List.lookup_cons, beq_false_of_ne other]
        exact ih nodup.2 later

/-- No two answers show a leader of one term. -/
def Alone (states : List Answer) : Prop :=
  ∀ s ∈ states, ∀ s' ∈ states, s.isLeader = true → s'.isLeader = true → s.term = s'.term → s = s'

section Answers

variable {entries : Leaders} (groups : Groups states entries)

include groups

/-- Every term in the map was answered by a leader. -/
theorem Groups.answered {term : Nat} {ids : List Nat} (member : (term, ids) ∈ entries) :
    ∃ s ∈ states, s.isLeader = true ∧ s.term = term ∧ s.id ∈ ids := by
  obtain ⟨some, rfl⟩ := (groups.mem _ _).mp member
  obtain ⟨id, isId⟩ := List.exists_mem_of_ne_nil _ some
  obtain ⟨s, isIn, rfl⟩ := List.mem_map.mp isId
  obtain ⟨isState, isLeader, same⟩ := mem_filter_term.mp isIn
  exact ⟨s, isState, isLeader, same, isId⟩

/-- Every leader that answered is in the map. -/
theorem Groups.listed {s : Answer} (isState : s ∈ states) (isLeader : s.isLeader = true) :
    (s.term, reported states s.term) ∈ entries := by
  refine (groups.mem _ _).mpr ⟨?_, rfl⟩
  exact List.ne_nil_of_mem (List.mem_map_of_mem (mem_filter_term.mpr ⟨isState, isLeader, rfl⟩))

theorem Groups.single (alone : Alone states) (nodup : (states.filter Answer.isLeader).Nodup) :
    ∀ entry ∈ entries, entry.2.length ≤ 1 := by
  rintro ⟨term, ids⟩ member
  obtain ⟨-, rfl⟩ := (groups.mem _ _).mp member
  have distinct := nodup.filter (·.term == term)
  simp only [List.filter_filter, Bool.and_comm] at distinct
  rw [reported, List.length_map, ← List.toFinset_card_of_nodup distinct, Finset.card_le_one]
  intro s first s' second
  rw [List.mem_toFinset, mem_filter_term] at first second
  exact alone s first.1 s' second.1 first.2.1 second.2.1 (first.2.2.trans second.2.2.symm)

/-- **What the check finds**, if no two answers show a leader of one term and the terms are
small. -/
theorem verdict_cases (alone : Alone states) (nodup : (states.filter Answer.isLeader).Nodup)
    (small : ∀ s ∈ states, s.isLeader = true → s.term < 1 <<< 31) :
    (entries.verdict = .nobody ∧ ∀ s ∈ states, s.isLeader = false) ∨
      ∃ s ∈ states, s.isLeader = true ∧ entries.verdict = .leader s.id ∧
        ∀ s' ∈ states, s'.isLeader = true → s' = s ∨ s'.term < s.term := by
  have single := groups.single alone nodup
  have smallTerms : ∀ entry ∈ entries, entry.1 < 1 <<< 31 := by
    intro entry member
    obtain ⟨s, isIn, isLeader, same, -⟩ := groups.answered member
    exact same ▸ small s isIn isLeader
  obtain ⟨last, scanned, -, bounds, reached⟩ := scan_ok single smallTerms (-1)
  unfold verdict
  rw [scanned]
  simp only
  cases empty : entries with
  | nil =>
      refine Or.inl ⟨rfl, fun s isIn => ?_⟩
      by_contra isLeader
      have inEntries := groups.listed isIn (by simpa using isLeader)
      rw [empty] at inEntries
      cases inEntries
  | cons entry rest =>
      have isEntry : entry ∈ entries := empty ▸ List.mem_cons_self
      obtain ⟨⟨term, ids⟩, member, rfl⟩ : ∃ e ∈ entries, last = e.1 := by
        rcases reached with start | found
        · have := bounds entry isEntry
          omega
        · exact found
      obtain ⟨s, isIn, isLeader, rfl, hasId⟩ := groups.answered member
      refine Or.inr ⟨s, isIn, isLeader, ?_, ?_⟩
      · rw [← empty, asSize_of_small (smallTerms _ member), lookup_of_mem groups.nodup member]
        obtain ⟨id, rfl⟩ : ∃ id, ids = [id] :=
          List.length_eq_one_iff.mp
            (le_antisymm (single _ member) (List.length_pos_of_mem hasId))
        rw [List.mem_singleton.mp hasId]
        simp [empty]
      · intro s' isIn' isLeader'
        have le := bounds _ (groups.listed isIn' isLeader')
        rcases Nat.lt_or_eq_of_le (Int.ofNat_le.mp le) with lt | same
        · exact Or.inr lt
        · exact Or.inl (alone s' isIn' s isIn isLeader' isLeader same)

end Answers

end Leaders

/-! ## The ten polls -/

/-- What `check_one_leader` does: it returns an id, throws after the text it has logged,
or has read outside a vector. -/
inductive Outcome
  | leader (id : Nat)
  | abort (critical : Option String)
  | undefined
  deriving DecidableEq, Repr

/-- One iteration: whether `stop` or `failed` was set before it, and `leaders` after its
poll. -/
structure Iteration where
  halted : Bool
  leaders : Leaders

/-- `check_one_leader`, over its iterations; the source makes ten. -/
def checkOneLeader : List Iteration → Outcome
  | [] => .abort (some "expected one leader, got none")
  | iteration :: rest =>
      if iteration.halted then .abort none
      else
        match iteration.leaders.verdict with
        | .nobody => checkOneLeader rest
        | .leader id => .leader id
        | .tooMany term count =>
            .abort (some ("term " ++ toString term ++ " has " ++ toString count ++ " (>1) leaders"))
        | .undefined => .undefined

/-! ## Polls of a run -/

/-- The answer of a node, if it comes: the two states of the run in which `get_state` reads
the term and the role. -/
structure Reading where
  node : Nat
  first : Nat
  second : Nat
  answered : Bool

namespace ClusterRun

variable {cl : Cluster} (R : ClusterRun cl)

def answer (r : Reading) : Answer :=
  if r.answered then
    { term := (R.node r.first r.node).currentTerm.toNat
      isLeader := (R.node r.second r.node).currentRole = .leader
      id := r.node }
  else {}

/-- Every node is polled once, after its `run`, and the terms fit an `int`. -/
structure Polls (readings : List Reading) : Prop where
  nodup : (readings.map Reading.node).Nodup
  bound : ∀ r ∈ readings, r.first ≤ R.length ∧ r.second ≤ R.length
  running : ∀ r ∈ readings, (R.node r.second r.node).active = true
  small : ∀ r ∈ readings, (R.node r.first r.node).currentTerm < 1 <<< 31

/-- A node that shows itself as leader has changed its term between the two reads. -/
def Torn (r : Reading) : Prop :=
  (R.answer r).isLeader = true ∧
    (R.node r.first r.node).currentTerm ≠ (R.node r.second r.node).currentTerm

/-- The node shows itself as leader of the term `t`, and leads it. -/
structure Shows (r : Reading) (t : Int) : Prop where
  isLeader : (R.answer r).isLeader = true
  term : (R.answer r).term = t
  leads : R.Leads r.second r.node t

variable {R} {readings : List Reading} {r r' : Reading}

theorem answer_of_leader (isLeader : (R.answer r).isLeader = true) :
    R.answer r =
        { term := (R.node r.first r.node).currentTerm.toNat, isLeader := true, id := r.node } ∧
      (R.node r.second r.node).currentRole = .leader := by
  unfold answer at isLeader ⊢
  split at isLeader
  · rename_i answered
    have role : (R.node r.second r.node).currentRole = .leader := by simpa using isLeader
    simp [answered, role]
  · cases isLeader

/-- An answer that is not torn shows the leader of its term. -/
theorem shows_of_whole (polls : R.Polls readings) (isIn : r ∈ readings) (whole : ¬ R.Torn r)
    (isLeader : (R.answer r).isLeader = true) :
    R.Shows r (R.node r.second r.node).currentTerm := by
  obtain ⟨answer, role⟩ := answer_of_leader isLeader
  obtain ⟨boundFirst, bound⟩ := polls.bound r isIn
  have same : (R.node r.first r.node).currentTerm = (R.node r.second r.node).currentTerm := by
    by_contra changed
    exact whole ⟨isLeader, changed⟩
  refine ⟨isLeader, ?_, ⟨bound, polls.running r isIn, role, rfl⟩⟩
  rw [answer, ← same]
  exact Int.toNat_of_nonneg (term_nonneg boundFirst r.node)

theorem Polls.eq_of_node (polls : R.Polls readings) (first : r ∈ readings) (second : r' ∈ readings)
    (same : r.node = r'.node) : r = r' :=
  List.inj_on_of_nodup_map polls.nodup first second same

/-- **One poll.**  If no answer is torn, the check finds nobody, and then nobody shows itself
as leader, or it finds the node that leads in the latest of the answered terms. -/
theorem poll_cases (unique : R.OneLeaderPerTerm) (polls : R.Polls readings)
    (whole : ∀ r ∈ readings, ¬ R.Torn r) {entries : Leaders}
    (order : entries.Perm (Leaders.ofStates (readings.map R.answer))) :
    (entries.verdict = .nobody ∧ ∀ r ∈ readings, (R.answer r).isLeader = false) ∨
      ∃ r ∈ readings, ∃ t, R.Shows r t ∧ entries.verdict = .leader r.node ∧
        ∀ r' ∈ readings, ∀ t', R.Shows r' t' → r' = r ∨ t' < t := by
  let states := readings.map R.answer
  have shown : ∀ {r}, r ∈ readings → (R.answer r).isLeader = true →
      R.Shows r (R.node r.second r.node).currentTerm :=
    fun isIn isLeader => shows_of_whole polls isIn (whole _ isIn) isLeader
  have alone : Leaders.Alone states := by
    intro s isState s' isState' isLeader isLeader' same
    obtain ⟨r, isIn, rfl⟩ := List.mem_map.mp isState
    obtain ⟨r', isIn', rfl⟩ := List.mem_map.mp isState'
    have here := shown isIn isLeader
    have there := shown isIn' isLeader'
    have sameTerm := here.term.symm.trans ((congrArg Nat.cast same).trans there.term)
    exact congrArg R.answer
      (polls.eq_of_node isIn isIn' (unique.leads here.leads (sameTerm ▸ there.leads)))
  have nodup : (states.filter Answer.isLeader).Nodup := by
    apply List.Nodup.of_map Answer.id
    have ids : (states.filter Answer.isLeader).map Answer.id =
        (readings.filter fun r => (R.answer r).isLeader).map Reading.node := by
      rw [List.filter_map, List.map_map]
      apply List.map_congr_left
      intro r member
      have isLeader : (R.answer r).isLeader = true := by simpa using (List.mem_filter.mp member).2
      exact congrArg Answer.id (answer_of_leader isLeader).1
    rw [ids]
    exact polls.nodup.sublist (List.filter_sublist.map _)
  have small : ∀ s ∈ states, s.isLeader = true → s.term < 1 <<< 31 := by
    intro s isState isLeader
    obtain ⟨r, isIn, rfl⟩ := List.mem_map.mp isState
    rw [(answer_of_leader isLeader).1]
    have := polls.small r isIn
    change (R.node r.first r.node).currentTerm.toNat < 1 <<< 31
    omega
  have groups := (Leaders.groups_ofStates states).perm order
  rcases Leaders.verdict_cases groups alone nodup small with
    ⟨nobody, none⟩ | ⟨s, isState, isLeader, found, latest⟩
  · exact Or.inl ⟨nobody, fun r isIn => none _ (List.mem_map_of_mem isIn)⟩
  · obtain ⟨r, isIn, rfl⟩ := List.mem_map.mp isState
    have here := shown isIn isLeader
    refine Or.inr ⟨r, isIn, _, here, ?_, ?_⟩
    · rw [found, (answer_of_leader isLeader).1]
    · intro r' isIn' t' there
      rcases latest _ (List.mem_map_of_mem isIn') there.isLeader with same | lt
      · have nodes := congrArg Answer.id same
        rw [(answer_of_leader isLeader).1, (answer_of_leader there.isLeader).1] at nodes
        exact Or.inl (polls.eq_of_node isIn' isIn nodes)
      · have terms := Int.ofNat_lt.mpr lt
        rw [there.term, here.term] at terms
        exact Or.inr terms

/-- Nobody of the poll shows itself as leader. -/
def Leaderless (R : ClusterRun cl) (readings : List Reading) : Prop :=
  ∀ r ∈ readings, (R.answer r).isLeader = false

/-- The node of `r` leads in the latest of the terms that the poll shows. -/
def Latest (R : ClusterRun cl) (readings : List Reading) (r : Reading) : Prop :=
  r ∈ readings ∧ ∃ t, R.Shows r t ∧ ∀ r' ∈ readings, ∀ t', R.Shows r' t' → r' = r ∨ t' < t

/-- A poll of the run, with the map that is filled from it. -/
structure Poll (R : ClusterRun cl) where
  readings : List Reading
  leaders : Leaders
  polls : R.Polls readings
  order : leaders.Perm (Leaders.ofStates (readings.map R.answer))

/-- **The leader is found.**  In a run in which no term has two leaders, while no answer is
torn, `check_one_leader` returns the node that leads in the latest term shown by the first
poll that shows a leader; and it gives up exactly when no poll shows one.  It never reports
two leaders. -/
theorem check_one_leader (R : ClusterRun cl) (unique : R.OneLeaderPerTerm) (polls : List R.Poll)
    (whole : ∀ poll ∈ polls, ∀ r ∈ poll.readings, ¬ R.Torn r) :
    (checkOneLeader (polls.map fun poll => ⟨false, poll.leaders⟩) =
        .abort (some "expected one leader, got none") ∧
      ∀ poll ∈ polls, R.Leaderless poll.readings) ∨
    ∃ before poll after r, polls = before ++ poll :: after ∧
      (∀ earlier ∈ before, R.Leaderless earlier.readings) ∧ R.Latest poll.readings r ∧
        checkOneLeader (polls.map fun poll => ⟨false, poll.leaders⟩) = .leader r.node := by
  induction polls with
  | nil => exact Or.inl ⟨rfl, by simp⟩
  | cons poll rest ih =>
      have here := poll_cases unique poll.polls (whole poll List.mem_cons_self) poll.order
      rw [List.map_cons, checkOneLeader, if_neg (by simp)]
      rcases here with ⟨nobody, none⟩ | ⟨r, isIn, t, shows, found, latest⟩
      · simp only [nobody]
        rcases ih fun later member => whole later (List.mem_cons_of_mem _ member) with
          ⟨gaveUp, noneLater⟩ | ⟨before, later, after, r, split, noneBefore, isLatest, found⟩
        · exact Or.inl ⟨gaveUp, List.forall_mem_cons.mpr ⟨none, noneLater⟩⟩
        · exact Or.inr ⟨poll :: before, later, after, r, by rw [split]; rfl,
            List.forall_mem_cons.mpr ⟨none, noneBefore⟩, isLatest, found⟩
      · simp only [found]
        exact Or.inr ⟨[], poll, rest, r, rfl, by simp, ⟨isIn, t, shows, latest⟩, rfl⟩

/-- Leader 1 of term 1, then leader 2 of term 2, of which 1 has not heard. -/
def twoLeaders : List Action := oneElection ++ campaign 2 3 1 2

theorem twoLeaders_accepted :
    ((machine (.ofSize 3 (by decide))).exec World.fresh twoLeaders).isSome := by decide +kernel

theorem check_one_leader_of_two :
    ∃ R : ClusterRun (.ofSize 3 (by decide)), ∃ poll : R.Poll,
      (∀ r ∈ poll.readings, (R.answer r).isLeader = true) ∧ poll.readings.length = 2 ∧
        ∃ r, r.node = 2 ∧ R.Latest poll.readings r := by
  let R : ClusterRun (.ofSize 3 (by decide)) := .of _ twoLeaders twoLeaders_accepted
  have unique : R.OneLeaderPerTerm := oneLeader_of_majority (Or.inl rfl) R
  let readings : List Reading := [⟨1, 17, 17, true⟩, ⟨2, 17, 17, true⟩]
  let poll : R.Poll :=
    { readings := readings
      leaders := Leaders.ofStates (readings.map R.answer)
      polls := ⟨by decide, by decide, by decide +kernel, by decide +kernel⟩
      order := List.Perm.refl _ }
  have same : ∀ r ∈ readings,
      (R.node r.first r.node).currentTerm = (R.node r.second r.node).currentTerm := by
    decide +kernel
  have whole : ∀ p ∈ [poll], ∀ r ∈ p.readings, ¬ R.Torn r := by
    intro p isPoll r isIn torn
    rw [List.mem_singleton.mp isPoll] at isIn
    exact torn.2 (same r isIn)
  have leaders : ∀ r ∈ readings, (R.answer r).isLeader = true := by decide +kernel
  have second : checkOneLeader [⟨false, poll.leaders⟩] = .leader 2 := by decide +kernel
  refine ⟨R, poll, leaders, rfl, ?_⟩
  rcases check_one_leader R unique [poll] whole with
    ⟨gaveUp, -⟩ | ⟨before, found, after, r, split, -, latest, answer⟩
  · cases gaveUp.symm.trans second
  · obtain ⟨rfl, -⟩ : found = poll ∧ before = [] := by
      cases before <;> simp_all
    exact ⟨r, (Outcome.leader.inj (answer.symm.trans second)), latest⟩

/-- **A torn answer fails a correct cluster.**  Node 2 is asked for its term before its
election and for its role after it; so it shows itself as leader of the term of node 1. -/
theorem torn_answer :
    ∃ R : ClusterRun (.ofSize 3 (by decide)), R.OneLeaderPerTerm ∧ ∃ readings,
      R.Polls readings ∧
        (Leaders.ofStates (readings.map R.answer)).verdict = .tooMany 1 2 := by
  let R : ClusterRun (.ofSize 3 (by decide)) := .of _ twoLeaders twoLeaders_accepted
  refine ⟨R, oneLeader_of_majority (Or.inl rfl) R, [⟨1, 17, 17, true⟩, ⟨2, 10, 17, true⟩], ?_, ?_⟩
  · exact ⟨by decide, by decide, by decide +kernel, by decide +kernel⟩
  · decide +kernel

end ClusterRun

end Rafty
