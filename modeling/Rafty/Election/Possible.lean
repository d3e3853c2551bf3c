/-
# Rafty.Election.Possible — a majority that is up can always elect a leader

From any state of any run, the nodes of any set that has a majority of the votes, two at
least, and that are up (`run` was called, `kill` was not) can by themselves go on to a
state in which one of them leads, in a term not below that of any of them
(`election_possible`).  Whatever happened before, nothing blocks an election for good.

The node to elect is one with the greatest log.  If it is a leader of an old term, a node
of a later term deposes it by asking for its vote (`takes_depose`).  It then stands for a
term above all the others (`stands_later`), and each of them votes for it when asked
(`takes_vote`), until the votes suffice (`takes_canvass`).
-/
import Rafty.Election.Standing
import Rafty.Replication.Indices
import Rafty.Theory.Reach
import Mathlib.Data.Prod.Lex
import Mathlib.Data.Finset.Max

namespace Rafty

set_option autoImplicit false

open Theory

namespace Raft

variable {config : Config} {r r' : Raft} {t : Int} {req : RequestVoteRequest}

/-! ## The voter -/

/-- The node has stepped down in term `t`, and will start an election timer. -/
structure Deposed (t : Int) (r r' : Raft) : Prop where
  role : r'.currentRole = .follower
  term : r'.currentTerm = t
  log : r'.log = r.log
  active : r'.active = r.active
  dead : r'.dead = r.dead
  rearms : .startElectionTimer ∈ r'.threads

theorem deposed_stepDown (r : Raft) (t : Int) : Deposed t r (r.adoptTerm t).stepDown := by
  have core := (r.adoptTerm t).core_stepDown
  simp only [Raft.core, Core.mk.injEq] at core
  refine ⟨core.2.2.2.1, core.2.1, core.2.2.2.2.2, core.1, ?_, ?_⟩
  · unfold stepDown releaseSyncProps
    split <;> rfl
  · simp [stepDown, spawn]

/-- In a term it does not know yet, a node votes for whoever is not behind it. -/
theorem replyVote_grants (active : r.active = true) (lower : r.currentTerm < req.term)
    (upToDate : r.candidateUpToDate req) :
    (r.replyVote req).2 = { term := req.term, voteGranted := true } := by
  have deposed := deposed_stepDown r req.term
  have free : (r.adoptTerm req.term).stepDown.votedFor = -1 :=
    congrArg Core.votedFor (r.adoptTerm req.term).core_stepDown
  have upToDate' := (candidateUpToDate_congr deposed.log).mpr upToDate
  simp [replyVote, active, lower, not_lt.mpr lower.le, free, upToDate', deposed.term]

theorem Deposed.grant {s : Raft} (deposed : Deposed t r s) (candidateId : Int) :
    Deposed t r (s.grantVote candidateId false) := by
  obtain ⟨role, term, log, active, dead, rearms⟩ := deposed
  simp only [grantVote, releaseSyncProps, role]
  exact ⟨rfl, term, log, active, dead, rearms⟩

/-- It steps down in any case. -/
theorem replyVote_deposes (active : r.active = true) (lower : r.currentTerm < req.term) :
    Deposed req.term r (r.replyVote req).1 := by
  have deposed := deposed_stepDown r req.term
  simp only [replyVote, active, Bool.true_eq_false, if_false, if_neg (not_lt.mpr lower.le),
    if_pos lower]
  split
  · exact deposed
  split
  · simpa [lower] using deposed.grant req.candidateId
  · exact deposed

/-- Whoever takes in a request that is not old is a follower afterwards. -/
theorem appendEntries_follows {req : AppendEntriesRequest} {reply : AppendEntriesReply}
    (active : r.active = true) (notOld : r.currentTerm ≤ req.term)
    (answered : r.appendEntries req = some (r', reply)) : r'.currentRole = .follower := by
  by_cases success : reply.success = true
  · obtain ⟨-, -, -, followed⟩ := appendEntries_success answered success
    exact congrArg Core.currentRole (core_accepted notOld followed)
  · rw [Bool.not_eq_true] at success
    rcases appendEntries_refused answered success with ⟨inactive | old, -⟩ | ⟨-, -, rfl, -⟩
    · simp [active] at inactive
    · omega
    · exact congrArg Core.currentRole (r.core_acknowledge req notOld)

/-! ## The candidate -/

/-- A candidate of term `t` with a thread to ask each of `rest`. -/
structure Canvasses (r : Raft) (t : Int) (rest : List Nat) : Prop where
  role : r.currentRole = .candidate
  term : r.currentTerm = t
  outside : ∀ v ∈ rest, v ∉ r.votes
  pending : ∀ v ∈ rest, .requestVote v t ∈ r.threads

/-- Who stands goes on to spawn its threads. -/
theorem Stood.canvasses {n : Nat} (stood : Stood config n r r') (rest : List Nat)
    (peers : ∀ v ∈ rest, v ∈ config.peers) (others : config.id ∉ rest) :
    Section config r' .requestVotes ((r'.finish .requestVotes).requestVotes config) .none ∧
      ((r'.finish .requestVotes).requestVotes config).Canvasses (r.currentTerm + n) rest := by
  have core := stood.core
  simp only [Raft.core, Core.mk.injEq] at core
  refine ⟨.requestVotes stood.asks, core.2.2.2.1, core.2.1, ?_, ?_⟩
  · intro v member
    change v ∉ r'.votes
    rw [core.2.2.2.2.1, Finset.mem_singleton]
    exact fun same => others (same ▸ member)
  · intro v member
    have term : (r'.finish .requestVotes).currentTerm = r.currentTerm + n := core.2.1
    exact List.mem_append_right _ (List.mem_map.mpr ⟨v, peers v member, by rw [term]⟩)

/-- The thread for `v` makes its call. -/
theorem Canvasses.ask {v : Nat} {rest : List Nat} (canvasses : r.Canvasses t (v :: rest))
    (once : v ∉ rest) (call : VoteCall) :
    ((r.finish (.requestVote v t)).spawn (.awaitVote call)).Canvasses t rest where
  role := canvasses.role
  term := canvasses.term
  outside u member := canvasses.outside u (List.mem_cons_of_mem v member)
  pending u member := by
    have ne : u ≠ v := fun same => once (same ▸ member)
    have still := canvasses.pending u (List.mem_cons_of_mem v member)
    exact List.mem_append_left _ ((List.mem_erase_of_ne (by simp [ne])).mpr still)

/-- `become_leader` has just run in term `t`. -/
structure Elected (config : Config) (t : Int) (r : Raft) : Prop where
  role : r.currentRole = .leader
  term : r.currentTerm = t
  next : ∀ p ∈ config.peers, r.nextIndex p = r.log.length + 1
  unmatched : ∀ p, r.matchIndex p = 0
  rearms : .startHeartbeatTimer ∈ r.threads

theorem elected_becomeLeader (term : r.currentTerm = t) :
    Elected config t (r.becomeLeader config) where
  role := rfl
  term := term
  next _ member := if_pos member
  unmatched _ := rfl
  rearms := List.mem_append_right _ (List.mem_singleton_self _)

/-- A vote decides the election, or it is counted and the canvass goes on. -/
inductive Counts (config : Config) (r : Raft) (t : Int) (v : Nat) (rest : List Nat) : Raft → Prop
  | wins {r' : Raft} (log : r'.log = r.log) (elected : Elected config t r') :
      Counts config r t v rest r'
  | goesOn {r' : Raft} (log : r'.log = r.log) (canvasses : r'.Canvasses t rest)
      (votes : r'.votes = insert v r.votes)
      (few : ¬ config.peers.length / 2 < (insert v r.votes).card) : Counts config r t v rest r'

/-- A granted vote in the term of the canvass is counted. -/
theorem Canvasses.counts (config : Config) {rest : List Nat} (canvasses : r.Canvasses t rest)
    (call : VoteCall)
    (electionTerm : call.electionTerm = t) (once : call.target ∉ rest) :
    Counts config r t call.target rest
      ((r.finish (.awaitVote call)).handleVoteReply config call
        { term := t, voteGranted := true }) := by
  have current : (r.finish (.awaitVote call)).currentTerm = call.electionTerm ∧
      (r.finish (.awaitVote call)).currentRole = .candidate :=
    ⟨canvasses.term.trans electionTerm.symm, canvasses.role⟩
  by_cases enough : config.peers.length / 2 < (insert call.target r.votes).card
  · have wins : (r.finish (.awaitVote call)).winsElection config call
        { term := t, voteGranted := true } := ⟨current.1, current.2, rfl, enough⟩
    rw [handleVoteReply_wins wins]
    exact .wins rfl (elected_becomeLeader canvasses.term)
  · have loses : ¬ (r.finish (.awaitVote call)).winsElection config call
        { term := t, voteGranted := true } := fun wins => enough wins.2.2.2
    rw [handleVoteReply, if_neg (by simp), countVote, if_pos ⟨current.1, current.2, rfl⟩]
    simp only [if_neg loses]
    refine .goesOn rfl ⟨canvasses.role, canvasses.term, ?_, ?_⟩ rfl enough
    · intro v member
      change v ∉ insert call.target r.votes
      rw [Finset.mem_insert, not_or]
      exact ⟨fun same => once (same ▸ member), canvasses.outside v member⟩
    · intro v member
      exact (List.mem_erase_of_ne (by simp)).mpr (canvasses.pending v member)

end Raft

/-- What a node does by itself sends nothing. -/
theorem Input.Own.silent {input : Input} {p : Prop} (own : input.Own) (builds : input.Builds) :
    p := by
  cases input <;> first | exact builds.elim | exact own.elim

/-- A node of `Q` runs one of its threads or a handler, and builds requests as leader only. -/
structure Action.By (Q : Finset Nat) (w : World) (action : Action) : Prop where
  node : action.node ∈ Q
  internal : action.input.Internal
  builds : action.input.Builds → (w.nodes action.node).currentRole = .leader

/-- By threads and handlers of the nodes of `Q` alone the cluster comes to `w'`. -/
def World.Reaches (cl : Cluster) (Q : Finset Nat) (w w' : World) : Prop :=
  (machine cl).Reaches (Action.By Q) w w'

namespace ClusterRun

variable {cl : Cluster} {w w' : World} {Q : Finset Nat} {a c v : Nat} {t : Int}

/-- A step is a section of one node. -/
theorem step_world {action : Action} (stepped : World.step cl w action = some w') :
    ∃ r output, (w.nodes action.node).step (cl.config action.node) action.input = some (r, output) ∧
      w'.nodes action.node = r ∧ ∀ b, b ≠ action.node → w'.nodes b = w.nodes b := by
  simp only [World.step] at stepped
  split at stepped
  · simp only [Option.bind_eq_bind, Option.bind_eq_some_iff] at stepped
    obtain ⟨⟨r, output⟩, ran, same⟩ := stepped
    cases same
    refine ⟨r, output, ran, by simp, ?_⟩
    intro b ne
    simp [ne]
  · cases stepped

/-- Nobody is killed on the way. -/
theorem up_of_reaches (reaches : w.Reaches cl Q w') (up : (w.nodes v).Up) : (w'.nodes v).Up := by
  apply Machine.Reaches.invariant (I := fun w => (w.nodes v).Up) reaches ?_ up
  intro w action w' allowed stepped up
  obtain ⟨r, output, ran, isNext, others⟩ := step_world stepped
  by_cases same : v = action.node
  · subst same
    rw [isNext]
    refine Raft.step_up ?_ ran up
    intro kills
    have := allowed.internal
    rw [kills] at this
    exact this
  · rw [others v same]
    exact up

/-- What a node does by itself. -/
theorem reaches_alone (member : a ∈ cl.ids) (inQ : a ∈ Q) {inputs : List Input} {r : Raft}
    (alone : Raft.Alone (cl.config a) (w.nodes a) inputs r) :
    ∃ w', w.Reaches cl Q w' ∧ w'.nodes a = r ∧ ∀ b, b ≠ a → w'.nodes b = w.nodes b := by
  generalize start : w.nodes a = s at alone
  induction alone generalizing w with
  | nil => exact ⟨w, .refl w, start, fun _ _ => rfl⟩
  | @cons s next r input rest own runs later ih =>
      have delivers : w.Delivers a input := by
        cases input <;> first | exact trivial | exact absurd own id
      have took := takes_section input member delivers (start ▸ runs)
      obtain ⟨w', reaches, isR, others⟩ := ih (w := w.after a next input .none) World.after_self
      refine ⟨w', (Machine.Reaches.single took ⟨inQ, own.internal, own.silent⟩).trans reaches,
        isR, ?_⟩
      intro b ne
      rw [others b ne, World.after_ne ne]

/-- A thread of `c` asks `v`, which answers. -/
theorem reaches_ask (memberC : c ∈ cl.ids) (memberV : v ∈ cl.ids) (inC : c ∈ Q) (inV : v ∈ Q)
    (ne : v ≠ c) (pending : .requestVote v t ∈ (w.nodes c).threads) :
    ∃ w' call, call = (w.nodes c).voteCall (cl.config c) v t ∧ w.Reaches cl Q w' ∧
      w'.nodes c = ((w.nodes c).finish (.requestVote v t)).spawn (.awaitVote call) ∧
      w'.nodes v = ((w.nodes v).replyVote call.req).1 ∧
      (call, ((w.nodes v).replyVote call.req).2) ∈ w'.voteReplies ∧
      ∀ b, b ≠ c → b ≠ v → w'.nodes b = w.nodes b := by
  have sent := takes_section (w := w) (.requestVote v t) memberC trivial (.requestVote pending)
  generalize built : (w.nodes c).voteCall (cl.config c) v t = call at sent
  have target : call.target = v := by rw [← built]; rfl
  generalize isC : ((w.nodes c).finish (.requestVote v t)).spawn (.awaitVote call) = r at sent
  have answered := takes_section (w := w.after c r (.requestVote v t) (.requestVote call))
    (.replyVote call) memberV ⟨List.mem_append_right _ (List.mem_singleton_self _), target⟩
    .replyVote
  rw [World.after_ne ne] at answered
  refine ⟨_, call, rfl, (Machine.Reaches.single sent ⟨inC, trivial, False.elim⟩).trans
    (Machine.Reaches.single answered ⟨inV, trivial, False.elim⟩), ?_, World.after_self, ?_, ?_⟩
  · rw [World.after_ne ne.symm, World.after_self, ← isC]
  · exact List.mem_append_right _ (List.mem_singleton_self _)
  · intro b neC neV
    rw [World.after_ne neV, World.after_ne neC]

/-- **One vote.**  Node `v`, which has not reached term `t` and is not ahead of `c`, votes for
it. -/
theorem reaches_vote {rest : List Nat} (memberC : c ∈ cl.ids) (memberV : v ∈ cl.ids)
    (inC : c ∈ Q) (inV : v ∈ Q) (ne : v ≠ c)
    (canvasses : (w.nodes c).Canvasses t (v :: rest)) (once : v ∉ rest)
    (active : (w.nodes v).active = true) (lower : (w.nodes v).currentTerm < t)
    (notAhead : (w.nodes v).NotAhead (w.nodes c)) :
    ∃ w', w.Reaches cl Q w' ∧ Raft.Counts (cl.config c) (w.nodes c) t v rest (w'.nodes c) ∧
      (w'.nodes v).currentTerm = t ∧ (w'.nodes v).log = (w.nodes v).log ∧
      ∀ b, b ≠ c → b ≠ v → w'.nodes b = w.nodes b := by
  obtain ⟨w₁, call, built, asked, isC, isV, posted, others⟩ :=
    reaches_ask memberC memberV inC inV ne (canvasses.pending v List.mem_cons_self)
  have target : call.target = v := by rw [built]; rfl
  have term : call.req.term = t := by rw [built]; exact canvasses.term
  have electionTerm : call.electionTerm = t := by rw [built]; rfl
  have upToDate : (w.nodes v).candidateUpToDate call.req := by
    rw [built]
    rcases notAhead with older | ⟨same, shorter⟩
    · exact Or.inl older
    · exact Or.inr ⟨same.symm, Int.ofNat_le.mpr shorter⟩
  have grants := Raft.replyVote_grants active (term ▸ lower) upToDate
  have deposed := Raft.replyVote_deposes active (term ▸ lower)
  rw [grants, term] at posted
  have pending : .awaitVote call ∈ (w₁.nodes c).threads := by
    rw [isC]
    exact List.mem_append_right _ (List.mem_singleton_self _)
  have tallied := takes_section (.voteReply call { term := t, voteGranted := true }) memberC posted
    (.voteReply pending)
  have counts := (isC ▸ canvasses.ask once call : (w₁.nodes c).Canvasses t rest).counts
    (cl.config c) call electionTerm (target ▸ once)
  refine ⟨_, asked.trans (Machine.Reaches.single tallied ⟨inC, trivial, False.elim⟩),
    ?_, ?_, ?_, ?_⟩
  · rw [World.after_self]
    rw [target] at counts
    have log : (w₁.nodes c).log = (w.nodes c).log := by rw [isC]; rfl
    have votes : (w₁.nodes c).votes = (w.nodes c).votes := by rw [isC]; rfl
    cases counts with
    | wins same elected => exact .wins (same.trans log) elected
    | goesOn same canvasses votes' few =>
        exact .goesOn (same.trans log) canvasses (votes' ▸ votes ▸ rfl) (votes ▸ few)
  · rw [World.after_ne ne, isV, deposed.term, term]
  · rw [World.after_ne ne, isV, deposed.log]
  · intro b neC neV
    rw [World.after_ne neC, others b neC neV]

/-- **The canvass.**  The nodes of `vs` are asked one after the other, until the votes
suffice. -/
theorem reaches_canvass (vs : List Nat) (memberC : c ∈ cl.ids) (inC : c ∈ Q) (outside : c ∉ vs)
    (distinct : vs.Nodup) (canvasses : (w.nodes c).Canvasses t vs)
    (voters : ∀ v ∈ vs, v ∈ cl.ids ∧ v ∈ Q ∧ (w.nodes v).active = true ∧
      (w.nodes v).currentTerm < t ∧ (w.nodes v).NotAhead (w.nodes c))
    (some : vs ≠ [])
    (enough : (cl.config c).peers.length / 2 < (w.nodes c).votes.card + vs.length) :
    ∃ w', w.Reaches cl Q w' ∧ Raft.Elected (cl.config c) t (w'.nodes c) ∧
      (w'.nodes c).log = (w.nodes c).log ∧
      ∀ b, b ≠ c → (w'.nodes b).log = (w.nodes b).log ∧
        ((w'.nodes b).currentTerm = (w.nodes b).currentTerm ∨ (w'.nodes b).currentTerm = t) := by
  induction vs generalizing w with
  | nil => exact absurd rfl some
  | cons v vs ih =>
      rw [List.nodup_cons] at distinct
      rw [List.mem_cons, not_or] at outside
      obtain ⟨memberV, inV, active, lower, notAhead⟩ := voters v List.mem_cons_self
      obtain ⟨w₁, voted, counts, termV, logV, others⟩ := reaches_vote memberC memberV inC inV
        (Ne.symm outside.1) canvasses distinct.1 active lower notAhead
      have kept : ∀ b, b ≠ c → (w₁.nodes b).log = (w.nodes b).log ∧
          ((w₁.nodes b).currentTerm = (w.nodes b).currentTerm ∨ (w₁.nodes b).currentTerm = t) := by
        intro b neC
        by_cases isV : b = v
        · subst isV
          exact ⟨logV, Or.inr termV⟩
        · rw [others b neC isV]
          exact ⟨rfl, Or.inl rfl⟩
      cases counts with
      | wins log elected => exact ⟨w₁, voted, elected, log, kept⟩
      | goesOn log canvasses' votes few =>
          have card := Finset.card_insert_of_notMem (canvasses.outside v List.mem_cons_self)
          have more : vs ≠ [] := by
            rintro rfl
            simp only [List.length_singleton] at enough
            omega
          have later : ∀ u ∈ vs, u ∈ cl.ids ∧ u ∈ Q ∧ (w₁.nodes u).active = true ∧
              (w₁.nodes u).currentTerm < t ∧ (w₁.nodes u).NotAhead (w₁.nodes c) := by
            intro u member
            have neC : u ≠ c := fun same => outside.2 (same ▸ member)
            have neV : u ≠ v := fun same => distinct.1 (same ▸ member)
            obtain ⟨memberU, inU, activeU, lowerU, notAheadU⟩ :=
              voters u (List.mem_cons_of_mem v member)
            rw [others u neC neV]
            exact ⟨memberU, inU, activeU, lowerU, notAheadU.of_log log⟩
          obtain ⟨w', reaches, elected, log', kept'⟩ :=
            ih outside.2 distinct.2 canvasses' later more
            (by rw [votes, card]; simp only [List.length_cons] at enough; omega)
          refine ⟨w', voted.trans reaches, elected, log'.trans log, ?_⟩
          intro b neC
          obtain ⟨logB, termB⟩ := kept b neC
          obtain ⟨logB', termB'⟩ := kept' b neC
          refine ⟨logB'.trans logB, termB'.elim (fun same => ?_) Or.inr⟩
          rwa [same]

/-- A node stands for a term beyond `bound` and spawns the threads that will ask. -/
theorem reaches_standing (member : c ∈ cl.ids) (inQ : c ∈ Q) (up : (w.nodes c).Up)
    (role : (w.nodes c).currentRole ≠ .leader) (bound : Int) (vs : List Nat)
    (peers : ∀ v ∈ vs, v ∈ cl.ids ∧ v ≠ c) :
    ∃ t w', bound < t ∧ w.Reaches cl Q w' ∧ (w'.nodes c).Canvasses t vs ∧
      (w'.nodes c).votes = {c} ∧ (w'.nodes c).log = (w.nodes c).log ∧
      ∀ b, b ≠ c → w'.nodes b = w.nodes b := by
  obtain ⟨inputs, r, alone, stood⟩ := Raft.stands_later (cl.config c) up.awake up.alive role
    (bound - (w.nodes c).currentTerm).toNat
  obtain ⟨runs, canvasses⟩ := stood.canvasses vs
    (fun v isPeer => Cluster.mem_peers.mpr (peers v isPeer))
    (fun isPeer => (peers c isPeer).2 rfl)
  obtain ⟨w', reaches, isC, others⟩ := reaches_alone member inQ
    (alone.append (.single (by trivial) runs))
  have core := stood.core
  simp only [Raft.core, Raft.Core.mk.injEq] at core
  refine ⟨_, w', ?_, reaches, isC ▸ canvasses, ?_, ?_, others⟩
  · push_cast
    omega
  · rw [isC]
    exact core.2.2.2.2.1
  · rw [isC]
    exact core.2.2.2.2.2

/-- **A candidate with the greatest log wins**, in a term beyond `bound`. -/
theorem reaches_election (members : ∀ v ∈ Q, v ∈ cl.ids) (ups : ∀ v ∈ Q, (w.nodes v).Up)
    (two : 2 ≤ Q.card) (majority : (cl.size - 1) / 2 < Q.card) (inQ : c ∈ Q)
    (role : (w.nodes c).currentRole ≠ .leader)
    (greatest : ∀ v ∈ Q, (w.nodes v).NotAhead (w.nodes c)) (bound : Int)
    (terms : ∀ v ∈ Q, (w.nodes v).currentTerm ≤ bound) :
    ∃ t w', bound < t ∧ w.Reaches cl Q w' ∧ Raft.Elected (cl.config c) t (w'.nodes c) ∧
      (∀ v, (w'.nodes v).log = (w.nodes v).log) ∧
      ∀ v ∈ Q, (w'.nodes v).currentTerm ≤ t := by
  have member := members c inQ
  have voter : ∀ v ∈ (Q.erase c).toList, v ∈ Q ∧ v ≠ c := by
    intro v isVoter
    rw [Finset.mem_toList, Finset.mem_erase] at isVoter
    exact ⟨isVoter.2, isVoter.1⟩
  have number : (Q.erase c).toList.length + 1 = Q.card := by
    rw [Finset.length_toList, Finset.card_erase_of_mem inQ]
    omega
  obtain ⟨t, w₁, above, stands, canvasses, votes, log, others⟩ := reaches_standing member inQ
    (ups c inQ) role bound (Q.erase c).toList
    fun v isVoter => ⟨members v (voter v isVoter).1, (voter v isVoter).2⟩
  have ready : ∀ v ∈ (Q.erase c).toList, v ∈ cl.ids ∧ v ∈ Q ∧ (w₁.nodes v).active = true ∧
      (w₁.nodes v).currentTerm < t ∧ (w₁.nodes v).NotAhead (w₁.nodes c) := by
    intro v isVoter
    obtain ⟨inV, ne⟩ := voter v isVoter
    rw [others v ne]
    exact ⟨members v inV, inV, (ups v inV).active, (terms v inV).trans_lt above,
      (greatest v inV).of_log log⟩
  have length := Cluster.length_peers member
  obtain ⟨w', canvassed, elected, log', kept⟩ := reaches_canvass (Q.erase c).toList member inQ
    (fun isVoter => (voter c isVoter).2 rfl) (Finset.nodup_toList _) canvasses ready
    (List.ne_nil_of_length_pos (by omega))
    (by rw [votes, Finset.card_singleton, Nat.add_comm, number]; omega)
  refine ⟨t, w', above, stands.trans canvassed, elected, ?_, ?_⟩
  · intro v
    by_cases isC : v = c
    · rw [isC, log', log]
    · rw [(kept v isC).1, others v isC]
  · intro v inV
    by_cases isC : v = c
    · rw [isC, elected.term]
    · rcases (kept v isC).2 with same | same
      · rw [same, others v isC]
        exact (terms v inV).trans above.le
      · exact same.le

/-- **A candidate deposes a leader** by asking for its vote in a later term. -/
theorem reaches_deposed (memberA : a ∈ cl.ids) (memberC : c ∈ cl.ids) (inA : a ∈ Q) (inC : c ∈ Q)
    (ne : c ≠ a) (upA : (w.nodes a).Up) (upC : (w.nodes c).Up)
    (role : (w.nodes a).currentRole ≠ .leader) :
    ∃ w', w.Reaches cl Q w' ∧ (w'.nodes c).currentRole ≠ .leader ∧
      ∀ v, (w'.nodes v).log = (w.nodes v).log := by
  obtain ⟨t, w₁, above, stands, canvasses, -, log, others⟩ := reaches_standing memberA inA upA role
    (w.nodes c).currentTerm [c] (by simpa using ⟨memberC, ne⟩)
  obtain ⟨w', call, built, asked, isA, isC, -, kept⟩ := reaches_ask memberA memberC inA inC ne
    (canvasses.pending c List.mem_cons_self)
  have term : call.req.term = t := by rw [built]; exact canvasses.term
  rw [others c ne] at isC
  have deposed : Raft.Deposed call.req.term (w.nodes c) ((w.nodes c).replyVote call.req).1 :=
    Raft.replyVote_deposes upC.active (by rw [term]; exact above)
  refine ⟨w', stands.trans asked, ?_, ?_⟩
  · rw [isC, deposed.role]
    simp
  · intro v
    by_cases atC : v = c
    · rw [atC, isC, deposed.log]
    by_cases atA : v = a
    · rw [atA, isA, ← log]
      rfl
    · rw [kept v atA atC, others v atA]

/-- **Of two leaders one gives way**: the one in the later term sends to the other, unless a
pending thread makes it a candidate first. -/
theorem reaches_outranked (memberA : a ∈ cl.ids) (memberC : c ∈ cl.ids) (inA : a ∈ Q) (inC : c ∈ Q)
    (ne : c ≠ a) (upA : (w.nodes a).Up) (upC : (w.nodes c).Up)
    (role : (w.nodes a).currentRole = .leader) (bounds : (w.nodes a).IndexBounds c)
    (notOld : (w.nodes c).currentTerm ≤ (w.nodes a).currentTerm) :
    ∃ w', w.Reaches cl Q w' ∧ ∃ v ∈ Q, (w'.nodes v).currentRole ≠ .leader := by
  rcases Raft.beats (cl.config a) upA role with ⟨inputs, r, alone, beats⟩ | pending
  · obtain ⟨w₁, reaches, isA, others⟩ := reaches_alone memberA inA alone
    have core := beats.core
    have progress := beats.progress
    simp only [Raft.core, Raft.Core.mk.injEq] at core
    simp only [Raft.progress, Raft.Progress.mk.injEq] at progress
    have inside : 1 ≤ r.nextIndex c ∧ r.nextIndex c ≤ r.log.length + 1 := by
      rw [progress.2.2.2.1, core.2.2.2.2.2]
      exact ⟨bounds.low, bounds.high⟩
    obtain ⟨call, built⟩ : ∃ call, r.appendCall (cl.config a) c = some call := by
      rw [Raft.appendCall]
      simp only [if_pos inside]
      exact ⟨_, rfl⟩
    have sends := Raft.sends_of_appendCall built
    have leads : (w₁.nodes a).currentRole = .leader := by rw [isA, core.2.2.2.1, role]
    rw [← isA] at built beats
    have sent := takes_section (.sendEntriesTo c) memberA trivial
      (.sendEntriesTo (beats.sends c (Cluster.mem_peers.mpr ⟨memberC, ne⟩)) built)
    generalize ((w₁.nodes a).finish (.sendEntriesTo c)).spawn (.awaitAppend call) = s at sent
    have answered := takes_section (w := w₁.after a s (.sendEntriesTo c) (.appendEntries call))
      (.appendEntries call) memberC
      ⟨List.mem_append_right _ (List.mem_singleton_self _), sends.receiver⟩
      (.appendEntries (Raft.appendEntries_answer _ _))
    rw [World.after_ne ne, others c ne] at answered
    refine ⟨_, reaches.trans ((Machine.Reaches.single sent ⟨inA, trivial, fun _ => leads⟩).trans
      (Machine.Reaches.single answered ⟨inC, trivial, False.elim⟩)), c, inC, ?_⟩
    have term : (w.nodes c).currentTerm ≤ call.req.term := by
      rw [sends.term, core.2.1]
      exact notOld
    rw [World.after_self,
      Raft.appendEntries_follows upC.active term (Raft.appendEntries_answer _ _)]
    simp
  · obtain ⟨inputs, r, alone, stood⟩ := Raft.stands_of_candidate (cl.config a) pending
    obtain ⟨w', reaches, isA, -⟩ := reaches_alone memberA inA alone
    have candidate : r.currentRole = .candidate := congrArg Raft.Core.currentRole stood.core
    exact ⟨w', reaches, a, inA, by rw [isA, candidate]; simp⟩

/-- Some node can be had that does not lead. -/
theorem reaches_free {R : ClusterRun cl} {k : Nat} (bound : k ≤ R.length)
    (members : ∀ v ∈ Q, v ∈ cl.ids) (ups : ∀ v ∈ Q, (R.node k v).Up) (two : 2 ≤ Q.card) :
    ∃ w', (R.state k).Reaches cl Q w' ∧ ∃ v ∈ Q, (w'.nodes v).currentRole ≠ .leader := by
  by_cases free : ∃ v ∈ Q, (R.node k v).currentRole ≠ .leader
  · exact ⟨R.state k, .refl _, free⟩
  have leader : ∀ v ∈ Q, (R.node k v).currentRole = .leader := by
    intro v inV
    by_contra other
    exact free ⟨v, inV, other⟩
  have outranked : ∀ a c, a ∈ Q → c ∈ Q → c ≠ a →
      (R.node k c).currentTerm ≤ (R.node k a).currentTerm →
        ∃ w', (R.state k).Reaches cl Q w' ∧ ∃ v ∈ Q, (w'.nodes v).currentRole ≠ .leader := by
    intro a c inA inC ne notOld
    have leads : R.Leads k a (R.node k a).currentTerm :=
      ⟨bound, (ups a inA).active, leader a inA, rfl⟩
    exact reaches_outranked (members a inA) (members c inC) inA inC ne (ups a inA) (ups c inC)
      (leader a inA) (bounds_of_leads leads (Cluster.mem_peers.mpr ⟨members c inC, ne⟩)) notOld
  obtain ⟨a, inA, c, inC, ne⟩ := Finset.one_lt_card.mp two
  rcases le_total (R.node k a).currentTerm (R.node k c).currentTerm with le | le
  · exact outranked c a inC inA ne le
  · exact outranked a c inA inC ne.symm le

/-- Some node of a set has a log that no other one's is ahead of. -/
theorem exists_greatest (w : World) (some : Q.Nonempty) :
    ∃ c ∈ Q, ∀ v ∈ Q, (w.nodes v).NotAhead (w.nodes c) := by
  obtain ⟨c, inC, greatest⟩ := Q.exists_max_image
    (fun v => toLex ((w.nodes v).lastLogTerm, (w.nodes v).log.length)) some
  refine ⟨c, inC, ?_⟩
  intro v inV
  exact (Prod.Lex.le_iff.mp (greatest v inV)).imp id id

/-- **A new leader can be had** from any state, in as late a term as one likes. -/
theorem reaches_elected {R : ClusterRun cl} {k : Nat} (bound : k ≤ R.length)
    (members : ∀ v ∈ Q, v ∈ cl.ids) (ups : ∀ v ∈ Q, (R.node k v).Up) (two : 2 ≤ Q.card)
    (majority : (cl.size - 1) / 2 < Q.card) (u : Int) :
    ∃ c ∈ Q, ∃ t w', u < t ∧ (R.state k).Reaches cl Q w' ∧
      Raft.Elected (cl.config c) t (w'.nodes c) ∧ ∀ v ∈ Q, (w'.nodes v).currentTerm ≤ t := by
  have some : Q.Nonempty := Finset.card_pos.mp (by omega)
  obtain ⟨w₁, freed, a, inA, free⟩ := reaches_free bound members ups two
  have ups₁ : ∀ v ∈ Q, (w₁.nodes v).Up := fun v inV => up_of_reaches freed (ups v inV)
  obtain ⟨c, inC, greatest⟩ := exists_greatest w₁ some
  -- the node with the greatest log does not lead, or is made to step down
  obtain ⟨w₂, deposed, role, logs⟩ : ∃ w₂, w₁.Reaches cl Q w₂ ∧
      (w₂.nodes c).currentRole ≠ .leader ∧ ∀ v, (w₂.nodes v).log = (w₁.nodes v).log := by
    by_cases leads : (w₁.nodes c).currentRole = .leader
    · have ne : c ≠ a := fun same => free (same ▸ leads)
      exact reaches_deposed (members a inA) (members c inC) inA inC ne (ups₁ a inA) (ups₁ c inC)
        free
    · exact ⟨w₁, .refl w₁, leads, fun _ => rfl⟩
  have greatest₂ : ∀ v ∈ Q, (w₂.nodes v).NotAhead (w₂.nodes c) := by
    intro v inV
    have here := (greatest v inV).of_log (logs c)
    simpa only [Raft.NotAhead, Raft.lastLogTerm, logs v] using here
  obtain ⟨b, -, latest⟩ := Q.exists_max_image (fun v => (w₂.nodes v).currentTerm) some
  obtain ⟨t, w', above, elects, elected, -, terms⟩ := reaches_election members
    (fun v inV => up_of_reaches deposed (ups₁ v inV)) two majority inC role greatest₂
    (max u (w₂.nodes b).currentTerm) fun v inV => (latest v inV).trans (le_max_right _ _)
  exact ⟨c, inC, t, w', (le_max_left _ _).trans_lt above,
    freed.trans (deposed.trans elects), elected, terms⟩

/-- **A majority that is up can always elect a leader.**  From any state of any run, the nodes
of a set that has a majority of the votes, two at least, and that run and were not killed
come by their own threads and handlers alone to a state in which one of them has become
leader, in a term beyond any given one and not below that of any of them. -/
theorem election_possible (R : ClusterRun cl) (k : Nat) (Q : Finset Nat) (bound : k ≤ R.length)
    (members : ∀ v ∈ Q, v ∈ cl.ids)
    (ups : ∀ v ∈ Q, (R.node k v).active = true ∧ (R.node k v).dead = false) (two : 2 ≤ Q.card)
    (majority : (cl.size - 1) / 2 < Q.card) (u : Int) :
    ∃ c ∈ Q, ∃ t actions w', (∀ action ∈ actions, action.node ∈ Q ∧ action.input.Internal) ∧
      (machine cl).Takes (R.state k) actions w' ∧ u < t ∧
      (w'.nodes c).currentRole = .leader ∧ (w'.nodes c).currentTerm = t ∧
      ∀ v ∈ Q, (w'.nodes v).currentTerm ≤ t := by
  obtain ⟨c, inC, t, w', above, reaches, elected, terms⟩ := reaches_elected bound members
    (fun v inV => ⟨(ups v inV).1, (ups v inV).2, awake bound (ups v inV).1 (ups v inV).2⟩)
    two majority u
  obtain ⟨actions, allowed, takes⟩ : ∃ actions,
      (∀ action ∈ actions, action.node ∈ Q ∧ action.input.Internal) ∧
        (machine cl).Takes (R.state k) actions w' :=
    Machine.Reaches.takes reaches fun w action acts => ⟨acts.node, acts.internal⟩
  exact ⟨c, inC, t, actions, w', allowed, takes, above, elected.role, elected.term, terms⟩

/-- The leader of three nodes is cut off, so the other two elect one of them. -/
theorem election_possible_of_split :
    ∃ (R : ClusterRun (.ofSize 3 (by decide))), R.Leads 17 1 1 ∧
      ∃ c ∈ ({2, 3} : Finset Nat), ∃ t : Int, ∃ actions w',
        (∀ action ∈ actions, action.node ∈ ({2, 3} : Finset Nat) ∧ action.input.Internal) ∧
        (machine (.ofSize 3 (by decide))).Takes (R.state 17) actions w' ∧ 1 < t ∧
        (w'.nodes c).currentRole = .leader := by
  let R : ClusterRun (.ofSize 3 (by decide)) := .of _ oneCommit oneCommit_accepted
  have leads : R.Leads 17 1 1 :=
    ⟨by decide, by decide +kernel, by decide +kernel, by decide +kernel⟩
  obtain ⟨c, inC, t, actions, w', allowed, takes, above, role, -⟩ :=
    election_possible R 17 {2, 3} (by decide) (by decide) (by decide +kernel) (by decide)
      (by decide) 1
  exact ⟨R, leads, c, inC, t, actions, w', allowed, takes, above, role⟩

end ClusterRun

end Rafty
