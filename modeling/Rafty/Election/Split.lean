/-
# Rafty.Election.Split — how an even cluster elects two leaders of one term

In a cluster of an even number of nodes, four or more, the first candidate polls one
half of the nodes and the second candidate the other.  A node on which only `run` was
called votes for whoever asks first in term 1 (`started_replyVote`); `Asks` is the
candidate in the middle of its polls, which one poll takes to the next
(`takes_poll`) and a list of polls to the last (`takes_polls`); and the vote of the
last node of the half is the one that exceeds half of `peers_` (`takes_rally`).
-/
import Rafty.Election.Votes

namespace Rafty

set_option autoImplicit false

open Theory

namespace Raft

variable {config : Config} {r : Raft}

/-! ## The candidate -/

/-- A node on which `run` was called and nothing else happened. -/
def started : Raft := (new .follower).run

/-- It votes for whoever asks first in term 1. -/
theorem started_replyVote {req : RequestVoteRequest} (term : req.term = 1)
    (lastTerm : req.lastLogTerm = 0) (lastIndex : req.lastLogIndex = 0) :
    (started.replyVote req).2 = { term := 1, voteGranted := true } := by
  simp [started, new, run, spawn, replyVote, term, candidateUpToDate, lastTerm, lastIndex, adoptTerm,
    stepDown, releaseSyncProps, lastLogTerm]

/-- A candidate of term 1 with an empty log and a thread to ask each of `rest`. -/
structure Asks (r : Raft) (rest : List Nat) : Prop where
  role : r.currentRole = .candidate
  term : r.currentTerm = 1
  log : r.log = []
  outside : ∀ v ∈ rest, v ∉ r.votes
  pending : ∀ v ∈ rest, .requestVote v 1 ∈ r.threads

/-- The election timer of a started node is armed. -/
def armed : Raft := (started.finish .startElectionTimer).startTimer .election

/-- It has expired. -/
def expired : Raft := (armed.finish (.startTimer 1 .election)).timerExpired

/-- `become_candidate` has run. -/
def standing (config : Config) : Raft := (expired.finish .becomeCandidate).becomeCandidate config

/-- `request_votes` has run. -/
def stood (config : Config) : Raft := ((standing config).finish .requestVotes).requestVotes config

theorem started_armed : Section config started .startElectionTimer armed .none :=
  .startElectionTimer (by decide)

theorem armed_expired : Section config armed (.timerExpired 1 .election) expired .none :=
  .timerExpired (by decide) (by decide)

theorem expired_standing : Section config expired .becomeCandidate (standing config) .none :=
  .becomeCandidate (by decide)

theorem standing_stood : Section config (standing config) .requestVotes (stood config) .none :=
  .requestVotes (by simp [standing, becomeCandidate, spawn])

theorem stood_votes : (stood config).votes = {config.id} := by
  simp only [stood, requestVotes, finish, standing, becomeCandidate, spawn]

theorem stood_asks (outside : config.id ∉ config.peers) : (stood config).Asks config.peers where
  role := rfl
  term := rfl
  log := rfl
  outside v member := by
    rw [stood_votes, Finset.mem_singleton]
    exact fun same => outside (same ▸ member)
  pending v member := List.mem_append_right _ (List.mem_map.mpr ⟨v, member, rfl⟩)

theorem Asks.mono {rest more : List Nat} (asks : r.Asks more) (fewer : rest ⊆ more) :
    r.Asks rest where
  role := asks.role
  term := asks.term
  log := asks.log
  outside v member := asks.outside v (fewer member)
  pending v member := asks.pending v (fewer member)

/-- The thread for `v` makes its call. -/
theorem Asks.ask {rest : List Nat} {v : Nat} (asks : r.Asks (v :: rest)) (once : v ∉ rest)
    (call : VoteCall) : ((r.finish (.requestVote v 1)).spawn (.awaitVote call)).Asks rest where
  role := asks.role
  term := asks.term
  log := asks.log
  outside u member := asks.outside u (List.mem_cons_of_mem v member)
  pending u member := by
    have ne : u ≠ v := fun same => once (same ▸ member)
    have still := asks.pending u (List.mem_cons_of_mem v member)
    exact List.mem_append_left _ ((List.mem_erase_of_ne (by simp [ne])).mpr still)

/-- A vote that does not suffice is counted. -/
theorem Asks.count {rest : List Nat} (asks : r.Asks rest) (call : VoteCall)
    (electionTerm : call.electionTerm = 1) (once : call.target ∉ rest)
    (few : ¬ config.peers.length / 2 < (insert call.target r.votes).card) :
    let r' := (r.finish (.awaitVote call)).handleVoteReply config call
      { term := 1, voteGranted := true }
    r'.Asks rest ∧ r'.votes = insert call.target r.votes := by
  have counted : (r.finish (.awaitVote call)).handleVoteReply config call
      { term := 1, voteGranted := true } =
        { r.finish (.awaitVote call) with votes := insert call.target r.votes } := by
    have counts : (r.finish (.awaitVote call)).currentTerm = call.electionTerm ∧
        (r.finish (.awaitVote call)).currentRole = .candidate :=
      ⟨asks.term.trans electionTerm.symm, asks.role⟩
    have loses : ¬ (r.finish (.awaitVote call)).winsElection config call
        { term := 1, voteGranted := true } := fun wins => few wins.2.2.2
    rw [handleVoteReply, if_neg (by simp), countVote, if_pos ⟨counts.1, counts.2, rfl⟩]
    simp only [if_neg loses]
    rfl
  intro r'
  rw [show r' = _ from counted]
  refine ⟨⟨asks.role, asks.term, asks.log, ?_, ?_⟩, rfl⟩
  · intro v member
    rw [Finset.mem_insert, not_or]
    exact ⟨fun same => once (same ▸ member), asks.outside v member⟩
  · intro v member
    exact (List.mem_erase_of_ne (by simp)).mpr (asks.pending v member)

end Raft

/-- A list of two or more has two ends. -/
theorem exists_ends {l : List Nat} (two : 2 ≤ l.length) :
    ∃ first middle last, l = first :: (middle ++ [last]) := by
  cases l with
  | nil => simp at two
  | cons first rest =>
      rcases List.eq_nil_or_concat rest with rfl | ⟨middle, last, rfl⟩
      · simp at two
      · exact ⟨first, middle, last, by rw [List.concat_eq_append]⟩

/-- An even cluster of four or more in two halves, each with a candidate and a last
voter. -/
theorem Cluster.halves {cl : Cluster} (even : cl.size % 2 = 0) (four : 4 ≤ cl.size) :
    ∃ a f x b g y, cl.ids = (a :: (f ++ [x])) ++ (b :: (g ++ [y])) ∧
      2 * (f.length + 2) = cl.size ∧ 2 * (g.length + 2) = cl.size := by
  have lengthA : (cl.ids.take (cl.size / 2)).length = cl.size / 2 := by
    rw [List.length_take, size]
    omega
  have lengthB : (cl.ids.drop (cl.size / 2)).length = cl.size / 2 := by
    rw [List.length_drop, size]
    simp only [size] at even
    omega
  obtain ⟨a, f, x, first⟩ := exists_ends (show 2 ≤ (cl.ids.take (cl.size / 2)).length by omega)
  obtain ⟨b, g, y, second⟩ := exists_ends (show 2 ≤ (cl.ids.drop (cl.size / 2)).length by omega)
  rw [first] at lengthA
  rw [second] at lengthB
  simp only [List.length_cons, List.length_append, List.length_nil] at lengthA lengthB
  refine ⟨a, f, x, b, g, y, ?_, by omega, by omega⟩
  rw [← first, ← second, List.take_append_drop]

namespace ClusterRun

variable {cl : Cluster} {R : ClusterRun cl} {w w' w'' : World} {k a b c v : Nat} {t : Int}

/-! ## Polls -/

/-- The vote request of a candidate with an empty log. -/
def ballot (c v : Nat) (t : Int) : VoteCall where
  caller := c
  target := v
  electionTerm := t
  req := { term := t, candidateId := c, lastLogIndex := 0, lastLogTerm := 0 }

/-- `run` is called on one node after the other. -/
theorem takes_run (vs : List Nat) (members : ∀ v ∈ vs, v ∈ cl.ids) (distinct : vs.Nodup)
    (new : ∀ v ∈ vs, w.nodes v = Raft.new .follower) :
    ∃ w', (machine cl).Takes w (vs.map fun v => ⟨v, .run⟩) w' ∧
      (∀ v ∈ vs, w'.nodes v = Raft.started) ∧ ∀ b, b ∉ vs → w'.nodes b = w.nodes b := by
  induction vs generalizing w with
  | nil => exact ⟨w, rfl, by simp, fun _ _ => rfl⟩
  | cons v vs ih =>
      rw [List.nodup_cons] at distinct
      have first : (machine cl).Takes w [⟨v, .run⟩] (w.after v Raft.started .run .none) := by
        apply takes_section .run (members v List.mem_cons_self)
        · trivial
        · rw [new v List.mem_cons_self]
          exact .run
      have later : ∀ u ∈ vs, (w.after v Raft.started .run .none).nodes u = Raft.new .follower := by
        intro u member
        have ne : u ≠ v := fun same => distinct.1 (same ▸ member)
        rw [World.after_ne ne, new u (List.mem_cons_of_mem v member)]
      obtain ⟨w', takes, started, kept⟩ :=
        ih (fun u member => members u (List.mem_cons_of_mem v member)) distinct.2 later
      refine ⟨w', first.cons takes, ?_, ?_⟩
      · intro u member
        rcases List.mem_cons.mp member with rfl | later
        · rw [kept u distinct.1, World.after_self]
        · exact started u later
      · intro b outside
        rw [List.mem_cons, not_or] at outside
        rw [kept b outside.2, World.after_ne outside.1]

/-- The four sections that make `c` a candidate of term 1 and spawn its threads. -/
def stand (c : Nat) : List Action :=
  [⟨c, .startElectionTimer⟩, ⟨c, .timerExpired 1 .election⟩, ⟨c, .becomeCandidate⟩,
    ⟨c, .requestVotes⟩]

theorem takes_stand (member : c ∈ cl.ids) (start : w.nodes c = Raft.started) :
    ∃ w', (machine cl).Takes w (stand c) w' ∧ w'.nodes c = Raft.stood (cl.config c) ∧
      ∀ b, b ≠ c → w'.nodes b = w.nodes b := by
  have one := takes_section (w := w) .startElectionTimer member trivial
    (start ▸ Raft.started_armed)
  let w₁ := w.after c Raft.armed .startElectionTimer .none
  have two := takes_section (w := w₁) (.timerExpired 1 .election) member trivial
    (by rw [World.after_self]; exact Raft.armed_expired)
  let w₂ := w₁.after c Raft.expired (.timerExpired 1 .election) .none
  have three := takes_section (w := w₂) .becomeCandidate member trivial
    (by rw [World.after_self]; exact Raft.expired_standing)
  let w₃ := w₂.after c (Raft.standing (cl.config c)) .becomeCandidate .none
  have four := takes_section (w := w₃) .requestVotes member trivial
    (by rw [World.after_self]; exact Raft.standing_stood)
  refine ⟨_, one.cons (two.cons (three.cons four)), World.after_self, ?_⟩
  intro b ne
  rw [World.after_ne ne, World.after_ne ne, World.after_ne ne, World.after_ne ne]

/-- The thread of `c` for `v` makes its call, and `v` answers. -/
def ask (c v : Nat) : List Action :=
  [⟨c, .requestVote v 1⟩, ⟨v, .replyVote (ballot c v 1)⟩]

/-- `c` counts the vote of `v`. -/
def tally (c v : Nat) : Action :=
  ⟨c, .voteReply (ballot c v 1) { term := 1, voteGranted := true }⟩

theorem takes_ask {rest : List Nat} (memberC : c ∈ cl.ids) (memberV : v ∈ cl.ids) (ne : v ≠ c)
    (asks : (w.nodes c).Asks (v :: rest)) (once : v ∉ rest) (free : w.nodes v = Raft.started) :
    ∃ w', (machine cl).Takes w (ask c v) w' ∧ (w'.nodes c).Asks rest ∧
      (w'.nodes c).votes = (w.nodes c).votes ∧
      .awaitVote (ballot c v 1) ∈ (w'.nodes c).threads ∧
      (ballot c v 1, { term := 1, voteGranted := true }) ∈ w'.voteReplies ∧
      ∀ b, b ≠ c → b ≠ v → w'.nodes b = w.nodes b := by
  have built : (w.nodes c).voteCall (cl.config c) v 1 = ballot c v 1 := by
    simp [Raft.voteCall, ballot, Cluster.config, asInt64_id memberC, asks.term,
      asks.log, Raft.lastLogTerm]
  have sent := takes_section (w := w) (.requestVote v 1) memberC trivial
    (.requestVote (asks.pending v List.mem_cons_self))
  rw [built] at sent
  generalize isC : ((w.nodes c).finish (.requestVote v 1)).spawn
    (.awaitVote (ballot c v 1)) = r at sent
  have answered := takes_section
    (w := w.after c r (.requestVote v 1) (.requestVote (ballot c v 1)))
    (.replyVote (ballot c v 1)) memberV
    ⟨List.mem_append_right _ (List.mem_singleton_self _), rfl⟩ .replyVote
  refine ⟨_, sent.cons answered, ?_, ?_, ?_, ?_, ?_⟩
  · rw [World.after_ne ne.symm, World.after_self, ← isC]
    exact asks.ask once _
  · rw [World.after_ne ne.symm, World.after_self, ← isC]
    rfl
  · rw [World.after_ne ne.symm, World.after_self, ← isC]
    exact List.mem_append_right _ (List.mem_singleton_self _)
  · rw [World.after_ne ne, free, Raft.started_replyVote rfl rfl rfl]
    exact List.mem_append_right _ (List.mem_singleton_self _)
  · intro b neC neV
    rw [World.after_ne neV, World.after_ne neC]

/-- A whole poll of `v` by `c`. -/
def poll (c v : Nat) : List Action := ask c v ++ [tally c v]

theorem takes_poll {rest : List Nat} (memberC : c ∈ cl.ids) (memberV : v ∈ cl.ids) (ne : v ≠ c)
    (asks : (w.nodes c).Asks (v :: rest)) (once : v ∉ rest) (free : w.nodes v = Raft.started)
    (few : (w.nodes c).votes.card + 1 ≤ (cl.config c).peers.length / 2) :
    ∃ w', (machine cl).Takes w (poll c v) w' ∧ (w'.nodes c).Asks rest ∧
      (w'.nodes c).votes.card = (w.nodes c).votes.card + 1 ∧
      ∀ b, b ≠ c → b ≠ v → w'.nodes b = w.nodes b := by
  obtain ⟨w', takes, asks', votes, pending, answered, kept⟩ :=
    takes_ask memberC memberV ne asks once free
  have new : v ∉ (w'.nodes c).votes := votes ▸ asks.outside v List.mem_cons_self
  have card := Finset.card_insert_of_notMem new
  have loses : ¬ (cl.config c).peers.length / 2 < (insert v (w'.nodes c).votes).card := by
    rw [card, votes]
    omega
  have counted := asks'.count (ballot c v 1) rfl once loses
  have tallied := takes_section (w := w') (.voteReply (ballot c v 1)
    { term := 1, voteGranted := true }) memberC answered (.voteReply pending)
  refine ⟨_, takes.append tallied, ?_, ?_, ?_⟩
  · rw [World.after_self]
    exact counted.1
  · rw [World.after_self, counted.2]
    exact card.trans (by rw [votes])
  · intro b neC neV
    rw [World.after_ne neC, kept b neC neV]

theorem takes_polls {vs rest : List Nat} (memberC : c ∈ cl.ids) (members : ∀ v ∈ vs, v ∈ cl.ids)
    (outside : c ∉ vs) (distinct : (vs ++ rest).Nodup) (asks : (w.nodes c).Asks (vs ++ rest))
    (free : ∀ v ∈ vs, w.nodes v = Raft.started)
    (few : (w.nodes c).votes.card + vs.length ≤ (cl.config c).peers.length / 2) :
    ∃ w', (machine cl).Takes w (vs.flatMap (poll c)) w' ∧ (w'.nodes c).Asks rest ∧
      (w'.nodes c).votes.card = (w.nodes c).votes.card + vs.length ∧
      ∀ b, b ≠ c → b ∉ vs → w'.nodes b = w.nodes b := by
  induction vs generalizing w with
  | nil => exact ⟨w, rfl, asks, rfl, fun _ _ _ => rfl⟩
  | cons v vs ih =>
      rw [List.cons_append, List.nodup_cons] at distinct
      rw [List.mem_cons, not_or] at outside
      rw [List.length_cons] at few
      obtain ⟨w', takes, asks', card, kept⟩ := takes_poll memberC (members v List.mem_cons_self)
        (Ne.symm outside.1) asks distinct.1 (free v List.mem_cons_self) (by omega)
      have later : ∀ u ∈ vs, w'.nodes u = Raft.started := by
        intro u member
        have neC : u ≠ c := fun same => outside.2 (same ▸ member)
        have neV : u ≠ v := fun same => distinct.1 (List.mem_append_left _ (same ▸ member))
        rw [kept u neC neV, free u (List.mem_cons_of_mem v member)]
      obtain ⟨w'', takes', asks'', card', kept'⟩ := ih
        (fun u member => members u (List.mem_cons_of_mem v member)) outside.2 distinct.2 asks'
        later (by omega)
      refine ⟨w'', takes.append takes', asks'', ?_, ?_⟩
      · rw [card', card, List.length_cons]
        omega
      · intro b neC notIn
        rw [List.mem_cons, not_or] at notIn
        rw [kept' b neC notIn.2, kept b neC notIn.1]

/-- The campaign of `c` in term 1, up to the answer that will elect it. -/
def rally (c : Nat) (front : List Nat) (last : Nat) : List Action :=
  stand c ++ (front.flatMap (poll c) ++ ask c last)

/-- **Half of an even cluster elects its leader.** -/
theorem takes_rally {front : List Nat} {last : Nat} (memberC : c ∈ cl.ids)
    (members : ∀ v ∈ front ++ [last], v ∈ cl.ids) (distinct : (c :: (front ++ [last])).Nodup)
    (free : ∀ v ∈ c :: (front ++ [last]), w.nodes v = Raft.started)
    (half : (cl.config c).peers.length / 2 = front.length + 1) :
    ∃ w' w'', (machine cl).Takes w (rally c front last) w' ∧
      (w'.nodes c).winsElection (cl.config c) (ballot c last 1)
        { term := 1, voteGranted := true } ∧
      (w'.nodes c).currentTerm = 1 ∧ (machine cl).Takes w' [tally c last] w'' ∧
      ∀ b, b ∉ c :: (front ++ [last]) → w''.nodes b = w.nodes b := by
  rw [List.nodup_cons] at distinct
  obtain ⟨outside, distinct⟩ := distinct
  have differ : ∀ v ∈ front ++ [last], v ≠ c := by
    rintro v member rfl
    exact outside member
  have isLast : last ∈ front ++ [last] := List.mem_append_right _ (List.mem_singleton_self last)
  obtain ⟨w₁, stands, stood, kept₁⟩ := takes_stand memberC (free c List.mem_cons_self)
  have asks₁ : (w₁.nodes c).Asks (front ++ [last]) := by
    rw [stood]
    apply (Raft.stood_asks (by simp [Cluster.config])).mono
    intro v member
    exact Cluster.mem_peers.mpr ⟨members v member, differ v member⟩
  have card₁ : (w₁.nodes c).votes.card = 1 := by
    rw [stood, Raft.stood_votes, Finset.card_singleton]
  have free₁ : ∀ v ∈ front ++ [last], w₁.nodes v = Raft.started := by
    intro v member
    rw [kept₁ v (differ v member), free v (List.mem_cons_of_mem c member)]
  obtain ⟨w₂, polls, asks₂, card₂, kept₂⟩ := takes_polls memberC
    (fun v member => members v (List.mem_append_left _ member))
    (fun member => outside (List.mem_append_left _ member)) distinct asks₁
    (fun v member => free₁ v (List.mem_append_left _ member)) (by omega)
  have lastOut : last ∉ front := by
    intro member
    exact (List.nodup_append.mp distinct).2.2 last member last (List.mem_singleton_self last) rfl
  have free₂ : w₂.nodes last = Raft.started := by
    rw [kept₂ last (differ last isLast) lastOut, free₁ last isLast]
  obtain ⟨w₃, asked, asks₃, votes₃, pending, answered, kept₃⟩ := takes_ask memberC
    (members last isLast) (differ last isLast) asks₂ List.not_mem_nil free₂
  have new : last ∉ (w₃.nodes c).votes := votes₃ ▸ asks₂.outside last List.mem_cons_self
  have enough : (cl.config c).peers.length / 2 < (insert last (w₃.nodes c).votes).card := by
    rw [Finset.card_insert_of_notMem new, votes₃]
    omega
  have tallied := takes_section (.voteReply (ballot c last 1)
    { term := 1, voteGranted := true }) memberC answered (.voteReply pending)
  refine ⟨w₃, _, stands.append (polls.append asked), ⟨asks₃.term, asks₃.role, rfl, enough⟩,
    asks₃.term, tallied, ?_⟩
  intro b notIn
  rw [List.mem_cons, not_or] at notIn
  have notFront : b ∉ front := fun member => notIn.2 (List.mem_append_left _ member)
  have notLast : b ≠ last := fun same => notIn.2 (same ▸ isLast)
  rw [World.after_ne notIn.1, kept₃ b notIn.1 notLast, kept₂ b notIn.1 notFront,
    kept₁ b notIn.1]

/-! ## Two halves -/

/-- A counted vote that suffices is an election. -/
theorem elects_of_wins {call : VoteCall} {reply : RequestVoteReply} (within : k < R.length)
    (action : R.input k = ⟨a, .voteReply call reply⟩)
    (wins : (R.node k a).winsElection (cl.config a) call reply)
    (term : (R.node k a).currentTerm = t) : R.Elects k a t := by
  obtain ⟨output, ran⟩ := ran_of_action within action
  exact ⟨call, reply, output, ran, wins, term⟩

/-- Where a list of actions comes to the answer that elects `a`. -/
theorem elects_of_takes {actions before : List Action} (rest : List Action) {call : VoteCall}
    {reply : RequestVoteReply} (accepted : ((machine cl).exec World.fresh actions).isSome)
    (split : actions = before ++ ⟨a, .voteReply call reply⟩ :: rest)
    (takes : (machine cl).Takes World.fresh before w)
    (wins : (w.nodes a).winsElection (cl.config a) call reply)
    (term : (w.nodes a).currentTerm = t) :
    (ClusterRun.of cl actions accepted).Elects before.length a t := by
  subst split
  have state : (of cl _ accepted).state before.length = w := Run.state_of takes
  have action : (of cl _ accepted).input before.length = ⟨a, .voteReply call reply⟩ := Run.input_of
  have here : (of cl _ accepted).node before.length a = w.nodes a := by rw [node, state]
  apply elects_of_wins ?_ action
  · rw [here]
    exact wins
  · rw [here]
    exact term
  · change before.length < (before ++ _ :: rest).length
    simp

/-- **An even cluster of four or more can elect two leaders of one term.** -/
theorem split_elects (even : cl.size % 2 = 0) (four : 4 ≤ cl.size) :
    ∃ (R : ClusterRun cl) (j k a b : Nat), R.Elects j a 1 ∧ R.Elects k b 1 ∧ a ≠ b := by
  obtain ⟨a, f, x, b, g, y, ids, lengthF, lengthG⟩ := Cluster.halves even four
  have distinct := cl.nodup
  rw [ids, List.nodup_append] at distinct
  obtain ⟨distinctA, distinctB, apart⟩ := distinct
  have inA : ∀ v ∈ a :: (f ++ [x]), v ∈ cl.ids := by
    intro v member
    exact ids ▸ List.mem_append_left _ member
  have inB : ∀ v ∈ b :: (g ++ [y]), v ∈ cl.ids := by
    intro v member
    exact ids ▸ List.mem_append_right _ member
  have peersA := Cluster.length_peers (inA a List.mem_cons_self)
  have peersB := Cluster.length_peers (inB b List.mem_cons_self)
  obtain ⟨w₀, runs, started, -⟩ := takes_run (w := World.fresh) cl.ids
    (fun v member => member) cl.nodup (fun v _ => rfl)
  obtain ⟨w₁, w₂, rallyA, winsA, termA, tallyA, kept⟩ := takes_rally (w := w₀)
    (inA a List.mem_cons_self) (fun v member => inA v (List.mem_cons_of_mem a member)) distinctA
    (fun v member => started v (inA v member)) (by omega)
  -- the other half has not heard of the first election
  have free : ∀ v ∈ b :: (g ++ [y]), w₂.nodes v = Raft.started := by
    intro v member
    rw [kept v fun inFirst => apart v inFirst v member rfl, started v (inB v member)]
  obtain ⟨w₃, w₄, rallyB, winsB, termB, tallyB, -⟩ := takes_rally (w := w₂)
    (inB b List.mem_cons_self) (fun v member => inB v (List.mem_cons_of_mem b member)) distinctB
    free (by omega)
  have upToA := runs.append rallyA
  have upToB := (upToA.append tallyA).append rallyB
  have all := upToB.append tallyB
  refine ⟨.of cl _ all.isSome, _, _, a, b,
    elects_of_takes (rally b g y ++ [tally b y]) _ ?_ upToA winsA termA,
    elects_of_takes [] _ rfl upToB winsB termB, ?_⟩
  · simp only [tally, List.append_assoc, List.cons_append, List.nil_append]
  · exact apart a List.mem_cons_self b List.mem_cons_self

end ClusterRun

end Rafty
