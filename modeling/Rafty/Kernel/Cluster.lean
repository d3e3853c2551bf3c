/-
# Rafty.Kernel.Cluster — the nodes and the network

The nodes of a cluster and the messages between them.  A message that was sent
stays in the network: it may be delivered late, in any order, more than once or
never.  A reply goes to the thread that made the call, and only while that thread
still waits, so a call handles at most one reply; a thread whose call fails ends
with `voteFailed` or `appendFailed`.  No step resets a node.
-/
import Rafty.Kernel.Change
import Rafty.Theory.Run
import Mathlib.Logic.Function.Basic

namespace Rafty

set_option autoImplicit false

open Theory

/-- The ids of a cluster.  A node's `peers_` holds all the other ids. -/
structure Cluster where
  ids : List Nat
  nodup : ids.Nodup
  small : ∀ a ∈ ids, a < 1 <<< 63

namespace Cluster

def size (cl : Cluster) : Nat := cl.ids.length

def config (cl : Cluster) (a : Nat) : Config where
  id := a
  peers := cl.ids.filter (· ≠ a)

variable {cl : Cluster} {a : Nat}

theorem mem_peers {p : Nat} : p ∈ (cl.config a).peers ↔ p ∈ cl.ids ∧ p ≠ a := by
  simp [config]

theorem nodup_peers : (cl.config a).peers.Nodup := cl.nodup.filter _

theorem length_peers (member : a ∈ cl.ids) : (cl.config a).peers.length + 1 = cl.size := by
  have erased : cl.ids.erase a = (cl.config a).peers := by
    rw [cl.nodup.erase_eq_filter, config]
    exact List.filter_congr fun p _ => by by_cases same : p = a <;> simp [same]
  have positive : 0 < cl.ids.length := List.length_pos_of_mem member
  rw [← erased, List.length_erase_of_mem member, size]
  omega

/-- A node and those of its peers that are counted. -/
theorem card_counted (p : Nat → Bool) :
    (insert a ((cl.config a).peers.filter p).toFinset).card = 1 + (cl.config a).peers.countP p := by
  have outside : a ∉ ((cl.config a).peers.filter p).toFinset := by
    simp [mem_peers]
  rw [Finset.card_insert_of_notMem outside, List.toFinset_card_of_nodup (nodup_peers.filter _),
    List.countP_eq_length_filter, Nat.add_comm]

/-- The cluster of the nodes 1 to `n`. -/
def ofSize (n : Nat) (small : n < 1 <<< 63 - 1) : Cluster where
  ids := List.range' 1 n
  nodup := List.nodup_range'
  small a member := by
    rw [List.mem_range'_1] at member
    omega

/-- Two sets of ids that together outnumber the cluster meet. -/
theorem overlap {A B : Finset Nat} (inA : ∀ v ∈ A, v ∈ cl.ids) (inB : ∀ v ∈ B, v ∈ cl.ids)
    (many : cl.size < A.card + B.card) : ∃ v, v ∈ A ∧ v ∈ B := by
  have card : cl.ids.toFinset.card = cl.size := List.toFinset_card_of_nodup cl.nodup
  have meet := Finset.inter_nonempty_of_card_lt_card_add_card
    (fun v member => List.mem_toFinset.mpr (inA v member))
    (fun v member => List.mem_toFinset.mpr (inB v member)) (card ▸ many)
  obtain ⟨v, member⟩ := meet
  exact ⟨v, Finset.mem_inter.mp member⟩

end Cluster

/-- All nodes, and every request and reply sent so far. -/
structure World where
  nodes : Nat → Raft
  voteRequests : List VoteCall
  voteReplies : List (VoteCall × RequestVoteReply)
  appendRequests : List AppendCall
  appendReplies : List (AppendCall × AppendEntriesReply)

/-- Node `node` runs a section. -/
structure Action where
  node : Nat
  input : Input
  deriving DecidableEq, Repr

instance : Inhabited Action := ⟨⟨0, default⟩⟩

namespace World

/-- The network can hand the input over: a handler gets a request that was sent to
it, a waiting thread gets a reply that was given to its call. -/
def Delivers (w : World) (a : Nat) : Input → Prop
  | .replyVote call => call ∈ w.voteRequests ∧ call.target = a
  | .voteReply call reply => (call, reply) ∈ w.voteReplies
  | .appendEntries call => call ∈ w.appendRequests ∧ call.target = a
  | .appendReply call reply => (call, reply) ∈ w.appendReplies
  | _ => True

instance (w : World) (a : Nat) : (input : Input) → Decidable (w.Delivers a input)
  | .replyVote call => inferInstanceAs (Decidable (call ∈ w.voteRequests ∧ call.target = a))
  | .voteReply call reply => inferInstanceAs (Decidable ((call, reply) ∈ w.voteReplies))
  | .appendEntries call => inferInstanceAs (Decidable (call ∈ w.appendRequests ∧ call.target = a))
  | .appendReply call reply => inferInstanceAs (Decidable ((call, reply) ∈ w.appendReplies))
  | .run | .kill | .startElectionTimer | .startHeartbeatTimer | .timerExpired .. | .timerReset ..
  | .becomeCandidate | .requestVotes | .requestVote .. | .voteFailed .. | .sendEntries
  | .sendEntriesTo .. | .appendFailed .. | .propose .. | .proposeSync .. | .wakeSync .. =>
      inferInstanceAs (Decidable True)

/-- Put on the network what a section sent or answered. -/
def post (w : World) (input : Input) (output : Output) : World :=
  match input, output with
  | _, .requestVote call => { w with voteRequests := w.voteRequests ++ [call] }
  | _, .appendEntries call => { w with appendRequests := w.appendRequests ++ [call] }
  | .replyVote call, .voteReply reply =>
      { w with voteReplies := w.voteReplies ++ [(call, reply)] }
  | .appendEntries call, .appendReply reply =>
      { w with appendReplies := w.appendReplies ++ [(call, reply)] }
  | _, _ => w

def step (cl : Cluster) (w : World) (action : Action) : Option World :=
  if action.node ∈ cl.ids ∧ w.Delivers action.node action.input then do
    let (r, output) ← (w.nodes action.node).step (cl.config action.node) action.input
    return ({ w with nodes := Function.update w.nodes action.node r } : World).post
      action.input output
  else none

/-- Every node is constructed, its role is whatever the memory held, and nothing
was sent. -/
def Initial (w : World) : Prop :=
  (∀ a, ∃ role, w.nodes a = Raft.new role) ∧ w.voteRequests = [] ∧ w.voteReplies = [] ∧
    w.appendRequests = [] ∧ w.appendReplies = []

/-- A world to start from. -/
def fresh : World where
  nodes _ := Raft.new .follower
  voteRequests := []
  voteReplies := []
  appendRequests := []
  appendReplies := []

theorem initial_fresh : Initial fresh := ⟨fun _ => ⟨.follower, rfl⟩, rfl, rfl, rfl, rfl⟩

@[simp] theorem nodes_post (w : World) (input : Input) (output : Output) :
    (w.post input output).nodes = w.nodes := by
  unfold post; split <;> rfl

variable {w : World} {a b : Nat} {input : Input} {r : Raft} {output : Output}

/-- The world in which node `a` has become `r` and given out `output`. -/
def after (w : World) (a : Nat) (r : Raft) (input : Input) (output : Output) : World :=
  ({ w with nodes := Function.update w.nodes a r } : World).post input output

@[simp] theorem after_self : (w.after a r input output).nodes a = r := by simp [after]

@[simp] theorem after_ne (ne : b ≠ a) : (w.after a r input output).nodes b = w.nodes b := by
  simp [after, ne]

end World

def machine (cl : Cluster) : Machine World Action where
  init := World.Initial
  step := World.step cl

/-- The cluster can take a section that a node can run and the network delivers. -/
theorem takes_section {cl : Cluster} {w : World} {a : Nat} (input : Input) {r : Raft}
    {output : Output} (member : a ∈ cl.ids) (delivers : w.Delivers a input)
    (runs : Raft.Section (cl.config a) (w.nodes a) input r output) :
    (machine cl).Takes w [⟨a, input⟩] (w.after a r input output) := by
  have ran := Raft.step_of_section runs
  apply Machine.Takes.single
  simp [machine, World.step, World.after, member, delivers, ran]

/-- A run of the cluster. -/
abbrev ClusterRun (cl : Cluster) := Run (machine cl)

namespace ClusterRun

variable {cl : Cluster} (R : ClusterRun cl)

/-- The run of a list of actions. -/
def of (cl : Cluster) (actions : List Action)
    (accepted : ((machine cl).exec World.fresh actions).isSome) : ClusterRun cl :=
  Run.of (machine cl) World.fresh actions World.initial_fresh accepted

/-- Node `a` in the `k`-th state. -/
def node (k a : Nat) : Raft := (R.state k).nodes a

theorem start_node (a : Nat) : ∃ role, R.node 0 a = Raft.new role := R.start.1 a

/-- At step `k` node `a` ran `input` and gave out `output`. -/
structure Ran (k a : Nat) (input : Input) (output : Output) : Prop where
  within : k < R.length
  action : R.input k = ⟨a, input⟩
  member : a ∈ cl.ids
  delivered : (R.state k).Delivers a input
  stepped : (R.node k a).step (cl.config a) input = some (R.node (k + 1) a, output)
  others : ∀ b, b ≠ a → R.node (k + 1) b = R.node k b
  network : R.state (k + 1) =
    ({ R.state k with nodes := (R.state (k + 1)).nodes } : World).post input output

variable {R}

theorem ran_of_action {k a : Nat} {input : Input} (within : k < R.length)
    (action : R.input k = ⟨a, input⟩) : ∃ output, R.Ran k a input output := by
  have stepped := R.next k within
  simp only [machine, World.step, action] at stepped
  split at stepped
  · rename_i guard
    simp only [Option.bind_eq_bind, Option.bind_eq_some_iff] at stepped
    obtain ⟨⟨r, output⟩, sectionRan, stepped⟩ := stepped
    have after := (Option.some.inj stepped).symm
    have nodes : (R.state (k + 1)).nodes = Function.update (R.state k).nodes a r := by
      rw [after, World.nodes_post]
    refine ⟨output, within, action, guard.1, guard.2, ?_, ?_, ?_⟩
    · rw [node, node, nodes, Function.update_self]
      exact sectionRan
    · intro b ne
      rw [node, node, nodes, Function.update_of_ne ne]
    · rw [nodes]
      exact after
  · cases stepped

theorem exists_ran {k : Nat} (within : k < R.length) :
    ∃ a input output, R.Ran k a input output := by
  have action : R.input k = ⟨(R.input k).node, (R.input k).input⟩ := rfl
  obtain ⟨output, ran⟩ := ran_of_action within action
  exact ⟨_, _, output, ran⟩

/-- A step leaves a node alone or runs one of its sections. -/
theorem node_cases {k : Nat} (within : k < R.length) (a : Nat) :
    R.node (k + 1) a = R.node k a ∨ ∃ input output, R.Ran k a input output := by
  obtain ⟨b, input, output, ran⟩ := exists_ran within
  by_cases same : a = b
  · subst same
    exact Or.inr ⟨input, output, ran⟩
  · exact Or.inl (ran.others a same)

theorem Ran.change {k a : Nat} {input : Input} {output : Output} (ran : R.Ran k a input output) :
    Raft.Change (cl.config a) (R.node k a) input (R.node (k + 1) a) :=
  Raft.step_change ran.stepped

theorem Ran.pending {k a : Nat} {input : Input} {output : Output} (ran : R.Ran k a input output)
    {thread : Thread} (executes : Raft.executor input = some thread) :
    thread ∈ (R.node k a).threads :=
  Raft.pending_of_step ran.stepped executes

/-! ## Where messages come from -/

/-- What the network did not show at the start was posted by some step. -/
theorem posted {P : World → Prop} (start : ∀ w, World.Initial w → ¬ P w) {k : Nat}
    (bound : k ≤ R.length) (now : P (R.state k)) :
    ∃ j a input output, j < k ∧ R.Ran j a input output ∧ ¬ P (R.state j) ∧
      P (({ R.state j with nodes := (R.state (j + 1)).nodes } : World).post input output) := by
  obtain ⟨j, lt, before, after⟩ := R.exists_step start now
  obtain ⟨a, input, output, ran⟩ := exists_ran (show j < R.length by omega)
  rw [ran.network] at after
  exact ⟨j, a, input, output, lt, ran, before, after⟩

theorem voteRequest_sent {k : Nat} {call : VoteCall} (bound : k ≤ R.length)
    (member : call ∈ (R.state k).voteRequests) :
    ∃ j a input, j < k ∧ R.Ran j a input (.requestVote call) := by
  obtain ⟨j, a, input, output, lt, ran, before, after⟩ :=
    posted (P := fun w => call ∈ w.voteRequests)
      (fun w init => by simp [init.2.1]) bound member
  unfold World.post at after
  split at after
  · rcases List.mem_append.mp after with h | h
    · exact absurd h before
    · rw [List.mem_singleton.mp h]
      exact ⟨j, a, input, lt, ran⟩
  all_goals exact absurd after before

theorem voteReply_given {k : Nat} {call : VoteCall} {reply : RequestVoteReply}
    (bound : k ≤ R.length) (member : (call, reply) ∈ (R.state k).voteReplies) :
    ∃ j, j < k ∧ R.Ran j call.target (.replyVote call) (.voteReply reply) := by
  obtain ⟨j, a, input, output, lt, ran, before, after⟩ :=
    posted (P := fun w => (call, reply) ∈ w.voteReplies)
      (fun w init => by simp [init.2.2.1]) bound member
  unfold World.post at after
  split at after
  case h_3 =>
    rcases List.mem_append.mp after with h | h
    · exact absurd h before
    · cases List.mem_singleton.mp h
      have atTarget : call.target = a := ran.delivered.2
      exact ⟨j, lt, atTarget ▸ ran⟩
  all_goals exact absurd after before

theorem appendRequest_sent {k : Nat} {call : AppendCall} (bound : k ≤ R.length)
    (member : call ∈ (R.state k).appendRequests) :
    ∃ j a input, j < k ∧ R.Ran j a input (.appendEntries call) := by
  obtain ⟨j, a, input, output, lt, ran, before, after⟩ :=
    posted (P := fun w => call ∈ w.appendRequests)
      (fun w init => by simp [init.2.2.2.1]) bound member
  unfold World.post at after
  split at after
  case h_2 =>
    rcases List.mem_append.mp after with h | h
    · exact absurd h before
    · rw [List.mem_singleton.mp h]
      exact ⟨j, a, _, lt, ran⟩
  all_goals exact absurd after before

theorem appendReply_given {k : Nat} {call : AppendCall} {reply : AppendEntriesReply}
    (bound : k ≤ R.length) (member : (call, reply) ∈ (R.state k).appendReplies) :
    ∃ j, j < k ∧ R.Ran j call.target (.appendEntries call) (.appendReply reply) := by
  obtain ⟨j, a, input, output, lt, ran, before, after⟩ :=
    posted (P := fun w => (call, reply) ∈ w.appendReplies)
      (fun w init => by simp [init.2.2.2.2]) bound member
  unfold World.post at after
  split at after
  case h_4 =>
    rcases List.mem_append.mp after with h | h
    · exact absurd h before
    · cases List.mem_singleton.mp h
      have atTarget : call.target = a := ran.delivered.2
      exact ⟨j, lt, atTarget ▸ ran⟩
  all_goals exact absurd after before

end ClusterRun

end Rafty
