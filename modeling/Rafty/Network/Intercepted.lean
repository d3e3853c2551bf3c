/-
# Rafty.Network.Intercepted — the cluster behind its interceptors

The cluster with the interceptors of its processes (`NetWorld`).  A thread builds a request
in one section; then its client call starts, and the interceptor of the process decides at
that moment whether the request goes out; only then can it be delivered.  Commands to the
interceptors come at any time and to one process after the other.  (A call is intercepted
once; here it can be tried again, which only adds runs.)

Without the interceptors such a run is a run of the cluster (`exists_nodes`), so it has all
its properties.  What is new is what a cut does (`isolated_election`,
`isolated_proposal`): it is enough that the interceptors of a minority itself hold back its
calls.
-/
import Rafty.Network.NetIntercepter
import Rafty.Network.Isolation
import Rafty.Commit.Possible
import Rafty.Theory.Refinement

namespace Rafty

set_option autoImplicit false

open Theory

/-- The nodes, their interceptors, and the requests that were let out. -/
structure NetWorld where
  world : World
  nets : Nat → NetInterceptor
  votesSent : List VoteCall
  appendsSent : List AppendCall

inductive NetAction
  | act (action : Action)
  | sendVote (call : VoteCall)
  | sendAppend (call : AppendCall)
  | command (node : Nat) (command : NetCommand)
  | prepare (node : Nat) (world : Finset String) (failure : Int)
  deriving DecidableEq

instance : Inhabited NetAction := ⟨.act default⟩

/-- The action of a node, if it is one. -/
def NetAction.section? : NetAction → Option Action
  | .act action => some action
  | _ => none

namespace NetWorld

variable {cl : Cluster} {w w' : NetWorld} {S : Finset Nat}

/-- A handler gets a request that was let out. -/
def Passed (w : NetWorld) : Input → Prop
  | .replyVote call => call ∈ w.votesSent
  | .appendEntries call => call ∈ w.appendsSent
  | _ => True

instance (w : NetWorld) : (input : Input) → Decidable (w.Passed input)
  | .replyVote call => inferInstanceAs (Decidable (call ∈ w.votesSent))
  | .appendEntries call => inferInstanceAs (Decidable (call ∈ w.appendsSent))
  | .voteReply .. | .appendReply .. | .run | .kill | .startElectionTimer | .startHeartbeatTimer
  | .timerExpired .. | .timerReset .. | .becomeCandidate | .requestVotes | .requestVote ..
  | .voteFailed .. | .sendEntries | .sendEntriesTo .. | .appendFailed .. | .propose ..
  | .proposeSync .. | .wakeSync .. => inferInstanceAs (Decidable True)

/-- The interceptor of process `id` answers the call itself. -/
def Hijacks (w : NetWorld) (id target : Nat) : Prop :=
  (w.nets id).intercept (createContext id target) = true

instance (w : NetWorld) (id target : Nat) : Decidable (w.Hijacks id target) :=
  inferInstanceAs (Decidable (_ = true))

def step (cl : Cluster) (w : NetWorld) : NetAction → Option NetWorld
  | .act action =>
      if w.Passed action.input then
        (World.step cl w.world action).map fun world => { w with world := world }
      else none
  | .sendVote call =>
      if call ∈ w.world.voteRequests then
        if w.Hijacks call.caller call.target then some w
        else some { w with votesSent := w.votesSent ++ [call] }
      else none
  | .sendAppend call =>
      if call ∈ w.world.appendRequests then
        if w.Hijacks call.caller call.target then some w
        else some { w with appendsSent := w.appendsSent ++ [call] }
      else none
  | .command node command =>
      some { w with nets := Function.update w.nets node ((w.nets node).command command) }
  | .prepare node world failure =>
      some { w with nets := Function.update w.nets node ((w.nets node).prepare world failure) }

/-- The nodes are constructed and `main` has prepared the interceptors. -/
def Initial (cl : Cluster) (w : NetWorld) : Prop :=
  World.Initial w.world ∧ w.votesSent = [] ∧ w.appendsSent = [] ∧
    ∀ a, ∃ (n : NetInterceptor) (failure : Int),
      w.nets a = n.prepare (TestNet.world cl.ids.toFinset) failure

/-- No call of a node of `S` gets out of `S`. -/
def Severed (cl : Cluster) (S : Finset Nat) (w : NetWorld) : Prop :=
  ∀ b ∈ S, ∀ v ∈ cl.ids, v ∉ S → w.Hijacks b v

instance : Decidable (w.Severed cl S) :=
  inferInstanceAs (Decidable (∀ b ∈ S, ∀ v ∈ cl.ids, v ∉ S → w.Hijacks b v))

/-- **One step**: a section of a node, or something that leaves the nodes alone and lets out
a request at most, which its process does not hijack. -/
theorem step_cases {input : NetAction} (stepped : step cl w input = some w') :
    (∃ action, input = .act action ∧ w.Passed action.input ∧
      World.step cl w.world action = some w'.world ∧ w'.votesSent = w.votesSent ∧
      w'.appendsSent = w.appendsSent) ∨
    (input.section? = none ∧ w'.world = w.world ∧
      (∀ call ∈ w'.votesSent, call ∈ w.votesSent ∨
        call ∈ w.world.voteRequests ∧ ¬ w.Hijacks call.caller call.target) ∧
      ∀ call ∈ w'.appendsSent, call ∈ w.appendsSent ∨
        call ∈ w.world.appendRequests ∧ ¬ w.Hijacks call.caller call.target) := by
  cases input with
  | act action =>
      simp only [step] at stepped
      split at stepped
      · rename_i passed
        obtain ⟨world, ran, same⟩ := Option.map_eq_some_iff.mp stepped
        rw [← same]
        exact Or.inl ⟨action, rfl, passed, ran, rfl, rfl⟩
      · cases stepped
  | sendVote call =>
      simp only [step] at stepped
      split at stepped
      · rename_i built
        split at stepped
        · cases stepped
          exact Or.inr ⟨rfl, rfl, fun _ => Or.inl, fun _ => Or.inl⟩
        · rename_i passes
          cases stepped
          refine Or.inr ⟨rfl, rfl, fun other member => ?_, fun _ => Or.inl⟩
          rcases List.mem_append.mp member with before | now
          · exact Or.inl before
          · rw [List.mem_singleton.mp now]
            exact Or.inr ⟨built, passes⟩
      · cases stepped
  | sendAppend call =>
      simp only [step] at stepped
      split at stepped
      · rename_i built
        split at stepped
        · cases stepped
          exact Or.inr ⟨rfl, rfl, fun _ => Or.inl, fun _ => Or.inl⟩
        · rename_i passes
          cases stepped
          refine Or.inr ⟨rfl, rfl, fun _ => Or.inl, fun other member => ?_⟩
          rcases List.mem_append.mp member with before | now
          · exact Or.inl before
          · rw [List.mem_singleton.mp now]
            exact Or.inr ⟨built, passes⟩
      · cases stepped
  | command node command =>
      cases stepped
      exact Or.inr ⟨rfl, rfl, fun _ => Or.inl, fun _ => Or.inl⟩
  | prepare node world failure =>
      cases stepped
      exact Or.inr ⟨rfl, rfl, fun _ => Or.inl, fun _ => Or.inl⟩

end NetWorld

def netMachine (cl : Cluster) : Machine NetWorld NetAction where
  init := NetWorld.Initial cl
  step := NetWorld.step cl

/-- A run of the cluster behind its interceptors. -/
abbrev NetRun (cl : Cluster) := Run (netMachine cl)

namespace NetRun

variable {cl : Cluster} {N : NetRun cl} {S : Finset Nat} {k l m j a : Nat}

/-- Node `a` in the `k`-th state. -/
def node (N : NetRun cl) (k a : Nat) : Raft := (N.state k).world.nodes a

/-! ## Without the interceptors -/

/-- The nodes of `N` make the run `R`; state `k` of `N` is state `index k` there. -/
abbrev Nodes (N : NetRun cl) (R : ClusterRun cl) (index : Nat → Nat) : Prop :=
  Image N R NetAction.section? (fun w world => w.world = world) index

/-- **The nodes make a run of the cluster**: the steps of the interceptors are none of it. -/
theorem exists_nodes (N : NetRun cl) : ∃ (R : ClusterRun cl) (index : Nat → Nat),
    N.Nodes R index := by
  apply Run.exists_image N (machine cl)
  · exact ⟨_, N.start.1, rfl⟩
  · rintro k within _ rfl
    rcases NetWorld.step_cases (N.next k within) with ⟨action, isAct, -, ran, -⟩ | ⟨none, same, -⟩
    · rw [isAct]
      exact ⟨_, .single ran, rfl⟩
    · rw [none]
      exact ⟨_, rfl, same⟩

variable {R : ClusterRun cl} {index : Nat → Nat}

theorem node_eq (image : N.Nodes R index)
    (bound : k ≤ N.length) (a : Nat) : R.node (index k) a = N.node k a := by
  rw [ClusterRun.node, ← image.sim k bound]
  rfl

/-- A step of the image is an action of the run, with the same node before. -/
theorem exists_act (image : N.Nodes R index)
    {g : Nat} (within : g < R.length) : ∃ h, h < N.length ∧ index h = g ∧
      N.input h = .act (R.input g) ∧ index (h + 1) = g + 1 := by
  obtain ⟨h, inside, here, projects⟩ := image.exists_index within
  have next := image.next h inside
  rw [projects, here] at next
  refine ⟨h, inside, here, ?_, next⟩
  cases input : N.input h <;> simp_all [NetAction.section?]

/-! ## Orderly runs -/

/-- Requests are built by leaders, and proposals start after `run()`. -/
def Orderly (N : NetRun cl) : Prop :=
  ∀ k < N.length, ∀ action, N.input k = .act action → action.Orderly (N.state k).world

theorem Orderly.image (orderly : N.Orderly) (image : N.Nodes R index) :
    R.ProposesAfterRun ∧ R.SendsAsLeader := by
  have checked : ∀ g < R.length, Action.Orderly (R.state g) (R.input g) := by
    intro g within
    obtain ⟨h, inside, rfl, isAct, -⟩ := exists_act image within
    rw [← image.sim h inside.le]
    exact orderly h inside _ isAct
  exact ⟨ClusterRun.proposesAfterRun_of_checked fun g within => (checked g within).proposes,
    ClusterRun.sendsAsLeader_of_checked fun g within => (checked g within).builds⟩

/-! ## Cuts -/

/-- Requests stay on record. -/
theorem requests_kept {w w' : World} {action : Action} (ran : World.step cl w action = some w') :
    w.voteRequests ⊆ w'.voteRequests ∧ w.appendRequests ⊆ w'.appendRequests := by
  simp only [World.step] at ran
  split at ran
  · simp only [Option.bind_eq_bind, Option.bind_eq_some_iff] at ran
    obtain ⟨⟨r, output⟩, -, same⟩ := ran
    cases same
    unfold World.post
    split <;> simp
  · cases ran

/-- What was let out had been built. -/
theorem built_of_sent (bound : k ≤ N.length) :
    (N.state k).votesSent ⊆ (N.state k).world.voteRequests ∧
      (N.state k).appendsSent ⊆ (N.state k).world.appendRequests := by
  apply N.invariant (P := fun k => (N.state k).votesSent ⊆ (N.state k).world.voteRequests ∧
    (N.state k).appendsSent ⊆ (N.state k).world.appendRequests) ?_ ?_ k bound
  · obtain ⟨-, noVotes, noAppends, -⟩ := N.start
    simp [noVotes, noAppends]
  · intro k within ih
    rcases NetWorld.step_cases (N.next k within) with
      ⟨action, -, -, ran, votes, appends⟩ | ⟨-, same, votes, appends⟩
    · obtain ⟨keptVotes, keptAppends⟩ := requests_kept ran
      rw [votes, appends]
      exact ⟨List.Subset.trans ih.1 keptVotes, List.Subset.trans ih.2 keptAppends⟩
    · rw [same]
      exact ⟨fun call member => (votes call member).elim (fun before => ih.1 before) And.left,
        fun call member => (appends call member).elim (fun before => ih.2 before) And.left⟩

/-- While `S` is severed, what its nodes send to the others was let out before. -/
theorem sent_before (bound : m ≤ N.length)
    (severed : ∀ g, k ≤ g → g < m → (N.state g).Severed cl S) {g : Nat} (from_k : k ≤ g)
    (to_m : g ≤ m) :
    (∀ call ∈ (N.state g).votesSent, call.caller ∈ S → call.target ∈ cl.ids →
      call.target ∉ S → call ∈ (N.state k).votesSent) ∧
    ∀ call ∈ (N.state g).appendsSent, call.caller ∈ S → call.target ∈ cl.ids →
      call.target ∉ S → call ∈ (N.state k).appendsSent := by
  induction g, from_k using Nat.le_induction with
  | base => exact ⟨fun _ member _ _ _ => member, fun _ member _ _ _ => member⟩
  | succ g le ih =>
      have before := ih (by omega)
      have cut := severed g le to_m
      rcases NetWorld.step_cases (N.next g (by omega)) with
        ⟨action, -, -, -, votes, appends⟩ | ⟨-, -, votes, appends⟩
      · rw [votes, appends]
        exact before
      · constructor
        · intro call member inS isId outside
          rcases votes call member with old | ⟨-, passes⟩
          · exact before.1 call old inS isId outside
          · exact absurd (cut _ inS _ isId outside) passes
        · intro call member inS isId outside
          rcases appends call member with old | ⟨-, passes⟩
          · exact before.2 call old inS isId outside
          · exact absurd (cut _ inS _ isId outside) passes

/-- **A severed set is sealed.** -/
theorem sealed_of_severed (image : N.Nodes R index) (le : k ≤ m) (bound : m ≤ N.length)
    (severed : ∀ g, k ≤ g → g < m → (N.state g).Severed cl S) :
    R.Sealed S (index k) (index m) := by
  have worlds : (N.state k).world = R.state (index k) := image.sim k (le.trans bound)
  obtain ⟨built, builtAppends⟩ := built_of_sent (le.trans bound)
  -- the step of the run behind a step of the nodes
  have behind : ∀ g, index k ≤ g → g < index m → ∃ h, k ≤ h ∧ h < m ∧
      N.input h = .act (R.input g) := by
    intro g low high
    have within : g < R.length := by
      have := image.index_mono bound le_rfl
      rw [image.last] at this
      omega
    obtain ⟨h, inside, here, isAct, next⟩ := exists_act image within
    refine ⟨h, ?_, image.lt_of_index_lt inside.le (here ▸ high), isAct⟩
    by_contra early
    have := image.index_mono (show h + 1 ≤ k by omega) (le.trans bound)
    omega
  have passed : ∀ h, h < N.length → ∀ v input, N.input h = .act ⟨v, input⟩ →
      (N.state h).Passed input := by
    intro h inside v input isAct
    rcases NetWorld.step_cases (N.next h inside) with ⟨action, same, passed, -⟩ | ⟨none, -⟩
    · cases isAct.symm.trans same
      exact passed
    · rw [isAct] at none
      cases none
  constructor
  · intro g v call output low high ran inS outside
    obtain ⟨h, from_k, to_m, isAct⟩ := behind g low high
    rw [ran.action] at isAct
    have sent : call ∈ (N.state h).votesSent := passed h (by omega) v _ isAct
    obtain ⟨-, rfl⟩ := ran.delivered
    exact worlds ▸ built ((sent_before bound severed from_k to_m.le).1 call sent inS ran.member
      outside)
  · intro g v call output low high ran inS outside
    obtain ⟨h, from_k, to_m, isAct⟩ := behind g low high
    rw [ran.action] at isAct
    have sent : call ∈ (N.state h).appendsSent := passed h (by omega) v _ isAct
    obtain ⟨-, rfl⟩ := ran.delivered
    exact worlds ▸ builtAppends ((sent_before bound severed from_k to_m.le).2 call sent inS
      ran.member outside)

/-! ## What a cut does -/

/-- **A minority that is cut off elects nobody new.**  While the interceptors of a set of
nodes that has no majority of the votes hold back its calls to the others, whoever of it runs
as leader was leader or candidate of that very term when the cut began. -/
theorem isolated_election (N : NetRun cl) (S : Finset Nat) (few : S.card ≤ (cl.size - 1) / 2)
    (bound : m ≤ N.length) (severed : ∀ g, k ≤ g → g < m → (N.state g).Severed cl S) :
    ∀ c ∈ S, ∀ l, k ≤ l → l ≤ m → (N.node l c).active = true →
      (N.node l c).currentRole = .leader →
        (N.node k c).currentTerm = (N.node l c).currentTerm ∧
          (N.node k c).currentRole ≠ .follower := by
  intro c member l from_k to_m active role
  obtain ⟨R, index, image⟩ := N.exists_nodes
  have isolated := sealed_of_severed image (from_k.trans to_m) bound severed
  have leads : R.Leads (index l) c (N.node l c).currentTerm := by
    refine ⟨image.last ▸ image.index_mono (to_m.trans bound) le_rfl, ?_, ?_, ?_⟩ <;>
      rw [node_eq image (to_m.trans bound)]
    · exact active
    · exact role
  have before := isolated.leads few leads member
    (image.index_mono from_k (to_m.trans bound)) (image.index_mono to_m bound)
  rwa [node_eq image (from_k.trans (to_m.trans bound))] at before

/-- Three constructed nodes whose interceptors simulate failures. -/
def fresh : NetWorld where
  world := World.fresh
  nets _ :=
    NetInterceptor.unset.prepare (TestNet.world (Cluster.ofSize 3 (by decide)).ids.toFinset) 0
  votesSent := []
  appendsSent := []

theorem initial_fresh : NetWorld.Initial (.ofSize 3 (by decide)) fresh :=
  ⟨World.initial_fresh, rfl, rfl, fun _ => ⟨_, 0, rfl⟩⟩

/-- Node 1 is elected with the vote of 2 and is disconnected.  It accepts `y`; its call to 2 is
hijacked. -/
def cutOff : List NetAction :=
  open ClusterRun in
  (oneElection.take 8).map .act ++ [.sendVote (ballot 1 2 1)] ++ (oneElection.drop 8).map .act ++
    [.command 1 (.disconnect "1"), .act ⟨1, .propose "y"⟩] ++ (heartbeat 1 2).map .act ++
    [.act ⟨1, .sendEntriesTo 2⟩, .sendAppend (wholeLog 1 2 1 [⟨1, "y"⟩] 0 1)]

theorem cutOff_accepted :
    ((netMachine (.ofSize 3 (by decide))).exec fresh cutOff).isSome := by decide +kernel

def cutOffRun : NetRun (.ofSize 3 (by decide)) := .of _ fresh cutOff initial_fresh cutOff_accepted

theorem severed_cutOff :
    ∀ g, 12 ≤ g → g < 18 → (cutOffRun.state g).Severed (.ofSize 3 (by decide)) {1} := by
  have checked : ∀ g < 18, 12 ≤ g → (cutOffRun.state g).Severed (.ofSize 3 (by decide)) {1} := by
    decide +kernel
  exact fun g low high => checked g high low

theorem isolated_election_of_cutOff :
    (cutOffRun.node 18 1).currentRole = .leader ∧
      (cutOffRun.node 12 1).currentTerm = (cutOffRun.node 18 1).currentTerm ∧
        (cutOffRun.node 12 1).currentRole ≠ .follower :=
  ⟨by decide +kernel, isolated_election cutOffRun {1} (by decide) (by decide) severed_cutOff 1
    (by decide) 18 (by decide) le_rfl (by decide +kernel) (by decide +kernel)⟩

/-- At step `j` node `a` accepts the proposal of `data`, as index `i` in term `t`. -/
structure Accepts (N : NetRun cl) (j a : Nat) (data : String) (i : Nat) (t : Int) : Prop where
  within : j < N.length
  proposes : N.input j = .act ⟨a, .propose data⟩ ∨ N.input j = .act ⟨a, .proposeSync data⟩
  role : (N.node j a).currentRole = .leader
  answer : (N.node j a).accepted = { index := i, term := t, isLeader := true }

theorem Accepts.image {data : String} {i : Nat} {t : Int} (accepts : N.Accepts j a data i t)
    (image : N.Nodes R index) :
    R.Accepts (index j) a data i t ∧ index (j + 1) = index j + 1 := by
  obtain ⟨within, proposes, role, answer⟩ := accepts
  rw [← node_eq image within.le] at role answer
  obtain ⟨input, isInput, isAct⟩ : ∃ input, (input = .propose data ∨ input = .proposeSync data) ∧
      N.input j = .act ⟨a, input⟩ := by
    rcases proposes with isAct | isAct
    · exact ⟨_, Or.inl rfl, isAct⟩
    · exact ⟨_, Or.inr rfl, isAct⟩
  have keeps : (N.input j).section? = some ⟨a, input⟩ := by rw [isAct]; rfl
  have next := image.next j within
  rw [keeps] at next
  simp only [Option.toList_some, List.length_singleton] at next
  have inside : index j < R.length := by
    have := image.index_mono (show j + 1 ≤ N.length from within) le_rfl
    rw [image.last] at this
    omega
  obtain ⟨output, ran⟩ := ClusterRun.ran_of_action inside (image.input j _ within keeps)
  exact ⟨⟨⟨input, output, ran, isInput⟩, role, answer⟩, next⟩

/-- **What a minority accepts while it is cut off goes nowhere.**  While the interceptors of
half of the nodes at most hold back their calls to the others, an entry that one of them
accepts is in no log of the others, no node commits it, and its leader does not either. -/
theorem isolated_proposal (N : NetRun cl) (S : Finset Nat) (majority : cl.MajorityElects)
    (orderly : N.Orderly) (few : 2 * S.card ≤ cl.size) (bound : m ≤ N.length)
    (severed : ∀ g, k ≤ g → g < m → (N.state g).Severed cl S) {data : String} {i : Nat} {t : Int}
    (accepts : N.Accepts j a data i t) (member : a ∈ S) (from_k : k ≤ j)
    (during : j < m) :
    ∀ l, l ≤ m →
      (∀ v, v ∉ S → ∀ entry, (N.node l v).log[i - 1]? = some entry → entry.term ≠ t) ∧
      (∀ v entry, ((N.state l).world.committed v)[i - 1]? = some entry → entry.term ≠ t) ∧
      (j < l → (N.node l a).active = true → (N.node l a).currentRole = .leader →
        (N.node l a).currentTerm = t → (N.node l a).commitIndex < i) := by
  intro l to_m
  obtain ⟨R, index, image⟩ := N.exists_nodes
  have unique : R.OneLeaderPerTerm := ClusterRun.oneLeader_of_majority majority R
  obtain ⟨afterRun, sends⟩ := orderly.image image
  have isolated := sealed_of_severed image (from_k.trans during.le) bound severed
  obtain ⟨accepted, next⟩ := accepts.image image
  have isIndex : i = (i - 1) + 1 := by
    have := accepted.index
    omega
  have within : index m ≤ R.length := image.last ▸ image.index_mono bound le_rfl
  have at_l : ∀ v, R.node (index l) v = N.node l v := node_eq image (to_m.trans bound)
  have began := image.index_mono from_k accepts.within.le
  have ended := image.index_mono to_m bound
  have uncommitted : ∀ v entry, ((N.state l).world.committed v)[i - 1]? = some entry →
      entry.term ≠ t := by
    intro v entry read
    rw [show (N.state l).world = R.state (index l) from image.sim l (to_m.trans bound)] at read
    exact isolated.uncommitted unique afterRun few sends accepted member began isIndex within ended
      v read
  refine ⟨?_, uncommitted, ?_⟩
  · intro v outside entry read
    rw [← at_l] at read
    exact isolated.unheard unique afterRun accepted member began isIndex within ended v outside
      entry read
  · intro later active role term
    obtain ⟨-, first, log⟩ := accepted.leads afterRun
    have leads : R.Leads (index l) a t :=
      ⟨ended.trans within, at_l a ▸ active, at_l a ▸ role, at_l a ▸ term⟩
    have after : index j + 1 ≤ index l :=
      next ▸ image.index_mono (show j + 1 ≤ l from later) (to_m.trans bound)
    have held : (R.node (index l) a).log[i - 1]? = some ⟨t, data⟩ := by
      apply getElem?_extend (first.log leads after)
      rw [log, accepted.index]
      simp
    by_contra committed
    have inside : i - 1 < (N.node l a).commitIndex := by omega
    refine uncommitted a ⟨t, data⟩ ?_ rfl
    rw [at_l] at held
    exact (List.getElem?_take_of_lt inside).trans held

/-- Checked on the node that acts. -/
theorem orderly_of_checked
    (checked : ∀ k < N.length, ∀ action ∈ (N.input k).section?,
      (action.input.Builds → (N.node k action.node).currentRole = .leader) ∧
        (action.input.Proposes → (N.node k action.node).active = true)) : N.Orderly := by
  intro k within action isAct
  obtain ⟨builds, proposes⟩ := checked k within action (by rw [isAct]; rfl)
  exact ⟨builds, proposes⟩

theorem isolated_proposal_of_cutOff :
    (cutOffRun.node 18 1).log = [⟨1, "y"⟩] ∧ (cutOffRun.node 18 1).commitIndex < 1 ∧
      ∀ v, v ∉ ({1} : Finset Nat) → ∀ entry, (cutOffRun.node 18 v).log[0]? = some entry →
        entry.term ≠ 1 := by
  have orderly : cutOffRun.Orderly := orderly_of_checked (by decide +kernel)
  have accepts : cutOffRun.Accepts 12 1 "y" 1 1 :=
    ⟨by decide, Or.inl rfl, by decide +kernel, by decide +kernel⟩
  obtain ⟨unheard, -, uncommitted⟩ := isolated_proposal cutOffRun {1} (Or.inl rfl) orderly
    (by decide) (by decide) severed_cutOff accepts (by decide) le_rfl (by decide) 18 le_rfl
  exact ⟨by decide +kernel, uncommitted (by decide) (by decide +kernel) (by decide +kernel)
    (by decide +kernel), unheard⟩

end NetRun

end Rafty
