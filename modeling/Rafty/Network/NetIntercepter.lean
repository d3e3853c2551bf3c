/-
# Rafty.Network.NetIntercepter — which calls a process lets out

`net_intercepter.hpp`: every client call of a process passes its `NetInterceptor`, which
lets it go on or answers it with UNAVAILABLE in place of the server.  The decision rests
on two sets of names, `rank1` (connected) and `rank2` (disconnected), that the commands of
the tester move names between, and on the kind of failure that is simulated.

* the ranks stay disjoint, which the type carries;
* after any commands `rank2` has the names of the world whose last command was to
  disconnect them, and `rank1` the others (`Divides.commands`);
* so the verdict on a call of `create_context` is known from the commands alone
  (`verdict_of_commands`), and the tester's `connected` flags say at any time what every
  node's interceptor does (`TestNet.verdict`).
-/
import Mathlib

namespace Rafty

set_option autoImplicit false

inductive NetInterceptionType
  | networkFailure
  | networkPartition
  deriving DecidableEq, Repr

/-- The kind that `Prepare` and `prepare_interceptor` set for a failure flag. -/
def NetInterceptionType.ofFailType (failure : Int) : NetInterceptionType :=
  if failure = 0 then .networkFailure
  else if failure = 1 then .networkPartition
  else .networkFailure

structure NetInterceptor where
  type : NetInterceptionType
  rank1 : Finset String
  rank2 : Finset String
  disjoint : Disjoint rank1 rank2

/-- The static members at the start of the process. -/
def NetInterceptor.unset : NetInterceptor :=
  ⟨.networkFailure, ∅, ∅, Finset.disjoint_empty_right ∅⟩

/-- The metadata of a call, in the order of the multimap. -/
abbrev Metadata := List (String × String)

/-- What the loop over the metadata leaves: the last value under `key`. -/
def Metadata.value (metadata : Metadata) (key : String) : Option String :=
  metadata.foldl (fun found kv => if kv.1 = key then some kv.2 else found) none

/-- `create_context`. -/
def createContext (id target : Nat) : Metadata :=
  [("from", toString id), ("to", toString target)]

namespace NetInterceptor

variable (n : NetInterceptor)

def disconnect (id : String) : NetInterceptor :=
  if id ∈ n.rank1 then
    { n with
      rank1 := n.rank1.erase id
      rank2 := insert id n.rank2
      disjoint := by
        rw [Finset.disjoint_insert_right]
        exact ⟨Finset.notMem_erase id _, n.disjoint.mono_left (Finset.erase_subset id _)⟩ }
  else n

def reconnect (id : String) : NetInterceptor :=
  if id ∈ n.rank2 then
    { n with
      rank1 := insert id n.rank1
      rank2 := n.rank2.erase id
      disjoint := by
        rw [Finset.disjoint_insert_left]
        exact ⟨Finset.notMem_erase id _, n.disjoint.mono_right (Finset.erase_subset id _)⟩ }
  else n

def setupRank (ids : Finset String) : NetInterceptor :=
  { n with rank1 := ids, rank2 := ∅, disjoint := Finset.disjoint_empty_right ids }

def setType (type : NetInterceptionType) : NetInterceptor := { n with type := type }

/-- `prepare_interceptor`, and the handler of `Prepare`. -/
def prepare (world : Finset String) (failure : Int) : NetInterceptor :=
  (n.setupRank world).setType (.ofFailType failure)

/-- The switch of `Intercept`, once `from` and `to` are known. -/
def blocks (source target : String) : Bool :=
  match n.type with
  | .networkFailure => source ∈ n.rank2 ∨ target ∈ n.rank2
  | .networkPartition =>
      (source ∈ n.rank1 ∧ target ∈ n.rank2) ∨ (target ∈ n.rank1 ∧ source ∈ n.rank2)

/-- `Intercept`: the call is hijacked. -/
def intercept (metadata : Metadata) : Bool :=
  match metadata.value "from", metadata.value "to" with
  | some source, some target => n.blocks source target
  | _, _ => false

@[simp] theorem intercept_createContext (id target : Nat) :
    n.intercept (createContext id target) = n.blocks (toString id) (toString target) := rfl

end NetInterceptor

/-! ## Commands -/

/-- What the tester, or the console, can do to the interceptor of a running node. -/
inductive NetCommand
  | disconnect (id : String)
  | reconnect (id : String)
  deriving DecidableEq, Repr

namespace NetCommand

def id : NetCommand → String
  | disconnect id | reconnect id => id

/-- The command that named `id` last was to disconnect it. -/
def Out (commands : List NetCommand) (id : String) : Prop :=
  (commands.filter fun command => command.id = id).getLast? = some (.disconnect id)

instance (commands : List NetCommand) (id : String) : Decidable (Out commands id) :=
  inferInstanceAs (Decidable (_ = _))

@[simp] theorem not_out_nil (id : String) : ¬ Out [] id := by simp [Out]

@[simp] theorem out_disconnect (commands : List NetCommand) (name id : String) :
    Out (commands ++ [.disconnect name]) id ↔ id = name ∨ Out commands id := by
  by_cases same : id = name
  · simp [Out, NetCommand.id, same]
  · simp [Out, NetCommand.id, same, Ne.symm same]

@[simp] theorem out_reconnect (commands : List NetCommand) (name id : String) :
    Out (commands ++ [.reconnect name]) id ↔ id ≠ name ∧ Out commands id := by
  by_cases same : id = name
  · simp [Out, NetCommand.id, same]
  · simp [Out, NetCommand.id, same, Ne.symm same]

end NetCommand

namespace NetInterceptor

variable {n : NetInterceptor} {world : Finset String} {out : String → Prop}

def command (n : NetInterceptor) : NetCommand → NetInterceptor
  | .disconnect id => n.disconnect id
  | .reconnect id => n.reconnect id

def commands (n : NetInterceptor) (commands : List NetCommand) : NetInterceptor :=
  commands.foldl command n

@[simp] theorem type_command (c : NetCommand) : (n.command c).type = n.type := by
  cases c <;> simp only [command, disconnect, reconnect] <;> split <;> rfl

@[simp] theorem mem_rank1_disconnect (name id : String) :
    id ∈ (n.disconnect name).rank1 ↔ id ∈ n.rank1 ∧ id ≠ name := by
  unfold disconnect
  split
  · simp [and_comm]
  · rename_i outside
    exact ⟨fun member => ⟨member, fun same => outside (same ▸ member)⟩, And.left⟩

@[simp] theorem mem_rank2_disconnect (name id : String) :
    id ∈ (n.disconnect name).rank2 ↔ id ∈ n.rank2 ∨ id = name ∧ name ∈ n.rank1 := by
  unfold disconnect
  split <;> simp [*, or_comm]

@[simp] theorem mem_rank2_reconnect (name id : String) :
    id ∈ (n.reconnect name).rank2 ↔ id ∈ n.rank2 ∧ id ≠ name := by
  unfold reconnect
  split
  · simp [and_comm]
  · rename_i outside
    exact ⟨fun member => ⟨member, fun same => outside (same ▸ member)⟩, And.left⟩

@[simp] theorem mem_rank1_reconnect (name id : String) :
    id ∈ (n.reconnect name).rank1 ↔ id ∈ n.rank1 ∨ id = name ∧ name ∈ n.rank2 := by
  unfold reconnect
  split <;> simp [*, or_comm]

/-- The ranks divide the world into those that are out and the others. -/
structure Divides (n : NetInterceptor) (world : Finset String) (out : String → Prop) : Prop where
  rank1 : ∀ id, id ∈ n.rank1 ↔ id ∈ world ∧ ¬ out id
  rank2 : ∀ id, id ∈ n.rank2 ↔ id ∈ world ∧ out id

theorem divides_prepare (n : NetInterceptor) (world : Finset String) (failure : Int) :
    (n.prepare world failure).Divides world (NetCommand.Out []) where
  rank1 id := by simp [prepare, setupRank, setType]
  rank2 id := by simp [prepare, setupRank, setType]

theorem Divides.congr {out' : String → Prop} (divides : n.Divides world out)
    (same : ∀ id, out' id ↔ out id) : n.Divides world out' where
  rank1 id := by rw [divides.rank1, same]
  rank2 id := by rw [divides.rank2, same]

theorem Divides.disconnect (divides : n.Divides world out) (name : String) :
    (n.disconnect name).Divides world fun id => id = name ∨ out id where
  rank1 id := by
    simp only [mem_rank1_disconnect, divides.rank1]
    tauto
  rank2 id := by
    simp only [mem_rank2_disconnect, divides.rank1, divides.rank2]
    by_cases same : id = name
    · simp only [same]
      tauto
    · simp [same]

theorem Divides.reconnect (divides : n.Divides world out) (name : String) :
    (n.reconnect name).Divides world fun id => id ≠ name ∧ out id where
  rank1 id := by
    simp only [mem_rank1_reconnect, divides.rank1, divides.rank2]
    by_cases same : id = name
    · simp only [same]
      tauto
    · simp [same]
  rank2 id := by
    simp only [mem_rank2_reconnect, divides.rank2]
    tauto

theorem Divides.disconnectAll (divides : n.Divides world out) (names : List String) :
    (names.foldl NetInterceptor.disconnect n).Divides world fun id => id ∈ names ∨ out id := by
  induction names generalizing n out with
  | nil => exact divides.congr (by simp)
  | cons name names ih => exact (ih (divides.disconnect name)).congr (by simp; tauto)

theorem Divides.reconnectAll (divides : n.Divides world out) (names : List String) :
    (names.foldl NetInterceptor.reconnect n).Divides world fun id => id ∉ names ∧ out id := by
  induction names generalizing n out with
  | nil => exact divides.congr (by simp)
  | cons name names ih => exact (ih (divides.reconnect name)).congr (by simp; tauto)

/-- **One command** changes where one name is. -/
theorem Divides.command {cs : List NetCommand} (divides : n.Divides world (NetCommand.Out cs))
    (c : NetCommand) : (n.command c).Divides world (NetCommand.Out (cs ++ [c])) := by
  cases c with
  | disconnect name => exact (divides.disconnect name).congr (NetCommand.out_disconnect cs name)
  | reconnect name => exact (divides.reconnect name).congr (NetCommand.out_reconnect cs name)

/-- Every name is where the last command that named it put it. -/
theorem Divides.commands {before : List NetCommand}
    (divides : n.Divides world (NetCommand.Out before)) (cs : List NetCommand) :
    (n.commands cs).Divides world (NetCommand.Out (before ++ cs)) := by
  induction cs generalizing n before with
  | nil => simpa [NetInterceptor.commands] using divides
  | cons c cs ih =>
      have next := ih (divides.command c)
      simpa [NetInterceptor.commands] using next

@[simp] theorem type_commands (cs : List NetCommand) : (n.commands cs).type = n.type := by
  induction cs generalizing n with
  | nil => rfl
  | cons c cs ih => exact ih.trans (type_command c)

/-- The verdict, once it is known who is out. -/
theorem Divides.blocks (divides : n.Divides world out) (source target : String) :
    n.blocks source target = true ↔
      match n.type with
      | .networkFailure => (source ∈ world ∧ out source) ∨ (target ∈ world ∧ out target)
      | .networkPartition =>
          source ∈ world ∧ target ∈ world ∧ (out source ↔ ¬ out target) := by
  obtain ⟨in1, in2⟩ := divides
  cases kind : n.type with
  | networkFailure => simp [NetInterceptor.blocks, kind, in2]
  | networkPartition =>
      simp only [NetInterceptor.blocks, kind, in1, in2, decide_eq_true_eq]
      tauto

/-- **The verdict on a call** of node `a` to node `b`, from the last preparation and the
commands since: with `fail_type` 1 the call is hijacked if exactly one of the two is
disconnected, else if one of them is; a name that is not of the world is never
disconnected. -/
theorem verdict_of_commands (n : NetInterceptor) (world : Finset String) (failure : Int)
    (cs : List NetCommand) (a b : Nat) :
    ((n.prepare world failure).commands cs).intercept (createContext a b) = true ↔
      if failure = 1 then
        toString a ∈ world ∧ toString b ∈ world ∧
          (NetCommand.Out cs (toString a) ↔ ¬ NetCommand.Out cs (toString b))
      else
        (toString a ∈ world ∧ NetCommand.Out cs (toString a)) ∨
          (toString b ∈ world ∧ NetCommand.Out cs (toString b)) := by
  have divides := (divides_prepare n world failure).commands cs
  rw [intercept_createContext, divides.blocks, type_commands, List.nil_append]
  change (match NetInterceptionType.ofFailType failure with
    | .networkFailure => _
    | .networkPartition => _) ↔ _
  unfold NetInterceptionType.ofFailType
  by_cases zero : failure = 0
  · simp [zero]
  · by_cases one : failure = 1 <;> simp [zero, one]

end NetInterceptor

/-! ## The tester's side -/

/-- The flags of `MultiprocTestConfig` and the interceptors of the processes it spawned. -/
structure TestNet where
  raftIds : Finset Nat
  connected : Nat → Bool
  nets : Nat → NetInterceptor

/-- Calls of `MultiprocTestConfig` that change the network. -/
inductive TestOp
  | disconnect (id : Nat)
  | disconnectAll
  | reconnect (id : Nat)
  | reconnectAll

namespace TestNet

variable (t : TestNet)

/-- `ConnOpt` carries the ids as `uint32`; the handlers of the nodes print them. -/
def names (ids : List Nat) : List String := ids.map fun id => toString (id % 1 <<< 32)

/-- `RaftTestCtrl::disconnect`: every node's `Disconnect` handles the ids one by one. -/
def ctrlDisconnect (ids : List Nat) : TestNet :=
  { t with nets := fun a => (names ids).foldl NetInterceptor.disconnect (t.nets a) }

def ctrlReconnect (ids : List Nat) : TestNet :=
  { t with nets := fun a => (names ids).foldl NetInterceptor.reconnect (t.nets a) }

def setConnected (ids : List Nat) (flag : Bool) : TestNet :=
  { t with connected := fun id => if id ∈ ids then flag else t.connected id }

/-- The ids in the order of the `std::set`. -/
def allIds : List Nat := t.raftIds.sort (· ≤ ·)

def step : TestOp → TestNet
  | .disconnect id =>
      if id ∈ t.raftIds then (t.ctrlDisconnect [id]).setConnected [id] false else t
  | .disconnectAll => (t.ctrlDisconnect t.allIds).setConnected t.allIds false
  | .reconnect id =>
      if id ∈ t.raftIds then (t.ctrlReconnect [id]).setConnected [id] true else t
  | .reconnectAll => (t.ctrlReconnect t.allIds).setConnected t.allIds true

/-- The names of the nodes, as `main` puts them into the world of every node. -/
def world (raftIds : Finset Nat) : Finset String := raftIds.image toString

/-- All nodes have started, with the failure type they were spawned with. -/
structure Started (failure : Int) (t : TestNet) : Prop where
  connected : ∀ id ∈ t.raftIds, t.connected id = true
  nets : ∀ a, ∃ n : NetInterceptor, t.nets a = n.prepare (world t.raftIds) failure

/-- The tester has `name` disconnected. -/
def Cut (t : TestNet) (name : String) : Prop :=
  ∃ id ∈ t.raftIds, toString id = name ∧ t.connected id = false

variable {t} {failure : Int} {a b c : Nat}

/-- Every node's interceptor is of the kind of the test, and has out what the tester has
disconnected. -/
structure Agrees (failure : Int) (t : TestNet) : Prop where
  small : ∀ id ∈ t.raftIds, id < 1 <<< 32
  type : ∀ a, (t.nets a).type = .ofFailType failure
  divides : ∀ a, (t.nets a).Divides (world t.raftIds) t.Cut

theorem Started.agrees (started : Started failure t) (small : ∀ id ∈ t.raftIds, id < 1 <<< 32) :
    t.Agrees failure where
  small := small
  type a := by
    obtain ⟨n, same⟩ := started.nets a
    rw [same]
    rfl
  divides a := by
    obtain ⟨n, same⟩ := started.nets a
    rw [same]
    refine (NetInterceptor.divides_prepare n _ failure).congr ?_
    rintro name
    simp only [NetCommand.not_out_nil, iff_false]
    rintro ⟨id, member, -, cut⟩
    simp [started.connected id member] at cut

theorem type_foldl (f : NetInterceptor → String → NetInterceptor)
    (same : ∀ n name, (f n name).type = n.type) (names : List String) (n : NetInterceptor) :
    (names.foldl f n).type = n.type := by
  induction names generalizing n with
  | nil => rfl
  | cons name names ih => exact (ih _).trans (same n name)

/-- Ids that fit `uint32` arrive as they are. -/
theorem mem_names {ids : List Nat} (small : ∀ id ∈ ids, id < 1 <<< 32) (name : String) :
    name ∈ names ids ↔ ∃ id ∈ ids, toString id = name := by
  rw [names, List.mem_map]
  refine exists_congr fun id => and_congr_right fun member => ?_
  rw [Nat.mod_eq_of_lt (small id member)]

theorem toString_inj {a b : Nat} : toString a = toString b ↔ a = b := Nat.repr_inj

/-- **Disconnecting nodes of the test** keeps the two sides in agreement, -/
theorem Agrees.disconnect (agrees : t.Agrees failure) {ids : List Nat}
    (members : ∀ id ∈ ids, id ∈ t.raftIds) :
    ((t.ctrlDisconnect ids).setConnected ids false).Agrees failure where
  small := agrees.small
  type a := (type_foldl _ (fun n name => n.type_command (.disconnect name)) _ _).trans
    (agrees.type a)
  divides a := by
    refine ((agrees.divides a).disconnectAll (names ids)).congr fun name => ?_
    rw [mem_names fun id member => agrees.small id (members id member)]
    constructor
    · rintro ⟨id, member, same, cut⟩
      by_cases named : id ∈ ids
      · exact Or.inl ⟨id, named, same⟩
      · exact Or.inr ⟨id, member, same, by simpa [setConnected, ctrlDisconnect, named] using cut⟩
    · rintro (⟨id, named, same⟩ | ⟨id, member, same, cut⟩)
      · exact ⟨id, members id named, same, by simp [setConnected, named]⟩
      · exact ⟨id, member, same, by simp [setConnected, ctrlDisconnect, cut]⟩

/-- and so does reconnecting them. -/
theorem Agrees.reconnect (agrees : t.Agrees failure) {ids : List Nat}
    (members : ∀ id ∈ ids, id ∈ t.raftIds) :
    ((t.ctrlReconnect ids).setConnected ids true).Agrees failure where
  small := agrees.small
  type a := (type_foldl _ (fun n name => n.type_command (.reconnect name)) _ _).trans
    (agrees.type a)
  divides a := by
    refine ((agrees.divides a).reconnectAll (names ids)).congr fun name => ?_
    rw [mem_names fun id member => agrees.small id (members id member)]
    constructor
    · rintro ⟨id, member, same, cut⟩
      by_cases named : id ∈ ids
      · simp [setConnected, named] at cut
      · refine ⟨?_, id, member, same, by simpa [setConnected, ctrlReconnect, named] using cut⟩
        rintro ⟨other, otherNamed, sameName⟩
        exact named (toString_inj.mp (sameName.trans same.symm) ▸ otherNamed)
    · rintro ⟨unnamed, id, member, same, cut⟩
      have other : id ∉ ids := fun named => unnamed ⟨id, named, same⟩
      exact ⟨id, member, same, by simpa [setConnected, ctrlReconnect, other] using cut⟩

theorem Agrees.step (agrees : t.Agrees failure) (op : TestOp) : (t.step op).Agrees failure := by
  cases op with
  | disconnect id =>
      simp only [TestNet.step]
      split
      · rename_i member
        exact agrees.disconnect (by simpa using member)
      · exact agrees
  | reconnect id =>
      simp only [TestNet.step]
      split
      · rename_i member
        exact agrees.reconnect (by simpa using member)
      · exact agrees
  | disconnectAll => exact agrees.disconnect (by simp [allIds])
  | reconnectAll => exact agrees.reconnect (by simp [allIds])

theorem raftIds_step (op : TestOp) : (t.step op).raftIds = t.raftIds := by
  cases op <;> simp only [TestNet.step] <;> first | rfl | (split <;> rfl)

theorem Cut.iff (member : a ∈ t.raftIds) : t.Cut (toString a) ↔ t.connected a = false := by
  constructor
  · rintro ⟨id, -, same, cut⟩
    rwa [← toString_inj.mp same]
  · intro cut
    exact ⟨a, member, rfl, cut⟩

/-- **The tester knows its network.**  After any calls of `disconnect`, `disconnect_all`,
`reconnect` and `reconnect_all`, every node's interceptor decides on a call between two nodes
of the test by the tester's `connected` flags of these two. -/
theorem verdict_of_connected (t : TestNet) (failure : Int) (ops : List TestOp)
    (small : ∀ id ∈ t.raftIds, id < 1 <<< 32) (started : Started failure t) (a b c : Nat)
    (memberA : a ∈ t.raftIds) (memberB : b ∈ t.raftIds) :
    ((ops.foldl step t).nets c).intercept (createContext a b) =
      if failure = 1 then (ops.foldl step t).connected a != (ops.foldl step t).connected b
      else !((ops.foldl step t).connected a && (ops.foldl step t).connected b) := by
  have agrees := started.agrees small
  clear started small
  induction ops generalizing t with
  | nil =>
      rw [List.foldl_nil, Bool.eq_iff_iff, NetInterceptor.intercept_createContext,
        (agrees.divides c).blocks, agrees.type c, Cut.iff memberA, Cut.iff memberB]
      have inWorld : ∀ id ∈ t.raftIds, toString id ∈ world t.raftIds :=
        fun id member => Finset.mem_image_of_mem _ member
      unfold NetInterceptionType.ofFailType
      cases atA : t.connected a <;> cases atB : t.connected b <;>
        by_cases zero : failure = 0 <;> by_cases one : failure = 1 <;>
        simp_all
  | cons op ops ih =>
      exact ih (t.step op) (by rwa [raftIds_step]) (by rwa [raftIds_step]) (agrees.step op)

/-- Three nodes in a partition test; the tester cuts off node 0. -/
def three : TestNet where
  raftIds := {0, 1, 2}
  connected _ := true
  nets _ := NetInterceptor.unset.prepare (world {0, 1, 2}) 1

theorem verdict_of_connected_of_three :
    (([.disconnect 0].foldl step three).nets 1).intercept (createContext 0 1) = true ∧
      (([.disconnect 0].foldl step three).nets 1).intercept (createContext 1 2) = false := by
  have started : Started 1 three := ⟨fun _ _ => rfl, fun _ => ⟨_, rfl⟩⟩
  constructor
  · rw [verdict_of_connected three 1 [.disconnect 0] (by decide) started 0 1 1 (by decide)
      (by decide)]
    decide
  · rw [verdict_of_connected three 1 [.disconnect 0] (by decide) started 1 2 1 (by decide)
      (by decide)]
    decide

end TestNet

end Rafty
