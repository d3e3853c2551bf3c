/-
# Rafty.Toolings.Deployment — from a list of instances to the nodes of a cluster

`ConfigGen` makes a config for every instance, `RaftTestCtrl::spawn_raft_node` writes it on a
command line, and `main` of `node.cpp` reads the command line and constructs the node from it.
What comes out is what the rest of this development starts from (`deployed_cluster`): the
nodes are a `Cluster`, every one of them has all the others as its peers, calls each of them
where it listens, and has prepared its interceptor for the world of all nodes.

The shell and `absl::ParseCommandLine` hand each flag its value; how a value is read is a
parameter, as in `Rafty.Toolings.Peers`.
-/
import Rafty.Toolings.Peers
import Rafty.Network.NetIntercepter
import Rafty.Kernel.Cluster

namespace Rafty.Toolings

set_option autoImplicit false

/-! ## The configs -/

/-- `RaftInstanceConfig`. -/
structure RaftInstanceConfig where
  id : UInt64
  listeningAddr : String
  externalAddr : String
  deriving DecidableEq, Repr

/-- `rafty::Config`. -/
structure RaftConfig where
  id : UInt64
  addr : String
  peerAddrs : AddrMap

namespace ConfigGen

def genLocalInstances (numInstances startPort : UInt64) : List RaftInstanceConfig :=
  (List.range numInstances.toNat).map fun i =>
    let addr := "localhost:" ++ toString (startPort + UInt64.ofNat i)
    { id := UInt64.ofNat i, listeningAddr := addr, externalAddr := addr }

def genNetInstances (addrs : List String) (listeningPort : UInt64) : List RaftInstanceConfig :=
  addrs.zipIdx.map fun (addr, i) =>
    { id := UInt64.ofNat i
      listeningAddr := "0.0.0.0:" ++ toString listeningPort
      externalAddr := addr ++ ":" ++ toString listeningPort }

/-- The loop over the peers of an instance. -/
def peersOf (instances : List RaftInstanceConfig) (id : UInt64) : AddrMap :=
  instances.foldl
    (fun peers peer => if peer.id ≠ id then peers.insert peer.id peer.externalAddr else peers) ∅

/-- The config of one instance. -/
def genRaftConfig (instances : List RaftInstanceConfig) (inst : RaftInstanceConfig) :
    RaftConfig where
  id := inst.id
  addr := inst.listeningAddr
  peerAddrs := peersOf instances inst.id

def genRaftConfigs (instances : List RaftInstanceConfig) : List RaftConfig :=
  instances.map (genRaftConfig instances)

end ConfigGen

/-! ## The command line -/

/-- Abseil's functions, with those that read a `uint16_t` and an `int` flag. -/
structure Flags extends Absl where
  parseUint16 : String → Option UInt16
  parseInt : String → Option Int

/-- The values on the command line of a node. -/
structure Command where
  id : String
  port : String
  peers : String
  failType : String

/-- What `main` makes: the config of the `Raft`, and the interceptor. -/
structure Process where
  config : RaftConfig
  net : NetInterceptor

namespace Flags

variable (flags : Flags)

/-- `spawn_raft_node`, for one config; it exits on an address that is not `host:port`. -/
def spawnRaftNode (config : RaftConfig) (failType : UInt8) : Option Command :=
  match flags.strSplit config.addr ':' with
  | [_, port] =>
      some
        { id := toString config.id
          port
          peers := spawnPeers config.peerAddrs
          failType := toString failType }
  | _ => none

/-- `main` of `node.cpp`; it exits on a flag that cannot be read and on an empty peer list. -/
def main (command : Command) : Option Process := do
  let id ← flags.parseUint16 command.id
  let port ← flags.parseUint16 command.port
  let failType ← flags.parseInt command.failType
  let parsed := flags.abslParseFlag command.peers {}
  if parsed.error.isSome ∨ parsed.out.values.isEmpty then none
  else
    let peers := parsed.out.values
    let world := insert (toString id) (peers.keys.map toString).toFinset
    some
      { config := { id := id.toUInt64, addr := "0.0.0.0:" ++ toString port, peerAddrs := peers }
        net := NetInterceptor.unset.prepare world failType }

/-- The process that a config ends up in. -/
def start (config : RaftConfig) (failType : UInt8) : Option Process :=
  (flags.spawnRaftNode config failType).bind flags.main

/-- A flag is read as the number it was printed from. -/
structure Lawful : Prop where
  absl : flags.toAbsl.Lawful
  parseUint16 : ∀ n : UInt16, flags.parseUint16 (toString n) = some n
  parseInt : ∀ n : UInt8, flags.parseInt (toString n) = some n.toNat

/-- The functions on numbers without blanks or a sign. -/
def simple : Flags where
  toAbsl := Absl.simple
  parseUint16 text :=
    match Absl.simple.simpleAtoi text with
    | some value => if value.toNat < 2 ^ 16 then some value.toUInt16 else none
    | none => none
  parseInt text :=
    match Absl.simple.simpleAtoi text with
    | some value => if value.toNat < 2 ^ 31 then some value.toNat else none
    | none => none

theorem simple_lawful : simple.Lawful where
  absl := Absl.simple_lawful
  parseUint16 n := by
    have read : Absl.simple.simpleAtoi (toString n) = some n.toUInt64 :=
      Absl.simple_lawful.simpleAtoi n.toUInt64
    have small : n.toNat < 65536 := n.toNat_lt
    simp [simple, read, small]
  parseInt n := by
    have read : Absl.simple.simpleAtoi (toString n) = some n.toUInt64 :=
      Absl.simple_lawful.simpleAtoi n.toUInt64
    have small : n.toNat < 2147483648 := n.toNat_lt.trans (by decide)
    simp [simple, read, small]

end Flags

/-! ## Deployable instances -/

/-- An instance listens on the port under which the others call it. -/
structure Listens (inst : RaftInstanceConfig) (port : UInt16) : Prop where
  listening : ∃ host : String, ':' ∉ host.toList ∧
    inst.listeningAddr = host ++ ":" ++ toString port
  external : ∃ name : String, inst.externalAddr = name ++ ":" ++ toString port
  clean : ',' ∉ inst.externalAddr.toList ∧ '+' ∉ inst.externalAddr.toList

/-- Two instances at least, with ids of their own that fit the flag. -/
structure Deployable (instances : List RaftInstanceConfig) : Prop where
  several : 2 ≤ instances.length
  nodup : (instances.map RaftInstanceConfig.id).Nodup
  small : ∀ inst ∈ instances, inst.id.toNat < 2 ^ 16
  listens : ∀ inst ∈ instances, ∃ port, Listens inst port

/-- The cluster of the instances. -/
def Deployable.cluster {instances : List RaftInstanceConfig} (deployable : Deployable instances) :
    Cluster where
  ids := instances.map fun inst => inst.id.toNat
  nodup := by
    have distinct := deployable.nodup.map fun _ _ => UInt64.toNat_inj.mp
    rwa [List.map_map] at distinct
  small a member := by
    obtain ⟨inst, isInst, rfl⟩ := List.mem_map.mp member
    exact (deployable.small inst isInst).trans (by decide)

/-- No instance is alone. -/
theorem Deployable.exists_other {instances : List RaftInstanceConfig}
    (deployable : Deployable instances) (id : UInt64) : ∃ other ∈ instances, other.id ≠ id := by
  have several := deployable.several
  have nodup := deployable.nodup
  match instances with
  | first :: second :: rest =>
      by_cases own : first.id = id
      · refine ⟨second, by simp, ?_⟩
        rintro rfl
        simp [own] at nodup
      · exact ⟨first, by simp, own⟩

/-! ## The peers of an instance -/

namespace ConfigGen

variable {instances : List RaftInstanceConfig} {id : UInt64}

/-- The other instances, with the addresses under which they are called. -/
def others (instances : List RaftInstanceConfig) (id : UInt64) : List (UInt64 × String) :=
  (instances.filter (·.id ≠ id)).map fun peer => (peer.id, peer.externalAddr)

theorem mem_others {entry : UInt64 × String} : entry ∈ others instances id ↔
    ∃ peer ∈ instances, peer.id ≠ id ∧ (peer.id, peer.externalAddr) = entry := by
  simp [others, and_assoc]

theorem peersOf_eq (instances : List RaftInstanceConfig) (id : UInt64) :
    peersOf instances id = (∅ : AddrMap).insertMany (others instances id) := by
  have folded : ∀ start : AddrMap, instances.foldl
      (fun peers peer => if peer.id ≠ id then peers.insert peer.id peer.externalAddr else peers)
      start = start.insertMany (others instances id) := by
    induction instances with
    | nil => exact fun _ => rfl
    | cons peer rest ih =>
        intro start
        rw [List.foldl_cons, ih]
        by_cases own : peer.id = id
        · simp [others, own]
        · simp [others, own, Std.ExtTreeMap.insertMany_cons]
  exact folded ∅

theorem getElem?_peersOf (nodup : (instances.map RaftInstanceConfig.id).Nodup)
    {peer : RaftInstanceConfig} (member : peer ∈ instances) (other : peer.id ≠ id) :
    (peersOf instances id)[peer.id]? = some peer.externalAddr := by
  rw [peersOf_eq]
  refine Std.ExtTreeMap.getElem?_insertMany_list_of_mem Std.ReflCmp.compare_self ?_
    (mem_others.mpr ⟨peer, member, other, rfl⟩)
  -- the ids are distinct, those of the others too
  have distinct : (instances.filter (·.id ≠ id)).Pairwise (·.id ≠ ·.id) :=
    (List.pairwise_map.mp nodup).filter _
  rw [others, List.pairwise_map]
  exact distinct.imp fun ne same => ne (Std.LawfulEqCmp.eq_of_compare same)

theorem mem_peersOf {key : UInt64} : key ∈ peersOf instances id ↔
    ∃ peer ∈ instances, peer.id ≠ id ∧ peer.id = key := by
  rw [peersOf_eq, Std.ExtTreeMap.mem_insertMany_list]
  simp only [Std.ExtTreeMap.not_mem_empty, false_or, List.contains_iff_mem, List.mem_map,
    mem_others]
  constructor
  · rintro ⟨_, ⟨peer, member, other, rfl⟩, rfl⟩
    exact ⟨peer, member, other, rfl⟩
  · rintro ⟨peer, member, other, rfl⟩
    exact ⟨_, ⟨peer, member, other, rfl⟩, rfl⟩

/-- What is in the map is the address of an instance. -/
theorem addr_of_peersOf {key : UInt64} {addr : String}
    (nodup : (instances.map RaftInstanceConfig.id).Nodup)
    (held : (peersOf instances id)[key]? = some addr) :
    ∃ peer ∈ instances, peer.externalAddr = addr := by
  have inside : key ∈ peersOf instances id := by
    rw [Std.ExtTreeMap.mem_iff_isSome_getElem?, held]
    rfl
  obtain ⟨peer, member, other, rfl⟩ := mem_peersOf.mp inside
  exact ⟨peer, member, Option.some.inj ((getElem?_peersOf nodup member other).symm.trans held)⟩

/-! ### What the generators give -/

theorem toString_uint64 {n : UInt64} {port : UInt16} (same : n.toNat = port.toNat) :
    toString n = toString port := by
  have number : n = port.toUInt64 := UInt64.toNat_inj.mp same
  rw [number]
  rfl

/-- Ids that are positions in a list of at most 2^16. -/
theorem small_id {i n : Nat} (inside : i < n) (fits : n ≤ 2 ^ 16) :
    (UInt64.ofNat i).toNat = i ∧ i < 2 ^ 16 := by
  have small : i < 2 ^ 16 := by omega
  exact ⟨by simp; omega, small⟩

theorem nodup_ids {n : Nat} (fits : n ≤ 2 ^ 16) : ((List.range n).map UInt64.ofNat).Nodup := by
  refine List.nodup_range.map_on ?_
  intro i inside j inside' same
  have first := (small_id (List.mem_range.mp inside) fits).1
  have second := (small_id (List.mem_range.mp inside') fits).1
  rw [← first, ← second, same]

theorem deployable_local {numInstances startPort : UInt64} (several : 2 ≤ numInstances.toNat)
    (fits : numInstances.toNat ≤ 2 ^ 16)
    (ports : startPort.toNat + numInstances.toNat ≤ 2 ^ 16) :
    Deployable (genLocalInstances numInstances startPort) where
  several := by simpa [genLocalInstances] using several
  nodup := by
    rw [genLocalInstances, List.map_map]
    exact nodup_ids fits
  small inst member := by
    obtain ⟨i, inside, rfl⟩ := List.mem_map.mp member
    obtain ⟨same, small⟩ := small_id (List.mem_range.mp inside) fits
    exact same.trans_lt small
  listens inst member := by
    obtain ⟨i, inside, rfl⟩ := List.mem_map.mp member
    obtain ⟨same, -⟩ := small_id (List.mem_range.mp inside) fits
    rw [List.mem_range] at inside
    have number : toString (startPort + UInt64.ofNat i) =
        toString (UInt16.ofNat (startPort.toNat + i)) := by
      apply toString_uint64
      rw [UInt64.toNat_add, same, UInt16.toNat_ofNat']
      omega
    have digits := fun c other => not_mem_toString (c := c) other (startPort + UInt64.ofNat i)
    refine ⟨UInt16.ofNat (startPort.toNat + i), ⟨"localhost", by decide, ?_⟩, ⟨"localhost", ?_⟩, ?_⟩
    · rw [← number]
      rfl
    · rw [← number]
      rfl
    · simp only [String.toList_append, List.mem_append, not_or]
      exact ⟨⟨by decide, digits ',' rfl⟩, by decide, digits '+' rfl⟩

theorem deployable_net {addrs : List String} {listeningPort : UInt64} (several : 2 ≤ addrs.length)
    (fits : addrs.length ≤ 2 ^ 16) (port : listeningPort.toNat < 2 ^ 16)
    (clean : ∀ addr ∈ addrs, ',' ∉ addr.toList ∧ '+' ∉ addr.toList) :
    Deployable (genNetInstances addrs listeningPort) where
  several := by simpa [genNetInstances] using several
  nodup := by
    have positions : (genNetInstances addrs listeningPort).map RaftInstanceConfig.id =
        (List.range addrs.length).map UInt64.ofNat := by
      rw [List.range_eq_range', ← List.zipIdx_map_snd 0 addrs, genNetInstances, List.map_map,
        List.map_map]
      rfl
    rw [positions]
    exact nodup_ids fits
  small inst member := by
    obtain ⟨⟨addr, i⟩, inside, rfl⟩ := List.mem_map.mp member
    have below := (List.mem_zipIdx inside).2.1
    obtain ⟨same, small⟩ := small_id (show i < addrs.length by omega) fits
    exact same.trans_lt small
  listens inst member := by
    obtain ⟨⟨addr, i⟩, inside, rfl⟩ := List.mem_map.mp member
    have number : toString listeningPort = toString (UInt16.ofNat listeningPort.toNat) := by
      apply toString_uint64
      rw [UInt16.toNat_ofNat']
      omega
    have digits := fun c other => not_mem_toString (c := c) other listeningPort
    have plain := clean addr (List.fst_mem_of_mem_zipIdx inside)
    refine ⟨UInt16.ofNat listeningPort.toNat, ⟨"0.0.0.0", by decide, ?_⟩, ⟨addr, ?_⟩, ?_⟩
    · rw [← number]
      rfl
    · rw [← number]
    · simp only [String.toList_append, List.mem_append, not_or]
      exact ⟨⟨⟨plain.1, by decide⟩, digits ',' rfl⟩, ⟨plain.2, by decide⟩, digits '+' rfl⟩

end ConfigGen

/-! ## Start -/

variable {flags : Flags} {instances : List RaftInstanceConfig} {inst : RaftInstanceConfig}
  {port : UInt16}

/-- The port comes out of `host:port`. -/
theorem strSplit_listening (lawful : flags.Lawful) (listens : Listens inst port) :
    ∃ host, flags.strSplit inst.listeningAddr ':' = [host, toString port] := by
  obtain ⟨host, noColon, same⟩ := listens.listening
  have digits : ':' ∉ (toString port).toList := not_mem_toString rfl port.toUInt64
  have pieces : inst.listeningAddr.toList =
      [':'].intercalate [host.toList, (toString port).toList] := by
    simp [same]
  refine ⟨host, ?_⟩
  rw [lawful.absl.strSplit, pieces, List.splitOn_intercalate ':' (by simp [noColon, digits])
    (by simp)]
  simp

/-- The peers are read from the command line as they were written. -/
theorem peers_read (lawful : flags.Lawful) (deployable : Deployable instances)
    (inst : RaftInstanceConfig) :
    ConfigGen.peersOf instances inst.id ≠ ∅ ∧
      flags.abslParseFlag (spawnPeers (ConfigGen.peersOf instances inst.id)) {} =
        { out := { values := ConfigGen.peersOf instances inst.id } } := by
  have nonempty : ConfigGen.peersOf instances inst.id ≠ ∅ := by
    obtain ⟨other, isOther, differs⟩ := deployable.exists_other inst.id
    intro empty
    have inside := ConfigGen.mem_peersOf.mpr ⟨other, isOther, differs, rfl⟩
    rw [empty] at inside
    exact Std.ExtTreeMap.not_mem_empty inside
  refine ⟨nonempty, ?_⟩
  have clean : PeerAddrs.Clean { values := ConfigGen.peersOf instances inst.id } := by
    intro key addr held
    obtain ⟨peer, isPeer, rfl⟩ := ConfigGen.addr_of_peersOf deployable.nodup held
    obtain ⟨_, listens⟩ := deployable.listens peer isPeer
    exact listens.clean
  refine parse_of_rows lawful.absl ?_
  rw [spawnPeers_toList]
  exact Theory.splitRows_joinRows (rows_ne_nil nonempty) (by decide) clean.plain

/-- **What a config ends up as.** -/
theorem start_eq (lawful : flags.Lawful) (deployable : Deployable instances)
    (member : inst ∈ instances) (listens : Listens inst port) (failType : UInt8) :
    flags.start (ConfigGen.genRaftConfig instances inst) failType =
      some
        { config :=
            { id := inst.id
              addr := "0.0.0.0:" ++ toString port
              peerAddrs := ConfigGen.peersOf instances inst.id }
          net := NetInterceptor.unset.prepare
            (TestNet.world deployable.cluster.ids.toFinset) failType.toNat } := by
  obtain ⟨host, split⟩ := strSplit_listening lawful listens
  obtain ⟨nonempty, read⟩ := peers_read lawful deployable inst
  have small := deployable.small inst member
  have sameId : inst.id.toUInt16.toUInt64 = inst.id := by
    rw [← UInt64.toNat_inj]
    simp
    omega
  have readId : flags.parseUint16 (toString inst.id) = some inst.id.toUInt16 := by
    rw [← lawful.parseUint16]
    conv_lhs => rw [← sameId]
    rfl
  have world : insert (toString inst.id.toUInt16)
      ((ConfigGen.peersOf instances inst.id).keys.map toString).toFinset =
        TestNet.world deployable.cluster.ids.toFinset := by
    have own : toString inst.id.toUInt16 = toString inst.id.toNat := by
      conv_rhs => rw [← sameId]
      rfl
    ext name
    simp only [TestNet.world, Deployable.cluster, own, Finset.mem_insert, List.mem_toFinset,
      List.mem_map, Finset.mem_image, Std.ExtTreeMap.mem_keys, ConfigGen.mem_peersOf]
    constructor
    · rintro (rfl | ⟨_, ⟨peer, isPeer, -, rfl⟩, rfl⟩)
      · exact ⟨_, ⟨inst, member, rfl⟩, rfl⟩
      · exact ⟨_, ⟨peer, isPeer, rfl⟩, rfl⟩
    · rintro ⟨_, ⟨peer, isPeer, rfl⟩, rfl⟩
      by_cases same : peer.id = inst.id
      · exact Or.inl (by rw [same])
      · exact Or.inr ⟨_, ⟨peer, isPeer, same, rfl⟩, rfl⟩
  simp [Flags.start, Flags.spawnRaftNode, Flags.main, ConfigGen.genRaftConfig, split, readId,
    lawful.parseUint16, lawful.parseInt, read, nonempty, sameId, world]

/-- What `connect_peers` makes of a config: the keys of `peers_`, which are in no order. -/
def RaftConfig.node (config : RaftConfig) : Config where
  id := config.id.toNat
  peers := config.peerAddrs.keys.map UInt64.toNat

/-- **The processes are a cluster.**  Every instance ends up in a process; its node has its id
and all the others as peers; under the address it has for one of them that one listens; and its
interceptor is prepared for the world of all nodes, with the failure type of the test. -/
theorem deployed_cluster (lawful : flags.Lawful) (deployable : Deployable instances)
    (failType : UInt8) {config : RaftConfig}
    (member : config ∈ ConfigGen.genRaftConfigs instances) :
    ∃ process, flags.start config failType = some process ∧
      process.config.node.id = config.id.toNat ∧
      process.config.node.peers.Perm (deployable.cluster.config config.id.toNat).peers ∧
      (∀ other ∈ ConfigGen.genRaftConfigs instances, other.id ≠ config.id →
        ∃ there name port, flags.start other failType = some there ∧
          there.config.addr = "0.0.0.0:" ++ toString (port : UInt16) ∧
          process.config.peerAddrs[other.id]? = some (name ++ ":" ++ toString port)) ∧
      process.net = NetInterceptor.unset.prepare
        (TestNet.world deployable.cluster.ids.toFinset) failType.toNat := by
  obtain ⟨inst, isInst, rfl⟩ := List.mem_map.mp member
  obtain ⟨_, listens⟩ := deployable.listens inst isInst
  refine ⟨_, start_eq lawful deployable isInst listens failType, rfl, ?_, ?_, rfl⟩
  · refine (List.perm_ext_iff_of_nodup ?_ Cluster.nodup_peers).mpr ?_
    · exact Std.ExtTreeMap.nodup_keys.map fun _ _ => UInt64.toNat_inj.mp
    intro id
    rw [Cluster.mem_peers]
    simp only [RaftConfig.node, Deployable.cluster, List.mem_map, Std.ExtTreeMap.mem_keys,
      ConfigGen.mem_peersOf]
    constructor
    · rintro ⟨_, ⟨peer, isPeer, other, rfl⟩, rfl⟩
      exact ⟨⟨peer, isPeer, rfl⟩, fun same => other (UInt64.toNat_inj.mp same)⟩
    · rintro ⟨⟨peer, isPeer, rfl⟩, other⟩
      exact ⟨_, ⟨peer, isPeer, fun same => other (congrArg UInt64.toNat same), rfl⟩, rfl⟩
  · intro _ isOther other
    obtain ⟨peer, isPeer, rfl⟩ := List.mem_map.mp isOther
    obtain ⟨port, listening⟩ := deployable.listens peer isPeer
    obtain ⟨name, external⟩ := listening.external
    refine ⟨_, name, port, start_eq lawful deployable isPeer listening failType, rfl, ?_⟩
    rw [← external]
    exact ConfigGen.getElem?_peersOf deployable.nodup isPeer other

theorem deployed_cluster_of_three :
    ∃ config ∈ ConfigGen.genRaftConfigs (ConfigGen.genLocalInstances 3 50051), ∃ process,
      Flags.simple.start config 1 = some process ∧ process.config.node.id = 1 ∧
        process.config.node.peers.Perm [0, 2] := by
  have deployable : Deployable (ConfigGen.genLocalInstances 3 50051) :=
    ConfigGen.deployable_local (by decide) (by decide) (by decide)
  let instances := ConfigGen.genLocalInstances 3 50051
  have member : ⟨1, "localhost:50052", "localhost:50052"⟩ ∈ instances := by decide +kernel
  have isConfig := List.mem_map_of_mem (f := ConfigGen.genRaftConfig instances) member
  obtain ⟨process, started, id, peers, -⟩ :=
    deployed_cluster Flags.simple_lawful deployable 1 isConfig
  exact ⟨_, isConfig, process, started, id, peers⟩

end Rafty.Toolings
