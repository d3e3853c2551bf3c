/-
# Rafty.Toolings.Peers — the peer list of a node, as text and back

The `--peers` flag of `node.cpp`: a map from node ids to addresses, written `id+addr` with
commas between.  There are two writers, `AbslUnparseFlag` and the command line that
`RaftTestCtrl::spawn_raft_node` builds, and one reader, `AbslParseFlag`.

* `AbslParseFlag` assigns the entries up to the first part it refuses (`parseParts_eq`),
  and its error names that part or its id;
* the text cut from the stream of `spawn_raft_node` is that of `AbslUnparseFlag`
  (`spawnPeers_eq`);
* `round_trip`: a map that is not empty, of addresses without separators, is read back
  from either text.

Abseil's functions are parameters.  `Absl.Lawful` says that they split and join at every
separator and that the number read from a printed `uint64` is that `uint64`.
-/
import Rafty.Theory.Delimited
import Mathlib

namespace Rafty.Toolings

set_option autoImplicit false

open Theory

/-! ## The flag -/

/-- `std::map<uint64_t, std::string>`: `toList` has the entries in the order of the ids. -/
abbrev AddrMap := Std.ExtTreeMap UInt64 String

structure PeerAddrs where
  values : AddrMap := ∅

/-- `absl::StrSplit`, `absl::StrJoin` and `absl::SimpleAtoi`. -/
structure Absl where
  strSplit : String → Char → List String
  strJoin : List String → String → String
  simpleAtoi : String → Option UInt64

/-- What a call of `AbslParseFlag` leaves in `out`; its error when it returns false. -/
structure Parsed where
  out : PeerAddrs
  error : Option String := none

namespace Absl

variable (absl : Absl)

/-- The loop of `AbslParseFlag` over the parts. -/
def parseParts : List String → PeerAddrs → Parsed
  | [], out => { out }
  | part :: parts, out =>
      match absl.strSplit part '+' with
      | [id, addr] =>
          match absl.simpleAtoi id with
          | some key => parseParts parts { values := out.values.insert key addr }
          | none => { out, error := some ("Invalid peer id: " ++ id) }
      | _ => { out, error := some ("Invalid peer address: " ++ part) }

def abslParseFlag (text : String) (out : PeerAddrs) : Parsed :=
  if text.isEmpty then { out } else absl.parseParts (absl.strSplit text ',') out

def abslUnparseFlag (flag : PeerAddrs) : String :=
  let parts := flag.values.toList.map fun (id, addr) => toString id ++ "+" ++ addr
  if parts.isEmpty then "" else absl.strJoin parts ","

end Absl

/-- `text.substr(0, count)`. -/
def substr (text : String) (count : Nat) : String := String.ofList (text.toList.take count)

/-- The `--peers` text of `spawn_raft_node`.  On an empty stream the source's count wraps
around, and nothing is left either way. -/
def spawnPeers (peerAddrs : AddrMap) : String :=
  let ss := peerAddrs.toList.foldl
    (fun ss (id, addr) => ss ++ toString id ++ "+" ++ addr ++ ",") ""
  substr ss (ss.length - 1)

/-! ## The reader -/

theorem toString_toList (id : UInt64) : (toString id).toList = Nat.toDigits 10 id.toNat :=
  Nat.toList_repr

namespace Absl

variable (absl : Absl)

/-- The entry a part stands for. -/
def entry (part : String) : Option (UInt64 × String) :=
  match absl.strSplit part '+' with
  | [id, addr] => (absl.simpleAtoi id).map (·, addr)
  | _ => none

/-- The error for a part that stands for none. -/
def refusal (part : String) : String :=
  match absl.strSplit part '+' with
  | [id, _] => "Invalid peer id: " ++ id
  | _ => "Invalid peer address: " ++ part

theorem parseParts_cons (part : String) (parts : List String) (out : PeerAddrs) :
    absl.parseParts (part :: parts) out =
      match absl.entry part with
      | some (id, addr) => absl.parseParts parts { values := out.values.insert id addr }
      | none => { out, error := some (absl.refusal part) } := by
  simp only [parseParts, entry, refusal]
  rcases absl.strSplit part '+' with _ | ⟨id, _ | ⟨addr, _ | _⟩⟩
  case cons.cons.nil => cases read : absl.simpleAtoi id <;> simp [read]
  all_goals rfl

/-- The entries before the first refused part are assigned, in their order. -/
theorem parseParts_eq (parts : List String) (out : PeerAddrs) :
    absl.parseParts parts out =
      { out.values := out.values.insertMany
          ((parts.takeWhile fun part => (absl.entry part).isSome).filterMap absl.entry)
        error := (parts.find? fun part => (absl.entry part).isNone).map absl.refusal } := by
  induction parts generalizing out with
  | nil => rfl
  | cons part parts ih =>
      rw [parseParts_cons]
      cases read : absl.entry part with
      | none => simp [read]
      | some entry =>
          obtain ⟨id, addr⟩ := entry
          simp [read, ih, Std.ExtTreeMap.insertMany_cons]

/-- Parts that all stand for an entry are accepted. -/
theorem parseParts_accepts {parts : List String} {entries : List (UInt64 × String)}
    (read : parts.map absl.entry = entries.map some) (out : PeerAddrs) :
    absl.parseParts parts out = { out.values := out.values.insertMany entries } := by
  have accepted : ∀ part ∈ parts, (absl.entry part).isSome := by
    intro part isPart
    have isEntry : absl.entry part ∈ entries.map some := read ▸ List.mem_map_of_mem isPart
    obtain ⟨entry, _, same⟩ := List.mem_map.mp isEntry
    rw [← same, Option.isSome_some]
  have none_refused : (parts.find? fun part => (absl.entry part).isNone) = none := by
    rw [List.find?_eq_none]
    intro part isPart
    simp [Option.isNone_iff_eq_none, Option.ne_none_iff_isSome.mpr (accepted part isPart)]
  have all_taken : parts.filterMap absl.entry = entries := by
    calc parts.filterMap absl.entry
        = (parts.map absl.entry).filterMap id := by rw [List.filterMap_map, Function.id_comp]
      _ = entries := by rw [read, List.filterMap_map, Function.id_comp, List.filterMap_some]
  rw [parseParts_eq, none_refused, List.takeWhile_eq_self_iff.mpr accepted, all_taken]
  rfl

/-- The functions split and join at every separator, and `simpleAtoi` inverts the decimal
printing of a `uint64`. -/
structure Lawful : Prop where
  strSplit : ∀ text sep, absl.strSplit text sep = (text.toList.splitOn sep).map String.ofList
  strJoin : ∀ parts sep, absl.strJoin parts sep = sep.intercalate parts
  simpleAtoi : ∀ id : UInt64, absl.simpleAtoi (toString id) = some id

/-- The three functions, on numbers without blanks or a sign. -/
def simple : Absl where
  strSplit text sep := (text.toList.splitOn sep).map String.ofList
  strJoin parts sep := sep.intercalate parts
  simpleAtoi text :=
    let value := Nat.ofDigitChars 10 text.toList 0
    if !text.isEmpty && text.toList.all Char.isDigit && value < 2 ^ 64 then
      some (UInt64.ofNat value)
    else none

theorem simple_lawful : simple.Lawful where
  strSplit _ _ := rfl
  strJoin _ _ := rfl
  simpleAtoi id := by
    have nonempty : (toString id).isEmpty = false := by
      simp [← String.toList_eq_nil_iff, toString_toList]
    have digits : (toString id).toList.all Char.isDigit = true := by
      rw [toString_toList, List.all_eq_true]
      exact fun c mem => Nat.isDigit_of_mem_toDigits (by decide) (by decide) mem
    have value : Nat.ofDigitChars 10 (toString id).toList 0 = id.toNat := by
      rw [toString_toList, Nat.ofDigitChars_ten_toDigits]
    have small : id.toNat < 2 ^ 64 := id.toNat_lt
    simp only [simple, nonempty, digits, value, small]
    simp

/-- The entry two fields stand for. -/
def readRow (row : List (List Char)) : Option (UInt64 × String) :=
  match row.map String.ofList with
  | [id, addr] => (absl.simpleAtoi id).map (·, addr)
  | _ => none

end Absl

/-- The fields an entry is written as. -/
def fields (entry : UInt64 × String) : List (List Char) :=
  [(toString entry.1).toList, entry.2.toList]

def rows (values : AddrMap) : List (List (List Char)) := values.toList.map fields

namespace Absl.Lawful

variable {absl : Absl} (lawful : absl.Lawful)
include lawful

theorem readRow_fields (entry : UInt64 × String) : absl.readRow (fields entry) = some entry := by
  simp [readRow, fields, lawful.simpleAtoi]

/-- The parts of a text stand for its rows. -/
theorem entries_eq (text : String) :
    (absl.strSplit text ',').map absl.entry =
      (splitRows ',' '+' text.toList).map absl.readRow := by
  rw [lawful.strSplit, splitRows, List.map_map, List.map_map]
  refine List.map_congr_left fun part _ => ?_
  simp only [Function.comp_apply, entry, readRow, lawful.strSplit, String.toList_ofList]

end Absl.Lawful

/-- The entries of a map, assigned in turn, are the map. -/
theorem insertMany_toList (values : AddrMap) :
    (∅ : AddrMap).insertMany values.toList = values := by
  rw [← Std.ExtTreeMap.ofList_eq_insertMany_empty]
  refine Std.ExtTreeMap.ext_getElem? fun id => ?_
  cases held : values[id]? with
  | some addr =>
      exact Std.ExtTreeMap.getElem?_ofList_of_mem Std.ReflCmp.compare_self
        Std.ExtTreeMap.distinct_keys_toList
        (Std.ExtTreeMap.mem_toList_iff_getElem?_eq_some.mpr held)
  | none =>
      refine Std.ExtTreeMap.getElem?_ofList_of_contains_eq_false ?_
      simpa using held

/-! ## The writers -/

theorem entryText_toList (entry : UInt64 × String) :
    (toString entry.1 ++ "+" ++ entry.2).toList = ['+'].intercalate (fields entry) := by
  simp [fields]

theorem unparse_toList {absl : Absl} (lawful : absl.Lawful) (flag : PeerAddrs) :
    (absl.abslUnparseFlag flag).toList = joinRows ',' '+' (rows flag.values) := by
  have text : absl.abslUnparseFlag flag =
      String.intercalate ","
        (flag.values.toList.map fun entry => toString entry.1 ++ "+" ++ entry.2) := by
    unfold Absl.abslUnparseFlag
    cases flag.values.toList with
    | nil => rfl
    | cons => simp [lawful.strJoin]
  rw [text, String.toList_intercalate, joinRows, rows, List.map_map, List.map_map]
  congr 1
  exact List.map_congr_left fun entry _ => entryText_toList entry

/-- The stream of `spawn_raft_node` has a comma after every peer. -/
theorem stream_toList (entries : List (UInt64 × String)) (ss : String) :
    (entries.foldl (fun ss (id, addr) => ss ++ toString id ++ "+" ++ addr ++ ",") ss).toList =
      ss.toList ++ endRows ',' '+' (entries.map fields) := by
  induction entries generalizing ss with
  | nil => simp [endRows, ended]
  | cons entry entries ih =>
      rw [List.foldl_cons, ih]
      simp [endRows, ended_cons, fields]

theorem spawnPeers_toList (values : AddrMap) :
    (spawnPeers values).toList = joinRows ',' '+' (rows values) := by
  unfold spawnPeers substr
  rw [String.toList_ofList, ← String.length_toList, ← List.dropLast_eq_take, stream_toList]
  exact dropLast_endRows _

/-- The text cut from the stream is the one `AbslUnparseFlag` joins. -/
theorem spawnPeers_eq {absl : Absl} (lawful : absl.Lawful) (flag : PeerAddrs) :
    spawnPeers flag.values = absl.abslUnparseFlag flag :=
  String.toList_inj.mp ((spawnPeers_toList flag.values).trans (unparse_toList lawful flag).symm)

/-! ## The round trip -/

/-- No address holds a separator. -/
def PeerAddrs.Clean (flag : PeerAddrs) : Prop :=
  ∀ (id : UInt64) (addr : String), flag.values[id]? = some addr →
    ',' ∉ addr.toList ∧ '+' ∉ addr.toList

theorem not_mem_toString {c : Char} (other : c.isDigit = false) (id : UInt64) :
    c ∉ (toString id).toList := by
  intro mem
  rw [toString_toList] at mem
  have digit : c.isDigit = true := Nat.isDigit_of_mem_toDigits (by decide) (by decide) mem
  exact Bool.false_ne_true (other.symm.trans digit)

theorem PeerAddrs.Clean.plain {flag : PeerAddrs} (clean : flag.Clean) :
    ∀ row ∈ rows flag.values, Plain ',' '+' row := by
  intro row inRows
  obtain ⟨⟨id, addr⟩, held, rfl⟩ := List.mem_map.mp inRows
  have ⟨noComma, noPlus⟩ := clean id addr (Std.ExtTreeMap.mem_toList_iff_getElem?_eq_some.mp held)
  refine ⟨List.cons_ne_nil _ _, ?_, ?_⟩
  · simpa [fields] using ⟨not_mem_toString rfl id, noComma⟩
  · simpa [fields] using ⟨not_mem_toString rfl id, noPlus⟩

theorem rows_ne_nil {values : AddrMap} (nonempty : values ≠ ∅) : rows values ≠ [] := by
  simpa [rows] using nonempty

/-- The empty text has no row of an entry. -/
theorem ne_empty_of_rows {values : AddrMap} {text : String}
    (rowsOf : splitRows ',' '+' text.toList = rows values) : text.isEmpty = false := by
  by_contra empty
  have blank : text = "" := by simpa using empty
  subst blank
  cases entries : values.toList with
  | nil => simp [splitRows, rows, entries] at rowsOf
  | cons => simp [splitRows, rows, fields, entries] at rowsOf

/-- A text whose rows are the entries of a map is read as the map. -/
theorem parse_of_rows {absl : Absl} (lawful : absl.Lawful) {values : AddrMap} {text : String}
    (rowsOf : splitRows ',' '+' text.toList = rows values) :
    absl.abslParseFlag text {} = { out := { values } } := by
  have entries : (absl.strSplit text ',').map absl.entry = values.toList.map some := by
    rw [lawful.entries_eq, rowsOf, rows, List.map_map]
    exact List.map_congr_left fun entry _ => lawful.readRow_fields entry
  rw [Absl.abslParseFlag, ne_empty_of_rows rowsOf, if_neg Bool.false_ne_true,
    absl.parseParts_accepts entries, insertMany_toList]

namespace PeerAddrs

def twoPeers : PeerAddrs where
  values := ((∅ : AddrMap).insert 1 "localhost:50051").insert 2 "localhost:50052"

theorem twoPeers_ne_empty : twoPeers.values ≠ ∅ := Std.ExtTreeMap.insert_ne_empty

theorem twoPeers_clean : twoPeers.Clean := by
  intro id addr held
  simp only [twoPeers, Std.ExtTreeMap.getElem?_insert] at held
  split at held
  · cases held
    decide
  · split at held
    · cases held
      decide
    · cases held

/-- Either text of a map is read back as the map. -/
theorem round_trip {absl : Absl} (lawful : absl.Lawful) {flag : PeerAddrs}
    (nonempty : flag.values ≠ ∅) (clean : flag.Clean) :
    absl.abslParseFlag (absl.abslUnparseFlag flag) {} = { out := flag } ∧
      absl.abslParseFlag (spawnPeers flag.values) {} = { out := flag } := by
  have rowsOf : splitRows ',' '+' (absl.abslUnparseFlag flag).toList = rows flag.values := by
    rw [unparse_toList lawful]
    exact splitRows_joinRows (rows_ne_nil nonempty) (by decide) clean.plain
  have parsed : absl.abslParseFlag (absl.abslUnparseFlag flag) {} = { out := flag } :=
    parse_of_rows lawful rowsOf
  exact ⟨parsed, spawnPeers_eq lawful flag ▸ parsed⟩

theorem round_trip_of_twoPeers :
    Absl.simple.abslParseFlag (Absl.simple.abslUnparseFlag twoPeers) {} = { out := twoPeers } ∧
      Absl.simple.abslParseFlag (spawnPeers twoPeers.values) {} = { out := twoPeers } :=
  round_trip Absl.simple_lawful twoPeers_ne_empty twoPeers_clean

end PeerAddrs

end Rafty.Toolings
