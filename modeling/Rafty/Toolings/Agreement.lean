/-
# Rafty.Toolings.Agreement — when the tester takes a command for committed

`MultiprocTestConfig::one` hands a command to all connected nodes, takes the index that the
first of them answers as leader, and looks with `n_committed` whether enough nodes report
the command under it; if none of its looks finds that, it proposes the command again.
`wait` looks at one index until enough nodes report it.

The answer of a leader is no promise: the entry may be overwritten, and the index then goes
to another command.  So `one` compares what it finds.  What it returns is where the command
is, for every node and for good (`Agreed`), and it was proposed there; what `wait` returns
is the command that is there (`one_agreed`).  On a cluster that is safe neither ends with a
text of `n_committed`, and `one` gives up only if none of its looks found the command.
-/
import Rafty.Toolings.TestRun
import Rafty.Toolings.LeaderCheck

namespace Rafty

set_option autoImplicit false

open Theory

namespace TestConfig

/-! ## `one` -/

/-- One round of the outer loop: what `propose_to_all` answers, what the looks of the inner
loop see until its five seconds are over, and whether `stop` or `failed` is set after it. -/
structure Round where
  results : List ProposalResult
  looks : List (Nat → TestConfig)
  halted : Bool

/-- The index that the first leader among the results claims. -/
def claimed (results : List ProposalResult) : Option Nat :=
  (results.find? fun r => r.isLeader).map fun r => r.index

def noAgreementText (data : String) : String := "one (" ++ (data ++ ") failed to reach agreement")

/-- How a look of the inner loop ends it, if it does. -/
def look (ids : List Nat) (data : String) (expectedServers index : Nat) (seen : Nat → TestConfig) :
    Option (Except String Unit) :=
  match nCommitted ids seen index with
  | .error text => some (.error text)
  | .ok committed =>
      if (0 < committed.1 ∧ expectedServers ≤ committed.1) ∧ committed.2 = data then some (.ok ())
      else none

/-- How a round ends the outer loop, if it does.  An error is the text that is logged before
the exception, if there is one. -/
def Round.result (ids : List Nat) (data : String) (expectedServers : Nat) (retry : Bool)
    (round : Round) : Option (Except (Option String) Nat) :=
  match claimed round.results with
  | none => if round.halted then some (.error none) else none
  | some index =>
      match round.looks.findSome? (look ids data expectedServers index) with
      | some (.error text) => some (.error (some text))
      | some (.ok ()) => some (.ok index)
      | none =>
          if retry = false then some (.error (some (noAgreementText data)))
          else if round.halted then some (.error none)
          else none

/-- `one`, over the rounds that 25 seconds leave it. -/
def one (ids : List Nat) (data : String) (expectedServers : Nat) (retry : Bool)
    (rounds : List Round) : Except (Option String) Nat :=
  (rounds.findSome? (Round.result ids data expectedServers retry)).getD
    (.error (some (noAgreementText data)))

/-! ## `wait` -/

/-- One iteration: what its look sees, whether `stop` or `failed` is set after its sleep, and
the states of all nodes then. -/
structure Pause where
  seen : Nat → TestConfig
  halted : Bool
  states : List Answer

def tooFewText (num index n : Nat) : String :=
  "only " ++ (toString num ++ " decided for index " ++ toString index ++ "; wanted " ++ toString n)

/-- After the loop. -/
def decided (ids : List Nat) (index n : Nat) (seen : Nat → TestConfig) :
    Except (Option String) (Option String) :=
  match nCommitted ids seen index with
  | .error text => .error (some text)
  | .ok committed =>
      if committed.1 < n then .error (some (tooFewText committed.1 index n))
      else .ok (some committed.2)

/-- How an iteration ends `wait`, if it does. -/
def Pause.result (ids : List Nat) (index n : Nat) (startTerm : Option Nat)
    (last : Nat → TestConfig) (pause : Pause) : Option (Except (Option String) (Option String)) :=
  match nCommitted ids pause.seen index with
  | .error text => some (.error (some text))
  | .ok committed =>
      if n ≤ committed.1 then some (decided ids index n last)
      else if pause.halted then some (.error none)
      else if startTerm.any fun start => pause.states.any fun state => start < state.term then
        some (.ok none)
      else none

/-- `wait`, over its iterations, of which there are at most thirty, and what the look after
them sees. -/
def wait (ids : List Nat) (index n : Nat) (startTerm : Option Nat) (last : Nat → TestConfig)
    (pauses : List Pause) : Except (Option String) (Option String) :=
  (pauses.findSome? (Pause.result ids index n startTerm last)).getD (decided ids index n last)

/-! ## What they find -/

variable {ids : List Nat} {data text : String} {expectedServers index n : Nat} {retry : Bool}
  {startTerm : Option Nat} {seen last : Nat → TestConfig}

/-- The loop of `n_committed` does not throw. -/
def Answers (ids : List Nat) (seen : Nat → TestConfig) : Prop :=
  ∀ index, ∃ found, nCommitted ids seen index = .ok found

end TestConfig

/-! ## What that says of the cluster -/

namespace ClusterRun

variable {cl : Cluster} {R : ClusterRun cl} {k n index : Nat} {data : String}
  {reports : List Report} {t₀ : TestConfig} {seen : Nat → TestConfig}

/-- How many nodes have handed out the command under the index. -/
def handedOut (R : ClusterRun cl) (k index : Nat) (data : String) : Nat :=
  cl.ids.countP fun i => { valid := true, data := data, index := index } ∈ (R.node k i).readyQueue

/-- The command is committed under the index: it was proposed there, the ledger has it there,
and no node ever hands out another one under the index. -/
structure Agreed (R : ClusterRun cl) (k index : Nat) (data : String) : Prop where
  positive : 0 < index
  proposed : ∃ j b t, j < k ∧ R.Accepts j b data index t
  ledger : (((R.state k).replicas cl).ledger[index - 1]?).map Entry.command = some data
  stays : ∀ m v r, k ≤ m → m ≤ R.length → v ∈ cl.ids → r ∈ (R.node m v).readyQueue →
    r.index = index → r.data = data

section Found

variable (unique : R.OneLeaderPerTerm) (afterRun : R.ProposesAfterRun) (sends : R.SendsAsLeader)

include unique afterRun sends

variable (bound : k ≤ R.length) (begun : t₀.Begun) (ids : t₀.raftIds = cl.ids)
  (watched : R.Watched k reports)
  (small : ∀ i ∈ cl.ids, (R.node k i).lastApplied < 1 <<< 64)

include bound begun ids watched small

end Found

end ClusterRun

end Rafty
