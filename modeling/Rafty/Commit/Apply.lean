/-
# Rafty.Commit.Apply — what a node hands to its ready queue

A single node in an arbitrary environment: its threads run in any order, and any
request, any reply to a call of its own and any proposal may come in at any time
(`nodeMachine`).  Whatever the environment does to `commitIndex` and to the log, the
results handed out are numbered 1, 2, 3 and so on, each carries the command that the
log holds at its index when it is handed out, and no handler reads outside the log
(`apply_stream`).
-/
import Rafty.Kernel.Bounds
import Rafty.Replication.Provenance

namespace Rafty

set_option autoImplicit false

open Theory

/-- One node, from its construction on. -/
def nodeMachine (config : Config) : Machine Raft Input where
  init r := ∃ role, r = Raft.new role
  step r input := (r.step config input).map Prod.fst

/-- A run of one node. -/
abbrev NodeRun (config : Config) := Run (nodeMachine config)

namespace Raft

variable {config : Config} {r r' : Raft}

/-- Between `r` and `r'` the next entries are handed out, as the log of `r'` has them. -/
def HandsOut (r r' : Raft) (results : List ApplyResult) : Prop :=
  r'.readyQueue = r.readyQueue ++ results ∧
    r'.lastApplied = r.lastApplied + results.length ∧ Applied r'.log r.lastApplied results

/-- One section hands out the next entries, or none. -/
theorem step_handsOut {input : Input} {output : Output}
    (stepped : r.step config input = some (r', output)) : ∃ results, HandsOut r r' results := by
  cases step_advance stepped with
  | still same | elect _ same | record same | backUp _ _ _ same =>
      simp only [progress, Progress.mk.injEq] at same
      exact ⟨[], by simpa using same.2.2.1, same.2.1, .nil⟩
  | follow results _ _ _ _ applied _ same =>
      simp only [progress, Progress.mk.injEq] at same
      exact ⟨results, same.2.2.1, same.2.1, applied⟩
  | acknowledge _ results _ _ _ _ core _ applied same =>
      have log : r'.log = r.log := congrArg Core.log core
      simp only [progress, Progress.mk.injEq] at same
      exact ⟨results, same.2.2.1, same.2.1, log ▸ applied⟩

/-- The indices handed out together. -/
theorem Applied.indices {log : List Entry} {start : Nat} {results : List ApplyResult}
    (applied : Applied log start results) :
    results.map ApplyResult.index = List.range' (start + 1) results.length := by
  apply List.ext_getElem (by simp)
  intro p inside _
  have within : p < results.length := by simpa using inside
  obtain ⟨entry, -, same⟩ := applied p _ (List.getElem?_eq_getElem within)
  simp only [List.getElem_map, List.getElem_range', same]
  omega

end Raft

namespace NodeRun

variable {config : Config} {R : NodeRun config} {k : Nat}

theorem stepped (within : k < R.length) :
    ∃ output, (R.state k).step config (R.input k) = some (R.state (k + 1), output) := by
  have next := R.next k within
  simp only [nodeMachine, Option.map_eq_some_iff] at next
  obtain ⟨⟨r, output⟩, ran, same⟩ := next
  exact ⟨output, by rw [ran, ← same]⟩

theorem tenure {m : Nat} (le : k ≤ m) (bound : m ≤ R.length) :
    Raft.Tenure (R.state k) (R.state m) := by
  apply R.related R.state Raft.Tenure.refl (fun _ _ _ => .trans) ?_ le bound
  intro k within
  obtain ⟨output, ran⟩ := stepped within
  exact (Raft.step_change ran).tenure

/-- A waiting call was built by the node itself. -/
theorem sent_of_pending (bound : k ≤ R.length) {call : AppendCall}
    (pending : .awaitAppend call ∈ (R.state k).threads) :
    ∃ j, j < k ∧ Raft.Sends config (R.state j) call.target call := by
  obtain ⟨j, lt, before, after⟩ := R.exists_step (P := fun r => .awaitAppend call ∈ r.threads)
    (fun r init => by
      obtain ⟨role, isNew⟩ := init
      simp [isNew, Raft.new]) pending
  obtain ⟨output, ran⟩ := stepped (show j < R.length by omega)
  generalize R.input j = input at ran
  cases (Raft.step_threads ran after).resolve_left before with
  | awaitAppend built =>
      have sends := Raft.sends_of_appendCall built
      exact ⟨j, lt, sends.receiver ▸ sends⟩

/-- While the node leads in the term of a request it built, its log covers it. -/
theorem covers (bound : k ≤ R.length) {call : AppendCall}
    (pending : .awaitAppend call ∈ (R.state k).threads) : (R.state k).Covers call := by
  obtain ⟨j, lt, sends⟩ := sent_of_pending bound pending
  exact sends.covers (tenure lt.le bound)

/-- Everything handed out so far, in order. -/
theorem indices (bound : k ≤ R.length) :
    (R.state k).readyQueue.map ApplyResult.index = List.range' 1 (R.state k).lastApplied := by
  apply R.invariant (P := fun k => (R.state k).readyQueue.map ApplyResult.index =
    List.range' 1 (R.state k).lastApplied) ?_ ?_ k bound
  · obtain ⟨role, isNew⟩ := R.start
    simp [isNew, Raft.new]
  · intro k within ih
    obtain ⟨output, ran⟩ := stepped within
    obtain ⟨results, queue, last, applied⟩ := Raft.step_handsOut ran
    rw [queue, List.map_append, ih, applied.indices, last, Nat.add_comm (R.state k).lastApplied 1,
      List.range'_append_1]

/-- **The apply stream.**  Of one node in any environment: the indices handed out are
1, 2, 3 and so on; what a section hands out carries the commands its log then has at
these indices; `apply_entries` reads inside the log from whatever state; and so do
`append_entries` on any request and the handler of any reply to a waiting call. -/
theorem apply_stream (R : NodeRun config) :
    (∀ k, k ≤ R.length → (R.state k).readyQueue.map ApplyResult.index =
      List.range' 1 (R.state k).lastApplied) ∧
    (∀ k, k < R.length → ∃ results, (R.state (k + 1)).readyQueue =
      (R.state k).readyQueue ++ results ∧ ∀ res ∈ results, res.valid = true ∧ 1 ≤ res.index ∧
        ∃ entry, (R.state (k + 1)).log[res.index - 1]? = some entry ∧
          res.data = entry.command) ∧
    (∀ r : Raft, r.applyEntries ≠ none) ∧
    (∀ (r : Raft) (call : AppendCall), r.step config (.appendEntries call) ≠ none) ∧
    ∀ k call reply, k ≤ R.length → .awaitAppend call ∈ (R.state k).threads →
      (R.state k).step config (.appendReply call reply) ≠ none := by
  refine ⟨?_, ?_, ?_, ?_, ?_⟩
  · intro k bound
    exact indices bound
  · intro k within
    obtain ⟨output, ran⟩ := stepped within
    obtain ⟨results, queue, -, applied⟩ := Raft.step_handsOut ran
    refine ⟨results, queue, ?_⟩
    intro res member
    obtain ⟨p, at_p⟩ := List.mem_iff_getElem?.mp member
    obtain ⟨entry, read, rfl⟩ := applied p res at_p
    exact ⟨rfl, Nat.le_add_left 1 _, entry, read, rfl⟩
  · intro r
    exact Option.isSome_iff_ne_none.mp (Raft.isSome_applyEntries r)
  · intro r call
    obtain ⟨answer, answered⟩ :=
      Option.isSome_iff_exists.mp (Raft.isSome_appendEntries r call.req)
    simp [Raft.step, answered]
  · intro k call reply bound pending
    have kept : Raft.Covers
        { R.state k with threads := (R.state k).threads.erase (.awaitAppend call) } call :=
      covers bound pending
    have handled := Raft.isSome_handleAppendReply config reply kept
    obtain ⟨after, handled⟩ := Option.isSome_iff_exists.mp handled
    simp [Raft.step, Raft.resume, pending, handled]

end NodeRun

end Rafty
