/-
# Rafty.Toolings.MessageQueue — the queue between the nodes and their application

`MessageQueue<T>` of `msg_queue.hpp`: a buffer, two condition variables and the flag
`closed`, all under one mutex.  A section is what a thread does from taking the mutex to
releasing it, by its return or by a wait.  `wait(lock, pred)` looks at its predicate first
and again whenever the thread wakes, which it may do at any time; so a call that is blocked
goes on from the same function it was blocked in (`Input.wake`).

A section is described by an `Effect`: the queue it leaves, what it pushed or took, whom it
notified and what it returned.  `Does` lists the sections one by one.
-/
import Rafty.Theory.Run
import Mathlib.Logic.Function.Basic

namespace Rafty.Toolings

set_option autoImplicit false

open Theory

universe u

/-- The two condition variables. -/
inductive Condition
  | prodReady
  | conReady
  deriving DecidableEq, Repr

/-- Where a blocked thread waits: for space with the value it will push, for its value to
be taken, or for an item. -/
inductive Wait (T : Type u)
  | space (value : T)
  | handOff
  | item
  deriving DecidableEq, Repr

/-- The variable a wait is on. -/
def Wait.condition {T : Type u} : Wait T → Condition
  | .space _ | .handOff => .prodReady
  | .item => .conReady

/-- What a call returns. -/
inductive Result (T : Type u)
  | enqueue
  | dequeue (value : T)
  | tryDequeue (value : Option T)
  | close
  deriving DecidableEq, Repr

/-- The members, and the wait each thread is blocked in. -/
structure MessageQueue (T : Type u) where
  bufferSize : Nat
  closed : Bool
  queue : List T
  threads : Nat → Option (Wait T)

/-- What a section did. -/
structure Effect (T : Type u) where
  next : MessageQueue T
  pushed : Option T := none
  taken : Option T := none
  notified : List Condition := []
  returned : Option (Result T) := none

/-- The section that runs: a new call, or a blocked one that looks again. -/
inductive Input (T : Type u)
  | enqueue (thread : Nat) (value : T)
  | dequeue (thread : Nat)
  | tryDequeue
  | close
  | wake (thread : Nat)
  deriving DecidableEq, Repr

instance {T : Type u} : Inhabited (Input T) := ⟨.close⟩

namespace MessageQueue

variable {T : Type u} [Inhabited T] (q : MessageQueue T)

/-- The constructor. -/
def new (bufferSize : Nat) : MessageQueue T where
  bufferSize := bufferSize
  closed := false
  queue := []
  threads _ := none

/-- The predicates of the three waits. -/
def ready : Wait T → Prop
  | .space _ =>
      if q.bufferSize = 0 then q.queue = [] ∨ q.closed = true
      else q.queue.length < q.bufferSize ∨ q.closed = true
  | .handOff => q.queue = [] ∨ q.closed = true
  | .item => q.queue ≠ [] ∨ q.closed = true

instance : (wait : Wait T) → Decidable (q.ready wait)
  | .space _ => inferInstanceAs (Decidable (if q.bufferSize = 0 then q.queue = [] ∨ _ else _ ∨ _))
  | .handOff => inferInstanceAs (Decidable (q.queue = [] ∨ _))
  | .item => inferInstanceAs (Decidable (q.queue ≠ [] ∨ _))

/-- The thread is blocked in the wait. -/
def block (thread : Nat) (wait : Wait T) : MessageQueue T :=
  { q with threads := Function.update q.threads thread (some wait) }

/-- The thread has returned from its call. -/
def leave (thread : Nat) : MessageQueue T :=
  { q with threads := Function.update q.threads thread none }

/-- `enqueue` after its push, from the second wait on. -/
def handOff (thread : Nat) : Effect T :=
  if q.ready .handOff then { next := q.leave thread, returned := some .enqueue }
  else { next := q.block thread .handOff }

/-- `enqueue`. -/
def enqueue (thread : Nat) (value : T) : Effect T :=
  if ¬ q.ready (.space value) then { next := q.block thread (.space value) }
  else if q.closed = true then { next := q.leave thread, returned := some .enqueue }
  else
    let q' := { q with queue := q.queue ++ [value] }
    if q.bufferSize = 0 then
      { q'.handOff thread with pushed := some value, notified := [.conReady] }
    else
      { next := q'.leave thread
        pushed := some value
        notified := [.conReady]
        returned := some .enqueue }

/-- `dequeue`; after `close` it returns `T{}`. -/
def dequeue (thread : Nat) : Effect T :=
  if ¬ q.ready .item then { next := q.block thread .item }
  else if q.closed = true then { next := q.leave thread, returned := some (.dequeue default) }
  else
    match q.queue with
    | [] => { next := q.leave thread } -- not reached: there is an item
    | value :: rest =>
        { next := ({ q with queue := rest } : MessageQueue T).leave thread
          taken := some value
          notified := [.prodReady]
          returned := some (.dequeue value) }

/-- `try_dequeue`. -/
def tryDequeue : Effect T :=
  match q.queue with
  | [] => { next := q, returned := some (.tryDequeue none) }
  | value :: rest =>
      { next := { q with queue := rest }
        taken := some value
        returned := some (.tryDequeue (some value)) }

/-- `close`. -/
def close : Effect T :=
  { next := { q with closed := true }
    notified := [.prodReady, .conReady]
    returned := some .close }

/-- The section that an input runs; a blocked thread makes no call. -/
def effect : Input T → Option (Effect T)
  | .enqueue thread value => if q.threads thread = none then some (q.enqueue thread value) else none
  | .dequeue thread => if q.threads thread = none then some (q.dequeue thread) else none
  | .tryDequeue => some q.tryDequeue
  | .close => some q.close
  | .wake thread =>
      match q.threads thread with
      | some (.space value) => some (q.enqueue thread value)
      | some .handOff => some (q.handOff thread)
      | some .item => some (q.dequeue thread)
      | none => none

/-! ## The sections one by one -/

/-- The thread begins the call, or looks again in the wait. -/
def Runs (thread : Nat) (wait : Wait T) (call input : Input T) : Prop :=
  input = call ∧ q.threads thread = none ∨ input = .wake thread ∧ q.threads thread = some wait

/-- What a section does, and when. -/
inductive Does (q : MessageQueue T) : Input T → Effect T → Prop
  | blocks {input : Input T} (thread : Nat) (wait : Wait T) (waits : ¬ q.ready wait)
      (before : q.threads thread = some wait ∨ q.threads thread = none ∧ wait ≠ .handOff) :
      Does q input { next := q.block thread wait }
  /-- A call that finds the queue closed. -/
  | gives {input : Input T} (thread : Nat) (result : Result T) (closed : q.closed = true)
      (plain : result = .enqueue ∨ result = .dequeue default) :
      Does q input { next := q.leave thread, returned := some result }
  /-- A producer pushes into the buffer. -/
  | pushes {input : Input T} (thread : Nat) (value : T) (isOpen : q.closed = false)
      (buffered : q.bufferSize ≠ 0) (space : q.queue.length < q.bufferSize)
      (runs : q.Runs thread (.space value) (.enqueue thread value) input) :
      Does q input
        { next := ({ q with queue := q.queue ++ [value] } : MessageQueue T).leave thread
          pushed := some value
          notified := [.conReady]
          returned := some .enqueue }
  /-- A producer without a buffer pushes and waits for its value to be taken. -/
  | offers {input : Input T} (thread : Nat) (value : T) (isOpen : q.closed = false)
      (unbuffered : q.bufferSize = 0) (empty : q.queue = [])
      (runs : q.Runs thread (.space value) (.enqueue thread value) input) :
      Does q input
        { next := ({ q with queue := [value] } : MessageQueue T).block thread .handOff
          pushed := some value
          notified := [.conReady] }
  | handsOff (thread : Nat) (waited : q.threads thread = some .handOff)
      (ready : q.ready .handOff) :
      Does q (.wake thread) { next := q.leave thread, returned := some .enqueue }
  | takes {input : Input T} (thread : Nat) (value : T) (rest : List T) (isOpen : q.closed = false)
      (front : q.queue = value :: rest)
      (runs : q.Runs thread .item (.dequeue thread) input) :
      Does q input
        { next := ({ q with queue := rest } : MessageQueue T).leave thread
          taken := some value
          notified := [.prodReady]
          returned := some (.dequeue value) }
  | tries (value : T) (rest : List T) (front : q.queue = value :: rest) :
      Does q .tryDequeue
        { next := { q with queue := rest }
          taken := some value
          returned := some (.tryDequeue (some value)) }
  | misses (empty : q.queue = []) :
      Does q .tryDequeue { next := q, returned := some (.tryDequeue none) }
  | closes : Does q .close q.close

variable {q} {input : Input T} {e : Effect T} {thread : Nat}

omit [Inhabited T] in
theorem Runs.before {wait : Wait T} {call : Input T} (runs : q.Runs thread wait call input)
    (other : wait ≠ .handOff) :
    q.threads thread = some wait ∨ q.threads thread = none ∧ wait ≠ .handOff := by
  rcases runs with ⟨-, free⟩ | ⟨-, waited⟩
  · exact Or.inr ⟨free, other⟩
  · exact Or.inl waited

theorem enqueue_does {value : T}
    (runs : q.Runs thread (.space value) (.enqueue thread value) input) :
    Does q input (q.enqueue thread value) := by
  unfold enqueue
  split
  · rename_i waits
    exact .blocks thread (.space value) waits (runs.before (by simp))
  rename_i ready
  rw [not_not] at ready
  split
  · rename_i closed
    exact .gives thread .enqueue closed (Or.inl rfl)
  rename_i isOpen
  rw [Bool.not_eq_true] at isOpen
  split
  · rename_i unbuffered
    have empty : q.queue = [] := by simpa [MessageQueue.ready, unbuffered, isOpen] using ready
    have waits : ¬ ({ q with queue := [value] } : MessageQueue T).ready .handOff := by
      simp [MessageQueue.ready, isOpen]
    simp only [handOff, empty, List.nil_append, if_neg waits]
    exact .offers thread value isOpen unbuffered empty runs
  · rename_i buffered
    have space : q.queue.length < q.bufferSize := by
      simpa [MessageQueue.ready, buffered, isOpen] using ready
    exact .pushes thread value isOpen buffered space runs

theorem dequeue_does (runs : q.Runs thread .item (.dequeue thread) input) :
    Does q input (q.dequeue thread) := by
  unfold dequeue
  split
  · rename_i waits
    exact .blocks thread .item waits (runs.before (by simp))
  rename_i ready
  rw [not_not] at ready
  split
  · rename_i closed
    exact .gives thread _ closed (Or.inr rfl)
  rename_i isOpen
  rw [Bool.not_eq_true] at isOpen
  have item : q.queue ≠ [] := by simpa [MessageQueue.ready, isOpen] using ready
  split
  · rename_i empty
    exact absurd empty item
  · rename_i value rest front
    exact .takes thread value rest isOpen front runs

/-- **Every section is on the list.** -/
theorem effect_does (ran : q.effect input = some e) : Does q input e := by
  cases input with
  | enqueue thread value =>
      simp only [effect] at ran
      split at ran
      · rename_i free
        cases ran
        exact enqueue_does (Or.inl ⟨rfl, free⟩)
      · cases ran
  | dequeue thread =>
      simp only [effect] at ran
      split at ran
      · rename_i free
        cases ran
        exact dequeue_does (Or.inl ⟨rfl, free⟩)
      · cases ran
  | tryDequeue =>
      simp only [effect, tryDequeue] at ran
      split at ran
      · rename_i empty
        cases ran
        exact .misses empty
      · rename_i value rest front
        cases ran
        exact .tries value rest front
  | close => cases ran; exact .closes
  | wake thread =>
      simp only [effect] at ran
      split at ran
      · rename_i value waited
        cases ran
        exact enqueue_does (Or.inr ⟨rfl, waited⟩)
      · rename_i waited
        cases ran
        unfold handOff
        split
        · rename_i ready
          exact .handsOff thread waited ready
        · rename_i waits
          exact .blocks thread .handOff waits (Or.inl waited)
      · rename_i waited
        cases ran
        exact dequeue_does (Or.inr ⟨rfl, waited⟩)
      · cases ran

end MessageQueue

/-! ## Runs -/

/-- The machine of the queues of values of type `T`, with any buffer. -/
def machine (T : Type u) [Inhabited T] : Machine (MessageQueue T) (Input T) where
  init q := ∃ bufferSize, q = .new bufferSize
  step q input := (q.effect input).map Effect.next

abbrev QueueRun (T : Type u) [Inhabited T] := Run (machine T)

namespace QueueRun

variable {T : Type u} [Inhabited T] (R : QueueRun T) {k : Nat}

/-- The run of a list of inputs on a queue with a buffer of the size. -/
def of (bufferSize : Nat) (inputs : List (Input T))
    (accepted : ((machine T).exec (.new bufferSize) inputs).isSome) : QueueRun T :=
  Run.of (machine T) (.new bufferSize) inputs ⟨bufferSize, rfl⟩ accepted

/-- What step `k` did. -/
def effect (k : Nat) : Effect T :=
  ((R.state k).effect (R.input k)).getD { next := R.state k }

variable {R}

theorem effect_spec (within : k < R.length) :
    (R.state k).effect (R.input k) = some (R.effect k) ∧ (R.effect k).next = R.state (k + 1) := by
  obtain ⟨e, ran, next⟩ := Option.map_eq_some_iff.mp (R.next k within)
  have same : R.effect k = e := by rw [effect, ran, Option.getD_some]
  exact ⟨same ▸ ran, same ▸ next⟩

theorem does (within : k < R.length) :
    (R.state k).Does (R.input k) (R.effect k) :=
  MessageQueue.effect_does (effect_spec within).1

end QueueRun

end Rafty.Toolings
