/-
# Rafty.Toolings.Fifo — what goes in comes out, in order

In any run of a `MessageQueue`, with any number of threads: the values pushed are the
values taken, in the same order, followed by what the queue holds (`pushed_eq`); the queue
never holds more than its buffer, or one value without a buffer (`capacity`); and without
a buffer a producer waits until the very value it pushed was taken (`taken_of_enqueued`).
-/
import Rafty.Toolings.MessageQueue
import Mathlib.Data.List.Infix

namespace Rafty.Toolings

set_option autoImplicit false

open Theory

universe u

namespace MessageQueue

variable {T : Type u} [Inhabited T] {q : MessageQueue T} {input : Input T} {e : Effect T}
  {thread : Nat}

/-! ## One section -/

/-- A pushed value goes to the back, a taken one was at the front. -/
theorem Does.moves (does : q.Does input e) :
    q.queue ++ e.pushed.toList = e.taken.toList ++ e.next.queue := by
  cases does with
  | offers _ _ _ _ empty => simp [empty, block]
  | takes _ _ _ _ front | tries _ _ front => simp [front, leave]
  | blocks | gives | pushes | handsOff | misses | closes => simp [block, leave, close]

theorem Does.bufferSize (does : q.Does input e) : e.next.bufferSize = q.bufferSize := by
  cases does <;> rfl

/-- The queue holds its buffer at most, or one value. -/
def Bounded (q : MessageQueue T) : Prop := q.queue.length ≤ max 1 q.bufferSize

theorem Does.bounded (does : q.Does input e) (bounded : q.Bounded) : e.next.Bounded := by
  unfold Bounded at *
  cases does with
  | offers => exact le_max_left _ _
  | pushes _ _ _ _ space =>
      simp only [leave, List.length_append, List.length_singleton]
      omega
  | takes _ _ _ _ front | tries _ _ front =>
      rw [front, List.length_cons] at bounded
      exact (Nat.le_succ _).trans bounded
  | blocks | gives | handsOff | misses | closes => exact bounded

/-- What a call returns it took, unless the queue is closed. -/
def Honest (q : MessageQueue T) (e : Effect T) : Prop :=
  match e.returned with
  | some (.dequeue value) =>
      e.taken = some value ∨ q.closed = true ∧ value = default ∧ e.taken = none
  | some (.tryDequeue value) => e.taken = value
  | _ => e.taken = none

theorem Does.honest (does : q.Does input e) : q.Honest e := by
  cases does with
  | gives _ _ closed plain =>
      rcases plain with rfl | rfl
      · rfl
      · exact Or.inr ⟨closed, rfl, rfl⟩
  | takes => exact Or.inl rfl
  | blocks | pushes | offers | handsOff | tries | misses | closes => rfl

/-- A thread stays in the second wait of `enqueue`, or returns because the queue is empty or
closed. -/
theorem Does.handOff (does : q.Does input e) {t : Nat} (blocked : q.threads t = some .handOff) :
    e.next.threads t = some .handOff ∨ e.next.threads t = none ∧ q.ready .handOff := by
  have other : ∀ {thread : Nat} {place : Option (Wait T)}, t ≠ thread →
      Function.update q.threads thread place t = some .handOff := by
    intro thread place ne
    rw [Function.update_of_ne ne, blocked]
  have left : ∀ {thread : Nat}, q.ready .handOff →
      Function.update q.threads thread none t = some .handOff ∨
        Function.update q.threads thread none t = none ∧ q.ready .handOff := by
    intro thread ready
    by_cases same : t = thread
    · subst same
      exact Or.inr ⟨Function.update_self _ _ _, ready⟩
    · exact Or.inl (other same)
  -- a thread that begins a call, or looks again in another wait, is not `t`
  have runner : ∀ {thread : Nat} {wait : Wait T} {call : Input T}, wait ≠ .handOff →
      q.Runs thread wait call input → t ≠ thread := by
    rintro thread wait call ne (⟨-, free⟩ | ⟨-, waited⟩) rfl
    · simp [blocked] at free
    · exact ne (Option.some.inj (waited.symm.trans blocked))
  cases does with
  | blocks thread wait _ before =>
      left
      by_cases same : t = thread
      · subst same
        rw [← blocked, before.resolve_right (by simp [blocked])]
        exact Function.update_self _ _ _
      · exact other same
  | gives _ _ closed => exact left (Or.inr closed)
  | handsOff _ _ ready => exact left ready
  | pushes _ _ _ _ _ runs | offers _ _ _ _ _ runs | takes _ _ _ _ _ runs =>
      exact Or.inl (other (runner (by simp) runs))
  | tries | misses | closes => exact Or.inl blocked

end MessageQueue

namespace QueueRun

variable {T : Type u} [Inhabited T] {R : QueueRun T} {i k t : Nat} {value : T}

/-! ## Pushed and taken -/

/-- The values pushed in the first `k` steps, in order. -/
def pushed (R : QueueRun T) : Nat → List T
  | 0 => []
  | k + 1 => R.pushed k ++ (R.effect k).pushed.toList

/-- The values taken in the first `k` steps, in order. -/
def taken (R : QueueRun T) : Nat → List T
  | 0 => []
  | k + 1 => R.taken k ++ (R.effect k).taken.toList

/-- The size of the buffer. -/
def bufferSize (R : QueueRun T) : Nat := (R.state 0).bufferSize

theorem bufferSize_eq (bound : k ≤ R.length) : (R.state k).bufferSize = R.bufferSize := by
  apply R.invariant (P := fun k => (R.state k).bufferSize = R.bufferSize) rfl ?_ k bound
  intro k within ih
  rw [← (effect_spec within).2]
  exact (does within).bufferSize.trans ih

/-- **What was pushed is what was taken, followed by what is left.** -/
theorem pushed_eq (bound : k ≤ R.length) : R.pushed k = R.taken k ++ (R.state k).queue := by
  apply R.invariant (P := fun k => R.pushed k = R.taken k ++ (R.state k).queue) ?_ ?_ k bound
  · obtain ⟨size, new⟩ := R.start
    simp [pushed, taken, new, MessageQueue.new]
  · intro k within ih
    have moves := (does within).moves
    rw [(effect_spec within).2] at moves
    rw [pushed, taken, ih, List.append_assoc, List.append_assoc, moves]

/-- **The queue is bounded.** -/
theorem capacity (bound : k ≤ R.length) : (R.state k).Bounded := by
  apply R.invariant (P := fun k => (R.state k).Bounded) ?_ ?_ k bound
  · obtain ⟨size, new⟩ := R.start
    simp [MessageQueue.Bounded, new, MessageQueue.new]
  · intro k within ih
    rw [← (effect_spec within).2]
    exact (does within).bounded ih

theorem pushed_prefix {m : Nat} (le : k ≤ m) (bound : m ≤ R.length) :
    R.pushed k <+: R.pushed m :=
  R.related R.pushed (r := (· <+: ·)) (fun _ => List.prefix_rfl) (fun _ _ _ => List.IsPrefix.trans)
    (fun _ _ => List.prefix_append _ _) le bound

/-! ## The rendezvous -/

/-- A call of `enqueue` by the thread `t` pushes `value` at step `i` and returns at step `k`. -/
structure Enqueues (R : QueueRun T) (i k t : Nat) (value : T) : Prop where
  within : k < R.length
  le : i ≤ k
  caller : R.input i = .enqueue t value ∨ R.input i = .wake t
  pushes : (R.effect i).pushed = some value
  blocked : ∀ m, i < m → m ≤ k → (R.state m).threads t ≠ none
  returned : (R.state (k + 1)).threads t = none

/-- Without a buffer the call is blocked in the second wait after its push. -/
theorem handOff_of_push (within : i < R.length) (unbuffered : R.bufferSize = 0)
    (caller : R.input i = .enqueue t value ∨ R.input i = .wake t)
    (pushes : (R.effect i).pushed = some value) :
    (R.state (i + 1)).threads t = some .handOff := by
  have ran := does within
  have size := bufferSize_eq within.le
  rw [← (effect_spec within).2]
  generalize R.effect i = e at ran pushes
  generalize R.input i = input at ran caller
  cases ran with
  | offers thread other _ _ _ runs =>
      have same : thread = t := by
        rcases runs with ⟨rfl, -⟩ | ⟨rfl, -⟩ <;> rcases caller with caller | caller <;>
          cases caller <;> rfl
      rw [same]
      exact Function.update_self _ _ _
  | pushes _ _ _ buffered => exact absurd (size.trans unbuffered) buffered
  | blocks | gives | handsOff | takes | tries | misses | closes => cases pushes

/-- It stays there until it returns. -/
theorem Enqueues.waits (enqueues : R.Enqueues i k t value) (unbuffered : R.bufferSize = 0) :
    ∀ m, i < m → m ≤ k → (R.state m).threads t = some .handOff := by
  have within := enqueues.within
  have le := enqueues.le
  intro m low high
  induction m, (show i + 1 ≤ m from low) using Nat.le_induction with
  | base => exact handOff_of_push (by omega) unbuffered enqueues.caller enqueues.pushes
  | succ m above ih =>
      have stays := (does (show m < R.length by omega)).handOff (ih above (by omega))
      rw [(effect_spec (show m < R.length by omega)).2] at stays
      exact stays.resolve_right fun left => enqueues.blocked (m + 1) low high left.1

/-- **The rendezvous.**  If the queue is not closed when the call returns, its value was
taken: it is the value taken with the number it was pushed with. -/
theorem taken_of_enqueued (enqueues : R.Enqueues i k t value) (unbuffered : R.bufferSize = 0)
    (isOpen : (R.state k).closed = false) : (R.taken k)[(R.pushed i).length]? = some value := by
  have within := enqueues.within
  have le := enqueues.le
  have returned := enqueues.returned
  have later : i < k := by
    by_contra same
    have begun := handOff_of_push (by omega) unbuffered enqueues.caller enqueues.pushes
    rw [show i = k by omega] at begun
    simp [begun] at returned
  have left := (does within).handOff (enqueues.waits unbuffered k later le_rfl)
  rw [(effect_spec within).2, returned] at left
  -- it leaves because the queue is empty, so everything pushed was taken
  have empty : (R.state k).queue = [] := by
    simpa [MessageQueue.ready, isOpen] using left
  have all : R.pushed k = R.taken k := by simpa [empty] using pushed_eq (R := R) within.le
  have own : R.pushed (i + 1) = R.pushed i ++ [value] := by
    rw [pushed, enqueues.pushes]
    rfl
  obtain ⟨rest, extends_⟩ := pushed_prefix (R := R) later within.le
  rw [← all, ← extends_, own]
  simp

/-! ## The queue as a whole -/

/-- **A bounded FIFO, and a rendezvous without a buffer.** -/
theorem bounded_fifo (R : QueueRun T) :
    (∀ k, k ≤ R.length → R.pushed k = R.taken k ++ (R.state k).queue ∧
      (R.state k).queue.length ≤ max 1 R.bufferSize) ∧
    (∀ k, k < R.length → (R.state k).Honest (R.effect k)) ∧
    ∀ i k t value, R.Enqueues i k t value → R.bufferSize = 0 → (R.state k).closed = false →
      (R.taken k)[(R.pushed i).length]? = some value := by
  refine ⟨?_, fun k within => (does within).honest, ?_⟩
  · intro k bound
    have bounded := capacity (R := R) bound
    rw [MessageQueue.Bounded, bufferSize_eq bound] at bounded
    exact ⟨pushed_eq bound, bounded⟩
  · intro i k t value enqueues unbuffered isOpen
    exact taken_of_enqueued enqueues unbuffered isOpen

/-- Thread 1 offers 7, thread 2 takes it, and thread 1 looks again. -/
theorem bounded_fifo_of_rendezvous :
    ∃ R : QueueRun Nat, R.bufferSize = 0 ∧ R.Enqueues 0 2 1 7 ∧ (R.taken 2)[0]? = some 7 := by
  let R : QueueRun Nat := .of 0 [.enqueue 1 7, .dequeue 2, .wake 1] (by decide)
  have blocked : ∀ m < 3, 0 < m → (R.state m).threads 1 ≠ none := by decide
  have enqueues : R.Enqueues 0 2 1 7 :=
    ⟨by decide, by decide, Or.inl rfl, by decide, fun m low high => blocked m (by omega) low,
      by decide⟩
  exact ⟨R, rfl, enqueues, (bounded_fifo R).2.2 0 2 1 7 enqueues rfl (by decide)⟩

end QueueRun

end Rafty.Toolings
