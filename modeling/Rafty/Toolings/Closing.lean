/-
# Rafty.Toolings.Closing — what a closed MessageQueue still does

`close` ends every wait and no queue is opened again.  From then on nothing is pushed:
`enqueue` returns as if it had, and `dequeue` returns `T{}` although values may be left.  Only
`try_dequeue` still takes them, from the front.

Nobody stays behind.  A thread that is blocked in a closed queue was blocked before, `close`
notified it, and its next look ends its call (`closed_for_good`).  So `close` also frees the
producers that `try_dequeue` passed over.
-/
import Rafty.Toolings.Wakeup

namespace Rafty.Toolings

set_option autoImplicit false

open Theory

universe u

/-- What a call returns that `close` has ended. -/
def Wait.result {T : Type u} [Inhabited T] : Wait T → Result T
  | .space _ | .handOff => .enqueue
  | .item => .dequeue default

namespace MessageQueue

variable {T : Type u} [Inhabited T] {q : MessageQueue T} {input : Input T} {e : Effect T}
  {t : Nat} {wait : Wait T}

/-- What a section of a closed queue does. -/
structure Ends (q : MessageQueue T) (input : Input T) (e : Effect T) : Prop where
  closed : e.next.closed = true
  pushed : e.pushed = none
  taken : input ≠ .tryDequeue → e.taken = none
  returned : e.returned.isSome = true
  threads : ∀ t wait, e.next.threads t = some wait → q.threads t = some wait

omit [Inhabited T] in
/-- A thread that leaves is blocked no more. -/
theorem threads_of_leave (thread : Nat) (blocked : (q.leave thread).threads t = some wait) :
    q.threads t = some wait := by
  by_cases same : t = thread
  · subst same
    cases (Function.update_self _ _ _).symm.trans blocked
  · exact (Function.update_of_ne same _ _).symm.trans blocked

theorem Does.ends (does : q.Does input e) (closed : q.closed = true) : q.Ends input e := by
  have notOpen : q.closed ≠ false := by simp [closed]
  cases does with
  | blocks _ wait waits => exact absurd (ready_of_closed closed wait) waits
  | pushes _ _ isOpen | offers _ _ isOpen | takes _ _ _ isOpen => exact absurd isOpen notOpen
  | gives thread _ _ _ | handsOff thread _ _ =>
      exact ⟨closed, rfl, fun _ => rfl, rfl, fun _ _ => threads_of_leave thread⟩
  | tries => exact ⟨closed, rfl, fun other => absurd rfl other, rfl, fun _ _ blocked => blocked⟩
  | misses => exact ⟨closed, rfl, fun _ => rfl, rfl, fun _ _ blocked => blocked⟩
  | closes => exact ⟨rfl, rfl, fun _ => rfl, rfl, fun _ _ blocked => blocked⟩

/-- Only `close` closes. -/
theorem Does.closing (does : q.Does input e) (isOpen : q.closed ≠ true)
    (closed : e.next.closed = true) : input = .close := by
  cases does with
  | closes => rfl
  | blocks | gives | pushes | offers | handsOff | takes | tries | misses =>
      exact absurd closed isOpen

/-- The next look of a blocked thread is its last. -/
theorem wake_of_closed (closed : q.closed = true) (blocked : q.threads t = some wait) :
    q.effect (.wake t) = some { next := q.leave t, returned := some wait.result } := by
  simp only [effect, blocked]
  have ready := ready_of_closed closed wait
  cases wait with
  | space value =>
      simp only [enqueue, ready, not_true_eq_false, if_false, closed, if_true]
      rfl
  | handOff =>
      simp only [handOff, ready, if_true]
      rfl
  | item =>
      simp only [dequeue, ready, not_true_eq_false, if_false, closed, if_true]
      rfl

end MessageQueue

namespace QueueRun

variable {T : Type u} [Inhabited T] {R : QueueRun T} {j k m t : Nat} {wait : Wait T}

theorem ends (within : k < R.length) (closed : (R.state k).closed = true) :
    (R.state k).Ends (R.input k) (R.effect k) :=
  (does within).ends closed

/-- What a stretch of a run leaves as it is once the queue is closed. -/
structure Closed (R : QueueRun T) (k m : Nat) : Prop where
  closed : (R.state m).closed = true
  pushed : R.pushed m = R.pushed k
  threads : ∀ t wait, (R.state m).threads t = some wait → (R.state k).threads t = some wait

theorem closed_stretch (closed : (R.state k).closed = true) (le : k ≤ m) (bound : m ≤ R.length) :
    R.Closed k m := by
  induction m, le using Nat.le_induction with
  | base => exact ⟨closed, rfl, fun _ _ blocked => blocked⟩
  | succ m le ih =>
      have within : m < R.length := bound
      have before := ih within.le
      have ends := ends within before.closed
      have next := (effect_spec within).2
      refine ⟨next ▸ ends.closed, ?_, ?_⟩
      · rw [QueueRun.pushed, ends.pushed, Option.toList_none, List.append_nil, before.pushed]
      · intro t wait blocked
        rw [← next] at blocked
        exact before.threads t wait (ends.threads t wait blocked)

/-- Whoever is still blocked was notified by `close`. -/
theorem notified_of_closed (closed : (R.state k).closed = true) (bound : k ≤ R.length)
    (blocked : (R.state k).threads t = some wait) :
    Monitor.NotifiedSince (M := monitor T) R k t wait := by
  obtain ⟨j, lt, isOpen, begins⟩ := R.exists_step (P := fun q => q.closed = true)
    (fun q new => by
      obtain ⟨size, rfl⟩ := new
      simp [MessageQueue.new]) closed
  have within : j < R.length := by omega
  obtain ⟨ran, next⟩ := effect_spec within
  have isClose : R.input j = .close := (does within).closing isOpen (next ▸ begins)
  rw [isClose] at ran
  have effect : R.effect j = (R.state j).close := (Option.some.inj ran).symm
  -- `close` itself leaves the threads alone
  have stays : (R.state (j + 1)).threads = (R.state j).threads := by
    rw [← next, effect]
    rfl
  have later : ∀ i, j < i → i ≤ k → (R.state i).threads t = some wait := by
    intro i low high
    have here := closed_stretch begins low (high.trans bound)
    exact (closed_stretch here.closed high bound).threads t wait blocked
  refine ⟨j, lt, ⟨R.effect j, ?_, ?_⟩, ?_, ?_⟩
  · rw [isClose, effect]
    rfl
  · rw [effect]
    cases wait <;> simp [MessageQueue.close, monitor, Wait.condition]
  · intro i low high
    rcases Nat.lt_or_eq_of_le low with after | rfl
    · exact later i after high
    · exact (congrFun stays t).symm.trans (later (j + 1) (Nat.lt_succ_self j) lt)
  · intro i low high
    exact MessageQueue.ready_of_closed (closed_stretch begins low (high.trans bound)).closed wait

/-- **`close` is for good, and frees everybody.**  From a state in which the queue is closed:
it stays closed; nothing is pushed, what is taken was left in the queue, in its order, and by
`try_dequeue`; every section ends its call; and every thread that is still blocked was so in
that state, was notified since its predicate holds, and returns when it looks again. -/
theorem closed_for_good (R : QueueRun T) (closed : (R.state k).closed = true) (le : k ≤ m)
    (bound : m ≤ R.length) :
    (R.state m).closed = true ∧ R.pushed m = R.pushed k ∧
      R.taken m ++ (R.state m).queue = R.taken k ++ (R.state k).queue ∧
      (m < R.length → (R.effect m).returned.isSome = true ∧
        (R.input m ≠ .tryDequeue → (R.effect m).taken = none)) ∧
      ∀ t wait, (R.state m).threads t = some wait → (R.state k).threads t = some wait ∧
        Monitor.NotifiedSince (M := monitor T) R m t wait ∧
        (R.state m).effect (.wake t) =
          some { next := (R.state m).leave t, returned := some wait.result } := by
  have stretch := closed_stretch closed le bound
  refine ⟨stretch.closed, stretch.pushed, ?_, ?_, ?_⟩
  · rw [← pushed_eq bound, ← pushed_eq (le.trans bound), stretch.pushed]
  · intro within
    have ends := ends within stretch.closed
    exact ⟨ends.returned, ends.taken⟩
  · intro t wait blocked
    exact ⟨stretch.threads t wait blocked, notified_of_closed stretch.closed bound blocked,
      MessageQueue.wake_of_closed stretch.closed blocked⟩

/-- The producer that `try_dequeue` passed over is freed, and its value is dropped. -/
theorem closed_for_good_of_passedOver :
    ∃ R : QueueRun Nat, (R.state 4).threads 1 = some (.space 100) ∧
      Monitor.NotifiedSince (M := monitor Nat) R 4 1 (.space 100) ∧
      ((R.state 4).effect (.wake 1)).bind (·.returned) = some .enqueue ∧ R.pushed 5 = [99] := by
  let R : QueueRun Nat := .of 1 (passedOver ++ [.close, .wake 1]) (by decide)
  have closed : (R.state 4).closed = true := by decide
  have blocked : (R.state 4).threads 1 = some (.space 100) := by decide
  obtain ⟨-, -, -, -, frees⟩ := closed_for_good R closed le_rfl (by decide)
  obtain ⟨-, notified, wakes⟩ := frees 1 _ blocked
  obtain ⟨-, pushed, -⟩ := closed_for_good R closed (show 4 ≤ 5 by decide) (by decide)
  refine ⟨R, blocked, notified, ?_, pushed.trans (by decide)⟩
  rw [wakes]
  rfl

end QueueRun

end Rafty.Toolings
