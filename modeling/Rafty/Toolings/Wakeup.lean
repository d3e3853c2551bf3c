/-
# Rafty.Toolings.Wakeup — who wakes the threads of a MessageQueue

`enqueue` notifies the consumers, `dequeue` the producers and `close` everybody, each in
the section in which a predicate may begin to hold.  `try_dequeue` takes a value as
`dequeue` does and notifies nobody, so a producer that waits for the space it makes is
passed over.  That is the only way a wakeup gets lost (`no_waiter_stranded`).
-/
import Rafty.Toolings.Fifo
import Rafty.Theory.Monitor

namespace Rafty.Toolings

set_option autoImplicit false

open Theory

universe u

/-- A `MessageQueue` as a monitor. -/
def monitor (T : Type u) [Inhabited T] :
    Monitor (MessageQueue T) (Input T) Nat (Wait T) Condition where
  toMachine := machine T
  waiting q thread := q.threads thread
  ready wait q := q.ready wait
  condition := Wait.condition
  notifies q input condition := ∃ e, q.effect input = some e ∧ condition ∈ e.notified

namespace MessageQueue

variable {T : Type u} {q : MessageQueue T}

/-! ## The predicates -/

/-- No value can be pushed without another one being taken. -/
def Full (q : MessageQueue T) : Prop := max 1 q.bufferSize ≤ q.queue.length

theorem ready_space {value : T} (isOpen : q.closed = false) :
    q.ready (.space value) ↔ ¬ q.Full := by
  unfold ready Full
  by_cases unbuffered : q.bufferSize = 0
  · simp [unbuffered, isOpen, List.length_eq_zero_iff]
  · simp only [unbuffered, if_false, isOpen, Bool.false_eq_true, or_false]
    omega

theorem ready_handOff (isOpen : q.closed = false) : q.ready .handOff ↔ q.queue = [] := by
  simp [ready, isOpen]

theorem ready_item (isOpen : q.closed = false) : q.ready .item ↔ q.queue ≠ [] := by
  simp [ready, isOpen]

/-- The predicates do not depend on who waits. -/
theorem ready_threads {threads : Nat → Option (Wait T)} {wait : Wait T} :
    ({ q with threads := threads } : MessageQueue T).ready wait ↔ q.ready wait := by
  cases wait <;> rfl

/-- On a closed queue no thread has to wait. -/
theorem ready_of_closed (closed : q.closed = true) (wait : Wait T) : q.ready wait := by
  cases wait <;> simp [ready, closed]

/-! ## What a section does to the waiting threads -/

variable [Inhabited T] {input : Input T} {e : Effect T} {t : Nat} {wait : Wait T}

/-- Only without a buffer does a producer wait for its value to be taken. -/
def Offering (q : MessageQueue T) : Prop :=
  ∀ thread, q.threads thread = some .handOff → q.bufferSize = 0

theorem Does.offering (does : q.Does input e) (offering : q.Offering) : e.next.Offering := by
  intro t blocked
  rw [does.bufferSize]
  have other : ∀ {thread : Nat} {place : Option (Wait T)}, place ≠ some .handOff →
      Function.update q.threads thread place t = some .handOff → q.bufferSize = 0 := by
    intro thread place ne now
    by_cases same : t = thread
    · subst same
      exact absurd ((Function.update_self _ _ _).symm.trans now) ne
    · exact offering t ((Function.update_of_ne same _ _).symm.trans now)
  cases does with
  | offers _ _ _ unbuffered => exact unbuffered
  | blocks thread wait _ before =>
      rcases before with waited | ⟨-, elsewhere⟩
      · have same : Function.update q.threads thread (some wait) = q.threads := by
          rw [← waited, Function.update_eq_self]
        exact offering t ((congrFun same t).symm.trans blocked)
      · exact other (by simpa using elsewhere) blocked
  | gives | pushes | handsOff | takes => exact other (by simp) blocked
  | tries | misses | closes => exact offering t blocked

/-- A thread begins to wait only while its predicate does not hold. -/
theorem Does.inNeed (does : q.Does input e) (blocked : e.next.threads t = some wait)
    (before : q.threads t ≠ some wait) : ¬ e.next.ready wait := by
  have other : ∀ {thread : Nat} {place : Option (Wait T)}, t ≠ thread →
      Function.update q.threads thread place t ≠ some wait := by
    intro thread place ne
    rwa [Function.update_of_ne ne]
  have gone : ∀ {thread : Nat}, Function.update q.threads thread none t ≠ some wait := by
    intro thread
    by_cases same : t = thread
    · subst same
      simp
    · exact other same
  cases does with
  | blocks thread begun waits _ =>
      by_cases same : t = thread
      · subst same
        cases (Function.update_self _ _ _).symm.trans blocked
        exact mt ready_threads.mp waits
      · exact absurd blocked (other same)
  | offers thread value isOpen _ _ _ =>
      by_cases same : t = thread
      · subst same
        cases (Function.update_self _ _ _).symm.trans blocked
        simp [ready, block, isOpen]
      · exact absurd blocked (other same)
  | gives | pushes | handsOff | takes => exact absurd blocked gone
  | tries | misses | closes => exact absurd blocked before

/-- **Who makes a predicate true notifies**, but for `try_dequeue` on a full queue. -/
theorem Does.rouses (does : q.Does input e) (waits : ¬ q.ready wait) (ready : e.next.ready wait) :
    wait.condition ∈ e.notified ∨
      input = .tryDequeue ∧ q.closed = false ∧ q.queue ≠ [] ∧ wait ≠ .item := by
  have isOpen : q.closed = false := by
    by_contra closed
    exact waits (ready_of_closed (by simpa using closed) wait)
  cases does with
  | blocks | gives | handsOff => exact absurd (ready_threads.mp ready) waits
  | misses => exact absurd ready waits
  | closes =>
      left
      cases wait <;> simp [close, Wait.condition]
  | takes thread value rest _ front _ =>
      left
      cases wait with
      | item => exact absurd ((ready_item isOpen).mpr (by simp [front])) waits
      | space | handOff => simp [Wait.condition]
  | tries value rest front =>
      right
      refine ⟨rfl, isOpen, by simp [front], ?_⟩
      rintro rfl
      exact waits ((ready_item isOpen).mpr (by simp [front]))
  | pushes thread value _ buffered space _ =>
      left
      cases wait with
      | item => simp [Wait.condition]
      | handOff => simp [MessageQueue.ready, leave, isOpen] at ready
      | space => exact absurd ((ready_space isOpen).mpr (by unfold Full; omega)) waits
  | offers thread value _ unbuffered empty _ =>
      left
      cases wait with
      | item => simp [Wait.condition]
      | handOff => exact absurd ((ready_handOff isOpen).mpr empty) waits
      | space => exact absurd ((ready_space isOpen).mpr (by simp [Full, empty])) waits

omit [Inhabited T] in
/-- `try_dequeue` takes the front and tells nobody. -/
theorem tryDequeue_silent (q : MessageQueue T) :
    q.tryDequeue.next = { q with queue := q.queue.tail } ∧ q.tryDequeue.notified = [] := by
  unfold tryDequeue
  split
  · rename_i empty
    have same : q.queue.tail = q.queue := by rw [empty, List.tail_nil]
    rw [same]
    exact ⟨rfl, rfl⟩
  · rename_i value rest front
    simp [front]

end MessageQueue

namespace QueueRun

variable {T : Type u} [Inhabited T] {R : QueueRun T} {k : Nat}

/-! ## Lost wakeups -/

theorem waitsInNeed : (monitor T).WaitsInNeed where
  init := by
    rintro q ⟨size, rfl⟩ t wait blocked
    cases blocked
  step := by
    intro q input q' stepped t wait blocked before
    obtain ⟨e, ran, rfl⟩ := Option.map_eq_some_iff.mp stepped
    exact (MessageQueue.effect_does ran).inNeed blocked before

theorem offering (bound : k ≤ R.length) : (R.state k).Offering := by
  apply R.invariant (P := fun k => (R.state k).Offering) ?_ ?_ k bound
  · obtain ⟨size, new⟩ := R.start
    rw [new]
    intro t blocked
    cases blocked
  · intro k within ih
    rw [← (effect_spec within).2]
    exact (does within).offering ih

/-- Every thread that is blocked although its predicate holds was notified since then. -/
def NoLostWakeup (R : QueueRun T) : Prop := Monitor.NoLostWakeup (M := monitor T) R

/-- No `try_dequeue` takes a value from a full queue, before `close`, while a thread is
blocked in `enqueue`. -/
def NobodyPassedOver (R : QueueRun T) : Prop :=
  ∀ k, k < R.length → R.input k = .tryDequeue → (R.state k).closed = false → (R.state k).Full →
    ∀ t wait, (R.state k).threads t = some wait → wait = .item

/-- A producer that waits before `close` waits for space in a full queue. -/
theorem full_of_waits (bound : k ≤ R.length) (isOpen : (R.state k).closed = false) {t : Nat}
    {wait : Wait T} (blocked : (R.state k).threads t = some wait) (producer : wait ≠ .item) :
    ¬ (R.state k).ready wait ↔ (R.state k).Full := by
  cases wait with
  | item => exact absurd rfl producer
  | space value => rw [MessageQueue.ready_space isOpen, not_not]
  | handOff =>
      rw [MessageQueue.ready_handOff isOpen, MessageQueue.Full, offering bound t blocked,
        ← List.length_eq_zero_iff]
      omega

/-- **No wakeup is lost** exactly if no `try_dequeue` makes space for a blocked producer. -/
theorem no_waiter_stranded (R : QueueRun T) : R.NoLostWakeup ↔ R.NobodyPassedOver := by
  refine (Monitor.noLostWakeup_iff (R := R) waitsInNeed).trans ⟨?_, ?_⟩
  · intro rouses k within tries isOpen full t wait blocked
    by_contra producer
    obtain ⟨ran, next⟩ := effect_spec within
    obtain ⟨after, silent⟩ := (R.state k).tryDequeue_silent
    rw [tries] at ran
    have effect : R.effect k = (R.state k).tryDequeue := (Option.some.inj ran).symm
    rw [effect, after] at next
    have stays : (R.state (k + 1)).threads t = some wait := by rw [← next]; exact blocked
    have stillOpen : (R.state (k + 1)).closed = false := by rw [← next]; exact isOpen
    -- there was no more than the buffer holds, and one value less is less than that
    have space : ¬ (R.state (k + 1)).Full := by
      have bounded := capacity (R := R) within.le
      unfold MessageQueue.Bounded at bounded
      unfold MessageQueue.Full at full ⊢
      rw [← next]
      simp only [List.length_tail]
      omega
    have waits := (full_of_waits within.le isOpen blocked producer).mpr full
    have ready := not_not.mp (mt (full_of_waits within stillOpen stays producer).mp space)
    obtain ⟨e, same, notified⟩ := rouses k within t wait blocked stays waits ready
    rw [tries] at same
    cases same
    simp [silent] at notified
  · intro nobody k within t wait blocked _ waits ready
    obtain ⟨ran, next⟩ := effect_spec within
    change ¬ (R.state k).ready wait at waits
    change (R.state (k + 1)).ready wait at ready
    rw [← next] at ready
    rcases (does within).rouses waits ready with notified | ⟨tries, isOpen, -, producer⟩
    · exact ⟨R.effect k, ran, notified⟩
    · have full := (full_of_waits within.le isOpen blocked producer).mp waits
      exact absurd (nobody k within tries isOpen full t wait blocked) producer

/-- A buffer of one: thread 0 fills it, thread 1 waits for space, and `try_dequeue` makes it. -/
def passedOver : List (Input Nat) := [.enqueue 0 99, .enqueue 1 100, .tryDequeue]

theorem no_waiter_stranded_refuted : ¬ ∀ R : QueueRun Nat, R.NoLostWakeup := by
  intro none
  let R : QueueRun Nat := .of 1 passedOver (by decide)
  have blocked : (R.state 3).threads 1 = some (.space 100) := by decide
  have ready : (R.state 3).ready (.space 100) := by decide
  obtain ⟨j, lt, ⟨e, ran, notified⟩, waiting, -⟩ := none R 3 (by decide) 1 _ blocked ready
  rcases (by omega : j = 0 ∨ j = 1 ∨ j = 2) with rfl | rfl | rfl
  · exact absurd (waiting 0 le_rfl (by decide)) (by decide)
  · exact absurd (waiting 1 le_rfl (by decide)) (by decide)
  · cases ran
    cases notified

end QueueRun

end Rafty.Toolings
