/-
# Rafty.Election.Standing — a running node can stand for any later term

What a node does by itself, without a message coming in: its threads run one after the
other (`Alone`).  As long as it is not the leader, whatever thread or timer is left to it
leads to `become_candidate` (`stands`), which leaves a thread that starts the next
election timer; so the node can stand again and again, for as late a term as it takes
(`stands_later`).  A leader can send to every peer in the same way (`beats`).

`Up` is what makes this possible; it lasts until `kill` (`step_up`).
-/
import Rafty.Election.Timers
import Rafty.Kernel.Progress

namespace Rafty

set_option autoImplicit false

open Theory

/-- The section needs nothing from the network. -/
def Input.Own : Input → Prop
  | .startElectionTimer | .startHeartbeatTimer | .timerExpired _ _ | .becomeCandidate
  | .requestVotes | .sendEntries => True
  | _ => False

/-- A detached thread or a handler runs: nothing that the application calls. -/
def Input.Internal : Input → Prop
  | .run | .kill | .propose _ | .proposeSync _ | .wakeSync _ => False
  | _ => True

theorem Input.Own.internal {input : Input} (own : input.Own) : input.Internal := by
  cases input <;> first | exact own | trivial

namespace Raft

variable {config : Config} {r r' s : Raft} {first second : List Input}

/-! ## Nodes that are up -/

/-- `run` was called, `kill` was not, and the node will hear of a timer. -/
structure Up (r : Raft) : Prop where
  active : r.active = true
  alive : r.dead = false
  awake : r.Awake

/-- Only `kill` sets `dead`. -/
theorem step_dead {input : Input} {output : Output} (other : input ≠ .kill)
    (stepped : r.step config input = some (r', output)) : r'.dead = r.dead := by
  cases step_section stepped with
  | kill => exact absurd rfl other
  | timerExpired =>
      unfold timerExpired
      split <;> rfl
  | replyVote => exact congrArg Clock.dead (restarts_replyVote _).clock
  | voteReply => exact congrArg Clock.dead (restarts_handleVoteReply _ _).clock
  | appendEntries answered => exact congrArg Clock.dead (restarts_appendEntries answered).clock
  | appendReply _ handled => exact congrArg Clock.dead (restarts_handleAppendReply handled).clock
  | propose => exact congrArg Clock.dead (restarts_propose _).clock
  | proposeSync => exact congrArg Clock.dead (restarts_proposeSync _).clock
  | wakeSync => exact congrArg Clock.dead (restarts_wakeSync _).clock
  | _ => rfl

/-- **A node stays up** until it is killed. -/
theorem step_up {input : Input} {output : Output} (other : input ≠ .kill)
    (stepped : r.step config input = some (r', output)) (up : r.Up) : r'.Up where
  active := (step_change stepped).tenure.active up.active
  alive := (step_dead other stepped).trans up.alive
  awake := (step_ticks stepped).awake ((step_dead other stepped).trans up.alive)
    fun _ _ => up.awake

/-! ## What a node does by itself -/

/-- The node runs the sections one after the other and sends nothing. -/
inductive Alone (config : Config) : Raft → List Input → Raft → Prop
  | nil {r : Raft} : Alone config r [] r
  | cons {r s r' : Raft} {input : Input} {rest : List Input} (own : input.Own)
      (runs : Section config r input s .none) (later : Alone config s rest r') :
      Alone config r (input :: rest) r'

theorem Alone.append (before : Alone config r first s) (after : Alone config s second r') :
    Alone config r (first ++ second) r' := by
  induction before with
  | nil => exact after
  | cons own runs _ ih => exact .cons own runs (ih after)

theorem Alone.single {input : Input} (own : input.Own) (runs : Section config r input r' .none) :
    Alone config r [input] r' := .cons own runs .nil

/-! ## Standing -/

/-- `r'` stands for a term `n` above that of `r`; its threads will ask for votes and start
the election timer. -/
structure Stood (config : Config) (n : Nat) (r r' : Raft) : Prop where
  core : r'.core =
    { r.core with
      currentRole := .candidate
      currentTerm := r.currentTerm + n
      votedFor := asInt64 config.id
      votes := {config.id} }
  dead : r'.dead = r.dead
  asks : .requestVotes ∈ r'.threads
  rearms : .startElectionTimer ∈ r'.threads

theorem Stood.trans {n m : Nat} (before : Stood config n r s) (after : Stood config m s r') :
    Stood config (n + m) r r' := by
  have first := before.core
  have second := after.core
  simp only [Raft.core, Core.mk.injEq] at first
  refine ⟨?_, after.dead.trans before.dead, after.asks, after.rearms⟩
  rw [second]
  simp only [Raft.core, first, Core.mk.injEq, Int.natCast_add]
  simp [Int.add_assoc]

/-- The thread that becomes candidate runs. -/
theorem stands_of_candidate (config : Config) (pending : .becomeCandidate ∈ r.threads) :
    ∃ inputs r', Alone config r inputs r' ∧ Stood config 1 r r' := by
  refine ⟨_, _, .single (by trivial) (.becomeCandidate pending), ?_, rfl, ?_, ?_⟩
  · simp [becomeCandidate, core, spawn, finish]
  · simp [becomeCandidate, spawn]
  · simp [becomeCandidate, spawn]

/-- From a state that differs in timers and threads only. -/
theorem Stood.of_core {n : Nat} (stood : Stood config n s r') (core : s.core = r.core)
    (dead : s.dead = r.dead) : Stood config n r r' := by
  refine ⟨?_, stood.dead.trans dead, stood.asks, stood.rearms⟩
  have term : s.currentTerm = r.currentTerm := congrArg Core.currentTerm core
  rw [stood.core, core, term]

/-- The timer with the current number expires. -/
theorem stands_of_live (config : Config) {mode : TimerMode} (live : r.Live mode)
    (alive : r.dead = false)
    (role : r.currentRole ≠ .leader) :
    ∃ inputs r', Alone config r inputs r' ∧ Stood config 1 r r' := by
  have current : ¬ r.timerSuperseded r.timerCounter := by simp [timerSuperseded, alive]
  have expired : (r.finish (.startTimer r.timerCounter mode)).timerExpired =
      (r.finish (.startTimer r.timerCounter mode)).spawn .becomeCandidate := by
    apply if_pos
    cases h : r.currentRole <;> simp_all [finish]
  obtain ⟨inputs, r', alone, stood⟩ := stands_of_candidate config
    (r := (r.finish (.startTimer r.timerCounter mode)).spawn .becomeCandidate) (by simp [spawn])
  have runs : Section config r (.timerExpired r.timerCounter mode)
      ((r.finish (.startTimer r.timerCounter mode)).spawn .becomeCandidate) .none :=
    expired ▸ .timerExpired live current
  exact ⟨_, r', .cons (by trivial) runs alone, stood.of_core (by simp [finish]) rfl⟩

/-- A thread that starts a timer does. -/
theorem stands_of_starter (config : Config) (mode : TimerMode) (pending : mode.starter ∈ r.threads)
    (alive : r.dead = false) (role : r.currentRole ≠ .leader) :
    ∃ inputs r', Alone config r inputs r' ∧ Stood config 1 r r' := by
  obtain ⟨inputs, r', alone, stood⟩ := stands_of_live config
    (live_startTimer (s := r.finish mode.starter) mode) alive role
  have same := stood.of_core (r := r) (by simp [finish]) rfl
  cases mode with
  | election => exact ⟨_, r', .cons (by trivial) (.startElectionTimer pending) alone, same⟩
  | heartbeat => exact ⟨_, r', .cons (by trivial) (.startHeartbeatTimer pending) alone, same⟩

/-- **A node that hears of a timer can stand**, unless it leads. -/
theorem stands (config : Config) (awake : r.Awake) (alive : r.dead = false)
    (role : r.currentRole ≠ .leader) :
    ∃ inputs r', Alone config r inputs r' ∧ Stood config 1 r r' := by
  rcases awake with ⟨thread, pending, rearms⟩ | ⟨mode, live⟩
  · cases thread with
    | startElectionTimer => exact stands_of_starter config .election pending alive role
    | startHeartbeatTimer => exact stands_of_starter config .heartbeat pending alive role
    | becomeCandidate => exact stands_of_candidate config pending
    | sendEntries =>
        obtain ⟨inputs, r', alone, stood⟩ := stands_of_starter config
          (r := (r.finish .sendEntries).sendEntries config) .heartbeat
          (by simp [sendEntries, spawn, TimerMode.starter]) alive role
        exact ⟨_, r', .cons (by trivial) (.sendEntries pending) alone, stood.of_core rfl rfl⟩
    | startTimer | requestVotes | requestVote | awaitVote | sendEntriesTo | awaitAppend =>
        cases rearms
  · exact stands_of_live config live alive role

/-- **It can stand for any later term.** -/
theorem stands_later (config : Config) (awake : r.Awake) (alive : r.dead = false)
    (role : r.currentRole ≠ .leader)
    (n : Nat) : ∃ inputs r', Alone config r inputs r' ∧ Stood config (n + 1) r r' := by
  induction n with
  | zero => exact stands config awake alive role
  | succ n ih =>
      obtain ⟨before, s, alone, stood⟩ := ih
      have candidate : s.currentRole = .candidate := congrArg Core.currentRole stood.core
      obtain ⟨after, r', alone', stood'⟩ := stands config (r := s)
        (Or.inl ⟨_, stood.rearms, trivial⟩) (stood.dead.trans alive) (by simp [candidate])
      exact ⟨_, r', alone.append alone', stood.trans stood'⟩

/-! ## Sending -/

/-- Threads that send to every peer are pending, and nothing else about the node has
changed but its timers. -/
structure Beats (config : Config) (r r' : Raft) : Prop where
  core : r'.core = r.core
  progress : r'.progress = r.progress
  dead : r'.dead = r.dead
  sends : ∀ p ∈ config.peers, .sendEntriesTo p ∈ r'.threads
  rearms : .startHeartbeatTimer ∈ r'.threads

theorem beats_of_sending (config : Config) (pending : .sendEntries ∈ r.threads) :
    ∃ inputs r', Alone config r inputs r' ∧ Beats config r r' := by
  refine ⟨_, _, .single (by trivial) (.sendEntries pending), rfl, rfl, rfl, ?_, ?_⟩
  · intro p member
    exact List.mem_append_left _ (List.mem_append_right _ (List.mem_map_of_mem member))
  · simp [sendEntries, spawn]

theorem Beats.of_same (beats : Beats config s r') (core : s.core = r.core)
    (progress : s.progress = r.progress) (dead : s.dead = r.dead) : Beats config r r' where
  core := beats.core.trans core
  progress := beats.progress.trans progress
  dead := beats.dead.trans dead
  sends := beats.sends
  rearms := beats.rearms

theorem beats_of_live (config : Config) {mode : TimerMode} (live : r.Live mode)
    (alive : r.dead = false) (role : r.currentRole = .leader) :
    ∃ inputs r', Alone config r inputs r' ∧ Beats config r r' := by
  have current : ¬ r.timerSuperseded r.timerCounter := by simp [timerSuperseded, alive]
  have expired : (r.finish (.startTimer r.timerCounter mode)).timerExpired =
      (r.finish (.startTimer r.timerCounter mode)).spawn .sendEntries := by
    apply if_neg
    simp [finish, role]
  obtain ⟨inputs, r', alone, beats⟩ := beats_of_sending config
    (r := (r.finish (.startTimer r.timerCounter mode)).spawn .sendEntries) (by simp [spawn])
  have runs : Section config r (.timerExpired r.timerCounter mode)
      ((r.finish (.startTimer r.timerCounter mode)).spawn .sendEntries) .none :=
    expired ▸ .timerExpired live current
  exact ⟨_, r', .cons (by trivial) runs alone, beats.of_same (by simp [finish]) rfl rfl⟩

theorem beats_of_starter (config : Config) (mode : TimerMode) (pending : mode.starter ∈ r.threads)
    (alive : r.dead = false) (role : r.currentRole = .leader) :
    ∃ inputs r', Alone config r inputs r' ∧ Beats config r r' := by
  obtain ⟨inputs, r', alone, beats⟩ := beats_of_live config
    (live_startTimer (s := r.finish mode.starter) mode) alive role
  have same := beats.of_same (r := r) (by simp [finish]) rfl rfl
  cases mode with
  | election => exact ⟨_, r', .cons (by trivial) (.startElectionTimer pending) alone, same⟩
  | heartbeat => exact ⟨_, r', .cons (by trivial) (.startHeartbeatTimer pending) alone, same⟩

/-- **A leader can send to every peer**, unless a pending thread makes it a candidate. -/
theorem beats (config : Config) (up : r.Up) (role : r.currentRole = .leader) :
    (∃ inputs r', Alone config r inputs r' ∧ Beats config r r') ∨
      .becomeCandidate ∈ r.threads := by
  obtain ⟨-, alive, ⟨thread, pending, rearms⟩ | ⟨mode, live⟩⟩ := up
  · cases thread with
    | startElectionTimer => exact Or.inl (beats_of_starter config .election pending alive role)
    | startHeartbeatTimer => exact Or.inl (beats_of_starter config .heartbeat pending alive role)
    | becomeCandidate => exact Or.inr pending
    | sendEntries => exact Or.inl (beats_of_sending config pending)
    | startTimer | requestVotes | requestVote | awaitVote | sendEntriesTo | awaitAppend =>
        cases rearms
  · exact Or.inl (beats_of_live config live alive role)

end Raft

end Rafty
