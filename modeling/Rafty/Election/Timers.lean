/-
# Rafty.Election.Timers — which timer runs, and that one does

Timers cancel one another through `timerCounter`: whoever starts a timer bumps the counter,
and a timer whose number is not the counter any more ends without a trace.  A change of
role never starts the timer it calls for.  It spawns a thread that will, and so do
`become_candidate` and `send_entries` when a timer has expired.

* `never_silent`: a running node always has a timer with the current number, or a thread
  that leads to one, so no timer is dropped for nothing;
* `live_timer_matches`: when no such thread is left, the timer is the one the role calls
  for exactly if the thread that started it last was of that kind.  Threads of both kinds
  can be pending, in any order, and the wrong one can come last (`startedLate`).
-/
import Rafty.Election.Safety

namespace Rafty

set_option autoImplicit false

open Theory

/-! ## Threads that concern the timers -/

/-- The thread that starts a timer of the mode. -/
def TimerMode.starter : TimerMode → Thread
  | .election => .startElectionTimer
  | .heartbeat => .startHeartbeatTimer

/-- The section of that thread. -/
def TimerMode.start : TimerMode → Input
  | .election => .startElectionTimer
  | .heartbeat => .startHeartbeatTimer

/-- The thread will start a timer, or spawn one that will. -/
def Thread.Rearms : Thread → Prop
  | .startElectionTimer | .startHeartbeatTimer | .becomeCandidate | .sendEntries => True
  | _ => False

/-- The thread is a timer or leads to one. -/
def Thread.Timed : Thread → Prop
  | .startTimer _ _ => True
  | thread => thread.Rearms

theorem Thread.Rearms.timed {thread : Thread} (rearms : thread.Rearms) : thread.Timed := by
  cases thread <;> trivial

instance (thread : Thread) : Decidable thread.Rearms := by
  cases thread <;> first | exact isTrue trivial | exact isFalse id

namespace Raft

variable {config : Config} {r r' s : Raft} {input : Input}

/-- A thread is pending that leads to a timer. -/
def Rearming (r : Raft) : Prop := ∃ thread ∈ r.threads, thread.Rearms

/-- A timer of the mode has the current number. -/
def Live (r : Raft) (mode : TimerMode) : Prop := .startTimer r.timerCounter mode ∈ r.threads

/-- The node will hear of a timer. -/
def Awake (r : Raft) : Prop := r.Rearming ∨ ∃ mode, r.Live mode

/-- The timer with the current number is of the role's kind, if no thread is pending that
leads to another one. -/
def LiveMatches (r : Raft) : Prop :=
  ¬ r.Rearming → ∀ mode, r.Live mode → mode = r.currentRole.timer

/-- No timer has a number that is still to come. -/
def Numbered (r : Raft) : Prop :=
  ∀ currentCounter mode, .startTimer currentCounter mode ∈ r.threads →
    currentCounter ≤ r.timerCounter

/-! ## What a step does to the timers -/

/-- Nothing that concerns the timers has changed. -/
structure Calm (r r' : Raft) : Prop where
  clock : r'.clock = r.clock
  timer : r'.currentRole.timer = r.currentRole.timer
  threads : ∀ thread, thread.Timed → (thread ∈ r'.threads ↔ thread ∈ r.threads)

theorem Calm.refl (r : Raft) : Calm r r := ⟨rfl, rfl, fun _ _ => Iff.rfl⟩

theorem Calm.trans (first : Calm r s) (second : Calm s r') : Calm r r' where
  clock := second.clock.trans first.clock
  timer := second.timer.trans first.timer
  threads thread timed := (second.threads thread timed).trans (first.threads thread timed)

theorem calm_finish {done : Thread} (other : ¬ done.Timed) : Calm r (r.finish done) where
  clock := rfl
  timer := rfl
  threads thread timed := by
    have ne : thread ≠ done := fun same => other (same ▸ timed)
    exact List.mem_erase_of_ne ne

theorem calm_append {new : List Thread} (others : ∀ thread ∈ new, ¬ thread.Timed) :
    Calm r { r with threads := r.threads ++ new } where
  clock := rfl
  timer := rfl
  threads thread timed := by
    rw [List.mem_append]
    exact or_iff_left fun member => others thread member timed

/-- What one section does to the timers. -/
inductive Ticks (r : Raft) : Input → Raft → Prop
  | kill : Ticks r .kill { r with dead := true }
  | arm {input : Input} (mode : TimerMode) (starts : input = mode.start)
      (pending : mode.starter ∈ r.threads) :
      Ticks r input ((r.finish mode.starter).startTimer mode)
  | drop {currentCounter : Nat} {mode : TimerMode}
      (superseded : r.timerSuperseded currentCounter) :
      Ticks r (.timerReset currentCounter mode) (r.finish (.startTimer currentCounter mode))
  /-- A thread that leads to a timer is pending now. -/
  | rearm {input : Input} {r' : Raft} (counter : r'.timerCounter = r.timerCounter)
      (timers : ∀ currentCounter mode, .startTimer currentCounter mode ∈ r'.threads →
        .startTimer currentCounter mode ∈ r.threads)
      (rearming : r'.Rearming) : Ticks r input r'
  | idle {input : Input} {r' : Raft} (calm : Calm r r') : Ticks r input r'

/-- A handler spawns a thread that starts a timer, or leaves the timers alone. -/
theorem Restarts.ticks (calm : Calm r s) (restarts : Restarts s r') : Ticks r input r' := by
  obtain ⟨clock, starts, threads, kinds, timer⟩ := restarts
  cases starts with
  | nil =>
      rw [List.append_nil] at threads
      exact .idle (calm.trans ⟨clock, timer rfl, fun _ _ => by rw [threads]⟩)
  | cons first rest =>
      have counter : r'.timerCounter = r.timerCounter :=
        congrArg Clock.timerCounter (clock.trans calm.clock)
      refine .rearm counter ?_ ⟨first, by simp [threads], ?_⟩
      · intro currentCounter mode member
        rw [threads] at member
        rcases List.mem_append.mp member with old | new
        · exact (calm.threads (.startTimer currentCounter mode) trivial).mp old
        · rcases kinds _ new with same | same <;> cases same
      · rcases kinds first List.mem_cons_self with rfl | rfl <;> trivial

/-- A thread that ends by spawning threads that lead to a timer. -/
theorem ticks_rearm (done thread : Thread) (new : List Thread) (member : thread ∈ new)
    (rearms : thread.Rearms) (threads : r'.threads = r.threads.erase done ++ new)
    (counter : r'.timerCounter = r.timerCounter)
    (others : ∀ currentCounter mode, .startTimer currentCounter mode ∉ new) :
    Ticks r input r' := by
  refine .rearm counter ?_ ⟨thread, by simp [threads, member], rearms⟩
  intro currentCounter mode pending
  rw [threads] at pending
  rcases List.mem_append.mp pending with old | fresh
  · exact List.mem_of_mem_erase old
  · exact absurd fresh (others currentCounter mode)

/-- **The list is complete.** -/
theorem step_ticks {output : Output} (stepped : r.step config input = some (r', output)) :
    Ticks r input r' := by
  cases step_section stepped with
  | kill => exact .kill
  | startElectionTimer pending => exact .arm .election rfl pending
  | startHeartbeatTimer pending => exact .arm .heartbeat rfl pending
  | timerReset pending superseded => exact .drop superseded
  | run =>
      refine .rearm rfl ?_ ⟨.startElectionTimer, by simp [Raft.run, spawn], trivial⟩
      intro currentCounter mode member
      simpa [Raft.run, spawn] using member
  | timerExpired pending live =>
      unfold timerExpired
      split
      · exact ticks_rearm _ .becomeCandidate [_] List.mem_cons_self trivial rfl rfl (by simp)
      · exact ticks_rearm _ .sendEntries [_] List.mem_cons_self trivial rfl rfl (by simp)
  | becomeCandidate pending =>
      exact ticks_rearm .becomeCandidate .startElectionTimer [_, .requestVotes] List.mem_cons_self
        trivial (by simp [becomeCandidate, spawn, finish]) rfl (by simp)
  | sendEntries pending =>
      refine ticks_rearm .sendEntries .startHeartbeatTimer
        (config.peers.map Thread.sendEntriesTo ++ [.startHeartbeatTimer])
        (List.mem_append_right _ (List.mem_singleton_self _)) trivial ?_ rfl (by simp)
      simp [sendEntries, spawn, finish]
  | requestVotes =>
      refine .idle ((calm_finish id).trans (calm_append ?_))
      simp [Thread.Timed, Thread.Rearms]
  | requestVote | sendEntriesTo =>
      refine .idle ((calm_finish id).trans (calm_append ?_))
      simp [Thread.Timed, Thread.Rearms]
  | voteFailed | sendNothing | appendFailed => exact .idle (calm_finish id)
  | replyVote => exact (restarts_replyVote _).ticks (.refl r)
  | appendEntries answered => exact (restarts_appendEntries answered).ticks (.refl r)
  | voteReply => exact (restarts_handleVoteReply _ _).ticks (calm_finish id)
  | appendReply _ handled => exact (restarts_handleAppendReply handled).ticks (calm_finish id)
  | propose => exact (restarts_propose _).ticks (.refl r)
  | proposeSync => exact (restarts_proposeSync _).ticks (.refl r)
  | wakeSync => exact (restarts_wakeSync _).ticks (.refl r)

/-- A thread starts a timer. -/
theorem step_start {mode : TimerMode} {output : Output}
    (stepped : r.step config mode.start = some (r', output)) :
    mode.starter ∈ r.threads ∧ r' = (r.finish mode.starter).startTimer mode := by
  cases mode with
  | election =>
      cases step_section stepped with
      | startElectionTimer pending => exact ⟨pending, rfl⟩
  | heartbeat =>
      cases step_section stepped with
      | startHeartbeatTimer pending => exact ⟨pending, rfl⟩

/-! ## What a step keeps -/

theorem Calm.rearming (calm : Calm r r') : r'.Rearming ↔ r.Rearming := by
  constructor
  · rintro ⟨thread, member, rearms⟩
    exact ⟨thread, (calm.threads thread rearms.timed).mp member, rearms⟩
  · rintro ⟨thread, member, rearms⟩
    exact ⟨thread, (calm.threads thread rearms.timed).mpr member, rearms⟩

theorem Calm.live (calm : Calm r r') (mode : TimerMode) : r'.Live mode ↔ r.Live mode := by
  have counter : r'.timerCounter = r.timerCounter := congrArg Clock.timerCounter calm.clock
  rw [Live, Live, counter]
  exact calm.threads (.startTimer r.timerCounter mode) trivial

/-- Dropping a timer with an old number leaves the threads that lead to one, -/
theorem rearming_finish {currentCounter : Nat} {mode : TimerMode} :
    (r.finish (.startTimer currentCounter mode)).Rearming ↔ r.Rearming := by
  have other : ∀ thread : Thread, thread.Rearms → thread ≠ .startTimer currentCounter mode := by
    rintro thread rearms rfl
    exact rearms
  constructor
  · rintro ⟨thread, member, rearms⟩
    exact ⟨thread, List.mem_of_mem_erase member, rearms⟩
  · rintro ⟨thread, member, rearms⟩
    exact ⟨thread, (List.mem_erase_of_ne (other thread rearms)).mpr member, rearms⟩

/-- and the timer with the current one. -/
theorem live_finish {currentCounter : Nat} {mode : TimerMode}
    (old : r.timerCounter ≠ currentCounter) (kind : TimerMode) :
    (r.finish (.startTimer currentCounter mode)).Live kind ↔ r.Live kind := by
  apply List.mem_erase_of_ne
  intro same
  injection same with counter
  exact old counter

theorem live_startTimer (mode : TimerMode) : (s.startTimer mode).Live mode :=
  List.mem_append_right _ (List.mem_singleton_self _)

/-- **No step silences a node.** -/
theorem Ticks.awake (ticks : Ticks r input r') (alive : r'.dead = false)
    (awake : r'.active = r.active → r.dead = false → r.Awake) : r'.Awake := by
  cases ticks with
  | kill => cases alive
  | arm mode _ _ => exact Or.inr ⟨mode, live_startTimer mode⟩
  | rearm _ _ rearming => exact Or.inl rearming
  | drop superseded =>
      have old := superseded.resolve_left (by simpa [finish] using alive)
      exact (awake rfl alive).imp rearming_finish.mpr
        (Exists.imp fun kind => (live_finish old kind).mpr)
  | idle calm =>
      have active := congrArg Clock.active calm.clock
      have dead := congrArg Clock.dead calm.clock
      exact (awake active (dead.symm.trans alive)).imp calm.rearming.mpr
        (Exists.imp fun kind => (calm.live kind).mpr)

theorem Ticks.numbered (ticks : Ticks r input r') (numbered : r.Numbered) : r'.Numbered := by
  intro currentCounter mode pending
  cases ticks with
  | kill => exact numbered _ _ pending
  | arm started _ _ =>
      rcases List.mem_append.mp pending with old | new
      · exact Nat.le_succ_of_le (numbered _ _ (List.mem_of_mem_erase old))
      · cases List.mem_singleton.mp new
        exact le_rfl
  | drop _ => exact numbered _ _ (List.mem_of_mem_erase pending)
  | rearm counter timers _ =>
      rw [counter]
      exact numbered _ _ (timers _ _ pending)
  | idle calm =>
      have counter : r'.timerCounter = r.timerCounter := congrArg Clock.timerCounter calm.clock
      rw [counter]
      exact numbered _ _ ((calm.threads (.startTimer currentCounter mode) trivial).mp pending)

/-- After a timer was started the current number is its own. -/
theorem live_arm {mode kind : TimerMode} (numbered : r.Numbered)
    (live : ((r.finish mode.starter).startTimer mode).Live kind) : kind = mode := by
  rcases List.mem_append.mp live with old | new
  · have bound := numbered _ _ (List.mem_of_mem_erase old)
    change r.timerCounter + 1 ≤ r.timerCounter at bound
    omega
  · cases List.mem_singleton.mp new
    rfl

theorem rearming_arm {mode : TimerMode} :
    ((r.finish mode.starter).startTimer mode).Rearming ↔ (r.finish mode.starter).Rearming := by
  constructor
  · rintro ⟨thread, member, rearms⟩
    rcases List.mem_append.mp member with old | new
    · exact ⟨thread, old, rearms⟩
    · rw [List.mem_singleton.mp new] at rearms
      cases rearms
  · rintro ⟨thread, member, rearms⟩
    exact ⟨thread, List.mem_append_left _ member, rearms⟩

/-- A step keeps the timer right, unless it starts the wrong one and no thread is left that
would start another. -/
theorem Ticks.liveMatches (ticks : Ticks r input r') (numbered : r.Numbered)
    (alive : r'.dead = false) (matches_ : r.dead = false → r.LiveMatches)
    (last : ∀ mode : TimerMode, input = mode.start → r.dead = false →
      ¬ (r.finish mode.starter).Rearming → mode = r.currentRole.timer) : r'.LiveMatches := by
  intro still kind live
  cases ticks with
  | kill => cases alive
  | rearm _ _ rearming => exact absurd rearming still
  | arm mode starts _ =>
      rw [live_arm numbered live]
      exact last mode starts alive (mt rearming_arm.mpr still)
  | drop superseded =>
      have old := superseded.resolve_left (by simpa [finish] using alive)
      exact matches_ alive (mt rearming_finish.mpr still) kind ((live_finish old kind).mp live)
  | idle calm =>
      have dead := congrArg Clock.dead calm.clock
      rw [calm.timer]
      exact matches_ (dead.symm.trans alive) (mt calm.rearming.mpr still) kind
        ((calm.live kind).mp live)

end Raft

namespace ClusterRun

variable {cl : Cluster} {R : ClusterRun cl} {k a : Nat} {output : Output}

/-- Node 1 is elected, and its heartbeat timer is started before the election timer that
it spawned a thread for when it became a candidate. -/
def startedLate : List Action :=
  oneElection ++ [⟨1, .startHeartbeatTimer⟩, ⟨1, .startElectionTimer⟩]

/-! ## No node goes silent -/

theorem awake (bound : k ≤ R.length) (active : (R.node k a).active = true)
    (alive : (R.node k a).dead = false) : (R.node k a).Awake := by
  revert active alive
  apply R.invariant (P := fun k => (R.node k a).active = true → (R.node k a).dead = false →
    (R.node k a).Awake) ?_ ?_ k bound
  · intro active _
    obtain ⟨role, isNew⟩ := R.start_node a
    simp [isNew, Raft.new] at active
  · intro k within ih active alive
    rcases node_cases within a with same | ⟨input, output, ran⟩
    · rw [same] at active alive ⊢
      exact ih active alive
    · exact (Raft.step_ticks ran.stepped).awake alive fun before => ih (before.symm.trans active)

/-- **A node never goes silent.**  While it runs and is not killed, it has a timer with the
current number or a thread that leads to one; and a timer that is dropped has an old number
and leaves one of them behind. -/
theorem never_silent (R : ClusterRun cl) :
    (∀ k a, k ≤ R.length → (R.node k a).active = true → (R.node k a).dead = false →
      (R.node k a).Awake) ∧
    ∀ k a currentCounter mode output, R.Ran k a (.timerReset currentCounter mode) output →
      (R.node k a).dead = false →
        (R.node k a).timerCounter ≠ currentCounter ∧ (R.node (k + 1) a).Awake := by
  constructor
  · intro k a bound
    exact awake bound
  · intro k a currentCounter mode output ran alive
    have active := active_of_thread ran.within.le (ran.pending rfl)
    generalize after : R.node (k + 1) a = r'
    have stepped := after ▸ ran.stepped
    cases Raft.step_section stepped with
    | timerReset pending superseded =>
        refine ⟨superseded.resolve_left (by simp [alive]), ?_⟩
        rw [← after]
        exact awake ran.within (after ▸ active) (after ▸ alive)

theorem never_silent_of_reset :
    ∃ R : ClusterRun (.ofSize 3 (by decide)),
      (R.node 12 1).timerCounter ≠ 2 ∧ (R.node 13 1).Awake := by
  let R : ClusterRun (.ofSize 3 (by decide)) :=
    .of _ (startedLate ++ [⟨1, .timerReset 2 .heartbeat⟩]) (by decide +kernel)
  obtain ⟨output, ran⟩ := ran_of_action (R := R) (by decide)
    (show R.input 12 = ⟨1, .timerReset 2 .heartbeat⟩ from rfl)
  exact ⟨R, (never_silent R).2 12 1 2 .heartbeat output ran (by decide +kernel)⟩

/-! ## The timer of the role -/

theorem numbered (bound : k ≤ R.length) (a : Nat) : (R.node k a).Numbered := by
  apply R.invariant (P := fun k => (R.node k a).Numbered) ?_ ?_ k bound
  · obtain ⟨role, isNew⟩ := R.start_node a
    intro currentCounter mode pending
    simp [isNew, Raft.new] at pending
  · intro k within ih
    rcases node_cases within a with same | ⟨input, output, ran⟩
    · rwa [same]
    · exact (Raft.step_ticks ran.stepped).numbered ih

/-- A thread that starts a timer and leaves no other thread that leads to one starts the
timer of the role. -/
def LastStartMatches (R : ClusterRun cl) : Prop :=
  ∀ k a mode output, R.Ran k a (TimerMode.start mode) output → (R.node k a).dead = false →
    ¬ ((R.node k a).finish mode.starter).Rearming → mode = (R.node k a).currentRole.timer

theorem liveMatches (last : R.LastStartMatches) (bound : k ≤ R.length)
    (alive : (R.node k a).dead = false) : (R.node k a).LiveMatches := by
  revert alive
  apply R.invariant (P := fun k => (R.node k a).dead = false → (R.node k a).LiveMatches)
    ?_ ?_ k bound
  · obtain ⟨role, isNew⟩ := R.start_node a
    intro _ _ mode live
    simp [isNew, Raft.new, Raft.Live] at live
  · intro k within ih alive
    rcases node_cases within a with same | ⟨input, output, ran⟩
    · rw [same] at alive ⊢
      exact ih alive
    · refine (Raft.step_ticks ran.stepped).liveMatches (numbered within.le a) alive ih ?_
      rintro mode rfl
      exact last k a mode output ran

/-- **The live timer is the one of the role**, on every running node without a thread that
leads to another one, exactly if the last such thread always starts the timer of the role
it finds. -/
theorem live_timer_matches (R : ClusterRun cl) :
    (∀ k a, k ≤ R.length → (R.node k a).active = true → (R.node k a).dead = false →
      ¬ (R.node k a).Rearming →
        ∀ mode, (R.node k a).Live mode ↔ mode = (R.node k a).currentRole.timer) ↔
      R.LastStartMatches := by
  constructor
  · intro matches_ k a mode output ran alive still
    obtain ⟨pending, started⟩ := Raft.step_start ran.stepped
    have active := active_of_thread ran.within.le pending
    have after := matches_ (k + 1) a ran.within
    rw [started] at after
    exact (after active alive (mt Raft.rearming_arm.mp still) mode).mp (Raft.live_startTimer mode)
  · intro last k a bound active alive still mode
    have only := liveMatches last bound alive still
    obtain ⟨some, live⟩ := (awake bound active alive).resolve_left still
    constructor
    · exact only mode
    · rintro rfl
      exact only some live ▸ live

theorem live_timer_matches_refuted :
    ¬ ∀ (cl : Cluster) (R : ClusterRun cl) (k a : Nat), k ≤ R.length →
      (R.node k a).active = true → (R.node k a).dead = false → ¬ (R.node k a).Rearming →
        ∀ mode, (R.node k a).Live mode ↔ mode = (R.node k a).currentRole.timer := by
  intro matches_
  let R : ClusterRun (.ofSize 3 (by decide)) := .of _ startedLate (by decide +kernel)
  have still : ¬ (R.node 12 1).Rearming := by
    unfold Raft.Rearming
    decide +kernel
  have live : (R.node 12 1).Live .election := by
    unfold Raft.Live
    decide +kernel
  have role : (R.node 12 1).currentRole.timer = .heartbeat := by decide +kernel
  have same := (matches_ _ R 12 1 (by decide) (by decide +kernel) (by decide +kernel) still
    .election).mp live
  rw [role] at same
  cases same

end ClusterRun

end Rafty
