/-
# Rafty.Replication.Provenance — who built a request and what it does to a log

A request in the network was built at one step by the thread of one node (`Sent`),
and carries that node's whole log from one position on.  A log changes at a step in
one of two ways (`LogStep`): its node proposes as leader, or a handler accepts a
request and splices the sender's log into its own (`Splice`).

The role is checked when the timer expires and not again.  As long as no node
leaves the Leader role while a thread of `send_entries` has yet to build its
request, every request was built by a leader (`append_provenance`); a step-down in
between, and the request goes out all the same (`append_provenance_refuted`).
-/
import Rafty.Election.Safety
import Rafty.Kernel.Bounds

namespace Rafty

set_option autoImplicit false

open Theory

/-- The number of entries of the sender's log that come before those sent. -/
def AppendCall.pos (call : AppendCall) : Nat := call.req.prevLogIndex.toNat

/-- A call of `propose` or `propose_sync`. -/
def Input.Proposes : Input → Prop
  | .propose _ | .proposeSync _ => True
  | _ => False

instance (input : Input) : Decidable input.Proposes := by
  cases input <;> first | exact isTrue trivial | exact isFalse id

/-- The section of a per-peer thread of `send_entries`. -/
def Input.Builds : Input → Prop
  | .sendEntriesTo _ => True
  | _ => False

instance (input : Input) : Decidable input.Builds := by
  cases input <;> first | exact isTrue trivial | exact isFalse id

namespace Raft

variable {config : Config} {r r' : Raft}

/-- What the thread for `target` puts in a request, and keeps. -/
structure Sends (config : Config) (r : Raft) (target : Nat) (call : AppendCall) : Prop where
  caller : call.caller = config.id
  receiver : call.target = target
  term : call.req.term = r.currentTerm
  leaderId : call.req.leaderId = asInt64 config.id
  leaderCommit : call.req.leaderCommit = r.commitIndex
  prev : call.req.prevLogIndex = call.pos
  inside : call.pos ≤ r.log.length
  prevTerm : call.pos = 0 ∧ call.req.prevLogTerm = 0 ∨
    ∃ entry, 0 < call.pos ∧ r.log[call.pos - 1]? = some entry ∧
      call.req.prevLogTerm = entry.term
  entries : call.req.entries = r.log.drop call.pos
  size : call.currentLogSize = r.log.length
  counter : call.currentReplyCounter = r.replyCounter target + 1
  next : call.currentNextIndex = call.pos + 1
  sameNext : call.currentNextIndex = r.nextIndex target
  matched : call.currentMatchIndex = r.matchIndex target

theorem sends_of_appendCall {target : Nat} {call : AppendCall}
    (built : r.appendCall config target = some call) : Sends config r target call := by
  simp only [appendCall] at built
  split at built
  · rename_i range
    cases built
    by_cases first : r.nextIndex target = 1
    · exact
        { caller := rfl, receiver := rfl, term := rfl, leaderId := by simp only, leaderCommit := rfl
          prev := by simp [AppendCall.pos, first]
          inside := by simp [AppendCall.pos, first]
          prevTerm := Or.inl (by simp [AppendCall.pos, first])
          entries := by simp [AppendCall.pos, first]
          size := rfl, counter := rfl
          next := by simp [AppendCall.pos, first]
          sameNext := rfl, matched := rfl }
    · have later : 1 < r.nextIndex target := by omega
      have before : (r.nextIndex target - 1).toNat - 1 < r.log.length := by omega
      refine
        { caller := rfl, receiver := rfl, term := rfl, leaderId := by simp only, leaderCommit := rfl
          prev := by simp only [AppendCall.pos, if_pos later]; omega
          inside := by simp only [AppendCall.pos, if_pos later]; omega
          prevTerm := Or.inr ⟨r.log[(r.nextIndex target - 1).toNat - 1], ?_, ?_, ?_⟩
          entries := by simp only [AppendCall.pos, if_pos later]
          size := rfl, counter := rfl
          next := by simp only [AppendCall.pos, if_pos later]; omega
          sameNext := rfl, matched := rfl }
      · simp only [AppendCall.pos, if_pos later]
        omega
      · simp only [AppendCall.pos, if_pos later]
        exact List.getElem?_eq_getElem before
      · have read := r.readLog_pred (i := r.nextIndex target - 1) (by omega)
        rw [List.getElem?_eq_getElem before, show r.nextIndex target - 1 - 1 =
          r.nextIndex target - 2 by omega] at read
        simp only [if_pos later, read, Option.map_some, Option.getD_some]
  · cases built

/-- The request reaches to the end of the log. -/
theorem Sends.lastLogIndexSent {target : Nat} {call : AppendCall}
    (sends : Sends config r target call) : lastLogIndexSent call = r.log.length := by
  have inside := sends.inside
  rw [Raft.lastLogIndexSent, sends.next, sends.entries, List.length_drop]
  omega

/-- In the leadership of the request the log covers it. -/
theorem Sends.covers {target : Nat} {call : AppendCall} (sends : Sends config r target call)
    (tenure : Tenure r r') : r'.Covers call := by
  intro role term
  have grown := (tenure.office (term.symm.trans sends.term) (by simp [role])).2
  have longer := grown.length_le
  have size := sends.size
  have sent := sends.lastLogIndexSent
  constructor <;> omega

/-- Only the per-peer thread of `send_entries` sends an append request. -/
theorem appendRequest_built {input : Input} {call : AppendCall}
    (stepped : r.step config input = some (r', .appendEntries call)) :
    input = .sendEntriesTo call.target ∧ Sends config r call.target call := by
  generalize sent : Output.appendEntries call = output at stepped
  cases step_section stepped with
  | sendEntriesTo _ built =>
      cases sent
      have sends := sends_of_appendCall built
      have same := sends.receiver
      subst same
      exact ⟨rfl, sends⟩
  | @proposeSync data =>
      cases result : (r.proposeSync data).2 <;> simp [result, Output.ofResult] at sent
  | @wakeSync woken =>
      cases result : (r.wakeSync woken).2 <;> simp [result, Output.ofResult] at sent
  | _ => cases sent

theorem step_timerExpired {currentCounter : Nat} {mode : TimerMode} {output : Output}
    (stepped : r.step config (.timerExpired currentCounter mode) = some (r', output)) :
    r'.currentRole = r.currentRole := by
  cases step_section stepped with
  | timerExpired => exact congrArg Core.currentRole (core_timerExpired _)

/-- A thread of `send_entries` has yet to build its request. -/
def Sending (r : Raft) : Prop :=
  .sendEntries ∈ r.threads ∨ ∃ target, .sendEntriesTo target ∈ r.threads

end Raft

namespace ClusterRun

variable {cl : Cluster} {R : ClusterRun cl} {j k a : Nat} {t : Int} {call : AppendCall}

/-! ## Requests -/

/-- At step `j` the caller of `call` builds it and sends it. -/
structure Sent (R : ClusterRun cl) (j : Nat) (call : AppendCall) : Prop where
  ran : R.Ran j call.caller (.sendEntriesTo call.target) (.appendEntries call)
  sends : Raft.Sends (cl.config call.caller) (R.node j call.caller) call.target call

theorem sent_of_ran {b : Nat} {input : Input} (ran : R.Ran j b input (.appendEntries call)) :
    R.Sent j call := by
  obtain ⟨isSend, sends⟩ := Raft.appendRequest_built ran.stepped
  have caller : call.caller = b := sends.caller
  subst caller isSend
  exact ⟨ran, sends⟩

theorem sent_of_request (bound : k ≤ R.length) (member : call ∈ (R.state k).appendRequests) :
    ∃ j, j < k ∧ R.Sent j call := by
  obtain ⟨j, b, input, lt, ran⟩ := appendRequest_sent bound member
  exact ⟨j, lt, sent_of_ran ran⟩

/-- A waiting call was built by the node that waits, at an earlier step. -/
theorem sends_of_pending (bound : k ≤ R.length)
    (pending : .awaitAppend call ∈ (R.node k a).threads) :
    ∃ j, j < k ∧ Raft.Sends (cl.config a) (R.node j a) call.target call := by
  obtain ⟨j, input, output, lt, ran, spawned⟩ := thread_spawned bound pending
  cases spawned with
  | awaitAppend built =>
      have sends := Raft.sends_of_appendCall built
      exact ⟨j, lt, sends.receiver ▸ sends⟩

/-! ## Logs -/

/-- At step `k` node `a` accepts `call`, sent at step `j`, and splices the sender's log
into its own. -/
structure Splice (R : ClusterRun cl) (k a j : Nat) (call : AppendCall) : Prop where
  lt : j < k
  within : k < R.length
  sent : R.Sent j call
  target : call.target = a
  notOld : (R.node k a).currentTerm ≤ call.req.term
  term : (R.node (k + 1) a).currentTerm = call.req.term
  role : (R.node (k + 1) a).currentRole = .follower
  inside : call.pos ≤ (R.node k a).log.length
  agree : 0 < call.pos → ∃ x y, (R.node k a).log[call.pos - 1]? = some x ∧
    (R.node j call.caller).log[call.pos - 1]? = some y ∧ x.term = y.term
  log : (R.node (k + 1) a).log =
    overwrite Entry.term (R.node k a).log call.pos ((R.node j call.caller).log.drop call.pos)

/-- Passing the consistency check is a splice. -/
theorem splice_of_accepted {output : Output} (ran : R.Ran k a (.appendEntries call) output)
    (notOld : (R.node k a).currentTerm ≤ call.req.term)
    (consistent : ¬ (R.node k a).prevMismatch call.req)
    (core : (R.node (k + 1) a).core =
      { (R.node k a).core with
        currentTerm := call.req.term
        votedFor := if (R.node k a).currentTerm < call.req.term then -1 else (R.node k a).votedFor
        currentRole := .follower
        log := ((R.node k a).writeEntries call.req).log }) : ∃ j, R.Splice k a j call := by
  obtain ⟨member, target⟩ := ran.delivered
  obtain ⟨j, lt, sent⟩ := sent_of_request ran.within.le member
  have sends := sent.sends
  have prev := sends.prev
  simp only [Raft.core, Raft.Core.mk.injEq] at core
  obtain ⟨-, term, -, role, -, log⟩ := core
  -- a positive `prev_log_index` names an entry of both logs
  have agree : 0 < call.pos → ∃ x y, (R.node k a).log[call.pos - 1]? = some x ∧
      (R.node j call.caller).log[call.pos - 1]? = some y ∧ x.term = y.term := by
    intro positive
    have read := (R.node k a).readLog_pred (i := call.req.prevLogIndex) (by omega)
    rcases sends.prevTerm with ⟨zero, -⟩ | ⟨y, -, atY, prevTerm⟩
    · omega
    · simp only [Raft.prevMismatch, not_and, not_forall, not_not, read] at consistent
      obtain ⟨x, atX, same⟩ := consistent (by omega)
      exact ⟨x, y, atX, atY, same.trans prevTerm⟩
  refine ⟨j, lt, ran.within, sent, target, notOld, term, role, ?_, agree, ?_⟩
  · by_cases positive : 0 < call.pos
    · obtain ⟨x, -, atX, -⟩ := agree positive
      have := (List.getElem?_eq_some_iff.mp atX).1
      omega
    · omega
  · rw [log, Raft.writeEntries, ← sends.entries]
    simp only [if_neg (show ¬ call.req.prevLogIndex < 0 by omega)]
    rfl

/-- Proposals start after `run()`. -/
def ProposesAfterRun (R : ClusterRun cl) : Prop :=
  ∀ k a input output, R.Ran k a input output → input.Proposes → (R.node k a).active = true

/-- What a step does to the log of a node. -/
inductive LogStep (R : ClusterRun cl) (k a : Nat) : Prop
  | kept (same : (R.node (k + 1) a).log = (R.node k a).log)
  | proposed (data : String) (input : Input) (output : Output) (ran : R.Ran k a input output)
      (proposes : input = .propose data ∨ input = .proposeSync data)
      (role : (R.node k a).currentRole = .leader)
      (core : (R.node (k + 1) a).core =
        { (R.node k a).core with log := (R.node k a).log ++ [(R.node k a).proposed data] })
  | spliced (j : Nat) (call : AppendCall) (splice : R.Splice k a j call)

/-- **How a log changes.** -/
theorem logStep (within : k < R.length) (a : Nat) : R.LogStep k a := by
  rcases node_cases within a with same | ⟨input, output, ran⟩
  · exact .kept (by rw [same])
  · cases ran.change with
    | write notOld consistent core =>
        obtain ⟨j, splice⟩ := splice_of_accepted ran notOld consistent core
        exact .spliced j _ splice
    | append data proposes role core => exact .proposed data input output ran proposes role core
    | still core | run core | candidacy core | higher _ _ core | grant _ _ _ core
      | count _ _ _ core | elect _ core | refuse _ core =>
        exact .kept (congrArg Raft.Core.log core)

theorem log_of_proposed {data : String}
    (core : (R.node (k + 1) a).core =
      { (R.node k a).core with log := (R.node k a).log ++ [(R.node k a).proposed data] }) :
    (R.node (k + 1) a).log = (R.node k a).log ++ [(R.node k a).proposed data] :=
  congrArg Raft.Core.log core

/-- An entry is proposed during one leadership. -/
theorem leads_of_proposed (afterRun : R.ProposesAfterRun) {data : String} {input : Input}
    {output : Output} (ran : R.Ran k a input output)
    (proposes : input = .propose data ∨ input = .proposeSync data)
    (role : (R.node k a).currentRole = .leader)
    (core : (R.node (k + 1) a).core =
      { (R.node k a).core with log := (R.node k a).log ++ [(R.node k a).proposed data] }) :
    R.Leads k a (R.node k a).currentTerm ∧ R.Leads (k + 1) a (R.node k a).currentTerm := by
  have running : (R.node k a).active = true := by
    refine afterRun k a input output ran ?_
    rcases proposes with rfl | rfl <;> trivial
  simp only [Raft.core, Raft.Core.mk.injEq] at core
  exact ⟨⟨ran.within.le, running, role, rfl⟩,
    ⟨ran.within, core.1.trans running, core.2.2.2.1.trans role, core.2.1⟩⟩

/-! ## Leaders as senders -/

/-- No node leaves the Leader role while it is sending. -/
def SendsBeforeLeaving (R : ClusterRun cl) : Prop :=
  ∀ k a input output, R.Ran k a input output → (R.node k a).Sending →
    (R.node k a).currentRole = .leader → (R.node (k + 1) a).currentRole = .leader

/-- Then a node that is sending is a leader. -/
theorem leader_of_sending (keeps : R.SendsBeforeLeaving) (bound : k ≤ R.length) (a : Nat)
    (sending : (R.node k a).Sending) : (R.node k a).currentRole = .leader := by
  revert sending
  refine R.invariant (P := fun k => (R.node k a).Sending → (R.node k a).currentRole = .leader)
    ?_ ?_ k bound
  · intro sending
    obtain ⟨role, isNew⟩ := R.start_node a
    simp [isNew, Raft.Sending, Raft.new] at sending
  · intro k within ih sending
    rcases node_cases within a with same | ⟨input, output, ran⟩
    · rw [same] at sending ⊢
      exact ih sending
    by_cases before : (R.node k a).Sending
    · exact keeps k a input output ran before (ih before)
    · rcases sending with pending | ⟨target, pending⟩
      · rcases Raft.step_threads ran.stepped pending with old | spawned
        · exact absurd (Or.inl old) before
        · -- `start_timer` has just seen the role
          cases spawned with
          | sendEntries role => exact (Raft.step_timerExpired ran.stepped).trans role
      · rcases Raft.step_threads ran.stepped pending with old | spawned
        · exact absurd (Or.inr ⟨target, old⟩) before
        · cases spawned with
          | sendEntriesTo peer => exact absurd (Or.inl (ran.pending rfl)) before

/-- `call` was built before state `k` by the node it names as leader, while that node
was leader of its term. -/
def BuiltByLeader (R : ClusterRun cl) (k : Nat) (call : AppendCall) : Prop :=
  ∃ j a, j < k ∧ R.Ran j a (.sendEntriesTo call.target) (.appendEntries call) ∧
    call.req.leaderId = asInt64 a ∧ (R.node j a).currentRole = .leader ∧
    (R.node j a).currentTerm = call.req.term

/-- **Provenance.**  If no node leaves the Leader role while it is sending, every
request in flight was built by the leader of its term. -/
theorem append_provenance (R : ClusterRun cl) (keeps : R.SendsBeforeLeaving) :
    ∀ k, k ≤ R.length → ∀ call ∈ (R.state k).appendRequests, R.BuiltByLeader k call := by
  intro k bound call member
  obtain ⟨j, lt, sent⟩ := sent_of_request bound member
  have sending : (R.node j call.caller).Sending := Or.inr ⟨call.target, sent.ran.pending rfl⟩
  have role := leader_of_sending keeps sent.ran.within.le call.caller sending
  exact ⟨j, call.caller, lt, sent.ran, sent.sends.leaderId, role, sent.sends.term.symm⟩

/-- The heartbeat timer of version `timer` of leader `a` expires and spawns the threads
for its peers. -/
def heartbeat (a timer : Nat) : List Action :=
  [⟨a, .startHeartbeatTimer⟩, ⟨a, .timerExpired timer .heartbeat⟩, ⟨a, .sendEntries⟩]

/-- The request of leader `a` that sends its whole log to `p`. -/
def wholeLog (a p : Nat) (t : Int) (log : List Entry) (leaderCommit counter : Int) : AppendCall where
  caller := a
  target := p
  req :=
    { term := t
      leaderId := a
      prevLogIndex := 0
      prevLogTerm := 0
      entries := log
      leaderCommit := leaderCommit }
  currentLogSize := log.length
  currentReplyCounter := counter
  currentNextIndex := 1
  currentMatchIndex := 0

theorem append_provenance_of_heartbeat :
    ∃ R : ClusterRun (.ofSize 3 (by decide)),
      wholeLog 1 2 1 [] 0 1 ∈ (R.state 14).appendRequests ∧
        R.BuiltByLeader 14 (wholeLog 1 2 1 [] 0 1) := by
  let R : ClusterRun (.ofSize 3 (by decide)) :=
    .of _ (oneElection ++ heartbeat 1 2 ++ [⟨1, .sendEntriesTo 2⟩]) (by decide +kernel)
  have member : wholeLog 1 2 1 [] 0 1 ∈ (R.state 14).appendRequests := by decide +kernel
  have stays : ∀ k < 14, (R.node k (R.input k).node).currentRole = .leader →
      (R.node (k + 1) (R.input k).node).currentRole = .leader := by decide +kernel
  refine ⟨R, member, append_provenance R ?_ 14 le_rfl _ member⟩
  intro k a input output ran _ role
  have kept := stays k ran.within
  rw [ran.action] at kept
  exact kept role

/-- Leader 1 of term 1 steps down to vote for 2 in term 2, between spawning the thread
for 2 and its request. -/
def lateSend : List Action :=
  [⟨1, .run⟩, ⟨2, .run⟩] ++ campaign 1 2 1 1 ++ heartbeat 1 2 ++
    (campaign 2 1 1 2).take 6 ++ [⟨1, .sendEntriesTo 2⟩]

theorem append_provenance_refuted :
    ¬ ∀ (cl : Cluster) (R : ClusterRun cl) (k : Nat), k ≤ R.length →
      ∀ call ∈ (R.state k).appendRequests, R.BuiltByLeader k call := by
  intro built
  let R : ClusterRun (.ofSize 2 (by decide)) := .of _ lateSend (by decide +kernel)
  have member : wholeLog 1 2 2 [] 0 1 ∈ (R.state 19).appendRequests := by decide +kernel
  have late : ∀ j < 19, (R.input j).input = .sendEntriesTo 2 →
      (R.node j (R.input j).node).currentRole = .follower := by decide +kernel
  obtain ⟨j, a, lt, ran, -, role, -⟩ := built _ R 19 le_rfl _ member
  have follower := late j lt
  rw [ran.action] at follower
  simp [follower rfl] at role

end ClusterRun

end Rafty
