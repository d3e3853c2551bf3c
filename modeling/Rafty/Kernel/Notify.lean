/-
# Rafty.Kernel.Notify — who is notified

A caller blocked in `propose_sync` looks at the role and at `commitIndex`, but only when
its condition variable is notified.  A stretch of code serves the callers (`Serves`) if
whoever is registered before it and finds its predicate true after it was notified, and
if a node that leads after it led before it and has kept every registration.  Handlers
serve because their parts do (`Serves.trans`).

`Attends` lists what one section can do to the callers, and `step_attends` proves the
list complete: it serves them, begins or ends an office behind their backs, or is a
caller's own.
-/
import Rafty.Kernel.Progress

namespace Rafty

set_option autoImplicit false

/-! ## Notifying -/

/-- The call after the condition variables `cvs` were notified. -/
def SyncCall.hear (w : SyncCall) (cvs : List Nat) : SyncCall :=
  if w.cv ∈ cvs then { w with notified := true } else w

/-- Notify the condition variables `cvs`. -/
def notifyAll (cvs : List Nat) (waiters : List SyncCall) : List SyncCall :=
  waiters.map fun w => w.hear cvs

section Hear

variable {w : SyncCall} {cvs : List Nat}

@[simp] theorem SyncCall.hear_cv : (w.hear cvs).cv = w.cv := by
  unfold hear; split <;> rfl

@[simp] theorem SyncCall.hear_proposalIndex : (w.hear cvs).proposalIndex = w.proposalIndex := by
  unfold hear; split <;> rfl

theorem SyncCall.hear_of_mem (member : w.cv ∈ cvs) : w.hear cvs = { w with notified := true } :=
  if_pos member

theorem SyncCall.hear_notified (notified : w.notified = true) : (w.hear cvs).notified = true := by
  unfold hear
  split
  · rfl
  · exact notified

theorem notifyAll_nil (waiters : List SyncCall) : notifyAll [] waiters = waiters := by
  simp [notifyAll, SyncCall.hear]

theorem notifyAll_append (first second : List Nat) (waiters : List SyncCall) :
    notifyAll (first ++ second) waiters = notifyAll second (notifyAll first waiters) := by
  rw [notifyAll, notifyAll, notifyAll, List.map_map]
  apply List.map_congr_left
  intro w _
  by_cases early : w.cv ∈ first
  · by_cases late : w.cv ∈ second <;> simp [SyncCall.hear, early, late]
  · simp [SyncCall.hear, early]

end Hear

namespace Raft

variable {config : Config} {r s t r' : Raft} {w : SyncCall}

theorem waiters_notifyCv (cv : Nat) : (r.notifyCv cv).waiters = notifyAll [cv] r.waiters := by
  simp [notifyCv, notifyAll, SyncCall.hear]

/-! ## Callers that are looked after -/

/-- The part of a node that the callers depend on. -/
structure Waiting where
  currentRole : Role
  commitIndex : Nat
  lastApplied : Nat
  proposalCvs : List (Nat × Nat)
  waiters : List SyncCall

def waiting (r : Raft) : Waiting where
  currentRole := r.currentRole
  commitIndex := r.commitIndex
  lastApplied := r.lastApplied
  proposalCvs := r.proposalCvs
  waiters := r.waiters

/-- The call waits, its condition variable is the one registered at its index, and the
index is in the log and still to be applied. -/
structure Registered (r : Raft) (w : SyncCall) : Prop where
  waits : ¬ r.syncReady w
  cv : r.proposalCvs.lookup w.proposalIndex = some w.cv
  ahead : r.lastApplied < w.proposalIndex
  inside : w.proposalIndex ≤ r.log.length

/-- A call whose predicate holds was notified since it last looked, and every other call
is registered. -/
def Attended (r : Raft) : Prop :=
  ∀ w ∈ r.waiters, (r.syncReady w → w.notified = true) ∧ (¬ r.syncReady w → r.Registered w)

theorem syncReady_congr {v : SyncCall} (same : v.proposalIndex = w.proposalIndex) :
    r.syncReady v ↔ r.syncReady w := by
  rw [syncReady, syncReady, same]

theorem not_syncReady : ¬ r.syncReady w ↔ r.commitIndex < w.proposalIndex ∧
    r.currentRole = .leader := by
  rw [syncReady, not_or, not_le, not_not]

/-- What a leader keeps for its callers. -/
structure Keeps (r r' : Raft) : Prop where
  role : r.currentRole = .leader
  commit : r.commitIndex ≤ r'.commitIndex
  cvs : r'.proposalCvs = r.proposalCvs
  log : r.log.length ≤ r'.log.length
  applied : ∀ i, r'.commitIndex < i → r.lastApplied < i → r'.lastApplied < i

theorem Keeps.trans (first : Keeps r s) (second : Keeps s t) : Keeps r t where
  role := first.role
  commit := first.commit.trans second.commit
  cvs := second.cvs.trans first.cvs
  log := first.log.trans second.log
  applied i beyond ahead :=
    second.applied i beyond (first.applied i (second.commit.trans_lt beyond) ahead)

theorem Registered.keep (registered : r.Registered w) (keeps : Keeps r r')
    (waits : ¬ r'.syncReady w) : r'.Registered w where
  waits := waits
  cv := keeps.cvs ▸ registered.cv
  ahead := keeps.applied _ (not_syncReady.mp waits).1 registered.ahead
  inside := registered.inside.trans keeps.log

/-- From `r` to `r'` the callers were served. -/
structure Serves (r r' : Raft) : Prop where
  heard : ∃ cvs, r'.waiters = notifyAll cvs r.waiters ∧
    ∀ w, r.Registered w → r'.syncReady w → w.cv ∈ cvs
  leads : r'.currentRole = .leader → Keeps r r'

theorem Serves.trans (first : Serves r s) (second : Serves s t) : Serves r t where
  heard := by
    obtain ⟨early, before, heardEarly⟩ := first.heard
    obtain ⟨late, after, heardLate⟩ := second.heard
    refine ⟨early ++ late, ?_, ?_⟩
    · rw [after, before, notifyAll_append]
    · intro w registered ready
      by_cases already : s.syncReady w
      · exact List.mem_append_left _ (heardEarly w registered already)
      · have keeps := first.leads (not_syncReady.mp already).2
        exact List.mem_append_right _ (heardLate w (registered.keep keeps already) ready)
  leads role := (first.leads (second.leads role).role).trans (second.leads role)

/-- **Whoever serves the callers keeps them attended.** -/
theorem Serves.attended (serves : Serves r r') (attended : r.Attended) : r'.Attended := by
  obtain ⟨cvs, waiters, heard⟩ := serves.heard
  intro v member
  rw [waiters] at member
  obtain ⟨w, blocked, rfl⟩ := List.mem_map.mp member
  obtain ⟨notified, registered⟩ := attended w blocked
  have same : ∀ q : Raft, q.syncReady (w.hear cvs) ↔ q.syncReady w :=
    fun _ => syncReady_congr SyncCall.hear_proposalIndex
  constructor
  · intro ready
    rw [same] at ready
    by_cases already : r.syncReady w
    · exact SyncCall.hear_notified (notified already)
    · rw [SyncCall.hear_of_mem (heard w (registered already) ready)]
  · intro waits
    have waitsToo := waits
    rw [same] at waitsToo
    have keeps := serves.leads (not_syncReady.mp waitsToo).2
    have before : ¬ r.syncReady w := by
      rw [not_syncReady]
      exact ⟨keeps.commit.trans_lt (not_syncReady.mp waitsToo).1, keeps.role⟩
    obtain ⟨-, cv, ahead, inside⟩ := (registered before).keep keeps waitsToo
    exact ⟨waits, by simpa using cv, by simpa using ahead, by simpa using inside⟩

/-- Applying the index of a registered call notifies it. -/
theorem Serves.applies (serves : Serves r r') (registered : r.Registered w)
    (blocked : w ∈ r.waiters) (applied : w.proposalIndex ≤ r'.lastApplied) :
    { w with notified := true } ∈ r'.waiters := by
  have ready : r'.syncReady w := by
    by_contra waits
    have ahead := (registered.keep (serves.leads (not_syncReady.mp waits).2) waits).ahead
    omega
  obtain ⟨cvs, waiters, heard⟩ := serves.heard
  rw [waiters, ← SyncCall.hear_of_mem (heard w registered ready)]
  exact List.mem_map_of_mem blocked

/-! ## Handlers serve the callers -/

/-- What does not touch them serves them. -/
theorem serves_of_waiting (same : r'.waiting = r.waiting) (log : r.log.length ≤ r'.log.length) :
    Serves r r' := by
  simp only [waiting, Waiting.mk.injEq] at same
  obtain ⟨role, commit, applied, cvs, waiters⟩ := same
  constructor
  · refine ⟨[], by rw [waiters, notifyAll_nil], ?_⟩
    intro w registered ready
    rw [syncReady, commit, role] at ready
    exact absurd ready registered.waits
  · intro leader
    exact ⟨role ▸ leader, commit.ge, cvs, log, fun i _ ahead => applied ▸ ahead⟩

theorem Serves.refl (r : Raft) : Serves r r := serves_of_waiting rfl le_rfl

/-- What leaves the node without office serves them if it has released every
registration of a leader. -/
theorem serves_of_release {cvs : List Nat} (role : r'.currentRole ≠ .leader)
    (waiters : r'.waiters = notifyAll cvs r.waiters)
    (released : r.currentRole = .leader → r.proposalCvs.map Prod.snd ⊆ cvs) : Serves r r' := by
  constructor
  · refine ⟨cvs, waiters, ?_⟩
    intro w registered _
    apply released (not_syncReady.mp registered.waits).2
    obtain ⟨before, after, split, -⟩ := List.lookup_eq_some_iff.mp registered.cv
    rw [split]
    simp
  · intro leader
    exact absurd leader role

theorem waiters_releaseSyncProps : ∃ cvs, r.releaseSyncProps.waiters = notifyAll cvs r.waiters ∧
    (r.currentRole = .leader → r.proposalCvs.map Prod.snd ⊆ cvs) := by
  unfold releaseSyncProps
  split
  · exact ⟨r.proposalCvs.map Prod.snd, rfl, fun _ => List.Subset.refl _⟩
  · rename_i role
    exact ⟨[], (notifyAll_nil _).symm, fun leader => absurd leader role⟩

theorem serves_stepDown (r : Raft) : Serves r r.stepDown := by
  obtain ⟨cvs, waiters, released⟩ := waiters_releaseSyncProps (r := r)
  have heard : r.stepDown.waiters = notifyAll cvs r.waiters := waiters
  exact serves_of_release (by simp [stepDown, spawn]) heard released

theorem serves_adoptTerm (term : Int) : Serves r (r.adoptTerm term) :=
  serves_of_waiting rfl le_rfl

theorem serves_grantVote (candidateId : Int) (flag : Bool) :
    Serves r (r.grantVote candidateId flag) := by
  obtain ⟨cvs, waiters, released⟩ :=
    waiters_releaseSyncProps (r := { r with votedFor := candidateId })
  unfold grantVote
  split <;> exact serves_of_release (by simp [spawn]) waiters released

theorem serves_replyVote (req : RequestVoteRequest) : Serves r (r.replyVote req).1 := by
  have adopted : Serves r (if r.currentTerm < req.term then (r.adoptTerm req.term).stepDown
      else r) := by
    split
    · exact (serves_adoptTerm _).trans (serves_stepDown _)
    · exact .refl r
  unfold replyVote
  split
  · exact .refl r
  split
  · exact .refl r
  generalize (if r.currentTerm < req.term then (r.adoptTerm req.term).stepDown else r) = s
    at adopted ⊢
  simp only
  split
  · exact adopted
  split
  · exact adopted.trans (serves_grantVote _ _)
  · exact adopted

theorem serves_handleVoteReply {call : VoteCall} {reply : RequestVoteReply}
    (loses : ¬ r.winsElection config call reply) :
    Serves r (r.handleVoteReply config call reply) := by
  unfold handleVoteReply
  split
  · rename_i refused
    rw [countVote_refused refused.1]
    exact (serves_adoptTerm _).trans (serves_stepDown _)
  · unfold countVote
    split
    · exact serves_of_waiting rfl le_rfl
    · exact .refl r

theorem serves_propose (data : String) : Serves r (r.propose data).1 := by
  unfold propose
  split
  · exact serves_of_waiting rfl (by simp [append])
  · exact .refl r

theorem serves_timerExpired : Serves r r.timerExpired := by
  unfold timerExpired
  split <;> exact serves_of_waiting rfl le_rfl

/-! ## Applying serves the callers -/

/-- The loop notifies what is registered at the indices it applies. -/
theorem waiters_applyRange {indices : List Nat} (applied : indices.foldlM applyEntry r = some r') :
    r'.waiters = notifyAll (indices.filterMap fun i => r.proposalCvs.lookup i) r.waiters ∧
      r'.proposalCvs = r.proposalCvs := by
  induction indices generalizing r with
  | nil =>
      cases applied
      exact ⟨(notifyAll_nil _).symm, rfl⟩
  | cons i rest ih =>
      simp only [List.foldlM_cons, Option.bind_eq_bind, Option.bind_eq_some_iff] at applied
      obtain ⟨middle, first, others⟩ := applied
      simp only [applyEntry, Option.bind_eq_bind, Option.bind_eq_some_iff] at first
      obtain ⟨entry, -, first⟩ := first
      obtain ⟨waiters, cvs⟩ := ih others
      split at first
      · rename_i cv registered
        cases first
        rw [waiters_notifyCv, ← notifyAll_append] at waiters
        refine ⟨?_, cvs⟩
        rw [List.filterMap_cons, registered]
        exact waiters
      · rename_i none
        cases first
        rw [List.filterMap_cons, none]
        exact ⟨waiters, cvs⟩

theorem waiters_applyEntries (applied : r.applyEntries = some r') :
    ∃ cvs, r'.waiters = notifyAll cvs r.waiters ∧ r'.proposalCvs = r.proposalCvs ∧
      (r.commitIndex ≤ r.log.length → ∀ i cv, r.lastApplied < i → i ≤ r.commitIndex →
        r.proposalCvs.lookup i = some cv → cv ∈ cvs) := by
  unfold applyEntries at applied
  split at applied
  · cases applied
    exact ⟨[], (notifyAll_nil _).symm, rfl, fun inside => by omega⟩
  · obtain ⟨waiters, cvs⟩ := waiters_applyRange applied
    refine ⟨_, waiters, cvs, ?_⟩
    intro _ i cv ahead committed registered
    rw [List.mem_filterMap]
    exact ⟨i, List.mem_range'_1.mpr (by omega), registered⟩

/-- **A leader that commits more serves its callers**: it applies, and notifies, all that
it commits. -/
theorem serves_commit {n : Nat} (more : r.commitIndex ≤ n) (inside : n ≤ r.log.length)
    (applied : ({ r with commitIndex := n } : Raft).applyEntries = some r') : Serves r r' := by
  have core := core_applyEntries applied
  have role : r'.currentRole = r.currentRole := congrArg Core.currentRole core
  have log : r'.log = r.log := congrArg Core.log core
  obtain ⟨results, -, length, progress⟩ := progress_applyEntries applied
  have commit : r'.commitIndex = n := congrArg Progress.commitIndex progress
  have last : r'.lastApplied = r.lastApplied + results.length :=
    congrArg Progress.lastApplied progress
  have count : results.length = n - r.lastApplied := length inside
  obtain ⟨cvs, waiters, kept, heard⟩ := waiters_applyEntries applied
  constructor
  · refine ⟨cvs, waiters, ?_⟩
    intro w registered ready
    have leader := (not_syncReady.mp registered.waits).2
    have committed : w.proposalIndex ≤ n := by
      rcases ready with reached | left
      · exact commit ▸ reached
      · exact absurd (role.trans leader) left
    exact heard inside _ _ registered.ahead committed registered.cv
  · intro leader
    refine ⟨role ▸ leader, commit ▸ more, kept, log ▸ le_rfl, ?_⟩
    intro i beyond ahead
    omega

/-- Without office there is nobody to serve. -/
theorem serves_followCommit {req : AppendEntriesRequest} (role : r.currentRole = .follower)
    (followed : (r.writeEntries req).followCommit req = some r') : Serves r r' := by
  have same : r'.currentRole = r.currentRole :=
    congrArg Core.currentRole (core_followCommit followed)
  have heard : ∃ cvs, r'.waiters = notifyAll cvs r.waiters := by
    unfold followCommit at followed
    split at followed
    · obtain ⟨cvs, waiters, -⟩ := waiters_applyEntries followed
      exact ⟨cvs, waiters⟩
    · cases followed
      exact ⟨[], (notifyAll_nil _).symm⟩
  obtain ⟨cvs, waiters⟩ := heard
  apply serves_of_release (by simp [same, role]) waiters
  intro leader
  simp [role] at leader

theorem serves_acknowledge (req : AppendEntriesRequest) : Serves r (r.acknowledge req) := by
  unfold acknowledge
  split
  · exact (serves_adoptTerm _).trans (serves_stepDown _)
  · exact serves_stepDown r

theorem serves_appendEntries {req : AppendEntriesRequest} {reply : AppendEntriesReply}
    (answered : r.appendEntries req = some (r', reply)) : Serves r r' := by
  unfold appendEntries at answered
  split at answered
  · cases answered
    exact .refl r
  split at answered
  · cases answered
    exact .refl r
  simp only [Option.pure_def, Option.bind_eq_bind] at answered
  split at answered <;>
    simp only [Option.bind_eq_some_iff, Option.some.injEq, Prod.mk.injEq] at answered
  · obtain ⟨info, -, rfl, -⟩ := answered
    exact serves_acknowledge req
  · obtain ⟨s, followed, rfl, -⟩ := answered
    have role : (r.acknowledge req).currentRole = .follower := by
      simp [acknowledge, stepDown, spawn]
    exact (serves_acknowledge req).trans (serves_followCommit role followed)

theorem serves_backUp {call : AppendCall} {reply : AppendEntriesReply}
    (backed : r.backUp call reply = some r') : Serves r r' := by
  simp only [backUp] at backed
  split at backed
  · cases backed
    exact .refl r
  · split at backed
    · simp only [Option.bind_eq_bind, Option.bind_eq_some_iff] at backed
      obtain ⟨last, -, backed⟩ := backed
      cases backed
      exact serves_of_waiting rfl le_rfl
    · split at backed <;> cases backed <;> exact serves_of_waiting rfl le_rfl

theorem serves_advance {call : AppendCall} (advanced : r.advance config call = some r') :
    Serves r r' := by
  simp only [advance, Option.bind_eq_bind, Option.bind_eq_some_iff] at advanced
  obtain ⟨found, scanned, advanced⟩ := advanced
  have recorded : Serves r ((r.setMatchIndex call.target (lastLogIndexSent call)).setNextIndex
      call.target (lastLogIndexSent call + 1)) := serves_of_waiting rfl le_rfl
  apply recorded.trans
  split at advanced
  · rename_i newer
    rcases commitScan_found scanned with same | ⟨-, -, ⟨entry, read, -⟩, -⟩
    · omega
    · have := (List.getElem?_eq_some_iff.mp read).1
      exact serves_commit newer.le (by omega) advanced
  · cases advanced
    exact .refl _

theorem serves_handleAppendReply {call : AppendCall} {reply : AppendEntriesReply}
    (handled : r.handleAppendReply config call reply = some r') : Serves r r' := by
  simp only [handleAppendReply] at handled
  split at handled
  · cases handled
    exact .refl r
  have counted : Serves r (r.setReplyCounter call.target call.currentReplyCounter) :=
    serves_of_waiting rfl le_rfl
  apply counted.trans
  split at handled
  · cases handled
    exact (serves_adoptTerm _).trans (serves_stepDown _)
  split at handled
  · cases handled
    exact .refl _
  split at handled
  · exact serves_backUp handled
  · exact serves_advance handled

/-! ## The sections -/

/-- What one section can do to the callers. -/
inductive Attends (config : Config) (r : Raft) : Input → Raft → Prop
  | serves {input : Input} {r' : Raft} (serves : Serves r r') : Attends config r input r'
  /-- The role changes, and nobody is notified. -/
  | office {input : Input} {r' : Raft} (role : Role)
      (changes : (input = .becomeCandidate ∨ input = .run) ∧ role ≠ .leader ∨
        ∃ call reply, input = .voteReply call reply ∧ r.winsElection config call reply)
      (waiting : r'.waiting = { r.waiting with currentRole := role }) : Attends config r input r'
  | proposeSync (data : String) : Attends config r (.proposeSync data) (r.proposeSync data).1
  | wakeSync {call : SyncCall} (blocked : call ∈ r.waiters) :
      Attends config r (.wakeSync call) (r.wakeSync call).1

theorem serves_finish (thread : Thread) : Serves r (r.finish thread) :=
  serves_of_waiting rfl le_rfl

/-- **The list is complete.** -/
theorem step_attends {input : Input} {output : Output}
    (stepped : r.step config input = some (r', output)) : Attends config r input r' := by
  cases step_section stepped with
  | run => exact .office .follower (Or.inl ⟨Or.inr rfl, by decide⟩) rfl
  | becomeCandidate => exact .office .candidate (Or.inl ⟨Or.inl rfl, by decide⟩) rfl
  | timerExpired => exact .serves ((serves_finish _).trans serves_timerExpired)
  | replyVote => exact .serves (serves_replyVote _)
  | @voteReply call reply =>
      by_cases wins : (r.finish (.awaitVote call)).winsElection config call reply
      · rw [handleVoteReply_wins wins]
        exact .office .leader (Or.inr ⟨call, reply, rfl, wins⟩) rfl
      · exact .serves ((serves_finish _).trans (serves_handleVoteReply wins))
  | appendEntries answered => exact .serves (serves_appendEntries answered)
  | appendReply _ handled =>
      exact .serves ((serves_finish _).trans (serves_handleAppendReply handled))
  | propose => exact .serves (serves_propose _)
  | proposeSync => exact .proposeSync _
  | wakeSync blocked => exact .wakeSync blocked
  | _ => exact .serves (serves_of_waiting rfl le_rfl)

end Raft

end Rafty
