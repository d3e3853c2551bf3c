/-
# Rafty.Replication.Monotone — does matchIndex ever go down?

An acceptance sets `matchIndex` to the last index of its request, whatever was there.
The guard against late replies is a counter that is taken from the last reply handled,
so requests that are under way together carry one number and all of them pass.  Within
a leadership `matchIndex` of a peer is therefore the reach of the request acknowledged
last (`matchIndex_origin`), and it never goes down exactly if acknowledgements come in
the order of reach (`progress_monotone`).
-/
import Rafty.Replication.Indices

namespace Rafty

set_option autoImplicit false

open Theory

namespace ClusterRun

variable {cl : Cluster} {R : ClusterRun cl} {j k a p : Nat} {t : Int} {call : AppendCall}

/-- At step `k` leader `a` handles a success for `call`, which passes its filters. -/
structure Acknowledges (R : ClusterRun cl) (k a : Nat) (call : AppendCall) : Prop where
  ran : ∃ reply output, R.Ran k a (.appendReply call reply) output ∧ reply.success = true
  role : (R.node k a).currentRole = .leader
  term : call.req.term = (R.node k a).currentTerm
  fresh : (R.node k a).replyCounter call.target ≤ call.currentReplyCounter

/-- A success is given in the term of the request. -/
theorem reply_term {reply : AppendEntriesReply} {output : Output}
    (ran : R.Ran k a (.appendReply call reply) output) (success : reply.success = true) :
    reply.term = call.req.term := by
  obtain ⟨m, -, answered⟩ := appendReply_given ran.within.le ran.delivered
  have stepped := answered.stepped
  simp only [Raft.step, Option.bind_eq_bind, Option.bind_eq_some_iff] at stepped
  obtain ⟨⟨s, other⟩, handled, same⟩ := stepped
  cases same
  exact (Raft.appendEntries_success handled success).2.2.1

/-- What an acknowledgement is recorded as. -/
theorem Acknowledges.recorded (acknowledges : R.Acknowledges k a call) :
    (R.node (k + 1) a).core = (R.node k a).core ∧
      (R.node (k + 1) a).matchIndex =
        Raft.setAt (R.node k a).matchIndex call.target (Raft.lastLogIndexSent call) := by
  obtain ⟨⟨reply, output, ran, success⟩, role, term, fresh⟩ := acknowledges
  have replyTerm := reply_term ran success
  have handled := Raft.step_appendReply ran.stepped
  rw [Raft.handleAppendReply_current (r := (R.node k a).finish _) fresh role term
    (replyTerm.trans term).le, if_neg (by simp [success])] at handled
  exact ⟨(Raft.core_advance handled).trans rfl, (Raft.indices_of_advance handled).2⟩

theorem Acknowledges.leads (acknowledges : R.Acknowledges k a call) :
    R.Leads k a call.req.term ∧ R.Leads (k + 1) a call.req.term := by
  have core := acknowledges.recorded.1
  obtain ⟨⟨reply, output, ran, -⟩, role, term, -⟩ := acknowledges
  have running := active_of_thread ran.within.le (ran.pending rfl)
  simp only [Raft.core, Raft.Core.mk.injEq] at core
  exact ⟨⟨ran.within.le, running, role, term.symm⟩,
    ⟨ran.within, core.1.trans running, core.2.2.2.1.trans role, core.2.1.trans term.symm⟩⟩

/-- A step of a leader leaves `matchIndex`, or acknowledges. -/
theorem matchIndex_step (first : R.Leads k a t) (second : R.Leads (k + 1) a t) :
    (R.node (k + 1) a).matchIndex = (R.node k a).matchIndex ∨
      ∃ call, R.Acknowledges k a call ∧ call.req.term = t := by
  rcases node_cases (show k < R.length from second.bound) a with same | ⟨input, output, ran⟩
  · rw [same]
    exact Or.inl rfl
  cases Raft.step_advance ran.stepped with
  | still same | record same | backUp _ _ _ same =>
      exact Or.inl (congrArg Raft.Progress.matchIndex same)
  | follow _ _ _ _ _ _ _ same => exact Or.inl (congrArg Raft.Progress.matchIndex same)
  | elect wins _ => exact absurd (first.role.symm.trans wins.2.1) (by decide)
  | @acknowledge call reply _ _ _ fresh role term success =>
      exact Or.inr ⟨call, ⟨⟨reply, output, ran, success⟩, role, term, fresh⟩,
        term.trans first.term⟩

/-- **Where `matchIndex` comes from**: nothing yet, or the acknowledgement handled last. -/
theorem matchIndex_origin (leads : R.Leads k a t) (p : Nat) :
    (R.node k a).matchIndex p = 0 ∨
      ∃ i call, i < k ∧ R.Acknowledges i a call ∧ call.req.term = t ∧ call.target = p ∧
        (R.node k a).matchIndex p = Raft.lastLogIndexSent call := by
  obtain ⟨e, lt, elects⟩ := election_of_leads leads
  have bound := leads.bound
  induction k, (show e + 1 ≤ k from lt) using Nat.le_induction with
  | base =>
      obtain ⟨_, _, _, ran, wins, -⟩ := elects
      rw [node_of_wins ran wins]
      exact Or.inl rfl
  | succ k le ih =>
      have before : R.Leads k a t := elects.leads.between leads le (Nat.le_succ k)
      have earlier := ih before (by omega) before.bound
      rcases matchIndex_step before leads with same | ⟨call, acknowledges, term⟩
      · rw [same]
        refine earlier.imp_right ?_
        rintro ⟨i, call, ik, rest⟩
        exact ⟨i, call, by omega, rest⟩
      · have recorded := congrFun acknowledges.recorded.2 p
        rw [Raft.setAt] at recorded
        split at recorded
        · rename_i isTarget
          exact Or.inr ⟨k, call, Nat.lt_succ_self k, acknowledges, term, isTarget.symm, recorded⟩
        · rw [recorded]
          refine earlier.imp_right ?_
          rintro ⟨i, call, ik, rest⟩
          exact ⟨i, call, by omega, rest⟩

/-! ## Monotone progress -/

/-- While `a` leads in term `t`, no `matchIndex` goes down. -/
def MatchIndexGrows (R : ClusterRun cl) (a : Nat) (t : Int) : Prop :=
  ∀ j k p, j ≤ k → R.Leads j a t → R.Leads k a t →
    (R.node j a).matchIndex p ≤ (R.node k a).matchIndex p

/-- What `a` acknowledges in term `t` reaches at least as far as what it acknowledged
before from the same peer. -/
def AcknowledgesInOrder (R : ClusterRun cl) (a : Nat) (t : Int) : Prop :=
  ∀ i k earlier later, i < k → R.Acknowledges i a earlier → R.Acknowledges k a later →
    earlier.req.term = t → later.req.term = t → earlier.target = later.target →
      Raft.lastLogIndexSent earlier ≤ Raft.lastLogIndexSent later

/-- The reach of an acknowledged request is not negative. -/
theorem Acknowledges.nonneg (acknowledges : R.Acknowledges k a call) :
    0 ≤ Raft.lastLogIndexSent call := by
  obtain ⟨reply, output, ran, -⟩ := acknowledges.ran
  obtain ⟨i, -, sends⟩ := sends_of_pending ran.within.le (ran.pending rfl)
  have sent := sends.lastLogIndexSent
  omega

/-- **Replication progress is monotone** in a leadership exactly if acknowledgements come
in the order in which their requests reach into the log. -/
theorem progress_monotone (R : ClusterRun cl) (a : Nat) (t : Int) :
    R.MatchIndexGrows a t ↔ R.AcknowledgesInOrder a t := by
  constructor
  · intro grows i k earlier later lt first second termFirst termSecond sameTarget
    have leadsFirst := first.leads.2
    have leadsSecond := second.leads.2
    rw [termFirst] at leadsFirst
    rw [termSecond] at leadsSecond
    have grown := grows (i + 1) (k + 1) later.target (by omega) leadsFirst leadsSecond
    rwa [first.recorded.2, second.recorded.2, Raft.setAt, Raft.setAt, if_pos sameTarget.symm,
      if_pos rfl] at grown
  · intro inOrder j k p le first last
    have bound := last.bound
    induction k, le using Nat.le_induction with
    | base => exact le_rfl
    | succ k le ih =>
        have before : R.Leads k a t := first.between last le (Nat.le_succ k)
        refine (ih before before.bound).trans ?_
        rcases matchIndex_step before last with same | ⟨call, acknowledges, term⟩
        · rw [same]
        · rw [acknowledges.recorded.2, Raft.setAt]
          split
          · rename_i isTarget
            rcases matchIndex_origin before p with none | ⟨i, earlier, ik, acknowledged, same,
              target, origin⟩
            · rw [none]
              exact acknowledges.nonneg
            · rw [origin]
              exact inOrder i k earlier call ik acknowledged acknowledges same term
                (target.trans isTarget)
          · exact le_rfl

/-- Leader 1 sends `x` to 2, appends `y`, and with its next heartbeat sends both, before
there is a reply.  It handles the reply to the longer request first. -/
def lateReply : List Action :=
  oneElection ++ [⟨1, .propose "x"⟩] ++ heartbeat 1 2 ++
    [⟨1, .sendEntriesTo 2⟩, ⟨1, .propose "y"⟩] ++ heartbeat 1 3 ++
    [⟨1, .sendEntriesTo 2⟩, ⟨2, .appendEntries (wholeLog 1 2 1 [⟨1, "x"⟩] 0 1)⟩,
      ⟨2, .appendEntries (wholeLog 1 2 1 [⟨1, "x"⟩, ⟨1, "y"⟩] 0 1)⟩,
      ⟨1, .appendReply (wholeLog 1 2 1 [⟨1, "x"⟩, ⟨1, "y"⟩] 0 1) { term := 1, success := true }⟩,
      ⟨1, .appendReply (wholeLog 1 2 1 [⟨1, "x"⟩] 0 1) { term := 1, success := true }⟩]

theorem progress_monotone_refuted :
    ¬ ∀ (cl : Cluster) (R : ClusterRun cl) (a : Nat) (t : Int), R.MatchIndexGrows a t := by
  intro grows
  let R : ClusterRun (.ofSize 3 (by decide)) := .of _ lateReply (by decide +kernel)
  have before : R.Leads 23 1 1 :=
    ⟨by decide, by decide +kernel, by decide +kernel, by decide +kernel⟩
  have after : R.Leads 24 1 1 :=
    ⟨by decide, by decide +kernel, by decide +kernel, by decide +kernel⟩
  have far : (R.node 23 1).matchIndex 2 = 2 := by decide +kernel
  have near : (R.node 24 1).matchIndex 2 = 1 := by decide +kernel
  have grown := grows _ R 1 1 23 24 2 (by decide) before after
  rw [far, near] at grown
  exact absurd grown (by decide)

end ClusterRun

end Rafty
