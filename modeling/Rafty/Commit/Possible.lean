/-
# Rafty.Commit.Possible — a majority that is up can always commit

From any state of a run in which requests are built by leaders, the nodes of a set that is
up and has a majority can elect one of them (`Election.Possible`), and then commit what is
proposed to it, and all of them hand it out (`commit_possible`).

After its election the leader knows nothing of its followers: `matchIndex` is 0 and
`nextIndex` is behind its log, whatever the logs of the followers have become.  Round after
round (`Replication.Repair`) brings one follower after the other to hold the leader's log
(`reaches_accepted`, `reaches_replicated`).  By then the proposal is committed, because a
leader is settled at all times, and a second pass tells the followers.
-/
import Rafty.Election.Possible
import Rafty.Commit.Refinement
import Rafty.Commit.Scan
import Rafty.Replication.Repair

namespace Rafty

set_option autoImplicit false

open Theory

namespace Raft

variable {config : Config} {r r' s : Raft} {call : AppendCall} {reply : AppendEntriesReply}
  {p : Nat}

/-- A handled reply concerns the node that gave it: the indices of the others stay, and so
does the clock; `commitIndex` does not fall, and no thread ends. -/
structure Handled (p : Nat) (r r' : Raft) : Prop where
  others : ∀ u, u ≠ p → r'.nextIndex u = r.nextIndex u ∧ r'.matchIndex u = r.matchIndex u
  commit : r.commitIndex ≤ r'.commitIndex
  dead : r'.dead = r.dead
  threads : ∀ thread ∈ r.threads, thread ∈ r'.threads

theorem handled_of_reply (handled : r.handleAppendReply config call reply = some r') :
    Handled call.target r r' := by
  have restarts := restarts_handleAppendReply handled
  obtain ⟨starts, threads, -⟩ := restarts.threads
  have kept : ∀ thread ∈ r.threads, thread ∈ r'.threads := by
    intro thread member
    rw [threads]
    exact List.mem_append_left _ member
  have dead : r'.dead = r.dead := congrArg Clock.dead restarts.clock
  cases handleAppendReply_advance handled with
  | still same | record same =>
      simp only [progress, Progress.mk.injEq] at same
      exact ⟨fun u _ => by simp [same], same.1.ge, dead, kept⟩
  | backUp value _ _ same =>
      simp only [progress, Progress.mk.injEq] at same
      exact ⟨fun u ne => by simp [same, setAt, ne], same.1.ge, dead, kept⟩
  | acknowledge commit _ _ _ _ _ _ committed _ same =>
      simp only [progress, Progress.mk.injEq] at same
      have grown : r.commitIndex ≤ commit := by
        rcases committed with ⟨unchanged, -⟩ | ⟨newer, -⟩
        · exact unchanged.ge
        · exact newer.le
      exact ⟨fun u ne => by simp [same, setAt, ne], same.1 ▸ grown, dead, kept⟩

/-- A leader whose heartbeat thread is pending. -/
structure Office (t : Int) (r : Raft) : Prop where
  role : r.currentRole = .leader
  term : r.currentTerm = t
  alive : r.dead = false
  rearms : .startHeartbeatTimer ∈ r.threads

/-- What makes a pair of nodes ready for a round is in core and progress. -/
theorem Repairable.of_same {follower : Raft} (ready : Repairable p r follower)
    (core : s.core = r.core) (progress : s.progress = r.progress) : Repairable p s follower := by
  simp only [Raft.core, Core.mk.injEq] at core
  simp only [Raft.progress, Progress.mk.injEq] at progress
  obtain ⟨-, term, -, role, -, log⟩ := core
  exact
    { role := role.trans ready.role
      running := ready.running
      notOld := term ▸ ready.notOld
      sortedLeader := log ▸ ready.sortedLeader
      sortedFollower := ready.sortedFollower
      positive := log ▸ ready.positive
      matching := log ▸ ready.matching
      low := by rw [progress.2.2.2.1]; exact ready.low
      high := by rw [progress.2.2.2.1, log]; exact ready.high }

theorem Open.of_same {follower : Raft} (isOpen : Open p r follower) (core : s.core = r.core)
    (progress : s.progress = r.progress) : Open p s follower := by
  have log : s.log = r.log := congrArg Core.log core
  have next : s.nextIndex = r.nextIndex := congrArg Progress.nextIndex progress
  have matched : s.matchIndex = r.matchIndex := congrArg Progress.matchIndex progress
  simpa only [Open, log, next, matched] using isOpen

/-- What follows the acceptance of a request that carries the rest of the leader's log: the
follower has committed what the leader had, as far as the log goes. -/
theorem commit_of_accepted {follower follower' : Raft} (sends : Sends config r p call)
    (answered : follower.appendEntries call.req = some (follower', reply))
    (success : reply.success = true) (installed : r.log <+: follower'.log) :
    min r.commitIndex r.log.length ≤ follower'.commitIndex := by
  have commit := commitIndex_of_success answered success
  have longer := installed.length_le
  rw [sends.leaderCommit, Int.toNat_natCast] at commit
  rw [commit]
  split <;> omega

end Raft

/-- Requests are built by leaders, and proposals start after `run()`. -/
structure Action.Orderly (w : World) (action : Action) : Prop where
  builds : action.input.Builds → (w.nodes action.node).currentRole = .leader
  proposes : action.input.Proposes → (w.nodes action.node).active = true

namespace ClusterRun

variable {cl : Cluster} {w w' w'' : World} {Q : Finset Nat} {c v : Nat} {t : Int}

/-! ## Rounds in the cluster -/

/-- What rounds of leader `c` with `v` leave of the rest: the leader's log, what it knows of
the other nodes, and these. -/
structure Rounds (c v : Nat) (w w' : World) : Prop where
  log : (w'.nodes c).log = (w.nodes c).log
  indices : ∀ u, u ≠ v → (w'.nodes c).nextIndex u = (w.nodes c).nextIndex u ∧
    (w'.nodes c).matchIndex u = (w.nodes c).matchIndex u
  commit : (w.nodes c).commitIndex ≤ (w'.nodes c).commitIndex
  others : ∀ b, b ≠ c → b ≠ v → w'.nodes b = w.nodes b

theorem Rounds.trans (first : Rounds c v w w') (second : Rounds c v w' w'') : Rounds c v w w'' where
  log := second.log.trans first.log
  indices u ne := ⟨(second.indices u ne).1.trans (first.indices u ne).1,
    (second.indices u ne).2.trans (first.indices u ne).2⟩
  commit := first.commit.trans second.commit
  others b neC neV := (second.others b neC neV).trans (first.others b neC neV)

/-- The leader and `v` between two rounds. -/
structure Between (c v : Nat) (t : Int) (w : World) : Prop where
  office : (w.nodes c).Office t
  ready : Raft.Repairable v (w.nodes c) (w.nodes v)
  isOpen : Raft.Open v (w.nodes c) (w.nodes v)

/-- Node `v` holds the log the leader had, the leader knows it, and `v` has committed what the
leader had committed. -/
structure Holds (c v : Nat) (w w' : World) : Prop where
  installed : (w.nodes c).log <+: (w'.nodes v).log
  matched : (w'.nodes c).matchIndex v = (w.nodes c).log.length
  committed : min (w.nodes c).commitIndex (w.nodes c).log.length ≤ (w'.nodes v).commitIndex

/-- **One round**, from the heartbeat timer to the handled reply: `v` accepts, or `nextIndex`
goes down. -/
theorem reaches_round (memberC : c ∈ cl.ids) (memberV : v ∈ cl.ids) (inC : c ∈ Q) (inV : v ∈ Q)
    (ne : v ≠ c) (between : Between c v t w) :
    ∃ w', w.Reaches cl Q w' ∧ Rounds c v w w' ∧ Between c v t w' ∧
      (Holds c v w w' ∨ (w'.nodes c).nextIndex v < (w.nodes c).nextIndex v) := by
  obtain ⟨office, ready, isOpen⟩ := between
  obtain ⟨inputs, r, alone, beats⟩ := Raft.beats_of_starter (cl.config c) .heartbeat office.rearms
    office.alive office.role
  obtain ⟨w₁, beaten, isC, others⟩ := reaches_alone memberC inC alone
  have isV : w₁.nodes v = w.nodes v := others v ne
  obtain ⟨call, built, sends⟩ := Raft.appendCall_of_ready (cl.config c)
    (ready.of_same beats.core beats.progress)
  -- the node that handles the reply differs in its threads only
  let s : Raft :=
    ((r.finish (.sendEntriesTo v)).spawn (.awaitAppend call)).finish (.awaitAppend call)
  have core : s.core = (w.nodes c).core := beats.core
  have progress : s.progress = (w.nodes c).progress := beats.progress
  obtain ⟨leader', _, call', _, ran, sends', log, ready', outcome⟩ :=
    Raft.round_outcome (cl.config c) (ready.of_same core progress) (isOpen.of_same core progress)
  simp only [Raft.round, Option.bind_eq_bind, Option.bind_eq_some_iff] at ran
  obtain ⟨_, built', ⟨follower', reply⟩, answered, _, handled, same⟩ := ran
  cases same
  have sameCall : call' = call := Option.some.inj (built'.symm.trans built)
  subst sameCall
  -- the request, the answer and the reply, one section each
  have pending : .sendEntriesTo v ∈ (w₁.nodes c).threads := by
    rw [isC]
    exact beats.sends v (Cluster.mem_peers.mpr ⟨memberV, ne⟩)
  have sent := takes_section (w := w₁) (.sendEntriesTo v) memberC trivial
    (.sendEntriesTo pending (by rw [isC]; exact built))
  rw [isC] at sent
  let w₂ := w₁.after c ((r.finish (.sendEntriesTo v)).spawn (.awaitAppend call'))
    (.sendEntriesTo v) (.appendEntries call')
  have atV : w₂.nodes v = w.nodes v := (World.after_ne ne).trans isV
  have took := takes_section (w := w₂) (.appendEntries call') memberV
    ⟨List.mem_append_right _ (List.mem_singleton_self _), sends'.receiver⟩
    (.appendEntries (atV ▸ answered))
  let w₃ := w₂.after v follower' (.appendEntries call') (.appendReply reply)
  have atC : w₃.nodes c = (r.finish (.sendEntriesTo v)).spawn (.awaitAppend call') :=
    (World.after_ne ne.symm).trans World.after_self
  have told := takes_section (w := w₃) (.appendReply call' reply) memberC
    (List.mem_append_right _ (List.mem_singleton_self _))
    (.appendReply (by rw [atC]; exact List.mem_append_right _ (List.mem_singleton_self _))
      (by rw [atC]; exact handled))
  have leads : (w₁.nodes c).currentRole = .leader := by
    rw [isC]
    exact (congrArg Raft.Core.currentRole beats.core).trans office.role
  have reaches := beaten.trans ((Machine.Reaches.single sent ⟨inC, trivial, fun _ => leads⟩).trans
    ((Machine.Reaches.single took ⟨inV, trivial, False.elim⟩).trans
      (Machine.Reaches.single told ⟨inC, trivial, False.elim⟩)))
  have nowC : (w₃.after c leader' (.appendReply call' reply) .none).nodes c = leader' :=
    World.after_self
  have nowV : (w₃.after c leader' (.appendReply call' reply) .none).nodes v = follower' :=
    (World.after_ne ne).trans World.after_self
  have frame := Raft.handled_of_reply handled
  rw [sends'.receiver] at frame
  have term := ((Raft.handleAppendReply_change handled).leader ready'.role).2.1
  simp only [Raft.core, Raft.Core.mk.injEq] at core
  simp only [Raft.progress, Raft.Progress.mk.injEq] at progress
  refine ⟨_, reaches, ⟨?_, ?_, ?_, ?_⟩, ⟨?_, ?_, ?_⟩, ?_⟩
  · rw [nowC, log, core.2.2.2.2.2]
  · intro u other
    rw [nowC, (frame.others u other).1, (frame.others u other).2, progress.2.2.2.1,
      progress.2.2.2.2.1]
    exact ⟨rfl, rfl⟩
  · rw [nowC, ← progress.1]
    exact frame.commit
  · intro b neC neV
    rw [World.after_ne neC, World.after_ne neV, World.after_ne neC, others b neC]
  · rw [nowC]
    refine ⟨ready'.role, term.trans (core.2.1.trans office.term), ?_, ?_⟩
    · exact frame.dead.trans (beats.dead.trans office.alive)
    · apply frame.threads
      simp [s, Raft.finish, Raft.spawn, beats.rearms]
  · rw [nowC, nowV]
    exact ready'
  · rw [nowC, nowV]
    exact outcome.isOpen log
  · cases outcome with
    | accepted success within installed matched next =>
        refine Or.inl ⟨?_, ?_, ?_⟩
        · rw [nowV, ← core.2.2.2.2.2]
          exact installed
        · rw [nowC, matched, core.2.2.2.2.2]
        · rw [nowV, ← core.2.2.2.2.2, ← progress.1]
          exact Raft.commit_of_accepted sends' answered success installed
    | refused refusal beyond same matched low down above =>
        refine Or.inr ?_
        rw [nowC, ← progress.2.2.2.1]
        exact down

/-- **Rounds until `v` accepts.** -/
theorem reaches_accepted (memberC : c ∈ cl.ids) (memberV : v ∈ cl.ids) (inC : c ∈ Q) (inV : v ∈ Q)
    (ne : v ≠ c) (bound : Nat) (between : Between c v t w)
    (within : (w.nodes c).nextIndex v ≤ bound) :
    ∃ w', w.Reaches cl Q w' ∧ Rounds c v w w' ∧ Between c v t w' ∧ Holds c v w w' := by
  induction bound generalizing w with
  | zero =>
      have := between.ready.low
      omega
  | succ bound ih =>
      obtain ⟨w₁, reaches, rounds, between₁, holds | lower⟩ :=
        reaches_round memberC memberV inC inV ne between
      · exact ⟨w₁, reaches, rounds, between₁, holds⟩
      · obtain ⟨w', reaches', rounds', between', holds⟩ := ih between₁ (by omega)
        refine ⟨w', reaches.trans reaches', rounds.trans rounds', between', ?_, ?_, ?_⟩
        · exact rounds.log ▸ holds.installed
        · rw [holds.matched, rounds.log]
        · have committed := holds.committed
          rw [rounds.log] at committed
          exact (min_le_min_right _ rounds.commit).trans committed

/-- What a leader does with other nodes leaves it between its rounds with `v`. -/
theorem Between.keep (between : Between c v t w) (office : (w'.nodes c).Office t)
    (log : (w'.nodes c).log = (w.nodes c).log)
    (next : (w'.nodes c).nextIndex v = (w.nodes c).nextIndex v)
    (matched : (w'.nodes c).matchIndex v = (w.nodes c).matchIndex v)
    (same : w'.nodes v = w.nodes v) : Between c v t w' where
  office := office
  ready :=
    { role := office.role
      running := same ▸ between.ready.running
      notOld := by rw [same, office.term, ← between.office.term]; exact between.ready.notOld
      sortedLeader := log ▸ between.ready.sortedLeader
      sortedFollower := same ▸ between.ready.sortedFollower
      positive := log ▸ between.ready.positive
      matching := by rw [log, same]; exact between.ready.matching
      low := next ▸ between.ready.low
      high := by rw [next, log]; exact between.ready.high }
  isOpen := by simpa only [Raft.Open, log, next, matched, same] using between.isOpen

/-- What a leader leaves that has brought the nodes of `vs` up to date. -/
structure Replicated (c : Nat) (t : Int) (vs : List Nat) (w w' : World) : Prop where
  office : (w'.nodes c).Office t
  log : (w'.nodes c).log = (w.nodes c).log
  commit : (w.nodes c).commitIndex ≤ (w'.nodes c).commitIndex
  indices : ∀ u, u ∉ vs → (w'.nodes c).nextIndex u = (w.nodes c).nextIndex u ∧
    (w'.nodes c).matchIndex u = (w.nodes c).matchIndex u
  others : ∀ b, b ≠ c → b ∉ vs → w'.nodes b = w.nodes b
  between : ∀ v ∈ vs, Between c v t w'
  holds : ∀ v ∈ vs, Holds c v w w'

/-- **One follower after the other.** -/
theorem reaches_replicated (vs : List Nat) (memberC : c ∈ cl.ids) (inC : c ∈ Q)
    (members : ∀ v ∈ vs, v ∈ cl.ids ∧ v ∈ Q ∧ v ≠ c) (distinct : vs.Nodup)
    (office : (w.nodes c).Office t) (between : ∀ v ∈ vs, Between c v t w) :
    ∃ w', w.Reaches cl Q w' ∧ Replicated c t vs w w' := by
  induction vs generalizing w with
  | nil =>
      exact ⟨w, .refl w, office, rfl, le_rfl, fun _ _ => ⟨rfl, rfl⟩, fun _ _ _ => rfl, by simp,
        by simp⟩
  | cons v vs ih =>
      rw [List.nodup_cons] at distinct
      obtain ⟨memberV, inV, ne⟩ := members v List.mem_cons_self
      obtain ⟨w₁, reaches, rounds, between₁, holds⟩ := reaches_accepted memberC memberV inC inV ne
        ((w.nodes c).nextIndex v).toNat (between v List.mem_cons_self) (Int.self_le_toNat _)
      have later : ∀ u ∈ vs, Between c u t w₁ := by
        intro u member
        have other : u ≠ v := fun same => distinct.1 (same ▸ member)
        have neC := (members u (List.mem_cons_of_mem v member)).2.2
        exact (between u (List.mem_cons_of_mem v member)).keep between₁.office rounds.log
          (rounds.indices u other).1 (rounds.indices u other).2 (rounds.others u neC other)
      obtain ⟨w', reaches', done⟩ := ih (fun u member => members u (List.mem_cons_of_mem v member))
        distinct.2 between₁.office later
      have still : w'.nodes v = w₁.nodes v := done.others v ne distinct.1
      refine ⟨w', reaches.trans reaches', done.office, done.log.trans rounds.log,
        rounds.commit.trans done.commit, ?_, ?_, ?_, ?_⟩
      · intro u notIn
        rw [List.mem_cons, not_or] at notIn
        exact ⟨(done.indices u notIn.2).1.trans (rounds.indices u notIn.1).1,
          (done.indices u notIn.2).2.trans (rounds.indices u notIn.1).2⟩
      · intro b neC notIn
        rw [List.mem_cons, not_or] at notIn
        rw [done.others b neC notIn.2, rounds.others b neC notIn.1]
      · intro u member
        rcases List.mem_cons.mp member with rfl | inRest
        · exact between₁.keep done.office done.log (done.indices u distinct.1).1
            (done.indices u distinct.1).2 still
        · exact done.between u inRest
      · intro u member
        rcases List.mem_cons.mp member with rfl | inRest
        · exact ⟨still ▸ holds.installed, (done.indices u distinct.1).2.trans holds.matched,
            still ▸ holds.committed⟩
        · have held := done.holds u inRest
          refine ⟨rounds.log ▸ held.installed, held.matched.trans (by rw [rounds.log]), ?_⟩
          have committed := held.committed
          rw [rounds.log] at committed
          exact (min_le_min_right _ rounds.commit).trans committed

/-! ## Going on from a run -/

variable {R : ClusterRun cl} {k m : Nat}

/-- Up to the state where it goes on, an extension has the steps of the run. -/
theorem ran_of_extension {R' : ClusterRun cl} {P : World → Action → Prop} {j a : Nat}
    {input : Input} {output : Output} (goesOn : Extension R R' k P w') (bound : k ≤ R.length)
    (before : j < k) (ran : R'.Ran j a input output) : R.Ran j a input output := by
  have now : R'.state j = R.state j := goesOn.state j before.le
  have next : R'.state (j + 1) = R.state (j + 1) := goesOn.state (j + 1) before
  obtain ⟨-, action, member, delivered, stepped, others, network⟩ := ran
  simp only [node, now, next] at delivered stepped others network
  exact ⟨before.trans_le bound, (goesOn.input j before).symm.trans action, member, delivered,
    stepped, others, network⟩

/-- What an orderly run can come to by orderly steps, an orderly run comes to. -/
theorem exists_orderly (afterRun : R.ProposesAfterRun) (sends : R.SendsAsLeader)
    (bound : k ≤ R.length) (reaches : (machine cl).Reaches Action.Orderly (R.state k) w') :
    ∃ R' : ClusterRun cl, R'.ProposesAfterRun ∧ R'.SendsAsLeader ∧ R'.state R'.length = w' := by
  obtain ⟨R', goesOn⟩ := R.exists_extension bound reaches
  have same : ∀ j < k, ∀ b, node R' j b = R.node j b := by
    intro j before b
    exact congrArg (fun w => w.nodes b) (goesOn.state j before.le)
  refine ⟨R', ?_, ?_, goesOn.last⟩
  · intro j a input output ran proposes
    by_cases before : j < k
    · rw [same j before]
      exact afterRun j a input output (ran_of_extension goesOn bound before ran) proposes
    · have orderly := goesOn.allowed j (not_lt.mp before) ran.within
      rw [ran.action] at orderly
      exact orderly.proposes proposes
  · intro j call sent
    by_cases before : j < k
    · have ran := ran_of_extension goesOn bound before sent.ran
      rw [same j before]
      exact sends j call ⟨ran, same j before _ ▸ sent.sends⟩
    · have orderly := goesOn.allowed j (not_lt.mp before) sent.ran.within
      rw [sent.ran.action] at orderly
      exact orderly.builds trivial

/-- What `Q` does by itself is orderly. -/
theorem orderly_of_reaches (reaches : w.Reaches cl Q w') :
    (machine cl).Reaches Action.Orderly w w' := by
  refine reaches.mono fun w action acts => ⟨acts.builds, ?_⟩
  intro proposes
  have internal := acts.internal
  generalize action.input = input at proposes internal
  cases input <;> first | exact proposes.elim | exact internal.elim

/-! ## Committing -/

/-- A node has handed out what it has committed. -/
theorem handed_out (unique : R.OneLeaderPerTerm) (afterRun : R.ProposesAfterRun)
    (sends : R.SendsAsLeader) (bound : m ≤ R.length) {p : Nat} {entry : Entry}
    (at_p : (R.node m v).log[p]? = some entry) (committed : p < (R.node m v).commitIndex) :
    entry.result p ∈ (R.node m v).readyQueue := by
  obtain ⟨length, applied⟩ := queue_applied unique afterRun sends bound v
  have inside : p < (R.node m v).readyQueue.length := by
    rw [length, caught_up unique afterRun sends bound v]
    exact committed
  obtain ⟨entry', read, same⟩ := applied p _ (List.getElem?_eq_getElem inside)
  rw [Nat.zero_add] at read same
  rw [at_p, Option.some.injEq] at read
  subst read
  have result : (R.node m v).readyQueue[p] = entry.result p := same
  rw [← result]
  exact List.getElem_mem inside

/-- A majority that holds the leader's whole log commits it, if the leader's last entry is of
its own term. -/
theorem committed_of_matched (majority : cl.MajorityElects) (two : 2 ≤ Q.card)
    (many : (cl.size - 1) / 2 < Q.card) (inC : c ∈ Q) (members : ∀ v ∈ Q, v ∈ cl.ids)
    (leads : R.Leads m c t) {entry : Entry} {old : List Entry}
    (log : (R.node m c).log = old ++ [entry]) (own : entry.term = t)
    (matched : ∀ v ∈ Q, v ≠ c → (R.node m c).matchIndex v = (R.node m c).log.length) :
    (R.node m c).log.length ≤ (R.node m c).commitIndex := by
  have size : Q.card ≤ cl.size := by
    rw [Cluster.size, ← List.toFinset_card_of_nodup cl.nodup]
    exact Finset.card_le_card fun v inV => List.mem_toFinset.mpr (members v inV)
  have length : (R.node m c).log.length = old.length + 1 := by rw [log, List.length_append]; rfl
  apply settled_of_leads (two.trans size) leads
  refine ⟨by omega, ⟨entry, ?_, own.trans leads.term.symm⟩, ?_⟩
  · rw [length, log]
    simp
  · have counted : Q ⊆ insert c ((cl.config c).peers.filter fun p =>
        decide (((R.node m c).log.length : Int) ≤ (R.node m c).matchIndex p)).toFinset := by
      intro v inV
      by_cases isC : v = c
      · rw [isC]
        exact Finset.mem_insert_self _ _
      · simp [Cluster.mem_peers, members v inV, isC, matched v inV isC]
    have card := Finset.card_le_card counted
    rw [Cluster.card_counted] at card
    have count : Q.card ≤ (R.node m c).replicaCount (cl.config c) (R.node m c).log.length := card
    have peers := Cluster.length_peers (members c inC)
    refine lt_of_lt_of_le ?_ count
    rcases majority with odd | isTwo <;> omega

/-- A new leader of the latest term is between two rounds with every other node of `Q`, also
after it has appended. -/
theorem between_of_elected {r : Raft} (unique : R.OneLeaderPerTerm)
    (afterRun : R.ProposesAfterRun) (up : (R.node R.length v).active = true)
    (office : (R.node R.length c).Office t)
    (next : (R.node R.length c).nextIndex v = r.log.length + 1)
    (unmatched : (R.node R.length c).matchIndex v = 0)
    (grown : r.log <+: (R.node R.length c).log)
    (term : (R.node R.length v).currentTerm ≤ t) :
    Between c v t (R.state R.length) := by
  have logs := ordered afterRun le_rfl c
  have others := ordered afterRun le_rfl v
  have longer := grown.length_le
  refine ⟨office, ?_, Or.inl unmatched⟩
  exact
    { role := office.role
      running := up
      notOld := term.trans office.term.ge
      sortedLeader := List.pairwise_map.mp logs.sorted
      sortedFollower := List.pairwise_map.mp others.sorted
      positive := fun entry member => (logs.within _ (List.mem_map_of_mem member)).1
      matching := matching unique afterRun le_rfl le_rfl c v
      low := by change 1 ≤ (R.node R.length c).nextIndex v; omega
      high := by
        change (R.node R.length c).nextIndex v ≤ (R.node R.length c).log.length + 1
        omega }

/-- **Two passes of replication** after a proposal: the first one commits it, the second one
tells the others. -/
theorem reaches_handed_out (majority : cl.MajorityElects) (afterRun : R.ProposesAfterRun)
    (sends : R.SendsAsLeader) (members : ∀ v ∈ Q, v ∈ cl.ids) (two : 2 ≤ Q.card)
    (many : (cl.size - 1) / 2 < Q.card) (inC : c ∈ Q)
    (up : (R.node R.length c).Up) (office : (R.node R.length c).Office t)
    {old : List Entry} {entry : Entry} (log : (R.node R.length c).log = old ++ [entry])
    (own : entry.term = t) (between : ∀ v ∈ Q, v ≠ c → Between c v t (R.state R.length)) :
    ∃ w', (R.state R.length).Reaches cl Q w' ∧
      ∀ v ∈ Q, entry.result old.length ∈ (w'.nodes v).readyQueue := by
  have unique : ∀ S : ClusterRun cl, S.OneLeaderPerTerm := oneLeader_of_majority majority
  have memberC := members c inC
  have mem_others : ∀ v, v ∈ (Q.erase c).toList ↔ v ≠ c ∧ v ∈ Q := by simp
  have voter : ∀ v ∈ (Q.erase c).toList, v ∈ cl.ids ∧ v ∈ Q ∧ v ≠ c := by
    intro v isVoter
    obtain ⟨ne, inV⟩ := (mem_others v).mp isVoter
    exact ⟨members v inV, inV, ne⟩
  obtain ⟨w₁, first, done⟩ := reaches_replicated (Q.erase c).toList memberC inC voter
    (Finset.nodup_toList _) office
    fun v isVoter => between v (voter v isVoter).2.1 (voter v isVoter).2.2
  obtain ⟨R₁, afterRun₁, sends₁, rfl⟩ :=
    exists_orderly afterRun sends le_rfl (orderly_of_reaches first)
  have log₁ : (R₁.node R₁.length c).log = old ++ [entry] := done.log.trans log
  have committed := committed_of_matched majority two many inC members
    ⟨le_rfl, (up_of_reaches first up).active, done.office.role, done.office.term⟩ log₁ own
    fun v inV ne => by
      have holds := done.holds v ((mem_others v).mpr ⟨ne, inV⟩)
      exact holds.matched.trans (congrArg (fun l => (l.length : Int)) done.log.symm)
  -- the second pass takes `commitIndex` along
  obtain ⟨w₂, second, told⟩ := reaches_replicated (Q.erase c).toList memberC inC voter
    (Finset.nodup_toList _) done.office done.between
  obtain ⟨R₂, afterRun₂, sends₂, rfl⟩ :=
    exists_orderly afterRun₁ sends₁ le_rfl (orderly_of_reaches second)
  refine ⟨_, first.trans second, ?_⟩
  intro v inV
  have length : (R₁.node R₁.length c).log.length = old.length + 1 := by
    rw [log₁, List.length_append, List.length_singleton]
  obtain ⟨held, known⟩ : (R₁.node R₁.length c).log <+: (R₂.node R₂.length v).log ∧
      old.length < (R₂.node R₂.length v).commitIndex := by
    by_cases isC : v = c
    · subst isC
      have grown : (R₁.node R₁.length v).commitIndex ≤ (R₂.node R₂.length v).commitIndex :=
        told.commit
      exact ⟨told.log.symm ▸ List.prefix_refl _, by omega⟩
    · have holds := told.holds v ((mem_others v).mpr ⟨isC, inV⟩)
      have known := holds.committed
      change min (R₁.node R₁.length c).commitIndex (R₁.node R₁.length c).log.length ≤
        (R₂.node R₂.length v).commitIndex at known
      exact ⟨holds.installed, by omega⟩
  refine handed_out (unique R₂) afterRun₂ sends₂ le_rfl ?_ known
  exact getElem?_extend held (by rw [log₁]; simp)

/-- **Election and proposal.** -/
theorem reaches_proposed (majority : cl.MajorityElects) (afterRun : R.ProposesAfterRun)
    (sends : R.SendsAsLeader) (bound : k ≤ R.length) (members : ∀ v ∈ Q, v ∈ cl.ids)
    (ups : ∀ v ∈ Q, (R.node k v).Up) (two : 2 ≤ Q.card) (many : (cl.size - 1) / 2 < Q.card)
    (data : String) :
    ∃ c ∈ Q, ∃ t w₁ w₂, (R.state k).Reaches cl Q w₁ ∧ (w₁.nodes c).currentRole = .leader ∧
      (w₁.nodes c).currentTerm = t ∧ (machine cl).Takes w₁ [⟨c, .propose data⟩] w₂ ∧
      (machine cl).Reaches Action.Orderly (R.state k) w₂ ∧
      (w₂.nodes c).log = (w₁.nodes c).log ++ [⟨t, data⟩] ∧
      (w₂.nodes c).Up ∧ (w₂.nodes c).Office t ∧ ∀ v ∈ Q, v ≠ c → Between c v t w₂ := by
  have unique : ∀ S : ClusterRun cl, S.OneLeaderPerTerm := oneLeader_of_majority majority
  obtain ⟨c, inC, t, w₁, -, elects, elected, terms⟩ :=
    reaches_elected bound members ups two many 0
  have ups₁ : ∀ v ∈ Q, (w₁.nodes v).Up := fun v inV => up_of_reaches elects (ups v inV)
  have memberC := members c inC
  have proposed : (w₁.nodes c).propose data =
      ((w₁.nodes c).append ⟨t, data⟩, (w₁.nodes c).accepted) := by
    rw [Raft.propose, if_pos elected.role, Raft.proposed, elected.term]
  have takes := takes_section (w := w₁) (.propose data) memberC trivial .propose
  rw [proposed] at takes
  have orderly : (machine cl).Reaches Action.Orderly (R.state k) _ :=
    (orderly_of_reaches elects).trans
      (Machine.Reaches.single takes ⟨False.elim, fun _ => (ups₁ c inC).active⟩)
  obtain ⟨R₂, afterRun₂, sends₂, last⟩ := exists_orderly afterRun sends bound orderly
  have isC : R₂.node R₂.length c = (w₁.nodes c).append ⟨t, data⟩ := by
    rw [node, last, World.after_self]
  have others : ∀ b, b ≠ c → R₂.node R₂.length b = w₁.nodes b := by
    intro b ne
    rw [node, last, World.after_ne ne]
  rw [← last] at takes orderly
  have office : (R₂.node R₂.length c).Office t := by
    rw [isC]
    exact ⟨elected.role, elected.term, (ups₁ c inC).alive, elected.rearms⟩
  refine ⟨c, inC, t, w₁, _, elects, elected.role, elected.term, takes, orderly,
    congrArg Raft.log isC, ?_, office, ?_⟩
  · change (R₂.node R₂.length c).Up
    rw [isC]
    exact ⟨(ups₁ c inC).active, (ups₁ c inC).alive, (ups₁ c inC).awake⟩
  · intro v inV ne
    refine between_of_elected (r := w₁.nodes c) (unique R₂) afterRun₂ ?_ office ?_ ?_ ?_ ?_
    · rw [others v ne]
      exact (ups₁ v inV).active
    · rw [isC]
      exact elected.next v (Cluster.mem_peers.mpr ⟨members v inV, ne⟩)
    · rw [isC]
      exact elected.unmatched v
    · rw [isC]
      exact List.prefix_append _ _
    · rw [others v ne]
      exact terms v inV

/-- **A majority that is up can always commit.**  From any state of a run in which requests
are built by leaders, the nodes of a set that has a majority, two at least, and that run and
were not killed come by their own threads and handlers to a state in which one of them leads;
if that one is then given a proposal, they go on by themselves to a state in which all of them
have handed it out under the index it was accepted with. -/
theorem commit_possible (R : ClusterRun cl) (k : Nat) (Q : Finset Nat) (data : String)
    (majority : cl.MajorityElects) (afterRun : R.ProposesAfterRun) (sends : R.SendsAsLeader)
    (bound : k ≤ R.length) (members : ∀ v ∈ Q, v ∈ cl.ids)
    (ups : ∀ v ∈ Q, (R.node k v).active = true ∧ (R.node k v).dead = false) (two : 2 ≤ Q.card)
    (many : (cl.size - 1) / 2 < Q.card) :
    ∃ c ∈ Q, ∃ before after w₁ w',
      (∀ action ∈ before ++ after, action.node ∈ Q ∧ action.input.Internal) ∧
      (machine cl).Takes (R.state k) before w₁ ∧ (w₁.nodes c).currentRole = .leader ∧
      (machine cl).Takes w₁ (⟨c, .propose data⟩ :: after) w' ∧
      ∀ v ∈ Q, { valid := true, data := data, index := (w₁.nodes c).log.length + 1 } ∈
        (w'.nodes v).readyQueue := by
  have always : ∀ w action, Action.By Q w action → action.node ∈ Q ∧ action.input.Internal :=
    fun w action acts => ⟨acts.node, acts.internal⟩
  obtain ⟨c, inC, t, w₁, w₂, elects, role, -, takes, orderly, log, up, office, between⟩ :=
    reaches_proposed majority afterRun sends bound members
      (fun v inV => ⟨(ups v inV).1, (ups v inV).2, awake bound (ups v inV).1 (ups v inV).2⟩)
      two many data
  obtain ⟨R₂, afterRun₂, sends₂, rfl⟩ := exists_orderly afterRun sends bound orderly
  obtain ⟨w', replicates, handedOut⟩ := reaches_handed_out majority afterRun₂ sends₂ members two
    many inC up office log rfl between
  obtain ⟨before, first, ran⟩ := Machine.Reaches.takes elects always
  obtain ⟨after, second, goesOn⟩ := Machine.Reaches.takes replicates always
  refine ⟨c, inC, before, after, w₁, w', ?_, ran, role, takes.append goesOn, handedOut⟩
  intro action member
  exact (List.mem_append.mp member).elim (first action) (second action)

/-- The leader of three nodes is cut off after a commit; the other two commit `y`. -/
theorem commit_possible_of_split :
    ∃ (R : ClusterRun (.ofSize 3 (by decide))), R.Leads 17 1 1 ∧
      ∃ c ∈ ({2, 3} : Finset Nat), ∃ before after w₁ w',
        (∀ action ∈ before ++ after,
          action.node ∈ ({2, 3} : Finset Nat) ∧ action.input.Internal) ∧
        (machine (.ofSize 3 (by decide))).Takes (R.state 17) before w₁ ∧
        (machine (.ofSize 3 (by decide))).Takes w₁ (⟨c, .propose "y"⟩ :: after) w' ∧
        ∀ v ∈ ({2, 3} : Finset Nat),
          { valid := true, data := "y", index := (w₁.nodes c).log.length + 1 } ∈
            (w'.nodes v).readyQueue := by
  let R : ClusterRun (.ofSize 3 (by decide)) := .of _ oneCommit oneCommit_accepted
  have afterRun : R.ProposesAfterRun := proposesAfterRun_of_checked (by decide +kernel)
  have sends : R.SendsAsLeader := sendsAsLeader_of_checked (by decide +kernel)
  have leads : R.Leads 17 1 1 :=
    ⟨by decide, by decide +kernel, by decide +kernel, by decide +kernel⟩
  obtain ⟨c, inC, before, after, w₁, w', allowed, first, -, second, handedOut⟩ :=
    commit_possible R 17 {2, 3} "y" (Or.inl rfl) afterRun sends (by decide) (by decide)
      (by decide +kernel) (by decide) (by decide)
  exact ⟨R, leads, c, inC, before, after, w₁, w', allowed, first, second, handedOut⟩

end ClusterRun

end Rafty
