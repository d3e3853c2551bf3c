/-
# Rafty.Network.Isolation — what a minority can do that nobody hears

From state `k` to state `m` of a run nothing that the nodes of `S` build reaches a node
outside `S` (`Sealed`); calls that were on their way before may still arrive, and what the
others send may come in.

* No node of `S` is elected but in a candidacy that it had begun before (`Sealed.candidacy`):
  the votes of `S` are too few, and no other node hears of a new one.
* What a node of `S` accepts from then on is in no log outside `S` (`Sealed.unheard`), so no
  majority holds it, and no node commits it (`Sealed.uncommitted`).
-/
import Rafty.Commit.Refinement

namespace Rafty

set_option autoImplicit false

open Theory

namespace ClusterRun

variable {cl : Cluster} {R : ClusterRun cl} {S : Finset Nat} {k l m j a c v i : Nat} {t : Int}
  {data : String}

/-- Of the requests that nodes of `S` send, those delivered outside `S` from state `k` to
state `m` were on their way in state `k`. -/
structure Sealed (R : ClusterRun cl) (S : Finset Nat) (k m : Nat) : Prop where
  votes : ∀ g v call output, k ≤ g → g < m → R.Ran g v (.replyVote call) output →
    call.caller ∈ S → v ∉ S → call ∈ (R.state k).voteRequests
  appends : ∀ g v call output, k ≤ g → g < m → R.Ran g v (.appendEntries call) output →
    call.caller ∈ S → v ∉ S → call ∈ (R.state k).appendRequests

/-! ## Elections -/

/-- A set that is larger than `S` has a member outside. -/
theorem exists_outside {votes : Finset Nat} (many : S.card < votes.card) : ∃ v ∈ votes, v ∉ S := by
  by_contra inside
  have subset : votes ⊆ S := by
    intro v member
    by_contra outside
    exact inside ⟨v, member, outside⟩
  exact absurd (Finset.card_le_card subset) (not_le.mpr many)

/-- A vote request shows the term its caller was in when it was built. -/
theorem term_of_voteRequest (bound : k ≤ R.length) {call : VoteCall}
    (member : call ∈ (R.state k).voteRequests) :
    ∃ j, j < k ∧ (R.node j call.caller).currentTerm = call.req.term := by
  obtain ⟨j, b, target, electionTerm, lt, -, rfl⟩ := voteRequest_origin bound member
  exact ⟨j, lt, rfl⟩

/-- A vote from outside `S` answers a request from before. -/
theorem Sealed.grants (isolated : R.Sealed S k m) (bound : k ≤ R.length) {g : Nat}
    (grants : R.Grants g v c t) (member : c ∈ S) (outside : v ∉ S) (before : g < m) :
    ∃ j, j < k ∧ (R.node j c).currentTerm = t := by
  cases grants with
  | own _ same => exact absurd (same ▸ member) outside
  | reply ran _ caller term =>
      subst caller term
      by_cases early : g < k
      · obtain ⟨j, lt, same⟩ := term_of_voteRequest ran.within.le ran.delivered.1
        exact ⟨j, by omega, same⟩
      · exact term_of_voteRequest bound
          (isolated.votes g v _ _ (not_lt.mp early) before ran member outside)

/-- **An election of a sealed node ends a candidacy from before.** -/
theorem Sealed.candidacy (isolated : R.Sealed S k m) (few : S.card ≤ (cl.size - 1) / 2)
    {e : Nat} (elects : R.Elects e c t) (member : c ∈ S) (from_k : k ≤ e) (to_m : e < m) :
    (R.node k c).currentTerm = t ∧ (R.node k c).currentRole = .candidate := by
  obtain ⟨within, -, role, term⟩ := elects.before
  have bound : k ≤ R.length := from_k.trans within.le
  obtain ⟨votes, half, -, gives⟩ := elects.quorum
  obtain ⟨v, isVote, outside⟩ := exists_outside (few.trans_lt half)
  obtain ⟨g, before, grants, -⟩ := gives v isVote
  obtain ⟨j, lt, same⟩ := isolated.grants bound grants member outside (by omega)
  have since := (tenure (R := R) lt.le bound c).term
  have rest := tenure (R := R) from_k within.le c
  have upTo := rest.term
  have here : (R.node k c).currentTerm = t := by omega
  exact ⟨here, (rest.candidacy (term.trans here.symm) role).1⟩

/-- **A sealed minority gets no leader of a new term.** -/
theorem Sealed.leads (isolated : R.Sealed S k m) (few : S.card ≤ (cl.size - 1) / 2)
    (leads : R.Leads l c t) (member : c ∈ S) (from_k : k ≤ l) (to_m : l ≤ m) :
    (R.node k c).currentTerm = t ∧ (R.node k c).currentRole ≠ .follower := by
  obtain ⟨e, lt, elects⟩ := election_of_leads leads
  by_cases before : e < k
  · have led := elects.leads.between leads before from_k
    exact ⟨led.term, by simp [led.role]⟩
  · obtain ⟨term, role⟩ := isolated.candidacy few elects member (not_lt.mp before) (by omega)
    exact ⟨term, by simp [role]⟩

/-! ## Proposals -/

/-- How a log changes, with the request that was delivered. -/
theorem log_cases (within : l < R.length) (v : Nat) :
    (R.node (l + 1) v).log = (R.node l v).log ∨
      (∃ data input output, R.Ran l v input output ∧
        (input = .propose data ∨ input = .proposeSync data) ∧
        (R.node l v).currentRole = .leader ∧
        (R.node (l + 1) v).core =
          { (R.node l v).core with log := (R.node l v).log ++ [(R.node l v).proposed data] }) ∨
      ∃ n call output, R.Splice l v n call ∧ R.Ran l v (.appendEntries call) output := by
  rcases node_cases within v with same | ⟨input, output, ran⟩
  · exact Or.inl (by rw [same])
  cases ran.change with
  | write notOld consistent core =>
      obtain ⟨n, splice⟩ := splice_of_accepted ran notOld consistent core
      exact Or.inr (Or.inr ⟨n, _, output, splice, ran⟩)
  | append data proposes role core =>
      exact Or.inr (Or.inl ⟨data, input, output, ran, proposes, role, core⟩)
  | still core | run core | candidacy core | higher _ _ core | grant _ _ _ core
    | count _ _ _ core | elect _ core | refuse _ core =>
      exact Or.inl (congrArg Raft.Core.log core)

section Proposals

variable (unique : R.OneLeaderPerTerm) (afterRun : R.ProposesAfterRun)

include unique afterRun

/-- The entry is in no log before it is accepted. -/
theorem Accepts.not_before (accepts : R.Accepts j a data i t) (bound : l ≤ R.length) (le : l ≤ j)
    (v : Nat) {p : Nat} (isIndex : i = p + 1) {entry : Entry}
    (read : (R.node l v).log[p]? = some entry) : entry.term ≠ t := by
  intro same
  subst same isIndex
  obtain ⟨n, b, lt, first⟩ := accepted_of_log unique afterRun bound v p entry read
  have := accepts.unique first unique afterRun
  omega

/-- What is in a log after a splice was in it before or in the request. -/
theorem Splice.entry {n : Nat} {call : AppendCall} (splice : R.Splice l v n call) {p : Nat}
    {entry : Entry} (read : (R.node (l + 1) v).log[p]? = some entry) :
    (R.node l v).log[p]? = some entry ∨
      call.pos ≤ p ∧ call.req.entries[p - call.pos]? = some entry := by
  rcases splice.outcome (splice.matching unique afterRun) with ⟨-, same⟩ | ⟨-, installed⟩
  · exact Or.inl (same ▸ read)
  by_cases below : p < call.pos
  · have kept : (R.node l v).log.take call.pos <+: (R.node (l + 1) v).log := by
      rw [splice.log]
      exact overwrite_keeps splice.inside fun m _ _ _ _ lt => by omega
    have inside := splice.inside
    have old : (R.node l v).log[p]? = some (R.node l v).log[p] :=
      List.getElem?_eq_getElem (by omega)
    have found := getElem?_extend kept ((List.getElem?_take_of_lt below).trans old)
    exact Or.inl (old.trans (found.symm.trans read))
  · refine Or.inr ⟨not_lt.mp below, ?_⟩
    rw [splice.sent.sends.entries, List.getElem?_drop, ← installed, ← read]
    congr 1
    omega

/-- **What a sealed node accepts is in no log outside.** -/
theorem Sealed.unheard (isolated : R.Sealed S k m) (accepts : R.Accepts j a data i t)
    (member : a ∈ S) (from_k : k ≤ j) {p : Nat} (isIndex : i = p + 1) (bound : m ≤ R.length)
    (to_m : l ≤ m) :
    ∀ v, v ∉ S → ∀ entry, (R.node l v).log[p]? = some entry → entry.term ≠ t := by
  have all := R.history (P := fun l => l ≤ m → ∀ v, v ∉ S → ∀ entry,
    (R.node l v).log[p]? = some entry → entry.term ≠ t) ?_ ?_ l (to_m.trans bound)
  · exact all to_m
  · intro _ v _ entry read
    exact accepts.not_before unique afterRun (Nat.zero_le _) (Nat.zero_le j) v isIndex read
  · intro l within ih upTo v outside entry read
    by_cases early : l + 1 ≤ j
    · exact accepts.not_before unique afterRun within early v isIndex read
    have earlier : ∀ n ≤ l, ∀ v, v ∉ S → ∀ entry, (R.node n v).log[p]? = some entry →
        entry.term ≠ t := fun n le => ih n le (by omega)
    rcases log_cases within v with same | ⟨other, input, output, ran, proposes, role, core⟩ |
      ⟨n, call, output, splice, ran⟩
    · exact earlier l le_rfl v outside entry (same ▸ read)
    · obtain ⟨before, -⟩ := leads_of_proposed afterRun ran proposes role core
      obtain ⟨proposing, -⟩ := accepts.leads afterRun
      rw [log_of_proposed core] at read
      by_cases inside : p < (R.node l v).log.length
      · rw [List.getElem?_append_left inside] at read
        exact earlier l le_rfl v outside entry read
      · -- an entry of the term is accepted by the leader of the term, which is in `S`
        rw [List.getElem?_append_right (not_lt.mp inside)] at read
        have isNew := List.mem_singleton.mp (List.mem_of_getElem? read)
        intro same
        have term : (R.node l v).currentTerm = t := (congrArg Entry.term isNew).symm.trans same
        rw [term] at before
        exact outside (unique.leads before proposing ▸ member)
    · rcases splice.entry unique afterRun read with old | ⟨beyond, sentEntry⟩
      · exact earlier l le_rfl v outside entry old
      have held : ∀ h, R.Sent h call → (R.node h call.caller).log[p]? = some entry := by
        intro h sent
        rw [sent.sends.entries, List.getElem?_drop, Nat.add_sub_cancel' beyond] at sentEntry
        exact sentEntry
      by_cases inS : call.caller ∈ S
      · obtain ⟨h, lt, sent⟩ := sent_of_request (from_k.trans (by omega))
          (isolated.appends l v call output (by omega) upTo ran inS outside)
        exact accepts.not_before unique afterRun sent.ran.within.le (by omega) call.caller
          isIndex (held h sent)
      · exact earlier n splice.lt.le call.caller inS entry (held n splice.sent)

/-- **No node commits what a sealed minority accepts.** -/
theorem Sealed.uncommitted (isolated : R.Sealed S k m) (few : 2 * S.card ≤ cl.size)
    (sends : R.SendsAsLeader) (accepts : R.Accepts j a data i t) (member : a ∈ S)
    (from_k : k ≤ j) {p : Nat} (isIndex : i = p + 1) (bound : m ≤ R.length) (to_m : l ≤ m)
    (v : Nat) {entry : Entry} (read : ((R.state l).committed v)[p]? = some entry) :
    entry.term ≠ t := by
  have inside := sound unique afterRun sends (to_m.trans bound) v
  rcases inside.certified with empty | ⟨e, b, N, lt, commits, -, isPrefix⟩
  · rw [committed_eq, empty] at read
    simp at read
  -- one of those that held what is committed is outside `S`
  obtain ⟨holders, many, -, holds⟩ := commits.quorum unique afterRun
  have more : S.card < holders.card := by omega
  obtain ⟨h, isHolder, outside⟩ := exists_outside more
  obtain ⟨-, n, le, -, held⟩ := holds h isHolder
  have found : (R.node n h).log[p]? = some entry :=
    getElem?_extend held (getElem?_extend isPrefix read)
  exact isolated.unheard unique afterRun accepts member from_k isIndex bound (by omega) h outside
    entry found

end Proposals

end ClusterRun

end Rafty
