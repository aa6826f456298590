import Cmu440.Bitcoin.Mining

/-!
# A server among strangers

`Mining` runs the server with miners and clients that keep to the protocol. The
server itself checks little of it: a `Join` frees the connection it comes from,
and a `Result` is taken for the unit that is registered there. Here every
connection may send every message at every time.

Two things can go wrong, and both do. A `Result` from a connection without a unit
makes `updateResult` read `workU.clientWorkFor` of a nil pointer, and the server is
gone (`unsolicited_result_crashes`). A second `Join` of a miner overwrites the unit
it works on, which is then neither in `jobQ` nor with a miner, and the client waits
for ever (`second_join_loses_unit`).

Nothing else can. As long as a `Result` only comes from a connection with a unit
and a `Join` from one without, whoever sends them and whatever is in them, every
message is handled, and a unit of an active client stays until its result is
counted (`orderly_peers_served`).
-/
namespace Cmu440.Bitcoin

inductive PeerLbl
  | assign (order : List Int) (writes : Int → Bool)
  | message (connId : Int) (payLoad : Option Message)
  | failure (connId : Int)

namespace Scheduler

/-- mirrors server.go:239-250 -/
def turn (s : Scheduler) : PeerLbl → Option Scheduler
  | .assign order writes =>
    if order.Perm s.unOccupiedMiner.keys then some (s.assignJobsToUnoccupiedMiner order writes).1
    else none
  | .message connId payLoad => (s.handleIncomeMessage connId payLoad).map Prod.fst
  | .failure connId => some (s.handleFailure connId)

/-- A `Result` comes from a connection with a unit, a `Join` from one without. -/
def orderly (s : Scheduler) : PeerLbl → Bool
  | .message connId (some msg) =>
    match msg.type with
    | .join => (s.currWork connId).isNone
    | .result => (s.currWork connId).isSome
    | _ => true
  | _ => true

end Scheduler

/-- The server with any peers. -/
def anyPeers : LTS Scheduler PeerLbl := LTS.ofFn (· = .init) Scheduler.turn

/-- The server with peers that are `orderly`. -/
def orderlyPeers : LTS Scheduler PeerLbl :=
  LTS.ofFn (· = .init) (LTS.guarded Scheduler.orderly Scheduler.turn)

namespace Scheduler

/-- The message was a `Result` for the unit `u` of `c`, and the client's status, or
the result it was sent, counts it. -/
def Counts (s : Scheduler) (connId : Int) (msg : Message) (c : Int) (st : ClientStatus)
    (s' : Scheduler) (out : List (Int × Message)) : Prop :=
  ∃ u, msg.type = .result ∧ s.currWork connId = some u ∧ s.outstanding c = u ::ₘ s'.outstanding c ∧
    (s'.clients.lookup c = some (st.count msg) ∨
      (st.count msg).notFinishedJob = 0 ∧ s'.clients.lookup c = none ∧
      out = [(c, newResult (st.count msg).minHash (st.count msg).nonce)])

/-! ## The maps of miners -/

/-- The miners in `unOccupiedMiner` are those that have no unit. -/
def Matched (s : Scheduler) : Prop :=
  ∀ k, k ∈ s.unOccupiedMiner ↔ s.minerCurrWork.lookup k = some none

/-- Each miner as if it had been asked for its unit and for nothing else. -/
theorem Matched.roster {s : Scheduler} (h : s.Matched) :
    Roster s fun k => (s.currWork k).toList.map WorkUnit.workMsg :=
  fun k => ⟨h k, rfl⟩

theorem matched_of_roster {s : Scheduler} {asked : Int → List Message} (h : Roster s asked) :
    s.Matched :=
  fun k => (h k).free

theorem outstanding_free_of_idle {s : Scheduler} {connId : Int} (h : s.currWork connId = none)
    (c : Int) : (s.free connId).outstanding c = s.outstanding c := by
  by_cases hmem : connId ∈ s.minerCurrWork
  · obtain ⟨o, ho⟩ := Option.isSome_iff_exists.mp (AList.lookup_isSome.mpr hmem)
    rw [currWork, ho, Option.join_some] at h
    apply outstanding_congr
    rw [free, occupied_insert, occupied_of_lookup ho, h]
  · exact outstanding_free_of_notMem hmem c

/-! ## One message -/

/-- A `Result` for a unit frees the miner and is counted for the client, if it is there. -/
theorem updateResult_spec {s : Scheduler} {connId : Int} {u : WorkUnit}
    (h : s.currWork connId = some u) (msg : Message) :
    ∃ clients out,
      s.updateResult connId msg = some ({ s.free connId with clients := clients }, out) ∧
      ∀ st, s.clients.lookup u.clientWorkFor = some st →
        clients.lookup u.clientWorkFor = some (st.count msg) ∨
        (st.count msg).notFinishedJob = 0 ∧ clients.lookup u.clientWorkFor = none ∧
        out = [(u.clientWorkFor, newResult (st.count msg).minHash (st.count msg).nonce)] := by
  simp only [updateResult, h]
  split <;> rename_i hst
  · refine ⟨s.clients, [], rfl, fun st hsome => ?_⟩
    rw [show s.clients.lookup u.clientWorkFor = none from hst] at hsome
    cases hsome
  · rename_i st
    have hst : s.clients.lookup u.clientWorkFor = some st := hst
    split <;> rename_i hdone
    · refine ⟨_, _, rfl, fun st' hsome => ?_⟩
      cases hst.symm.trans hsome
      exact .inr ⟨hdone, AList.lookup_erase _ _, rfl⟩
    · refine ⟨_, _, rfl, fun st' hsome => ?_⟩
      cases hst.symm.trans hsome
      exact .inl (AList.lookup_insert _)

/-- No message of an orderly peer stops the server or takes a unit that is not counted. -/
theorem message_served {s : Scheduler} {connId : Int} {msg : Message}
    (ho : s.orderly (.message connId (some msg)) = true) :
    ∃ s' out, s.handleIncomeMessage connId (some msg) = some (s', out) ∧
      (s.Matched → s'.Matched) ∧
      ∀ c st, s.clients.lookup c = some st →
        s.outstanding c ≤ s'.outstanding c ∨ s.Counts connId msg c st s' out := by
  cases hty : msg.type with
  | join =>
    simp only [handleIncomeMessage, orderly, hty] at ho ⊢
    refine ⟨_, _, rfl, fun hm => matched_of_roster (hm.roster.free connId), fun c _ _ => .inl ?_⟩
    exact (outstanding_free_of_idle (Option.isNone_iff_eq_none.mp ho) c).ge
  | request =>
    simp only [handleIncomeMessage, hty]
    split
    · obtain ⟨units, heq, -, hunits⟩ := s.partitionJob_eq connId msg
      rw [heq]
      refine ⟨_, _, rfl, id, fun c _ _ => .inl ?_⟩
      obtain ⟨hown, hother⟩ := s.outstanding_pushJob units.length fun u hu => (hunits u hu).1
      by_cases hc : c = connId
      · rw [hc, hown]
        exact Multiset.le_add_right _ _
      · exact (hother c hc).ge
    · exact ⟨s, [], rfl, id, fun _ _ _ => .inl le_rfl⟩
  | result =>
    simp only [handleIncomeMessage, orderly, hty] at ho ⊢
    obtain ⟨u, hu⟩ := Option.isSome_iff_exists.mp ho
    obtain ⟨clients, out, heq, hcounts⟩ := updateResult_spec hu msg
    have hlook : s.minerCurrWork.lookup connId = some (some u) := Option.join_eq_some_iff.mp hu
    refine ⟨{ s.free connId with clients := clients }, out, heq,
      fun hm => matched_of_roster (hm.roster.free connId), fun c st hst => ?_⟩
    by_cases hc : c = u.clientWorkFor
    · subst hc
      exact .inr ⟨u, hty, hu, (outstanding_free hlook).1, hcounts st hst⟩
    · exact .inl ((outstanding_free hlook).2 c hc).ge
  | other code =>
    simp only [handleIncomeMessage, hty]
    exact ⟨s, [], rfl, id, fun _ _ _ => .inl le_rfl⟩

end Scheduler

/-! ## Every run -/

/-- With orderly peers the two maps of miners agree. -/
theorem matched_inductive : orderlyPeers.Inductive Scheduler.Matched where
  init s h := by
    subst h
    intro k
    simp [Scheduler.init]
  step s l s' hm h := by
    obtain ⟨ho, hturn⟩ := LTS.guarded_eq_some.mp h
    cases l with
    | assign order writes =>
      simp only [Scheduler.turn] at hturn
      split at hturn
      · rename_i horder
        cases hturn
        exact Scheduler.matched_of_roster (assigned_assignJobs hm.roster horder writes).2
      · cases hturn
    | message connId payLoad =>
      cases payLoad with
      | none =>
        cases hturn
        exact hm
      | some msg =>
        obtain ⟨s₁, out, heq, hkept, -⟩ := Scheduler.message_served ho
        simp only [Scheduler.turn, heq, Option.map_some] at hturn
        cases hturn
        exact hkept hm
    | failure connId =>
      cases hturn
      exact Scheduler.matched_of_roster (hm.roster.handleFailure connId)

/-- In every state that orderly peers lead to: the next message of such a peer is
handled; and whatever happens next, a unit of an active client stays in `jobQ` or
with a miner unless its result is counted. -/
theorem orderly_peers_served {s : Scheduler} (hr : orderlyPeers.Reachable s) :
    (∀ connId msg, s.orderly (.message connId (some msg)) = true →
      ∃ s' out, s.handleIncomeMessage connId (some msg) = some (s', out) ∧
        ∀ c st, s.clients.lookup c = some st →
          s.outstanding c ≤ s'.outstanding c ∨ s.Counts connId msg c st s' out) ∧
    (∀ order writes c st, order.Perm s.unOccupiedMiner.keys → s.clients.lookup c = some st →
      (s.assignJobsToUnoccupiedMiner order writes).1.outstanding c = s.outstanding c) ∧
    ∀ connId c, (s.handleFailure connId).outstanding c = s.outstanding c := by
  have hm := matched_inductive.reachable s hr
  refine ⟨fun connId msg ho => ?_, fun order writes c st horder hst => ?_, ?_⟩
  · obtain ⟨s', out, heq, -, hserved⟩ := Scheduler.message_served ho
    exact ⟨s', out, heq, hserved⟩
  · refine (assigned_assignJobs hm.roster horder writes).1.outstanding c (.inl ?_)
    rw [hst]
    exact Option.some_ne_none st
  · exact s.outstanding_handleFailure

/-! ## One miner and one client -/

/-- The connection 1 joins, 2 asks for a hundred nonces, 1 is sent the unit. -/
def oneUnit : List PeerLbl :=
  [.message 1 (some newJoin), .message 2 (some (newRequest "" 0 99)), .assign [1] fun _ => true]

def working : Scheduler := LTS.execD (LTS.guarded Scheduler.orderly Scheduler.turn) .init oneUnit

theorem working_reachable : orderlyPeers.Reachable working :=
  ⟨_, oneUnit, rfl, LTS.run_execD (by decide +kernel)⟩

theorem working_served :
    working.orderly (.message 1 (some (newResult 5 3))) = true ∧
    ∃ s' out, working.handleIncomeMessage 1 (some (newResult 5 3)) = some (s', out) ∧
      ∀ c st, working.clients.lookup c = some st →
        working.outstanding c ≤ s'.outstanding c ∨
          working.Counts 1 (newResult 5 3) c st s' out :=
  ⟨by decide +kernel, (orderly_peers_served working_reachable).1 1 (newResult 5 3)
    (by decide +kernel)⟩

/-- The first message the server reads is a `Result`. -/
theorem unsolicited_result_crashes :
    anyPeers.Reachable .init ∧
    Scheduler.init.handleIncomeMessage 1 (some (newResult 0 0)) = none :=
  ⟨⟨_, [], rfl, .nil _⟩, rfl⟩

/-- The miner joins again while it works: the client is there, its unit is not. -/
theorem second_join_loses_unit :
    anyPeers.Reachable working ∧
    (working.clients.lookup 2).isSome ∧ working.outstanding 2 ≠ 0 ∧
    working.handleIncomeMessage 1 (some newJoin) = some (working.free 1, []) ∧
    (working.free 1).clients.lookup 2 = working.clients.lookup 2 ∧
    (working.free 1).outstanding 2 = 0 :=
  ⟨LTS.reachable_of_guarded working_reachable, by decide +kernel, by decide +kernel, rfl, rfl,
    by decide +kernel⟩

end Cmu440.Bitcoin
