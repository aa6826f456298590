import Cmu440.Core.Work

/-!
# The mining server

The functions of p1/src/github.com/cmu440/bitcoin/server/server.go over the four
global variables they share, and the messages of bitcoin/message.go.

* A Go map is an `AList`, so that `len` and `range` are there; `range` goes
  through the keys in an order the run time picks.
* Work units are shared by pointer. `WorkUnit.ptr` is the address, which keeps
  two units with the same contents apart; `allocated` is the next free one.
* Numbers of type `uint64` are `UInt64` and wrap as in the source.
* `lspServer.Write` may fail: `assignJobsToUnoccupiedMiner` takes what it returns
  for each miner. The result sent to a client is sent with the error ignored.
* `none` is the run-time panic of a nil dereference.

The payload of a message is what `json.Unmarshal` made of it. Logging is left out.
-/
namespace Cmu440.Bitcoin

/-- The code of any other message is not looked at. mirrors message.go:5-11 -/
inductive MsgType
  | join | request | result
  | other (code : Int)
  deriving DecidableEq, Repr

/-- mirrors message.go:16-21 -/
structure Message where
  type : MsgType
  data : String
  lower : UInt64
  upper : UInt64
  hash : UInt64
  nonce : UInt64
  deriving DecidableEq, Repr

/-- mirrors message.go:25-32 -/
def newRequest (data : String) (lower upper : UInt64) : Message :=
  ⟨.request, data, lower, upper, 0, 0⟩

/-- mirrors message.go:36-42 -/
def newResult (hash nonce : UInt64) : Message := ⟨.result, "", 0, 0, hash, nonce⟩

/-- mirrors message.go:45-47 -/
def newJoin : Message := ⟨.join, "", 0, 0, 0, 0⟩

/-- `math.MaxUint64`. -/
def maxUint64 : UInt64 := 18446744073709551615

def minerWorkloadThreshold : UInt64 := 10000

/-- mirrors server.go:23-26 -/
structure WorkUnit where
  ptr : Nat
  clientWorkFor : Int
  workMsg : Message
  deriving DecidableEq, Repr

/-- mirrors server.go:28-32 -/
structure ClientStatus where
  notFinishedJob : Int
  minHash : UInt64
  nonce : UInt64
  deriving DecidableEq, Repr

/-- mirrors server.go:44-50 -/
def newClientStatus (partitionedJobNum : Nat) : ClientStatus := ⟨partitionedJobNum, maxUint64, 0⟩

/-- The client's status after a result for one of its units. mirrors server.go:113-118 -/
def ClientStatus.count (st : ClientStatus) (msg : Message) : ClientStatus :=
  let st := { st with notFinishedJob := st.notFinishedJob - 1 }
  if msg.hash < st.minHash then { st with minHash := msg.hash, nonce := msg.nonce } else st

/-- mirrors server.go:35-38 -/
structure Scheduler where
  minerCurrWork : AList fun _ : Int => Option WorkUnit
  unOccupiedMiner : AList fun _ : Int => Bool
  clients : AList fun _ : Int => ClientStatus
  jobQ : List WorkUnit
  allocated : Nat

namespace Scheduler

/-- mirrors server.go:226-229 -/
def init : Scheduler := ⟨∅, ∅, ∅, [], 0⟩

/-- `jobQ.PushBack` of the new units `units`, whose job `connId` asked for. -/
def pushJob (s : Scheduler) (connId : Int) (units : List WorkUnit) (jobs : Nat) : Scheduler :=
  { s with jobQ := s.jobQ ++ units, clients := s.clients.insert connId (newClientStatus jobs),
           allocated := s.allocated + units.length }

/-- The units the job is cut into for `numOfMiner` miners. mirrors server.go:86-99 -/
def cutJob (s : Scheduler) (connId : Int) (msg : Message) (numOfMiner : Nat) : List WorkUnit :=
  let interval := (msg.upper - msg.lower + 1) / UInt64.ofNat numOfMiner
  (List.range numOfMiner).map fun i =>
    let currLower := msg.lower + UInt64.ofNat i * interval
    let currUpper := if i = numOfMiner - 1 then msg.upper else currLower + interval - 1
    ⟨s.allocated + i, connId, newRequest msg.data currLower currUpper⟩

/-- mirrors server.go:80-84 -/
def numOfMiner (s : Scheduler) : Nat :=
  if s.minerCurrWork.keys.length = 0 then 1 else s.minerCurrWork.keys.length

/-- mirrors server.go:69-101 -/
def partitionJob (s : Scheduler) (connId : Int) (msg : Message) : Scheduler :=
  if msg.upper - msg.lower + 1 ≤ minerWorkloadThreshold then
    s.pushJob connId [⟨s.allocated, connId, newRequest msg.data msg.lower msg.upper⟩] 1
  else
    s.pushJob connId (s.cutJob connId msg s.numOfMiner) s.numOfMiner

/-- `minerCurrWork[connId]`, which is nil as well when there is no such miner. -/
def currWork (s : Scheduler) (connId : Int) : Option WorkUnit := (s.minerCurrWork.lookup connId).join

/-- mirrors server.go:108-109 and, for a miner that joins, 144-145 -/
def free (s : Scheduler) (connId : Int) : Scheduler :=
  { s with minerCurrWork := s.minerCurrWork.insert connId none,
           unOccupiedMiner := s.unOccupiedMiner.insert connId true }

/-- The new state, and the results passed to `sendMessage` with their clients.
mirrors server.go:105-128 -/
def updateResult (s : Scheduler) (connId : Int) (msg : Message) :
    Option (Scheduler × List (Int × Message)) :=
  match s.currWork connId with
  -- the miner is marked as unoccupied, then workU.clientWorkFor panics
  | none => none
  | some workU =>
    let s := s.free connId
    match s.clients.lookup workU.clientWorkFor with
    | none => some (s, [])
    | some st =>
      let st := st.count msg
      if st.notFinishedJob = 0 then
        some ({ s with clients := s.clients.erase workU.clientWorkFor },
          [(workU.clientWorkFor, newResult st.minHash st.nonce)])
      else some ({ s with clients := s.clients.insert workU.clientWorkFor st }, [])

/-- mirrors server.go:131-154 -/
def handleIncomeMessage (s : Scheduler) (connId : Int) :
    Option Message → Option (Scheduler × List (Int × Message))
  | none => some (s, [])
  | some msg =>
    match msg.type with
    | .join => some (s.free connId, [])
    | .request =>
      if s.clients.lookup connId = none then some (s.partitionJob connId msg, []) else some (s, [])
    | .result => s.updateResult connId msg
    | .other _ => some (s, [])

/-- The unit `workU` was sent to the miner. mirrors server.go:170-172 -/
def assign (s : Scheduler) (connId : Int) (workU : WorkUnit) (rest : List WorkUnit) : Scheduler :=
  { s with jobQ := rest, minerCurrWork := s.minerCurrWork.insert connId (some workU),
           unOccupiedMiner := s.unOccupiedMiner.erase connId }

/-- The loop over `jobQ` for one miner: units of clients that are gone are
removed, the first other one is sent. `write` says whether that succeeds. The
messages returned are those that were sent. mirrors server.go:162-178 -/
def assignOne (s : Scheduler) (connId : Int) (write : Bool) :
    List WorkUnit → Scheduler × List (Int × Message)
  | [] => ({ s with jobQ := [] }, [])
  | workU :: rest =>
    if s.clients.lookup workU.clientWorkFor ≠ none then
      if write then (s.assign connId workU rest, [(connId, workU.workMsg)])
      else ({ s with jobQ := workU :: rest }, [])
    else s.assignOne connId write rest

/-- The loop over the miners of `order`. mirrors server.go:159-182 -/
def assignLoop (writes : Int → Bool) :
    List Int → Scheduler → Scheduler × List (Int × Message)
  | [], s => (s, [])
  | connId :: order, s =>
    let r := s.assignOne connId (writes connId) s.jobQ
    if r.1.jobQ.length = 0 then r
    else
      let r' := assignLoop writes order r.1
      (r'.1, r.2 ++ r'.2)

/-- `order` is the order `range unOccupiedMiner` takes. mirrors server.go:157-184 -/
def assignJobsToUnoccupiedMiner (s : Scheduler) (order : List Int) (writes : Int → Bool) :
    Scheduler × List (Int × Message) :=
  if s.jobQ.length > 0 then assignLoop writes order s else (s, [])

/-- mirrors server.go:187-201 -/
def handleFailure (s : Scheduler) (connId : Int) : Scheduler :=
  match s.minerCurrWork.lookup connId with
  | some currWork =>
    { s with jobQ := currWork.toList ++ s.jobQ,
             unOccupiedMiner := s.unOccupiedMiner.erase connId,
             minerCurrWork := s.minerCurrWork.erase connId }
  | none =>
    if s.clients.lookup connId ≠ none then { s with clients := s.clients.erase connId } else s

/-! ## Outstanding work -/

/-- The units of a client that wait in `jobQ` or that a miner works on. -/
def outstanding (s : Scheduler) (c : Int) : Multiset WorkUnit :=
  (↑s.jobQ + occupied s.minerCurrWork).filter fun u => u.clientWorkFor = c

theorem mem_outstanding {s : Scheduler} {c : Int} {u : WorkUnit} : u ∈ s.outstanding c ↔
    (u ∈ s.jobQ ∨ ∃ k, s.minerCurrWork.lookup k = some (some u)) ∧ u.clientWorkFor = c := by
  rw [outstanding, Multiset.mem_filter, Multiset.mem_add, mem_occupied, Multiset.mem_coe]

/-- Only the queue and what the miners hold, taken together, count. -/
theorem outstanding_congr {s s' : Scheduler}
    (h : (↑s'.jobQ + occupied s'.minerCurrWork : Multiset WorkUnit) =
      ↑s.jobQ + occupied s.minerCurrWork) (c : Int) : s'.outstanding c = s.outstanding c := by
  rw [outstanding, outstanding, h]

/-- A unit that is taken away was outstanding for its client alone. -/
theorem outstanding_cons {s t : Scheduler} {u : WorkUnit}
    (h : (↑s.jobQ + occupied s.minerCurrWork : Multiset WorkUnit) =
      u ::ₘ (↑t.jobQ + occupied t.minerCurrWork)) :
    s.outstanding u.clientWorkFor = u ::ₘ t.outstanding u.clientWorkFor ∧
    ∀ c, c ≠ u.clientWorkFor → t.outstanding c = s.outstanding c := by
  refine ⟨?_, ?_⟩
  · rw [outstanding, h]
    exact Multiset.filter_cons_of_pos _ rfl
  · intro c hc
    rw [outstanding, outstanding, h]
    exact (Multiset.filter_cons_of_neg _ fun he => hc he.symm).symm

/-! ## New jobs -/

theorem outstanding_pushJob {s : Scheduler} {connId : Int} {units : List WorkUnit} (jobs : Nat)
    (h : ∀ u ∈ units, u.clientWorkFor = connId) :
    (s.pushJob connId units jobs).outstanding connId = s.outstanding connId + ↑units ∧
    ∀ c, c ≠ connId → (s.pushJob connId units jobs).outstanding c = s.outstanding c := by
  have hsplit : ∀ c, (s.pushJob connId units jobs).outstanding c =
      s.outstanding c + (↑units : Multiset WorkUnit).filter fun u => u.clientWorkFor = c := by
    intro c
    rw [outstanding, outstanding, ← Multiset.filter_add, pushJob, ← Multiset.coe_add]
    congr 1
    rw [add_assoc, add_assoc, add_comm (occupied _)]
  refine ⟨?_, ?_⟩
  · rw [hsplit, Multiset.filter_eq_self.mpr h]
  · intro c hc
    have hnone : (↑units : Multiset WorkUnit).filter (fun u => u.clientWorkFor = c) = 0 :=
      Multiset.filter_eq_nil.mpr fun u hu he => hc (he.symm.trans (h u hu))
    rw [hsplit, hnone, add_zero]

theorem length_cutJob (s : Scheduler) (connId : Int) (msg : Message) (n : Nat) :
    (s.cutJob connId msg n).length = n := by
  rw [cutJob, List.length_map, List.length_range]

theorem cutJob_nodup (s : Scheduler) (connId : Int) (msg : Message) (n : Nat) :
    (s.cutJob connId msg n).Nodup := by
  refine List.Nodup.map_on ?_ List.nodup_range
  intro i _ j _ hij
  -- the addresses differ, whatever the ranges are
  have hptr : s.allocated + i = s.allocated + j := congrArg WorkUnit.ptr hij
  omega

theorem mem_cutJob {s : Scheduler} {connId : Int} {msg : Message} {n : Nat} {u : WorkUnit}
    (h : u ∈ s.cutJob connId msg n) : u.clientWorkFor = connId ∧ u.workMsg.data = msg.data := by
  obtain ⟨i, _, rfl⟩ := List.mem_map.mp h
  exact ⟨rfl, rfl⟩

/-- The job is cut into distinct units, as many as the client's status says. -/
theorem partitionJob_eq (s : Scheduler) (connId : Int) (msg : Message) :
    ∃ units : List WorkUnit, s.partitionJob connId msg = s.pushJob connId units units.length ∧
      units.Nodup ∧ ∀ u ∈ units, u.clientWorkFor = connId ∧ u.workMsg.data = msg.data := by
  unfold partitionJob
  split
  · refine ⟨_, rfl, List.nodup_singleton _, ?_⟩
    intro u hu
    rw [List.mem_singleton.mp hu]
    exact ⟨rfl, rfl⟩
  · refine ⟨s.cutJob connId msg s.numOfMiner, ?_, cutJob_nodup s connId msg _,
      fun u hu => mem_cutJob hu⟩
    rw [length_cutJob]

/-! ## Miners

A miner that is given a unit, gives it back or answers it. -/

theorem outstanding_free_of_notMem {s : Scheduler} {connId : Int}
    (h : connId ∉ s.minerCurrWork) (c : Int) : (s.free connId).outstanding c = s.outstanding c := by
  apply outstanding_congr
  rw [free, occupied_insert, occupied_erase_of_notMem h, Option.toList_none, Multiset.coe_nil,
    zero_add]

theorem outstanding_free {s : Scheduler} {connId : Int} {u : WorkUnit}
    (h : s.minerCurrWork.lookup connId = some (some u)) :
    s.outstanding u.clientWorkFor = u ::ₘ (s.free connId).outstanding u.clientWorkFor ∧
    ∀ c, c ≠ u.clientWorkFor → (s.free connId).outstanding c = s.outstanding c := by
  apply outstanding_cons
  rw [free, occupied_insert, occupied_of_lookup h, Option.toList_none, Multiset.coe_nil, zero_add,
    Option.toList_some, Multiset.coe_singleton, Multiset.singleton_add, Multiset.add_cons]

theorem outstanding_assign {s : Scheduler} {connId : Int} {u : WorkUnit} {rest : List WorkUnit}
    (h : s.minerCurrWork.lookup connId = some none) (hq : s.jobQ = u :: rest) (c : Int) :
    (s.assign connId u rest).outstanding c = s.outstanding c := by
  apply outstanding_congr
  rw [assign, occupied_insert, occupied_of_lookup h, hq, Option.toList_none, Multiset.coe_nil,
    zero_add, Option.toList_some, Multiset.coe_singleton, Multiset.singleton_add, Multiset.add_cons,
    ← Multiset.cons_coe, Multiset.cons_add]

theorem outstanding_handleFailure (s : Scheduler) (connId c : Int) :
    (s.handleFailure connId).outstanding c = s.outstanding c := by
  unfold handleFailure
  split
  · rename_i o ho
    apply outstanding_congr
    rw [occupied_of_lookup ho, ← Multiset.coe_add, add_assoc, add_left_comm]
  · split <;> rfl

theorem clients_handleFailure (s : Scheduler) (k : Int) :
    (s.handleFailure k).clients = s.clients ∨ (s.handleFailure k).clients = s.clients.erase k := by
  unfold handleFailure
  split
  · exact .inl rfl
  · split
    · exact .inr rfl
    · exact .inl rfl

theorem lookup_handleFailure_of_ne (s : Scheduler) {k c : Int} (hc : c ≠ k) :
    (s.handleFailure k).clients.lookup c = s.clients.lookup c := by
  rcases s.clients_handleFailure k with h | h
  · rw [h]
  · rw [h, AList.lookup_erase_ne hc]

theorem lookup_of_handleFailure {s : Scheduler} {k c : Int} {st : ClientStatus}
    (h : (s.handleFailure k).clients.lookup c = some st) : s.clients.lookup c = some st := by
  by_cases hc : c = k
  · subst hc
    rcases s.clients_handleFailure c with he | he
    · rw [he] at h
      exact h
    · rw [he, AList.lookup_erase] at h
      cases h
  · rw [s.lookup_handleFailure_of_ne hc] at h
    exact h

end Scheduler
end Cmu440.Bitcoin
