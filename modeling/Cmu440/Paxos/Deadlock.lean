import Cmu440.Core.Mutexes
import Mathlib.Algebra.Order.Ring.Int

/-!
# The mutexes of a peer

p3/src/github.com/cmu440/flight_reservation/paxos/paxos.go: the handlers of a
peer as the mutexes they lock and unlock, with the data that decides how they go
on. `px.mu` guards the peer, every slot has a mutex of its own, and
`maxDoneLock` is taken alone.

* A slot's mutex is created under `px.mu` wherever it is looked up, so there is
  one for each slot.
* `startHelper` calls `Prepare`, `Accept` and `Decide` on the peer itself. Whether
  a round gets its majorities is decided by the other peers, so it is a choice.

`Decide` and `Put` lock `px.mu` while they hold the mutex of their slot;
`CheckSlot` and `MinUndecidedSlot` lock the slots one by one while they hold
`px.mu`. Each of the two orders is fine on its own (`handlers_never_deadlock`),
and one handler of each kind can block the peer for ever
(`decide_and_checkSlot_deadlock`).
-/
namespace Cmu440.Paxos

/-! ## The handlers -/

inductive Mutex
  | mu
  | maxDoneLock
  | slot (slotNum : Int)
  deriving DecidableEq, Repr

/-- What the handlers look at. `isDecided` is the flag of the slots. -/
structure Shared where
  isDecided : Int → Bool
  maxDecidedSlot : Int
  minUndecidedSlot : Int
  isLocked : Bool

inductive RoundPhase
  | prepare
  | accept
  | decide
  deriving DecidableEq, Repr

/-- How a round of `startHelper` goes: the last phase it comes to, and whether
the peer finds itself in its list of peers in each. -/
structure Round where
  last : RoundPhase
  listed : RoundPhase → Bool

/-- What the handlers do besides locking. -/
inductive Work
  /-- `timeslot.isDecided = true` -/
  | markDecided (slotNum : Int)
  /-- `px.maxDecidedSlot = getMax(px.maxDecidedSlot, slotNum)` -/
  | raiseMax (slotNum : Int)
  | putUndecided (slotNum : Int)
  /-- The loop of `CheckSlot` at `i`. -/
  | checkFrom (i : Int)
  /-- `slotNum := px.minUndecidedSlot` -/
  | scanMin
  /-- The loop of `MinUndecidedSlot` at `slotNum`. -/
  | minFrom (slotNum : Int)
  | minTest (slotNum : Int)
  | setMin (slotNum : Int)
  | syncTest (slotNum : Int)
  | startTest (slotNum : Int)
  | statusTest (slotNum : Int)
  | setLocked (b : Bool)
  /-- The loop of `startHelper`. -/
  | round (slotNum : Int)
  deriving DecidableEq, Repr

abbrev Code := List (Act Mutex Work)

/-- mirrors paxos.go:126-134 -/
def getTimeSlotLock : Code := [.lock .mu, .unlock .mu]

/-- mirrors paxos.go:137-159 -/
def prepareCode (slotNum : Int) : Code :=
  getTimeSlotLock ++ [.lock (.slot slotNum), .unlock (.slot slotNum)]

/-- mirrors paxos.go:162-182 -/
def acceptCode (slotNum : Int) : Code :=
  getTimeSlotLock ++ [.lock (.slot slotNum), .unlock (.slot slotNum)]

/-- mirrors paxos.go:195-197 and 220-222 -/
def raiseMaxCode (slotNum : Int) : Code :=
  [.lock .mu, .run (.raiseMax slotNum), .unlock .mu]

/-- mirrors paxos.go:185-202 -/
def decideCode (slotNum : Int) : Code :=
  getTimeSlotLock ++ [.lock (.slot slotNum), .run (.markDecided slotNum)] ++ raiseMaxCode slotNum ++
    [.unlock (.slot slotNum)]

/-- mirrors paxos.go:206-227 -/
def putCode (slotNum : Int) : Code :=
  getTimeSlotLock ++ [.lock (.slot slotNum), .run (.putUndecided slotNum), .unlock (.slot slotNum)]

/-- mirrors paxos.go:316-349 -/
def checkSlotCode : Code := [.lock .mu, .run (.checkFrom 0), .unlock .mu]

/-- mirrors paxos.go:376-405 -/
def minUndecidedSlotCode : Code := [.lock .mu, .run .scanMin, .unlock .mu]

/-- mirrors paxos.go:423-434; the loop is `Work.round` -/
def startHelperCode (slotNum : Int) : Code :=
  getTimeSlotLock ++ [.lock (.slot slotNum), .unlock (.slot slotNum), .lock .maxDoneLock,
    .unlock .maxDoneLock, .run (.round slotNum)]

/-- mirrors paxos.go:269-303 -/
def syncPaxosValueCode (slotNum : Int) : Code :=
  getTimeSlotLock ++ [.lock (.slot slotNum), .run (.syncTest slotNum)]

/-- What a round of `startHelper` locks on the peer itself.
mirrors paxos.go:439-559 -/
def roundCode (slotNum : Int) (choice : Round) : Code :=
  let prepares := if choice.listed .prepare then prepareCode slotNum else []
  let accepts := if choice.listed .accept then acceptCode slotNum else []
  let decides := if choice.listed .decide then decideCode slotNum else []
  match choice.last with
  | .prepare => prepares ++ [.run (.round slotNum)]
  | .accept => prepares ++ accepts ++ [.run (.round slotNum)]
  | .decide => prepares ++ accepts ++ decides

def execWork (d : Shared) (choice : Round) : Work → Shared × Code
  | .markDecided slotNum => ({ d with isDecided := Function.update d.isDecided slotNum true }, [])
  | .raiseMax slotNum => ({ d with maxDecidedSlot := max d.maxDecidedSlot slotNum }, [])
  | .putUndecided slotNum =>
    (d, if d.isDecided slotNum then [] else .run (.markDecided slotNum) :: raiseMaxCode slotNum)
  | .checkFrom i =>
    (d, if i ≤ d.maxDecidedSlot then [.lock (.slot i), .unlock (.slot i), .run (.checkFrom (i + 1))]
      else [])
  | .scanMin => (d, [.run (.minFrom d.minUndecidedSlot)])
  | .minFrom slotNum => (d, [.lock (.slot slotNum), .run (.minTest slotNum)])
  | .minTest slotNum =>
    (d, .unlock (.slot slotNum) ::
      (if d.isDecided slotNum then [.run (.minFrom (slotNum + 1))] else [.run (.setMin slotNum)]))
  | .setMin slotNum => ({ d with minUndecidedSlot := slotNum }, [])
  | .syncTest slotNum =>
    (d, .unlock (.slot slotNum) ::
      (if d.isDecided slotNum then [] else
        startHelperCode slotNum ++ [.lock (.slot slotNum), .unlock (.slot slotNum)]))
  | .startTest slotNum =>
    (d, .unlock .mu :: (if d.isLocked then [] else startHelperCode slotNum))
  | .statusTest slotNum =>
    (d, .unlock .mu :: (if d.isLocked then [] else
      getTimeSlotLock ++ [.lock (.slot slotNum), .unlock (.slot slotNum)]))
  | .setLocked b => ({ d with isLocked := b }, [])
  | .round slotNum => (d, roundCode slotNum choice)

inductive Handler
  | prepare (slotNum : Int)
  | accept (slotNum : Int)
  | decide (slotNum : Int)
  | put (slotNum : Int)
  | getPeers
  | updatePeers
  | setLock (b : Bool)
  | syncPaxosValue (slotNum : Int)
  | checkSlot
  | maxDecidedSlot
  | minUndecidedSlot
  | start (slotNum : Int)
  | status (slotNum : Int)
  deriving DecidableEq, Repr

namespace Handler

def code : Handler → Code
  | .prepare slotNum => prepareCode slotNum
  | .accept slotNum => acceptCode slotNum
  | .decide slotNum => decideCode slotNum
  | .put slotNum => putCode slotNum
  | .getPeers | .updatePeers | .maxDecidedSlot => [.lock .mu, .unlock .mu]
  | .setLock b => [.lock .mu, .run (.setLocked b), .unlock .mu]
  | .syncPaxosValue slotNum => syncPaxosValueCode slotNum
  | .checkSlot => checkSlotCode
  | .minUndecidedSlot => minUndecidedSlotCode
  | .start slotNum => [.lock .mu, .run (.startTest slotNum)]
  | .status slotNum => [.lock .mu, .run (.statusTest slotNum)]

/-- Locks slots under `px.mu`. -/
def scans : Handler → Bool
  | .checkSlot | .minUndecidedSlot => true
  | _ => false

/-- Locks `px.mu` under the mutex of a slot, when it records a decision. -/
def records : Handler → Bool
  | .decide _ | .put _ | .syncPaxosValue _ | .start _ => true
  | _ => false

end Handler

def peerHandlers : Machine Mutex Work Shared Round Handler := ⟨Handler.code, execWork⟩

/-- A peer that has just been made. -/
def newShared : Shared := ⟨fun _ => false, 0, 0, false⟩

abbrev PeerLocks := Mutexes Mutex Work Shared Handler

/-- Any number of handlers on one peer. -/
def peerLocks : LTS PeerLocks (MutexLbl Round Handler) := peerHandlers.system newShared

/-- The handlers of the threads that have not returned. -/
def running (s : PeerLocks) : List Handler :=
  (s.threads.filter fun thread => !thread.code.isEmpty).map (·.op)

/-! ## The two orders -/

inductive LockOrder
  | muFirst
  | slotsFirst

def LockOrder.rank : LockOrder → Mutex → Nat
  | .muFirst, .mu => 0
  | .muFirst, _ => 1
  | .slotsFirst, .mu => 1
  | .slotsFirst, _ => 0

/-- The mutexes with which the handlers' work is done. `minTest` and `syncTest`
begin with the mutex of the slot and release it. -/
inductive WorkHeld : LockOrder → Work → List Mutex → List Mutex → Prop
  | markDecided (o : LockOrder) (n : Int) (held : List Mutex) : WorkHeld o (.markDecided n) held held
  | raiseMax (o : LockOrder) (n : Int) (held : List Mutex) : WorkHeld o (.raiseMax n) held held
  | setMin (o : LockOrder) (n : Int) (held : List Mutex) : WorkHeld o (.setMin n) held held
  | setLocked (o : LockOrder) (b : Bool) (held : List Mutex) : WorkHeld o (.setLocked b) held held
  | putUndecided (n : Int) : WorkHeld .slotsFirst (.putUndecided n) [.slot n] [.slot n]
  | checkFrom (i : Int) : WorkHeld .muFirst (.checkFrom i) [.mu] [.mu]
  | scanMin : WorkHeld .muFirst .scanMin [.mu] [.mu]
  | minFrom (n : Int) : WorkHeld .muFirst (.minFrom n) [.mu] [.mu]
  | minTest (n : Int) : WorkHeld .muFirst (.minTest n) [.slot n, .mu] [.mu]
  | syncTest (n : Int) : WorkHeld .slotsFirst (.syncTest n) [.slot n] []
  | startTest (n : Int) : WorkHeld .slotsFirst (.startTest n) [.mu] []
  | statusTest (o : LockOrder) (n : Int) : WorkHeld o (.statusTest n) [.mu] []
  | round (n : Int) : WorkHeld .slotsFirst (.round n) [] []

def lockOrder (o : LockOrder) : Discipline Mutex Work where
  mayLock held m := ∀ m' ∈ held, o.rank m' < o.rank m
  acts := WorkHeld o

/-- The orders a handler keeps. -/
def allows (op : Handler) : LockOrder → Prop
  | .muFirst => op.records = false
  | .slotsFirst => op.scans = false

section Keeps

variable {o : LockOrder} {n : Int}

/-- A mutex that is locked with nothing held, and unlocked again. -/
theorem keeps_alone (m : Mutex) : (lockOrder o).Keeps [] [.lock m, .unlock m] [] :=
  ⟨⟨List.not_mem_nil, nofun⟩, [], rfl, rfl⟩

theorem keeps_prepare : (lockOrder o).Keeps [] (prepareCode n) [] :=
  (keeps_alone .mu).append (keeps_alone (.slot n))

theorem keeps_raiseMax : (lockOrder .slotsFirst).Keeps [.slot n] (raiseMaxCode n) [.slot n] := by
  refine ⟨⟨by simp, ?_⟩, _, .raiseMax _ _ _, _, rfl, rfl⟩
  intro m' hm'
  rw [List.mem_singleton.mp hm']
  exact Nat.zero_lt_one

theorem keeps_locked : (lockOrder o).Keeps [] [.lock (.slot n)] [.slot n] :=
  ⟨⟨List.not_mem_nil, nofun⟩, rfl⟩

theorem keeps_decide : (lockOrder .slotsFirst).Keeps [] (decideCode n) [] := by
  have hmark : (lockOrder .slotsFirst).Keeps [] [.lock (.slot n), .run (.markDecided n)] [.slot n] :=
    ⟨⟨List.not_mem_nil, nofun⟩, _, .markDecided _ _ _, rfl⟩
  exact (((keeps_alone .mu).append hmark).append keeps_raiseMax).append ⟨[], rfl, rfl⟩

theorem keeps_startHelper : (lockOrder .slotsFirst).Keeps [] (startHelperCode n) [] :=
  (keeps_alone .mu).append ((keeps_alone (.slot n)).append
    ((keeps_alone .maxDoneLock).append ⟨_, .round n, rfl⟩))

theorem keeps_listed {code : Code} (h : (lockOrder o).Keeps [] code []) (listed : Bool) :
    (lockOrder o).Keeps [] (if listed then code else []) [] := by
  cases listed with
  | true => exact h
  | false => exact rfl

theorem keeps_round (choice : Round) :
    (lockOrder .slotsFirst).Keeps [] (roundCode n choice) [] := by
  have hprepare := keeps_listed (o := .slotsFirst) (keeps_prepare (n := n)) (choice.listed .prepare)
  have haccept := keeps_listed (o := .slotsFirst) (keeps_prepare (n := n)) (choice.listed .accept)
  have hdecide := keeps_listed (keeps_decide (n := n)) (choice.listed .decide)
  have again : (lockOrder .slotsFirst).Keeps [] [.run (.round n)] [] := ⟨_, .round n, rfl⟩
  simp only [roundCode]
  split
  · exact hprepare.append again
  · exact (hprepare.append haccept).append again
  · exact (hprepare.append haccept).append hdecide

/-- The slots come after `px.mu`. -/
theorem keeps_slot {code : Code} {held : List Mutex}
    (h : (lockOrder .muFirst).Keeps [.slot n, .mu] code held) :
    (lockOrder .muFirst).Keeps [.mu] (.lock (.slot n) :: code) held := by
  refine ⟨⟨by simp, ?_⟩, h⟩
  intro m' hm'
  rw [List.mem_singleton.mp hm']
  exact Nat.zero_lt_one

end Keeps

theorem keeps_execWork {o : LockOrder} {x : Work} {held held' : List Mutex}
    (h : WorkHeld o x held held') (d : Shared) (choice : Round) :
    (lockOrder o).Keeps held (execWork d choice x).2 held' := by
  cases h with
  | markDecided | raiseMax | setMin | setLocked => exact rfl
  | putUndecided n =>
    simp only [execWork]
    split
    · exact rfl
    · exact ⟨_, .markDecided _ _ _, keeps_raiseMax⟩
  | checkFrom i =>
    simp only [execWork]
    split
    · exact keeps_slot ⟨_, rfl, _, .checkFrom _, rfl⟩
    · exact rfl
  | scanMin => exact ⟨_, .minFrom _, rfl⟩
  | minFrom n => exact keeps_slot ⟨_, .minTest n, rfl⟩
  | minTest n =>
    refine ⟨_, rfl, ?_⟩
    split
    · exact ⟨_, .minFrom _, rfl⟩
    · exact ⟨_, .setMin _ _ _, rfl⟩
  | syncTest n =>
    refine ⟨_, rfl, ?_⟩
    split
    · exact rfl
    · exact keeps_startHelper.append (keeps_alone _)
  | startTest n =>
    refine ⟨_, rfl, ?_⟩
    split
    · exact rfl
    · exact keeps_startHelper
  | statusTest o n =>
    refine ⟨_, rfl, ?_⟩
    split
    · exact rfl
    · exact keeps_prepare
  | round n => exact keeps_round choice

/-- Every handler keeps the orders it allows. -/
theorem keeps_handler {op : Handler} {o : LockOrder} (h : allows op o) :
    (lockOrder o).Keeps [] op.code [] := by
  -- `px.mu` is locked with nothing held
  have under : ∀ {x : Work} {held : List Mutex}, WorkHeld o x [.mu] held →
      (lockOrder o).Keeps [] [.lock .mu, .run x] held :=
    fun hx => ⟨⟨List.not_mem_nil, nofun⟩, _, hx, rfl⟩
  have release : (lockOrder o).Keeps [.mu] [.unlock .mu] [] := ⟨[], rfl, rfl⟩
  cases op with
  | prepare n | accept n => exact keeps_prepare
  | getPeers | updatePeers | maxDecidedSlot => exact keeps_alone .mu
  | setLock b => exact (under (.setLocked _ _ _)).append release
  | status n => exact under (.statusTest _ n)
  | checkSlot | minUndecidedSlot =>
    cases o with
    | muFirst => exact (under (by constructor)).append release
    | slotsFirst => cases h
  | decide n | put n | syncPaxosValue n | start n =>
    cases o with
    | muFirst => cases h
    | slotsFirst =>
      first
        | exact keeps_decide
        | exact (keeps_alone .mu).append (keeps_locked.append ⟨_, .putUndecided n, [], rfl, rfl⟩)
        | exact (keeps_alone .mu).append (keeps_locked.append ⟨_, .syncTest n, rfl⟩)
        | exact under (.startTest n)

theorem peerHandlers_obeys : peerHandlers.Obeys lockOrder allows where
  some op := by
    cases op with
    | checkSlot | minUndecidedSlot => exact ⟨.muFirst, rfl⟩
    | _ => exact ⟨.slotsFirst, rfl⟩
  code _ _ := keeps_handler
  exec _ data choice _ _ _ h := keeps_execWork h data choice

theorem waitsFor_running {s : PeerLocks} {t : Nat} {m : Mutex} (h : s.waitsFor t = some m) :
    ∃ thread, s.threads[t]? = some thread ∧ thread.op ∈ running s := by
  obtain ⟨op, rest, ht⟩ := Mutexes.waitsFor_eq_some h
  refine ⟨_, ht, List.mem_map.mpr ⟨_, List.mem_filter.mpr ⟨List.mem_of_getElem? ht, rfl⟩, rfl⟩⟩

theorem not_deadlocked_of_allows {s : PeerLocks} (hr : peerLocks.Reachable s) {o : LockOrder}
    (hall : ∀ op ∈ running s, allows op o) (threads : Finset Nat) : ¬s.Deadlocked threads := by
  intro hdead
  have hordered := (Mutexes.ordered_inductive peerHandlers_obeys newShared).reachable s hr
  refine hordered.not_deadlocked (k := o) o.rank (fun _ _ h => h) ?_ hdead
  intro t ht thread hthread
  obtain ⟨m, hwait, -⟩ := hdead.2 t ht
  obtain ⟨thread', hthread', hrunning⟩ := waitsFor_running hwait
  rw [hthread] at hthread'
  cases hthread'
  exact hall _ hrunning

/-- As long as no scan of the slots runs beside a handler that may record a
decision, no set of handlers is deadlocked, in any interleaving. -/
theorem handlers_never_deadlock {s : PeerLocks} (hr : peerLocks.Reachable s)
    (hapart : ¬∃ op ∈ running s, ∃ op' ∈ running s, op.scans = true ∧ op'.records = true)
    (threads : Finset Nat) : ¬s.Deadlocked threads := by
  by_cases hscans : ∃ op ∈ running s, op.scans = true
  · obtain ⟨op, hop, hscan⟩ := hscans
    refine not_deadlocked_of_allows (o := .muFirst) hr (fun op' hop' => ?_) threads
    exact Bool.eq_false_iff.mpr fun h => hapart ⟨op, hop, op', hop', hscan, h⟩
  · refine not_deadlocked_of_allows (o := .slotsFirst) hr (fun op hop => ?_) threads
    exact Bool.eq_false_iff.mpr fun h => hscans ⟨op, hop, h⟩

/-! ## A decision beside a scan -/

/-- A round that decides. -/
def deciding : Round := ⟨.decide, fun _ => true⟩

/-- `Decide(0)` has the mutex of slot 0 when `CheckSlot` takes `px.mu`. -/
def decideBesideCheckSlot : List (MutexLbl Round Handler) :=
  [.start (.decide 0), .start .checkSlot] ++ List.replicate 4 (.run 0 deciding) ++
    List.replicate 2 (.run 1 deciding)

def frozen : PeerLocks :=
  LTS.execD peerHandlers.step ⟨newShared, fun _ => none, []⟩ decideBesideCheckSlot

theorem decide_and_checkSlot_deadlock :
    peerLocks.Reachable frozen ∧ running frozen = [.decide 0, .checkSlot] ∧
      frozen.Deadlocked {0, 1} := by
  refine ⟨⟨_, decideBesideCheckSlot, rfl, LTS.run_execD (by decide)⟩, rfl, ?_⟩
  refine ⟨Finset.insert_nonempty _ _, fun t ht => ?_⟩
  rcases Finset.mem_insert.mp ht with rfl | ht
  · exact ⟨.mu, rfl, 1, by decide, rfl⟩
  · rw [Finset.mem_singleton.mp ht]
    exact ⟨.slot 0, rfl, 0, by decide, rfl⟩

/-- Two decisions of one slot and a `Start`, one of them waiting. -/
def decisions : List (MutexLbl Round Handler) :=
  [.start (.decide 0), .start (.decide 0), .start (.start 0)] ++ List.replicate 3 (.run 0 deciding) ++
    List.replicate 2 (.run 1 deciding)

def decisionsRunning : PeerLocks :=
  LTS.execD peerHandlers.step ⟨newShared, fun _ => none, []⟩ decisions

theorem decisions_never_deadlock :
    decisionsRunning.waitsFor 1 = some (.slot 0) ∧ decisionsRunning.owner (.slot 0) = some 0 ∧
      ¬decisionsRunning.Deadlocked {0, 1, 2} :=
  ⟨rfl, rfl, handlers_never_deadlock ⟨_, decisions, rfl, LTS.run_execD (by decide)⟩ (by decide) _⟩

end Cmu440.Paxos
