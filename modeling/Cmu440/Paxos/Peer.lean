import Mathlib.Logic.Function.Basic

/-!
# One Paxos peer: the per-slot record and its handlers

The state of `paxos.Paxos` (p3/src/github.com/cmu440/flight_reservation/paxos/paxos.go)
and the handlers that run on it. Every handler takes the mutex of the slot it
works on for its whole body, so a handler is one pure function of the peer;
the interleaving of handlers, and of the statements of `startHelper`, is the
business of `Cmu440.Paxos.World`.

* `H` is the type of hostports and `V` the type of proposed values. A value of
  Go type `interface{}` is an `Option V` with `none` for `nil`.
* `int` and `int64` are `Int`: nothing below adds to a sequence number.
* `timeSlot` is the Go map. `getTimeSlotValue` reads a missing entry as the
  record it would create, which no caller can tell from a stored one.

The fields `maxDone` and `rpcCount`, the listener and the `PeerNum` and
`MaxDone` arguments of `Prepare` are read by no handler and left out.
-/
namespace Cmu440.Paxos

/-- mirrors paxos.go:37-42 -/
structure TimeSlotValue (V : Type) where
  value : Option V
  isDecided : Bool
  seqNumAccepted : Int
  seqNumHighest : Int
  deriving DecidableEq, Repr

/-- mirrors paxos.go:54-70 -/
structure Peer (H V : Type) where
  peers : List H
  me : Nat
  timeSlot : Int → Option (TimeSlotValue V)
  isLocked : Bool
  deaf : Bool
  maxDecidedSlot : Int
  minUndecidedSlot : Int

/-- mirrors rpc/paxosrpc/proto.go:14-17 -/
inductive Status
  | ok
  | reject
  deriving DecidableEq, Repr

/-- mirrors rpc/paxosrpc/proto.go:51-56 -/
structure PrepareReply (V : Type) where
  status : Status
  seqNumAccepted : Int
  valueAccepted : Option V
  seqNumHighest : Int
  deriving DecidableEq, Repr

/-- mirrors rpc/paxosrpc/proto.go:64-67 -/
structure AcceptReply where
  status : Status
  seqNumHighest : Int
  deriving DecidableEq, Repr

/-- mirrors rpc/paxosrpc/proto.go:118-123 -/
structure SyncPaxosValueReply (V : Type) where
  status : Status
  syncedValue : Option V
  seqNumAccepted : Int
  seqNumHighest : Int
  deriving DecidableEq, Repr

variable {H V : Type}

namespace Peer

/-- The state `Make` builds; fields it does not mention have Go's zero value.
mirrors paxos.go:634-646 -/
def make (peers : List H) (me : Nat) : Peer H V :=
  ⟨peers, me, fun _ => none, false, false, 0, 0⟩

/-- mirrors paxos.go:109-123 -/
def getTimeSlotValue (px : Peer H V) (slotNum : Int) : TimeSlotValue V :=
  match px.timeSlot slotNum with
  | some t => t
  | none => ⟨none, false, 0, 0⟩

/-- The write through the pointer `getTimeSlotValue` returns. -/
def setTimeSlotValue (px : Peer H V) (slotNum : Int) (t : TimeSlotValue V) : Peer H V :=
  { px with timeSlot := Function.update px.timeSlot slotNum (some t) }

/-- mirrors paxos.go:137-159 -/
def prepare (px : Peer H V) (slotNum seqNum : Int) : Peer H V × PrepareReply V :=
  let timeslot := px.getTimeSlotValue slotNum
  if seqNum > timeslot.seqNumHighest then
    (px.setTimeSlotValue slotNum { timeslot with seqNumHighest := seqNum },
      ⟨.ok, timeslot.seqNumAccepted, timeslot.value, 0⟩)
  else (px.setTimeSlotValue slotNum timeslot, ⟨.reject, 0, none, timeslot.seqNumHighest⟩)

/-- mirrors paxos.go:162-182 -/
def accept (px : Peer H V) (slotNum seqNum : Int) (value : Option V) : Peer H V × AcceptReply :=
  let timeslot := px.getTimeSlotValue slotNum
  if seqNum ≥ timeslot.seqNumHighest then
    (px.setTimeSlotValue slotNum
      { timeslot with seqNumAccepted := seqNum, seqNumHighest := seqNum, value := value },
      ⟨.ok, 0⟩)
  else (px.setTimeSlotValue slotNum timeslot, ⟨.reject, timeslot.seqNumHighest⟩)

/-- mirrors paxos.go:185-202 -/
def decide (px : Peer H V) (slotNum : Int) (value : Option V) : Peer H V :=
  let timeslot := px.getTimeSlotValue slotNum
  { px.setTimeSlotValue slotNum { timeslot with value := value, isDecided := true } with
    maxDecidedSlot := max px.maxDecidedSlot slotNum }

/-- mirrors paxos.go:206-227 -/
def put (px : Peer H V) (slotNum : Int) (value : Option V) (seqNumAccepted seqNumHighest : Int) :
    Peer H V × Status :=
  if (px.getTimeSlotValue slotNum).isDecided then
    (px.setTimeSlotValue slotNum (px.getTimeSlotValue slotNum), .reject)
  else
    ({ px.setTimeSlotValue slotNum ⟨value, true, seqNumAccepted, seqNumHighest⟩ with
       maxDecidedSlot := max px.maxDecidedSlot slotNum }, .ok)

/-- mirrors paxos.go:243-252 -/
def updatePeers (px : Peer H V) (peers : List H) (me : Nat) : Peer H V :=
  { px with peers := peers, me := me }

/-- mirrors paxos.go:257-265 -/
def setLock (px : Peer H V) (b : Bool) : Peer H V := { px with isLocked := b }

/-- mirrors paxos.go:353-360 -/
def remoteKill (px : Peer H V) : Peer H V := { px with deaf := true }

/-- The scan of `MinUndecidedSlot` for at most `fuel` slots. -/
def scanUndecided (px : Peer H V) : Nat → Int → Int
  | 0, slotNum => slotNum
  | fuel + 1, slotNum =>
    if (px.getTimeSlotValue slotNum).isDecided then px.scanUndecided fuel (slotNum + 1) else slotNum

/-- No slot above `maxDecidedSlot` is decided, so the scan stops within the
fuel given here. mirrors paxos.go:376-405 -/
def minUndecided (px : Peer H V) : Peer H V × Int :=
  let slotNum := px.scanUndecided (px.maxDecidedSlot - px.minUndecidedSlot + 2).toNat
    px.minUndecidedSlot
  ({ px with minUndecidedSlot := slotNum }, slotNum)

/-- `Status`: an error while the quiesce lock is set.
mirrors paxos.go:579-597 -/
def status (px : Peer H V) (slotNum : Int) : Option (Bool × Option V) :=
  if px.isLocked then none
  else some ((px.getTimeSlotValue slotNum).isDecided, (px.getTimeSlotValue slotNum).value)

/-- The reply `SyncPaxosValue` builds from a decided slot; `none` while the
slot is undecided. mirrors paxos.go:272-281 and :292-302 -/
def syncPaxosValue (px : Peer H V) (slotNum : Int) : Option (SyncPaxosValueReply V) :=
  let slotVal := px.getTimeSlotValue slotNum
  if slotVal.isDecided then
    some ⟨.ok, slotVal.value, slotVal.seqNumAccepted, slotVal.seqNumHighest⟩
  else none

/-! ## What the handlers do to a slot -/

@[simp] theorem set_get_self (px : Peer H V) (s : Int) (t : TimeSlotValue V) :
    (px.setTimeSlotValue s t).getTimeSlotValue s = t := by
  simp [setTimeSlotValue, getTimeSlotValue]

@[simp] theorem set_get_ne (px : Peer H V) {s s' : Int} (t : TimeSlotValue V) (h : s' ≠ s) :
    (px.setTimeSlotValue s t).getTimeSlotValue s' = px.getTimeSlotValue s' := by
  simp [setTimeSlotValue, getTimeSlotValue, Function.update_of_ne h]

/-- `px'` has the peer list and the index of `px`. -/
def SameList (px px' : Peer H V) : Prop := px'.peers = px.peers ∧ px'.me = px.me

/-- `px'` has the peer list, the index and the quiesce lock of `px`. -/
def SameConf (px px' : Peer H V) : Prop :=
  px'.peers = px.peers ∧ px'.me = px.me ∧ px'.isLocked = px.isLocked

theorem SameConf.list {px px' : Peer H V} (h : px.SameConf px') : px.SameList px' := ⟨h.1, h.2.1⟩

theorem SameConf.refl (px : Peer H V) : px.SameConf px := ⟨rfl, rfl, rfl⟩

theorem prepare_frame (px : Peer H V) (s n : Int) : px.SameConf (px.prepare s n).1 := by
  simp only [prepare]
  split <;> exact ⟨rfl, rfl, rfl⟩

theorem accept_frame (px : Peer H V) (s n : Int) (x : Option V) :
    px.SameConf (px.accept s n x).1 := by
  simp only [accept]
  split <;> exact ⟨rfl, rfl, rfl⟩

theorem decide_frame (px : Peer H V) (s : Int) (x : Option V) : px.SameConf (px.decide s x) :=
  ⟨rfl, rfl, rfl⟩

theorem update_frame [DecidableEq H] {f : H → Peer H V} {p : H} {px : Peer H V}
    (h : (f p).SameConf px) (p' : H) : (f p').SameConf (Function.update f p px p') :=
  (Function.forall_update_iff f fun p' px' => (f p').SameConf px').mpr ⟨h, fun _ _ => .refl _⟩ p'

theorem prepare_get_ne (px : Peer H V) {s s' : Int} (n : Int) (h : s' ≠ s) :
    (px.prepare s n).1.getTimeSlotValue s' = px.getTimeSlotValue s' := by
  simp only [prepare]
  split <;> exact set_get_ne px _ h

theorem accept_get_ne (px : Peer H V) {s s' : Int} (n : Int) (x : Option V) (h : s' ≠ s) :
    (px.accept s n x).1.getTimeSlotValue s' = px.getTimeSlotValue s' := by
  simp only [accept]
  split <;> exact set_get_ne px _ h

theorem decide_get_ne (px : Peer H V) {s s' : Int} (x : Option V) (h : s' ≠ s) :
    (px.decide s x).getTimeSlotValue s' = px.getTimeSlotValue s' :=
  set_get_ne px _ h

theorem decide_get (px : Peer H V) (s : Int) (x : Option V) :
    (px.decide s x).getTimeSlotValue s =
      { px.getTimeSlotValue s with value := x, isDecided := true } :=
  set_get_self px s _

/-- `Prepare` grants a number above the highest seen, reporting what it
accepted, and otherwise changes nothing. -/
theorem prepare_cases (px : Peer H V) (s n : Int) :
    ((px.getTimeSlotValue s).seqNumHighest < n ∧
      (px.prepare s n).1.getTimeSlotValue s = { px.getTimeSlotValue s with seqNumHighest := n } ∧
      (px.prepare s n).2 =
        ⟨.ok, (px.getTimeSlotValue s).seqNumAccepted, (px.getTimeSlotValue s).value, 0⟩) ∨
    (n ≤ (px.getTimeSlotValue s).seqNumHighest ∧
      (px.prepare s n).1.getTimeSlotValue s = px.getTimeSlotValue s ∧
      (px.prepare s n).2.status = .reject) := by
  simp only [prepare]
  split
  · rename_i h
    exact .inl ⟨h, set_get_self px s _, rfl⟩
  · rename_i h
    exact .inr ⟨by omega, set_get_self px s _, rfl⟩

/-- Whatever it replies, a peer that handled `Prepare(n)` has seen `n`. -/
theorem prepare_seen (px : Peer H V) (s n : Int) :
    n ≤ ((px.prepare s n).1.getTimeSlotValue s).seqNumHighest := by
  rcases prepare_cases px s n with ⟨-, h, -⟩ | ⟨hle, h, -⟩
  · simp only [h, Int.le_refl]
  · rw [h]; exact hle

/-- `Accept` stores a value whose number is not below the highest seen, and
otherwise changes nothing. -/
theorem accept_cases (px : Peer H V) (s n : Int) (x : Option V) :
    ((px.getTimeSlotValue s).seqNumHighest ≤ n ∧
      (px.accept s n x).1.getTimeSlotValue s =
        { px.getTimeSlotValue s with seqNumAccepted := n, seqNumHighest := n, value := x } ∧
      (px.accept s n x).2.status = .ok) ∨
    (n < (px.getTimeSlotValue s).seqNumHighest ∧
      (px.accept s n x).1.getTimeSlotValue s = px.getTimeSlotValue s ∧
      (px.accept s n x).2.status = .reject) := by
  simp only [accept]
  split
  · rename_i h
    exact .inl ⟨h, set_get_self px s _, rfl⟩
  · rename_i h
    exact .inr ⟨by omega, set_get_self px s _, rfl⟩

/-- `Put` fills an undecided slot and otherwise changes nothing. -/
theorem put_cases (px : Peer H V) (s : Int) (x : Option V) (na nh : Int) :
    ((px.getTimeSlotValue s).isDecided = false ∧
      (px.put s x na nh).1.getTimeSlotValue s = ⟨x, true, na, nh⟩) ∨
    (px.put s x na nh).1.getTimeSlotValue s = px.getTimeSlotValue s := by
  unfold put
  split
  · exact .inr (set_get_self px s _)
  · rename_i h
    exact .inl ⟨Bool.eq_false_iff.mpr h, set_get_self px s _⟩

theorem put_frame (px : Peer H V) (s : Int) (x : Option V) (na nh : Int) :
    px.SameConf (px.put s x na nh).1 := by
  unfold put
  split <;> exact ⟨rfl, rfl, rfl⟩

theorem put_get_ne (px : Peer H V) {s s' : Int} (x : Option V) (na nh : Int) (h : s' ≠ s) :
    (px.put s x na nh).1.getTimeSlotValue s' = px.getTimeSlotValue s' := by
  unfold put
  split <;> exact set_get_ne px _ h

end Peer

end Cmu440.Paxos
