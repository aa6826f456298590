import Cmu440.Core.LTS
import Cmu440.Paxos.Peer
import Mathlib.Data.List.Basic

/-!
# Peers, `startHelper` runs and the network

A `World` is a set of peers, the `startHelper` invocations on them (a `Run`
each, identified by its position in `runs`) and everything ever sent. It is
the program of paxos.go:423-562 cut at its shared accesses:

* `start`: `startHelper(slotNum, v)` is called on a peer;
* `top`: the head of the `for` loop, with the number the round will use. The
  code derives it from the clock and `maxSeqNumHighest`; here any positive
  number may come, so equal numbers on different peers are included;
* `go`: the next statement that needs no message: one iteration of a send
  loop (`px.peers` and `px.me` are read anew in each, as in the source), the
  end of a loop, or the majority test after a receive loop. The iteration with
  `i == px.me` runs the peer's own handler in place;
* `recvPrepare`, `recvAccept`, `fail`: one iteration of a receive loop, taking
  from the reply channel a reply, or the `success: false` of a failed call;
* `deliver`: a request reaches its peer and the handler runs.

Nothing is ever taken out of `net`: a message may arrive late, out of order,
more than once or never. A reply is taken at most once per peer and phase
(`waiting` holds the peers called in this phase and not yet heard from), since
each goroutine writes one reply to a channel made for that phase.
-/
namespace Cmu440.Paxos

/-- Where a run stands in `startHelper`; `killed` is a run whose process died. -/
inductive Pc
  | top | sendPrepare | recvPrepare | checkPrepare | sendAccept | recvAccept | checkAccept
  | sendDecide | returned | killed
  deriving DecidableEq, Repr

/-- The run takes no further step. -/
def Pc.ended : Pc → Bool
  | .returned | .killed => true
  | _ => false

/-- The local variables of one `startHelper` invocation on peer `px`. -/
structure Run (H V : Type) where
  px : H
  slotNum : Int
  v : Option V
  pc : Pc
  round : Nat
  seqNum : Int
  i : Nat
  numOk : Nat
  proposeValue : Option V
  maxSeqNumAccepted : Int
  maxSeqNumHighest : Int
  waiting : List H
  deriving DecidableEq, Repr

/-- Requests carry the run and round whose channel the reply goes to. -/
inductive Msg (H V : Type)
  | prepare (run round : Nat) (dst : H) (slotNum seqNum : Int)
  | prepareReply (run round : Nat) (src : H) (slotNum seqNum : Int) (reply : PrepareReply V)
  | accept (run round : Nat) (dst : H) (slotNum seqNum : Int) (value : Option V)
  | acceptReply (run round : Nat) (src : H) (slotNum seqNum : Int) (reply : AcceptReply)
  | decide (dst : H) (slotNum : Int) (value : Option V)
  deriving DecidableEq, Repr

def Msg.slotNum {H V : Type} : Msg H V → Int
  | .prepare _ _ _ s _ => s
  | .prepareReply _ _ _ s _ _ => s
  | .accept _ _ _ s _ _ => s
  | .acceptReply _ _ _ s _ _ => s
  | .decide _ s _ => s

structure World (H V : Type) where
  peer : H → Peer H V
  runs : List (Run H V)
  net : List (Msg H V)

inductive Lbl (H V : Type)
  | start (px : H) (slotNum : Int) (v : Option V)
  | top (j : Nat) (seqNum : Int)
  | go (j : Nat)
  | recvPrepare (j : Nat) (src : H) (reply : PrepareReply V)
  | recvAccept (j : Nat) (src : H) (reply : AcceptReply)
  | fail (j : Nat) (src : H)
  | deliver (m : Msg H V)
  deriving DecidableEq, Repr

variable {H V : Type}

namespace Run

/-- mirrors paxos.go:423-434 -/
def init (px : H) (slotNum : Int) (v : Option V) (seqNumHighest : Int) : Run H V :=
  ⟨px, slotNum, v, .top, 0, 0, 0, 0, none, 0, seqNumHighest, []⟩

/-- mirrors paxos.go:449-456 -/
def beginRound (r : Run H V) (seqNum : Int) : Run H V :=
  { r with pc := .sendPrepare, seqNum := seqNum, i := 0, numOk := 0, proposeValue := r.v,
           maxSeqNumAccepted := 0, maxSeqNumHighest := 0, waiting := [] }

/-- mirrors paxos.go:502-505 -/
def beginAccept (r : Run H V) : Run H V :=
  { r with pc := .sendAccept, i := 0, numOk := 0, maxSeqNumHighest := 0, waiting := [] }

/-- `continue`: back to the loop head; the next round uses new channels. -/
def retry (r : Run H V) : Run H V := { r with pc := .top, round := r.round + 1 }

def called (r : Run H V) (dst : H) : Run H V := { r with i := r.i + 1, waiting := dst :: r.waiting }

/-- The counters after a prepare reply (`none`: the call failed).
mirrors paxos.go:477-491 -/
def countPrepare (r : Run H V) (rep : Option (PrepareReply V)) : Run H V :=
  match rep with
  | none => r
  | some reply =>
    match reply.status with
    | .ok =>
      if reply.seqNumAccepted > r.maxSeqNumAccepted then
        { r with numOk := r.numOk + 1, maxSeqNumAccepted := reply.seqNumAccepted,
                 proposeValue := reply.valueAccepted }
      else { r with numOk := r.numOk + 1 }
    | .reject =>
      if reply.seqNumHighest > r.maxSeqNumHighest then
        { r with maxSeqNumHighest := reply.seqNumHighest }
      else r

/-- mirrors paxos.go:525-535 -/
def countAccept (r : Run H V) (rep : Option AcceptReply) : Run H V :=
  match rep with
  | none => r
  | some reply =>
    match reply.status with
    | .ok => { r with numOk := r.numOk + 1 }
    | .reject =>
      if reply.seqNumHighest > r.maxSeqNumHighest then
        { r with maxSeqNumHighest := reply.seqNumHighest }
      else r

/-- The end of one iteration of a receive loop: leave it for the test `done`
once `numOk` exceeds half of `n`. mirrors paxos.go:493-495 and :536-538 -/
def taken [DecidableEq H] (n : Nat) (done : Pc) (r : Run H V) (src : H) : Run H V :=
  { r with i := r.i + 1, waiting := r.waiting.erase src,
           pc := if r.numOk > n / 2 then done else r.pc }

end Run

namespace World

variable [DecidableEq H] [DecidableEq V]

def setRun (w : World H V) (j : Nat) (r : Run H V) : World H V := { w with runs := w.runs.set j r }

def send (w : World H V) (m : Msg H V) : World H V := { w with net := m :: w.net }

/-- `Prepare` runs on `p` for the call of run `j`, round `c`. -/
def doPrepare (w : World H V) (j c : Nat) (p : H) (slotNum seqNum : Int) : World H V :=
  { w with
    peer := Function.update w.peer p ((w.peer p).prepare slotNum seqNum).1
    net := .prepareReply j c p slotNum seqNum ((w.peer p).prepare slotNum seqNum).2 :: w.net }

def doAccept (w : World H V) (j c : Nat) (p : H) (slotNum seqNum : Int) (value : Option V) :
    World H V :=
  { w with
    peer := Function.update w.peer p ((w.peer p).accept slotNum seqNum value).1
    net := .acceptReply j c p slotNum seqNum ((w.peer p).accept slotNum seqNum value).2 :: w.net }

def doDecide (w : World H V) (p : H) (slotNum : Int) (value : Option V) : World H V :=
  { w with peer := Function.update w.peer p ((w.peer p).decide slotNum value) }

/-- The next statement of run `j`, when it needs no message. The receive
loops end here once `len(px.peers)` replies were taken.
mirrors paxos.go:459-473, 475, 498-500, 507-521, 523, 542-544, 547-558 -/
def goRun (w : World H V) (j : Nat) (r : Run H V) : Option (World H V) :=
  let px := w.peer r.px
  match r.pc with
  | .sendPrepare =>
    match px.peers[r.i]? with
    | some dst =>
      if r.i = px.me then
        some ((w.doPrepare j r.round r.px r.slotNum r.seqNum).setRun j (r.called r.px))
      else some ((w.send (.prepare j r.round dst r.slotNum r.seqNum)).setRun j (r.called dst))
    | none => some (w.setRun j { r with pc := .recvPrepare, i := 0 })
  | .recvPrepare =>
    if r.i < px.peers.length then none else some (w.setRun j { r with pc := .checkPrepare })
  | .checkPrepare =>
    if r.numOk ≤ px.peers.length / 2 then some (w.setRun j r.retry)
    else some (w.setRun j r.beginAccept)
  | .sendAccept =>
    match px.peers[r.i]? with
    | some dst =>
      if r.i = px.me then
        some ((w.doAccept j r.round r.px r.slotNum r.seqNum r.proposeValue).setRun j (r.called r.px))
      else
        some ((w.send (.accept j r.round dst r.slotNum r.seqNum r.proposeValue)).setRun j
          (r.called dst))
    | none => some (w.setRun j { r with pc := .recvAccept, i := 0 })
  | .recvAccept =>
    if r.i < px.peers.length then none else some (w.setRun j { r with pc := .checkAccept })
  | .checkAccept =>
    if r.numOk ≤ px.peers.length / 2 then some (w.setRun j r.retry)
    else some (w.setRun j { r with pc := .sendDecide, i := 0 })
  | .sendDecide =>
    match px.peers[r.i]? with
    | some dst =>
      if r.i = px.me then
        some ((w.doDecide r.px r.slotNum r.proposeValue).setRun j { r with i := r.i + 1 })
      else
        some ((w.send (.decide dst r.slotNum r.proposeValue)).setRun j { r with i := r.i + 1 })
    | none => some (w.setRun j { r with pc := .returned })
  | .top | .returned | .killed => none

/-- A request reaches its peer. mirrors paxos.go:137-202 -/
def deliver (w : World H V) (m : Msg H V) : Option (World H V) :=
  if m ∈ w.net then
    match m with
    | .prepare j c dst s n => some (w.doPrepare j c dst s n)
    | .accept j c dst s n x => some (w.doAccept j c dst s n x)
    | .decide dst s x => some (w.doDecide dst s x)
    | .prepareReply .. | .acceptReply .. => none
  else none

def step (w : World H V) : Lbl H V → Option (World H V)
  | .start p s v =>
    some { w with
      runs := w.runs ++ [Run.init p s v ((w.peer p).getTimeSlotValue s).seqNumHighest] }
  | .top j n =>
    match w.runs[j]? with
    | none => none
    | some r => if r.pc = .top ∧ 0 < n then some (w.setRun j (r.beginRound n)) else none
  | .go j =>
    match w.runs[j]? with
    | none => none
    | some r => w.goRun j r
  | .recvPrepare j src reply =>
    match w.runs[j]? with
    | none => none
    | some r =>
      let n := (w.peer r.px).peers.length
      if r.pc = .recvPrepare ∧ r.i < n ∧ src ∈ r.waiting ∧
          .prepareReply j r.round src r.slotNum r.seqNum reply ∈ w.net then
        some (w.setRun j ((r.countPrepare (some reply)).taken n .checkPrepare src))
      else none
  | .recvAccept j src reply =>
    match w.runs[j]? with
    | none => none
    | some r =>
      let n := (w.peer r.px).peers.length
      if r.pc = .recvAccept ∧ r.i < n ∧ src ∈ r.waiting ∧
          .acceptReply j r.round src r.slotNum r.seqNum reply ∈ w.net then
        some (w.setRun j ((r.countAccept (some reply)).taken n .checkAccept src))
      else none
  | .fail j src =>
    match w.runs[j]? with
    | none => none
    | some r =>
      let n := (w.peer r.px).peers.length
      if r.i < n ∧ src ∈ r.waiting then
        match r.pc with
        | .recvPrepare => some (w.setRun j ((r.countPrepare none).taken n .checkPrepare src))
        | .recvAccept => some (w.setRun j ((r.countAccept none).taken n .checkAccept src))
        | _ => none
      else none
  | .deliver m => w.deliver m

/-- The slot `s` of peer `p`. -/
def slot (w : World H V) (p : H) (s : Int) : TimeSlotValue V := (w.peer p).getTimeSlotValue s

/-- Every peer fresh from `Make` with the same list. -/
def init (L : List H) : World H V := ⟨fun p => .make L (L.idxOf p), [], []⟩

end World

/-- The run has reached its decide phase, so it sends its `proposeValue`. -/
def Run.Decides (r : Run H V) : Prop := r.pc = .sendDecide ∨ r.pc = .returned

instance (r : Run H V) : Decidable r.Decides := by unfold Run.Decides; exact inferInstance

/-! ## What a step can do -/

/-- The step has peer `p` handle `Accept(s, n, x)`: a request arrives, or a
run on `p` calls its own handler. -/
def AcceptFrom (w : World H V) (l : Lbl H V) (p : H) (s n : Int) (x : Option V) : Prop :=
  (∃ j c, l = .deliver (.accept j c p s n x) ∧ .accept j c p s n x ∈ w.net) ∨
  ∃ j r, l = .go j ∧ w.runs[j]? = some r ∧ r.pc = .sendAccept ∧ r.px = p ∧ r.slotNum = s ∧
    r.seqNum = n ∧ r.proposeValue = x

/-- The step has peer `p` handle `Decide(s, x)`. -/
def DecideFrom (w : World H V) (l : Lbl H V) (p : H) (s : Int) (x : Option V) : Prop :=
  (l = .deliver (.decide p s x) ∧ .decide p s x ∈ w.net) ∨
  ∃ j r, l = .go j ∧ w.runs[j]? = some r ∧ r.pc = .sendDecide ∧ r.px = p ∧ r.slotNum = s ∧
    r.proposeValue = x

section
variable [DecidableEq H]

/-- Apart from moving a run on, a step sends at most one message or runs at
most one handler. -/
inductive Effect (w : World H V) (l : Lbl H V) : World H V → Prop
  | idle : Effect w l w
  | send (m : Msg H V) : Effect w l (w.send m)
  | prepare (j c : Nat) (p : H) (s n : Int) : Effect w l (w.doPrepare j c p s n)
  | accept (j c : Nat) (p : H) (s n : Int) (x : Option V) (h : AcceptFrom w l p s n x) :
      Effect w l (w.doAccept j c p s n x)
  | decide (p : H) (s : Int) (x : Option V) (h : DecideFrom w l p s x) :
      Effect w l (w.doDecide p s x)

/-- `r'` is a later state of the run `r`. -/
def Run.Same (r r' : Run H V) : Prop := r'.px = r.px ∧ r'.slotNum = r.slotNum ∧ r'.v = r.v

/-- The step moves run `j` on after its effect. -/
def Moved (w w₁ w' : World H V) : Prop :=
  ∃ j r r', w' = w₁.setRun j r' ∧ w.runs[j]? = some r ∧ r.Same r' ∧ r.pc.ended = false

theorem goRun_cases {w w' : World H V} {j : Nat} {r : Run H V} (hj : w.runs[j]? = some r)
    (h : w.goRun j r = some w') : ∃ w₁, Effect w (.go j) w₁ ∧ Moved w w₁ w' := by
  simp only [World.goRun] at h
  cases hpc : r.pc <;> simp only [hpc] at h
  case top | returned | killed => cases h
  case sendPrepare =>
    split at h
    · split at h <;> cases h
      · exact ⟨_, .prepare j _ _ _ _, j, r, _, rfl, hj, ⟨rfl, rfl, rfl⟩, by rw [hpc]; rfl⟩
      · exact ⟨_, .send _, j, r, _, rfl, hj, ⟨rfl, rfl, rfl⟩, by rw [hpc]; rfl⟩
    · cases h
      exact ⟨_, .idle, j, r, _, rfl, hj, ⟨rfl, rfl, rfl⟩, by rw [hpc]; rfl⟩
  case sendAccept =>
    split at h
    · split at h <;> cases h
      · exact ⟨_, .accept j _ _ _ _ _ (.inr ⟨j, r, rfl, hj, hpc, rfl, rfl, rfl, rfl⟩), j, r, _, rfl, hj,
          ⟨rfl, rfl, rfl⟩, by rw [hpc]; rfl⟩
      · exact ⟨_, .send _, j, r, _, rfl, hj, ⟨rfl, rfl, rfl⟩, by rw [hpc]; rfl⟩
    · cases h
      exact ⟨_, .idle, j, r, _, rfl, hj, ⟨rfl, rfl, rfl⟩, by rw [hpc]; rfl⟩
  case sendDecide =>
    split at h
    · split at h <;> cases h
      · exact ⟨_, .decide _ _ _ (.inr ⟨j, r, rfl, hj, hpc, rfl, rfl, rfl⟩), j, r, _, rfl, hj,
          ⟨rfl, rfl, rfl⟩, by rw [hpc]; rfl⟩
      · exact ⟨_, .send _, j, r, _, rfl, hj, ⟨rfl, rfl, rfl⟩, by rw [hpc]; rfl⟩
    · cases h
      exact ⟨_, .idle, j, r, _, rfl, hj, ⟨rfl, rfl, rfl⟩, by rw [hpc]; rfl⟩
  all_goals
    split at h <;> cases h <;> exact ⟨_, .idle, j, r, _, rfl, hj, ⟨rfl, rfl, rfl⟩, by rw [hpc]; rfl⟩

omit [DecidableEq H] in
theorem countPrepare_frame (r : Run H V) (rep : Option (PrepareReply V)) :
    r.Same (r.countPrepare rep) ∧ (r.countPrepare rep).pc = r.pc ∧
      (r.countPrepare rep).round = r.round := by
  cases rep with
  | none => exact ⟨⟨rfl, rfl, rfl⟩, rfl, rfl⟩
  | some reply =>
    simp only [Run.countPrepare]
    split <;> split <;> exact ⟨⟨rfl, rfl, rfl⟩, rfl, rfl⟩

omit [DecidableEq H] in
theorem countAccept_frame (r : Run H V) (rep : Option AcceptReply) :
    r.Same (r.countAccept rep) ∧ (r.countAccept rep).pc = r.pc ∧
      (r.countAccept rep).round = r.round := by
  cases rep with
  | none => exact ⟨⟨rfl, rfl, rfl⟩, rfl, rfl⟩
  | some reply =>
    simp only [Run.countAccept]
    split
    · exact ⟨⟨rfl, rfl, rfl⟩, rfl, rfl⟩
    · split <;> exact ⟨⟨rfl, rfl, rfl⟩, rfl, rfl⟩

variable [DecidableEq V]

theorem step_cases {w w' : World H V} {l : Lbl H V} (h : w.step l = some w') :
    (∃ p s v m, l = .start p s v ∧ w' = { w with runs := w.runs ++ [Run.init p s v m] }) ∨
    ∃ w₁, Effect w l w₁ ∧ (w' = w₁ ∨ Moved w w₁ w') := by
  cases l with
  | start p s v => cases h; exact .inl ⟨p, s, v, _, rfl, rfl⟩
  | deliver m =>
    simp only [World.step, World.deliver] at h
    split at h
    · rename_i hm
      cases m with
      | prepare j c dst s n => cases h; exact .inr ⟨_, .prepare j c dst s n, .inl rfl⟩
      | accept j c dst s n x =>
        cases h
        exact .inr ⟨_, .accept j c dst s n x (.inl ⟨j, c, rfl, hm⟩), .inl rfl⟩
      | decide dst s x => cases h; exact .inr ⟨_, .decide dst s x (.inl ⟨rfl, hm⟩), .inl rfl⟩
      | prepareReply | acceptReply => cases h
    · cases h
  | go j =>
    simp only [World.step] at h
    split at h
    · cases h
    · rename_i r hj
      obtain ⟨w₁, h₁, h₂⟩ := goRun_cases hj h
      exact .inr ⟨w₁, h₁, .inr h₂⟩
  | top j n | recvPrepare j src reply | recvAccept j src reply =>
    simp only [World.step] at h
    split at h
    · cases h
    · rename_i r hj
      split at h
      · rename_i hc
        cases h
        refine .inr ⟨w, .idle, .inr ⟨j, r, _, rfl, hj, ?_, by rw [hc.1]; rfl⟩⟩
        first
          | exact ⟨rfl, rfl, rfl⟩
          | exact (countPrepare_frame r _).1
          | exact (countAccept_frame r _).1
      · cases h
  | fail j src =>
    simp only [World.step] at h
    split at h
    · cases h
    · rename_i r hj
      split at h
      · split at h
        · rename_i hpc
          cases h
          exact .inr ⟨w, .idle, .inr ⟨j, r, _, rfl, hj, (countPrepare_frame r _).1,
            by rw [hpc]; rfl⟩⟩
        · rename_i hpc
          cases h
          exact .inr ⟨w, .idle, .inr ⟨j, r, _, rfl, hj, (countAccept_frame r _).1,
            by rw [hpc]; rfl⟩⟩
        · cases h
      · cases h

omit [DecidableEq V] in
/-- No handler of a round touches the peer list or the quiesce lock. -/
theorem Effect.frame {w w₁ : World H V} {l : Lbl H V} (h : Effect w l w₁) (p : H) :
    (w.peer p).SameConf (w₁.peer p) := by
  cases h with
  | idle | send => exact .refl _
  | prepare j c p' s n => exact Peer.update_frame (Peer.prepare_frame (w.peer p') s n) p
  | accept j c p' s n x => exact Peer.update_frame (Peer.accept_frame (w.peer p') s n x) p
  | decide p' s x => exact Peer.update_frame (Peer.decide_frame (w.peer p') s x) p

theorem step_frame {w w' : World H V} {l : Lbl H V} (h : w.step l = some w') (p : H) :
    (w.peer p).SameConf (w'.peer p) := by
  rcases step_cases h with ⟨_, _, _, _, -, rfl⟩ | ⟨w₁, he, rfl | ⟨_, _, _, rfl, -⟩⟩
  · exact .refl _
  · exact he.frame p
  · exact he.frame p

/-- What a step may do to slot `s` of peer `p`. -/
inductive SlotStep (w w' : World H V) (l : Lbl H V) (p : H) (s : Int) : Prop
  | same (h : w'.slot p s = w.slot p s)
  | promised (n : Int) (hn : (w.slot p s).seqNumHighest < n)
      (h : w'.slot p s = { w.slot p s with seqNumHighest := n })
  | accepted (n : Int) (x : Option V) (hf : AcceptFrom w l p s n x)
      (hn : (w.slot p s).seqNumHighest ≤ n)
      (h : w'.slot p s =
        { w.slot p s with seqNumAccepted := n, seqNumHighest := n, value := x })
  | decided (x : Option V) (hf : DecideFrom w l p s x)
      (h : w'.slot p s = { w.slot p s with value := x, isDecided := true })

omit [DecidableEq V] in
theorem slot_update_ne {w w' : World H V} {p p' : H} {px : Peer H V}
    (hw : w'.peer = Function.update w.peer p' px) (h : p ≠ p') (s : Int) :
    w'.slot p s = w.slot p s := by
  simp only [World.slot, hw, Function.update_of_ne h]

omit [DecidableEq V] in
theorem Effect.slot {w w₁ : World H V} {l : Lbl H V} (h : Effect w l w₁) (p : H) (s : Int) :
    SlotStep w w₁ l p s := by
  cases h with
  | idle | send => exact .same rfl
  | prepare j c p' s' n =>
    by_cases hp : p = p'
    · subst hp
      by_cases hs : s = s'
      · subst hs
        rcases Peer.prepare_cases (w.peer p) s n with ⟨hn, h, -⟩ | ⟨-, h, -⟩
        · exact .promised n hn (by simpa [World.slot, World.doPrepare] using h)
        · exact .same (by simpa [World.slot, World.doPrepare] using h)
      · have h := Peer.prepare_get_ne (w.peer p) n hs
        exact .same (by simpa [World.slot, World.doPrepare] using h)
    · exact .same (slot_update_ne rfl hp s)
  | accept j c p' s' n x hf =>
    by_cases hp : p = p'
    · subst hp
      by_cases hs : s = s'
      · subst hs
        rcases Peer.accept_cases (w.peer p) s n x with ⟨hn, h, -⟩ | ⟨-, h, -⟩
        · exact .accepted n x hf hn (by simpa [World.slot, World.doAccept] using h)
        · exact .same (by simpa [World.slot, World.doAccept] using h)
      · have h := Peer.accept_get_ne (w.peer p) n x hs
        exact .same (by simpa [World.slot, World.doAccept] using h)
    · exact .same (slot_update_ne rfl hp s)
  | decide p' s' x hf =>
    by_cases hp : p = p'
    · subst hp
      by_cases hs : s = s'
      · subst hs
        have h := Peer.decide_get (w.peer p) s x
        exact .decided x hf (by simpa [World.slot, World.doDecide] using h)
      · have h := Peer.decide_get_ne (w.peer p) x hs
        exact .same (by simpa [World.slot, World.doDecide] using h)
    · exact .same (slot_update_ne rfl hp s)

theorem step_slot {w w' : World H V} {l : Lbl H V} (h : w.step l = some w') (p : H) (s : Int) :
    SlotStep w w' l p s := by
  rcases step_cases h with ⟨_, _, _, _, -, rfl⟩ | ⟨w₁, he, rfl | ⟨_, _, _, rfl, -⟩⟩
  · exact .same rfl
  · exact he.slot p s
  · cases he.slot p s with
    | same h => exact .same h
    | promised n hn h => exact .promised n hn h
    | accepted n x hf hn h => exact .accepted n x hf hn h
    | decided x hf h => exact .decided x hf h

end

end Cmu440.Paxos
