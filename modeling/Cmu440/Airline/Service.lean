import Cmu440.Airline.State
import Cmu440.Core.LTS

/-!
# The replicated service over a write-once log

Servers run `addPaxosLogAndUpdateState` (server_impl.go:182-251) over a log
whose slots hold one agreed value each. `paxosInstance` is taken as that log:

* `Start(s, v)` tests the quiesce lock of its peer, proposes `v` for slot `s`
  and returns once the slot is decided;
* a slot is decided with one of the values proposed for it (`decide`), for
  good;
* `Status(s)` tests the lock and returns the value of the slot if it is known
  on this server, which may be any time after it was decided (`learn`).

`NoOp` values are proposed by the administrator's `SyncPaxosValue` (`noOp`).

`resume c` runs call `c` up to its next access to something shared: the mutex,
the lock flag, the log. A call holds the server's mutex from its first step to
its end, so what it does to the maps and to `currSlotNum` after a `Status` that
returns a value is part of that step. `invoked` and `ended` stamp a call with
the number of the step; `slot` and `tried` are ghosts: the slot the call works
on (once it has returned: was decided in), and whether it has proposed its
operation for that slot.
-/
namespace Cmu440.Airline

/-- `I` is the type of servers. -/
structure Log (I : Type) where
  proposed : Nat → List PaxosValue
  decided : Nat → Option PaxosValue
  known : I → Nat → Bool

/-- Where a call stands: before `mutex.Lock()`, before the `Status` of line
199, before and inside the `Start` of line 207, before the `Status` of line
215, or ended without or with an error. -/
inductive CallPc
  | waiting | status | start | inStart | statusAgain | returned | failed
  deriving DecidableEq, Repr

/-- The call holds its server's mutex. -/
def CallPc.active : CallPc → Bool
  | .waiting | .returned | .failed => false
  | .status | .start | .inStart | .statusAgain => true

/-- The next thing the call does is test the lock flag. -/
def CallPc.testsLock : CallPc → Bool
  | .status | .start | .statusAgain => true
  | .waiting | .inStart | .returned | .failed => false

/-- One call of `addPaxosLogAndUpdateState`. -/
structure Call (I : Type) where
  srv : I
  paxosOp : PaxosValue
  pc : CallPc
  retVal : RetVal
  invoked : Nat
  ended : Nat
  slot : Nat
  tried : Bool
  deriving DecidableEq, Repr

/-- The RPC has built its operation and is about to lock the mutex. -/
def Call.new {I : Type} (i : I) (op : PaxosValue) (clock : Nat) : Call I :=
  ⟨i, op, .waiting, .nil, clock, 0, 0, false⟩

/-- mirrors server_impl.go:22-28; `mutex` is the call that holds it. -/
structure Server where
  mutex : Option Nat
  currSlotNum : Nat
  state : State

structure Service (I : Type) where
  log : Log I
  isLocked : I → Bool
  server : I → Server
  calls : List (Call I)
  clock : Nat

/-- The six RPCs of the server that end in `addPaxosLogAndUpdateState`. -/
inductive Request
  | myReservation (userName : String)
  | checkTickets (flightId : String) (startDate endDate : Time)
  | reserveTicket (userName flightId : String) (date : Time)
  | addFlight (flightId : String) (date : Time) (ticketNum : Int)
  | cancelFlight (flightId : String) (date : Time)
  | editFlight (flightId : String) (date : Time) (ticketNum : Int)
  deriving DecidableEq, Repr

/-- The zero `time.Time`. -/
def Time.zero : Time := ⟨0, 0⟩

/-- The operation the RPC builds at `time.Now()`; fields it does not set have
Go's zero value. mirrors server_impl.go:54-172 -/
def Request.op (now : Time) : Request → PaxosValue
  | .myReservation u => ⟨.myReservation, now, u, "", .zero, .zero, 0⟩
  | .checkTickets f s e => ⟨.checkTickets, now, "", f, s, e, 0⟩
  | .reserveTicket u f d => ⟨.reserveTicket, now, u, f, d, d, 0⟩
  | .addFlight f d n => ⟨.addFlight, now, "", f, d, d, n⟩
  | .cancelFlight f d => ⟨.cancelFlight, now, "", f, d, d, 0⟩
  | .editFlight f d n => ⟨.editFlight, now, "", f, d, d, n⟩

/-- `paxosrpc.PaxosValue{Type: paxosrpc.NoOp}` -/
def noOpValue : PaxosValue := ⟨.noOp, .zero, "", "", .zero, .zero, 0⟩

inductive SvcLbl (I : Type)
  | invoke (i : I) (req : Request) (now : Time)
  | resume (c : Nat)
  | decide (slot : Nat) (v : PaxosValue)
  | learn (i : I) (slot : Nat)
  | noOp (slot : Nat)
  | setLock (i : I) (b : Bool)
  deriving DecidableEq, Repr

variable {I : Type}

namespace Log

def propose (log : Log I) (s : Nat) (v : PaxosValue) : Log I :=
  { log with proposed := Function.update log.proposed s (v :: log.proposed s) }

/-- What an unlocked `Status(s)` returns on server `i`. -/
def status (log : Log I) (i : I) (s : Nat) : Option PaxosValue :=
  if log.known i s then log.decided s else none

/-- The left fold of the sequential specification over the slots below `n`. -/
def state (log : Log I) (n : Nat) : State :=
  ((List.range n).filterMap log.decided).foldl (fun st op => (st.exec op).1) .empty

end Log

namespace Service

def init : Service I :=
  ⟨⟨fun _ => [], fun _ => none, fun _ _ => false⟩, fun _ => false, fun _ => ⟨none, 0, .empty⟩, [], 0⟩

def setCall (m : Service I) (c : Nat) (k : Call I) : Service I :=
  { m with calls := m.calls.set c k }

def tick (m : Service I) : Service I := { m with clock := m.clock + 1 }

/-- Distinct calls build distinct operations: their timestamps differ. -/
def fresh (m : Service I) (op : PaxosValue) : Bool := m.calls.all fun k => decide (k.paxosOp ≠ op)

variable [DecidableEq I]

def setServer (m : Service I) (i : I) (s : Server) : Service I :=
  { m with server := Function.update m.server i s }

/-- The call returns and its deferred `Unlock` runs. -/
def finish (m : Service I) (c : Nat) (k : Call I) (pc : CallPc) : Service I :=
  (m.setServer k.srv { m.server k.srv with mutex := none }).setCall c
    { k with pc := pc, ended := m.clock }

/-- `Status` returned the value `v` of the current slot: the rest of the loop
body. mirrors server_impl.go:221-249 -/
def process (m : Service I) (c : Nat) (k : Call I) (v : PaxosValue) : Service I :=
  let srv := m.server k.srv
  let r := srv.state.apply k.paxosOp v k.retVal
  let m := m.setServer k.srv { srv with currSlotNum := srv.currSlotNum + 1, state := r.1 }
  if k.paxosOp = v then m.finish c { k with retVal := r.2 } .returned
  else m.setCall c { k with pc := .status, retVal := r.2, slot := k.slot + 1, tried := false }

/-- mirrors server_impl.go:188-251 -/
def addPaxosLogAndUpdateState (m : Service I) (c : Nat) (k : Call I) : Option (Service I) :=
  let srv := m.server k.srv
  match k.pc with
  | .waiting =>
    if srv.mutex = none then
      some ((m.setServer k.srv { srv with mutex := some c }).setCall c
        { k with pc := .status, slot := srv.currSlotNum })
    else none
  | .status | .statusAgain =>
    if m.isLocked k.srv then some (m.finish c k .failed)
    else match m.log.status k.srv srv.currSlotNum with
      | some v => some (m.process c k v)
      | none => some (m.setCall c { k with pc := .start })
  | .start =>
    if m.isLocked k.srv then some (m.finish c k .failed)
    else some ({ m with log := m.log.propose srv.currSlotNum k.paxosOp }.setCall c
      { k with pc := .inStart, tried := true })
  | .inStart =>
    if (m.log.decided srv.currSlotNum).isSome then some (m.setCall c { k with pc := .statusAgain })
    else none
  | .returned | .failed => none

def act (m : Service I) : SvcLbl I → Option (Service I)
  | .invoke i req now =>
    if m.fresh (req.op now) then
      some { m with calls := m.calls ++ [.new i (req.op now) m.clock] }
    else none
  | .resume c =>
    match m.calls[c]? with
    | some k => m.addPaxosLogAndUpdateState c k
    | none => none
  | .decide s v =>
    if m.log.decided s = none ∧ v ∈ m.log.proposed s then
      some { m with log := { m.log with decided := Function.update m.log.decided s (some v) } }
    else none
  | .learn i s =>
    if (m.log.decided s).isSome then
      some { m with log := { m.log with
        known := Function.update m.log.known i (Function.update (m.log.known i) s true) } }
    else none
  | .noOp s => some { m with log := m.log.propose s noOpValue }
  | .setLock i b => some { m with isLocked := Function.update m.isLocked i b }

def step (m : Service I) (l : SvcLbl I) : Option (Service I) := (m.act l).map tick

end Service

/-- Every interleaving of calls, decisions and lock requests. -/
def service [DecidableEq I] : LTS (Service I) (SvcLbl I) := .ofFn (· = Service.init) Service.step

/-! ## What a call can do in one step -/

/-- The steps of call `c` at `k`, with what is tested before each. -/
inductive Statement [DecidableEq I] (m : Service I) (c : Nat) (k : Call I) : Service I → Prop
  | acquire (hpc : k.pc = .waiting) (hfree : (m.server k.srv).mutex = none) :
      Statement m c k ((m.setServer k.srv { m.server k.srv with mutex := some c }).setCall c
        { k with pc := .status, slot := (m.server k.srv).currSlotNum })
  | fail (hpc : k.pc.testsLock = true) (hlock : m.isLocked k.srv = true) :
      Statement m c k (m.finish c k .failed)
  | process (v : PaxosValue) (hpc : k.pc = .status ∨ k.pc = .statusAgain)
      (hlock : m.isLocked k.srv = false)
      (hv : m.log.decided (m.server k.srv).currSlotNum = some v) :
      Statement m c k (m.process c k v)
  | undecided (hpc : k.pc = .status ∨ k.pc = .statusAgain) (hlock : m.isLocked k.srv = false) :
      Statement m c k (m.setCall c { k with pc := .start })
  | start (hpc : k.pc = .start) (hlock : m.isLocked k.srv = false) :
      Statement m c k ({ m with
        log := m.log.propose (m.server k.srv).currSlotNum k.paxosOp }.setCall c
        { k with pc := .inStart, tried := true })
  | startDone (hpc : k.pc = .inStart)
      (hdec : (m.log.decided (m.server k.srv).currSlotNum).isSome = true) :
      Statement m c k (m.setCall c { k with pc := .statusAgain })

variable [DecidableEq I] {m m' : Service I} {c : Nat} {k : Call I}

/-- Both calls of `Status`. -/
theorem statement_of_status (hpc : k.pc = .status ∨ k.pc = .statusAgain)
    (h : (if m.isLocked k.srv then some (m.finish c k .failed)
      else match m.log.status k.srv (m.server k.srv).currSlotNum with
        | some v => some (m.process c k v)
        | none => some (m.setCall c { k with pc := .start })) = some m') :
    Statement m c k m' := by
  split at h
  · rename_i hlock
    cases h
    refine .fail ?_ hlock
    rcases hpc with hpc | hpc <;> rw [hpc] <;> rfl
  · rename_i hlock
    have hlock' : m.isLocked k.srv = false := Bool.eq_false_iff.mpr hlock
    split at h
    · rename_i v hv
      cases h
      unfold Log.status at hv
      split at hv
      · exact .process v hpc hlock' hv
      · cases hv
    · cases h
      exact .undecided hpc hlock'

theorem statement_of_resume (h : m.addPaxosLogAndUpdateState c k = some m') :
    Statement m c k m' := by
  unfold Service.addPaxosLogAndUpdateState at h
  cases hpc : k.pc <;> simp only [hpc] at h
  case waiting =>
    split at h
    · rename_i hfree
      cases h
      exact .acquire hpc hfree
    · cases h
  case status => exact statement_of_status (.inl hpc) h
  case statusAgain => exact statement_of_status (.inr hpc) h
  case start =>
    split at h
    · rename_i hlock
      cases h
      exact .fail (by rw [hpc]; rfl) hlock
    · rename_i hlock
      cases h
      exact .start hpc (Bool.eq_false_iff.mpr hlock)
  case inStart =>
    split at h
    · rename_i hdec
      cases h
      exact .startDone hpc hdec
    · cases h
  case returned | failed => cases h

theorem Statement.get_ne (h : Statement m c k m') {c' : Nat} (hc : c' ≠ c) :
    m'.calls[c']? = m.calls[c']? := by
  cases h with
  | process v hpc hlock hv =>
    simp only [Service.process, Service.finish, Service.setServer, Service.setCall]
    split <;> simp only [List.getElem?_set_ne (Ne.symm hc)]
  | _ =>
    simp only [Service.finish, Service.setCall, Service.setServer,
      List.getElem?_set_ne (Ne.symm hc)]

theorem Statement.isLocked_eq (h : Statement m c k m') : m'.isLocked = m.isLocked := by
  cases h with
  | process v hpc hlock hv =>
    simp only [Service.process, Service.finish, Service.setServer, Service.setCall]
    split <;> rfl
  | _ => rfl

/-- A call that has failed takes no further step. -/
theorem Statement.not_failed (h : Statement m c k m') : k.pc ≠ .failed := by
  intro hf
  cases h with
  | acquire hpc | start hpc | startDone hpc | fail hpc =>
    rw [hf] at hpc
    cases hpc
  | process _ hpc | undecided hpc =>
    rw [hf] at hpc
    rcases hpc with hpc | hpc <;> cases hpc

/-- The steps of the service, with what is tested before each. -/
inductive Effect (m : Service I) : SvcLbl I → Service I → Prop
  | invoke (i : I) (req : Request) (now : Time) (hfresh : m.fresh (req.op now) = true) :
      Effect m (.invoke i req now) { m with calls := m.calls ++ [.new i (req.op now) m.clock] }
  | resume {c : Nat} {k : Call I} {m' : Service I} (hk : m.calls[c]? = some k)
      (hst : Statement m c k m') : Effect m (.resume c) m'
  | decide (s : Nat) (v : PaxosValue) (hnone : m.log.decided s = none)
      (hv : v ∈ m.log.proposed s) :
      Effect m (.decide s v) { m with log := { m.log with
        decided := Function.update m.log.decided s (some v) } }
  | learn (i : I) (s : Nat) (hdec : (m.log.decided s).isSome = true) :
      Effect m (.learn i s) { m with log := { m.log with
        known := Function.update m.log.known i (Function.update (m.log.known i) s true) } }
  | noOp (s : Nat) : Effect m (.noOp s) { m with log := m.log.propose s noOpValue }
  | setLock (i : I) (b : Bool) :
      Effect m (.setLock i b) { m with isLocked := Function.update m.isLocked i b }

theorem effect_of_act {l : SvcLbl I} (h : m.act l = some m') : Effect m l m' := by
  unfold Service.act at h
  cases l <;> simp only at h
  case invoke i req now =>
    split at h
    · rename_i hfresh
      cases h
      exact .invoke i req now hfresh
    · cases h
  case resume c =>
    split at h
    · rename_i k hk
      exact .resume hk (statement_of_resume h)
    · cases h
  case decide s v =>
    split at h
    · rename_i hd
      cases h
      exact .decide s v hd.1 hd.2
    · cases h
  case learn i s =>
    split at h
    · rename_i hdec
      cases h
      exact .learn i s hdec
    · cases h
  case noOp s =>
    cases h
    exact .noOp s
  case setLock i b =>
    cases h
    exact .setLock i b

theorem step_cases {l : SvcLbl I} (h : m.step l = some m') :
    ∃ m₀, m' = m₀.tick ∧ Effect m l m₀ := by
  obtain ⟨m₀, hact, rfl⟩ := Option.map_eq_some_iff.mp h
  exact ⟨m₀, rfl, effect_of_act hact⟩

end Cmu440.Airline
