import Mathlib.Logic.Function.Basic
import Mathlib.Algebra.Order.Ring.Int

/-!
# The flight server's state and its sequential helpers

The two maps of `server` in
p3/src/github.com/cmu440/flight_reservation/server/server_impl.go and the
helpers that run on them. The helpers are pure functions here; which operation
they are applied to, and when, is decided by the log (`Cmu440.Airline.Service`).

* A Go map is a function into `Option`; `make` builds the empty one.
* `Time` is what `time.Time` values are compared by: `==` looks at the instant
  and the location, `After` at the instant alone. The clients parse dates with
  `time.Parse` and so in UTC, where `AddDate(0, 0, 1)` is 24 hours. What
  `time.Now` returns also has a monotonic clock reading, which `==` compares and
  gob drops; it is left out, so a value is equal to its copy on another peer.
* `interface{}` results are `RetVal`.

`exec` is the sequential specification: one operation on one copy of the state.
`apply` is the `switch` of `addPaxosLogAndUpdateState`, which skips reads that
are not its own and keeps the last result in `retVal`.
-/
namespace Cmu440.Airline

structure Time where
  nanos : Int
  loc : Nat
  deriving DecidableEq, Repr

namespace Time

def after (t u : Time) : Bool := u.nanos < t.nanos

/-- Nanoseconds of a day. -/
def day : Int := 86400000000000

/-- `AddDate(0, 0, 1)` in UTC. -/
def addDay (t : Time) : Time := { t with nanos := t.nanos + day }

end Time

/-- mirrors rpc/paxosrpc/proto.go:19-27 -/
inductive OpType
  | myReservation | checkTickets | reserveTicket | addFlight | cancelFlight | editFlight | noOp
  deriving DecidableEq, Repr

/-- mirrors rpc/paxosrpc/proto.go:29-37 -/
structure PaxosValue where
  type : OpType
  timestamp : Time
  userName : String
  flightId : String
  startDate : Time
  endDate : Time
  ticketNum : Int
  deriving DecidableEq, Repr

/-- The key of `flightStatus`. mirrors server_impl.go:17-20 -/
structure Flight where
  flightId : String
  date : Time
  deriving DecidableEq, Repr

/-- mirrors rpc/serverrpc/proto.go, `FlightInfo` -/
structure FlightInfo where
  flightId : String
  date : Time
  ticketNum : Int
  deriving DecidableEq, Repr

inductive RetVal
  | nil
  | flights (l : List FlightInfo)
  | bool (b : Bool)
  deriving DecidableEq, Repr

/-- mirrors server_impl.go:26-27 -/
structure State where
  reservedFlights : String → Option (List FlightInfo)
  flightStatus : Flight → Option Int

namespace State

def empty : State := ⟨fun _ => none, fun _ => none⟩

/-- mirrors server_impl.go:253-276 -/
def myReservationHelper (st : State) (op : PaxosValue) : List FlightInfo :=
  match st.reservedFlights op.userName with
  | none => []
  | some flights => flights.filter fun fli => (st.flightStatus ⟨fli.flightId, fli.date⟩).isSome

/-- At most `n` iterations of the loop of `checkTicketsHelper`. -/
def checkDays (st : State) (flightId : String) (endDate : Time) : Nat → Time → List FlightInfo
  | 0, _ => []
  | n + 1, queryDate =>
    if queryDate.after endDate then []
    else
      let rest := st.checkDays flightId endDate n queryDate.addDay
      match st.flightStatus ⟨flightId, queryDate⟩ with
      | some ticketNum => if ticketNum > 0 then ⟨flightId, queryDate, ticketNum⟩ :: rest else rest
      | none => rest

/-- The number of days from `start` to `stop`, both included. -/
def dayCount (start stop : Time) : Nat := ((stop.nanos - start.nanos) / Time.day + 1).toNat

/-- The loop ends by its own test within the iterations given here
(`checkDays_stop`). mirrors server_impl.go:278-302 -/
def checkTicketsHelper (st : State) (op : PaxosValue) : List FlightInfo :=
  st.checkDays op.flightId op.endDate (dayCount op.startDate op.endDate) op.startDate

/-- mirrors server_impl.go:304-322 -/
def reserveTicketHelper (st : State) (op : PaxosValue) : State × Bool :=
  let queryFlight : Flight := ⟨op.flightId, op.startDate⟩
  match st.flightStatus queryFlight with
  | some ticketNum =>
    if ticketNum > 0 then
      ({ flightStatus := Function.update st.flightStatus queryFlight (some (ticketNum - 1))
         reservedFlights := Function.update st.reservedFlights op.userName
           (some ((st.reservedFlights op.userName).getD [] ++ [⟨op.flightId, op.startDate, 0⟩])) },
        true)
    else (st, false)
  | none => (st, false)

/-- mirrors server_impl.go:324-338 -/
def addFlightHelper (st : State) (op : PaxosValue) : State × Bool :=
  match st.flightStatus ⟨op.flightId, op.startDate⟩ with
  | none =>
    ({ st with flightStatus :=
        Function.update st.flightStatus ⟨op.flightId, op.startDate⟩ (some op.ticketNum) }, true)
  | some _ => (st, false)

/-- mirrors server_impl.go:340-353 -/
def cancelFlightHelper (st : State) (op : PaxosValue) : State × Bool :=
  match st.flightStatus ⟨op.flightId, op.startDate⟩ with
  | some _ =>
    ({ st with flightStatus :=
        Function.update st.flightStatus ⟨op.flightId, op.startDate⟩ none }, true)
  | none => (st, false)

/-- mirrors server_impl.go:355-369 -/
def editFlightHelper (st : State) (op : PaxosValue) : State × Bool :=
  match st.flightStatus ⟨op.flightId, op.startDate⟩ with
  | some _ =>
    ({ st with flightStatus :=
        Function.update st.flightStatus ⟨op.flightId, op.startDate⟩ (some op.ticketNum) }, true)
  | none => (st, false)

/-- One operation on one copy of the state: the sequential specification. -/
def exec (st : State) (op : PaxosValue) : State × RetVal :=
  match op.type with
  | .myReservation => (st, .flights (st.myReservationHelper op))
  | .checkTickets => (st, .flights (st.checkTicketsHelper op))
  | .reserveTicket => ((st.reserveTicketHelper op).1, .bool (st.reserveTicketHelper op).2)
  | .addFlight => ((st.addFlightHelper op).1, .bool (st.addFlightHelper op).2)
  | .cancelFlight => ((st.cancelFlightHelper op).1, .bool (st.cancelFlightHelper op).2)
  | .editFlight => ((st.editFlightHelper op).1, .bool (st.editFlightHelper op).2)
  | .noOp => (st, .nil)

/-- The `switch` for the decided operation, in the call for `paxosOp`.
mirrors server_impl.go:225-243 -/
def apply (st : State) (paxosOp decidedOp : PaxosValue) (retVal : RetVal) : State × RetVal :=
  match decidedOp.type with
  | .myReservation =>
    if paxosOp = decidedOp then (st, .flights (st.myReservationHelper decidedOp)) else (st, retVal)
  | .checkTickets =>
    if paxosOp = decidedOp then (st, .flights (st.checkTicketsHelper decidedOp)) else (st, retVal)
  | .reserveTicket =>
    let (st', b) := st.reserveTicketHelper decidedOp
    (st', .bool b)
  | .addFlight =>
    let (st', b) := st.addFlightHelper decidedOp
    (st', .bool b)
  | .cancelFlight =>
    let (st', b) := st.cancelFlightHelper decidedOp
    (st', .bool b)
  | .editFlight =>
    let (st', b) := st.editFlightHelper decidedOp
    (st', .bool b)
  | .noOp => (st, retVal)

/-! ## The loop of `checkTicketsHelper` -/

theorem addDay_nanos (t : Time) : t.addDay.nanos = t.nanos + Time.day := rfl

/-- Further iterations than `dayCount` add nothing: the test of the loop has
stopped it by then. -/
theorem checkDays_stop (st : State) (flightId : String) (stop : Time) (n : Nat) (start : Time)
    (h : dayCount start stop ≤ n) :
    st.checkDays flightId stop n start =
      st.checkDays flightId stop (dayCount start stop) start := by
  induction n generalizing start with
  | zero =>
    have h0 : dayCount start stop = 0 := Nat.le_zero.mp h
    rw [h0]
  | succ n ih =>
    have hpos : (0 : Int) < Time.day := by decide
    by_cases hlt : stop.nanos < start.nanos
    · -- the loop is not entered
      have hafter : start.after stop = true := decide_eq_true hlt
      have hstop : ∀ m, st.checkDays flightId stop m start = [] := by
        intro m
        cases m with
        | zero => rfl
        | succ m => simp only [checkDays, hafter, if_true]
      rw [hstop, hstop]
    · have hafter : start.after stop = false := decide_eq_false hlt
      have hdiv : 0 ≤ (stop.nanos - start.nanos) / Time.day :=
        Int.ediv_nonneg (by omega) (le_of_lt hpos)
      -- one day less is left after the first iteration
      have hnext : dayCount start stop = dayCount start.addDay stop + 1 := by
        have hd : (stop.nanos - start.addDay.nanos) / Time.day =
            (stop.nanos - start.nanos) / Time.day - 1 := by
          rw [addDay_nanos, ← Int.sub_sub, Int.sub_ediv_of_dvd _ (dvd_refl _),
            Int.ediv_self (by omega)]
        unfold dayCount
        rw [hd]
        omega
      rw [hnext] at h ⊢
      simp only [checkDays, hafter]
      rw [ih start.addDay (by omega)]

/-! ## The server follows the specification -/

theorem apply_state (st : State) (paxosOp decidedOp : PaxosValue) (retVal : RetVal) :
    (st.apply paxosOp decidedOp retVal).1 = (st.exec decidedOp).1 := by
  unfold apply exec
  cases decidedOp.type <;> simp only
  case myReservation | checkTickets => split <;> rfl

/-- In the slot of its own operation, a call that is no `NoOp` gets the
specified result. -/
theorem apply_retVal (st : State) (op : PaxosValue) (retVal : RetVal) (h : op.type ≠ .noOp) :
    (st.apply op op retVal).2 = (st.exec op).2 := by
  unfold apply exec
  cases hty : op.type <;> simp only [if_true]
  case noOp => exact absurd hty h

end State

end Cmu440.Airline
