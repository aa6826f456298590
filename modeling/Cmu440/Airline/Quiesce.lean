import Cmu440.Airline.Linear

/-!
# A call refused by the quiesce lock

The comment at server_impl.go:208-210 says of the error path: "In this case the
paxosOp given should not have been executed". `Start` and `Status` test the
lock one after the other, and a whole round runs between the two tests.

* `refusal_executes_operation`: the lock is set after `Start` has returned and
  before the `Status` that follows it. The call answers with an error, its
  operation is in the log, and the retry of a client books a second ticket.
* `refused_never_decided`: as long as the lock is not found set by a call that
  has already proposed its operation for the current slot, a refused operation
  is in no slot and never gets into one.

Both are about `Service`. The second one rests on its log: a slot is decided for
good, where a late `Accept` can overwrite a decided slot of paxos.go, and a call
knows its operation again when `Status` returns it, where `==` may tell the
`Timestamp` from its copy (`Cmu440.Airline.State`). Without the one or the other
an operation can be in a slot that its call has passed, or in two.
-/
namespace Cmu440.Airline

variable {I : Type} [DecidableEq I]

/-! ## What a refused call leaves behind -/

theorem failed_stays {m m' : Service I} {l : SvcLbl I} (hst : m.step l = some m') {c : Nat}
    {k : Call I} (hk : m.calls[c]? = some k) (hf : k.pc = .failed) : m'.calls[c]? = some k := by
  obtain ⟨m₀, rfl, heff⟩ := step_cases hst
  cases heff with
  | invoke i req now hfresh =>
    have hlt : c < m.calls.length := (List.getElem?_eq_some_iff.mp hk).1
    simpa only [Service.tick, List.getElem?_append_left hlt] using hk
  | resume hk₀ hst =>
    rename_i c₀ k₀ _
    have hc : c ≠ c₀ := by
      intro hc
      subst hc
      rw [hk] at hk₀
      cases hk₀
      exact hst.not_failed hf
    simp only [Service.tick, hst.get_ne hc]
    exact hk
  | _ => exact hk

/-- A refused call that has proposed nothing for its slot: its operation is in
no slot, now or after any further steps. -/
theorem not_decided_of_untried {m m' : Service I} (h : Inv m) {c : Nat} {k : Call I}
    (hk : m.calls[c]? = some k) (hf : k.pc = .failed) (htried : k.tried = false)
    {ls : List (SvcLbl I)} (hrun : service.Run m ls m') (s : Nat) :
    m'.log.decided s ≠ some k.paxosOp := by
  have hinv : Inv m' ∧ m'.calls[c]? = some k := by
    refine hrun.invariant (I := fun w => Inv w ∧ w.calls[c]? = some k) ?_ ⟨h, hk⟩
    intro w l w' hi hst
    exact ⟨hi.1.step l hst, failed_stays hst hi.2 hf⟩
  intro hs
  have ht := (hinv.1.decided_slot hinv.2 hs).2
  rw [htried] at ht
  cases ht

/-! ## Runs that refuse in time -/

/-- When call `c` tests the lock after it has proposed its operation for the
current slot, the lock is not set. -/
def refusesInTime (c : Nat) (m : Service I) : SvcLbl I → Bool
  | .resume c' => decide (c' = c → ∀ k ∈ m.calls[c]?,
      k.tried = true → k.pc.testsLock = true → m.isLocked k.srv = false)
  | _ => true

def timelyService (c : Nat) : LTS (Service I) (SvcLbl I) :=
  .ofFn (· = Service.init) (LTS.guarded (refusesInTime c) Service.step)

theorem timely_inductive (c : Nat) : (timelyService (I := I) c).Inductive
    (fun m => Inv m ∧ ∀ k, m.calls[c]? = some k → k.pc = .failed → k.tried = false) where
  init m hm := by
    cases hm
    exact ⟨Inv.init, fun k hk => by cases hk⟩
  step m l m' h hst := by
    obtain ⟨hg, hst⟩ := LTS.guarded_eq_some.mp hst
    refine ⟨h.1.step l hst, ?_⟩
    intro k hk hf
    rcases failed_of_step hst hk hf with hk | ⟨k₀, rfl, hk₀, hpc, hlock, rfl⟩
    · exact h.2 k hk hf
    · by_contra htried
      have hfree := of_decide_eq_true hg rfl k₀ hk₀ (Bool.eq_true_of_not_eq_false htried) hpc
      rw [hlock] at hfree
      cases hfree

/-- In every run in which call `c` is refused in time, an error of call `c`
means that its operation is in no slot, now or later. -/
theorem refused_never_decided (c : Nat) (m : Service I) (hr : (timelyService c).Reachable m)
    (k : Call I) (hk : m.calls[c]? = some k) (hf : k.pc = .failed) (m' : Service I)
    (ls : List (SvcLbl I)) (hrun : service.Run m ls m') (s : Nat) :
    m'.log.decided s ≠ some k.paxosOp := by
  obtain ⟨h, htried⟩ := (timely_inductive c).reachable m hr
  exact not_decided_of_untried h hk hf (htried k hk hf) hrun s

/-! ## The lock between `Start` and `Status` -/

def bookAdd : Request := .addFlight "CX1" ⟨0, 0⟩ 2

def book : Request := .reserveTicket "ann" "CX1" ⟨0, 0⟩

/-- Call `c` for `req` on the only server executes `behind` slots and then runs
up to the end of the `Start` for slot `s`. -/
def throughStart (c s behind : Nat) (req : Request) (now : Time) : List (SvcLbl Unit) :=
  .invoke () req now :: List.replicate behind (.resume c) ++
    [.resume c, .resume c, .resume c, .decide s (req.op now), .learn () s, .resume c]

/-- A flight with two seats; a reservation that is refused after its round; the
lock is taken back and the client tries again. -/
def doubleBooking : List (SvcLbl Unit) :=
  throughStart 0 0 0 bookAdd ⟨1, 0⟩ ++ [.resume 0] ++
  throughStart 1 1 0 book ⟨2, 0⟩ ++ [.setLock () true, .resume 1, .setLock () false] ++
  throughStart 2 2 1 book ⟨3, 0⟩ ++ [.resume 2]

def doubleBooked : Service Unit := LTS.execD Service.step Service.init doubleBooking

set_option maxRecDepth 8000 in
/-- **Counterexample.** The first reservation answers with an error; its
operation is decided in slot 1, the retry in slot 2, and the user holds two
tickets. -/
theorem refusal_executes_operation :
    service.Reachable doubleBooked ∧
      ∃ k, doubleBooked.calls[1]? = some k ∧ k.pc = .failed ∧
        doubleBooked.log.decided 1 = some k.paxosOp ∧
        (doubleBooked.server ()).state.reservedFlights "ann" =
          some [⟨"CX1", ⟨0, 0⟩, 0⟩, ⟨"CX1", ⟨0, 0⟩, 0⟩] :=
  ⟨⟨_, doubleBooking, rfl, LTS.run_execD (by decide)⟩,
    ⟨(), book.op ⟨2, 0⟩, .failed, .nil, 8, 16, 1, true⟩, by decide, rfl, by decide, by decide⟩

/-! The lock is set before the reservation starts its round: the client is
refused, tries again and books one ticket. -/

def singleBooking : List (SvcLbl Unit) :=
  throughStart 0 0 0 bookAdd ⟨1, 0⟩ ++ [.resume 0] ++
  [.invoke () book ⟨2, 0⟩, .resume 1, .resume 1, .setLock () true, .resume 1]

def singleRetry : List (SvcLbl Unit) :=
  .setLock () false :: throughStart 2 1 0 book ⟨3, 0⟩ ++ [.resume 2]

def refusedOnce : Service Unit :=
  LTS.execD (LTS.guarded (refusesInTime 1) Service.step) Service.init singleBooking

def bookedOnce : Service Unit := LTS.execD Service.step refusedOnce singleRetry

set_option maxRecDepth 8000 in
theorem refused_then_booked_once :
    refusedOnce.calls[1]?.map (·.pc) = some .failed ∧
      bookedOnce.calls[2]?.map (·.retVal) = some (.bool true) ∧
      ∀ s, bookedOnce.log.decided s ≠ some (book.op ⟨2, 0⟩) :=
  ⟨by decide, by decide,
    refused_never_decided 1 refusedOnce ⟨_, singleBooking, rfl, LTS.run_execD (by decide)⟩
      ⟨(), book.op ⟨2, 0⟩, .failed, .nil, 8, 12, 1, false⟩ (by decide) rfl bookedOnce singleRetry
      (LTS.run_execD (by decide))⟩

end Cmu440.Airline
