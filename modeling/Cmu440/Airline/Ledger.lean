import Cmu440.Airline.Linear
import Mathlib.Data.List.DropRight

/-!
# What a log sells

A log of operations is applied to the empty state, one after the other, and
`play` keeps with each operation what it returned. `no_overselling` and
`cancelled_stay_cancelled` are about these entries: `since p` are the entries
after the last one that satisfies `p`.

A flight that exists was last set by an `AddFlight` or an `EditFlight` that
returned true, and what is left of its tickets is what that operation set less
the reservations made since (`no_overselling`). `AddFlight` does not find a
flight that exists and `CancelFlight` takes it away, so each cancellation ends
an epoch of the flight.

`CancelFlight` leaves the lists of the users alone, and `myReservationHelper`
only asks whether the flight exists now (server_impl.go:262-271). So a flight
that is cancelled and added again brings back the reservations of its earlier
epochs (`revived_reservation`).
-/
namespace Cmu440.Airline

/-- An operation of the log and what it returned. -/
structure Entry where
  op : PaxosValue
  ret : RetVal
  deriving DecidableEq, Repr

/-- The flight an operation is about. -/
def PaxosValue.flight (op : PaxosValue) : Flight := ⟨op.flightId, op.startDate⟩

/-- What a reservation puts into the list of its user.
mirrors server_impl.go:316 -/
def PaxosValue.info (op : PaxosValue) : FlightInfo := ⟨op.flightId, op.startDate, 0⟩

/-- One more operation of the log. -/
def record (acc : State × List Entry) (op : PaxosValue) : State × List Entry :=
  ((acc.1.exec op).1, acc.2 ++ [⟨op, (acc.1.exec op).2⟩])

/-- The state after a log, and the entries. -/
def play (log : List PaxosValue) : State × List Entry := log.foldl record (.empty, [])

theorem play_snoc (log : List PaxosValue) (op : PaxosValue) :
    play (log ++ [op]) = record (play log) op := by
  unfold play
  rw [List.foldl_append]
  rfl

/-- `play` and the log of the service go through the same states. -/
theorem play_state (log : List PaxosValue) :
    (play log).1 = log.foldl (fun st op => (st.exec op).1) .empty := by
  induction log using List.reverseRecOn with
  | nil => rfl
  | append_singleton log op ih =>
    rw [play_snoc, List.foldl_append, ← ih]
    rfl

/-! ## Entries -/

namespace Entry

/-- What the entry did to flight `f`, if it returned true. -/
def did (f : Flight) (e : Entry) : Option OpType :=
  if e.op.flight = f ∧ e.ret = .bool true then some e.op.type else none

def adds (f : Flight) (e : Entry) : Bool := e.did f = some .addFlight

def sets (f : Flight) (e : Entry) : Bool :=
  e.did f = some .addFlight ∨ e.did f = some .editFlight

def cancels (f : Flight) (e : Entry) : Bool := e.did f = some .cancelFlight

def reserves (f : Flight) (e : Entry) : Bool := e.did f = some .reserveTicket

/-- A reservation of user `u` that returned true. -/
def reservesFor (u : String) (e : Entry) : Bool :=
  e.op.type = .reserveTicket ∧ e.op.userName = u ∧ e.ret = .bool true

end Entry

open Entry

/-- The entries after the last one that satisfies `p`, all of them if none does. -/
def since (p : Entry → Bool) (h : List Entry) : List Entry := h.rtakeWhile fun e => !p e

section
variable {p : Entry → Bool} {h : List Entry} {e : Entry}

theorem since_snoc_pos (he : p e = true) : since p (h ++ [e]) = [] :=
  List.rtakeWhile_concat_neg _ _ _ (by simp [he])

theorem since_snoc_neg (he : p e = false) : since p (h ++ [e]) = since p h ++ [e] :=
  List.rtakeWhile_concat_pos _ _ _ (by simp [he])

end

/-! ## What one operation does -/

/-- What an operation can do to flight `f`. -/
inductive FlightStep (st st' : State) (f : Flight) (e : Entry) : Prop
  | added (hd : e.did f = some .addFlight) (h₀ : st.flightStatus f = none)
      (h : st'.flightStatus f = some e.op.ticketNum)
  | edited (n : Int) (hd : e.did f = some .editFlight) (h₀ : st.flightStatus f = some n)
      (h : st'.flightStatus f = some e.op.ticketNum)
  | reserved (n : Int) (hd : e.did f = some .reserveTicket) (hn : 0 < n)
      (h₀ : st.flightStatus f = some n) (h : st'.flightStatus f = some (n - 1))
  | cancelled (hd : e.did f = some .cancelFlight) (h : st'.flightStatus f = none)
  | none (hd : e.did f = Option.none) (h : st'.flightStatus f = st.flightStatus f)

theorem did_eq_some {f : Flight} {e : Entry} {t : OpType} :
    e.did f = some t ↔ e.op.flight = f ∧ e.ret = .bool true ∧ e.op.type = t := by
  unfold did
  split
  · rename_i h; simp [h]
  · rename_i h; simpa using fun h₁ h₂ => absurd ⟨h₁, h₂⟩ h

theorem did_of_ne {f : Flight} {op : PaxosValue} (hf : op.flight ≠ f) (ret : RetVal) :
    (Entry.mk op ret).did f = none :=
  if_neg fun h => hf h.1

theorem did_of_false {f : Flight} {op : PaxosValue} {ret : RetVal} (hr : ret ≠ .bool true) :
    (Entry.mk op ret).did f = none :=
  if_neg fun h => hr h.2

theorem did_of_true {f : Flight} {op : PaxosValue} (hf : op.flight = f) :
    (Entry.mk op (.bool true)).did f = some op.type :=
  if_pos ⟨hf, rfl⟩

theorem exec_flightStep (st : State) (op : PaxosValue) (f : Flight) :
    FlightStep st (st.exec op).1 f ⟨op, (st.exec op).2⟩ := by
  unfold State.exec
  cases hty : op.type with
  | myReservation | checkTickets | noOp => exact .none (did_of_false (by simp)) rfl
  | reserveTicket =>
    simp only [State.reserveTicketHelper]
    split
    · rename_i n hn
      split
      · rename_i hpos
        by_cases hf : op.flight = f
        · subst hf
          refine .reserved n ?_ hpos hn (Function.update_self ..)
          rw [did_of_true rfl, hty]
        · exact .none (did_of_ne hf _) (Function.update_of_ne (Ne.symm hf) ..)
      · exact .none (did_of_false (by simp)) rfl
    · exact .none (did_of_false (by simp)) rfl
  | addFlight =>
    simp only [State.addFlightHelper]
    split
    · rename_i hn
      by_cases hf : op.flight = f
      · subst hf
        refine .added ?_ hn (Function.update_self ..)
        rw [did_of_true rfl, hty]
      · exact .none (did_of_ne hf _) (Function.update_of_ne (Ne.symm hf) ..)
    · exact .none (did_of_false (by simp)) rfl
  | cancelFlight =>
    simp only [State.cancelFlightHelper]
    split
    · rename_i hn
      by_cases hf : op.flight = f
      · subst hf
        refine .cancelled ?_ (Function.update_self ..)
        rw [did_of_true rfl, hty]
      · exact .none (did_of_ne hf _) (Function.update_of_ne (Ne.symm hf) ..)
    · exact .none (did_of_false (by simp)) rfl
  | editFlight =>
    simp only [State.editFlightHelper]
    split
    · rename_i n hn
      by_cases hf : op.flight = f
      · subst hf
        refine .edited n ?_ hn (Function.update_self ..)
        rw [did_of_true rfl, hty]
      · exact .none (did_of_ne hf _) (Function.update_of_ne (Ne.symm hf) ..)
    · exact .none (did_of_false (by simp)) rfl

/-- The list of a user grows by a reservation that returned true, and by
nothing else. -/
theorem exec_reservedFlights (st : State) (op : PaxosValue) (u : String) :
    ((st.exec op).1.reservedFlights u).getD [] =
      (st.reservedFlights u).getD [] ++
        if reservesFor u ⟨op, (st.exec op).2⟩ then [op.info] else [] := by
  unfold State.exec
  cases hty : op.type with
  | myReservation | checkTickets | noOp => simp [reservesFor, hty]
  | addFlight =>
    cases hs : st.flightStatus ⟨op.flightId, op.startDate⟩ <;>
      simp [State.addFlightHelper, hs, reservesFor, hty]
  | cancelFlight =>
    cases hs : st.flightStatus ⟨op.flightId, op.startDate⟩ <;>
      simp [State.cancelFlightHelper, hs, reservesFor, hty]
  | editFlight =>
    cases hs : st.flightStatus ⟨op.flightId, op.startDate⟩ <;>
      simp [State.editFlightHelper, hs, reservesFor, hty]
  | reserveTicket =>
    cases hs : st.flightStatus ⟨op.flightId, op.startDate⟩ with
    | none => simp [State.reserveTicketHelper, hs, reservesFor]
    | some n =>
      by_cases hn : 0 < n
      · by_cases hu : op.userName = u
        · subst hu
          simp [State.reserveTicketHelper, hs, hn, reservesFor, hty, PaxosValue.info]
        · simp [State.reserveTicketHelper, hs, hn, reservesFor, hty, hu,
            Function.update_of_ne (Ne.symm hu)]
      · simp [State.reserveTicketHelper, hs, hn, reservesFor]

/-! ## Whole logs -/

/-- The flight was last set by `e`, and what is left of its tickets and what was
reserved since make up what `e` set. -/
structure Balanced (h : List Entry) (f : Flight) (n : Int) (e : Entry) : Prop where
  last : (h.filter (sets f)).getLast? = some e
  sum : n + ((since (sets f) h).countP (reserves f) : Int) = e.op.ticketNum
  nonneg : 0 ≤ e.op.ticketNum → 0 ≤ n

theorem Balanced.set {h : List Entry} {f : Flight} {e : Entry} (he : e.sets f = true) :
    Balanced (h ++ [e]) f e.op.ticketNum e where
  last := by rw [List.filter_append]; simp [he]
  sum := by rw [since_snoc_pos he]; simp
  nonneg h := h

/-- An entry that does not set the flight; a reservation takes one ticket. -/
theorem Balanced.snoc {h : List Entry} {f : Flight} {n m : Int} {e e' : Entry}
    (hb : Balanced h f n e) (hs : e'.sets f = false)
    (hm : m + (if e'.reserves f then 1 else 0) = n) (hpos : 0 ≤ n → 0 ≤ m) :
    Balanced (h ++ [e']) f m e where
  last := by rw [List.filter_append]; simpa [hs] using hb.last
  sum := by
    rw [since_snoc_neg hs, List.countP_append, List.countP_singleton]
    have := hb.sum
    split at hm <;> rename_i hr <;> simp only [hr] <;> push_cast <;> omega
  nonneg hn := hpos (hb.nonneg hn)

theorem balanced_play (log : List PaxosValue) (f : Flight) (n : Int)
    (h : (play log).1.flightStatus f = some n) : ∃ e, Balanced (play log).2 f n e := by
  induction log using List.reverseRecOn generalizing n with
  | nil => cases h
  | append_singleton log op ih =>
    rw [play_snoc] at h ⊢
    simp only [record] at h ⊢
    cases exec_flightStep (play log).1 op f with
    | added hd _ h' =>
      rw [h', Option.some.injEq] at h
      subst h
      exact ⟨_, .set (by simp [sets, hd])⟩
    | edited _ hd _ h' =>
      rw [h', Option.some.injEq] at h
      subst h
      exact ⟨_, .set (by simp [sets, hd])⟩
    | reserved m hd hm h₀ h' =>
      rw [h', Option.some.injEq] at h
      subst h
      obtain ⟨e, hb⟩ := ih m h₀
      refine ⟨e, hb.snoc (by simp [sets, hd]) ?_ (by omega)⟩
      simp [reserves, hd]
    | cancelled hd h' => rw [h'] at h; cases h
    | none hd h' =>
      rw [h'] at h
      obtain ⟨e, hb⟩ := ih n h
      refine ⟨e, hb.snoc (by simp [sets, hd]) ?_ id⟩
      simp [reserves, hd]

theorem reservedFlights_play (log : List PaxosValue) (u : String) :
    ((play log).1.reservedFlights u).getD [] =
      ((play log).2.filter (reservesFor u)).map fun e => e.op.info := by
  induction log using List.reverseRecOn with
  | nil => rfl
  | append_singleton log op ih =>
    rw [play_snoc]
    simp only [record]
    rw [exec_reservedFlights, ih, List.filter_append, List.map_append, List.filter_singleton]
    split <;> rename_i hr <;> simp [hr]

/-- Every server of the service has sold what the decided slots it has processed
account for, whatever else is going on. -/
theorem servers_balanced {I : Type} [DecidableEq I] (m : Service I) (hr : service.Reachable m)
    (i : I) (f : Flight) (n : Int) (h : (m.server i).state.flightStatus f = some n) :
    ∃ e, Balanced
      (play ((List.range (m.server i).currSlotNum).filterMap m.log.decided)).2 f n e := by
  have hinv : (service (I := I)).Inductive Inv :=
    ⟨fun m hm => by cases hm; exact Inv.init, fun m l m' h hst => h.step l hst⟩
  apply balanced_play
  rw [play_state, ← h, ((hinv.reachable m hr).servers i).state]
  rfl

/-- Each flight that exists was set by a last operation, and its tickets and the
reservations made since add up to what that operation set, no ticket being sold
that was not there. The list of each user is that of their reservations that
returned true, in the order of the log. -/
theorem no_overselling (log : List PaxosValue) :
    (∀ f n, (play log).1.flightStatus f = some n → ∃ e,
      ((play log).2.filter (sets f)).getLast? = some e ∧
      n + ((since (sets f) (play log).2).countP (reserves f) : Int) = e.op.ticketNum ∧
      (0 ≤ e.op.ticketNum → 0 ≤ n)) ∧
    ∀ u, ((play log).1.reservedFlights u).getD [] =
      ((play log).2.filter (reservesFor u)).map fun e => e.op.info := by
  refine ⟨fun f n h => ?_, reservedFlights_play log⟩
  obtain ⟨e, hb⟩ := balanced_play log f n h
  exact ⟨e, hb.last, hb.sum, hb.nonneg⟩

/-- Three tickets, an edit to two, and three tries to reserve. -/
def soldOut : List PaxosValue :=
  [⟨.addFlight, .zero, "", "CX1", .zero, .zero, 3⟩, ⟨.reserveTicket, .zero, "ann", "CX1", .zero, .zero, 0⟩,
   ⟨.editFlight, .zero, "", "CX1", .zero, .zero, 2⟩, ⟨.reserveTicket, .zero, "bob", "CX1", .zero, .zero, 0⟩,
   ⟨.reserveTicket, .zero, "ann", "CX1", .zero, .zero, 0⟩, ⟨.reserveTicket, .zero, "bob", "CX1", .zero, .zero, 0⟩]

theorem soldOut_no_overselling :
    (play soldOut).1.flightStatus ⟨"CX1", .zero⟩ = some 0 ∧
    (∃ e, ((play soldOut).2.filter (sets ⟨"CX1", .zero⟩)).getLast? = some e ∧
      0 + ((since (sets ⟨"CX1", .zero⟩) (play soldOut).2).countP (reserves ⟨"CX1", .zero⟩) : Int) =
        e.op.ticketNum) ∧
    ((play soldOut).1.reservedFlights "ann").getD [] =
      [⟨"CX1", .zero, 0⟩, ⟨"CX1", .zero, 0⟩] := by
  have hs : (play soldOut).1.flightStatus ⟨"CX1", .zero⟩ = some 0 := by decide
  obtain ⟨e, hlast, hsum, -⟩ := (no_overselling soldOut).1 _ 0 hs
  exact ⟨hs, ⟨e, hlast, hsum⟩, ((no_overselling soldOut).2 "ann").trans (by decide)⟩

/-! ## Reservations on a cancelled flight -/

/-- A reservation of user `u` on flight `f` that returned true. -/
def Entry.reservesOn (u : String) (f : Flight) (e : Entry) : Bool :=
  e.reserves f && e.reservesFor u

/-- The number of entries for `f` in what `myReservationHelper` returns. -/
def shown (st : State) (op : PaxosValue) (f : Flight) : Nat :=
  (st.myReservationHelper op).countP fun fli => decide (Flight.mk fli.flightId fli.date = f)

theorem countP_info (h : List Entry) (u : String) (f : Flight) :
    ((h.filter (reservesFor u)).map fun e => e.op.info).countP
        (fun fli => decide (Flight.mk fli.flightId fli.date = f)) =
      h.countP (reservesOn u f) := by
  rw [List.countP_map, List.countP_filter]
  refine List.countP_congr fun e _ => ?_
  simp only [Function.comp_apply, reservesOn, reserves, reservesFor, did_eq_some,
    Bool.and_eq_true, decide_eq_true_eq]
  constructor
  · rintro ⟨hf, hty, hu, hret⟩
    exact ⟨⟨hf, hret, hty⟩, hty, hu, hret⟩
  · rintro ⟨⟨hf, -, -⟩, hr⟩
    exact ⟨hf, hr⟩

/-- What is shown of a flight that exists are all reservations ever made on it. -/
theorem shown_play (log : List PaxosValue) (op : PaxosValue) (f : Flight) :
    shown (play log).1 op f ≤ (play log).2.countP (reservesOn op.userName f) ∧
      ((play log).1.flightStatus f = none → shown (play log).1 op f = 0) := by
  have hlist := reservedFlights_play log op.userName
  rw [← countP_info (play log).2 op.userName f, ← hlist]
  unfold shown State.myReservationHelper
  cases (play log).1.reservedFlights op.userName with
  | none => exact ⟨Nat.le_refl _, fun _ => rfl⟩
  | some flights =>
    refine ⟨List.Sublist.countP_le List.filter_sublist, fun hnone => ?_⟩
    rw [List.countP_eq_zero]
    intro fli hmem hf
    have hex := (List.mem_filter.mp hmem).2
    rw [of_decide_eq_true hf, hnone] at hex
    cases hex

/-- A flight that exists after it was cancelled has been added since. -/
theorem added_since_cancel (log : List PaxosValue) (f : Flight) (n : Int)
    (h : (play log).1.flightStatus f = some n) :
    since (cancels f) (play log).2 = (play log).2 ∨
      ∃ e ∈ since (cancels f) (play log).2, e.adds f = true := by
  induction log using List.reverseRecOn generalizing n with
  | nil => cases h
  | append_singleton log op ih =>
    rw [play_snoc] at h ⊢
    simp only [record] at h ⊢
    -- an entry that does not cancel leaves the epoch as it is
    have hkeep : ∀ m, (play log).1.flightStatus f = some m →
        Entry.cancels f ⟨op, ((play log).1.exec op).2⟩ = false →
        since (cancels f) ((play log).2 ++ [⟨op, ((play log).1.exec op).2⟩]) =
            (play log).2 ++ [⟨op, ((play log).1.exec op).2⟩] ∨
          ∃ e ∈ since (cancels f) ((play log).2 ++ [⟨op, ((play log).1.exec op).2⟩]),
            e.adds f = true := by
      intro m hm hc
      rw [since_snoc_neg hc]
      rcases ih m hm with hall | ⟨e, he, ha⟩
      · exact .inl (by rw [hall])
      · exact .inr ⟨e, List.mem_append_left _ he, ha⟩
    cases exec_flightStep (play log).1 op f with
    | added hd _ h' =>
      rw [since_snoc_neg (by simp [cancels, hd])]
      exact .inr ⟨_, List.mem_append_right _ List.mem_cons_self, by simp [adds, hd]⟩
    | edited m hd h₀ _ => exact hkeep m h₀ (by simp [cancels, hd])
    | reserved m hd _ h₀ _ => exact hkeep m h₀ (by simp [cancels, hd])
    | cancelled hd h' => rw [h'] at h; cases h
    | none hd h' => exact hkeep n (h' ▸ h) (by simp [cancels, hd])

/-- The user had reserved flight `f` before it was cancelled, and it was added
again after that. -/
def Revived (u : String) (f : Flight) (h : List Entry) : Prop :=
  ∃ pre c post, h = pre ++ c :: post ∧ c.cancels f = true ∧ (∃ e ∈ post, e.adds f = true) ∧
    ∃ e ∈ pre, e.reservesOn u f = true

/-- The entries up to the last cancellation end with it. -/
theorem since_split (p : Entry → Bool) (h : List Entry) :
    since p h = h ∨ ∃ pre c, h = pre ++ c :: since p h ∧ p c = true := by
  have hsplit : h.rdropWhile (fun e => !p e) ++ since p h = h :=
    List.rdropWhile_append_rtakeWhile
  rcases List.eq_nil_or_concat (h.rdropWhile fun e => !p e) with hnil | ⟨pre, c, hpre⟩
  · rw [hnil, List.nil_append] at hsplit
    exact .inl hsplit
  · refine .inr ⟨pre, c, ?_, ?_⟩
    · conv_lhs => rw [← hsplit, hpre]
      rw [List.concat_eq_append, List.append_assoc]
      rfl
    · have hne : (h.rdropWhile fun e => !p e) ≠ [] := by rw [hpre]; simp
      have hlast := List.rdropWhile_last_not (fun e => !p e) h hne
      simpa [hpre] using hlast

/-- Unless the flight was added again after a cancellation that found a
reservation of the user, no more reservations are shown than were made since the
last cancellation. -/
theorem cancelled_stay_cancelled (log : List PaxosValue) (op : PaxosValue) (f : Flight)
    (h : ¬ Revived op.userName f (play log).2) :
    shown (play log).1 op f ≤
      (since (cancels f) (play log).2).countP (reservesOn op.userName f) := by
  obtain ⟨hle, hzero⟩ := shown_play log op f
  cases hst : (play log).1.flightStatus f with
  | none => rw [hzero hst]; exact Nat.zero_le _
  | some n =>
    refine le_trans hle ?_
    rcases since_split (cancels f) (play log).2 with hall | ⟨pre, c, hsplit, hc⟩
    · rw [hall]
    · rcases added_since_cancel log f n hst with hall | hadd
      · rw [hall]
      · -- nothing that was reserved before the cancellation counts
        have hpre : pre.countP (reservesOn op.userName f) = 0 := by
          rw [List.countP_eq_zero]
          intro e he hr
          exact h ⟨pre, c, _, hsplit, hc, hadd, e, he, hr⟩
        have hcancel : reservesOn op.userName f c = false := by
          simp only [cancels, decide_eq_true_eq] at hc
          simp [reservesOn, reserves, hc]
        conv_lhs => rw [hsplit]
        rw [List.countP_append, hpre, List.countP_cons, hcancel]
        simp

def readAnn : PaxosValue := ⟨.myReservation, .zero, "ann", "", .zero, .zero, 0⟩

/-- Reserved, cancelled, and not added again. -/
def calledOff : List PaxosValue :=
  [⟨.addFlight, .zero, "", "CX1", .zero, .zero, 3⟩, ⟨.reserveTicket, .zero, "ann", "CX1", .zero, .zero, 0⟩,
   ⟨.cancelFlight, .zero, "", "CX1", .zero, .zero, 0⟩]

theorem calledOff_stays :
    shown (play calledOff).1 readAnn ⟨"CX1", .zero⟩ ≤
      (since (cancels ⟨"CX1", .zero⟩) (play calledOff).2).countP (reservesOn "ann" ⟨"CX1", .zero⟩) := by
  refine cancelled_stay_cancelled calledOff readAnn _ ?_
  rintro ⟨pre, c, post, hsplit, hc, ⟨e, he, ha⟩, -⟩
  -- the only entry that adds the flight is the first
  have hmem : ∀ x ∈ (play calledOff).2.tail, x.adds ⟨"CX1", .zero⟩ = false := by decide
  have hpost : e ∈ (play calledOff).2.tail := by
    rw [hsplit]
    cases pre with
    | nil => exact he
    | cons x pre => exact List.mem_append_right _ (List.mem_cons_of_mem _ he)
  rw [hmem e hpost] at ha
  cases ha

/-- The flight is cancelled and added again, and Ann's reservation is back. -/
theorem revived_reservation :
    shown (play (calledOff ++ [⟨.addFlight, .zero, "", "CX1", .zero, .zero, 5⟩])).1 readAnn
      ⟨"CX1", .zero⟩ = 1 ∧
    (since (cancels ⟨"CX1", .zero⟩)
      (play (calledOff ++ [⟨.addFlight, .zero, "", "CX1", .zero, .zero, 5⟩])).2).countP
        (reservesOn "ann" ⟨"CX1", .zero⟩) = 0 := by
  decide

end Cmu440.Airline
