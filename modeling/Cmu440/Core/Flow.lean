import Cmu440.Core.LTS
import Mathlib.Algebra.Order.Ring.Int

/-!
# A numbered flow with a sliding window

One direction of a reliable byte or message stream. The writer numbers what it
is given 1, 2, 3, ...; the numbers up to `sent` have been handed to the
network; `acked` are the numbers it has heard back about. The reader has
`accepted` some of the numbers that were sent and has `returned` a run of
payloads.

Two rules make it a flow: a number is sent only while it is less than `W`
ahead of every number that is still outstanding, and the reader returns the
payload of the number after the last one it returned, once it has been
accepted. What is lost, repeated or reordered between the two ends does not
show at this level: `ack` and `accept` may happen for any number sent, any
number of times.

`Flow.Ok` is what these rules keep. Two consequences: what has been returned is
a prefix of what was written (`Ok.returned_initial`), and a reader that
remembers which of the last `W` numbers it has accepted remembers every number
the writer is still waiting for (`Ok.accepted_lt`).
-/
namespace Cmu440

structure Flow (P : Type) where
  written : List P
  sent : Nat
  acked : List Int
  accepted : List Int
  returned : List P

inductive FlowLbl (P : Type)
  | write (p : P)
  | send
  | ack (q : Int)
  | accept (q : Int)
  | ret

namespace Flow

variable {P : Type}

def empty : Flow P := ⟨[], 0, [], [], []⟩

/-- `q` is the number of something that was sent. -/
def Sent (f : Flow P) (q : Int) : Prop := 1 ≤ q ∧ q ≤ f.sent

instance (f : Flow P) (q : Int) : Decidable (f.Sent q) := inferInstanceAs (Decidable (_ ∧ _))

/-- `q` was sent and is not acknowledged. -/
def Outstanding (f : Flow P) (q : Int) : Prop := f.Sent q ∧ q ∉ f.acked

inductive Step (W : Int) : Flow P → FlowLbl P → Flow P → Prop
  | write (f : Flow P) (p : P) : Step W f (.write p) { f with written := f.written ++ [p] }
  | send (f : Flow P) (hlen : f.sent < f.written.length)
      (hwin : ∀ q, f.Outstanding q → (f.sent : Int) + 1 < q + W) :
      Step W f .send { f with sent := f.sent + 1 }
  | ack (f : Flow P) (q : Int) (hq : f.Sent q) : Step W f (.ack q) { f with acked := q :: f.acked }
  | accept (f : Flow P) (q : Int) (hq : f.Sent q) :
      Step W f (.accept q) { f with accepted := q :: f.accepted }
  | ret (f : Flow P) (p : P) (hp : f.written[f.returned.length]? = some p)
      (hacc : (f.returned.length : Int) + 1 ∈ f.accepted) :
      Step W f .ret { f with returned := f.returned ++ [p] }

/-- The flow with window `W`. -/
def system (W : Int) : LTS (Flow P) (FlowLbl P) := ⟨(· = empty), Step W⟩

structure Ok (W : Int) (f : Flow P) : Prop where
  sent_le : f.sent ≤ f.written.length
  acked_sent : ∀ q ∈ f.acked, f.Sent q
  accepted_sent : ∀ q ∈ f.accepted, f.Sent q
  window : ∀ q, f.Outstanding q → (f.sent : Int) < q + W
  returned_eq : f.returned = f.written.take f.returned.length
  returned_accepted : ∀ q : Int, 1 ≤ q → q ≤ f.returned.length → q ∈ f.accepted

theorem Ok.returned_length_le {W : Int} {f : Flow P} (h : f.Ok W) :
    f.returned.length ≤ f.written.length := by
  have hlen := congrArg List.length h.returned_eq
  rw [List.length_take] at hlen
  omega

theorem Ok.returned_initial {W : Int} {f : Flow P} (h : f.Ok W) : f.returned <+: f.written := by
  rw [h.returned_eq]
  exact List.take_prefix _ _

/-- An outstanding number is less than `W` behind every accepted one. -/
theorem Ok.accepted_lt {W : Int} {f : Flow P} (h : f.Ok W) {q : Int} (hq : f.Outstanding q) {p : Int}
    (hp : p ∈ f.accepted) : p < q + W := by
  have hsent := (h.accepted_sent p hp).2
  have hwin := h.window q hq
  omega

theorem Ok.empty (W : Int) : (Flow.empty : Flow P).Ok W where
  sent_le := Nat.le_refl _
  acked_sent := nofun
  accepted_sent := nofun
  window q hq := by
    have h1 : 1 ≤ q := hq.1.1
    have h2 : q ≤ 0 := hq.1.2
    omega
  returned_eq := rfl
  returned_accepted q h1 h2 := by
    have h2' : q ≤ 0 := h2
    omega

theorem Sent.mono {f f' : Flow P} (h : f.sent ≤ f'.sent) {q : Int} (hq : f.Sent q) : f'.Sent q :=
  ⟨hq.1, le_trans hq.2 (Int.ofNat_le.mpr h)⟩

theorem Ok.step {W : Int} {f f' : Flow P} {l : FlowLbl P} (hW : 1 ≤ W) (h : f.Ok W)
    (hst : Step W f l f') : f'.Ok W := by
  cases hst with
  | write p =>
    refine ⟨?_, h.acked_sent, h.accepted_sent, h.window, ?_, h.returned_accepted⟩
    · rw [List.length_append]
      exact Nat.le_add_right_of_le h.sent_le
    · rw [List.take_append_of_le_length h.returned_length_le]
      exact h.returned_eq
  | send hlen hwin =>
    have hmono : ∀ {q : Int}, f.Sent q → Flow.Sent { f with sent := f.sent + 1 } q :=
      fun hq => hq.mono (Nat.le_succ _)
    refine ⟨hlen, fun q hq => hmono (h.acked_sent q hq), fun q hq => hmono (h.accepted_sent q hq), ?_,
      h.returned_eq, h.returned_accepted⟩
    intro q hq
    have h1 : 1 ≤ q := hq.1.1
    have h2 : q ≤ ((f.sent + 1 : Nat) : Int) := hq.1.2
    -- the number sent now is outstanding itself
    by_cases hnew : q ≤ f.sent
    · have := hwin q ⟨⟨h1, hnew⟩, hq.2⟩
      push_cast
      omega
    · push_cast at h2 ⊢
      omega
  | ack q hq =>
    refine ⟨h.sent_le, ?_, h.accepted_sent, ?_, h.returned_eq, h.returned_accepted⟩
    · intro x hx
      rcases List.mem_cons.mp hx with rfl | hx
      · exact hq
      · exact h.acked_sent x hx
    · intro x hx
      exact h.window x ⟨hx.1, fun hm => hx.2 (List.mem_cons_of_mem _ hm)⟩
  | accept q hq =>
    refine ⟨h.sent_le, h.acked_sent, ?_, h.window, h.returned_eq, ?_⟩
    · intro x hx
      rcases List.mem_cons.mp hx with rfl | hx
      · exact hq
      · exact h.accepted_sent x hx
    · intro x h1 h2
      exact List.mem_cons_of_mem _ (h.returned_accepted x h1 h2)
  | ret p hp hacc =>
    refine ⟨h.sent_le, h.acked_sent, h.accepted_sent, h.window, ?_, ?_⟩
    · simp only [List.length_append, List.length_singleton]
      rw [List.take_add_one, hp, ← h.returned_eq]
      rfl
    · intro x h1 h2
      simp only [List.length_append, List.length_singleton, Nat.cast_add, Nat.cast_one] at h2
      by_cases hx : x ≤ f.returned.length
      · exact h.returned_accepted x h1 hx
      · have heq : x = f.returned.length + 1 := by omega
        rw [heq]
        exact hacc

theorem Ok.run {W : Int} {f f' : Flow P} {ls : List (FlowLbl P)} (hW : 1 ≤ W) (h : f.Ok W)
    (hr : (system W).Run f ls f') : f'.Ok W :=
  hr.invariant (fun _ _ _ hi hst => hi.step hW hst) h

end Flow

end Cmu440
