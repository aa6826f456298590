import Cmu440.Core.LTS
import Cmu440.Paxos.Peer
import Mathlib.Algebra.Order.Ring.Int

/-!
# The slot bookkeeping of one peer

A peer caches two numbers about its slots: `maxDecidedSlot`, which `Decide` and
`Put` raise, and `minUndecidedSlot`, from which `MinUndecidedSlot` starts to
scan and which only that call moves. Decisions come in any order and leave
gaps, so the cached minimum is a lower bound and nothing else until the next
scan.

The scan is an unbounded loop that creates the slots it looks at
(paxos.go:380-395); here it is run with fuel and `none` means that it has not
come to an end. `slot_bookkeeping` is for every sequence of calls on one peer.
What each handler may do to the bookkeeping is said once, by `Grows`: decided
slots stay decided, and the cached minimum moves over decided slots only.
-/
namespace Cmu440.Paxos

variable {H V : Type}

namespace Peer

/-- The slot is decided at the peer. -/
def Decided (px : Peer H V) (s : Int) : Prop := (px.getTimeSlotValue s).isDecided = true

/-- The side effect of `getTimeSlotValue`: a missing record is stored.
mirrors paxos.go:112-120 -/
def touch (px : Peer H V) (slotNum : Int) : Peer H V :=
  px.setTimeSlotValue slotNum (px.getTimeSlotValue slotNum)

/-- At most `fuel` iterations of the loop of `MinUndecidedSlot`, from `slotNum`.
mirrors paxos.go:380-395 -/
def minUndecidedLoop : Nat → Peer H V → Int → Option (Peer H V × Int)
  | 0, _, _ => none
  | fuel + 1, px, slotNum =>
    if ((px.touch slotNum).getTimeSlotValue slotNum).isDecided then
      minUndecidedLoop fuel (px.touch slotNum) (slotNum + 1)
    else some (px.touch slotNum, slotNum)

/-- `MinUndecidedSlot` returns with the reply `n` and leaves the peer as `px'`.
mirrors paxos.go:376-405 -/
def MinUndecidedReturns (px px' : Peer H V) (n : Int) : Prop :=
  ∃ fuel px₁, minUndecidedLoop fuel px px.minUndecidedSlot = some (px₁, n) ∧
    px' = { px₁ with minUndecidedSlot := n }

/-- The non-negative slots below the cached minimum are decided, and no decided
slot is above the cached maximum. -/
structure Bookkept (px : Peer H V) : Prop where
  nonneg : 0 ≤ px.minUndecidedSlot
  max_nonneg : 0 ≤ px.maxDecidedSlot
  below : ∀ s, 0 ≤ s → s < px.minUndecidedSlot → px.Decided s
  above : ∀ s, px.Decided s → s ≤ px.maxDecidedSlot

/-- What a handler may do to the bookkeeping. -/
structure Grows (px px' : Peer H V) : Prop where
  decided : ∀ s, px.Decided s → px'.Decided s
  new : ∀ s, px'.Decided s → px.Decided s ∨ s ≤ px'.maxDecidedSlot
  max : px.maxDecidedSlot ≤ px'.maxDecidedSlot
  min : px.minUndecidedSlot ≤ px'.minUndecidedSlot
  scanned : ∀ s, px.minUndecidedSlot ≤ s → s < px'.minUndecidedSlot → px'.Decided s

theorem Grows.refl (px : Peer H V) : px.Grows px where
  decided _ h := h
  new _ h := .inl h
  max := le_refl _
  min := le_refl _
  scanned s h₁ h₂ := absurd h₁ (by omega)

/-- A handler that touches the records of the slots only, and withdraws no
decision without raising the maximum over it. -/
theorem Grows.of_slots {px px' : Peer H V} (hd : ∀ s, px.Decided s → px'.Decided s)
    (hnew : ∀ s, px'.Decided s → px.Decided s ∨ s ≤ px'.maxDecidedSlot)
    (hmax : px.maxDecidedSlot ≤ px'.maxDecidedSlot)
    (hmin : px'.minUndecidedSlot = px.minUndecidedSlot) : px.Grows px' where
  decided := hd
  new := hnew
  max := hmax
  min := by rw [hmin]
  scanned s h₁ h₂ := absurd h₁ (by omega)

/-- The same slots are decided, and the cached numbers are the same. -/
theorem Grows.of_same {px px' : Peer H V} (hd : ∀ s, px'.Decided s ↔ px.Decided s)
    (hmax : px'.maxDecidedSlot = px.maxDecidedSlot)
    (hmin : px'.minUndecidedSlot = px.minUndecidedSlot) : px.Grows px' :=
  .of_slots (fun s => (hd s).mpr) (fun s h => .inl ((hd s).mp h)) (by rw [hmax]) hmin

theorem Grows.trans {px px₁ px₂ : Peer H V} (h₁ : px.Grows px₁) (h₂ : px₁.Grows px₂) :
    px.Grows px₂ where
  decided s h := h₂.decided s (h₁.decided s h)
  new s h := by
    rcases h₂.new s h with h | h
    · rcases h₁.new s h with h | h
      · exact .inl h
      · exact .inr (le_trans h h₂.max)
    · exact .inr h
  max := le_trans h₁.max h₂.max
  min := le_trans h₁.min h₂.min
  scanned s hge hlt := by
    by_cases hs : s < px₁.minUndecidedSlot
    · exact h₂.decided s (h₁.scanned s hge hs)
    · exact h₂.scanned s (by omega) hlt

theorem Bookkept.grows {px px' : Peer H V} (h : px.Bookkept) (hg : px.Grows px') :
    px'.Bookkept where
  nonneg := le_trans h.nonneg hg.min
  max_nonneg := le_trans h.max_nonneg hg.max
  below s h₀ hlt := by
    by_cases hs : s < px.minUndecidedSlot
    · exact hg.decided s (h.below s h₀ hs)
    · exact hg.scanned s (by omega) hlt
  above s hd := by
    rcases hg.new s hd with hd | hle
    · exact le_trans (h.above s hd) hg.max
    · exact hle

theorem not_decided_make (L : List H) (me : Nat) (s : Int) :
    ¬ (make L me : Peer H V).Decided s := by
  intro h
  cases h

theorem bookkept_make (L : List H) (me : Nat) : (make L me : Peer H V).Bookkept where
  nonneg := le_refl _
  max_nonneg := le_refl _
  below s h₀ hlt := absurd hlt (by simp only [make]; omega)
  above s h := absurd h (not_decided_make L me s)

/-! ## The handlers -/

/-- A record that is written with its decision as before. -/
theorem decided_set {px : Peer H V} {s : Int} {t : TimeSlotValue V}
    (ht : t.isDecided = (px.getTimeSlotValue s).isDecided) (s' : Int) :
    (px.setTimeSlotValue s t).Decided s' ↔ px.Decided s' := by
  unfold Decided
  by_cases hs : s' = s
  · subst hs; rw [set_get_self, ht]
  · rw [set_get_ne px t hs]

/-- A record that is written as decided. -/
theorem decided_set_true {px : Peer H V} {s : Int} {t : TimeSlotValue V} (ht : t.isDecided = true)
    (s' : Int) : (px.setTimeSlotValue s t).Decided s' ↔ px.Decided s' ∨ s' = s := by
  unfold Decided
  by_cases hs : s' = s
  · subst hs; rw [set_get_self, ht]; simp
  · rw [set_get_ne px t hs]; simp [hs]

theorem touch_grows (px : Peer H V) (s : Int) : px.Grows (px.touch s) :=
  .of_same (decided_set rfl) rfl rfl

theorem prepare_grows (px : Peer H V) (s n : Int) : px.Grows (px.prepare s n).1 := by
  simp only [prepare]
  split <;> exact .of_same (decided_set rfl) rfl rfl

theorem accept_grows (px : Peer H V) (s n : Int) (x : Option V) : px.Grows (px.accept s n x).1 := by
  simp only [accept]
  split <;> exact .of_same (decided_set rfl) rfl rfl

/-- A slot is marked as decided and the maximum is raised to it. -/
theorem grows_marked (px : Peer H V) (s : Int) {t : TimeSlotValue V} (ht : t.isDecided = true) :
    px.Grows { px.setTimeSlotValue s t with maxDecidedSlot := Max.max px.maxDecidedSlot s } := by
  refine .of_slots (fun s' h => ?_) (fun s' h => ?_) (le_max_left _ _) rfl
  · exact (decided_set_true ht s').mpr (.inl h)
  · rcases (decided_set_true ht s').mp h with h | rfl
    · exact .inl h
    · exact .inr (le_max_right _ _)

theorem decide_grows (px : Peer H V) (s : Int) (x : Option V) : px.Grows (px.decide s x) :=
  grows_marked px s rfl

theorem put_grows (px : Peer H V) (s : Int) (x : Option V) (na nh : Int) :
    px.Grows (px.put s x na nh).1 := by
  unfold put
  split
  · exact touch_grows px s
  · exact grows_marked px s rfl

/-! ## The scan -/

theorem decided_touch (px : Peer H V) (s s' : Int) : (px.touch s).Decided s' ↔ px.Decided s' :=
  decided_set rfl s'

/-- When the loop ends, it stands at the first undecided slot from where it
began, and has done nothing but create records. -/
theorem minUndecidedLoop_spec {fuel : Nat} {px px' : Peer H V} {s n : Int}
    (h : minUndecidedLoop fuel px s = some (px', n)) :
    s ≤ n ∧ ¬ px.Decided n ∧ (∀ s', s ≤ s' → s' < n → px.Decided s') ∧ px.Grows px' ∧
      px'.minUndecidedSlot = px.minUndecidedSlot := by
  induction fuel generalizing px s with
  | zero => cases h
  | succ fuel ih =>
    simp only [minUndecidedLoop] at h
    split at h
    · rename_i hd
      obtain ⟨hle, hund, hall, hg, hmin⟩ := ih h
      have hds : px.Decided s := (decided_touch px s s).mp hd
      refine ⟨by omega, fun hn => hund ((decided_touch px s n).mpr hn), fun s' h₁ h₂ => ?_,
        (touch_grows px s).trans hg, hmin⟩
      by_cases hs : s' = s
      · subst hs; exact hds
      · exact (decided_touch px s s').mp (hall s' (by omega) h₂)
    · rename_i hd
      simp only [Option.some.injEq, Prod.mk.injEq] at h
      obtain ⟨rfl, rfl⟩ := h
      exact ⟨le_refl _, fun hn => hd ((decided_touch px s s).mpr hn),
        fun s' h₁ h₂ => absurd h₁ (by omega), touch_grows px s, rfl⟩

/-- The loop ends once it is past the last decided slot. -/
theorem minUndecidedLoop_ends {m : Int} :
    ∀ (k : Nat) (px : Peer H V) (s : Int), (∀ s', px.Decided s' → s' ≤ m) → m < s + k →
      ∃ r, minUndecidedLoop (k + 1) px s = some r
  | 0, px, s, hm, hk => by
    refine ⟨_, if_neg fun hd => ?_⟩
    have := hm s ((decided_touch px s s).mp hd)
    omega
  | k + 1, px, s, hm, hk => by
    rw [minUndecidedLoop]
    split
    · exact minUndecidedLoop_ends k (px.touch s) (s + 1)
        (fun s' h => hm s' ((decided_touch px s s').mp h)) (by omega)
    · exact ⟨_, rfl⟩

theorem minUndecidedReturns_grows {px px' : Peer H V} {n : Int}
    (h : px.MinUndecidedReturns px' n) : px.Grows px' := by
  obtain ⟨fuel, px₁, hloop, rfl⟩ := h
  obtain ⟨hle, -, hall, hg, hmin⟩ := minUndecidedLoop_spec hloop
  exact ⟨hg.decided, hg.new, hg.max, hle, fun s h₁ h₂ => hg.decided s (hall s h₁ h₂)⟩

/-- `n` is the least non-negative slot that is not decided. -/
structure LeastUndecided (px : Peer H V) (n : Int) : Prop where
  nonneg : 0 ≤ n
  undecided : ¬ px.Decided n
  least : ∀ s, 0 ≤ s → s < n → px.Decided s

theorem LeastUndecided.unique {px : Peer H V} {m n : Int} (hm : px.LeastUndecided m)
    (hn : px.LeastUndecided n) : m = n := by
  rcases lt_trichotomy m n with hlt | heq | hgt
  · exact absurd (hn.least m hm.nonneg hlt) hm.undecided
  · exact heq
  · exact absurd (hm.least n hn.nonneg hgt) hn.undecided

theorem Bookkept.leastUndecided {px px' : Peer H V} {n : Int} (h : px.Bookkept)
    (hr : px.MinUndecidedReturns px' n) : px.LeastUndecided n := by
  obtain ⟨fuel, px₁, hloop, -⟩ := hr
  obtain ⟨hle, hund, hall, -⟩ := minUndecidedLoop_spec hloop
  refine ⟨le_trans h.nonneg hle, hund, fun s h₀ hlt => ?_⟩
  by_cases hs : s < px.minUndecidedSlot
  · exact h.below s h₀ hs
  · exact hall s (by omega) hlt

theorem Bookkept.returns {px : Peer H V} (h : px.Bookkept) :
    ∃ px' n, px.MinUndecidedReturns px' n := by
  obtain ⟨⟨px₁, n⟩, hr⟩ := minUndecidedLoop_ends (m := px.maxDecidedSlot)
    (px.maxDecidedSlot - px.minUndecidedSlot + 1).toNat px px.minUndecidedSlot h.above (by omega)
  exact ⟨_, n, _, px₁, hr, rfl⟩

end Peer

/-! ## Sequences of calls -/

inductive SlotCall (V : Type)
  | prepare (slotNum seqNum : Int)
  | accept (slotNum seqNum : Int) (value : Option V)
  | decide (slotNum : Int) (value : Option V)
  | put (slotNum : Int) (value : Option V) (seqNumAccepted seqNumHighest : Int)
  | status (slotNum : Int)
  | minUndecidedSlot
  deriving DecidableEq, Repr

namespace SlotCall

def slotNum : SlotCall V → Option Int
  | .prepare s _ | .accept s _ _ | .decide s _ | .put s _ _ _ | .status s => some s
  | .minUndecidedSlot => none

/-- The call returns and leaves the peer as the last argument. -/
def Handled (px : Peer H V) : SlotCall V → Peer H V → Prop
  | .prepare s n, px' => px' = (px.prepare s n).1
  | .accept s n x, px' => px' = (px.accept s n x).1
  | .decide s x, px' => px' = px.decide s x
  | .put s x na nh, px' => px' = (px.put s x na nh).1
  | .status s, px' => px' = if px.isLocked then px else px.touch s
  | .minUndecidedSlot, px' => ∃ n, px.MinUndecidedReturns px' n

theorem Handled.grows {px px' : Peer H V} {c : SlotCall V} (h : c.Handled px px') :
    px.Grows px' := by
  cases c with
  | prepare s n => cases h; exact px.prepare_grows s n
  | accept s n x => cases h; exact px.accept_grows s n x
  | decide s x => cases h; exact px.decide_grows s x
  | put s x na nh => cases h; exact px.put_grows s x na nh
  | status s =>
    cases h
    split
    · exact .refl px
    · exact px.touch_grows s
  | minUndecidedSlot =>
    obtain ⟨n, hn⟩ := h
    exact Peer.minUndecidedReturns_grows hn

end SlotCall

/-- One peer, called on non-negative slots. -/
def onePeer (H V : Type) : LTS (Peer H V) (SlotCall V) where
  init px := ∃ L me, px = .make L me
  step px c px' := (∀ s ∈ c.slotNum, 0 ≤ s) ∧ c.Handled px px'

theorem bookkept_inductive : (onePeer H V).Inductive Peer.Bookkept where
  init := by
    rintro px ⟨L, me, rfl⟩
    exact Peer.bookkept_make L me
  step := by
    rintro px c px' h ⟨-, hc⟩
    exact h.grows hc.grows

/-- After any sequence of calls the cached numbers bound what they are said to
bound, and `MinUndecidedSlot` returns, with the least undecided slot and
nothing else. -/
theorem slot_bookkeeping (px : Peer H V) (h : (onePeer H V).Reachable px) :
    (∀ s, 0 ≤ s → s < px.minUndecidedSlot → px.Decided s) ∧
    (∀ s, px.Decided s → s ≤ px.maxDecidedSlot) ∧
    (∃ px' n, px.MinUndecidedReturns px' n) ∧
    ∀ px' n, px.MinUndecidedReturns px' n → px.LeastUndecided n := by
  have hb := bookkept_inductive.reachable px h
  exact ⟨hb.below, hb.above, hb.returns, fun px' n hr => hb.leastUndecided hr⟩

/-- Slot `0` and slot `2` are decided and slot `1` is not. -/
def gapped : Peer Nat Nat := ((Peer.make [0] 0).decide 2 (some 5)).decide 0 (some 7)

theorem gapped_bookkeeping : ∃ px', gapped.MinUndecidedReturns px' 1 ∧ gapped.LeastUndecided 1 := by
  have hr : (onePeer Nat Nat).Reachable gapped :=
    ⟨.make [0] 0, [.decide 2 (some 5), .decide 0 (some 7)], ⟨[0], 0, rfl⟩,
      .cons ⟨by decide, rfl⟩ (.cons ⟨by decide, rfl⟩ (.nil _))⟩
  have hret : gapped.MinUndecidedReturns { (gapped.touch 0).touch 1 with minUndecidedSlot := 1 } 1 :=
    ⟨2, _, rfl, rfl⟩
  exact ⟨_, hret, (slot_bookkeeping gapped hr).2.2.2 _ 1 hret⟩

/-! ## The scan as the administrator sees it

`minUndecided` leaves out the records the loop creates. On a peer that keeps
its books it gives the reply of the loop. -/

namespace Peer

theorem decided_of_scanUndecided (px : Peer H V) :
    ∀ (fuel : Nat) (s s' : Int), s ≤ s' → s' < px.scanUndecided fuel s → px.Decided s'
  | 0, s, s', h₁, h₂ => absurd h₂ (by rw [scanUndecided]; omega)
  | fuel + 1, s, s', h₁, h₂ => by
    rw [scanUndecided] at h₂
    split at h₂
    · rename_i hd
      by_cases hs : s' = s
      · subst hs; exact hd
      · exact decided_of_scanUndecided px fuel (s + 1) s' (by omega) h₂
    · omega

theorem le_scanUndecided (px : Peer H V) :
    ∀ (fuel : Nat) (s : Int), s ≤ px.scanUndecided fuel s
  | 0, s => le_refl s
  | fuel + 1, s => by
    rw [scanUndecided]
    split
    · exact le_trans (by omega) (le_scanUndecided px fuel (s + 1))
    · exact le_refl s

theorem minUndecided_grows (px : Peer H V) : px.Grows px.minUndecided.1 where
  decided _ h := h
  new _ h := .inl h
  max := le_refl _
  min := le_scanUndecided px _ _
  scanned s h₁ h₂ := decided_of_scanUndecided px _ _ s h₁ h₂

/-- Past the last decided slot the scan has stopped by its own test. -/
theorem not_decided_scanUndecided {px : Peer H V} (h : px.Bookkept) :
    ∀ (k : Nat) (s : Int), px.maxDecidedSlot < s + k → ¬ px.Decided (px.scanUndecided k s)
  | 0, s, hk, hd => by
    have := h.above s hd
    omega
  | k + 1, s, hk, hd => by
    rw [scanUndecided] at hd
    split at hd
    · exact not_decided_scanUndecided h k (s + 1) (by omega) hd
    · rename_i hs
      exact hs hd

theorem minUndecided_returns {px px' : Peer H V} {n : Int} (h : px.Bookkept)
    (hr : px.MinUndecidedReturns px' n) : px.minUndecided.2 = n := by
  refine LeastUndecided.unique ⟨le_trans h.nonneg (le_scanUndecided px _ _),
    not_decided_scanUndecided h _ _ (by omega), fun s h₀ hlt => ?_⟩ (h.leastUndecided hr)
  by_cases hs : s < px.minUndecidedSlot
  · exact h.below s h₀ hs
  · exact decided_of_scanUndecided px _ _ s (by omega) hlt

end Peer

end Cmu440.Paxos
