import Mathlib.Data.Finset.Card

/-!
# Quorums and majorities of member lists

A quorum system is a family of finite sets of which any two meet. The
systems used here are the majorities of a family of member lists: a list is
what one participant believes the membership to be, and a majority of it is
a set of its members that is more than half as large as the list is long.

Two lists *overlap* when each majority of the one meets each majority of the
other. A duplicate-free list overlaps itself, and two duplicate-free lists
overlap when one extends the other by a single member; two changes apart, as
`[0, 1, 2]` and `[0]` are, they need not.
-/
namespace Cmu440

structure QuorumSystem (A : Type) where
  Quorum : Finset A → Prop
  meet : ∀ Q Q', Quorum Q → Quorum Q' → ∃ a, a ∈ Q ∧ a ∈ Q'

variable {A : Type}

/-- `Q` is a set of members of `L`, more than half of `L.length` of them. -/
def IsMajority (L : List A) (Q : Finset A) : Prop := (∀ a ∈ Q, a ∈ L) ∧ L.length < 2 * Q.card

/-- Every majority of `L` meets every majority of `L'`. -/
def Overlap (L L' : List A) : Prop :=
  ∀ Q Q', IsMajority L Q → IsMajority L' Q' → ∃ a, a ∈ Q ∧ a ∈ Q'

theorem Overlap.symm {L L' : List A} (h : Overlap L L') : Overlap L' L := by
  intro Q Q' hQ hQ'
  obtain ⟨a, h₁, h₂⟩ := h Q' Q hQ' hQ
  exact ⟨a, h₂, h₁⟩

/-- Majorities that are jointly larger than a set holding both of them meet. -/
theorem meet_of_card [DecidableEq A] {M Q Q' : Finset A} (hQ : Q ⊆ M) (hQ' : Q' ⊆ M)
    (hc : M.card < Q.card + Q'.card) : ∃ a, a ∈ Q ∧ a ∈ Q' := by
  have hne : ¬ Disjoint Q Q' := by
    intro hd
    have h₁ := Finset.card_union_of_disjoint hd
    have h₂ := Finset.card_le_card (Finset.union_subset hQ hQ')
    omega
  exact Finset.not_disjoint_iff.mp hne

/-- A list overlaps any list that contains it and has at most one entry more. -/
theorem overlap_of_subset {L L' : List A} (hsub : ∀ a ∈ L, a ∈ L')
    (hlen : L'.length ≤ L.length + 1) : Overlap L L' := by
  classical
  intro Q Q' hQ hQ'
  have hM := List.toFinset_card_le L'
  apply meet_of_card (M := L'.toFinset)
  · intro a ha
    exact List.mem_toFinset.mpr (hsub a (hQ.1 a ha))
  · intro a ha
    exact List.mem_toFinset.mpr (hQ'.1 a ha)
  · have h₁ := hQ.2
    have h₂ := hQ'.2
    omega

theorem overlap_self (L : List A) : Overlap L L :=
  overlap_of_subset (fun _ h => h) (Nat.le_succ _)

/-- The majorities of a family of pairwise overlapping lists. -/
def majorities (F : List A → Prop) (hF : ∀ L L', F L → F L' → Overlap L L') : QuorumSystem A where
  Quorum Q := ∃ L, F L ∧ IsMajority L Q
  meet := by
    rintro Q Q' ⟨L, hL, hQ⟩ ⟨L', hL', hQ'⟩
    exact hF L L' hL hL' Q Q' hQ hQ'

end Cmu440
