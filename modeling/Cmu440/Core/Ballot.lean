import Cmu440.Core.LTS
import Cmu440.Core.Quorum
import Mathlib.Logic.Function.Basic

/-!
# Ballot voting: the abstract core of single-decree consensus

Acceptors vote in numbered ballots. Each ballot carries at most one value
(`prop`), each acceptor has a floor below which it no longer votes, and a
value is *chosen* once a quorum has voted in one of its ballots. Nothing here
speaks of messages, phases or proposers; those belong to the systems that
are shown to simulate this one.

A ballot `n` may be opened with value `x` when some quorum has its floor at
`n` or above and, with `k` an upper bound on that quorum's votes below `n`,
either `k ≤ 0` (none of them voted), or `x` is the value of ballot `k`, or
`x` has already been chosen in whatever ballot. The last case is what lets an
acceptor that has learned the outcome report it under an old number.

The invariant `Inv.safe` says that a ballot agrees with every lower ballot
that is still choosable; `chosen_unique` follows from it.
-/
namespace Cmu440.Ballot

structure St (A X : Type) where
  floor : A → Int
  votes : A → Int → Prop
  prop : Int → Option X

inductive Lbl (A X : Type)
  | raise (a : A) (n : Int)
  | propose (n : Int) (x : X)
  | vote (a : A) (n : Int)

section
variable {A X : Type} (q : QuorumSystem A)

/-- A quorum has voted in ballot `b`, whose value is `x`. -/
def ChosenAt (s : St A X) (b : Int) (x : X) : Prop :=
  s.prop b = some x ∧ ∃ Q, q.Quorum Q ∧ ∀ a ∈ Q, s.votes a b

def Chosen (s : St A X) (x : X) : Prop := ∃ b, ChosenAt q s b x

/-- Some quorum has voted in `b` or still may. -/
def Choosable (s : St A X) (b : Int) : Prop :=
  ∃ Q, q.Quorum Q ∧ ∀ a ∈ Q, s.votes a b ∨ s.floor a ≤ b

/-- The guard for opening ballot `n` with value `x`. -/
def Justified (s : St A X) (n : Int) (x : X) : Prop :=
  ∃ Q k, q.Quorum Q ∧ (∀ a ∈ Q, n ≤ s.floor a) ∧ (∀ a ∈ Q, ∀ b, s.votes a b → b < n → b ≤ k) ∧
    (k ≤ 0 ∨ s.prop k = some x ∨ Chosen q s x)

def empty : St A X := ⟨fun _ => 0, fun _ _ => False, fun _ => none⟩

end

variable {A X : Type} [DecidableEq A] (q : QuorumSystem A)

def raised (s : St A X) (a : A) (n : Int) : St A X :=
  { s with floor := Function.update s.floor a n }

def proposed (s : St A X) (n : Int) (x : X) : St A X :=
  { s with prop := Function.update s.prop n (some x) }

def voted (s : St A X) (a : A) (n : Int) : St A X :=
  { s with floor := Function.update s.floor a n
           votes := fun c b => s.votes c b ∨ (c = a ∧ b = n) }

def lts : LTS (St A X) (Lbl A X) where
  init s := s = empty
  step s l s' := match l with
    | .raise a n => s.floor a ≤ n ∧ s' = raised s a n
    | .propose n x => 0 < n ∧ s.prop n = none ∧ Justified q s n x ∧ s' = proposed s n x
    | .vote a n => s.floor a ≤ n ∧ (∃ x, s.prop n = some x) ∧ s' = voted s a n

/-! ## What a step preserves -/

section
variable {A X : Type} (q : QuorumSystem A)

/-- `t` extends `s`: floors only rise, votes and ballot values only accrue,
and the votes an acceptor gains are at or above its old floor. -/
structure Ext (s t : St A X) : Prop where
  floor : ∀ a, s.floor a ≤ t.floor a
  votes : ∀ a b, s.votes a b → t.votes a b
  prop : ∀ n x, s.prop n = some x → t.prop n = some x
  late : ∀ a b, t.votes a b → s.votes a b ∨ s.floor a ≤ b

theorem Ext.refl (s : St A X) : Ext s s :=
  ⟨fun _ => le_refl _, fun _ _ h => h, fun _ _ h => h, fun _ _ h => .inl h⟩

theorem Ext.trans {s t u : St A X} (h : Ext s t) (h' : Ext t u) : Ext s u where
  floor a := le_trans (h.floor a) (h'.floor a)
  votes a b hv := h'.votes a b (h.votes a b hv)
  prop n x hp := h'.prop n x (h.prop n x hp)
  late a b hv := by
    rcases h'.late a b hv with hv | hle
    · exact h.late a b hv
    · exact .inr (le_trans (h.floor a) hle)

theorem ChosenAt.mono {s t : St A X} (h : Ext s t) {b : Int} {x : X} (hc : ChosenAt q s b x) :
    ChosenAt q t b x := by
  obtain ⟨hp, Q, hQ, hv⟩ := hc
  exact ⟨h.prop b x hp, Q, hQ, fun a ha => h.votes a b (hv a ha)⟩

theorem Chosen.mono {s t : St A X} (h : Ext s t) {x : X} (hc : Chosen q s x) : Chosen q t x := by
  obtain ⟨b, hb⟩ := hc
  exact ⟨b, hb.mono q h⟩

/-- A chosen ballot stays choosable; and no step makes a ballot choosable. -/
theorem Choosable.anti {s t : St A X} (h : Ext s t) {b : Int} (hc : Choosable q t b) :
    Choosable q s b := by
  obtain ⟨Q, hQ, hv⟩ := hc
  refine ⟨Q, hQ, fun a ha => ?_⟩
  rcases hv a ha with hv | hle
  · exact h.late a b hv
  · exact .inr (le_trans (h.floor a) hle)

/-- Once an acceptor's floor has reached `n`, a bound on its votes below `n`
holds for good. -/
theorem Ext.frozen {s t : St A X} (h : Ext s t) {a : A} {n k : Int} (hn : n ≤ s.floor a)
    (hk : ∀ b, s.votes a b → b < n → b ≤ k) : ∀ b, t.votes a b → b < n → b ≤ k := by
  intro b hv hb
  rcases h.late a b hv with hv | hle
  · exact hk b hv hb
  · omega

end

theorem ext_raised {s : St A X} {a : A} {n : Int} (h : s.floor a ≤ n) : Ext s (raised s a n) where
  floor c := by
    by_cases hc : c = a
    · subst hc; simpa [raised] using h
    · simp [raised, Function.update_of_ne hc]
  votes _ _ hv := hv
  prop _ _ hp := hp
  late _ _ hv := .inl hv

omit [DecidableEq A] in
theorem ext_proposed {s : St A X} {n : Int} {x : X} (h : s.prop n = none) :
    Ext s (proposed s n x) where
  floor _ := le_refl _
  votes _ _ hv := hv
  prop m y hp := by
    have hm : m ≠ n := by intro e; rw [e, h] at hp; cases hp
    simpa [proposed, Function.update_of_ne hm] using hp
  late _ _ hv := .inl hv

theorem ext_voted {s : St A X} {a : A} {n : Int} (h : s.floor a ≤ n) : Ext s (voted s a n) where
  floor c := by
    by_cases hc : c = a
    · subst hc; simpa [voted] using h
    · simp [voted, Function.update_of_ne hc]
  votes _ _ hv := .inl hv
  prop _ _ hp := hp
  late c b hv := by
    rcases hv with hv | ⟨rfl, rfl⟩
    · exact .inl hv
    · exact .inr h

theorem ext_step {s s' : St A X} {l : Lbl A X} (h : (lts q).step s l s') : Ext s s' := by
  cases l with
  | raise a n => obtain ⟨h₁, rfl⟩ := h; exact ext_raised h₁
  | propose n x => obtain ⟨-, h₁, -, rfl⟩ := h; exact ext_proposed h₁
  | vote a n => obtain ⟨h₁, -, rfl⟩ := h; exact ext_voted h₁

theorem ext_run {s s' : St A X} {ls : List (Lbl A X)} (h : (lts q).Run s ls s') : Ext s s' := by
  induction h with
  | nil s => exact Ext.refl s
  | cons hs _ ih => exact (ext_step q hs).trans ih

/-! ## The invariant -/

section
variable {A X : Type} (q : QuorumSystem A)

structure Inv (s : St A X) : Prop where
  /-- Votes are cast in opened ballots only. -/
  vote_prop : ∀ a b, s.votes a b → ∃ x, s.prop b = some x
  vote_floor : ∀ a b, s.votes a b → b ≤ s.floor a
  prop_pos : ∀ n x, s.prop n = some x → 0 < n
  /-- Each opened ballot was promised by a quorum. -/
  prop_floor : ∀ n x, s.prop n = some x → ∃ Q, q.Quorum Q ∧ ∀ a ∈ Q, n ≤ s.floor a
  /-- An opened ballot agrees with every lower one that is still choosable. -/
  safe : ∀ n x b y, s.prop n = some x → s.prop b = some y → b < n → Choosable q s b → y = x

theorem inv_empty : Inv q (empty : St A X) :=
  ⟨fun _ _ h => h.elim, fun _ _ h => h.elim, fun n x h => by simp [empty] at h,
    fun n x h => by simp [empty] at h, fun n x b y h => by simp [empty] at h⟩

theorem ChosenAt.choosable {s : St A X} {b : Int} {x : X} (h : ChosenAt q s b x) :
    Choosable q s b := by
  obtain ⟨-, Q, hQ, hv⟩ := h
  exact ⟨Q, hQ, fun a ha => .inl (hv a ha)⟩

/-- The value chosen in a ballot is the value of every higher ballot. -/
theorem chosenAt_above {s : St A X} (hi : Inv q s) {b n : Int} {x y : X} (h : ChosenAt q s b x)
    (hn : s.prop n = some y) (hle : b ≤ n) : y = x := by
  rcases lt_or_eq_of_le hle with hlt | rfl
  · exact (hi.safe n y b x hn h.1 hlt h.choosable).symm
  · rw [h.1] at hn; exact (Option.some.inj hn).symm

/-- A justified value agrees with every lower ballot that is still choosable. -/
theorem justified_safe {s : St A X} (hi : Inv q s) {n b : Int} {x y : X}
    (hj : Justified q s n x) (hb : s.prop b = some y) (hlt : b < n) (hc : Choosable q s b) :
    y = x := by
  obtain ⟨Q, k, hQ, hf, hk, hx⟩ := hj
  have hc' := hc
  obtain ⟨Q', hQ', hv⟩ := hc
  obtain ⟨a, ha, ha'⟩ := q.meet Q Q' hQ hQ'
  -- `a` promised `n`, so it can only support `b` by a vote it has already cast
  have hvote : s.votes a b := by
    rcases hv a ha' with hv | hle
    · exact hv
    · have := hf a ha; omega
  have hbk : b ≤ k := hk a ha b hvote hlt
  have hbpos := hi.prop_pos b y hb
  rcases hx with hk0 | hprop | hch
  · omega
  · rcases lt_or_eq_of_le hbk with hlt' | rfl
    · exact hi.safe k x b y hprop hb hlt' hc'
    · rw [hb] at hprop; exact Option.some.inj hprop
  · obtain ⟨d, hd⟩ := hch
    rcases lt_or_ge b d with h | h
    · exact hi.safe d x b y hd.1 hb h hc'
    · exact chosenAt_above q hi hd hb h

/-- At most one value is ever chosen. -/
theorem chosen_unique {s : St A X} (hi : Inv q s) {x y : X} (hx : Chosen q s x)
    (hy : Chosen q s y) : x = y := by
  obtain ⟨b, hb⟩ := hx
  obtain ⟨d, hd⟩ := hy
  rcases le_total b d with h | h
  · exact (chosenAt_above q hi hb hd.1 h).symm
  · exact chosenAt_above q hi hd hb.1 h

end

theorem inv_raised {s : St A X} {a : A} {n : Int} (hi : Inv q s) (h : s.floor a ≤ n) :
    Inv q (raised s a n) := by
  have he := ext_raised h
  refine ⟨hi.vote_prop, fun c b hv => le_trans (hi.vote_floor c b hv) (he.floor c), hi.prop_pos,
    ?_, ?_⟩
  · intro m x hm
    obtain ⟨Q, hQ, hf⟩ := hi.prop_floor m x hm
    exact ⟨Q, hQ, fun c hc => le_trans (hf c hc) (he.floor c)⟩
  · intro m x b y hm hb hlt hc
    exact hi.safe m x b y hm hb hlt (hc.anti q he)

theorem inv_voted {s : St A X} {a : A} {n : Int} (hi : Inv q s) (h : s.floor a ≤ n)
    (hp : ∃ x, s.prop n = some x) : Inv q (voted s a n) := by
  have he := ext_voted h
  refine ⟨?_, ?_, hi.prop_pos, ?_, ?_⟩
  · rintro c b (hv | ⟨-, rfl⟩)
    · exact hi.vote_prop c b hv
    · exact hp
  · rintro c b (hv | ⟨rfl, rfl⟩)
    · exact le_trans (hi.vote_floor c b hv) (he.floor c)
    · simp [voted]
  · intro m x hm
    obtain ⟨Q, hQ, hf⟩ := hi.prop_floor m x hm
    exact ⟨Q, hQ, fun c hc => le_trans (hf c hc) (he.floor c)⟩
  · intro m x b y hm hb hlt hc
    exact hi.safe m x b y hm hb hlt (hc.anti q he)

omit [DecidableEq A] in
theorem inv_proposed {s : St A X} {n : Int} {x : X} (hi : Inv q s) (hn : 0 < n)
    (hnone : s.prop n = none) (hj : Justified q s n x) : Inv q (proposed s n x) := by
  have hprop : ∀ m y, (proposed s n x).prop m = some y → (m = n ∧ y = x) ∨ s.prop m = some y := by
    intro m y h
    by_cases hm : m = n
    · subst hm
      simp only [proposed, Function.update_self, Option.some.injEq] at h
      exact .inl ⟨rfl, h.symm⟩
    · simp only [proposed, Function.update_of_ne hm] at h
      exact .inr h
  have he : Ext s (proposed s n x) := ext_proposed hnone
  refine ⟨?_, hi.vote_floor, ?_, ?_, ?_⟩
  · intro a b hv
    obtain ⟨y, hy⟩ := hi.vote_prop a b hv
    exact ⟨y, he.prop b y hy⟩
  · intro m y h
    rcases hprop m y h with ⟨rfl, -⟩ | h
    · exact hn
    · exact hi.prop_pos m y h
  · intro m y h
    rcases hprop m y h with ⟨rfl, -⟩ | h
    · obtain ⟨Q, -, hQ, hf, -⟩ := hj
      exact ⟨Q, hQ, hf⟩
    · exact hi.prop_floor m y h
  · intro m y b z hm hb hlt hc
    have hc := hc.anti q he
    rcases hprop m y hm with ⟨rfl, rfl⟩ | hm
    · rcases hprop b z hb with ⟨rfl, -⟩ | hb
      · omega
      · exact justified_safe q hi hj hb hlt hc
    · rcases hprop b z hb with ⟨hbn, -⟩ | hb
      · -- the new ballot is below `m`, whose quorum no longer votes there
        obtain ⟨Q, hQ, hf⟩ := hi.prop_floor m y hm
        obtain ⟨Q', hQ', hv⟩ := hc
        obtain ⟨a, ha, ha'⟩ := q.meet Q Q' hQ hQ'
        rcases hv a ha' with hv | hle
        · obtain ⟨u, hu⟩ := hi.vote_prop a b hv
          rw [hbn, hnone] at hu; cases hu
        · have := hf a ha; omega
      · exact hi.safe m y b z hm hb hlt hc

theorem inv_inductive : (lts q).Inductive (Inv (X := X) q) where
  init := by rintro s rfl; exact inv_empty q
  step := by
    intro s l s' hi hs
    cases l with
    | raise a n => obtain ⟨h, rfl⟩ := hs; exact inv_raised q hi h
    | propose n x => obtain ⟨h₁, h₂, h₃, rfl⟩ := hs; exact inv_proposed q hi h₁ h₂ h₃
    | vote a n => obtain ⟨h₁, h₂, rfl⟩ := hs; exact inv_voted q hi h₁ h₂

end Cmu440.Ballot
