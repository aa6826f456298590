import Cmu440.Bitcoin.Conserve

/-!
# The miner

p1/src/github.com/cmu440/bitcoin/miner/miner.go. A miner answers a `Request` with
the smallest hash of its range and the nonce that has it, found by trying every
nonce in turn:

    for i := lower; i <= upper; i++ { ... }

`Hash` is a parameter. The loop takes fuel, one unit for each time its condition
is looked at; with none left there is no result.

Up to `upper = 2^64-2` the loop ends after `upper-lower+1` turns and what it has
found is the first of the smallest (`calculateMinHash_finds`), so the answers of
such a miner are the truthful ones that `Conserve` asks for
(`answer_truthful`). With `upper = 2^64-1`, which a client can ask for, no `i`
makes the condition false and the miner never answers
(`calculateMinHash_never_ends`).
-/
namespace Cmu440.Bitcoin

/-- mirrors miner.go:32-38 -/
def minHashLoop (hash : UInt64 → UInt64) (upper : UInt64) :
    Nat → UInt64 → UInt64 → UInt64 → Option (UInt64 × UInt64)
  | 0, _, _, _ => none
  | fuel + 1, i, minHash, nonce =>
    if i ≤ upper then
      if hash i < minHash then minHashLoop hash upper fuel (i + 1) (hash i) i
      else minHashLoop hash upper fuel (i + 1) minHash nonce
    else some (minHash, nonce)

/-- mirrors miner.go:29-41 -/
def calculateMinHash (hash : String → UInt64 → UInt64) (data : String) (lower upper : UInt64)
    (fuel : Nat) : Option (UInt64 × UInt64) :=
  minHashLoop (hash data) upper fuel lower maxUint64 0

/-- What is sent for a request. mirrors miner.go:85-86 -/
def answer (hash : String → UInt64 → UInt64) (reqMsg : Message) (fuel : Nat) : Option Message :=
  (calculateMinHash hash reqMsg.data reqMsg.lower reqMsg.upper fuel).map fun r =>
    newResult r.1 r.2

/-! ## The loop -/

/-- `minHash` is the smallest hash from `lower` up to `i`, and `nonce` is the first
that has it, unless nothing below the initial value was seen. -/
structure Searched (hash : UInt64 → UInt64) (lower i minHash nonce : UInt64) : Prop where
  le : ∀ j, lower ≤ j → j < i → minHash ≤ hash j
  first : minHash < maxUint64 → lower ≤ nonce ∧ nonce < i ∧ hash nonce = minHash ∧
    ∀ j, lower ≤ j → j < nonce → minHash < hash j

section

variable {hash : UInt64 → UInt64} {lower upper i minHash nonce : UInt64}

theorem toNat_succ (h : i < maxUint64) : (i + 1).toNat = i.toNat + 1 := by
  have hlt : i.toNat < 2 ^ 64 - 1 := UInt64.lt_iff_toNat_lt.mp h
  rw [UInt64.toNat_add, UInt64.toNat_one, Nat.mod_eq_of_lt (by omega)]

theorem lt_succ_iff (h : i < maxUint64) {j : UInt64} : j < i + 1 ↔ j ≤ i := by
  rw [UInt64.lt_iff_toNat_lt, UInt64.le_iff_toNat_le, toNat_succ h, Nat.lt_succ_iff]

theorem le_maxUint64 (j : UInt64) : j ≤ maxUint64 :=
  UInt64.le_iff_toNat_le.mpr (Nat.le_of_lt_succ j.toNat_lt)

/-- Before the first turn. -/
theorem Searched.start : Searched hash lower lower maxUint64 0 :=
  ⟨fun _ hle hlt => absurd hlt (UInt64.not_lt.mpr hle), fun h => absurd h (UInt64.lt_irrefl _)⟩

/-- One turn. -/
theorem Searched.next (h : Searched hash lower i minHash nonce) (hle : lower ≤ i)
    (hi : i < maxUint64) :
    if hash i < minHash then Searched hash lower (i + 1) (hash i) i
    else Searched hash lower (i + 1) minHash nonce := by
  have hsplit : ∀ j, j < i + 1 → j < i ∨ j = i := fun j hj =>
    UInt64.lt_or_eq_of_le ((lt_succ_iff hi).mp hj)
  split <;> rename_i hhash
  · refine ⟨fun j hl hj => ?_, fun _ => ⟨hle, (lt_succ_iff hi).mpr (UInt64.le_refl i), rfl, ?_⟩⟩
    · rcases hsplit j hj with hlt | rfl
      · exact UInt64.le_trans (UInt64.le_of_lt hhash) (h.le j hl hlt)
      · exact UInt64.le_refl _
    · exact fun j hl hj => UInt64.lt_of_lt_of_le hhash (h.le j hl hj)
  · refine ⟨fun j hl hj => ?_, fun hmin => ?_⟩
    · rcases hsplit j hj with hlt | rfl
      · exact h.le j hl hlt
      · exact UInt64.not_lt.mp hhash
    · obtain ⟨hl, hlt, heq, hfirst⟩ := h.first hmin
      exact ⟨hl, UInt64.lt_trans hlt ((lt_succ_iff hi).mpr (UInt64.le_refl i)), heq, hfirst⟩

theorem succ_le_succ (hi : i ≤ upper) (hu : upper < maxUint64) : i + 1 ≤ upper + 1 := by
  rw [UInt64.le_iff_toNat_le, toNat_succ (UInt64.lt_of_le_of_lt hi hu), toNat_succ hu]
  exact Nat.succ_le_succ (UInt64.le_iff_toNat_le.mp hi)

/-- When the loop ends it has searched the whole range. -/
theorem minHashLoop_searched (hu : upper < maxUint64) {fuel : Nat} {r : UInt64 × UInt64}
    (h : Searched hash lower i minHash nonce) (hle : lower ≤ i) (hi : i ≤ upper + 1)
    (hrun : minHashLoop hash upper fuel i minHash nonce = some r) :
    Searched hash lower (upper + 1) r.1 r.2 := by
  induction fuel generalizing i minHash nonce with
  | zero => cases hrun
  | succ fuel ih =>
    unfold minHashLoop at hrun
    split at hrun <;> rename_i hend
    · have hmax : i < maxUint64 := UInt64.lt_of_le_of_lt hend hu
      have hle' : lower ≤ i + 1 := UInt64.le_of_lt ((lt_succ_iff hmax).mpr hle)
      have hnext := h.next hle hmax
      split at hrun <;> rename_i hhash
      · rw [if_pos hhash] at hnext
        exact ih hnext hle' (succ_le_succ hend hu) hrun
      · rw [if_neg hhash] at hnext
        exact ih hnext hle' (succ_le_succ hend hu) hrun
    · cases hrun
      have heq : i = upper + 1 :=
        UInt64.le_antisymm hi (UInt64.not_lt.mp fun hlt => hend ((lt_succ_iff hu).mp hlt))
      rw [← heq]
      exact h

/-- With fuel for every nonce that is left, the loop ends. -/
theorem minHashLoop_ends (hash : UInt64 → UInt64) (hu : upper < maxUint64)
    (i minHash nonce : UInt64) {turns : Nat} (hturns : upper.toNat + 1 - i.toNat ≤ turns) :
    ∃ r, ∀ fuel, turns < fuel → minHashLoop hash upper fuel i minHash nonce = some r := by
  induction turns generalizing i minHash nonce with
  | zero =>
    refine ⟨(minHash, nonce), fun fuel hfuel => ?_⟩
    have hend : ¬ i ≤ upper := by
      rw [UInt64.le_iff_toNat_le]
      omega
    obtain ⟨fuel, rfl⟩ := Nat.exists_eq_add_one_of_ne_zero (by omega : fuel ≠ 0)
    rw [minHashLoop, if_neg hend]
  | succ turns ih =>
    by_cases hend : i ≤ upper
    · have hnext : upper.toNat + 1 - (i + 1).toNat ≤ turns := by
        rw [toNat_succ (UInt64.lt_of_le_of_lt hend hu)]
        omega
      obtain ⟨r, hr⟩ : ∃ r, ∀ fuel, turns < fuel →
          minHashLoop hash upper fuel (i + 1) (if hash i < minHash then hash i else minHash)
            (if hash i < minHash then i else nonce) = some r := ih _ _ _ hnext
      refine ⟨r, fun fuel hfuel => ?_⟩
      obtain ⟨fuel, rfl⟩ := Nat.exists_eq_add_one_of_ne_zero (by omega : fuel ≠ 0)
      rw [minHashLoop, if_pos hend, ← hr fuel (by omega)]
      split <;> rfl
    · refine ⟨(minHash, nonce), fun fuel hfuel => ?_⟩
      obtain ⟨fuel, rfl⟩ := Nat.exists_eq_add_one_of_ne_zero (by omega : fuel ≠ 0)
      rw [minHashLoop, if_neg hend]

end

/-- `i <= upper` holds for every `i`. -/
theorem minHashLoop_never_ends (hash : UInt64 → UInt64) (fuel : Nat) (i minHash nonce : UInt64) :
    minHashLoop hash maxUint64 fuel i minHash nonce = none := by
  induction fuel generalizing i minHash nonce with
  | zero => rfl
  | succ fuel ih =>
    rw [minHashLoop, if_pos (le_maxUint64 i)]
    split
    · exact ih _ _ _
    · exact ih _ _ _

/-! ## The answer -/

/-- Exactly below `2^64-1` the search ends, with the minimum of the range and the
first nonce that has it. -/
theorem calculateMinHash_finds (hash : String → UInt64 → UInt64) (data : String)
    (lower upper : UInt64) (hle : lower ≤ upper) :
    (∃ steps minHash nonce,
      (∀ fuel, steps < fuel →
        calculateMinHash hash data lower upper fuel = some (minHash, nonce)) ∧
      (∀ i, lower ≤ i → i ≤ upper → minHash ≤ hash data i) ∧
      (∃ i, lower ≤ i ∧ i ≤ upper ∧ hash data i = minHash) ∧
      (minHash < maxUint64 →
        lower ≤ nonce ∧ nonce ≤ upper ∧ hash data nonce = minHash ∧
        ∀ i, lower ≤ i → i ≤ upper → hash data i = minHash → nonce ≤ i)) ↔
    upper < maxUint64 := by
  refine ⟨?_, fun hu => ?_⟩
  · rintro ⟨steps, minHash, nonce, hrun, -⟩
    by_contra hmax
    have hrun := hrun (steps + 1) (Nat.lt_succ_self steps)
    rw [UInt64.le_antisymm (le_maxUint64 upper) (UInt64.not_lt.mp hmax), calculateMinHash,
      minHashLoop_never_ends] at hrun
    cases hrun
  obtain ⟨⟨minHash, nonce⟩, hrun⟩ := minHashLoop_ends (hash data) hu lower maxUint64 0 le_rfl
  have hsearched := minHashLoop_searched hu .start (UInt64.le_refl lower)
    (UInt64.le_of_lt ((lt_succ_iff hu).mpr hle)) (hrun _ (Nat.lt_succ_self _))
  have hmin : ∀ i, lower ≤ i → i ≤ upper → minHash ≤ hash data i :=
    fun i hl hi => hsearched.le i hl ((lt_succ_iff hu).mpr hi)
  refine ⟨_, minHash, nonce, hrun, hmin, ?_, fun hlt => ?_⟩
  · by_cases hlt : minHash < maxUint64
    · obtain ⟨hl, hi, heq, -⟩ := hsearched.first hlt
      exact ⟨nonce, hl, (lt_succ_iff hu).mp hi, heq⟩
    · -- nothing was below the initial value, so every hash of the range is that value
      refine ⟨lower, UInt64.le_refl _, hle, UInt64.le_antisymm ?_ (hmin lower (UInt64.le_refl _) hle)⟩
      exact UInt64.le_trans (le_maxUint64 _) (UInt64.not_lt.mp hlt)
  · obtain ⟨hl, hi, heq, hfirst⟩ := hsearched.first hlt
    refine ⟨hl, (lt_succ_iff hu).mp hi, heq, fun i hli _ hi => UInt64.not_lt.mp fun hbefore => ?_⟩
    have := hfirst i hli hbefore
    rw [hi] at this
    exact UInt64.lt_irrefl _ this

theorem calculateMinHash_finds_three :
    ∃ steps minHash nonce,
      (∀ fuel, steps < fuel →
        calculateMinHash (fun _ i => 7 - i) "" 3 5 fuel = some (minHash, nonce)) ∧
      ∀ i, 3 ≤ i → i ≤ 5 → minHash ≤ 7 - i :=
  have ⟨steps, minHash, nonce, hrun, hmin, _⟩ :=
    (calculateMinHash_finds (fun _ i => 7 - i) "" 3 5 (by decide)).mpr (by decide)
  ⟨steps, minHash, nonce, hrun, hmin⟩

example : calculateMinHash (fun _ i => 7 - i) "" 3 5 4 = some (2, 5) := by decide

/-- A client that asks for all nonces is never answered. -/
theorem calculateMinHash_never_ends :
    (0 : UInt64) ≤ maxUint64 ∧
    ∀ fuel, calculateMinHash (fun _ i => 7 - i) "" 0 maxUint64 fuel = none :=
  ⟨by decide, fun fuel => minHashLoop_never_ends _ fuel 0 maxUint64 0⟩

/-- What a miner sends is the truth about the range it was asked for. -/
theorem answer_truthful {hash : String → UInt64 → UInt64} {reqMsg resultMsg : Message} {fuel : Nat}
    (hu : reqMsg.upper < maxUint64) (h : answer hash reqMsg fuel = some resultMsg) :
    (Answer.mk reqMsg resultMsg).Truthful hash := by
  obtain ⟨r, hr, rfl⟩ := Option.map_eq_some_iff.mp h
  by_cases hle : reqMsg.lower ≤ reqMsg.upper
  · have hsearched := minHashLoop_searched hu .start (UInt64.le_refl _)
      (UInt64.le_of_lt ((lt_succ_iff hu).mpr hle)) hr
    refine ⟨fun i hi => hsearched.le i hi.1 ((lt_succ_iff hu).mpr hi.2), fun hlt => ?_⟩
    obtain ⟨hl, hi, heq, -⟩ := hsearched.first hlt
    exact ⟨⟨hl, (lt_succ_iff hu).mp hi⟩, heq⟩
  · -- an empty range: the loop ends before its first turn
    have hr : r = (maxUint64, 0) := by
      cases fuel with
      | zero => cases hr
      | succ fuel =>
        rw [calculateMinHash, minHashLoop, if_neg hle] at hr
        exact (Option.some.inj hr).symm
    rw [hr]
    exact ⟨fun i hi => absurd (UInt64.le_trans hi.1 hi.2) hle,
      fun hlt => absurd hlt (UInt64.lt_irrefl maxUint64)⟩

end Cmu440.Bitcoin
