import Mathlib.Algebra.Order.Ring.Int
import Mathlib.Tactic.LinearCombination

/-!
# The number of a round

`startHelper` makes the number of a round from the clock, the size of the
cluster and the index of the peer, in `int64` (paxos.go:440-447): a peer takes
the numbers congruent to its index modulo the size, so that no two peers take
the same one, and a number that is not above `maxSeqNumHighest` is moved up in
steps of the size.

The product of the nanoseconds with the size leaves the range of `int64` for
six peers since 2018. A number that has wrapped around is congruent to its
index no more (`wrapped_number`); as long as the number that is meant stays in
range, all is well (`seqNum_usable`). Where the size divides `2^64` a number can
also wrap around and be usable by chance. `World` lets a round begin with any
positive number, also one that another round has taken.
-/
namespace Cmu440.Paxos

/-- The number of a round of the peer with index `me` out of `n`.
mirrors paxos.go:442-447 -/
def seqNum (unixNano : Int64) (n me : Nat) (maxSeqNumHighest : Int64) : Int64 :=
  let seqNum := unixNano * .ofNat n + .ofNat me
  if seqNum ≤ maxSeqNumHighest then
    seqNum + ((maxSeqNumHighest - seqNum) - (maxSeqNumHighest - seqNum) % .ofNat n + .ofNat n)
  else seqNum

/-- The arguments of one round: a clock reading up to `2^61` and an index. -/
structure Reading (n : Nat) where
  unixNano : Int64
  me : Nat
  nonneg : 0 ≤ unixNano.toInt
  bound : unixNano.toInt ≤ 2 ^ 61
  lt : me < n

/-- The numbers a cluster of `n` peers can have seen: `0`, and what one of its
peers made of a number seen before, in a round that meets `ok`. -/
inductive Seen (n : Nat) (ok : Reading n → Int64 → Prop) : Int64 → Prop
  | zero : Seen n ok 0
  | made {m : Int64} (r : Reading n) (hm : Seen n ok m) (h : ok r m) :
      Seen n ok (seqNum r.unixNano n r.me m)

/-- The number that is meant, in integers without bounds. -/
def Reading.meant {n : Nat} (r : Reading n) (maxSeqNumHighest : Int) : Int :=
  let seqNum := r.unixNano.toInt * n + r.me
  if seqNum ≤ maxSeqNumHighest then
    maxSeqNumHighest - (maxSeqNumHighest - seqNum) % n + n
  else seqNum

/-- It does not leave the range of `int64`. -/
def Fits {n : Nat} (r : Reading n) (m : Int64) : Prop :=
  r.meant m.toInt < 2 ^ 63

/-! ## Results that are in range are exact -/

section

variable {a b : Int64}

theorem bmod_exact {x : Int} (h₁ : -2 ^ 63 ≤ x) (h₂ : x < 2 ^ 63) : x.bmod (2 ^ 64) = x :=
  Int.bmod_eq_of_le (by omega) (by omega)

theorem toInt_add_exact (h₁ : -2 ^ 63 ≤ a.toInt + b.toInt) (h₂ : a.toInt + b.toInt < 2 ^ 63) :
    (a + b).toInt = a.toInt + b.toInt := by
  rw [Int64.toInt_add, bmod_exact h₁ h₂]

theorem toInt_sub_exact (h₁ : -2 ^ 63 ≤ a.toInt - b.toInt) (h₂ : a.toInt - b.toInt < 2 ^ 63) :
    (a - b).toInt = a.toInt - b.toInt := by
  rw [Int64.toInt_sub, bmod_exact h₁ h₂]

theorem toInt_mul_exact (h₁ : -2 ^ 63 ≤ a.toInt * b.toInt) (h₂ : a.toInt * b.toInt < 2 ^ 63) :
    (a * b).toInt = a.toInt * b.toInt := by
  rw [Int64.toInt_mul, bmod_exact h₁ h₂]

end

/-! ## One number -/

section

variable {n : Nat} {r : Reading n} {m : Int64}

/-- The number before the comparison. -/
theorem base_exact (h : r.unixNano.toInt * n + r.me < 2 ^ 63) :
    (r.unixNano * .ofNat n + .ofNat r.me).toInt = r.unixNano.toInt * n + r.me := by
  have hprod : 0 ≤ r.unixNano.toInt * n := Int.mul_nonneg r.nonneg (by omega)
  have hi : (Int64.ofNat r.me).toInt = r.me := Int64.toInt_ofNat_of_lt (by omega)
  have hmul : (r.unixNano * .ofNat n).toInt = r.unixNano.toInt * n := by
    rcases Int.lt_or_eq_of_le r.nonneg with hpos | hzero
    · have hle : (n : Int) ≤ r.unixNano.toInt * n := le_mul_of_one_le_left (by omega) hpos
      have hn : (Int64.ofNat n).toInt = n := Int64.toInt_ofNat_of_lt (by omega)
      rw [toInt_mul_exact (by rw [hn]; omega) (by rw [hn]; omega), hn]
    · -- whatever became of the size
      rw [Int64.toInt_mul, ← hzero, Int.zero_mul, Int.zero_mul]
      rfl
  rw [toInt_add_exact (by rw [hmul, hi]; omega) (by rw [hmul, hi]; omega), hmul, hi]

/-- The step up, for a number `b` that is not above `m`. -/
theorem bump_exact {b : Int64} (hn : 0 < n) (hb : 0 ≤ b.toInt) (hle : b.toInt ≤ m.toInt)
    (hfit : m.toInt - (m.toInt - b.toInt) % n + n < 2 ^ 63) :
    (b + ((m - b) - (m - b) % .ofNat n + .ofNat n)).toInt =
      m.toInt - (m.toInt - b.toInt) % n + n := by
  have hr₀ : 0 ≤ (m.toInt - b.toInt) % n := Int.emod_nonneg _ (by omega)
  have hr₁ : (m.toInt - b.toInt) % n ≤ m.toInt - b.toInt := by
    obtain ⟨d, hd⟩ := Int.eq_ofNat_of_zero_le (Int.sub_nonneg_of_le hle)
    rw [hd]
    exact_mod_cast Nat.mod_le d n
  have hm := m.toInt_lt
  have hN : (Int64.ofNat n).toInt = n := Int64.toInt_ofNat_of_lt (by omega)
  have hd : (m - b).toInt = m.toInt - b.toInt := toInt_sub_exact (by omega) (by omega)
  have hr : ((m - b) % .ofNat n).toInt = (m.toInt - b.toInt) % n := by
    rw [Int64.toInt_mod, hd, hN, Int.tmod_eq_emod_of_nonneg (by omega)]
  have hsub : ((m - b) - (m - b) % .ofNat n).toInt =
      m.toInt - b.toInt - (m.toInt - b.toInt) % n := by
    rw [toInt_sub_exact (by rw [hd, hr]; omega) (by rw [hd, hr]; omega), hd, hr]
  have hadd : ((m - b) - (m - b) % .ofNat n + .ofNat n).toInt =
      m.toInt - b.toInt - (m.toInt - b.toInt) % n + n := by
    rw [toInt_add_exact (by rw [hsub, hN]; omega) (by rw [hsub, hN]; omega), hsub, hN]
  rw [toInt_add_exact (by rw [hadd]; omega) (by rw [hadd]; omega), hadd]
  omega

/-- A number that stays in range is the one that is meant. -/
theorem seqNum_meant (h : Fits r m) :
    (seqNum r.unixNano n r.me m).toInt = r.meant m.toInt := by
  have hn : 0 < n := Nat.lt_of_le_of_lt (Nat.zero_le _) r.lt
  have hm := m.toInt_lt
  have hb : 0 ≤ r.unixNano.toInt * n + r.me := by
    have := Int.mul_nonneg r.nonneg (Int.natCast_nonneg n)
    omega
  unfold Fits Reading.meant at h
  unfold seqNum Reading.meant
  simp only at h ⊢
  split at h
  · rename_i hle
    have hbase := base_exact (r := r) (by omega)
    rw [if_pos (by rw [Int64.le_iff_toInt_le, hbase]; exact hle), if_pos hle,
      bump_exact hn (by rw [hbase]; exact hb) (by rw [hbase]; exact hle) (by rw [hbase]; exact h),
      hbase]
  · rename_i hgt
    have hbase := base_exact (r := r) h
    rw [if_neg (by rw [Int64.le_iff_toInt_le, hbase]; exact hgt), if_neg hgt, hbase]

/-- The number that is meant is above the one it has to beat, and is congruent to
the index of its peer. -/
theorem meant_spec (r : Reading n) (m : Int) : m < r.meant m ∧ r.meant m % n = r.me := by
  have hn : 0 < n := Nat.lt_of_le_of_lt (Nat.zero_le _) r.lt
  have hme : (r.me : Int) % n = r.me := Int.emod_eq_of_lt (by omega) (by exact_mod_cast r.lt)
  unfold Reading.meant
  simp only
  split
  · have hlt : (m - (r.unixNano.toInt * n + r.me)) % n < n := Int.emod_lt_of_pos _ (by omega)
    refine ⟨by omega, ?_⟩
    -- what is taken off `m` makes the difference to the base a multiple of `n`
    have hdiv := Int.emod_add_mul_ediv (m - (r.unixNano.toInt * n + r.me)) n
    have heq : m - (m - (r.unixNano.toInt * n + r.me)) % n + n =
        r.me + n * (r.unixNano.toInt + (m - (r.unixNano.toInt * n + r.me)) / n + 1) := by
      linear_combination -hdiv
    rw [heq, Int.add_mul_emod_self_left, hme]
  · refine ⟨by omega, ?_⟩
    rw [Int.add_comm, Int.add_mul_emod_self_right, hme]

theorem seqNum_exact (h : Fits r m) :
    m.toInt < (seqNum r.unixNano n r.me m).toInt ∧
      (seqNum r.unixNano n r.me m).toInt % n = r.me := by
  rw [seqNum_meant h]
  exact meant_spec r m.toInt

end

/-- In a cluster in which every number so far has stayed in range no number
seen is negative. -/
theorem Seen.nonneg {n : Nat} {m : Int64} (h : Seen n Fits m) : 0 ≤ m.toInt := by
  induction h with
  | zero => decide
  | made r _ hfit ih => exact le_trans ih (le_of_lt (seqNum_exact hfit).1)

/-- As long as every number stays in range, a peer's next number is positive,
above every number it has seen and congruent to its index, and differs from
every number of every other peer. The step up is bounded only where it is taken. -/
theorem seqNum_usable (n : Nat) (r : Reading n) (m : Int64) (hm : Seen n Fits m)
    (h : Fits r m) :
    0 < (seqNum r.unixNano n r.me m).toInt ∧ m < seqNum r.unixNano n r.me m ∧
    (seqNum r.unixNano n r.me m).toInt % n = r.me ∧
    ∀ (r' : Reading n) (m' : Int64), r'.me ≠ r.me → Fits r' m' →
      seqNum r'.unixNano n r'.me m' ≠ seqNum r.unixNano n r.me m := by
  obtain ⟨hlt, hmod⟩ := seqNum_exact h
  refine ⟨lt_of_le_of_lt hm.nonneg hlt, Int64.lt_iff_toInt_lt.mpr hlt, hmod, ?_⟩
  intro r' m' hne h' heq
  have hmod' := (seqNum_exact h').2
  rw [heq, hmod] at hmod'
  exact hne (by exact_mod_cast hmod'.symm)

/-- A clock reading of 2026. -/
def autumn (n me : Nat) (h : me < n) : Reading n where
  unixNano := 1790000000000000000
  me := me
  nonneg := by decide
  bound := by decide
  lt := h

theorem seqNum_usable_five :
    0 < (seqNum 1790000000000000000 5 3 0).toInt ∧ (seqNum 1790000000000000000 5 3 0).toInt % 5 = 3 :=
  have h := seqNum_usable 5 (autumn 5 3 (by decide)) 0 .zero (by unfold Fits; decide)
  ⟨h.1, h.2.2.1⟩

/-- Eight peers at `2^61` nanoseconds: the product wraps around to 0, and peer `3`
makes a number that is positive and congruent to `3` all the same. -/
example : seqNum 2305843009213693952 8 3 0 = 3 := by decide

/-- With six peers the product wraps around: peer `0` makes the number `2`, which
is not congruent to `0` modulo `6` and which peer `2` makes at another time. -/
theorem wrapped_number :
    Seen 6 (fun _ _ => True) 0 ∧ (autumn 6 0 (by decide)).unixNano.toInt ≤ 2 ^ 61 ∧
    seqNum (autumn 6 0 (by decide)).unixNano 6 0 0 = 2 ∧
    (seqNum (autumn 6 0 (by decide)).unixNano 6 0 0).toInt % 6 ≠ (0 : Nat) ∧
    seqNum 0 6 2 0 = seqNum (autumn 6 0 (by decide)).unixNano 6 0 0 :=
  ⟨.zero, by decide, by decide, by decide, by decide⟩

end Cmu440.Paxos
