import Cmu440.Bitcoin.Conserve
import Mathlib.Data.Nat.SuccPred
import Mathlib.Order.SuccPred.IntervalSucc

/-!
# How a job is cut

`partitionJob` gives a range of up to `MinerWorkloadThreshold` nonces to one
miner and cuts a longer one into as many units as there are miners, each of
`(upper-lower+1)/numOfMiner` nonces, the last one with what is left. All of it in
`uint64`: the length of the whole of `uint64` wraps to 0 and stays in one piece.

The units stand between the cut points `lower + i*interval`, of which the last is
moved to the end of the range (`cutPoint`). Those are increasing, so the units
tile the range, if nothing wraps. With more miners than nonces `interval` is 0
and every unit but the last is `[lower, lower-1]`. That is empty, except from 0
on, where it is everything (`cut_from_zero_overlaps`); in every other case the
range is tiled (`partitionJob_tiles_iff`).
-/
namespace Cmu440.Bitcoin

/-- The units share out the nonces of the range. -/
structure Message.TiledBy (msg : Message) (units : List WorkUnit) : Prop where
  inside : ∀ u ∈ units, ∀ i, u.workMsg.InRange i → msg.InRange i
  disjoint : units.Pairwise fun u v => ∀ i, ¬ (u.workMsg.InRange i ∧ v.workMsg.InRange i)
  covered : ∀ i, msg.InRange i → ∃ u ∈ units, u.workMsg.InRange i

/-- The number of nonces from `lower` to `upper`. -/
def Message.size (msg : Message) : Nat :=
  msg.upper.toNat - msg.lower.toNat + 1

/-- Where the unit `i` of `n` begins and the one before it ends. -/
def Message.cutPoint (msg : Message) (n i : Nat) : Nat :=
  if n ≤ i then msg.upper.toNat + 1 else msg.lower.toNat + i * (msg.size / n)

namespace Message

variable {msg : Message} {n : Nat}

/-- `upper-lower+1`, unless that is the whole of `uint64`. -/
theorem toNat_length (hle : msg.lower ≤ msg.upper) (hsize : msg.size < 2 ^ 64) :
    (msg.upper - msg.lower + 1).toNat = msg.size := by
  unfold size at *
  rw [UInt64.toNat_add, UInt64.toNat_sub_of_le _ _ hle, UInt64.toNat_one]
  exact Nat.mod_eq_of_lt hsize

theorem mul_interval_le (hle : msg.lower ≤ msg.upper) {i : Nat} (hi : i ≤ n) :
    msg.lower.toNat + i * (msg.size / n) ≤ msg.upper.toNat + 1 := by
  have hlu : msg.lower.toNat ≤ msg.upper.toNat := UInt64.le_iff_toNat_le.mp hle
  have hmul : i * (msg.size / n) ≤ msg.size :=
    (Nat.mul_le_mul_right _ hi).trans (Nat.mul_div_le msg.size n)
  unfold size at *
  omega

/-- A unit begins inside the range, also when it is empty. -/
theorem mul_interval_lt (hle : msg.lower ≤ msg.upper) {i : Nat} (hi : i < n) :
    msg.lower.toNat + i * (msg.size / n) ≤ msg.upper.toNat := by
  have hlu : msg.lower.toNat ≤ msg.upper.toNat := UInt64.le_iff_toNat_le.mp hle
  have hnext : msg.lower.toNat + (i + 1) * (msg.size / n) ≤ msg.upper.toNat + 1 :=
    mul_interval_le hle hi
  rw [Nat.succ_mul] at hnext
  rcases Nat.eq_zero_or_pos (msg.size / n) with hzero | hpos
  · rw [hzero]
    omega
  · omega

theorem cutPoint_mono (hle : msg.lower ≤ msg.upper) : Monotone (msg.cutPoint n) := by
  intro i j hij
  unfold cutPoint
  split <;> split
  · exact le_rfl
  · omega
  · exact mul_interval_le hle (by omega)
  · exact Nat.add_le_add_left (Nat.mul_le_mul_right _ hij) _

theorem cutPoint_zero (hn : 0 < n) : msg.cutPoint n 0 = msg.lower.toNat := by
  unfold cutPoint
  rw [if_neg (by omega), Nat.zero_mul, Nat.add_zero]

theorem cutPoint_last : msg.cutPoint n n = msg.upper.toNat + 1 := by
  unfold cutPoint
  rw [if_pos le_rfl]

theorem inRange_iff_toNat {i : UInt64} :
    msg.InRange i ↔ msg.lower.toNat ≤ i.toNat ∧ i.toNat ≤ msg.upper.toNat := by
  unfold InRange
  rw [UInt64.le_iff_toNat_le, UInt64.le_iff_toNat_le]

end Message

namespace Scheduler

/-- The unit `i` of a job that is cut for `n` miners. -/
def cutUnit (s : Scheduler) (connId : Int) (msg : Message) (n i : Nat) : WorkUnit :=
  let interval := (msg.upper - msg.lower + 1) / UInt64.ofNat n
  let currLower := msg.lower + UInt64.ofNat i * interval
  let currUpper := if i = n - 1 then msg.upper else currLower + interval - 1
  ⟨s.allocated + i, connId, newRequest msg.data currLower currUpper⟩

theorem cutJob_eq (s : Scheduler) (connId : Int) (msg : Message) (n : Nat) :
    s.cutJob connId msg n = (List.range n).map (s.cutUnit connId msg n) := rfl

section

variable (s : Scheduler) (connId : Int) {msg : Message} {n i : Nat}

theorem toNat_interval (hle : msg.lower ≤ msg.upper) (hsize : msg.size < 2 ^ 64)
    (hn : n < 2 ^ 64) :
    ((msg.upper - msg.lower + 1) / UInt64.ofNat n).toNat = msg.size / n := by
  rw [UInt64.toNat_div, Message.toNat_length hle hsize, UInt64.toNat_ofNat_of_lt' hn]

/-- A unit begins at its cut point. -/
theorem cutUnit_lower (hle : msg.lower ≤ msg.upper) (hsize : msg.size < 2 ^ 64)
    (hn : n < 2 ^ 64) (hi : i < n) :
    (s.cutUnit connId msg n i).workMsg.lower.toNat = msg.cutPoint n i := by
  have hbound := (Message.mul_interval_lt hle hi).trans_lt msg.upper.toNat_lt
  show (msg.lower + UInt64.ofNat i * ((msg.upper - msg.lower + 1) / UInt64.ofNat n)).toNat = _
  unfold Message.cutPoint
  rw [if_neg (by omega), UInt64.toNat_add, UInt64.toNat_mul, toNat_interval hle hsize hn,
    UInt64.toNat_ofNat_of_lt' (hi.trans hn), Nat.add_mod_mod, Nat.mod_eq_of_lt hbound]

/-- A unit ends just before the next cut point, if that is not 0. -/
theorem cutUnit_upper (hle : msg.lower ≤ msg.upper) (hsize : msg.size < 2 ^ 64)
    (hn : n < 2 ^ 64) (hi : i < n) (hpos : msg.lower = 0 → n ≤ msg.size) :
    (s.cutUnit connId msg n i).workMsg.upper.toNat + 1 = msg.cutPoint n (i + 1) := by
  by_cases hlast : i = n - 1
  · have hu : (s.cutUnit connId msg n i).workMsg.upper = msg.upper := if_pos hlast
    rw [hu, show i + 1 = n by omega, Message.cutPoint_last]
  have hi' : i + 1 < n := by omega
  have hnext : msg.cutPoint n (i + 1) = msg.cutPoint n i + msg.size / n := by
    unfold Message.cutPoint
    rw [if_neg (by omega), if_neg (by omega), Nat.succ_mul, Nat.add_assoc]
  have hbound : msg.cutPoint n (i + 1) ≤ msg.upper.toNat := by
    unfold Message.cutPoint
    rw [if_neg (by omega)]
    exact Message.mul_interval_lt hle hi'
  have hone : 1 ≤ msg.cutPoint n (i + 1) := by
    by_cases hzero : msg.lower = 0
    · have := Nat.div_pos (hpos hzero) (by omega)
      omega
    · have hlower : 0 < msg.lower.toNat :=
        Nat.pos_of_ne_zero fun h => hzero (UInt64.toNat_inj.mp h)
      have := Message.cutPoint_mono (n := n) hle (Nat.zero_le (i + 1))
      rw [Message.cutPoint_zero (by omega)] at this
      omega
  have hsum : ((s.cutUnit connId msg n i).workMsg.lower
      + (msg.upper - msg.lower + 1) / UInt64.ofNat n).toNat = msg.cutPoint n (i + 1) := by
    rw [UInt64.toNat_add, s.cutUnit_lower connId hle hsize hn hi, toNat_interval hle hsize hn,
      ← hnext]
    exact Nat.mod_eq_of_lt (hbound.trans_lt msg.upper.toNat_lt)
  have hu : (s.cutUnit connId msg n i).workMsg.upper = (s.cutUnit connId msg n i).workMsg.lower
      + (msg.upper - msg.lower + 1) / UInt64.ofNat n - 1 := if_neg hlast
  rw [hu, UInt64.toNat_sub_of_le _ _ (UInt64.le_iff_toNat_le.mpr (by rw [hsum]; exact hone)), hsum]
  exact Nat.sub_add_cancel hone

theorem inRange_cutUnit (hle : msg.lower ≤ msg.upper) (hsize : msg.size < 2 ^ 64)
    (hn : n < 2 ^ 64) (hi : i < n) (hpos : msg.lower = 0 → n ≤ msg.size) {x : UInt64} :
    (s.cutUnit connId msg n i).workMsg.InRange x
      ↔ x.toNat ∈ Set.Ico (msg.cutPoint n i) (msg.cutPoint n (i + 1)) := by
  rw [Message.inRange_iff_toNat, s.cutUnit_lower connId hle hsize hn hi,
    ← s.cutUnit_upper connId hle hsize hn hi hpos, Set.mem_Ico, Nat.lt_succ_iff]

/-- The units between the cut points tile the range. -/
theorem cutJob_tiles (hle : msg.lower ≤ msg.upper) (hsize : msg.size < 2 ^ 64)
    (hn : n < 2 ^ 64) (hn0 : 0 < n) (hpos : msg.lower = 0 → n ≤ msg.size) :
    msg.TiledBy (s.cutJob connId msg n) := by
  have hmono := Message.cutPoint_mono (n := n) hle
  have hunit := fun {i : Nat} (hi : i < n) {x : UInt64} =>
    s.inRange_cutUnit connId (x := x) hle hsize hn hi hpos
  rw [cutJob_eq]
  refine ⟨?_, ?_, ?_⟩
  · intro u hu x hx
    obtain ⟨i, hi, rfl⟩ := List.mem_map.mp hu
    have hi := List.mem_range.mp hi
    obtain ⟨hlow, hup⟩ := (hunit hi).mp hx
    have hfirst := hmono (Nat.zero_le i)
    have hlast : msg.cutPoint n (i + 1) ≤ msg.cutPoint n n := hmono hi
    rw [Message.cutPoint_zero hn0] at hfirst
    rw [Message.cutPoint_last] at hlast
    exact Message.inRange_iff_toNat.mpr ⟨hfirst.trans hlow, by omega⟩
  · refine List.pairwise_map.mpr (List.Pairwise.imp_of_mem ?_ List.pairwise_lt_range)
    intro i j hi hj hij x ⟨hx, hx'⟩
    have hx := (hunit (List.mem_range.mp hi)).mp hx
    have hx' := (hunit (List.mem_range.mp hj)).mp hx'
    exact Set.disjoint_left.mp (hmono.pairwise_disjoint_on_Ico_succ hij.ne) hx hx'
  · intro x hx
    obtain ⟨hlow, hup⟩ := Message.inRange_iff_toNat.mp hx
    -- `x` lies between two cut points, as `x + 1` does with the ends the other way round
    have hmem : x.toNat + 1 ∈ Set.Ioc (msg.cutPoint n 0) (msg.cutPoint n n) := by
      rw [Message.cutPoint_zero hn0, Message.cutPoint_last]
      exact ⟨by omega, by omega⟩
    rw [← hmono.biUnion_Ico_Ioc_map_succ 0 n] at hmem
    obtain ⟨i, hi, hmem⟩ := Set.mem_iUnion₂.mp hmem
    refine ⟨_, List.mem_map.mpr ⟨i, List.mem_range.mpr hi.2, rfl⟩, (hunit hi.2).mpr ?_⟩
    exact ⟨Nat.lt_succ_iff.mp hmem.1, hmem.2⟩

end

/-- A job that is not cut. -/
theorem single_tiles (msg : Message) (u : WorkUnit) (hl : u.workMsg.lower = msg.lower)
    (hu : u.workMsg.upper = msg.upper) : msg.TiledBy [u] := by
  have hrange : ∀ i, u.workMsg.InRange i ↔ msg.InRange i := by
    intro i
    unfold Message.InRange
    rw [hl, hu]
  refine ⟨?_, List.pairwise_singleton _ _, fun i hi =>
    ⟨u, List.mem_singleton_self u, (hrange i).mpr hi⟩⟩
  intro v hv i hi
  rw [List.mem_singleton.mp hv] at hi
  exact (hrange i).mp hi

theorem numOfMiner_pos (s : Scheduler) : 0 < s.numOfMiner := by
  unfold numOfMiner
  split <;> omega

theorem pushJob_status (s : Scheduler) (connId : Int) (units : List WorkUnit) (jobs : Nat) :
    (s.pushJob connId units jobs).clients.lookup connId = some (newClientStatus jobs) :=
  AList.lookup_insert _

/-- The units of a new job tile the range the client asked for, and there are as
many as its status says; unless the range begins at 0 and, cut for more miners
than it has nonces, is cut at all. The number of miners is an `int`. -/
theorem partitionJob_tiles (s : Scheduler) (connId : Int) (msg : Message)
    (hle : msg.lower ≤ msg.upper) (hint : s.numOfMiner < 2 ^ 63)
    (hfit : msg.lower = 0 → minerWorkloadThreshold.toNat < msg.size → s.numOfMiner ≤ msg.size) :
    ∃ units st, (s.partitionJob connId msg).jobQ = s.jobQ ++ units ∧ msg.TiledBy units ∧
      (s.partitionJob connId msg).clients.lookup connId = some st ∧
      st.notFinishedJob = units.length := by
  unfold partitionJob
  split
  · exact ⟨_, _, rfl, single_tiles msg _ rfl rfl, pushJob_status .., rfl⟩
  · rename_i hlong
    have hlong := UInt64.lt_iff_toNat_lt.mp (UInt64.not_le.mp hlong)
    -- the length did not wrap, or it would be 0
    have hsize : msg.size < 2 ^ 64 := by
      by_contra hbig
      rw [UInt64.toNat_add, UInt64.toNat_sub_of_le _ _ hle, UInt64.toNat_one] at hlong
      have hupper := msg.upper.toNat_lt
      unfold Message.size at hbig
      omega
    rw [Message.toNat_length hle hsize] at hlong
    refine ⟨_, _, rfl, s.cutJob_tiles connId hle hsize (hint.trans (by decide)) s.numOfMiner_pos
      fun hzero => hfit hzero hlong, pushJob_status .., ?_⟩
    rw [length_cutJob]
    rfl

/-- A range that is longer than the threshold is cut. -/
theorem partitionJob_cut (s : Scheduler) (connId : Int) {msg : Message}
    (hle : msg.lower ≤ msg.upper) (hsize : msg.size < 2 ^ 64)
    (hlong : minerWorkloadThreshold.toNat < msg.size) :
    s.partitionJob connId msg =
      s.pushJob connId (s.cutJob connId msg s.numOfMiner) s.numOfMiner := by
  have hcut : ¬ msg.upper - msg.lower + 1 ≤ minerWorkloadThreshold := by
    rw [UInt64.le_iff_toNat_le, Message.toNat_length hle hsize]
    omega
  unfold partitionJob
  rw [if_neg hcut]

/-- From 0 on and with more units than nonces the first unit ends at `0 - 1`. -/
theorem cutUnit_wraps (s : Scheduler) (connId : Int) {msg : Message} {n : Nat}
    (hzero : msg.lower = 0) (hle : msg.lower ≤ msg.upper) (hsize : msg.size < 2 ^ 64)
    (hn : n < 2 ^ 64) (hmany : msg.size < n) :
    (s.cutUnit connId msg n 0).workMsg.upper = maxUint64 := by
  have hpos : 0 < msg.size := Nat.succ_pos _
  have hinterval : (msg.upper - msg.lower + 1) / UInt64.ofNat n = 0 := by
    apply UInt64.toNat_inj.mp
    rw [toNat_interval hle hsize hn, Nat.div_eq_of_lt hmany]
    rfl
  have hu : (s.cutUnit connId msg n 0).workMsg.upper = msg.lower + UInt64.ofNat 0
      * ((msg.upper - msg.lower + 1) / UInt64.ofNat n)
      + (msg.upper - msg.lower + 1) / UInt64.ofNat n - 1 := if_neg (by omega)
  rw [hu, hinterval, hzero]
  decide

/-- The condition is the exact one: otherwise the first unit has the nonce
`2^64-1`, which the range has not. -/
theorem partitionJob_tiles_iff (s : Scheduler) (connId : Int) (msg : Message)
    (hle : msg.lower ≤ msg.upper) (hint : s.numOfMiner < 2 ^ 63) :
    (∃ units st, (s.partitionJob connId msg).jobQ = s.jobQ ++ units ∧ msg.TiledBy units ∧
      (s.partitionJob connId msg).clients.lookup connId = some st ∧
      st.notFinishedJob = units.length) ↔
    (msg.lower = 0 → minerWorkloadThreshold.toNat < msg.size → s.numOfMiner ≤ msg.size) := by
  refine ⟨?_, s.partitionJob_tiles connId msg hle hint⟩
  rintro ⟨units, -, hq, htiled, -⟩ hzero hlong
  by_contra hmany
  have hsize : msg.size < 2 ^ 64 := by omega
  rw [s.partitionJob_cut connId hle hsize hlong] at hq
  have hunits := List.append_cancel_left hq
  have hfirst : s.cutUnit connId msg s.numOfMiner 0 ∈ units := by
    rw [← hunits, cutJob_eq]
    exact List.mem_map.mpr ⟨0, List.mem_range.mpr s.numOfMiner_pos, rfl⟩
  have hwraps := s.cutUnit_wraps connId hzero hle hsize (by omega) (Nat.lt_of_not_le hmany)
  have hmem : (s.cutUnit connId msg s.numOfMiner 0).workMsg.InRange maxUint64 := by
    refine ⟨?_, hwraps ▸ UInt64.le_refl _⟩
    exact UInt64.le_iff_toNat_le.mpr (Nat.le_of_lt_succ (UInt64.toNat_lt _))
  have hlast := UInt64.le_iff_toNat_le.mp (htiled.inside _ hfirst _ hmem).2
  rw [show maxUint64.toNat = 2 ^ 64 - 1 from rfl] at hlast
  unfold Message.size at hsize
  rw [hzero] at hsize
  simp only [UInt64.toNat_zero] at hsize
  omega

/-- Two miners and a request for twice the threshold. -/
theorem partitionJob_tiles_two :
    let s := (init.free 1).free 2
    let msg := newRequest "" 0 19999
    s.numOfMiner = 2 ∧ ∃ units st, (s.partitionJob 3 msg).jobQ = s.jobQ ++ units ∧
      msg.TiledBy units ∧ (s.partitionJob 3 msg).clients.lookup 3 = some st ∧
      st.notFinishedJob = units.length :=
  ⟨by decide, (partitionJob_tiles_iff ((init.free 1).free 2) 3 (newRequest "" 0 19999) (by decide)
    (by decide)).mpr (by decide)⟩

/-! ## More miners than nonces -/

/-- The server after the connections 1 to `k` have joined. -/
def joined : Nat → Scheduler
  | 0 => init
  | k + 1 => (joined k).free (k + 1)

theorem mem_joined {k : Nat} {c : Int} (h : c ∈ (joined k).minerCurrWork) : c ≤ k := by
  induction k with
  | zero => exact absurd h (AList.notMem_empty c)
  | succ k ih =>
    rcases (AList.mem_insert _).mp h with rfl | h
    · exact le_rfl
    · have := ih h
      omega

theorem length_joined (k : Nat) : (joined k).minerCurrWork.keys.length = k := by
  induction k with
  | zero => rfl
  | succ k ih =>
    have hnew : (k + 1 : Int) ∉ (joined k).minerCurrWork.keys := fun h => by
      have := mem_joined (AList.mem_keys.mpr h)
      omega
    simp only [joined, free, AList.keys_insert, List.length_cons, List.erase_of_not_mem hnew, ih]

/-- A request for the nonces from 0 to 10000, with 10002 miners: `interval` is 0, and
all units but the last go from 0 to `0 - 1`. -/
theorem cut_from_zero_overlaps :
    let s := joined 10002
    let msg := newRequest "" 0 10000
    (∀ k : Nat, (joined k).handleIncomeMessage (k + 1) (some newJoin) = some (joined (k + 1), [])) ∧
    s.numOfMiner = 10002 ∧ msg.lower ≤ msg.upper ∧
    (∃ u v units, (s.partitionJob 0 msg).jobQ = s.jobQ ++ u :: v :: units ∧
      u.workMsg = newRequest "" 0 maxUint64 ∧ v.workMsg = newRequest "" 0 maxUint64) ∧
    ¬ msg.InRange maxUint64 := by
  intro s msg
  have hn : s.numOfMiner = 10002 := by
    unfold numOfMiner
    rw [length_joined]
    rfl
  refine ⟨fun _ => rfl, hn, by decide, ?_, by decide⟩
  have hcut : s.partitionJob 0 msg = s.pushJob 0 (s.cutJob 0 msg 10002) 10002 := by
    unfold partitionJob
    rw [if_neg (by decide), hn]
  have hrange : List.range 10002 = 0 :: 1 :: (List.range 10000).map (· + 2) := by
    rw [List.range_succ_eq_map, List.range_succ_eq_map]
    simp
  refine ⟨s.cutUnit 0 msg 10002 0, s.cutUnit 0 msg 10002 1,
    ((List.range 10000).map (· + 2)).map (s.cutUnit 0 msg 10002), ?_, by decide, by decide⟩
  rw [hcut, pushJob, cutJob_eq, hrange, List.map_cons, List.map_cons]

end Scheduler
end Cmu440.Bitcoin
