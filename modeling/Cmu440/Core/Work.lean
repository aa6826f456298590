import Mathlib.Data.List.AList
import Mathlib.Algebra.Order.Group.Multiset
import Mathlib.Data.Multiset.Filter

/-!
# Work in parts

A job that is cut into parts, the workers that hold them, and the best of their
answers.

* `Job`: the parts a job was cut into, those still to do and the answers so far.
  `Job.Ok` says that the parts are distinct and each is to do or answered, once;
  an answer to a part that was to do keeps it (`Ok.answer`), and when nothing is
  left to do the answers are those of the parts (`Ok.answered`).
* `occupied`: what the workers of a map hold, with multiplicity. Inserting a
  worker and erasing one are described by what they add and take away.
* `best`: the running minimum of a list of answers `(value, argument)` below a
  `top`. If each answer is the minimum of a function over its own set, the best
  one is the minimum over the union (`IsMinimum.best`).
-/
namespace Cmu440

/-! ## Jobs -/

structure Job (U R : Type) where
  parts : Multiset U
  todo : Multiset U
  answers : List (U × R)

namespace Job

variable {U R : Type}

def answered (j : Job U R) : Multiset U := ↑(j.answers.map Prod.fst)

structure Ok (j : Job U R) : Prop where
  nodup : j.parts.Nodup
  split : j.todo + j.answered = j.parts

/-- The job of which nothing has been answered. -/
def start (parts : Multiset U) : Job U R := ⟨parts, parts, []⟩

theorem Ok.start {parts : Multiset U} (h : parts.Nodup) : (start parts : Job U R).Ok :=
  ⟨h, add_zero parts⟩

theorem Ok.answer {j : Job U R} (h : j.Ok) {u : U} {todo : Multiset U} (hu : j.todo = u ::ₘ todo)
    (r : R) : Ok ⟨j.parts, todo, j.answers ++ [(u, r)]⟩ := by
  refine ⟨h.nodup, ?_⟩
  have hadd : answered ⟨j.parts, todo, j.answers ++ [(u, r)]⟩ = u ::ₘ j.answered := by
    rw [answered, List.map_append, ← Multiset.coe_add, add_comm]
    rfl
  rw [hadd, Multiset.add_cons, ← Multiset.cons_add, ← hu]
  exact h.split

theorem mem_answered {j : Job U R} {u : U} : u ∈ j.answered ↔ ∃ r, (u, r) ∈ j.answers := by
  rw [answered, Multiset.mem_coe, List.mem_map]
  constructor
  · rintro ⟨⟨_, r⟩, hm, rfl⟩
    exact ⟨r, hm⟩
  · rintro ⟨r, hm⟩
    exact ⟨(u, r), hm, rfl⟩

theorem Ok.answered {j : Job U R} (h : j.Ok) (h0 : j.todo = 0) : j.answered = j.parts := by
  rw [← h.split, h0, zero_add]

/-- A part that has not been answered is to do exactly once. -/
theorem Ok.count_todo [DecidableEq U] {j : Job U R} (h : j.Ok) {u : U} (hu : u ∈ j.parts)
    (hn : u ∉ j.answered) : j.todo.count u = 1 := by
  have hone : j.parts.count u = 1 := Multiset.count_eq_one_of_mem h.nodup hu
  rw [← h.split, Multiset.count_add, Multiset.count_eq_zero_of_notMem hn] at hone
  exact hone

theorem Ok.mem_parts {j : Job U R} (h : j.Ok) {u : U} {r : R} (hm : (u, r) ∈ j.answers) :
    u ∈ j.parts := by
  rw [← h.split, Multiset.mem_add]
  exact .inr (mem_answered.mpr ⟨r, hm⟩)

end Job

/-! ## Workers -/

section Workers

variable {K U : Type} [DecidableEq K]

/-- What the workers of `m` hold. -/
def occupied (m : AList fun _ : K => Option U) : Multiset U := ↑(m.entries.filterMap fun e => e.2)

theorem occupied_insert (m : AList fun _ : K => Option U) (k : K) (o : Option U) :
    occupied (m.insert k o) = ↑o.toList + occupied (m.erase k) := by
  rw [occupied, AList.entries_insert]
  cases o with
  | none => exact (zero_add _).symm
  | some u => rfl

theorem occupied_of_lookup {m : AList fun _ : K => Option U} {k : K} {o : Option U}
    (h : m.lookup k = some o) : occupied m = ↑o.toList + occupied (m.erase k) := by
  have hperm : m.entries.Perm (m.insert k o).entries := by
    refine List.lookup_ext m.nodupKeys (m.insert k o).nodupKeys fun k' o' => ?_
    show o' ∈ m.lookup k' ↔ o' ∈ (m.insert k o).lookup k'
    by_cases hk : k' = k
    · rw [hk, AList.lookup_insert, h]
    · rw [AList.lookup_insert_ne hk]
  rw [← occupied_insert]
  exact Multiset.coe_eq_coe.mpr (hperm.filterMap _)

theorem occupied_erase_of_notMem {m : AList fun _ : K => Option U} {k : K} (h : k ∉ m) :
    occupied (m.erase k) = occupied m := by
  have hkeys : (m.erase k).entries = m.entries := List.kerase_of_notMem_keys h
  rw [occupied, occupied, hkeys]

theorem mem_occupied {m : AList fun _ : K => Option U} {u : U} :
    u ∈ occupied m ↔ ∃ k, m.lookup k = some (some u) := by
  constructor
  · intro h
    obtain ⟨e, he, heu⟩ := List.mem_filterMap.mp (Multiset.mem_coe.mp h)
    refine ⟨e.1, ?_⟩
    rw [← heu]
    exact AList.mem_lookup_iff.mpr he
  · rintro ⟨k, hk⟩
    rw [occupied_of_lookup hk]
    exact Multiset.mem_add.mpr (.inl (Multiset.mem_singleton_self u))

theorem lookup_of_insert {m : AList fun _ : K => Option U} {k k' : K} {o o' : Option U}
    (h : (m.insert k o).lookup k' = some o') : o' = o ∨ m.lookup k' = some o' := by
  by_cases hk : k' = k
  · subst hk
    rw [AList.lookup_insert] at h
    exact .inl (Option.some.inj h).symm
  · rw [AList.lookup_insert_ne hk] at h
    exact .inr h

theorem lookup_of_erase {m : AList fun _ : K => Option U} {k k' : K} {o : Option U}
    (h : (m.erase k).lookup k' = some o) : m.lookup k' = some o := by
  by_cases hk : k' = k
  · subst hk
    rw [AList.lookup_erase] at h
    cases h
  · rw [AList.lookup_erase_ne hk] at h
    exact h

/-- The number of workers that hold a part with `p`. -/
def workersOn (m : AList fun _ : K => Option U) (p : U → Prop) [DecidablePred p] : Nat :=
  m.keys.countP fun k => (m.lookup k).join.any p

theorem countP_occupied (m : AList fun _ : K => Option U) (p : U → Prop) [DecidablePred p] :
    (occupied m).countP p = workersOn m p := by
  have hkeys : workersOn m p = m.entries.countP fun e => e.2.any p := by
    rw [workersOn, AList.keys, List.keys, List.countP_map]
    refine List.countP_congr ?_
    intro e he
    have hlook : m.lookup e.1 = some e.2 := AList.mem_lookup_iff.mpr he
    simp only [Function.comp_apply, hlook, Option.join_some]
  rw [hkeys, occupied, Multiset.coe_countP, List.countP_filterMap]
  refine List.countP_congr ?_
  intro e _
  cases e.2 <;> simp

end Workers

/-! ## The best answer -/

/-- `value` is the minimum of `f` over `S`, and `arg` attains it if it is below
`top`. -/
structure IsMinimum {H I : Type} [LE H] [LT H] (f : I → H) (top : H) (S : I → Prop) (value : H)
    (arg : I) : Prop where
  le : ∀ i, S i → value ≤ f i
  attained : value < top → S arg ∧ f arg = value

theorem IsMinimum.congr {H I : Type} [LE H] [LT H] {f : I → H} {top : H} {S T : I → Prop}
    {value : H} {arg : I}
    (h : IsMinimum f top S value arg) (hiff : ∀ i, S i ↔ T i) : IsMinimum f top T value arg := by
  refine ⟨fun i hi => h.le i ((hiff i).mpr hi), ?_⟩
  intro hlt
  rw [← hiff arg]
  exact h.attained hlt

section Best

open Std

variable {H I : Type} [LT H] [DecidableLT H]

/-- The answer to keep of the one kept so far and a new one. -/
def better (kept new : H × I) : H × I := if new.1 < kept.1 then new else kept

/-- The running minimum, which starts at `(top, arg)`. -/
def best (top : H) (arg : I) (answers : List (H × I)) : H × I := answers.foldl better (top, arg)

theorem better_eq (kept new : H × I) : better kept new = kept ∨ better kept new = new := by
  unfold better
  split
  · exact .inr rfl
  · exact .inl rfl

theorem foldl_better_mem (kept : H × I) (answers : List (H × I)) :
    answers.foldl better kept = kept ∨ answers.foldl better kept ∈ answers := by
  induction answers generalizing kept with
  | nil => exact .inl rfl
  | cons b rest ih =>
    rcases ih (better kept b) with h | h
    · rw [List.foldl_cons, h]
      rcases better_eq kept b with hb | hb
      · exact .inl hb
      · rw [hb]
        exact .inr List.mem_cons_self
    · exact .inr (List.mem_cons_of_mem b h)

theorem best_append (top : H) (arg : I) (answers : List (H × I)) (new : H × I) :
    best top arg (answers ++ [new]) = better (best top arg answers) new := by
  rw [best, List.foldl_append]
  rfl

variable [LE H] [IsLinearOrder H] [LawfulOrderLT H]

theorem better_le_left (kept new : H × I) : (better kept new).1 ≤ kept.1 := by
  unfold better
  split
  · rename_i h; exact Std.le_of_lt h
  · exact Std.le_refl _

theorem better_le_right (kept new : H × I) : (better kept new).1 ≤ new.1 := by
  unfold better
  split
  · exact Std.le_refl _
  · rename_i h; exact Std.not_lt.mp h

theorem foldl_better_le (kept : H × I) (answers : List (H × I)) :
    (answers.foldl better kept).1 ≤ kept.1 := by
  induction answers generalizing kept with
  | nil => exact Std.le_refl _
  | cons a rest ih => exact Std.le_trans (ih _) (better_le_left kept a)

theorem foldl_better_le_mem (kept : H × I) {answers : List (H × I)} {a : H × I}
    (h : a ∈ answers) : (answers.foldl better kept).1 ≤ a.1 := by
  induction answers generalizing kept with
  | nil => cases h
  | cons b rest ih =>
    rcases List.mem_cons.mp h with rfl | h
    · exact Std.le_trans (foldl_better_le _ rest) (better_le_right kept a)
    · exact ih _ h

/-- The best of minima over sets is the minimum over their union. -/
theorem IsMinimum.best {X : Type} {f : I → H} {top : H} {S : X → I → Prop} {l : List X}
    (answer : X → H × I) (arg : I)
    (h : ∀ x ∈ l, IsMinimum f top (S x) (answer x).1 (answer x).2) :
    IsMinimum f top (fun i => ∃ x ∈ l, S x i) (best top arg (l.map answer)).1
      (best top arg (l.map answer)).2 := by
  refine ⟨?_, ?_⟩
  · rintro i ⟨x, hx, hi⟩
    have hle := foldl_better_le_mem (top, arg) (List.mem_map_of_mem (f := answer) hx)
    exact Std.le_trans hle ((h x hx).le i hi)
  · intro hlt
    rcases foldl_better_mem (top, arg) (l.map answer) with heq | hmem
    · unfold Cmu440.best at hlt
      rw [heq] at hlt
      exact absurd hlt (Std.not_lt.mpr (Std.le_refl _))
    · obtain ⟨x, hx, hxe⟩ := List.mem_map.mp hmem
      unfold Cmu440.best at hlt ⊢
      rw [← hxe] at hlt ⊢
      obtain ⟨hs, hf⟩ := (h x hx).attained hlt
      exact ⟨⟨x, hx, hs⟩, hf⟩

end Best

end Cmu440
