/-!
# Exchange sort

The sort that compares `a[i]` with every `a[j]` behind it and exchanges the two
when they are out of order:

    for i { for j > i { if key(a[i]) > key(a[j]) { a[i], a[j] = a[j], a[i] } } }

On a list, `pass` is the inner loop: `x` is `a[i]`, the list is what follows, and
the result is the new `a[i]` and the new rest. `sort n` is the outer loop for
`i < n`. A pass leaves a smallest element in front (`pass_le`), so after as many
passes as there are elements the list is in order (`sort_sorted`).
-/
namespace Cmu440.Exchange

open Std

variable {α κ : Type} [LT κ] [DecidableLT κ] (key : α → κ)

def pass (x : α) : List α → α × List α
  | [] => (x, [])
  | y :: ys =>
    if key y < key x then ((pass y ys).1, x :: (pass y ys).2)
    else ((pass x ys).1, y :: (pass x ys).2)

def sort : Nat → List α → List α
  | n + 1, x :: xs => (pass key x xs).1 :: sort n (pass key x xs).2
  | _, l => l

theorem pass_perm (x : α) (l : List α) : ((pass key x l).1 :: (pass key x l).2).Perm (x :: l) := by
  induction l generalizing x with
  | nil => exact .refl _
  | cons y ys ih =>
    unfold pass
    split
    · exact (List.Perm.swap _ _ _).trans ((ih y).cons x)
    · exact ((List.Perm.swap _ _ _).trans ((ih x).cons y)).trans (.swap _ _ _)

theorem sort_perm (n : Nat) (l : List α) : (sort key n l).Perm l := by
  induction n generalizing l with
  | zero => cases l <;> exact .refl _
  | succ n ih =>
    cases l with
    | nil => exact .refl _
    | cons x xs => exact ((ih _).cons _).trans (pass_perm key x xs)

variable [LE κ] [IsLinearOrder κ] [LawfulOrderLT κ]

theorem pass_le (x : α) (l : List α) : ∀ y ∈ x :: l, key (pass key x l).1 ≤ key y := by
  induction l generalizing x with
  | nil =>
    intro y hy
    rw [List.mem_singleton.mp hy]
    exact Std.le_refl _
  | cons z zs ih =>
    intro y hy
    unfold pass
    split
    · rename_i hlt
      rcases List.mem_cons.mp hy with rfl | hy
      · exact Std.le_trans (ih z z List.mem_cons_self) (Std.le_of_lt hlt)
      · exact ih z y hy
    · rename_i hge
      rcases List.mem_cons.mp hy with rfl | hy
      · exact ih y y List.mem_cons_self
      · rcases List.mem_cons.mp hy with rfl | hy
        · exact Std.le_trans (ih x x List.mem_cons_self) (Std.not_lt.mp hge)
        · exact ih x y (List.mem_cons_of_mem x hy)

theorem sort_sorted {n : Nat} {l : List α} (h : l.length ≤ n) :
    (sort key n l).Pairwise fun a b => key a ≤ key b := by
  induction n generalizing l with
  | zero =>
    rw [List.eq_nil_of_length_eq_zero (Nat.le_zero.mp h)]
    exact .nil
  | succ n ih =>
    cases l with
    | nil => exact .nil
    | cons x xs =>
      have hlen : (pass key x xs).2.length = xs.length :=
        Nat.succ.inj (pass_perm key x xs).length_eq
      refine .cons (fun y hy => ?_) (ih (hlen ▸ Nat.le_of_succ_le_succ h))
      -- what is sorted next came out of the pass, so it was there before it
      have hrest : y ∈ (pass key x xs).2 := (sort_perm key n _).mem_iff.mp hy
      exact pass_le key x xs y ((pass_perm key x xs).mem_iff.mp (List.mem_cons_of_mem _ hrest))

end Cmu440.Exchange
