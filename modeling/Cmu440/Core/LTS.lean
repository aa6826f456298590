/-!
# Labelled transition systems

The vocabulary every stateful component is stated in. A system is a set of
initial states and a labelled step relation; `Run` chains steps, `Reachable`
closes the initial states under runs. A property that holds initially and is
kept by every step (`Inductive`) holds of every reachable state, and a
relation that every concrete step can follow in an abstract system
(`Simulation`) carries reachability over.

A system given by a partial step function (`ofFn`) can also be executed on a
list of labels (`exec`), so a schedule can be evaluated.
-/
namespace Cmu440

structure LTS (S L : Type) where
  init : S → Prop
  step : S → L → S → Prop

namespace LTS

variable {S L T K : Type}

inductive Run (M : LTS S L) : S → List L → S → Prop
  | nil (s : S) : Run M s [] s
  | cons {s s₁ s' : S} {l : L} {ls : List L} :
      M.step s l s₁ → Run M s₁ ls s' → Run M s (l :: ls) s'

def Reachable (M : LTS S L) (s : S) : Prop := ∃ s₀ ls, M.init s₀ ∧ M.Run s₀ ls s

/-- `I` holds initially and every step keeps it. -/
structure Inductive (M : LTS S L) (I : S → Prop) : Prop where
  init : ∀ s, M.init s → I s
  step : ∀ s l s', I s → M.step s l s' → I s'

theorem Run.invariant {M : LTS S L} {I : S → Prop} (hstep : ∀ s l s', I s → M.step s l s' → I s')
    {s s' : S} {ls : List L} (hr : M.Run s ls s') (h : I s) : I s' := by
  induction hr with
  | nil => exact h
  | cons hs _ ih => exact ih (hstep _ _ _ h hs)

theorem Inductive.reachable {M : LTS S L} {I : S → Prop} (h : M.Inductive I) (s : S)
    (hr : M.Reachable s) : I s := by
  obtain ⟨s₀, ls, h₀, hrun⟩ := hr
  exact hrun.invariant h.step (h.init s₀ h₀)

/-- A measure that every step lowers, as long as `I` holds, bounds the length of runs. -/
theorem Run.length_le {M : LTS S L} {I : S → Prop} {w : S → Nat}
    (hstep : ∀ s l s', I s → M.step s l s' → I s' ∧ w s' < w s)
    {s s' : S} {ls : List L} (hr : M.Run s ls s') (h : I s) : ls.length + w s' ≤ w s := by
  induction hr with
  | nil => exact Nat.le_of_eq (Nat.zero_add _)
  | cons hs _ ih =>
    obtain ⟨hI, hlt⟩ := hstep _ _ _ h hs
    have hle := ih hI
    rw [List.length_cons]
    omega

theorem Run.append {M : LTS S L} {a b c : S} {l₁ l₂ : List L} (h₁ : M.Run a l₁ b)
    (h₂ : M.Run b l₂ c) : M.Run a (l₁ ++ l₂) c := by
  induction h₁ with
  | nil => exact h₂
  | cons hs _ ih => exact .cons hs (ih h₂)

theorem Run.single {M : LTS S L} {s s' : S} {l : L} (h : M.step s l s') : M.Run s [l] s' :=
  .cons h (.nil s')

theorem Reachable.run {M : LTS S L} {s s' : S} {ls : List L} (hr : M.Reachable s)
    (h : M.Run s ls s') : M.Reachable s' := by
  obtain ⟨s₀, ls₀, h₀, hrun⟩ := hr
  exact ⟨s₀, ls₀ ++ ls, h₀, hrun.append h⟩

theorem Reachable.step {M : LTS S L} {s s' : S} {l : L} (hr : M.Reachable s)
    (h : M.step s l s') : M.Reachable s' :=
  hr.run (.single h)

/-! ## Simulation -/

/-- Every concrete step from a related pair is followed by a (possibly empty)
abstract run that restores the relation. -/
structure Simulation (C : LTS S L) (A : LTS T K) (R : S → T → Prop) : Prop where
  init : ∀ s, C.init s → ∃ t, A.init t ∧ R s t
  step : ∀ s t l s', R s t → C.step s l s' → ∃ ks t', A.Run t ks t' ∧ R s' t'

theorem Simulation.reachable {C : LTS S L} {A : LTS T K} {R : S → T → Prop}
    (h : Simulation C A R) (s : S) (hr : C.Reachable s) : ∃ t, A.Reachable t ∧ R s t := by
  obtain ⟨s₀, ls, h₀, hrun⟩ := hr
  obtain ⟨t₀, ht₀, hR₀⟩ := h.init s₀ h₀
  have key : ∃ ks t, A.Run t₀ ks t ∧ R s t := by
    clear ht₀ h₀
    induction hrun generalizing t₀ with
    | nil => exact ⟨[], t₀, .nil _, hR₀⟩
    | cons hs _ ih =>
      obtain ⟨ks₁, t₁, hr₁, hR₁⟩ := h.step _ _ _ _ hR₀ hs
      obtain ⟨ks₂, t, hr₂, hR⟩ := ih t₁ hR₁
      exact ⟨ks₁ ++ ks₂, t, hr₁.append hr₂, hR⟩
  obtain ⟨ks, t, hrt, hR⟩ := key
  exact ⟨t, ⟨t₀, ks, ht₀, hrt⟩, hR⟩

/-! ## Systems given by a step function -/

/-- The system whose steps are the defined values of `f`. -/
def ofFn (init : S → Prop) (f : S → L → Option S) : LTS S L where
  init := init
  step s l s' := f s l = some s'

/-- The steps of `f` that `g` admits. -/
def guarded (g : S → L → Bool) (f : S → L → Option S) (s : S) (l : L) : Option S :=
  if g s l then f s l else none

theorem guarded_eq_some {g : S → L → Bool} {f : S → L → Option S} {s s' : S} {l : L} :
    guarded g f s l = some s' ↔ g s l = true ∧ f s l = some s' := by
  unfold guarded
  split
  · rename_i h; simp [h]
  · rename_i h; simp [h]

theorem reachable_of_guarded {init : S → Prop} {g : S → L → Bool} {f : S → L → Option S} {s : S}
    (h : (ofFn init (guarded g f)).Reachable s) : (ofFn init f).Reachable s := by
  obtain ⟨s₀, ls, h₀, hrun⟩ := h
  refine ⟨s₀, ls, h₀, ?_⟩
  clear h₀
  induction hrun with
  | nil => exact .nil _
  | cons hst _ ih => exact .cons (guarded_eq_some.mp hst).2 ih

def exec (f : S → L → Option S) : S → List L → Option S
  | s, [] => some s
  | s, l :: ls => (f s l).bind fun s₁ => exec f s₁ ls

theorem run_of_exec {init : S → Prop} {f : S → L → Option S} :
    ∀ {s : S} {ls : List L} {s' : S}, exec f s ls = some s' → (ofFn init f).Run s ls s'
  | s, [], s', h => by
    simp only [exec, Option.some.injEq] at h
    subst h; exact .nil s
  | s, l :: ls, s', h => by
    simp only [exec, Option.bind_eq_some_iff] at h
    obtain ⟨s₁, h₁, h₂⟩ := h
    exact .cons h₁ (run_of_exec h₂)

/-- Where the schedule `ls` leads; `s` itself if some step is not enabled. -/
def execD (f : S → L → Option S) (s : S) (ls : List L) : S := (exec f s ls).getD s

theorem run_execD {init : S → Prop} {f : S → L → Option S} {s : S} {ls : List L}
    (h : (exec f s ls).isSome = true) : (ofFn init f).Run s ls (execD f s ls) := by
  obtain ⟨s', hs'⟩ := Option.isSome_iff_exists.mp h
  apply run_of_exec
  rw [execD, hs']
  rfl

end LTS

/-! ## Processes in a list

A system that keeps its processes in a list starts one by appending it and moves
one by setting its entry. -/

theorem getElem?_started {α : Type} {l : List α} {x y : α} {i : Nat}
    (h : (l ++ [x])[i]? = some y) : l[i]? = some y ∨ i = l.length ∧ y = x := by
  rcases Nat.lt_trichotomy i l.length with hlt | rfl | hgt
  · rw [List.getElem?_append_left hlt] at h
    exact .inl h
  · rw [List.getElem?_concat_length] at h
    exact .inr ⟨rfl, (Option.some.inj h).symm⟩
  · have hlen : (l ++ [x]).length ≤ i := by
      simp only [List.length_append, List.length_singleton]
      omega
    rw [List.getElem?_eq_none hlen] at h
    cases h

theorem getElem?_moved {α : Type} {l : List α} {x y : α} {i j : Nat}
    (h : (l.set i x)[j]? = some y) : (j ≠ i ∧ l[j]? = some y) ∨ j = i ∧ y = x := by
  by_cases hj : j = i
  · subst hj
    rw [List.getElem?_set] at h
    simp only [if_true] at h
    split at h
    · exact .inr ⟨rfl, (Option.some.inj h).symm⟩
    · cases h
  · rw [List.getElem?_set_ne (Ne.symm hj)] at h
    exact .inl ⟨hj, h⟩

end Cmu440
