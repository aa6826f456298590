import Cmu440.Core.Answers
import Cmu440.Core.LTS

/-!
# Threads that share a world

Requests are served beside each other, each by the program of its own. A `Pool` is
the world they share, and for each request what is left of its program. A step
starts a request, or lets one thread ask its next question; `op` is what the
question does to the world and how it is answered, which depends on a choice of
the surroundings. Nothing else is atomic, so the runs are all interleavings.

`FactRule` is the rule to reason about a pool. The world has an invariant `I`, and
`A i w` are the answers that are facts in `w` for thread `i`: a fact stays one,
whatever is done to the world, and every answer that the thread is given is one of
its facts from then on. Then a thread is
always at a place that its program reaches with facts for answers
(`FactRule.reachable`). So what a thread asks is admitted by what it was told, and
what it returns its program yields.
-/
namespace Cmu440

open Prog

variable {W Req Q C : Type} {R : Q → Type} {α : Type}

structure Pool (W Req Q : Type) (R : Q → Type) (α : Type) where
  world : W
  threads : List (Req × Prog Q R α)

inductive PoolLbl (Req C : Type)
  | start (req : Req)
  | act (i : Nat) (c : C)

namespace Pool

/-- `op w req c q`: what the question `q` of `req` does in `w`. -/
def step (prog : Req → Prog Q R α) (op : W → Req → C → (q : Q) → Option (R q × W))
    (p : Pool W Req Q R α) : PoolLbl Req C → Option (Pool W Req Q R α)
  | .start req => some { p with threads := p.threads ++ [(req, prog req)] }
  | .act i c =>
    match p.threads[i]? with
    | some (req, call q k) =>
      (op p.world req c q).map fun a => ⟨a.2, p.threads.set i (req, k a.1)⟩
    | _ => none

section

variable {prog : Req → Prog Q R α} {op : W → Req → C → (q : Q) → Option (R q × W)}
  {p p' : Pool W Req Q R α}

/-- What a thread does: it asks, and goes on with the answer. -/
theorem step_act {i : Nat} {c : C} (h : p.step prog op (.act i c) = some p') :
    ∃ req q k r w, p.threads[i]? = some (req, call q k) ∧ op p.world req c q = some (r, w) ∧
      p' = ⟨w, p.threads.set i (req, k r)⟩ := by
  simp only [step] at h
  split at h
  · rename_i hthread
    obtain ⟨a, ha, rfl⟩ := Option.map_eq_some_iff.mp h
    exact ⟨_, _, _, a.1, a.2, hthread, ha, rfl⟩
  · cases h

/-- A thread that has returned has nothing more to do. -/
theorem step_returned {l : PoolLbl Req C} (h : p.step prog op l = some p') {i : Nat} {req : Req}
    {a : α} (hi : p.threads[i]? = some (req, ret a)) : p'.threads[i]? = some (req, ret a) := by
  cases l with
  | start req' =>
    cases h
    exact List.getElem?_append_left (List.getElem?_eq_some_iff.mp hi).1 ▸ hi
  | act j c =>
    obtain ⟨req', q, k, r, w, hj, -, rfl⟩ := step_act h
    have hne : j ≠ i := by
      rintro rfl
      rw [hi] at hj
      cases hj
    exact (List.getElem?_set_ne hne).trans hi

theorem run_returned {init : Pool W Req Q R α → Prop} {g : Pool W Req Q R α → PoolLbl Req C → Bool}
    {ls : List (PoolLbl Req C)}
    (h : (LTS.ofFn init (LTS.guarded g (Pool.step prog op))).Run p ls p') {i : Nat} {req : Req}
    {a : α} (hi : p.threads[i]? = some (req, ret a)) : p'.threads[i]? = some (req, ret a) := by
  induction h with
  | nil => exact hi
  | cons hst _ ih => exact ih (step_returned (LTS.guarded_eq_some.mp hst).2 hi)

end

end Pool

/-- How the number of threads with a property changes when one of them moves. -/
theorem countP_moved {τ : Type} {l : List τ} {i : Nat} {x y : τ} (h : l[i]? = some x)
    (s : τ → Bool) :
    (l.set i y).countP s + (if s x then 1 else 0) = l.countP s + if s y then 1 else 0 := by
  obtain ⟨hi, rfl⟩ := List.getElem?_eq_some_iff.mp h
  rw [List.countP_set hi]
  have hpos : s l[i] = true → 0 < l.countP s := fun hs =>
    List.countP_pos_iff.mpr ⟨_, List.getElem_mem hi, hs⟩
  by_cases hs : s l[i] = true
  · have := hpos hs
    rw [if_pos hs]
    omega
  · rw [if_neg hs]
    omega

/-- See the module's introduction. `g` says which steps are allowed. -/
def FactRule (prog : Req → Prog Q R α) (op : W → Req → C → (q : Q) → Option (R q × W))
    (g : Pool W Req Q R α → PoolLbl Req C → Bool) (I : W → Prop) (A : Nat → W → Answers Q R) : Prop :=
  ∀ (p : Pool W Req Q R α) (i : Nat) (c : C) (req : Req) (q : Q) (k : R q → Prog Q R α)
    (r : R q) (w : W), I p.world → g p (.act i c) = true →
    p.threads[i]? = some (req, call q k) → Asks (A i p.world) (prog req) q →
    op p.world req c q = some (r, w) →
    I w ∧ A i w q r ∧ ∀ j q' r', A j p.world q' r' → A j w q' r'

namespace FactRule

variable {prog : Req → Prog Q R α} {op : W → Req → C → (q : Q) → Option (R q × W)}
  {g : Pool W Req Q R α → PoolLbl Req C → Bool} {I : W → Prop} {A : Nat → W → Answers Q R}

theorem invariant {init : Pool W Req Q R α → Prop} (h : FactRule prog op g I A)
    (hinit : ∀ p, init p → I p.world ∧ p.threads = []) :
    (LTS.ofFn init (LTS.guarded g (Pool.step prog op))).Inductive fun p =>
      I p.world ∧ ∀ i t, p.threads[i]? = some t → Reaches (A i p.world) (prog t.1) t.2 where
  init p hp := by
    obtain ⟨hI, hnil⟩ := hinit p hp
    exact ⟨hI, by simp [hnil]⟩
  step p l p' hp hstep := by
    obtain ⟨hI, hthreads⟩ := hp
    obtain ⟨hg, hstep⟩ := LTS.guarded_eq_some.mp hstep
    cases l with
    | start req =>
      cases hstep
      refine ⟨hI, fun i t ht => ?_⟩
      rw [List.getElem?_append] at ht
      split at ht
      · exact hthreads i t ht
      · rw [List.mem_singleton.mp (List.mem_of_getElem? ht)]
        exact .refl _
    | act i c =>
      obtain ⟨req, q, k, r, w, hthread, hop, rfl⟩ := Pool.step_act hstep
      have hreach := hthreads i _ hthread
      obtain ⟨hI', hfact, hmono⟩ := h p i c req q k r w hI hg hthread hreach.asks hop
      refine ⟨hI', fun j t ht => ?_⟩
      by_cases hij : i = j
      · subst hij
        rw [List.getElem?_set_self (List.getElem?_eq_some_iff.mp hthread).1] at ht
        cases ht
        exact (hreach.mono (hmono i)).answer hfact
      · rw [List.getElem?_set_ne hij] at ht
        exact (hthreads j t ht).mono (hmono j)

/-- In every state that is reached, the invariant holds and each thread is where
facts have led its program. -/
theorem reachable {init : Pool W Req Q R α → Prop} (h : FactRule prog op g I A)
    (hinit : ∀ p, init p → I p.world ∧ p.threads = []) {p : Pool W Req Q R α}
    (hr : (LTS.ofFn init (LTS.guarded g (Pool.step prog op))).Reachable p) :
    I p.world ∧ ∀ i t, p.threads[i]? = some t → Reaches (A i p.world) (prog t.1) t.2 :=
  (h.invariant hinit).reachable p hr

end FactRule

end Cmu440
