/-!
# Programs that make calls

A client program as a tree: it returns, or it asks a question of its
environment and continues with the answer. What the environment does with the
question is left to the system the program runs in, so one program text serves
for every way in which calls can fail.

`wp` is the weakest precondition of a program with a ghost record `g` of what
it has learned: each question it asks must be admitted by `ok`, each answer is
added by `learn`. The rules for sequencing and for loops over a list are the
ones a proof about such a program needs.
-/
namespace Cmu440

inductive Prog (Q : Type) (R : Q → Type) (α : Type) : Type
  | ret (a : α)
  | call (q : Q) (k : R q → Prog Q R α)

namespace Prog

variable {Q : Type} {R : Q → Type} {G α β γ : Type}

def bind : Prog Q R α → (α → Prog Q R β) → Prog Q R β
  | ret a, f => f a
  | call q k, f => call q fun r => (k r).bind f

instance : Monad (Prog Q R) where
  pure := ret
  bind := bind

theorem bind_ret (p : Prog Q R α) : p.bind ret = p := by
  induction p with
  | ret a => rfl
  | call q k ih => exact congrArg (call q) (funext ih)

theorem bind_bind (p : Prog Q R α) (f : α → Prog Q R β) (h : β → Prog Q R γ) :
    (p.bind f).bind h = p.bind fun a => (f a).bind h := by
  induction p with
  | ret a => rfl
  | call q k ih => exact congrArg (call q) (funext ih)

instance : LawfulMonad (Prog Q R) := LawfulMonad.mk' _ bind_ret (fun _ _ => rfl) bind_bind

def ask (q : Q) : Prog Q R (R q) := call q ret

section
variable (ok : G → Q → Prop) (learn : G → (q : Q) → R q → G)

/-- Every question the program asks is admitted, whatever the answers, and it
ends in `P`. -/
def wp : G → Prog Q R α → (G → α → Prop) → Prop
  | g, ret a, P => P g a
  | g, call q k, P => ok g q ∧ ∀ r, wp (learn g q r) (k r) P

variable {ok learn}

theorem wp_bind {p : Prog Q R α} {f : α → Prog Q R β} {P : G → β → Prop} :
    ∀ {g : G}, wp ok learn g p (fun g' a => wp ok learn g' (f a) P) →
      wp ok learn g (p >>= f) P := by
  intro g h
  induction p generalizing g with
  | ret a => exact h
  | call q k ih => exact ⟨h.1, fun r => ih r (h.2 r)⟩

theorem wp_mono {p : Prog Q R α} {P P' : G → α → Prop} (hP : ∀ g a, P g a → P' g a) :
    ∀ {g : G}, wp ok learn g p P → wp ok learn g p P' := by
  intro g h
  induction p generalizing g with
  | ret a => exact hP g a h
  | call q k ih => exact ⟨h.1, fun r => ih r (h.2 r)⟩

/-- More questions are admitted. -/
theorem wp_admit {ok' : G → Q → Prop} (hok : ∀ g q, ok g q → ok' g q) {p : Prog Q R α}
    {P : G → α → Prop} : ∀ {g : G}, wp ok learn g p P → wp ok' learn g p P := by
  intro g h
  induction p generalizing g with
  | ret a => exact h
  | call q k ih => exact ⟨hok g q h.1, fun r => ih r (h.2 r)⟩

theorem wp_ask {g : G} {q : Q} {P : G → R q → Prop} (hok : ok g q)
    (h : ∀ r, P (learn g q r) r) : wp ok learn g (ask q) P :=
  ⟨hok, h⟩

/-- A loop over a list keeps an invariant that each iteration keeps. -/
theorem wp_foldlM {f : β → γ → Prog Q R β} {I : G → β → Prop} :
    ∀ {l : List γ} {g : G} {b : β}, I g b →
      (∀ c ∈ l, ∀ g b, I g b → wp ok learn g (f b c) I) → wp ok learn g (l.foldlM f b) I
  | [], _, _, h, _ => h
  | c :: l, g, b, h, hf => by
    rw [List.foldlM_cons]
    refine wp_bind (wp_mono (fun g' b' h' => ?_) (hf c List.mem_cons_self g b h))
    exact wp_foldlM h' fun c' hc' => hf c' (List.mem_cons_of_mem c hc')

end

end Prog

end Cmu440
