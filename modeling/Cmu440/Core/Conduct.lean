import Cmu440.Core.Calls

/-!
# Programs in surroundings that change

A `Prog` asks questions of its surroundings. A `Host` says what the surroundings
are: what they may do by themselves at any time (`env`), and which answers a
question may get, in which state it leaves them (`ans`). `Conducts E w p w' a`
is a run of the program `p` that begins in `w`, ends in `w'` and returns `a`,
with steps of the surroundings between the calls.

`Triple E P p Q`: every run that begins in `P` ends in `Q`. An assertion has to
survive the steps of the surroundings wherever the program can be overtaken by
them (`Stable`). The rules are the usual ones for returning, asking, sequencing
and loops over a list. `Conducts.of_wp` takes what `Prog.wp` says about the
questions of a program to its runs: an invariant that every admitted question
keeps holds at the end.
-/
namespace Cmu440

structure Host (W Q : Type) (R : Q → Type) where
  env : W → W → Prop
  ans : W → (q : Q) → R q → W → Prop

variable {W Q : Type} {R : Q → Type} {α β γ : Type}

inductive Conducts (E : Host W Q R) : W → Prog Q R α → W → α → Prop
  | ret (w : W) (a : α) : Conducts E w (.ret a) w a
  | env {w w₁ w' : W} {p : Prog Q R α} {a : α} (h : E.env w w₁) (hr : Conducts E w₁ p w' a) :
      Conducts E w p w' a
  | call {w w₁ w' : W} {q : Q} {k : R q → Prog Q R α} {r : R q} {a : α} (h : E.ans w q r w₁)
      (hr : Conducts E w₁ (k r) w' a) : Conducts E w (.call q k) w' a

/-- Every question gets some answer. -/
def Host.Responsive (E : Host W Q R) : Prop := ∀ w q, ∃ r w', E.ans w q r w'

section
variable {E : Host W Q R}

/-- A program whose questions are all answered returns. -/
theorem Host.Responsive.conducts (hE : E.Responsive) (p : Prog Q R α) (w : W) :
    ∃ w' a, Conducts E w p w' a := by
  induction p generalizing w with
  | ret a => exact ⟨w, a, .ret w a⟩
  | call q k ih =>
    obtain ⟨r, w₁, hans⟩ := hE w q
    obtain ⟨w', a, hr⟩ := ih r w₁
    exact ⟨w', a, .call hans hr⟩

theorem Conducts.of_ret {a b : α} {w w' : W} (h : Conducts E w (pure a) w' b) : a = b := by
  generalize hp : (pure a : Prog Q R α) = p at h
  induction h with
  | ret => cases hp; rfl
  | env _ _ ih => exact ih hp
  | call => cases hp

/-- A run of a sequence is a run of its first part and then of its second. -/
theorem Conducts.of_bind {p : Prog Q R α} {f : α → Prog Q R β} {w w' : W} {b : β}
    (h : Conducts E w (p >>= f) w' b) :
    ∃ w₁ a, Conducts E w p w₁ a ∧ Conducts E w₁ (f a) w' b := by
  generalize hq : p >>= f = q at h
  induction h generalizing p with
  | ret w b =>
    cases p with
    | ret a =>
      change f a = _ at hq
      exact ⟨w, a, .ret w a, hq ▸ .ret w b⟩
    | call q k => cases hq
  | env hs _ ih =>
    obtain ⟨w₁, a, h₁, h₂⟩ := ih hq
    exact ⟨w₁, a, .env hs h₁, h₂⟩
  | @call w w₁ w' q k r b hans hr ih =>
    cases p with
    | ret a =>
      change f a = _ at hq
      exact ⟨w, a, .ret w a, hq ▸ .call hans hr⟩
    | call q' k' =>
      cases hq
      obtain ⟨w₂, a, h₁, h₂⟩ := ih rfl
      exact ⟨w₂, a, .call hans h₁, h₂⟩

theorem Conducts.bind {p : Prog Q R α} {f : α → Prog Q R β} {w w₁ w' : W} {a : α} {b : β}
    (h : Conducts E w p w₁ a) (hf : Conducts E w₁ (f a) w' b) : Conducts E w (p >>= f) w' b := by
  induction h with
  | ret => exact hf
  | env hs _ ih => exact .env hs (ih hf)
  | call hs _ ih => exact .call hs (ih hf)

/-- The surroundings may go on after the program has returned. -/
theorem Conducts.append {p : Prog Q R α} {w w₁ w' : W} {a : α} {b b' : β}
    (h : Conducts E w p w₁ a) (hr : Conducts E w₁ (pure b) w' b') : Conducts E w p w' a := by
  have hret : Conducts E w₁ (pure a) w' a := by
    generalize hp : (pure b : Prog Q R β) = p' at hr
    clear h
    induction hr with
    | ret w => exact .ret w a
    | env hs _ ih => exact .env hs (ih hp)
    | call => cases hp
  have := h.bind hret
  rwa [bind_pure] at this

/-- What is kept by every step of the surroundings and by the answer to every
admitted question holds at the end of a program that asks nothing else. -/
theorem Conducts.of_wp {G : Type} {ok : G → Q → Prop} {learn : G → (q : Q) → R q → G}
    {J : G → W → Prop} {P : G → α → Prop} (henv : ∀ g w w', J g w → E.env w w' → J g w')
    (hans : ∀ g w q r w', J g w → ok g q → E.ans w q r w' → J (learn g q r) w')
    {p : Prog Q R α} {w w' : W} {a : α} (h : Conducts E w p w' a) {g : G}
    (hp : Prog.wp ok learn g p P) (hw : J g w) : ∃ g', J g' w' ∧ P g' a := by
  induction h generalizing g with
  | ret => exact ⟨g, hw, hp⟩
  | env hs _ ih => exact ih hp (henv _ _ _ hw hs)
  | call hs _ ih => exact ih (hp.2 _) (hans _ _ _ _ _ hw hp.1 hs)

/-- What every step keeps holds at the end. -/
theorem Conducts.invariant {J : W → Prop} (henv : ∀ w w', J w → E.env w w' → J w')
    (hans : ∀ w q r w', J w → E.ans w q r w' → J w') {p : Prog Q R α} {w w' : W} {a : α}
    (h : Conducts E w p w' a) (hw : J w) : J w' := by
  induction h with
  | ret => exact hw
  | env hs _ ih => exact ih (henv _ _ hw hs)
  | call hs _ ih => exact ih (hans _ _ _ _ hw hs)

end

/-! ## Triples -/

def Stable (E : Host W Q R) (P : W → Prop) : Prop := ∀ w w', P w → E.env w w' → P w'

def Triple (E : Host W Q R) (P : W → Prop) (p : Prog Q R α) (S : α → W → Prop) : Prop :=
  ∀ w w' a, P w → Conducts E w p w' a → S a w'

namespace Triple

variable {E : Host W Q R} {P P' : W → Prop}

theorem ret {a : α} {S : α → W → Prop} (hP : Stable E P) (h : ∀ w, P w → S a w) :
    Triple E P (pure a) S := by
  intro w w' a' hw hr
  generalize hp : (pure a : Prog Q R α) = p at hr
  induction hr with
  | ret w a' => cases hp; exact h w hw
  | env hs _ ih => exact ih (hP _ _ hw hs) hp
  | call => cases hp

theorem ask {q : Q} {S : R q → W → Prop} (hP : Stable E P) (hS : ∀ r, Stable E (S r))
    (h : ∀ w r w', P w → E.ans w q r w' → S r w') : Triple E P (Prog.ask q) S := by
  intro w w' a hw hr
  generalize hp : (Prog.ask q : Prog Q R (R q)) = p at hr
  induction hr with
  | ret => cases hp
  | env hs _ ih => exact ih (hP _ _ hw hs) hp
  | call hans hr =>
    cases hp
    exact Triple.ret (hS _) (fun _ hw => hw) _ _ _ (h _ _ _ hw hans) hr

theorem bind {p : Prog Q R α} {f : α → Prog Q R β} {M : α → W → Prop} {S : β → W → Prop}
    (hp : Triple E P p M) (hf : ∀ a, Triple E (M a) (f a) S) : Triple E P (p >>= f) S := by
  intro w w' b hw hr
  obtain ⟨w₁, a, h₁, h₂⟩ := hr.of_bind
  exact hf a w₁ w' b (hp w w₁ a hw h₁) h₂

theorem conseq {p : Prog Q R α} {S S' : α → W → Prop} (h : Triple E P p S)
    (hP : ∀ w, P' w → P w) (hS : ∀ a w, S a w → S' a w) : Triple E P' p S' :=
  fun w w' a hw hr => hS a w' (h w w' a (hP w hw) hr)

/-- A loop over a list; the assertion knows which part of the list is done. -/
theorem foldlM {f : β → γ → Prog Q R β} {I : List γ → β → W → Prop}
    (hI : ∀ done b, Stable E (I done b)) :
    ∀ (l done : List γ) (b : β),
      (∀ done b, ∀ c ∈ l, Triple E (I done b) (f b c) fun b' => I (done ++ [c]) b') →
      Triple E (I done b) (l.foldlM f b) fun b' => I (done ++ l) b'
  | [], done, b, _ => by
    rw [List.foldlM_nil, List.append_nil]
    exact .ret (hI done b) fun _ hw => hw
  | c :: l, done, b, hf => by
    rw [List.foldlM_cons]
    refine .bind (hf done b c List.mem_cons_self) fun b' => ?_
    have := Triple.foldlM hI l (done ++ [c]) b' fun done b c' hc' =>
      hf done b c' (List.mem_cons_of_mem c hc')
    rwa [List.append_assoc] at this

end Triple

end Cmu440
