import Cmu440.Core.Calls
import Mathlib.Data.List.Forall2

/-!
# Programs and the answers they may get

A `Prog` is a tree of questions. Given which answers each question may get
(`Answers`), a program yields some results and asks some questions: `Yields` and
`Asks` say which, and `Reaches` what can be left of it on the way. The rules for
returning, asking and sequencing turn a statement about a program into one about
the answers it was given, part by part. Where the answers only depend on a state
that nobody changes, this is all there is to know about a program
(`exists_yields` is that it ends); where they come from somewhere else, what
has been answered is a fact, and a finished program yields its result from facts.

`gather` runs programs beside each other and collects their results: whenever two
of them have a question to ask, `pick` decides whose comes first. The results are
those that the programs yield one by one (`yields_gather`).
-/
namespace Cmu440.Prog

variable {Q : Type} {R : Q → Type} {α β : Type}

abbrev Answers (Q : Type) (R : Q → Type) : Type := (q : Q) → R q → Prop

/-- The program can return `b`. -/
def Yields (A : Answers Q R) : Prog Q R α → α → Prop
  | ret a, b => a = b
  | call q k, b => ∃ r, A q r ∧ Yields A (k r) b

/-- The program can come to ask `q'`. -/
def Asks (A : Answers Q R) : Prog Q R α → Q → Prop
  | ret _, _ => False
  | call q k, q' => q = q' ∨ ∃ r, A q r ∧ Asks A (k r) q'

/-- The program can come to have `p` left to do. -/
inductive Reaches (A : Answers Q R) : Prog Q R α → Prog Q R α → Prop
  | refl (p : Prog Q R α) : Reaches A p p
  | step {q : Q} {k : R q → Prog Q R α} {r : R q} {p : Prog Q R α} (h : A q r)
      (hr : Reaches A (k r) p) : Reaches A (call q k) p

section

variable {A B : Answers Q R} {p : Prog Q R α} {q : Q}

/-- A program ends if what it asks is answered. -/
theorem exists_yields (h : ∀ q, Asks A p q → ∃ r, A q r) :
    ∃ a, Yields A p a := by
  induction p with
  | ret a => exact ⟨a, rfl⟩
  | call q k ih =>
    obtain ⟨r, hr⟩ := h q (.inl rfl)
    obtain ⟨a, ha⟩ := ih r fun q' hq' => h q' (.inr ⟨r, hr, hq'⟩)
    exact ⟨a, r, hr, ha⟩

/-- Only the answers to what is asked matter. -/
theorem yields_congr {a : α} (h : ∀ q, Asks A p q → ∀ r, A q r ↔ B q r) :
    Yields A p a ↔ Yields B p a := by
  induction p with
  | ret b => exact Iff.rfl
  | call q k ih =>
    have hq := h q (.inl rfl)
    constructor
    · rintro ⟨r, hr, ha⟩
      exact ⟨r, (hq r).mp hr, (ih r fun q' hq' => h q' (.inr ⟨r, hr, hq'⟩)).mp ha⟩
    · rintro ⟨r, hr, ha⟩
      have hr := (hq r).mpr hr
      exact ⟨r, hr, (ih r fun q' hq' => h q' (.inr ⟨r, hr, hq'⟩)).mpr ha⟩

@[simp] theorem yields_pure {a b : α} : Yields A (pure a : Prog Q R α) b ↔ a = b := Iff.rfl

@[simp] theorem yields_ask {r : R q} : Yields A (ask q) r ↔ A q r := by
  simp [ask, Yields]

@[simp] theorem yields_bind {f : α → Prog Q R β} {b : β} :
    Yields A (p >>= f) b ↔ ∃ a, Yields A p a ∧ Yields A (f a) b := by
  induction p with
  | ret a => exact ⟨fun h => ⟨a, rfl, h⟩, fun ⟨_, rfl, h⟩ => h⟩
  | call q k ih =>
    constructor
    · rintro ⟨r, hr, h⟩
      obtain ⟨a, ha, hb⟩ := (ih r).mp h
      exact ⟨a, ⟨r, hr, ha⟩, hb⟩
    · rintro ⟨a, ⟨r, hr, ha⟩, hb⟩
      exact ⟨r, hr, (ih r).mpr ⟨a, ha, hb⟩⟩

@[simp] theorem asks_pure {a : α} : ¬ Asks A (pure a : Prog Q R α) q := id

@[simp] theorem asks_ask {q q' : Q} : Asks A (ask q : Prog Q R (R q)) q' ↔ q = q' := by
  simp [ask, Asks]

@[simp] theorem asks_bind {f : α → Prog Q R β} :
    Asks A (p >>= f) q ↔ Asks A p q ∨ ∃ a, Yields A p a ∧ Asks A (f a) q := by
  induction p with
  | ret a =>
    constructor
    · exact fun h => .inr ⟨a, rfl, h⟩
    · rintro (h | ⟨_, rfl, h⟩)
      · exact h.elim
      · exact h
  | call q' k ih =>
    constructor
    · rintro (h | ⟨r, hr, h⟩)
      · exact .inl (.inl h)
      · rcases (ih r).mp h with h | ⟨a, ha, h⟩
        · exact .inl (.inr ⟨r, hr, h⟩)
        · exact .inr ⟨a, ⟨r, hr, ha⟩, h⟩
    · rintro ((h | ⟨r, hr, h⟩) | ⟨a, ⟨r, hr, ha⟩, h⟩)
      · exact .inl h
      · exact .inr ⟨r, hr, (ih r).mpr (.inl h)⟩
      · exact .inr ⟨r, hr, (ih r).mpr (.inr ⟨a, ha, h⟩)⟩

@[simp] theorem asks_map {f : α → β} :
    Asks A (f <$> p) q ↔ Asks A p q := by
  rw [← bind_pure_comp]
  simp only [asks_bind, asks_pure, and_false, exists_false, or_false]

@[simp] theorem yields_ite {c : Prop} [Decidable c] {p p' : Prog Q R α} {a : α} :
    Yields A (if c then p else p') a ↔ (c ∧ Yields A p a) ∨ (¬ c ∧ Yields A p' a) := by
  by_cases h : c <;> simp [h]

@[simp] theorem asks_ite {c : Prop} [Decidable c] {p p' : Prog Q R α} :
    Asks A (if c then p else p') q ↔ (c ∧ Asks A p q) ∨ (¬ c ∧ Asks A p' q) := by
  by_cases h : c <;> simp [h]

theorem Reaches.mono {p p' : Prog Q R α} (h : Reaches A p p') (hAB : ∀ q r, A q r → B q r) :
    Reaches B p p' := by
  induction h with
  | refl p => exact .refl p
  | step hr _ ih => exact .step (hAB _ _ hr) ih

/-- One more answer. -/
theorem Reaches.answer {k : R q → Prog Q R α} {r : R q} (h : Reaches A p (call q k)) (hr : A q r) :
    Reaches A p (k r) := by
  generalize hp : call q k = p' at h
  induction h with
  | refl =>
    cases hp
    exact .step hr (.refl _)
  | step hr' _ ih => exact .step hr' (ih hp)

theorem Reaches.asks {k : R q → Prog Q R α} (h : Reaches A p (call q k)) : Asks A p q := by
  generalize hp : call q k = p' at h
  induction h with
  | refl =>
    cases hp
    exact .inl rfl
  | step hr _ ih => exact .inr ⟨_, hr, ih hp⟩

/-- What can be left after a question is put first: all of it, or what comes after. -/
theorem Reaches.of_ask_bind {f : R q → Prog Q R β} {p' : Prog Q R β}
    (h : Reaches A (ask q >>= f) p') : p' = call q f ∨ ∃ r, A q r ∧ Reaches A (f r) p' := by
  generalize hp : ask q >>= f = p₀ at h
  cases h with
  | refl => exact .inl hp.symm
  | step hr h =>
    cases hp
    exact .inr ⟨_, hr, h⟩

end

/-! ## Programs beside each other -/

section

variable (pick : Q) (left : R pick → Bool)

/-- `par`, where the first program asks `x` next; `k` is `par` of what comes after. -/
def parAfter {x : Q} (p : Prog Q R α) (k : R x → Prog Q R β → Prog Q R (α × β)) :
    Prog Q R β → Prog Q R (α × β)
  | ret b => p >>= fun a => pure (a, b)
  | call y l => call pick fun r =>
      if left r then call x fun v => k v (call y l) else call y fun v => parAfter p k (l v)

/-- Both programs, their questions in any order. -/
def par : Prog Q R α → Prog Q R β → Prog Q R (α × β)
  | ret a, p => p >>= fun b => pure (a, b)
  | call x k, p => parAfter pick left (call x k) (fun v => par (k v)) p

def gather : List (Prog Q R α) → Prog Q R (List α)
  | [] => pure []
  | p :: ps => par pick left p (gather ps) >>= fun r => pure (r.1 :: r.2)

variable {pick left} {A : Answers Q R}

theorem yields_par {p : Prog Q R α} {p' : Prog Q R β} {a : α} {b : β}
    (h : Yields A (par pick left p p') (a, b)) : Yields A p a ∧ Yields A p' b := by
  induction p generalizing p' with
  | ret a' =>
    obtain ⟨b', hb, heq⟩ := yields_bind.mp h
    cases yields_pure.mp heq
    exact ⟨rfl, hb⟩
  | call x k ih =>
    unfold par at h
    induction p' with
    | ret b' =>
      obtain ⟨a', ha, heq⟩ := yields_bind.mp h
      cases yields_pure.mp heq
      exact ⟨ha, rfl⟩
    | call y l ih' =>
      obtain ⟨r, -, h⟩ := h
      dsimp only at h
      split at h
      · obtain ⟨v, hv, h⟩ := h
        obtain ⟨ha, hb⟩ := ih v h
        exact ⟨⟨v, hv, ha⟩, hb⟩
      · obtain ⟨v, hv, h⟩ := h
        obtain ⟨ha, hb⟩ := ih' v h
        exact ⟨ha, ⟨v, hv, hb⟩⟩

theorem asks_par {p : Prog Q R α} {p' : Prog Q R β} {q : Q}
    (h : Asks A (par pick left p p') q) : pick = q ∨ Asks A p q ∨ Asks A p' q := by
  induction p generalizing p' with
  | ret a' =>
    rcases asks_bind.mp h with h | ⟨_, _, h⟩
    · exact .inr (.inr h)
    · exact (asks_pure h).elim
  | call x k ih =>
    unfold par at h
    induction p' with
    | ret b' =>
      rcases asks_bind.mp h with h | ⟨_, _, h⟩
      · exact .inr (.inl h)
      · exact (asks_pure h).elim
    | call y l ih' =>
      rcases h with h | ⟨r, -, h⟩
      · exact .inl h
      dsimp only at h
      split at h
      · rcases h with h | ⟨v, hv, h⟩
        · exact .inr (.inl (.inl h))
        · rcases ih v h with h | h | h
          · exact .inl h
          · exact .inr (.inl (.inr ⟨v, hv, h⟩))
          · exact .inr (.inr h)
      · rcases h with h | ⟨v, hv, h⟩
        · exact .inr (.inr (.inl h))
        · rcases ih' v h with h | h | h
          · exact .inl h
          · exact .inr (.inl h)
          · exact .inr (.inr (.inr ⟨v, hv, h⟩))

theorem yields_gather {ps : List (Prog Q R α)} {as : List α}
    (h : Yields A (gather pick left ps) as) : List.Forall₂ (Yields A) ps as := by
  induction ps generalizing as with
  | nil =>
    cases yields_pure.mp h
    exact .nil
  | cons p ps ih =>
    obtain ⟨⟨a, as'⟩, hr, heq⟩ := yields_bind.mp h
    cases yields_pure.mp heq
    obtain ⟨ha, has⟩ := yields_par hr
    exact .cons ha (ih has)

theorem asks_gather {ps : List (Prog Q R α)} {q : Q} (h : Asks A (gather pick left ps) q) :
    pick = q ∨ ∃ p ∈ ps, Asks A p q := by
  induction ps with
  | nil => exact (asks_pure h).elim
  | cons p ps ih =>
    rcases asks_bind.mp h with h | ⟨_, _, h⟩
    · rcases asks_par h with h | h | h
      · exact .inl h
      · exact .inr ⟨p, List.mem_cons_self, h⟩
      · rcases ih h with h | ⟨p', hp', h⟩
        · exact .inl h
        · exact .inr ⟨p', List.mem_cons_of_mem p hp', h⟩
    · exact (asks_pure h).elim

end

end Cmu440.Prog
