import Cmu440.Core.LTS
import Mathlib.Data.Finset.Max
import Mathlib.Logic.Function.Basic

/-!
# Threads that lock mutexes

Threads run operations; the code of an operation is a list of actions: to lock or
unlock a mutex, or to run something else, which may change shared data and put
more actions in front of the rest (a branch, a loop, a call).

A `Discipline` says which mutexes may be locked while others are held, and with
which mutexes held the other actions run. A thread whose code `Keeps` it holds
the mutexes of a stack that can be read off its code. If the mutexes have ranks
and the discipline only ever goes up, no set of threads that keep it is
deadlocked (`Mutexes.Ordered.not_deadlocked`). An operation may keep several
disciplines, and a set of threads needs only one in common.
-/
namespace Cmu440

inductive Act (M X : Type)
  | lock (m : M)
  | unlock (m : M)
  | run (x : X)
  deriving DecidableEq, Repr

/-- The code of the operations `O`, and what the actions `X` do to the data `D`;
`C` are the choices that are not determined by the data. -/
structure Machine (M X D C O : Type) where
  code : O → List (Act M X)
  exec : D → C → X → D × List (Act M X)

structure Thread (M X O : Type) where
  op : O
  code : List (Act M X)

structure Mutexes (M X D O : Type) where
  data : D
  owner : M → Option Nat
  threads : List (Thread M X O)

inductive MutexLbl (C O : Type)
  | start (op : O)
  | run (t : Nat) (choice : C)

variable {M X D C O : Type}

namespace Machine

variable [DecidableEq M]

def step (P : Machine M X D C O) (s : Mutexes M X D O) :
    MutexLbl C O → Option (Mutexes M X D O)
  | .start op => some { s with threads := s.threads ++ [⟨op, P.code op⟩] }
  | .run t choice => do
    let thread ← s.threads[t]?
    match thread.code with
    | [] => none
    | .lock m :: rest =>
      if s.owner m = none then
        some { s with
          owner := Function.update s.owner m (some t)
          threads := s.threads.set t { thread with code := rest } }
      else none
    | .unlock m :: rest =>
      some { s with
        owner := Function.update s.owner m none
        threads := s.threads.set t { thread with code := rest } }
    | .run x :: rest =>
      some { s with
        data := (P.exec s.data choice x).1
        threads := s.threads.set t { thread with code := (P.exec s.data choice x).2 ++ rest } }

def system (P : Machine M X D C O) (data : D) : LTS (Mutexes M X D O) (MutexLbl C O) :=
  .ofFn (· = ⟨data, fun _ => none, []⟩) P.step

end Machine

namespace Mutexes

/-- The mutex the thread is about to lock. -/
def waitsFor (s : Mutexes M X D O) (t : Nat) : Option M :=
  match s.threads[t]? with
  | some ⟨_, .lock m :: _⟩ => some m
  | _ => none

/-- Every thread of the set waits for a mutex that one of the set holds. -/
def Deadlocked (s : Mutexes M X D O) (threads : Finset Nat) : Prop :=
  threads.Nonempty ∧ ∀ t ∈ threads, ∃ m, s.waitsFor t = some m ∧ ∃ t' ∈ threads, s.owner m = some t'

theorem waitsFor_eq_some {s : Mutexes M X D O} {t : Nat} {m : M} (h : s.waitsFor t = some m) :
    ∃ op rest, s.threads[t]? = some ⟨op, .lock m :: rest⟩ := by
  unfold waitsFor at h
  split at h
  · rename_i op m' rest ht
    cases h
    exact ⟨op, rest, ht⟩
  · cases h

end Mutexes

/-! ## Disciplines -/

/-- `mayLock held m`: the mutex may be locked while those of the stack are held.
`acts x held held'`: the action runs with `held`, and what it puts in front of
the rest leads to `held'`. -/
structure Discipline (M X : Type) where
  mayLock : List M → M → Prop
  acts : X → List M → List M → Prop

/-- The code runs with `held` and leads to `held'`. -/
def Discipline.Keeps (R : Discipline M X) : List M → List (Act M X) → List M → Prop
  | held, [], held' => held' = held
  | held, .lock m :: rest, held' => (m ∉ held ∧ R.mayLock held m) ∧ R.Keeps (m :: held) rest held'
  | held, .unlock m :: rest, held' => ∃ below, held = m :: below ∧ R.Keeps below rest held'
  | held, .run x :: rest, held' => ∃ next, R.acts x held next ∧ R.Keeps next rest held'

theorem Discipline.Keeps.append {R : Discipline M X} {code code' : List (Act M X)}
    {held held₁ held₂ : List M} (h : R.Keeps held code held₁) (h' : R.Keeps held₁ code' held₂) :
    R.Keeps held (code ++ code') held₂ := by
  induction code generalizing held with
  | nil =>
    cases h
    exact h'
  | cons act rest ih =>
    cases act with
    | lock m => exact ⟨h.1, ih h.2⟩
    | unlock m =>
      obtain ⟨below, rfl, hrest⟩ := h
      exact ⟨below, rfl, ih hrest⟩
    | run x =>
      obtain ⟨next, hx, hrest⟩ := h
      exact ⟨next, hx, ih hrest⟩

/-- Every operation keeps the disciplines `R k` that it allows, and allows one. -/
structure Machine.Obeys {K : Type} (P : Machine M X D C O) (R : K → Discipline M X)
    (allows : O → K → Prop) : Prop where
  some : ∀ op, ∃ k, allows op k
  code : ∀ op k, allows op k → (R k).Keeps [] (P.code op) []
  exec : ∀ k data choice x held held', (R k).acts x held held' →
    (R k).Keeps held (P.exec data choice x).2 held'

namespace Mutexes

variable {K : Type} {R : K → Discipline M X} {allows : O → K → Prop}

/-- The thread owns the mutexes of a stack that its code takes apart. -/
def ThreadOk (R : K → Discipline M X) (allows : O → K → Prop) (owner : M → Option Nat) (t : Nat)
    (thread : Thread M X O) : Prop :=
  ∃ held : List M, held.Nodup ∧ (∀ m, owner m = some t ↔ m ∈ held) ∧
    ∀ k, allows thread.op k → (R k).Keeps held thread.code []

structure Ordered (R : K → Discipline M X) (allows : O → K → Prop) (s : Mutexes M X D O) : Prop where
  threads : ∀ (t : Nat) (thread : Thread M X O), s.threads[t]? = some thread →
    ThreadOk R allows s.owner t thread
  owners : ∀ m t, s.owner m = some t → t < s.threads.length

variable {s : Mutexes M X D O}

theorem ThreadOk.of_owner {owner owner' : M → Option Nat} {t : Nat} {thread : Thread M X O}
    (h : ThreadOk R allows owner t thread) (hsame : ∀ m, owner' m = some t ↔ owner m = some t) :
    ThreadOk R allows owner' t thread := by
  obtain ⟨held, hnodup, howner, hkeeps⟩ := h
  exact ⟨held, hnodup, fun m => (hsame m).trans (howner m), hkeeps⟩

/-- One thread has done an action. -/
theorem Ordered.move (h : Ordered R allows s) {t : Nat} {thread : Thread M X O} {data : D}
    {owner : M → Option Nat} {code : List (Act M X)} (ht : s.threads[t]? = some thread)
    (hself : ThreadOk R allows owner t { thread with code := code })
    (hothers : ∀ t', t' ≠ t → ∀ m, owner m = some t' ↔ s.owner m = some t') :
    Ordered R allows ⟨data, owner, s.threads.set t { thread with code := code }⟩ where
  threads t' thread' ht' := by
    rcases getElem?_moved ht' with ⟨hne, ht'⟩ | ⟨rfl, rfl⟩
    · exact (h.threads t' thread' ht').of_owner (hothers t' hne)
    · exact hself
  owners m t' hm := by
    rw [List.length_set]
    by_cases hne : t' = t
    · rw [hne]
      exact (List.getElem?_eq_some_iff.mp ht).1
    · exact h.owners m t' ((hothers t' hne m).mp hm)

section Step

variable {P : Machine M X D C O}

theorem Ordered.start (h : Ordered R allows s) (hP : P.Obeys R allows) (op : O) :
    Ordered R allows { s with threads := s.threads ++ [⟨op, P.code op⟩] } where
  threads t thread ht := by
    rcases getElem?_started ht with ht | ⟨rfl, rfl⟩
    · exact h.threads t thread ht
    · refine ⟨[], List.nodup_nil, fun m => ?_, fun k hk => hP.code op k hk⟩
      simp only [List.not_mem_nil, iff_false]
      intro hm
      exact absurd (h.owners m _ hm) (lt_irrefl _)
  owners m t hm := by
    rw [List.length_append]
    exact Nat.lt_add_right _ (h.owners m t hm)

theorem Ordered.run (h : Ordered R allows s) {t : Nat} {thread : Thread M X O} {x : X}
    {rest : List (Act M X)} (hP : P.Obeys R allows) (ht : s.threads[t]? = some thread)
    (hcode : thread.code = .run x :: rest) (choice : C) :
    Ordered R allows { s with
      data := (P.exec s.data choice x).1
      threads := s.threads.set t { thread with code := (P.exec s.data choice x).2 ++ rest } } := by
  obtain ⟨held, hnodup, howner, hkeeps⟩ := h.threads t thread ht
  rw [hcode] at hkeeps
  refine h.move ht ⟨held, hnodup, howner, fun k hk => ?_⟩ fun _ _ _ => Iff.rfl
  obtain ⟨next, hx, hrest⟩ := hkeeps k hk
  exact (hP.exec k s.data choice x held next hx).append hrest

variable [DecidableEq M]

theorem Ordered.lock (h : Ordered R allows s) {t : Nat} {thread : Thread M X O} {m : M}
    {rest : List (Act M X)} (hP : P.Obeys R allows) (ht : s.threads[t]? = some thread)
    (hcode : thread.code = .lock m :: rest) (hfree : s.owner m = none) :
    Ordered R allows { s with
      owner := Function.update s.owner m (some t)
      threads := s.threads.set t { thread with code := rest } } := by
  obtain ⟨held, hnodup, howner, hkeeps⟩ := h.threads t thread ht
  rw [hcode] at hkeeps
  obtain ⟨k, hk⟩ := hP.some thread.op
  refine h.move ht ⟨m :: held, ?_, fun m' => ?_, fun k hk => (hkeeps k hk).2⟩ fun t' hne m' => ?_
  · exact List.nodup_cons.mpr ⟨(hkeeps k hk).1.1, hnodup⟩
  · by_cases hm : m' = m
    · simp [hm]
    · simp [hm, howner]
  · by_cases hm : m' = m
    · simp [hm, hfree, Ne.symm hne]
    · simp [hm]

theorem Ordered.unlock (h : Ordered R allows s) {t : Nat} {thread : Thread M X O} {m : M}
    {rest : List (Act M X)} (hP : P.Obeys R allows) (ht : s.threads[t]? = some thread)
    (hcode : thread.code = .unlock m :: rest) :
    Ordered R allows { s with
      owner := Function.update s.owner m none
      threads := s.threads.set t { thread with code := rest } } := by
  obtain ⟨held, hnodup, howner, hkeeps⟩ := h.threads t thread ht
  rw [hcode] at hkeeps
  obtain ⟨k, hk⟩ := hP.some thread.op
  obtain ⟨below, rfl, -⟩ := hkeeps k hk
  obtain ⟨hnot, hnodup⟩ := List.nodup_cons.mp hnodup
  have hmine : s.owner m = some t := (howner m).mpr List.mem_cons_self
  refine h.move ht ⟨below, hnodup, fun m' => ?_, fun k hk => ?_⟩ fun t' hne m' => ?_
  · by_cases hm : m' = m
    · simp [hm, hnot]
    · simp [hm, howner]
  · obtain ⟨below', he, hrest⟩ := hkeeps k hk
    cases he
    exact hrest
  · by_cases hm : m' = m
    · simp [hm, hmine, Ne.symm hne]
    · simp [hm]

theorem ordered_inductive (hP : P.Obeys R allows) (data : D) :
    (P.system data).Inductive (Ordered R allows) where
  init := by
    rintro _ rfl
    exact ⟨fun t thread ht => by simp at ht, fun m t hm => by simp at hm⟩
  step := by
    intro s l s' h hst
    cases l with
    | start op =>
      cases hst
      exact h.start hP op
    | run t choice =>
      simp only [Machine.system, LTS.ofFn, Machine.step, Option.bind_eq_bind,
        Option.bind_eq_some_iff] at hst
      obtain ⟨thread, ht, hst⟩ := hst
      split at hst
      · cases hst
      · rename_i m rest hcode
        split at hst
        · rename_i hfree
          cases hst
          exact h.lock hP ht hcode hfree
        · cases hst
      · rename_i m rest hcode
        cases hst
        exact h.unlock hP ht hcode
      · rename_i x rest hcode
        cases hst
        exact h.run hP ht hcode choice

end Step

/-- A set of threads that all go up in one order of the mutexes is not
deadlocked: the thread that waits for the highest mutex waits for one that waits
for a higher one. -/
theorem Ordered.not_deadlocked (h : Ordered R allows s) {threads : Finset Nat} {k : K}
    (rank : M → Nat) (hrank : ∀ held m, (R k).mayLock held m → ∀ m' ∈ held, rank m' < rank m)
    (hall : ∀ t ∈ threads, ∀ thread, s.threads[t]? = some thread → allows thread.op k) :
    ¬s.Deadlocked threads := by
  rintro ⟨hne, hwait⟩
  obtain ⟨t, ht, hmax⟩ := threads.exists_max_image
    (fun t => ((s.waitsFor t).map rank).getD 0) hne
  obtain ⟨m, hm, t', ht', howner⟩ := hwait t ht
  obtain ⟨m', hm', -⟩ := hwait t' ht'
  obtain ⟨op, rest, hthread⟩ := waitsFor_eq_some hm'
  obtain ⟨held, -, hheld, hkeeps⟩ := h.threads t' _ hthread
  have hup : rank m < rank m' :=
    hrank held m' (hkeeps k (hall t' ht' _ hthread)).1.2 m ((hheld m).mp howner)
  have := hmax t' ht'
  simp only [hm, hm', Option.map_some, Option.getD_some] at this
  omega

end Mutexes

end Cmu440
