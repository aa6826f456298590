import Cmu440.Lsp.Common
import Mathlib.Data.List.Basic
import Mathlib.Algebra.Order.Ring.Int

/-!
# The sequence-number buffer

p1/src/github.com/cmu440/lsp/buffer.go: the buffer all queues of the LSP client
and server are kept in.

The list operations are translated as they stand, with `none` where Go would
dereference a nil element (`insertList` past the end of its scan, `Front`,
`Remove` and `AdjustUsingWindow` on an empty list). `Buffer` is a list in
strictly increasing order of sequence numbers; on such a list `insertList`
always finds its insertion point, so `Buffer.insert` is total.
-/
namespace Cmu440.Lsp

/-! ## The operations on the list -/

/-- The scan for the first element that does not come before `val`, and the
insertion in front of it. mirrors buffer.go:25-38 -/
def insertScan (val : Message) : List Message → Option (List Message)
  | [] => none
  | e :: l =>
    if val.seqNum ≤ e.seqNum then
      if val.seqNum < e.seqNum then some (val :: e :: l) else some (e :: l)
    else (insertScan val l).map (e :: ·)

/-- mirrors buffer.go:20-40 -/
def insertList (val : Message) (l : List Message) : Option (List Message) :=
  match l.getLast? with
  | none => some (l ++ [val])
  | some back => if val.seqNum > back.seqNum then some (l ++ [val]) else insertScan val l

/-- mirrors buffer.go:58-67 -/
def deleteList (delSeqNum : Int) : List Message → List Message × Bool
  | [] => ([], false)
  | e :: l =>
    if e.seqNum = delSeqNum then (l, true)
    else (e :: (deleteList delSeqNum l).1, (deleteList delSeqNum l).2)

/-- mirrors buffer.go:72-86 -/
def adjustList (windowSize : Int) (l : List Message) : Option (List Message) :=
  l.getLast?.map fun back => l.dropWhile fun e => decide (e.seqNum < back.seqNum - windowSize + 1)

/-! ## Lists in increasing order -/

def Increasing (l : List Message) : Prop := l.Pairwise fun a b => a.seqNum < b.seqNum

theorem Increasing.sublist {l l' : List Message} (h : Increasing l) (hs : l'.Sublist l) :
    Increasing l' :=
  List.Pairwise.sublist hs h

theorem Increasing.append_singleton {l : List Message} (h : Increasing l) {m : Message}
    (hm : ∀ x ∈ l, x.seqNum < m.seqNum) : Increasing (l ++ [m]) := by
  refine List.pairwise_append.mpr ⟨h, List.pairwise_singleton _ _, ?_⟩
  intro x hx y hy
  rw [List.mem_singleton.mp hy]
  exact hm x hx

/-- Distinct numbers inside a window of `w` are at most `w` numbers. -/
theorem Increasing.length_le {l : List Message} (h : Increasing l) {w lo : Int}
    (hlo : ∀ m ∈ l, lo ≤ m.seqNum) (hhi : ∀ m ∈ l, m.seqNum < lo + w) (hw : 0 ≤ w) :
    (l.length : Int) ≤ w := by
  induction l generalizing w lo with
  | nil => exact hw
  | cons e l ih =>
    obtain ⟨hlt, htail⟩ := List.pairwise_cons.mp h
    have he := hlo e List.mem_cons_self
    have he' := hhi e List.mem_cons_self
    -- the others are above the first
    have hrest : (l.length : Int) ≤ lo + w - (e.seqNum + 1) := by
      refine ih htail (fun m hm => hlt m hm) (fun m hm => ?_) (by omega)
      have := hhi m (List.mem_cons_of_mem _ hm)
      omega
    simp only [List.length_cons]
    push_cast
    omega

theorem Increasing.le_getLast {l : List Message} (h : Increasing l) {back : Message}
    (hback : l.getLast? = some back) : ∀ m ∈ l, m.seqNum ≤ back.seqNum := by
  obtain ⟨init, rfl⟩ := List.getLast?_eq_some_iff.mp hback
  intro m hm
  rcases List.mem_append.mp hm with hm | hm
  · exact le_of_lt ((List.pairwise_append.mp h).2.2 m hm back (List.mem_singleton_self _))
  · rw [List.mem_singleton.mp hm]

/-- The scan succeeds when some element does not come before `val`. -/
theorem insertScan_spec {val : Message} {l : List Message} (h : Increasing l)
    (hex : ∃ e ∈ l, val.seqNum ≤ e.seqNum) :
    ∃ l', insertScan val l = some l' ∧ Increasing l' ∧
      ∀ m, m ∈ l' ↔ m ∈ l ∨ m = val ∧ ∀ x ∈ l, x.seqNum ≠ val.seqNum := by
  induction l with
  | nil =>
    obtain ⟨e, he, -⟩ := hex
    cases he
  | cons e l ih =>
    obtain ⟨hlt, htail⟩ := List.pairwise_cons.mp h
    unfold insertScan
    by_cases hle : val.seqNum ≤ e.seqNum
    · rw [if_pos hle]
      by_cases hlt' : val.seqNum < e.seqNum
      · rw [if_pos hlt']
        have hall : ∀ x ∈ e :: l, val.seqNum < x.seqNum := by
          intro x hx
          rcases List.mem_cons.mp hx with rfl | hx
          · exact hlt'
          · have := hlt x hx
            omega
        refine ⟨_, rfl, List.pairwise_cons.mpr ⟨hall, h⟩, ?_⟩
        intro m
        have hnew : ∀ x ∈ e :: l, x.seqNum ≠ val.seqNum := fun x hx => ne_of_gt (hall x hx)
        rw [List.mem_cons]
        exact ⟨fun hm => hm.symm.imp_right fun hm => ⟨hm, hnew⟩, fun hm => hm.symm.imp_left And.left⟩
      · rw [if_neg hlt']
        refine ⟨_, rfl, h, ?_⟩
        intro m
        have hsame : e.seqNum = val.seqNum := by omega
        refine ⟨Or.inl, ?_⟩
        rintro (hm | ⟨-, hne⟩)
        · exact hm
        · exact absurd hsame (hne e List.mem_cons_self)
    · rw [if_neg hle]
      have hex' : ∃ e ∈ l, val.seqNum ≤ e.seqNum := by
        obtain ⟨x, hx, hxle⟩ := hex
        rcases List.mem_cons.mp hx with rfl | hx
        · exact absurd hxle hle
        · exact ⟨x, hx, hxle⟩
      obtain ⟨l', hl', hinc, hmem⟩ := ih htail hex'
      refine ⟨e :: l', by rw [hl', Option.map_some], List.pairwise_cons.mpr ⟨?_, hinc⟩, ?_⟩
      · intro x hx
        rcases (hmem x).mp hx with hx | ⟨rfl, -⟩
        · exact hlt x hx
        · omega
      · intro m
        have hne : e.seqNum ≠ val.seqNum := by omega
        simp only [List.mem_cons, hmem, or_assoc, forall_eq_or_imp, ne_eq, hne, not_false_eq_true,
          true_and]

/-- `Insert` finds its place, keeps the message that is already stored under a
number and otherwise adds exactly the new one. -/
theorem insertList_spec (val : Message) {l : List Message} (h : Increasing l) :
    ∃ l', insertList val l = some l' ∧ Increasing l' ∧
      ∀ m, m ∈ l' ↔ m ∈ l ∨ m = val ∧ ∀ x ∈ l, x.seqNum ≠ val.seqNum := by
  have happend : (∀ x ∈ l, x.seqNum < val.seqNum) → Increasing (l ++ [val]) ∧
      ∀ m, m ∈ l ++ [val] ↔ m ∈ l ∨ m = val ∧ ∀ x ∈ l, x.seqNum ≠ val.seqNum := by
    intro hlt
    have hne : ∀ x ∈ l, x.seqNum ≠ val.seqNum := fun x hx => ne_of_lt (hlt x hx)
    refine ⟨h.append_singleton hlt, fun m => ?_⟩
    rw [List.mem_append, List.mem_singleton]
    exact ⟨fun hm => hm.imp_right fun hm => ⟨hm, hne⟩, fun hm => hm.imp_right And.left⟩
  unfold insertList
  cases hl : l.getLast? with
  | none =>
    have hnil : l = [] := List.getLast?_eq_none_iff.mp hl
    subst hnil
    exact ⟨_, rfl, happend (fun x hx => by cases hx)⟩
  | some back =>
    by_cases hgt : val.seqNum > back.seqNum
    · simp only [if_pos hgt]
      exact ⟨_, rfl, happend (fun x hx => lt_of_le_of_lt (h.le_getLast hl x hx) hgt)⟩
    · simp only [if_neg hgt]
      exact insertScan_spec h ⟨back, List.mem_of_getLast? hl, not_lt.mp hgt⟩

theorem deleteList_eq {l : List Message} (h : Increasing l) (q : Int) :
    deleteList q l = (l.filter (fun m => decide (m.seqNum ≠ q)),
      l.any fun m => decide (m.seqNum = q)) := by
  induction l with
  | nil => rfl
  | cons e l ih =>
    obtain ⟨hlt, htail⟩ := List.pairwise_cons.mp h
    unfold deleteList
    by_cases he : e.seqNum = q
    · have hrest : l.filter (fun m => decide (m.seqNum ≠ q)) = l := by
        refine List.filter_eq_self.mpr fun m hm => decide_eq_true ?_
        have := hlt m hm
        omega
      rw [if_pos he, List.filter_cons_of_neg (by simp [he]), hrest, List.any_cons, decide_eq_true he,
        Bool.true_or]
    · rw [if_neg he, ih htail, List.filter_cons_of_pos (by simp [he]), List.any_cons,
        decide_eq_false he, Bool.false_or]

theorem adjustList_eq {l : List Message} (h : Increasing l) {back : Message}
    (hback : l.getLast? = some back) (w : Int) :
    adjustList w l = some (l.filter fun e => decide (back.seqNum - w < e.seqNum)) := by
  unfold adjustList
  rw [hback, Option.map_some]
  congr 1
  clear hback
  induction l with
  | nil => rfl
  | cons e l ih =>
    obtain ⟨hlt, htail⟩ := List.pairwise_cons.mp h
    by_cases he : e.seqNum < back.seqNum - w + 1
    · rw [List.dropWhile_cons_of_pos (by simpa using he), ih htail, List.filter_cons_of_neg]
      simp only [decide_eq_true_eq]
      omega
    · rw [List.dropWhile_cons_of_neg (by simpa using he), List.filter_cons_of_pos, List.filter_eq_self.mpr]
      · intro m hm
        have := hlt m hm
        simp only [decide_eq_true_eq]
        omega
      · simp only [decide_eq_true_eq]
        omega

/-! ## The buffer -/

/-- mirrors buffer.go:11-13, with the order its header comment promises -/
structure Buffer where
  l : List Message
  increasing : Increasing l
  deriving DecidableEq

namespace Buffer

theorem ext {a b : Buffer} (h : a.l = b.l) : a = b := by
  cases a
  cases b
  simp only at h
  subst h
  rfl

/-- mirrors buffer.go:15-17 -/
def newBuffer : Buffer := ⟨[], List.Pairwise.nil⟩

def len (buf : Buffer) : Nat := buf.l.length

def insert (buf : Buffer) (val : Message) : Buffer :=
  match h : insertList val buf.l with
  | some l => ⟨l, by
      obtain ⟨l', hl', hinc, -⟩ := insertList_spec val buf.increasing
      rw [h] at hl'
      cases hl'
      exact hinc⟩
  | none => buf

/-- mirrors buffer.go:51-54 -/
def front (buf : Buffer) : Option Message := buf.l.head?

/-- mirrors buffer.go:43-48 -/
def remove (buf : Buffer) : Option (Message × Buffer) :=
  match h : buf.l with
  | [] => none
  | m :: l => some (m, ⟨l, by
      have hinc := buf.increasing
      rw [h] at hinc
      exact (List.pairwise_cons.mp hinc).2⟩)

def delete (buf : Buffer) (delSeqNum : Int) : Buffer × Bool :=
  (⟨(deleteList delSeqNum buf.l).1, by
      rw [deleteList_eq buf.increasing]
      exact buf.increasing.sublist List.filter_sublist⟩,
    (deleteList delSeqNum buf.l).2)

def adjustUsingWindow (buf : Buffer) (windowSize : Int) : Option Buffer :=
  match h : adjustList windowSize buf.l with
  | none => none
  | some l => some ⟨l, by
      unfold adjustList at h
      obtain ⟨back, -, rfl⟩ := Option.map_eq_some_iff.mp h
      exact buf.increasing.sublist (List.dropWhile_sublist _)⟩

@[simp] theorem len_eq_zero {buf : Buffer} : buf.len = 0 ↔ buf.l = [] := List.length_eq_zero_iff

theorem insert_list (buf : Buffer) (val : Message) :
    insertList val buf.l = some (buf.insert val).l := by
  obtain ⟨l', hl', -, -⟩ := insertList_spec val buf.increasing
  unfold insert
  split
  · rename_i l h
    exact h
  · rename_i h
    rw [h] at hl'
    cases hl'

theorem mem_insert {buf : Buffer} {val m : Message} :
    m ∈ (buf.insert val).l ↔ m ∈ buf.l ∨ m = val ∧ ∀ x ∈ buf.l, x.seqNum ≠ val.seqNum := by
  obtain ⟨l', hl', -, hmem⟩ := insertList_spec val buf.increasing
  rw [insert_list] at hl'
  cases hl'
  exact hmem m

/-- After an insertion there is a message under the number. -/
theorem exists_mem_insert (buf : Buffer) (val : Message) :
    ∃ m ∈ (buf.insert val).l, m.seqNum = val.seqNum := by
  by_cases hin : ∃ x ∈ buf.l, x.seqNum = val.seqNum
  · obtain ⟨x, hx, hxv⟩ := hin
    exact ⟨x, mem_insert.mpr (.inl hx), hxv⟩
  · exact ⟨val, mem_insert.mpr (.inr ⟨rfl, fun x hx he => hin ⟨x, hx, he⟩⟩), rfl⟩

/-- Inserting behind every message of the buffer. -/
theorem insert_last {buf : Buffer} {val : Message} (h : ∀ x ∈ buf.l, x.seqNum < val.seqNum) :
    (buf.insert val).l = buf.l ++ [val] := by
  have hl := insert_list buf val
  unfold insertList at hl
  split at hl
  · exact (Option.some.inj hl).symm
  · rename_i back hback
    rw [if_pos (h back (List.mem_of_getLast? hback))] at hl
    exact (Option.some.inj hl).symm

theorem remove_eq_some {buf buf' : Buffer} {m : Message} :
    buf.remove = some (m, buf') ↔ buf.l = m :: buf'.l := by
  unfold remove
  constructor
  · intro h
    split at h
    · cases h
    · rename_i m' l hl
      cases h
      exact hl
  · intro h
    split
    · rename_i hl
      rw [h] at hl
      cases hl
    · rename_i m' l hl
      rw [h] at hl
      cases hl
      rfl

theorem remove_eq_none {buf : Buffer} : buf.remove = none ↔ buf.l = [] := by
  unfold remove
  split
  · rename_i hl
    simp only [hl]
  · rename_i m l hl
    simp only [hl, reduceCtorEq]

theorem front_eq_none {buf : Buffer} : buf.front = none ↔ buf.l = [] := List.head?_eq_none_iff

/-- The first message has the smallest number. -/
theorem front_le {buf : Buffer} {m : Message} (h : buf.front = some m) :
    ∀ x ∈ buf.l, m.seqNum ≤ x.seqNum := by
  obtain ⟨l, hl⟩ := List.head?_eq_some_iff.mp h
  have hinc := buf.increasing
  rw [hl] at hinc ⊢
  intro x hx
  rcases List.mem_cons.mp hx with rfl | hx
  · exact le_refl _
  · exact le_of_lt ((List.pairwise_cons.mp hinc).1 x hx)

@[simp] theorem delete_l (buf : Buffer) (q : Int) :
    (buf.delete q).1.l = buf.l.filter fun m => decide (m.seqNum ≠ q) := by
  simp only [delete, deleteList_eq buf.increasing]

theorem delete_found {buf : Buffer} {q : Int} :
    (buf.delete q).2 = true ↔ ∃ m ∈ buf.l, m.seqNum = q := by
  simp only [delete, deleteList_eq buf.increasing, List.any_eq_true, decide_eq_true_eq]

/-- `AdjustUsingWindow` keeps exactly the messages less than `w` behind the
last one. -/
theorem adjust_l {buf buf' : Buffer} {w : Int} (h : buf.adjustUsingWindow w = some buf') :
    ∃ back ∈ buf.l, (∀ m ∈ buf.l, m.seqNum ≤ back.seqNum) ∧
      buf'.l = buf.l.filter fun m => decide (back.seqNum - w < m.seqNum) := by
  unfold adjustUsingWindow at h
  split at h
  · cases h
  · rename_i l hl
    cases h
    cases hback : buf.l.getLast? with
    | none =>
      unfold adjustList at hl
      rw [hback] at hl
      cases hl
    | some back =>
      rw [adjustList_eq buf.increasing hback] at hl
      cases hl
      exact ⟨back, List.mem_of_getLast? hback, buf.increasing.le_getLast hback, rfl⟩

theorem adjust_isSome {buf : Buffer} {m : Message} (hm : m ∈ buf.l) (w : Int) :
    ∃ buf', buf.adjustUsingWindow w = some buf' := by
  unfold adjustUsingWindow
  split
  · rename_i h
    unfold adjustList at h
    rw [Option.map_eq_none_iff, List.getLast?_eq_none_iff] at h
    rw [h] at hm
    cases hm
  · exact ⟨_, rfl⟩

end Buffer

end Cmu440.Lsp
