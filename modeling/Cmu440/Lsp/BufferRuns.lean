import Cmu440.Core.LTS
import Cmu440.Lsp.Buffer

/-!
# A buffer in any use

`Buffer` carries its order as a field. Here a buffer is what it is in Go, a list that
nobody vouches for, and `buffers` are all lists that `NewBuffer` and the operations
lead to, in any order and with any arguments. An operation that would dereference nil
is not a step, so that `Insert` never does has to be said (`buffer_sorted_set`).

An `int` has 64 bits. `Insert` and `Delete` only compare sequence numbers;
`AdjustUsingWindow` computes its left boundary from one. As long as `last - w + 1` is
an `int` the boundary is the one of `Buffer`, and sequence numbers that are not negative
cannot leave the range (`adjustInt_buffer`). Otherwise the boundary comes out at the
other end of the range, and all messages go, the last one too (`window_underflow`).
-/
namespace Cmu440.Lsp

def IsInt (i : Int) : Prop := -2 ^ 63 ≤ i ∧ i < 2 ^ 63

instance (i : Int) : Decidable (IsInt i) := inferInstanceAs (Decidable (_ ∧ _))

/-- What an `int` is left with when the result is `i`. -/
def goInt (i : Int) : Int := i.bmod (2 ^ 64)

theorem goInt_eq {i : Int} (h : IsInt i) : goInt i = i := by
  obtain ⟨hlo, hhi⟩ := h
  exact Int.bmod_eq_of_le (by omega) (by omega)

/-- `adjustList` in the arithmetic of `int`. mirrors buffer.go:72-86 -/
def adjustInt (windowSize : Int) (l : List Message) : Option (List Message) :=
  l.getLast?.map fun back =>
    l.dropWhile fun e => decide (e.seqNum < goInt (goInt (back.seqNum - windowSize) + 1))

/-- mirrors buffer.go:20-86; the list is `buf.l` -/
inductive BufferOp
  | insert (val : Message)
  | remove
  | delete (delSeqNum : Int)
  | adjustUsingWindow (windowSize : Int)
  deriving DecidableEq, Repr

namespace BufferOp

def apply (l : List Message) : BufferOp → Option (List Message)
  | insert val => insertList val l
  | remove => l.tail?
  | delete delSeqNum => some (deleteList delSeqNum l).1
  | adjustUsingWindow windowSize => adjustInt windowSize l

/-- The arguments are `int`s. -/
def typed : BufferOp → Bool
  | insert val => IsInt val.seqNum
  | remove => true
  | delete delSeqNum => IsInt delSeqNum
  | adjustUsingWindow windowSize => IsInt windowSize

end BufferOp

def buffers : LTS (List Message) BufferOp :=
  LTS.ofFn (· = []) (LTS.guarded (fun _ op => op.typed) BufferOp.apply)

/-! ## The list is in order -/

theorem Increasing.nodup {l : List Message} (h : Increasing l) : l.Nodup := by
  refine h.imp fun hlt heq => ?_
  rw [heq] at hlt
  exact lt_irrefl _ hlt

/-- A list in order is determined by what is in it. -/
theorem Increasing.eq_of_mem_iff {l l' : List Message} (h : Increasing l) (h' : Increasing l')
    (hmem : ∀ m, m ∈ l' ↔ m ∈ l) : l' = l := by
  have hperm : l'.Perm l := (List.perm_ext_iff_of_nodup h'.nodup h.nodup).mpr hmem
  exact hperm.eq_of_pairwise (fun a b _ _ hab hba => absurd hab (lt_asymm hba)) h' h

/-- What `insertList_spec` says of the members, said of the list. -/
theorem insertList_exact (val : Message) {l : List Message} (h : Increasing l) :
    ∃ l', insertList val l = some l' ∧ Increasing l' ∧
      ((∃ x ∈ l, x.seqNum = val.seqNum) → l' = l) ∧
      ((∀ x ∈ l, x.seqNum ≠ val.seqNum) → l'.Perm (val :: l)) := by
  obtain ⟨l', hl', hinc, hmem⟩ := insertList_spec val h
  refine ⟨l', hl', hinc, fun ⟨x, hx, hseq⟩ => ?_, fun hnew => ?_⟩
  · refine h.eq_of_mem_iff hinc fun m => (hmem m).trans (or_iff_left ?_)
    intro ⟨_, hne⟩
    exact hne x hx hseq
  · have hnodup : (val :: l).Nodup := by
      refine List.nodup_cons.mpr ⟨fun hval => ?_, h.nodup⟩
      exact hnew val hval rfl
    refine (List.perm_ext_iff_of_nodup hinc.nodup hnodup).mpr fun m => ?_
    rw [hmem m, List.mem_cons]
    exact ⟨fun hm => hm.symm.imp_left And.left, fun hm => hm.symm.imp_right fun hm => ⟨hm, hnew⟩⟩

structure Ordered (l : List Message) : Prop where
  increasing : Increasing l
  typed : ∀ m ∈ l, IsInt m.seqNum

theorem Ordered.sublist {l l' : List Message} (h : Ordered l) (hs : l'.Sublist l) : Ordered l' :=
  ⟨h.increasing.sublist hs, fun m hm => h.typed m (hs.subset hm)⟩

theorem deleteList_sublist {l : List Message} (h : Increasing l) (q : Int) :
    (deleteList q l).1.Sublist l := by
  rw [deleteList_eq h q]
  exact List.filter_sublist

theorem Ordered.apply {l l' : List Message} (h : Ordered l) {op : BufferOp}
    (htyped : op.typed = true) (hop : op.apply l = some l') : Ordered l' := by
  cases op with
  | insert val =>
    obtain ⟨l₁, hl₁, hinc, hmem⟩ := insertList_spec val h.increasing
    cases hl₁.symm.trans hop
    refine ⟨hinc, fun m hm => ?_⟩
    rcases (hmem m).mp hm with hm | ⟨rfl, -⟩
    · exact h.typed m hm
    · exact of_decide_eq_true htyped
  | remove =>
    cases l with
    | nil => cases hop
    | cons m l =>
      cases hop
      exact h.sublist (List.sublist_cons_self m l')
  | delete q =>
    cases hop
    exact h.sublist (deleteList_sublist h.increasing q)
  | adjustUsingWindow w =>
    obtain ⟨back, -, rfl⟩ := Option.map_eq_some_iff.mp hop
    exact h.sublist (List.dropWhile_sublist _)

theorem ordered_inductive : buffers.Inductive Ordered where
  init l hl := by
    rw [hl]
    exact ⟨.nil, fun m hm => absurd hm List.not_mem_nil⟩
  step l op l' h hstep := by
    obtain ⟨htyped, hop⟩ := LTS.guarded_eq_some.mp hstep
    exact h.apply htyped hop

/-! ## The window -/

/-- The boundary does not wrap, whatever the difference does on the way to it. -/
theorem adjustInt_eq {l : List Message} {w : Int}
    (hback : ∀ back, l.getLast? = some back → IsInt (back.seqNum - w + 1)) :
    adjustInt w l = adjustList w l := by
  unfold adjustInt adjustList
  cases hl : l.getLast? with
  | none => rfl
  | some back =>
    have hnext : goInt (goInt (back.seqNum - w) + 1) = back.seqNum - w + 1 :=
      Int.bmod_add_bmod.trans (goInt_eq (hback back hl))
    rw [Option.map_some, Option.map_some, hnext]

/-- With sequence numbers from 0 on, it is what `Buffer` does. -/
theorem adjustInt_buffer (buf : Buffer) {w : Int} (hw : 1 ≤ w) (hint : IsInt w)
    (h : ∀ m ∈ buf.l, 0 ≤ m.seqNum ∧ IsInt m.seqNum) :
    adjustInt w buf.l = (buf.adjustUsingWindow w).map Buffer.l := by
  rw [adjustInt_eq fun back hback => ?_]
  · unfold Buffer.adjustUsingWindow
    split
    · rename_i hnone
      exact hnone
    · rename_i hsome
      exact hsome
  · obtain ⟨hnonneg, -, hhi⟩ := h back (List.mem_of_getLast? hback)
    have := hint.2
    exact ⟨by omega, by omega⟩

/-- Whatever was done with the buffer: it is in order and has each number once; `Insert`
finds its place, and adds the message unless there is one with its number; `Delete`
takes out the message with the number and tells whether there was one; and
`AdjustUsingWindow` keeps what is less than `w` behind the last, unless
`last - w + 1` is too small for an `int`. -/
theorem buffer_sorted_set {l : List Message} (hr : buffers.Reachable l) :
    Increasing l ∧
    (∀ val, ∃ l', insertList val l = some l' ∧ Increasing l' ∧
      ((∃ x ∈ l, x.seqNum = val.seqNum) → l' = l) ∧
      ((∀ x ∈ l, x.seqNum ≠ val.seqNum) → l'.Perm (val :: l))) ∧
    (∀ q, (deleteList q l).1 = l.filter (fun m => decide (m.seqNum ≠ q)) ∧
      ((deleteList q l).2 = true ↔ ∃ m ∈ l, m.seqNum = q)) ∧
    ∀ w back, l.getLast? = some back → IsInt (back.seqNum - w + 1) →
      adjustInt w l = some (l.filter fun m => decide (back.seqNum - w < m.seqNum)) := by
  have h := ordered_inductive.reachable l hr
  refine ⟨h.increasing, fun val => insertList_exact val h.increasing, fun q => ?_, ?_⟩
  · rw [deleteList_eq h.increasing q]
    exact ⟨rfl, by simp⟩
  · intro w back hback hint
    have hlast : ∀ b, l.getLast? = some b → IsInt (b.seqNum - w + 1) := by
      intro b hb
      cases hback.symm.trans hb
      exact hint
    rw [adjustInt_eq hlast]
    exact adjustList_eq h.increasing hback w

/-- Three messages, not in order. -/
def threeInserted : List BufferOp :=
  [.insert (newAck 1 3), .insert (newAck 1 1), .insert (newAck 1 2)]

theorem buffer_sorted_set_three :
    buffers.Reachable [newAck 1 1, newAck 1 2, newAck 1 3] ∧
    adjustInt 2 [newAck 1 1, newAck 1 2, newAck 1 3] = some [newAck 1 2, newAck 1 3] := by
  have hr : buffers.Reachable [newAck 1 1, newAck 1 2, newAck 1 3] :=
    ⟨[], threeInserted, rfl, LTS.run_of_exec (by decide)⟩
  exact ⟨hr, (buffer_sorted_set hr).2.2.2 2 (newAck 1 3) rfl (by decide)⟩

/-- The last message of the buffer is less than `w` behind itself, and is removed. -/
theorem window_underflow :
    buffers.Reachable [newAck 1 (-2 ^ 63)] ∧
    adjustInt 2 [newAck 1 (-2 ^ 63)] = some [] ∧
    [newAck 1 (-2 ^ 63)].filter (fun m => decide (-2 ^ 63 - 2 < m.seqNum)) =
      [newAck 1 (-2 ^ 63)] :=
  ⟨⟨[], [.insert (newAck 1 (-2 ^ 63))], rfl, LTS.run_of_exec (by decide)⟩, by decide, by decide⟩

end Cmu440.Lsp
