/-!
# Buffered channels

A Go channel with room for `cap` elements. What is in it never exceeds the room, and
that is a field. A send waits while there is no room; a receive waits while there is
nothing in it; `close` lets what is in it still be received. To send on a closed
channel panics, also as a case of a `select` with a default, and so does closing it
again: these are the two ways in which `trySend` and `close` have no result
(`trySend_eq_none`, `close_eq_none`).
-/
namespace Cmu440

structure Chan (α : Type) (cap : Nat) where
  buf : List α
  closed : Bool
  bound : buf.length ≤ cap
  deriving DecidableEq

namespace Chan

variable {α : Type} {cap : Nat}

def make : Chan α cap := ⟨[], false, Nat.zero_le cap⟩

inductive Sent (α : Type) (cap : Nat)
  | done (c : Chan α cap)
  | blocks
  | panics

theorem bound_append {c : Chan α cap} (h : c.buf.length < cap) (a : α) :
    (c.buf ++ [a]).length ≤ cap := by
  rw [List.length_append]
  exact h

theorem bound_rest {c : Chan α cap} {a : α} {rest : List α} (h : c.buf = a :: rest) :
    rest.length ≤ cap := by
  have hbound := c.bound
  rw [h, List.length_cons] at hbound
  omega

/-- `c <- a` -/
def send (c : Chan α cap) (a : α) : Sent α cap :=
  if c.closed then .panics
  else if h : c.buf.length < cap then .done ⟨c.buf ++ [a], c.closed, bound_append h a⟩
  else .blocks

/-- `c <- a` in a `select` with a default that does nothing. `none` is a panic. -/
def trySend (c : Chan α cap) (a : α) : Option (Chan α cap) :=
  match c.send a with
  | .done c' => some c'
  | .blocks => some c
  | .panics => none

/-- `<-c`, when there is something to receive. -/
def receive (c : Chan α cap) : Option (α × Chan α cap) :=
  match h : c.buf with
  | [] => none
  | a :: rest => some (a, ⟨rest, c.closed, bound_rest h⟩)

/-- `close(c)`. `none` is a panic. -/
def close (c : Chan α cap) : Option (Chan α cap) :=
  if c.closed then none else some { c with closed := true }

/-- A `range` over the channel ends. -/
def drained (c : Chan α cap) : Bool := c.closed && c.buf.isEmpty

theorem send_panics {c : Chan α cap} {a : α} : c.send a = .panics ↔ c.closed = true := by
  unfold send
  split
  · rename_i hclosed
    exact ⟨fun _ => hclosed, fun _ => rfl⟩
  · rename_i hopen
    refine ⟨fun h => ?_, fun hclosed => absurd hclosed hopen⟩
    split at h <;> cases h

theorem trySend_eq_none {c : Chan α cap} {a : α} : c.trySend a = none ↔ c.closed = true := by
  rw [← send_panics (a := a), trySend]
  split
  · rename_i hsend
    rw [hsend]
    exact ⟨nofun, nofun⟩
  · rename_i hsend
    rw [hsend]
    exact ⟨nofun, nofun⟩
  · rename_i hsend
    exact ⟨fun _ => hsend, fun _ => rfl⟩

theorem trySend_closed {c c' : Chan α cap} {a : α} (h : c.trySend a = some c') :
    c'.closed = c.closed := by
  unfold trySend at h
  split at h
  · rename_i hsend
    cases h
    unfold send at hsend
    split at hsend
    · cases hsend
    · split at hsend
      · cases hsend
        rfl
      · cases hsend
  · cases h
    rfl
  · cases h

theorem receive_closed {c c' : Chan α cap} {a : α} (h : c.receive = some (a, c')) :
    c'.closed = c.closed := by
  unfold receive at h
  split at h
  · cases h
  · cases h
    rfl

theorem receive_buf {c c' : Chan α cap} {a : α} (h : c.receive = some (a, c')) :
    c.buf = a :: c'.buf := by
  unfold receive at h
  split at h
  · cases h
  · rename_i hbuf
    cases h
    exact hbuf

theorem close_eq_none {c : Chan α cap} : c.close = none ↔ c.closed = true := by
  unfold close
  split
  · rename_i hclosed
    exact ⟨fun _ => hclosed, fun _ => rfl⟩
  · rename_i hopen
    exact ⟨nofun, fun hclosed => absurd hclosed hopen⟩

theorem close_closed {c c' : Chan α cap} (h : c.close = some c') : c'.closed = true := by
  unfold close at h
  split at h
  · cases h
  · cases h
    rfl

end Chan

end Cmu440
