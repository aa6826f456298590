import Cmu440.Core.Flow
import Cmu440.Lsp.Buffer

/-!
# The sending and the receiving half of a connection

The blocks that the client (client_impl.go) and every connection of the server
(server_impl.go) share, as functions of the buffers they work on:

* `sendOrQueue`: a new data message goes out or into the write buffer;
* `ackReceived`: an acknowledged message leaves `unAckedMsgBuffer`, and messages
  move there from the write buffer, and out;
* `acceptData`: a data message goes into the read buffer and its ack into
  `latestAckBuffer`.

`Sends` and `Receives` say what the buffers hold in terms of a `Flow`: the
unacknowledged messages are the outstanding numbers, the write buffer is what
has not been sent, and the remembered acks are those of the last `W` accepted
numbers. Each block is followed by the flow.
-/
namespace Cmu440.Lsp

/-! ## The blocks -/

/-- Returns `unAckedMsgBuffer`, `writeBuffer` and what is sent.
mirrors client_impl.go:163-170 and server_impl.go:359-365 -/
def sendOrQueue (windowSize : Int) (unAcked write : Buffer) (sentMsg : Message) :
    Buffer × Buffer × List Message :=
  if write.len = 0 ∧ (unAcked.len = 0 ∨
      ∀ front ∈ unAcked.front, sentMsg.seqNum - windowSize < front.seqNum) then
    (unAcked.insert sentMsg, write, [sentMsg])
  else (unAcked, write.insert sentMsg, [])

/-- At most `n` iterations of the loop that moves messages inside the window.
mirrors client_impl.go:225-233 and server_impl.go:159-167 -/
def slide (wSize wLeft : Int) : Nat → Buffer → Buffer → Buffer × Buffer × List Message
  | 0, unAcked, write => (unAcked, write, [])
  | n + 1, unAcked, write =>
    match write.remove with
    | none => (unAcked, write, [])
    | some (sentMsg, write') =>
      if sentMsg.seqNum - wSize ≥ wLeft then (unAcked, write, [])
      else
        let r := slide wSize wLeft n (unAcked.insert sentMsg) write'
        (r.1, r.2.1, sentMsg :: r.2.2)

/-- The write buffer is not empty and a message has just been acknowledged. The
loop removes a message in each iteration, so the length of the write buffer
bounds it. mirrors client_impl.go:217-234 and server_impl.go:150-168 -/
def moveMessages (wSize : Int) (unAcked write : Buffer) : Option (Buffer × Buffer × List Message) :=
  if unAcked.len = 0 then do
    let (sentMsg, write) ← write.remove
    let unAcked := unAcked.insert sentMsg
    let front ← unAcked.front
    let r := slide wSize front.seqNum write.len unAcked write
    return (r.1, r.2.1, sentMsg :: r.2.2)
  else do
    let front ← unAcked.front
    return slide wSize front.seqNum write.len unAcked write

/-- An ack arrives: whether it was for an unacknowledged message, the buffers
and what is sent. mirrors client_impl.go:213-234 and server_impl.go:145-168 -/
def ackReceived (wSize : Int) (unAcked write : Buffer) (seqNum : Int) :
    Option (Bool × Buffer × Buffer × List Message) :=
  let r := unAcked.delete seqNum
  if r.2 ∧ write.len > 0 then (moveMessages wSize r.1 write).map fun t => (r.2, t)
  else some (r.2, r.1, write, [])

/-- Returns `readBuffer` and `latestAckBuffer`.
mirrors client_impl.go:251-258 and server_impl.go:197-205 -/
def acceptData (windowSize connId : Int) (read latestAck : Buffer) (receivedMsg : Message) :
    Option (Buffer × Buffer) := do
  let latestAck ← (latestAck.insert (newAck connId receivedMsg.seqNum)).adjustUsingWindow windowSize
  return (read.insert receivedMsg, latestAck)

/-! ## Where the messages come from -/

theorem mem_sendOrQueue {W : Int} {unAcked write : Buffer} {m x : Message} :
    (x ∈ (sendOrQueue W unAcked write m).1.l → x ∈ unAcked.l ∨ x = m) ∧
      (x ∈ (sendOrQueue W unAcked write m).2.1.l → x ∈ write.l ∨ x = m) ∧
      (x ∈ (sendOrQueue W unAcked write m).2.2 → x = m) := by
  unfold sendOrQueue
  split
  · exact ⟨fun h => (Buffer.mem_insert.mp h).imp_right And.left, .inl, List.mem_singleton.mp⟩
  · exact ⟨.inl, fun h => (Buffer.mem_insert.mp h).imp_right And.left, fun h => nomatch h⟩

/-- The first message of the write buffer goes out, then others do. -/
theorem mem_moved {unAcked write write' : Buffer} {sent x : Message}
    {r : Buffer × Buffer × List Message} (hl : write.l = sent :: write'.l)
    (h : (x ∈ r.1.l → x ∈ (unAcked.insert sent).l ∨ x ∈ write'.l) ∧
      (x ∈ r.2.1.l → x ∈ write'.l) ∧ (x ∈ r.2.2 → x ∈ write'.l)) :
    (x ∈ r.1.l → x ∈ unAcked.l ∨ x ∈ write.l) ∧ (x ∈ r.2.1.l → x ∈ write.l) ∧
      (x ∈ sent :: r.2.2 → x ∈ write.l) := by
  obtain ⟨hu, hw, hs⟩ := h
  rw [hl]
  refine ⟨fun h => ?_, fun h => List.mem_cons_of_mem _ (hw h), fun h => ?_⟩
  · rcases hu h with h | h
    · rcases Buffer.mem_insert.mp h with h | ⟨rfl, -⟩
      · exact .inl h
      · exact .inr List.mem_cons_self
    · exact .inr (List.mem_cons_of_mem _ h)
  · rcases List.mem_cons.mp h with rfl | h
    · exact List.mem_cons_self
    · exact List.mem_cons_of_mem _ (hs h)

theorem mem_slide {W wLeft : Int} {n : Nat} {unAcked write : Buffer} {x : Message} :
    (x ∈ (slide W wLeft n unAcked write).1.l → x ∈ unAcked.l ∨ x ∈ write.l) ∧
      (x ∈ (slide W wLeft n unAcked write).2.1.l → x ∈ write.l) ∧
      (x ∈ (slide W wLeft n unAcked write).2.2 → x ∈ write.l) := by
  induction n generalizing unAcked write with
  | zero => exact ⟨.inl, id, fun h => nomatch h⟩
  | succ n ih =>
    unfold slide
    split
    · exact ⟨.inl, id, fun h => nomatch h⟩
    · rename_i sent write' hremove
      have hl := Buffer.remove_eq_some.mp hremove
      split
      · exact ⟨.inl, id, fun h => nomatch h⟩
      · exact mem_moved hl ih

theorem mem_moveMessages {W : Int} {unAcked write : Buffer} {r : Buffer × Buffer × List Message}
    (hr : moveMessages W unAcked write = some r) {x : Message} :
    (x ∈ r.1.l → x ∈ unAcked.l ∨ x ∈ write.l) ∧ (x ∈ r.2.1.l → x ∈ write.l) ∧
      (x ∈ r.2.2 → x ∈ write.l) := by
  unfold moveMessages at hr
  split at hr
  · simp only [Option.bind_eq_bind, Option.bind_eq_some_iff, Option.pure_def, Option.some.injEq] at hr
    obtain ⟨⟨sent, write'⟩, hremove, front, -, rfl⟩ := hr
    have hl := Buffer.remove_eq_some.mp hremove
    exact mem_moved hl mem_slide
  · simp only [Option.bind_eq_bind, Option.bind_eq_some_iff, Option.pure_def, Option.some.injEq] at hr
    obtain ⟨front, -, rfl⟩ := hr
    exact mem_slide

theorem mem_ackReceived {W : Int} {unAcked write : Buffer} {q : Int}
    {r : Bool × Buffer × Buffer × List Message} (hr : ackReceived W unAcked write q = some r)
    {x : Message} :
    (x ∈ r.2.1.l → x ∈ unAcked.l ∧ x.seqNum ≠ q ∨ x ∈ write.l) ∧ (x ∈ r.2.2.1.l → x ∈ write.l) ∧
      (x ∈ r.2.2.2 → x ∈ write.l) := by
  have hdel : x ∈ (unAcked.delete q).1.l → x ∈ unAcked.l ∧ x.seqNum ≠ q := by
    rw [Buffer.delete_l, List.mem_filter, decide_eq_true_eq]
    exact id
  unfold ackReceived at hr
  simp only at hr
  split at hr
  · obtain ⟨t, ht, rfl⟩ := Option.map_eq_some_iff.mp hr
    obtain ⟨hu, hw, hs⟩ := @mem_moveMessages W (unAcked.delete q).1 write t ht x
    exact ⟨fun h => (hu h).imp_left hdel, hw, hs⟩
  · cases hr
    exact ⟨fun h => .inl (hdel h), id, fun h => nomatch h⟩

/-! ## Numbered messages -/

/-- The data messages for `l`, numbered from `k`. -/
def numbered (id : Int) : Int → List Payload → List Message
  | _, [] => []
  | k, p :: l => newData id k p :: numbered id (k + 1) l

theorem numbered_append (id k : Int) (l l' : List Payload) :
    numbered id k (l ++ l') = numbered id k l ++ numbered id (k + l.length) l' := by
  induction l generalizing k with
  | nil => simp [numbered]
  | cons p l ih =>
    simp only [List.cons_append, numbered, ih, List.length_cons, Nat.cast_add, Nat.cast_one]
    rw [Int.add_assoc, Int.add_comm 1]

theorem mem_numbered {id k : Int} {l : List Payload} {m : Message} :
    m ∈ numbered id k l ↔ ∃ i p, l[i]? = some p ∧ m = newData id (k + (i : Nat)) p := by
  induction l generalizing k with
  | nil => simp [numbered]
  | cons p l ih =>
    simp only [numbered, List.mem_cons, ih]
    constructor
    · rintro (rfl | ⟨i, p', hp', rfl⟩)
      · exact ⟨0, p, rfl, by simp⟩
      · refine ⟨i + 1, p', by simpa using hp', ?_⟩
        push_cast
        rw [Int.add_assoc, Int.add_comm 1]
    · rintro ⟨i, p', hp', rfl⟩
      cases i with
      | zero =>
        simp only [List.getElem?_cons_zero, Option.some.injEq] at hp'
        exact .inl (by simp [hp'])
      | succ i =>
        refine .inr ⟨i, p', by simpa using hp', ?_⟩
        push_cast
        rw [Int.add_assoc, Int.add_comm 1]

/-- The numbers of `numbered` run through `k, ..., k + length - 1`. -/
theorem numbered_bounds {id k : Int} {l : List Payload} {m : Message} (h : m ∈ numbered id k l) :
    k ≤ m.seqNum ∧ m.seqNum < k + l.length := by
  obtain ⟨i, p, hp, rfl⟩ := mem_numbered.mp h
  have hlt : i < l.length := (List.getElem?_eq_some_iff.mp hp).1
  simp only [newData]
  omega

theorem numbered_exists {id k q : Int} {l : List Payload} (h1 : k ≤ q) (h2 : q < k + l.length) :
    ∃ m ∈ numbered id k l, m.seqNum = q := by
  have hlt : (q - k).toNat < l.length := by omega
  refine ⟨newData id q l[(q - k).toNat], mem_numbered.mpr ⟨(q - k).toNat, _, List.getElem?_eq_getElem hlt, ?_⟩, rfl⟩
  congr 1
  omega

/-- The connection id is on every message. -/
theorem numbered_relabel (id id' k : Int) (l : List Payload) :
    numbered id' k l = (numbered id k l).map fun m => { m with connID := id' } := by
  induction l generalizing k with
  | nil => rfl
  | cons p l ih =>
    simp only [numbered, List.map_cons, ← ih]
    rfl

/-! ## The sending half -/

/-- Everything sent so far on the connection. -/
def transmitted (id : Int) (f : Flow Payload) : List Message :=
  numbered id 1 (f.written.take f.sent)

/-- The flow goes on at its sending end. -/
structure Advances (W id : Int) (f f' : Flow Payload) : Prop where
  run : ∃ ls, (Flow.system W).Run f ls f'
  accepted : f'.accepted = f.accepted
  returned : f'.returned = f.returned
  transmitted : transmitted id f <+: transmitted id f'

theorem Advances.ok {W id : Int} {f f' : Flow Payload} (hW : 1 ≤ W) (h : Advances W id f f')
    (hok : f.Ok W) : f'.Ok W := by
  obtain ⟨ls, hrun⟩ := h.run
  exact hok.run hW hrun

theorem Advances.refl (W id : Int) (f : Flow Payload) : Advances W id f f :=
  ⟨⟨[], .nil f⟩, rfl, rfl, List.prefix_refl _⟩

/-- A flow does not depend on the id its messages carry. -/
theorem Advances.relabel {W id : Int} {f f' : Flow Payload} (h : Advances W id f f') (id' : Int) :
    Advances W id' f f' where
  run := h.run
  accepted := h.accepted
  returned := h.returned
  transmitted := by
    unfold Lsp.transmitted
    rw [numbered_relabel id id', numbered_relabel id id']
    exact h.transmitted.map _

/-- The flow goes on at its receiving end. -/
structure Absorbs (f f' : Flow Payload) : Prop where
  run : ∀ W, ∃ ls, (Flow.system W).Run f ls f'
  written : f'.written = f.written
  sent : f'.sent = f.sent
  acked : f'.acked = f.acked

theorem Absorbs.ok {W : Int} {f f' : Flow Payload} (hW : 1 ≤ W) (h : Absorbs f f')
    (hok : f.Ok W) : f'.Ok W := by
  obtain ⟨ls, hrun⟩ := h.run W
  exact hok.run hW hrun

theorem Absorbs.refl (f : Flow Payload) : Absorbs f f :=
  ⟨fun _ => ⟨[], .nil f⟩, rfl, rfl, rfl⟩

theorem Absorbs.trans {f f₁ f₂ : Flow Payload} (h : Absorbs f f₁) (h' : Absorbs f₁ f₂) :
    Absorbs f f₂ where
  run W := by
    obtain ⟨ls, hr⟩ := h.run W
    obtain ⟨ls', hr'⟩ := h'.run W
    exact ⟨ls ++ ls', hr.append hr'⟩
  written := h'.written.trans h.written
  sent := h'.sent.trans h.sent
  acked := h'.acked.trans h.acked

theorem Absorbs.transmitted_eq {f f' : Flow Payload} (h : Absorbs f f') (id : Int) :
    transmitted id f' = transmitted id f := by
  unfold transmitted
  rw [h.written, h.sent]

/-- The buffers of the sending half hold what the flow says. -/
structure Holds (id : Int) (f : Flow Payload) (unAcked write : Buffer) : Prop where
  unAcked_eq : unAcked.l = (transmitted id f).filter fun m => decide (m.seqNum ∉ f.acked)
  write_eq : write.l = numbered id (f.sent + 1) (f.written.drop f.sent)

/-- Nothing that fits into the window is held back. -/
structure Sends (W id : Int) (f : Flow Payload) (unAcked write : Buffer) : Prop
    extends Holds id f unAcked write where
  full : write.l ≠ [] → ∃ m, unAcked.front = some m ∧ m.seqNum + W ≤ f.sent + 1

theorem transmitted_bounds {id : Int} {f : Flow Payload} {m : Message} (h : m ∈ transmitted id f) :
    f.Sent m.seqNum := by
  obtain ⟨h1, h2⟩ := numbered_bounds h
  rw [List.length_take] at h2
  exact ⟨h1, by omega⟩

theorem transmitted_exists (id : Int) {f : Flow Payload} (hle : f.sent ≤ f.written.length) {q : Int}
    (hq : f.Sent q) : ∃ m ∈ transmitted id f, m.seqNum = q := by
  refine numbered_exists hq.1 ?_
  rw [List.length_take, Nat.min_eq_left hle]
  have := hq.2
  omega

theorem transmitted_data {id : Int} {f : Flow Payload} {m : Message} (h : m ∈ transmitted id f) :
    m.type = .data ∧ m.connID = id := by
  obtain ⟨i, p, -, rfl⟩ := mem_numbered.mp h
  exact ⟨rfl, rfl⟩

/-- The payload a transmitted message carries is the one written under its
number. -/
theorem transmitted_payload {id : Int} {f : Flow Payload} {m : Message} (h : m ∈ transmitted id f)
    (i : Nat) (hi : m.seqNum = i + 1) : f.written[i]? = some m.payload := by
  obtain ⟨j, p, hp, rfl⟩ := mem_numbered.mp h
  simp only [newData] at hi ⊢
  have hij : j = i := by omega
  subst hij
  rw [List.getElem?_take] at hp
  split at hp
  · exact hp
  · cases hp

/-- The sending half does not notice what happens at the receiving end. -/
theorem Sends.absorb {W id : Int} {f f' : Flow Payload} {unAcked write : Buffer}
    (h : Sends W id f unAcked write) (habs : Absorbs f f') : Sends W id f' unAcked write where
  unAcked_eq := by
    rw [habs.transmitted_eq, habs.acked]
    exact h.unAcked_eq
  write_eq := by
    rw [habs.written, habs.sent]
    exact h.write_eq
  full := by
    rw [habs.sent]
    exact h.full

namespace Holds

variable {id : Int} {f : Flow Payload} {unAcked write : Buffer}

theorem mem_unAcked (h : Holds id f unAcked write) {m : Message} :
    m ∈ unAcked.l ↔ m ∈ transmitted id f ∧ m.seqNum ∉ f.acked := by
  rw [h.unAcked_eq, List.mem_filter, decide_eq_true_eq]

theorem outstanding (h : Holds id f unAcked write) {m : Message} (hm : m ∈ unAcked.l) :
    f.Outstanding m.seqNum :=
  ⟨transmitted_bounds (h.mem_unAcked.mp hm).1, (h.mem_unAcked.mp hm).2⟩

theorem exists_of_outstanding (h : Holds id f unAcked write) (hle : f.sent ≤ f.written.length)
    {q : Int} (hq : f.Outstanding q) : ∃ m ∈ unAcked.l, m.seqNum = q := by
  obtain ⟨m, hm, rfl⟩ := transmitted_exists id hle hq.1
  exact ⟨m, h.mem_unAcked.mpr ⟨hm, hq.2⟩, rfl⟩

theorem write_nil (h : Holds id f unAcked write) (hle : f.sent ≤ f.written.length)
    (hw : write.l = []) : f.sent = f.written.length := by
  rw [h.write_eq] at hw
  cases hd : f.written.drop f.sent with
  | nil =>
    have := List.drop_eq_nil_iff.mp hd
    omega
  | cons p l =>
    rw [hd] at hw
    cases hw

theorem write_bounds (h : Holds id f unAcked write) {m : Message} (hm : m ∈ write.l) :
    (f.sent : Int) < m.seqNum ∧ m.seqNum ≤ f.written.length := by
  rw [h.write_eq] at hm
  obtain ⟨h1, h2⟩ := numbered_bounds hm
  rw [List.length_drop] at h2
  omega

end Holds

/-- Nothing written, nothing sent. -/
theorem sends_empty (W id : Int) : Sends W id .empty .newBuffer .newBuffer :=
  ⟨⟨rfl, rfl⟩, fun h => absurd rfl h⟩

/-- Sending the next number. -/
theorem transmitted_send {id : Int} {f : Flow Payload} {p : Payload}
    (hp : f.written[f.sent]? = some p) :
    transmitted id { f with sent := f.sent + 1 } =
      transmitted id f ++ [newData id (f.sent + 1) p] := by
  have hlt : f.sent < f.written.length := (List.getElem?_eq_some_iff.mp hp).1
  unfold transmitted
  simp only [List.take_add_one, hp, Option.toList_some, numbered_append, List.length_take,
    Nat.min_eq_left (Nat.le_of_lt hlt), numbered]
  rw [Int.add_comm 1]

/-- The first message of the write buffer is the next one to send. -/
theorem Holds.write_cons {id : Int} {f : Flow Payload} {unAcked write : Buffer} {m : Message}
    {rest : List Message} (h : Holds id f unAcked write) (hl : write.l = m :: rest) :
    ∃ p, f.written[f.sent]? = some p ∧ m = newData id (f.sent + 1) p ∧
      rest = numbered id (f.sent + 1 + 1) (f.written.drop (f.sent + 1)) := by
  rw [h.write_eq] at hl
  cases hd : f.written.drop f.sent with
  | nil =>
    rw [hd] at hl
    cases hl
  | cons p l =>
    rw [hd] at hl
    obtain ⟨rfl, hrest⟩ := List.cons.inj hl
    refine ⟨p, ?_, rfl, ?_⟩
    · rw [← List.head?_drop, hd]
      rfl
    · rw [← List.drop_drop, hd]
      exact hrest.symm

/-- A message of the write buffer that is inside the window is sent. -/
theorem Holds.move {W id : Int} {f : Flow Payload} {unAcked write write' : Buffer} {m : Message}
    (h : Holds id f unAcked write) (hok : f.Ok W) (hm : write.remove = some (m, write'))
    (hwin : ∀ x ∈ unAcked.l, m.seqNum < x.seqNum + W) :
    Flow.Step W f .send { f with sent := f.sent + 1 } ∧
      Holds id { f with sent := f.sent + 1 } (unAcked.insert m) write' ∧
      transmitted id { f with sent := f.sent + 1 } = transmitted id f ++ [m] ∧
      (unAcked.insert m).l = unAcked.l ++ [m] := by
  obtain ⟨p, hp, rfl, hrest⟩ := h.write_cons (Buffer.remove_eq_some.mp hm)
  have hlt : f.sent < f.written.length := (List.getElem?_eq_some_iff.mp hp).1
  have htr : transmitted id { f with sent := f.sent + 1 } = _ := transmitted_send hp
  have hins : (unAcked.insert (newData id (f.sent + 1) p)).l =
      unAcked.l ++ [newData id (f.sent + 1) p] := by
    refine Buffer.insert_last fun x hx => ?_
    have hx' := (h.outstanding hx).1.2
    simp only [newData]
    omega
  have hfresh : (f.sent : Int) + 1 ∉ f.acked := by
    intro hq
    have := (hok.acked_sent _ hq).2
    omega
  refine ⟨.send f hlt ?_, ⟨?_, ?_⟩, htr, hins⟩
  · intro q hq
    obtain ⟨x, hx, rfl⟩ := h.exists_of_outstanding hok.sent_le hq
    exact hwin x hx
  · rw [hins, htr, List.filter_append, h.unAcked_eq]
    simp only [newData, List.filter_cons, hfresh, not_false_eq_true, decide_true, if_true,
      List.filter_nil]
  · rw [hrest]
    push_cast
    rfl

/-- The loop sends what fits into the window, and only stops at a message that
does not. -/
theorem Holds.slide {W id : Int} {unAcked write : Buffer} {f : Flow Payload} {front : Message}
    {n : Nat} (hW : 1 ≤ W) (h : Holds id f unAcked write) (hok : f.Ok W)
    (hfront : unAcked.front = some front) (hn : write.len ≤ n) :
    ∃ ls k, (Flow.system W).Run f ls { f with sent := f.sent + k } ∧
      Sends W id { f with sent := f.sent + k } (slide W front.seqNum n unAcked write).1
        (slide W front.seqNum n unAcked write).2.1 ∧
      transmitted id { f with sent := f.sent + k } =
        transmitted id f ++ (slide W front.seqNum n unAcked write).2.2 := by
  induction n generalizing unAcked write f with
  | zero =>
    have hnil : write.l = [] := Buffer.len_eq_zero.mp (Nat.le_zero.mp hn)
    exact ⟨[], 0, .nil _, ⟨h, fun hne => absurd hnil hne⟩, by simp [Lsp.slide]⟩
  | succ n ih =>
    unfold Lsp.slide
    cases hm : write.remove with
    | none =>
      exact ⟨[], 0, .nil _, ⟨h, fun hne => absurd (Buffer.remove_eq_none.mp hm) hne⟩, by simp⟩
    | some r =>
      obtain ⟨m, write'⟩ := r
      have hl := Buffer.remove_eq_some.mp hm
      by_cases hge : m.seqNum - W ≥ front.seqNum
      · -- the first message that does not fit
        simp only [if_pos hge]
        refine ⟨[], 0, .nil _, ⟨h, fun _ => ⟨front, hfront, ?_⟩⟩, by simp⟩
        obtain ⟨p, -, rfl, -⟩ := h.write_cons hl
        simp only [newData] at hge
        simp only [Nat.add_zero]
        omega
      · simp only [if_neg hge]
        have hwin : ∀ x ∈ unAcked.l, m.seqNum < x.seqNum + W := by
          intro x hx
          have := Buffer.front_le hfront x hx
          omega
        obtain ⟨hst, hh, htr, hins⟩ := h.move hok hm hwin
        have hfront' : (unAcked.insert m).front = some front := by
          unfold Buffer.front at hfront ⊢
          rw [hins, List.head?_append, hfront]
          rfl
        have hlen : write'.len ≤ n := by
          have : write.len = write'.len + 1 := by
            simp only [Buffer.len, hl, List.length_cons]
          omega
        obtain ⟨ls, k, hrun, hs, htr'⟩ := ih hh (hok.step hW hst) hfront' hlen
        have hk : f.sent + 1 + k = f.sent + (k + 1) := by omega
        simp only [hk] at hrun hs htr'
        refine ⟨.send :: ls, k + 1, .cons hst hrun, hs, ?_⟩
        rw [htr', htr, List.append_assoc]
        rfl

/-- After an acknowledgement: the messages move until the window is full. -/
theorem Holds.moveMessages {W id : Int} {unAcked write : Buffer} {f : Flow Payload} (hW : 1 ≤ W)
    (h : Holds id f unAcked write) (hok : f.Ok W) {r : Buffer × Buffer × List Message}
    (hr : moveMessages W unAcked write = some r) :
    ∃ ls k, (Flow.system W).Run f ls { f with sent := f.sent + k } ∧
      Sends W id { f with sent := f.sent + k } r.1 r.2.1 ∧
      transmitted id { f with sent := f.sent + k } = transmitted id f ++ r.2.2 := by
  unfold Lsp.moveMessages at hr
  by_cases hnil : unAcked.len = 0
  · rw [if_pos hnil] at hr
    simp only [Option.bind_eq_bind, Option.bind_eq_some_iff, Option.pure_def,
      Option.some.injEq] at hr
    obtain ⟨⟨m, write'⟩, hm, front, hfront, rfl⟩ := hr
    have hl : unAcked.l = [] := Buffer.len_eq_zero.mp hnil
    obtain ⟨hst, hh, htr, hins⟩ := h.move hok hm (fun x hx => by rw [hl] at hx; cases hx)
    obtain ⟨ls, k, hrun, hs, htr'⟩ := hh.slide hW (hok.step hW hst) hfront (Nat.le_refl _)
    have hk : f.sent + 1 + k = f.sent + (k + 1) := by omega
    simp only [hk] at hrun hs htr'
    refine ⟨.send :: ls, k + 1, .cons hst hrun, hs, ?_⟩
    rw [htr', htr, List.append_assoc]
    rfl
  · rw [if_neg hnil] at hr
    simp only [Option.bind_eq_bind, Option.bind_eq_some_iff, Option.pure_def,
      Option.some.injEq] at hr
    obtain ⟨front, hfront, rfl⟩ := hr
    exact h.slide hW hok hfront (Nat.le_refl _)

/-- A write, followed by the flow: the message is written and, if it fits into
the window, sent. -/
theorem Sends.sendOrQueue {W id : Int} {unAcked write : Buffer} {f : Flow Payload} (hW : 1 ≤ W)
    (h : Sends W id f unAcked write) (hok : f.Ok W) (p : Payload)
    {r : Buffer × Buffer × List Message}
    (hr : sendOrQueue W unAcked write (newData id (f.written.length + 1) p) = r) :
    ∃ ls k, (Flow.system W).Run f ls
        { f with written := f.written ++ [p], sent := f.sent + k } ∧
      Sends W id { f with written := f.written ++ [p], sent := f.sent + k } r.1 r.2.1 ∧
      transmitted id { f with written := f.written ++ [p], sent := f.sent + k } =
        transmitted id f ++ r.2.2 := by
  have hlast : ∀ x ∈ write.l, x.seqNum < (newData id (f.written.length + 1) p).seqNum := by
    intro x hx
    have := (h.write_bounds hx).2
    simp only [newData]
    omega
  -- the message has been written and waits behind the others
  have hqueued : Holds id { f with written := f.written ++ [p] } unAcked
      (write.insert (newData id (f.written.length + 1) p)) := by
    constructor
    · rw [h.unAcked_eq]
      unfold transmitted
      simp only [List.take_append_of_le_length hok.sent_le]
    · rw [Buffer.insert_last hlast, h.write_eq, List.drop_append_of_le_length hok.sent_le,
        numbered_append, List.length_drop]
      simp only [numbered]
      congr 3
      have := hok.sent_le
      omega
  have htr : transmitted id { f with written := f.written ++ [p] } = transmitted id f := by
    unfold transmitted
    simp only [List.take_append_of_le_length hok.sent_le]
  have hst : Flow.Step W f (.write p) { f with written := f.written ++ [p] } := .write f p
  unfold Lsp.sendOrQueue at hr
  split at hr
  · rename_i hc
    obtain ⟨hw, hwin⟩ := hc
    subst hr
    have hnil : write.l = [] := Buffer.len_eq_zero.mp hw
    have hm : (write.insert (newData id (f.written.length + 1) p)).remove =
        some (newData id (f.written.length + 1) p, write) := by
      rw [Buffer.remove_eq_some, Buffer.insert_last hlast, hnil]
      rfl
    have hwin' : ∀ x ∈ unAcked.l,
        (newData id (f.written.length + 1) p).seqNum < x.seqNum + W := by
      intro x hx
      cases hfront : unAcked.front with
      | none =>
        rw [Buffer.front_eq_none.mp hfront] at hx
        cases hx
      | some front =>
        rcases hwin with hz | hlt
        · rw [Buffer.len_eq_zero.mp hz] at hx
          cases hx
        · have h1 := hlt front hfront
          have h2 := Buffer.front_le hfront x hx
          omega
    obtain ⟨hst', hh, htr', -⟩ := hqueued.move (hok.step hW hst) hm hwin'
    refine ⟨[.write p, .send], 1, .cons hst (.single hst'), ⟨hh, fun hne => absurd hnil hne⟩, ?_⟩
    rw [htr', htr]
  · rename_i hc
    subst hr
    refine ⟨[.write p], 0, .single hst, ⟨hqueued, fun _ => ?_⟩, ?_⟩
    · by_cases hw : write.l = []
      · -- the message is the first one that does not fit
        have hsent := h.write_nil hok.sent_le hw
        have hc' : ¬(unAcked.len = 0 ∨ ∀ front ∈ unAcked.front,
            (newData id (f.written.length + 1) p).seqNum - W < front.seqNum) :=
          fun hwin => hc ⟨Buffer.len_eq_zero.mpr hw, hwin⟩
        rw [not_or] at hc'
        cases hfront : unAcked.front with
        | none => exact absurd (Buffer.len_eq_zero.mpr (Buffer.front_eq_none.mp hfront)) hc'.1
        | some front =>
          refine ⟨front, rfl, ?_⟩
          have hge : ¬((newData id (f.written.length + 1) p).seqNum - W < front.seqNum) := by
            intro hlt
            refine hc'.2 fun x hx => ?_
            rw [hfront] at hx
            cases hx
            exact hlt
          simp only [newData] at hge
          simp only [Nat.add_zero]
          omega
      · exact h.full hw
    · rw [List.append_nil]
      exact htr

/-- The acknowledged numbers after an ack for `q`: it counts if `q` was sent. -/
def ackedBy (f : Flow Payload) (q : Int) : List Int :=
  if f.Sent q then q :: f.acked else f.acked

/-- Deleting the acknowledged message. -/
theorem Holds.delete {W id : Int} {unAcked write : Buffer} {f : Flow Payload}
    (h : Holds id f unAcked write) (q : Int) :
    (∃ ls, (Flow.system W).Run f ls { f with acked := ackedBy f q }) ∧
      Holds id { f with acked := ackedBy f q } (unAcked.delete q).1 write := by
  unfold ackedBy
  by_cases hq : f.Sent q
  · rw [if_pos hq]
    refine ⟨⟨[.ack q], .single (.ack f q hq)⟩, ⟨?_, h.write_eq⟩⟩
    rw [Buffer.delete_l, h.unAcked_eq, List.filter_filter]
    simp only [List.mem_cons, not_or, ne_eq, Bool.decide_and]
    rfl
  · rw [if_neg hq]
    refine ⟨⟨[], .nil _⟩, ⟨?_, h.write_eq⟩⟩
    rw [Buffer.delete_l, ← h.unAcked_eq]
    refine List.filter_eq_self.mpr fun m hm => decide_eq_true ?_
    intro hmq
    exact hq (hmq ▸ (h.outstanding hm).1)

/-- An ack, followed by the flow. -/
theorem Sends.ackReceived {W id : Int} {unAcked write : Buffer} {f : Flow Payload} (hW : 1 ≤ W)
    (h : Sends W id f unAcked write) (hok : f.Ok W) (q : Int)
    {r : Bool × Buffer × Buffer × List Message} (hr : ackReceived W unAcked write q = some r) :
    ∃ ls k, (Flow.system W).Run f ls { f with acked := ackedBy f q, sent := f.sent + k } ∧
      Sends W id { f with acked := ackedBy f q, sent := f.sent + k } r.2.1 r.2.2.1 ∧
      transmitted id { f with acked := ackedBy f q, sent := f.sent + k } =
        transmitted id f ++ r.2.2.2 := by
  obtain ⟨⟨ls, hrun⟩, hh⟩ := h.toHolds.delete (W := W) q
  unfold Lsp.ackReceived at hr
  simp only at hr
  split at hr
  · obtain ⟨t, ht, rfl⟩ := Option.map_eq_some_iff.mp hr
    obtain ⟨ls', k, hrun', hs, htr⟩ := hh.moveMessages hW (hok.run hW hrun) ht
    exact ⟨ls ++ ls', k, hrun.append hrun', hs, htr⟩
  · rename_i hc
    cases hr
    refine ⟨ls, 0, hrun, ⟨hh, fun hne => ?_⟩, (List.append_nil _).symm⟩
    -- nothing was deleted, or nothing is waiting
    have hlen : write.len > 0 := List.length_pos_iff.mpr hne
    have hmiss : ¬∃ m ∈ unAcked.l, m.seqNum = q := by
      intro hex
      exact hc ⟨Buffer.delete_found.mpr hex, hlen⟩
    have hsame : (unAcked.delete q).1 = unAcked := by
      apply Buffer.ext
      rw [Buffer.delete_l]
      exact List.filter_eq_self.mpr fun m hm => decide_eq_true fun hmq => hmiss ⟨m, hm, hmq⟩
    rw [hsame]
    exact h.full hne

/-- An ack for nothing that waits for one leaves the buffers as they are. -/
theorem ackReceived_missed {W : Int} {unAcked write : Buffer} {q : Int}
    (h : (unAcked.delete q).2 = false) :
    ackReceived W unAcked write q = some (false, unAcked, write, []) := by
  have hmiss : ¬∃ m ∈ unAcked.l, m.seqNum = q := by
    rw [← Buffer.delete_found, h]
    nofun
  have hsame : (unAcked.delete q).1 = unAcked := by
    apply Buffer.ext
    rw [Buffer.delete_l]
    exact List.filter_eq_self.mpr fun m hm => decide_eq_true fun hmq => hmiss ⟨m, hm, hmq⟩
  simp only [ackReceived, h, Bool.false_eq_true, false_and, if_false, hsame]

theorem ackReceived_found {W : Int} {unAcked write : Buffer} {q : Int}
    {r : Bool × Buffer × Buffer × List Message} (hr : ackReceived W unAcked write q = some r) :
    r.1 = true ↔ ∃ m ∈ unAcked.l, m.seqNum = q := by
  unfold ackReceived at hr
  simp only at hr
  split at hr
  · obtain ⟨t, -, rfl⟩ := Option.map_eq_some_iff.mp hr
    exact Buffer.delete_found
  · cases hr
    exact Buffer.delete_found

theorem moveMessages_isSome (W : Int) (unAcked : Buffer) {write : Buffer} (h : write.len > 0) :
    ∃ r, moveMessages W unAcked write = some r := by
  unfold moveMessages
  split
  · cases hw : write.remove with
    | none =>
      rw [Buffer.len_eq_zero.mpr (Buffer.remove_eq_none.mp hw)] at h
      exact absurd h (lt_irrefl 0)
    | some t =>
      obtain ⟨x, hx, -⟩ := Buffer.exists_mem_insert unAcked t.1
      cases hf : (unAcked.insert t.1).front with
      | none =>
        rw [Buffer.front_eq_none.mp hf] at hx
        cases hx
      | some front => simp [hf]
  · rename_i hne
    cases hf : unAcked.front with
    | none => exact absurd (Buffer.len_eq_zero.mpr (Buffer.front_eq_none.mp hf)) hne
    | some front => simp

theorem ackReceived_isSome (W : Int) (unAcked write : Buffer) (q : Int) :
    ∃ r, ackReceived W unAcked write q = some r := by
  unfold ackReceived
  simp only
  split
  · rename_i h
    obtain ⟨r, hr⟩ := moveMessages_isSome W (unAcked.delete q).1 h.2
    rw [hr]
    exact ⟨_, rfl⟩
  · exact ⟨_, rfl⟩

/-! ## The receiving half -/

/-- The buffers of the receiving half: what waits to be read was sent to it and
is not behind `expectedSeqNum`; an accepted number that is less than `W` behind
every other accepted number has its ack in `latestAckBuffer`. -/
structure Receives (W id : Int) (f : Flow Payload) (read latestAck : Buffer) (expected : Int) :
    Prop where
  expected_eq : expected = f.returned.length + 1
  read_sent : ∀ m ∈ read.l, m ∈ transmitted id f
  read_accepted : ∀ m ∈ read.l, m.seqNum ∈ f.accepted
  read_ge : ∀ m ∈ read.l, expected ≤ m.seqNum
  acks : ∀ m ∈ latestAck.l, ∃ q ∈ f.accepted, m = newAck id q
  remembered : ∀ q ∈ f.accepted, (∀ p ∈ f.accepted, p < q + W) → newAck id q ∈ latestAck.l

theorem receives_empty (W id : Int) : Receives W id .empty .newBuffer .newBuffer 1 where
  expected_eq := rfl
  read_sent := nofun
  read_accepted := nofun
  read_ge := nofun
  acks := nofun
  remembered := nofun

theorem acceptData_isSome (W id : Int) (read latestAck : Buffer) (m : Message) :
    ∃ r, acceptData W id read latestAck m = some r := by
  obtain ⟨x, hx, -⟩ := Buffer.exists_mem_insert latestAck (newAck id m.seqNum)
  obtain ⟨latestAck', hadj⟩ := Buffer.adjust_isSome hx W
  refine ⟨(read.insert m, latestAck'), ?_⟩
  simp only [acceptData, hadj, Option.bind_eq_bind, Option.bind_some, Option.pure_def]

/-- What `latestAckBuffer` holds was there before or is the new ack. -/
theorem acceptData_latestAck {W id : Int} {read latestAck : Buffer} {m : Message}
    {r : Buffer × Buffer} (hr : acceptData W id read latestAck m = some r) {x : Message}
    (hx : x ∈ r.2.l) : x ∈ latestAck.l ∨ x = newAck id m.seqNum := by
  unfold acceptData at hr
  simp only [Option.bind_eq_bind, Option.bind_eq_some_iff, Option.pure_def, Option.some.injEq] at hr
  obtain ⟨latestAck', hadj, rfl⟩ := hr
  obtain ⟨back, -, -, hl⟩ := Buffer.adjust_l hadj
  simp only [hl] at hx
  rcases Buffer.mem_insert.mp (List.mem_filter.mp hx).1 with hx | ⟨rfl, -⟩
  · exact .inl hx
  · exact .inr rfl

namespace Receives

variable {W id : Int} {f : Flow Payload} {read latestAck : Buffer} {expected : Int}

theorem advance (h : Receives W id f read latestAck expected) {f' : Flow Payload}
    {W' : Int} (hadv : Advances W' id f f') : Receives W id f' read latestAck expected where
  expected_eq := by rw [hadv.returned]; exact h.expected_eq
  read_sent m hm := hadv.transmitted.subset (h.read_sent m hm)
  read_accepted m hm := by rw [hadv.accepted]; exact h.read_accepted m hm
  read_ge := h.read_ge
  acks := by rw [hadv.accepted]; exact h.acks
  remembered := by rw [hadv.accepted]; exact h.remembered

/-- A data message is accepted. -/
theorem acceptData (h : Receives W id f read latestAck expected) {m : Message}
    (hm : m ∈ transmitted id f) (hge : expected ≤ m.seqNum) {r : Buffer × Buffer}
    (hr : acceptData W id read latestAck m = some r) :
    Absorbs f { f with accepted := m.seqNum :: f.accepted } ∧
      Receives W id { f with accepted := m.seqNum :: f.accepted } r.1 r.2 expected := by
  unfold Lsp.acceptData at hr
  simp only [Option.bind_eq_bind, Option.bind_eq_some_iff, Option.pure_def, Option.some.injEq] at hr
  obtain ⟨latestAck', hadj, rfl⟩ := hr
  obtain ⟨back, hback, -, hl⟩ := Buffer.adjust_l hadj
  -- all acks are for accepted numbers, also after the insertion
  have hacks : ∀ x ∈ (latestAck.insert (newAck id m.seqNum)).l,
      ∃ q ∈ m.seqNum :: f.accepted, x = newAck id q := by
    intro x hx
    rcases Buffer.mem_insert.mp hx with hx | ⟨rfl, -⟩
    · obtain ⟨q, hq, rfl⟩ := h.acks x hx
      exact ⟨q, List.mem_cons_of_mem _ hq, rfl⟩
    · exact ⟨m.seqNum, List.mem_cons_self, rfl⟩
  have hnew : newAck id m.seqNum ∈ (latestAck.insert (newAck id m.seqNum)).l := by
    by_cases hex : ∃ x ∈ latestAck.l, x.seqNum = m.seqNum
    · obtain ⟨x, hx, hxm⟩ := hex
      obtain ⟨q, -, rfl⟩ := h.acks x hx
      simp only [newAck] at hxm
      subst hxm
      exact Buffer.mem_insert.mpr (.inl hx)
    · exact Buffer.mem_insert.mpr (.inr ⟨rfl, fun x hx he => hex ⟨x, hx, he⟩⟩)
  refine ⟨⟨fun _ => ⟨_, .single (.accept f _ (transmitted_bounds hm))⟩, rfl, rfl, rfl⟩,
    ⟨h.expected_eq, ?_, ?_, ?_, ?_, ?_⟩⟩
  · intro x hx
    rcases Buffer.mem_insert.mp hx with hx | ⟨rfl, -⟩
    · exact h.read_sent x hx
    · exact hm
  · intro x hx
    rcases Buffer.mem_insert.mp hx with hx | ⟨rfl, -⟩
    · exact List.mem_cons_of_mem _ (h.read_accepted x hx)
    · exact List.mem_cons_self
  · intro x hx
    rcases Buffer.mem_insert.mp hx with hx | ⟨rfl, -⟩
    · exact h.read_ge x hx
    · exact hge
  · intro x hx
    simp only [hl] at hx
    exact hacks x (List.mem_filter.mp hx).1
  · intro q hq hall
    simp only [hl, List.mem_filter, decide_eq_true_eq]
    obtain ⟨p, hp, rfl⟩ := hacks back hback
    have hlt := hall p hp
    refine ⟨?_, by simp only [newAck]; omega⟩
    rcases List.mem_cons.mp hq with rfl | hq
    · exact hnew
    · exact Buffer.mem_insert.mpr
        (.inl (h.remembered q hq fun p hp => hall p (List.mem_cons_of_mem _ hp)))

/-- The expected message is returned to a `Read`. -/
theorem deliver (h : Receives W id f read latestAck expected) {m : Message} {read' : Buffer}
    (hm : read.remove = some (m, read')) (hexp : m.seqNum = expected) :
    Absorbs f { f with returned := f.returned ++ [m.payload] } ∧
      Receives W id { f with returned := f.returned ++ [m.payload] } read' latestAck
        (expected + 1) := by
  have hl := Buffer.remove_eq_some.mp hm
  have hmem : m ∈ read.l := by
    rw [hl]
    exact List.mem_cons_self
  have hsub : ∀ x ∈ read'.l, x ∈ read.l := by
    intro x hx
    rw [hl]
    exact List.mem_cons_of_mem _ hx
  have hseq : m.seqNum = f.returned.length + 1 := by
    rw [hexp]
    exact h.expected_eq
  have hacc : (f.returned.length : Int) + 1 ∈ f.accepted := by
    rw [← hseq]
    exact h.read_accepted m hmem
  have hst : ∀ W', Flow.Step W' f .ret { f with returned := f.returned ++ [m.payload] } := fun _ =>
    .ret f m.payload (transmitted_payload (h.read_sent m hmem) _ hseq) hacc
  refine ⟨⟨fun W' => ⟨_, .single (hst W')⟩, rfl, rfl, rfl⟩, ⟨?_, ?_, ?_, ?_, h.acks, h.remembered⟩⟩
  · simp only [List.length_append, List.length_singleton]
    push_cast
    rw [h.expected_eq]
  · exact fun x hx => h.read_sent x (hsub x hx)
  · exact fun x hx => h.read_accepted x (hsub x hx)
  · intro x hx
    have hinc := read.increasing
    rw [hl] at hinc
    have := (List.pairwise_cons.mp hinc).1 x hx
    omega

end Receives

end Cmu440.Lsp
