import Cmu440.Lsp.ClientRuns
import Mathlib.Data.List.Nodup

/-!
# Answers of the client

A call of the client's API waits on a reply channel of its own. The event handler
of client_impl.go answers it at once or keeps it in `deferedRead` or
`deferedClose`, and the loop ends in `handleClose`, or when the connection is lost
before it has a `ConnID`.

`CallRun` records the calls the event handler has taken and the channels it has
replied on.

* `every_call_answered`: no call gets two replies, and when the loop has ended
  each has got one, as long as a `Close` that can be answered at once is not taken
  while a `Read` is blocked, and the server does not hand out the number 0.
* `read_never_answered`: `handleClose` does not look at `deferedRead`.
-/
namespace Cmu440.Lsp

def ClientOut.repliesTo : ClientOut → Option Nat
  | .reply replyc _ => some replyc
  | _ => none

/-- A call of the API, with a reply channel. -/
def ClientOp.isCall : ClientOp → Bool
  | .epochtimer | .receivemsg _ => false
  | _ => true

/-- The channel of the call that is taken, if it is one. -/
def newCalls : Option ClientReq → List Nat
  | some req => if req.op.isCall then [req.replyc] else []
  | none => []

structure CallRun where
  run : ClientRun
  calls : List Nat
  replies : List Nat

namespace CallRun

def init : CallRun := ⟨.init, [], []⟩

/-- Every call makes its own channel. -/
def fresh (r : CallRun) (incoming : Option ClientReq) : Bool :=
  (newCalls incoming).all (· ∉ r.calls)

def record (r : CallRun) (incoming : Option ClientReq) (c : Client) (out : List ClientOut) :
    CallRun where
  run := r.run.record incoming c out
  calls := newCalls incoming ++ r.calls
  replies := r.replies ++ out.filterMap ClientOut.repliesTo

def step (P : Params) (r : CallRun) (incoming : Option ClientReq) : Option CallRun :=
  if r.run.admits incoming ∧ r.fresh incoming then
    (r.run.client.iterate P incoming).map fun t => r.record incoming t.1 t.2
  else none

/-- A `Close` with everything acknowledged is not taken while a `Read` is blocked,
and no `Ack` with numbers 0 and 0 arrives, neither the one that gives the
connection its number nor a later one. -/
def prompt (r : CallRun) : Option ClientReq → Bool
  | some ⟨.doclose, _⟩ => !r.run.client.flushed || r.run.client.deferedRead.isEmpty
  | some ⟨.receivemsg msg, _⟩ => !(msg.type = .ack ∧ msg.seqNum = 0 ∧ msg.connID = 0)
  | _ => true

end CallRun

def callRuns (P : Params) : LTS CallRun (Option ClientReq) := .ofFn (· = .init) (CallRun.step P)

def promptRuns (P : Params) : LTS CallRun (Option ClientReq) :=
  .ofFn (· = .init) (LTS.guarded CallRun.prompt (CallRun.step P))

/-! ## The replies of an iteration -/

/-- What an iteration does to the requests that wait. -/
inductive Answering (c : Client) : Option ClientReq → Client → List Nat → Prop
  /-- A request is put off. -/
  | deferRead {c' : Client} (replyc : Nat) (hread : c'.deferedRead = c.deferedRead ++ [replyc])
      (hclose : c'.deferedClose = c.deferedClose) (hrun : c'.clientRunning = c.clientRunning) :
      Answering c (some ⟨.doread, replyc⟩) c' []
  | deferClose {c' : Client} (replyc : Nat) (hread : c'.deferedRead = c.deferedRead)
      (hclose : c'.deferedClose = c.deferedClose ++ [replyc])
      (hrun : c'.clientRunning = c.clientRunning) : Answering c (some ⟨.doclose, replyc⟩) c' []
  /-- A request other than a `Close` is answered at once. -/
  | answer {c' : Client} (req : ClientReq) (hcall : req.op.isCall = true)
      (hread : c'.deferedRead = c.deferedRead) (hclose : c'.deferedClose = c.deferedClose)
      (hrun : c'.clientRunning = c.clientRunning) : Answering c (some req) c' [req.replyc]
  | event {c' : Client} (req : ClientReq) (hcall : req.op.isCall = false)
      (hread : c'.deferedRead = c.deferedRead) (hclose : c'.deferedClose = c.deferedClose)
      (hrun : c'.clientRunning = c.clientRunning) : Answering c (some req) c' []
  /-- A blocked `Read` is answered. -/
  | wake {c' : Client} (replyc : Nat) (hread : c.deferedRead = replyc :: c'.deferedRead)
      (hclose : c'.deferedClose = c.deferedClose) (hrun : c'.clientRunning = c.clientRunning) :
      Answering c none c' [replyc]
  /-- A `Close` ends the loop and answers all others. -/
  | close {c' : Client} (replyc : Nat) (hflushed : c.flushed = true) (hrun : c'.clientRunning = false) :
      Answering c (some ⟨.doclose, replyc⟩) c' (replyc :: c.deferedClose)
  | closeWaiting {c' : Client} (hread : c.deferedRead = []) (hrun : c'.clientRunning = false) :
      Answering c none c' c.deferedClose

section Answering

variable {P : Params} {c c' : Client} {out : List ClientOut} {replyc : Nat}

theorem repliesTo_sends (l : List Message) :
    (l.map ClientOut.send).filterMap ClientOut.repliesTo = [] := by
  rw [List.filterMap_map]
  exact List.filterMap_eq_nil_iff.mpr fun _ _ => rfl

/-- The lists of waiting requests, and whether the loop goes on, are as they were. -/
structure SameCalls (c c' : Client) : Prop where
  read : c'.deferedRead = c.deferedRead
  close : c'.deferedClose = c.deferedClose
  running : c'.clientRunning = c.clientRunning

theorem handleRead_answers (h : c.handleRead replyc = some (c', out)) :
    SameCalls c c' ∧ out.filterMap ClientOut.repliesTo = [replyc] := by
  unfold Client.handleRead at h
  split at h
  · cases h
    exact ⟨⟨rfl, rfl, rfl⟩, rfl⟩
  · split at h
    · cases h
      exact ⟨⟨rfl, rfl, rfl⟩, rfl⟩
    · simp only [Option.bind_eq_bind, Option.bind_eq_some_iff, Option.pure_def, Option.some.injEq,
        Prod.mk.injEq] at h
      obtain ⟨t, -, rfl, rfl⟩ := h
      exact ⟨⟨rfl, rfl, rfl⟩, rfl⟩

theorem handleWrite_answers {p : Payload} (h : c.handleWrite P p replyc = (c', out)) :
    SameCalls c c' ∧ out.filterMap ClientOut.repliesTo = [replyc] := by
  unfold Client.handleWrite at h
  split at h
  · cases h
    exact ⟨⟨rfl, rfl, rfl⟩, rfl⟩
  · split at h
    · cases h
      exact ⟨⟨rfl, rfl, rfl⟩, rfl⟩
    · cases h
      refine ⟨⟨rfl, rfl, rfl⟩, ?_⟩
      rw [List.filterMap_append, repliesTo_sends]
      rfl

theorem handleClose_answers (h : c.handleClose replyc = (c', out)) :
    c'.clientRunning = false ∧ out.filterMap ClientOut.repliesTo = replyc :: c.deferedClose := by
  unfold Client.handleClose at h
  simp only at h
  cases h
  refine ⟨rfl, ?_⟩
  rw [List.filterMap_append, List.filterMap_map]
  have hshut : (if c.connLost = true then ([] : List ClientOut) else [.shutDown]).filterMap
      ClientOut.repliesTo = [] := by
    split <;> rfl
  rw [hshut, List.nil_append]
  exact List.filterMap_some

theorem handleEpoch_answers (h : c.handleEpoch P = (c', out)) :
    SameCalls c c' ∧ out.filterMap ClientOut.repliesTo = [] := by
  unfold Client.handleEpoch at h
  simp only at h
  split at h
  · cases h
    exact ⟨⟨rfl, rfl, rfl⟩, rfl⟩
  · cases h
    refine ⟨⟨rfl, rfl, rfl⟩, ?_⟩
    rw [List.filterMap_append, List.filterMap_append, repliesTo_sends, List.append_nil]
    have hack : ∀ (b : Prop) [Decidable b] (l : List Message),
        (if b then l.map ClientOut.send else []).filterMap ClientOut.repliesTo = [] := by
      intro b _ l
      split
      · exact repliesTo_sends l
      · rfl
    rw [hack, List.append_nil]
    exact hack _ [newAck _ 0]

theorem handleReceivedMsg_answers {msg : Message} (h : c.handleReceivedMsg P msg = some (c', out)) :
    SameCalls c c' ∧ out.filterMap ClientOut.repliesTo = [] := by
  unfold Client.handleReceivedMsg at h
  cases htype : msg.type <;> simp only [htype] at h
  case connect =>
    cases h
    exact ⟨⟨rfl, rfl, rfl⟩, rfl⟩
  case data =>
    unfold Client.handleData at h
    simp only at h
    split at h
    · cases h
      exact ⟨⟨rfl, rfl, rfl⟩, rfl⟩
    · split at h
      · simp only [Option.bind_eq_bind, Option.bind_eq_some_iff, Option.pure_def,
          Option.some.injEq, Prod.mk.injEq] at h
        obtain ⟨r, -, rfl, rfl⟩ := h
        exact ⟨⟨rfl, rfl, rfl⟩, rfl⟩
      · cases h
        exact ⟨⟨rfl, rfl, rfl⟩, rfl⟩
  case ack =>
    unfold Client.handleAck at h
    simp only [Option.bind_eq_bind, Option.bind_eq_some_iff] at h
    obtain ⟨r, -, h⟩ := h
    split at h
    · cases h
      refine ⟨⟨rfl, rfl, rfl⟩, ?_⟩
      rw [List.filterMap_append, repliesTo_sends]
      rfl
    · cases h
      exact ⟨⟨rfl, rfl, rfl⟩, repliesTo_sends _⟩

theorem answering_handle {req : ClientReq} (hclose : req.op = .doclose → c.flushed = true)
    (h : c.handle P req = some (c', out)) :
    Answering c (some req) c' (out.filterMap ClientOut.repliesTo) := by
  obtain ⟨op, replyc⟩ := req
  unfold Client.handle at h
  have answer : ∀ {op : ClientOp} {l : List Nat}, op.isCall = true → SameCalls c c' ∧ l = [replyc] →
      Answering c (some ⟨op, replyc⟩) c' l := by
    rintro op _ hcall ⟨hs, rfl⟩
    exact .answer ⟨op, replyc⟩ hcall hs.read hs.close hs.running
  have event : ∀ {op : ClientOp} {l : List Nat}, op.isCall = false → SameCalls c c' ∧ l = [] →
      Answering c (some ⟨op, replyc⟩) c' l := by
    rintro op _ hcall ⟨hs, rfl⟩
    exact .event ⟨op, replyc⟩ hcall hs.read hs.close hs.running
  cases op <;> simp only [Option.some.injEq] at h
  case doread => exact answer rfl (handleRead_answers h)
  case dowrite p => exact answer rfl (handleWrite_answers h)
  case doclose =>
    obtain ⟨hrun, hout⟩ := handleClose_answers h
    rw [hout]
    exact .close replyc (hclose rfl) hrun
  case doconnid =>
    cases h
    exact answer rfl ⟨⟨rfl, rfl, rfl⟩, rfl⟩
  case doconnect =>
    cases h
    exact answer rfl ⟨⟨rfl, rfl, rfl⟩, rfl⟩
  case epochtimer => exact event rfl (handleEpoch_answers h)
  case receivemsg msg => exact event rfl (handleReceivedMsg_answers h)

theorem answering_iterate {incoming : Option ClientReq}
    (h : c.iterate P incoming = some (c', out)) :
    Answering c incoming c' (out.filterMap ClientOut.repliesTo) := by
  cases iterates_of_iterate h with
  | wakeRead hreads h =>
    obtain ⟨hs, hout⟩ := handleRead_answers h
    rw [hout]
    exact .wake _ (by rw [hreads, hs.read]) hs.close hs.running
  | wakeClose hreads hcloses h =>
    obtain ⟨hrun, hout⟩ := handleClose_answers h
    rw [hout, ← hcloses]
    exact .closeWaiting hreads hrun
  | deferRead replyc => exact .deferRead replyc rfl rfl rfl
  | deferClose replyc => exact .deferClose replyc rfl rfl rfl
  | handle hflushed h => exact answering_handle hflushed h

end Answering

/-! ## Every call is answered once -/

/-- The calls that wait for a reply. -/
def Client.pending (c : Client) : List Nat :=
  if c.clientRunning then c.deferedRead ++ c.deferedClose else []

/-- A call is answered, or waits. -/
theorem Answering.count {c c' : Client} {incoming : Option ClientReq} {replies : List Nat}
    (h : Answering c incoming c' replies) (hrun : c.clientRunning = true)
    (hprompt : ∀ replyc, incoming = some ⟨.doclose, replyc⟩ → c.flushed = true → c.deferedRead = [])
    (k : Nat) :
    replies.count k + c'.pending.count k = (newCalls incoming).count k + c.pending.count k := by
  cases h with
  | deferRead replyc hread hclose hrun' =>
    simp only [Client.pending, hrun', hrun, hread, hclose, newCalls, ClientOp.isCall, if_true,
      List.count_append, List.count_nil]
    omega
  | deferClose replyc hread hclose hrun' =>
    simp only [Client.pending, hrun', hrun, hread, hclose, newCalls, ClientOp.isCall, if_true,
      List.count_append, List.count_nil]
    omega
  | answer req hcall hread hclose hrun' =>
    simp only [Client.pending, hrun', hrun, hread, hclose, newCalls, hcall, if_true]
  | event req hcall hread hclose hrun' =>
    simp only [Client.pending, hrun', hrun, hread, hclose, newCalls, hcall, Bool.false_eq_true,
      if_false]
  | wake replyc hread hclose hrun' =>
    simp only [Client.pending, hrun', hrun, hread, hclose, newCalls, if_true, List.count_append,
      List.count_cons, List.count_nil]
    omega
  | close replyc hflushed hrun' =>
    simp only [Client.pending, hrun', hrun, hprompt replyc rfl hflushed, newCalls, ClientOp.isCall,
      if_true, Bool.false_eq_true, if_false, List.nil_append, List.count_cons, List.count_nil]
    omega
  | closeWaiting hread hrun' =>
    simp only [Client.pending, hrun', hrun, hread, newCalls, if_true, Bool.false_eq_true, if_false,
      List.nil_append, List.count_nil]
    omega

/-- Only a call of `Read` or `Close` begins to wait. -/
theorem Answering.pending_nil {c c' : Client} {incoming : Option ClientReq} {replies : List Nat}
    (h : Answering c incoming c' replies) (hnil : c.pending = []) (hrun : c.clientRunning = true)
    (hwait : ∀ req, incoming = some req → req.op ≠ .doread ∧ req.op ≠ .doclose) :
    c'.pending = [] := by
  simp only [Client.pending, hrun, if_true, List.append_eq_nil_iff] at hnil
  cases h with
  | deferRead replyc => exact absurd rfl (hwait _ rfl).1
  | deferClose replyc => exact absurd rfl (hwait _ rfl).2
  | close replyc => exact absurd rfl (hwait _ rfl).2
  | answer req hcall hread hclose hrun' | event req hcall hread hclose hrun' =>
    simp only [Client.pending, hrun', hrun, hread, hclose, hnil.1, hnil.2, if_true, List.append_nil]
  | wake replyc hread => rw [hnil.1] at hread; cases hread
  | closeWaiting hread hrun' => simp only [Client.pending, hrun', Bool.false_eq_true, if_false]

theorem running_of_iterate {P : Params} {c : Client} {incoming : Option ClientReq}
    {t : Client × List ClientOut} (h : c.iterate P incoming = some t) : c.clientRunning = true := by
  cases hrun : c.clientRunning with
  | true => rfl
  | false =>
    have hexit : c.turn = .exit := by simp [Client.turn, hrun]
    unfold Client.iterate at h
    rw [hexit] at h
    cases h

structure Accounted (r : CallRun) : Prop where
  nodup : r.calls.Nodup
  count : ∀ k, r.replies.count k + r.run.client.pending.count k = r.calls.count k
  connId : r.run.established = true → r.run.client.connId ≠ 0
  pending : r.run.established = false → r.run.client.pending = []

theorem accounted_inductive (P : Params) : (promptRuns P).Inductive Accounted where
  init := by
    rintro _ rfl
    exact ⟨List.nodup_nil, fun _ => rfl, nofun, fun _ => rfl⟩
  step := by
    intro r incoming r' h hstep
    obtain ⟨hprompt, hstep⟩ := LTS.guarded_eq_some.mp hstep
    unfold CallRun.step at hstep
    split at hstep
    · rename_i hadm
      obtain ⟨⟨c, out⟩, hit, rfl⟩ := Option.map_eq_some_iff.mp hstep
      have hrun := running_of_iterate hit
      have hans := answering_iterate hit
      have heff := effect_of_iterate hit
      refine ⟨?_, fun k => ?_, fun hest => ?_, fun hest => ?_⟩
      · have hfresh := hadm.2
        unfold CallRun.fresh at hfresh
        simp only [CallRun.record]
        unfold newCalls at hfresh ⊢
        split
        · split
          · refine List.nodup_cons.mpr ⟨?_, h.nodup⟩
            simpa [*] using hfresh
          · exact h.nodup
        · exact h.nodup
      · have hcount := hans.count hrun (fun replyc hreq hflushed => by
          subst hreq
          simpa [CallRun.prompt, hflushed] using hprompt) k
        have := h.count k
        simp only [CallRun.record, ClientRun.record, List.count_append]
        omega
      · rcases connId_of_effect heff with ⟨hsig, hconn⟩ | ⟨-, msg, replyc, rfl, htype, hzero, hconn⟩
        · have hest' : r.run.established = true := by
            simpa [CallRun.record, ClientRun.record, hsig] using hest
          exact hconn ▸ h.connId hest'
        · -- the ack of the Connect carries another number than 0
          simp only [CallRun.record, ClientRun.record, hconn]
          simpa [CallRun.prompt, htype, hzero] using hprompt
      · simp only [CallRun.record, ClientRun.record, Bool.or_eq_false_iff] at hest
        refine hans.pending_nil (h.pending hest.1) hrun fun req hreq => ?_
        subst hreq
        have hadm := hadm.1
        refine ⟨fun hop => ?_, fun hop => ?_⟩ <;> simp [ClientRun.admits, hop, hest.1] at hadm
    · cases hstep

/-- When the event handler has left its loop, everybody has a reply; nobody ever
gets two. -/
theorem every_call_answered (P : Params) {r : CallRun} (hr : (promptRuns P).Reachable r) (k : Nat)
    (hk : k ∈ r.calls) :
    r.replies.count k ≤ 1 ∧ (r.run.client.turn = .exit → r.replies.count k = 1) := by
  have h := (accounted_inductive P).reachable r hr
  have hone : r.calls.count k = 1 := (List.nodup_iff_count_eq_one.mp h.nodup) k hk
  have hcount := h.count k
  refine ⟨by omega, fun hexit => ?_⟩
  have hnil : r.run.client.pending = [] := by
    unfold Client.turn at hexit
    split at hexit
    · rename_i hstop
      simp only [Bool.not_eq_true'] at hstop
      simp only [Client.pending, hstop, Bool.false_eq_true, if_false]
    · split at hexit
      · -- lost before it was established
        rename_i hlost
        simp only [Bool.and_eq_true, decide_eq_true_eq] at hlost
        refine h.pending (Bool.eq_false_iff.mpr fun hest => h.connId hest hlost.1)
      · split at hexit
        · cases hexit
        · split at hexit <;> cases hexit
  rw [hnil, List.count_nil] at hcount
  omega

/-! Here a `Read` is blocked, and the `Close` has to wait for an ack: the read is told. -/

def oneEpoch : Params := ⟨1, 1⟩

/-- `NewClient` has returned. -/
def connected : List (Option ClientReq) :=
  [some ⟨.doconnect, 0⟩, some ⟨.receivemsg (newAck 1 0), 0⟩]

def closedInOrder : List (Option ClientReq) :=
  connected ++ [some ⟨.doread, 1⟩, some ⟨.dowrite [7], 2⟩, some ⟨.doclose, 3⟩, none,
    some ⟨.receivemsg (newAck 1 1), 0⟩, none]

def allAnswered : CallRun :=
  LTS.execD (LTS.guarded CallRun.prompt (CallRun.step oneEpoch)) .init closedInOrder

theorem read_answered_on_close :
    1 ∈ allAnswered.calls ∧ allAnswered.run.client.turn = .exit ∧ allAnswered.replies.count 1 = 1 :=
  ⟨by decide, rfl, (every_call_answered oneEpoch
    ⟨_, closedInOrder, rfl, LTS.run_execD (by decide)⟩ 1 (by decide)).2 rfl⟩

/-! ## A `Close` beside a blocked `Read` -/

def closedAtOnce : List (Option ClientReq) := connected ++ [some ⟨.doread, 1⟩, some ⟨.doclose, 2⟩]

def leftBlocked : CallRun := LTS.execD (CallRun.step oneEpoch) .init closedAtOnce

theorem read_never_answered :
    (callRuns oneEpoch).Reachable leftBlocked ∧ leftBlocked.run.client.turn = .exit ∧
      1 ∈ leftBlocked.calls ∧ leftBlocked.run.client.deferedRead = [1] ∧
      leftBlocked.replies.count 1 = 0 :=
  ⟨⟨_, closedAtOnce, rfl, LTS.run_execD (by decide)⟩, rfl, by decide, rfl, by decide⟩

end Cmu440.Lsp
