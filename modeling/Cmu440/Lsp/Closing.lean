import Cmu440.Lsp.Session
import Cmu440.Lsp.ServerTimeouts

/-!
# What a successful `Close` means

The client's `Close` returns nil when nothing is left in its two sending buffers.
Every number it has written was then acknowledged by the server, and the server
sends the ack of a number only after it has put the message into a read buffer for
the client's address. This holds in every run of the clients and the server.

The server's `Close` returns nil, at once or in an epoch, when no connection has
anything left and none was lost while `Close` was waiting. What was written to a
connection is then acknowledged; but the server takes an ack for the one connection
it has for the address, whatever id the ack carries. After `CloseConn`, and a
Connect that arrives once more, an ack of the first connection is one for the second,
and `Close` returns nil for a message that nobody has acknowledged
(`close_without_ack`). With one connection for an address, the acks are those of the
connection (`close_means_delivered`).
-/
namespace Cmu440.Lsp

variable {A : Type}

/-! ## Everything is acknowledged -/

/-- Nothing to send and nothing unacknowledged. -/
theorem Holds.all_acked {id : Int} {f : Flow Payload} {unAcked write : Buffer}
    (h : Holds id f unAcked write) (hle : f.sent ≤ f.written.length) (hu : unAcked.l = [])
    (hw : write.l = []) {i : Nat} (hi : i < f.written.length) : (i : Int) + 1 ∈ f.acked := by
  have hsent := h.write_nil hle hw
  by_contra hnot
  obtain ⟨m, hm, -⟩ := h.exists_of_outstanding hle
    (q := i + 1) ⟨⟨by omega, by omega⟩, hnot⟩
  rw [hu] at hm
  cases hm

/-! ## The client's `Close` -/

/-- A `Close` of the client returns nil. A `Close` that was waiting is taken up in an
iteration without a request. -/
def ReturnsNil (incoming : Option ClientReq) (out : List ClientOut) : Prop :=
  (incoming = none ∨ ∃ replyc, incoming = some ⟨.doclose, replyc⟩) ∧
    ∃ replyc, .reply replyc ⟨.nil, none⟩ ∈ out

theorem flushed_of_handleClose {c : Client} {replyc k : Nat}
    (h : .reply k ⟨.nil, none⟩ ∈ (c.handleClose replyc).2) : c.flushed = true := by
  unfold Client.handleClose at h
  simp only [List.mem_append, List.mem_map] at h
  rcases h with h | ⟨r, -, h⟩
  · split at h <;> simp at h
  · cases hfl : c.flushed with
    | true => rfl
    | false => simp [hfl] at h

theorem flushed_of_iterate {P : Params} {c c' : Client} {incoming : Option ClientReq}
    {out : List ClientOut} (hit : c.iterate P incoming = some (c', out))
    (hret : ReturnsNil incoming out) : c.flushed = true := by
  obtain ⟨hreq, k, hk⟩ := hret
  cases iterates_of_iterate hit with
  | wakeRead _ h =>
    -- a blocked `Read` gets a payload or an error
    unfold Client.handleRead at h
    split at h
    · cases h
      simp at hk
    · split at h
      · cases h
        simp at hk
      · simp only [Option.bind_eq_bind, Option.bind_eq_some_iff, Option.pure_def,
          Option.some.injEq, Prod.mk.injEq] at h
        obtain ⟨t, -, -, rfl⟩ := h
        simp at hk
  | wakeClose _ _ h =>
    rw [show out = _ from (congrArg Prod.snd h).symm] at hk
    have hflushed := flushed_of_handleClose hk
    exact hflushed
  | deferRead | deferClose => cases hk
  | handle hflushed h =>
    rcases hreq with hreq | ⟨replyc, hreq⟩
    · cases hreq
    · cases hreq
      exact hflushed rfl

/-! ## The server's `Close` -/

/-- The `Close` waits, or it ends the server. -/
theorem close_cases {s s' : Server A} {replyc : Nat} {o : Orders} {out : List (ServerOut A)}
    (h : s.handleClose replyc o = some (s', out)) (hrun : s.serverRunning = true) :
    (s'.serverRunning = true ∧ s'.deferedClose = s.deferedClose ++ [replyc] ∧
        ∀ k, .reply k ⟨.nil, none⟩ ∉ out) ∨
      s'.serverRunning = false ∧ s'.deferedClose = s.deferedClose ∧
        ∀ id ∈ o.first, s.pending id = some false := by
  cases closesServer_of_handle h with
  | ends htold hidle => exact .inr ⟨rfl, rfl, hidle⟩
  | waits htold =>
    refine .inl ⟨hrun, rfl, fun k hk => ?_⟩
    obtain ⟨readReq, hr⟩ := htold _ hk
    cases hr

section Epoch

variable [DecidableEq A] {Q : Params} {s s' : Server A} {out : List (ServerOut A)}

/-- A read that is told of a lost connection gets an error. -/
theorem Detects.reply_error {id : Int} (h : Detects Q s id s' out) (k : Nat) (ret : RetType)
    (hk : .reply k ret ∈ out) : ret.err ≠ none := by
  cases h with
  | kept hsoon => cases hk
  | lost haddr => simp at hk
  | told haddr hreads =>
    simp only [List.mem_cons, ServerOut.reply.injEq, reduceCtorEq, List.not_mem_nil, or_false] at hk
    rw [hk.2]
    nofun

theorem detectLostAll_error {order : List Int} (h : s.detectLostAll Q order = some (s', out))
    {k : Nat} {ret : RetType} (hk : .reply k ret ∈ out) : ret.err ≠ none := by
  refine detectLostAll_rule (R := fun _ _ out => ∀ k ret, .reply k ret ∈ out → ret.err ≠ none)
    (fun _ _ _ hk => nomatch hk) (fun h₁ h₂ k ret hk => ?_) Detects.reply_error h k ret hk
  rcases List.mem_append.mp hk with hk | hk
  · exact h₁ k ret hk
  · exact h₂ k ret hk

omit [DecidableEq A] in
theorem Resent.no_reply (h : Resent s out) {k : Nat} {ret : RetType} : .reply k ret ∉ out := by
  intro hk
  obtain ⟨a, m, id, hm, -⟩ := h _ hk
  cases hm

/-- An epoch in which a `Close` returns nil finds nothing pending, and no connection
that was lost since `Close` began to wait. -/
theorem epoch_returns {o : Orders} (h : s.handleEpoch Q o = some (s', out)) {k : Nat}
    (hk : .reply k ⟨.nil, none⟩ ∈ out) :
    ∃ s₁ lostOut, Server.detectLostAll Q { s with currEpoch := s.currEpoch + 1 } o.first =
        some (s₁, lostOut) ∧ s₁.connLostInClosing = false ∧ s₁.deferedClose ≠ [] ∧
      ∀ id ∈ o.third, s₁.pending id = some false := by
  have hacks : ∀ {s₁ : Server A} {lostOut : List (ServerOut A)},
      Server.detectLostAll Q { s with currEpoch := s.currEpoch + 1 } o.first = some (s₁, lostOut) →
      .reply k ⟨.nil, none⟩ ∉ lostOut ++ s₁.resent o := by
    intro s₁ lostOut hloop hk
    rcases List.mem_append.mp hk with hk | hk
    · exact detectLostAll_error hloop hk rfl
    · exact (resent_epoch s₁ o).no_reply hk
  cases epochs_of_handleEpoch h with
  | stays hloop _ => exact absurd hk (hacks hloop)
  | @ends s₁ lostOut hloop hclosing hidle =>
    refine ⟨s₁, lostOut, hloop, ?_, hclosing, hidle⟩
    rw [List.mem_append, List.mem_append] at hk
    rcases hk with (hk | hk) | hk
    · exact absurd hk (hacks hloop)
    · obtain ⟨closeReq, -, hr⟩ := List.mem_map.mp hk
      cases hlost : s₁.connLostInClosing with
      | false => rfl
      | true => simp [Server.closeRet, hlost] at hr
    · simp at hk

end Epoch

/-! ## Runs -/

section Runs

variable [DecidableEq A] {P : A → Params} {Q : Params}

/-- A client in a session runs as it does on its own. -/
theorem session_client {a : A} {I : ClientRun → Prop} (h : (clientRuns (P a)).Inductive I) :
    (sessions P Q).Inductive fun s => I (s.clients a) where
  init := by
    rintro _ rfl
    exact h.init _ rfl
  step := by
    intro s l s' hI hst
    cases Session.step_cases hst with
    | client hheard hr =>
      rename_i a' incoming r
      by_cases ha : a = a'
      · subst ha
        simp only [Function.update_self]
        exact h.step _ _ _ hI hr
      · simp only [Function.update_of_ne ha]
        exact hI
    | server => exact hI

/-- So does the server. -/
theorem session_server {I : ServerRun A → Prop} (h : (serverRuns Q).Inductive I) :
    (sessions P Q).Inductive fun s => I s.server where
  init := by
    rintro _ rfl
    exact h.init _ rfl
  step := by
    intro s l s' hI hst
    cases Session.step_cases hst with
    | client => exact hI
    | server hheard hh =>
      rename_i req srv out
      refine h.step s.server req _ hI ?_
      show s.server.step Q req = some _
      rw [ServerRun.step, hh]
      rfl

/-- The acks that count on either side have been received, by the server on a
connection that was opened for the sender. -/
structure AcksHeard (s : Session A) : Prop where
  clients : ∀ a, ∀ q ∈ (s.clients a).acked, ∃ m, (a, m) ∈ s.server.net ∧ m.type = .ack ∧ m.seqNum = q
  server : ∀ id, ∀ q ∈ s.server.acked id,
    ∃ a m, (a, m) ∈ s.heard ∧ s.server.Opened a id ∧ m.type = .ack ∧ m.seqNum = q
  heard : ∀ x ∈ s.heard, x.2 ∈ (s.clients x.1).net

theorem AcksHeard.step {s s' : Session A} {l : SessionLbl A} (h : AcksHeard s) (htr : Traced s)
    (hst : s.step P Q l = some s') : AcksHeard s' := by
  cases Session.step_cases hst with
  | client hheard hr =>
    rename_i a incoming r
    obtain ⟨-, c, out, rfl, -⟩ := ClientRun.step_cases hr
    refine ⟨fun a' q hq => ?_, h.server, fun x hx => ?_⟩
    · by_cases ha : a' = a
      · subst ha
        simp only [Function.update_self, ClientRun.record] at hq
        rcases List.mem_append.mp hq with hq | hq
        · unfold ClientRun.newlyAcked at hq
          split at hq
          · rename_i msg replyc _
            split at hq
            · rename_i hack
              rw [List.mem_singleton.mp hq]
              exact ⟨msg, hheard msg replyc rfl, hack.1, rfl⟩
            · cases hq
          · cases hq
        · exact h.clients a' q hq
      · simp only [Function.update_of_ne ha] at hq
        exact h.clients a' q hq
    · have hmem := h.heard x hx
      by_cases ha : x.1 = a
      · simp only [ha, Function.update_self, ClientRun.record]
        rw [ha] at hmem
        exact List.mem_append_left _ hmem
      · simp only [Function.update_of_ne ha]
        exact hmem
  | server hheard hh =>
    rename_i req srv out
    have hopened : ∀ a id, s.server.Opened a id → (s.record req srv out).server.Opened a id :=
      fun a id ho => List.mem_append_left _ ho
    refine ⟨fun a q hq => ?_, fun id q hq => ?_, fun x hx => ?_⟩
    · obtain ⟨m, hm, hack⟩ := h.clients a q hq
      exact ⟨m, List.mem_append_left _ hm, hack⟩
    · rcases List.mem_append.mp hq with hq | hq
      · unfold ServerRun.newlyAcked at hq
        split at hq
        · rename_i a msg hop
          split at hq
          · rename_i hack
            rw [List.mem_singleton.mp hq]
            obtain ⟨htype, hpos, rfl, -⟩ := hack
            refine ⟨a, msg, List.mem_append_right _ ?_, hopened a _ ?_, htype, rfl⟩
            · simp only [hop]
              exact List.mem_singleton_self _
            · exact htr.server.filled.hostport a _ (hostport_of_connIdOf hpos)
          · cases hq
        · cases hq
      · obtain ⟨a, m, hm, ho, hack⟩ := h.server id q hq
        exact ⟨a, m, List.mem_append_left _ hm, hopened a id ho, hack⟩
    · rcases List.mem_append.mp hx with hx | hx
      · exact h.heard x hx
      · split at hx
        · rename_i a msg hop
          rw [List.mem_singleton.mp hx]
          exact hheard a msg hop
        · cases hx

/-- The calls of `Close` that wait, and while `connLostInClosing` is not set the
connections that are lost are those that were lost when they began to. -/
structure ClosingKept (s : Session A) : Prop where
  calls : s.closing.map Prod.fst = s.server.server.deferedClose
  lost : s.server.server.connLostInClosing = false → ∀ x ∈ s.closing, x.2 = s.server.lost

theorem record_lost {r : ServerRun A} {req : ServerReq A} {srv : Server A}
    {out : List (ServerOut A)} (h : out.filterMap ServerOut.lost = []) :
    (r.record req srv out).lost = r.lost := by
  funext id
  simp [ServerRun.record, h]

theorem lost_nil {s s' : Server A} {req : ServerReq A} {out : List (ServerOut A)}
    (hh : s.handle Q req = some (s', out)) (hop : req.op ≠ .epochtimer) :
    out.filterMap ServerOut.lost = [] :=
  List.eq_nil_iff_forall_not_mem.mpr fun _ hid =>
    hop (lost_known (effect_of_serverHandle hh) hid).1

theorem ClosingKept.step {s s' : Session A} {l : SessionLbl A} (h : ClosingKept s)
    (hst : s.step P Q l = some s') : ClosingKept s' := by
  cases Session.step_cases hst with
  | client => exact ⟨h.calls, h.lost⟩
  | server hheard hh =>
    rename_i req srv out
    by_cases hepoch : req.op = .epochtimer
    · -- a connection that is lost now sets the flag
      have hd := epoch_detected hepoch hh 0
      refine ⟨?_, fun hin x hx => ?_⟩
      · simp only [Session.record, hepoch, List.append_nil]
        exact h.calls.trans hd.closing.symm
      · obtain ⟨hin₀, hnone⟩ := hd.inClosing hin
        simp only [Session.record, hepoch, List.append_nil] at hx ⊢
        have hne : s.server.server.deferedClose ≠ [] := by
          rw [← h.calls]
          exact List.ne_nil_of_mem (List.mem_map_of_mem hx)
        rw [record_lost (hnone hne)]
        exact h.lost hin₀ x hx
    · have hno := noEpoch_of_handle hepoch hh
      have hlost : (s.record req srv out).server.lost = s.server.lost :=
        record_lost (lost_nil hh hepoch)
      by_cases hclose : req.op = .doclose
      · unfold Server.handle at hh
        split at hh
        case isFalse => cases hh
        rename_i htakes
        simp only [hclose] at hh
        rcases close_cases hh htakes.1 with ⟨hrun, hdefer, -⟩ | ⟨hrun, hdefer, -⟩
        · refine ⟨?_, fun hin x hx => ?_⟩
          · simp only [Session.record, hclose, hrun, List.map_append, h.calls]
            exact hdefer.symm
          · rw [hlost]
            simp only [Session.record, hclose, hrun] at hx
            rcases List.mem_append.mp hx with hx | hx
            · exact h.lost (hno.inClosing.symm.trans hin) x hx
            · rw [List.mem_singleton.mp hx]
        · refine ⟨?_, fun hin x hx => ?_⟩
          · simp only [Session.record, hclose, hrun, List.append_nil]
            exact h.calls.trans hdefer.symm
          · rw [hlost]
            simp only [Session.record, hclose, hrun, List.append_nil] at hx
            exact h.lost (hno.inClosing.symm.trans hin) x hx
      · have hsame : (s.record req srv out).closing = s.closing := by
          simp only [Session.record]
          split
          · rename_i hop _
            exact absurd hop hclose
          · exact List.append_nil _
        have hdefer : srv.deferedClose = s.server.server.deferedClose :=
          hno.closing.resolve_right fun hc => hclose hc.1
        refine ⟨hsame ▸ h.calls.trans hdefer.symm, fun hin x hx => ?_⟩
        rw [hlost]
        exact h.lost (hno.inClosing.symm.trans hin) x (hsame ▸ hx)

theorem closing_inductive (P : A → Params) (Q : Params) :
    (sessions P Q).Inductive fun s => Traced s ∧ AcksHeard s ∧ ClosingKept s where
  init := by
    rintro _ rfl
    refine ⟨(traced_inductive P Q).init _ rfl, ⟨fun _ _ h => ?_, fun _ _ h => ?_, fun _ h => ?_⟩, rfl,
      fun _ _ h => ?_⟩ <;> cases h
  step := fun _ _ _ ⟨htr, hacks, hcl⟩ hst => ⟨htr.step hst, hacks.step htr hst, hcl.step hst⟩

/-- The calls of `Close` that return nil in an event of the server, each as the
connections that were lost before the call. -/
def Session.closeReturns (s : Session A) (req : ServerReq A) (out : List (ServerOut A)) :
    List (Int → Bool) :=
  match req.op with
  | .doclose => if .reply req.replyc ⟨.nil, none⟩ ∈ out then [s.server.lost] else []
  | .epochtimer =>
    (s.closing.filter fun call => .reply call.1 ⟨.nil, none⟩ ∈ out).map Prod.snd
  | _ => []

omit [DecidableEq A] in
/-- A connection that has nothing pending, in a state with the same sending half. -/
theorem acked_of_pending {r : ServerRun A} {F : Int → Flow Payload} {s : Server A} {id : Int}
    {order : List Int} (hok : ∀ id, (F id).Ok Q.windowSize) (h : ServerSends Q.windowSize r F)
    (hlost : r.lost id = false) (horder : order.Perm r.server.ids)
    (hunAcked : s.unAckedMsgBuffer id = r.server.unAckedMsgBuffer id)
    (hwrite : s.writeBuffer id = r.server.writeBuffer id)
    (hpending : ∀ id ∈ order, s.pending id = some false) {i : Nat} (hi : i < (r.written id).length) :
    (i : Int) + 1 ∈ r.acked id := by
  have hc := h.conn id hlost
  rw [← hc.acked]
  rw [← hc.written] at hi
  have hused : ¬Unused r.server id := by
    intro hun
    rw [hc.unused hun] at hi
    exact absurd hi (Nat.not_lt_zero _)
  have hid : id ∈ order := by
    simp only [Unused, not_or, not_le, not_lt] at hused
    exact horder.mem_iff.mpr (mem_ids.mpr hused)
  have hp := hpending id hid
  cases hu : s.unAckedMsgBuffer id with
  | some u =>
    obtain ⟨w, hw, hul, hwl⟩ := pending_eq_false hu hp
    refine hc.sends.all_acked (hok id).sent_le ?_ ?_ hi
    · rw [← hunAcked, hu]
      exact hul
    · rw [← hwrite, hw]
      exact hwl
  | none =>
    have hnil : ((r.server.unAckedMsgBuffer id).getD .newBuffer).l = [] := by
      rw [← hunAcked, hu]
      rfl
    refine hc.sends.all_acked (hok id).sent_le hnil ?_ hi
    by_contra hne
    obtain ⟨m, hm, -⟩ := hc.sends.full hne
    rw [Buffer.front_eq_none.mpr hnil] at hm
    cases hm

/-- In an event in which a `Close` of the server returns nil, every number that was
written to a connection not lost before it is acknowledged. -/
theorem acked_of_closeReturns {s : Session A} {F : Int → Flow Payload} (hcl : ClosingKept s)
    (hok : ∀ id, (F id).Ok Q.windowSize) (h : ServerSends Q.windowSize s.server F)
    {req : ServerReq A} {srv : Server A} {out : List (ServerOut A)}
    (hh : s.server.server.handle Q req = some (srv, out)) {lost : Int → Bool}
    (hret : lost ∈ s.closeReturns req out) {id : Int} (hlost : lost id = false) {i : Nat}
    (hi : i < (s.server.written id).length) : (i : Int) + 1 ∈ s.server.acked id := by
  unfold Server.handle at hh
  split at hh
  case isFalse => cases hh
  rename_i htakes
  unfold Session.closeReturns at hret
  split at hret
  · rename_i hop
    simp only [hop] at hh
    split at hret
    · rename_i hreply
      rw [List.mem_singleton.mp hret] at hlost
      rcases close_cases hh htakes.1 with ⟨-, -, hno⟩ | ⟨-, -, hpending⟩
      · exact absurd hreply (hno _)
      · exact acked_of_pending hok h hlost htakes.2.1 rfl rfl hpending hi
    · cases hret
  · rename_i hop
    simp only [hop] at hh
    obtain ⟨call, hcall, rfl⟩ := List.mem_map.mp hret
    obtain ⟨hcall, hreply⟩ := List.mem_filter.mp hcall
    obtain ⟨s₁, lostOut, h₁, hin, hne, hpending⟩ := epoch_returns hh (of_decide_eq_true hreply)
    -- nothing was lost while `Close` was waiting
    have hd := detected_detectLostAll h₁ 0
    obtain ⟨hin₀, hnone⟩ := hd.inClosing hin
    rw [hcl.lost hin₀ call hcall] at hlost
    obtain ⟨ids, hdrops, hout⟩ := drops_of_detectLostAll h₁
    have hids : ids = [] := hout.lost.symm.trans (hnone (hd.closing ▸ hne))
    have hsame := hdrops.kept id (by rw [hids]; nofun)
    exact acked_of_pending hok h hlost htakes.2.2.2 hsame.unAcked hsame.write hpending hi
  · cases hret

/-- When the client's `Close` returns nil, the server had put every message whose
`Write` returned nil into a read buffer for the client's address. When the server's
`Close` returns nil, every message accepted by `Write` on a connection that was not
lost before had been acknowledged by an ack with the id of the connection, provided
the server opens one connection for an address. -/
theorem close_means_delivered (P : A → Params) (Q : Params) (hP : ∀ a, 1 ≤ (P a).windowSize)
    (hQ : 1 ≤ Q.windowSize) :
    (∀ s, (sessions P Q).Reachable s → ∀ a incoming c out,
      (s.clients a).client.iterate (P a) incoming = some (c, out) → ReturnsNil incoming out →
      ∀ (i : Nat) p, (s.clients a).written[i]? = some p →
        ∃ m, (a, m) ∈ s.inserted ∧ m.seqNum = i + 1 ∧ m.payload = p) ∧
    ∀ s, (steadySessions P Q).Reachable s →
      s.closing.map Prod.fst = s.server.server.deferedClose ∧
      ∀ req srv out, s.server.server.handle Q req = some (srv, out) →
        ∀ lost ∈ s.closeReturns req out, ∀ id, lost id = false →
        ∀ i < (s.server.written id).length,
          ∃ a m, (a, m) ∈ s.heard ∧ m.type = .ack ∧ m.connID = id ∧ m.seqNum = i + 1 := by
  constructor
  · intro s hs a incoming c out hit hret i p hp
    obtain ⟨htr, hacks, -⟩ := (closing_inductive P Q).reachable s hs
    obtain ⟨f, hok, hsend⟩ := (session_client (client_follows (hP a))).reachable s hs
    have hflushed := flushed_of_iterate hit hret
    simp only [Client.flushed, Bool.and_eq_true, decide_eq_true_eq, Buffer.len_eq_zero] at hflushed
    rw [← hsend.written] at hp
    cases hest : (s.clients a).established with
    | false =>
      rw [(hsend.waiting hest).1] at hp
      cases hp
    | true =>
      have hi := (List.getElem?_eq_some_iff.mp hp).1
      have hacked := (hsend.sends hest).1.all_acked hok.sent_le hflushed.2 hflushed.1 hi
      rw [hsend.acked] at hacked
      obtain ⟨m, hm, hty, hq⟩ := hacks.clients a _ hacked
      obtain ⟨-, ⟨hdata, -⟩ | ⟨-, hzero | ⟨x, hx, hxq⟩⟩⟩ := htr.server.net a m hm
      · rw [hty] at hdata
        cases hdata
      · omega
      · obtain ⟨hxty, hxnet⟩ := htr.inserted _ hx
        have hpay := transmitted_payload ((hsend.sentData x).mpr ⟨hxnet, hxty⟩) i (hxq.trans hq)
        refine ⟨x, hx, hxq.trans hq, ?_⟩
        rw [hpay] at hp
        exact Option.some.inj hp
  · intro s hs
    obtain ⟨htr, hone⟩ := (steady_inductive P Q).reachable s hs
    have hall := LTS.reachable_of_guarded hs
    obtain ⟨-, hacks, hcl⟩ := (closing_inductive P Q).reachable s hall
    obtain ⟨F, hok, hsend⟩ := (session_server (P := P) (server_follows hQ)).reachable s hall
    refine ⟨hcl.calls, fun req srv out hh lost hret id hlost i hi => ?_⟩
    have hacked := acked_of_closeReturns hcl hok hsend hh hret hlost hi
    obtain ⟨a, m, hm, ho, hty, hq⟩ := hacks.server id _ hacked
    refine ⟨a, m, hm, hty, ?_, hq⟩
    exact hone a _ _ (htr.opened_of_client (hacks.heard _ hm) (by simp [hty])) ho

end Runs

/-! A message in each direction, and both acks. -/

def exchanging : List (SessionLbl Unit) :=
  connects () 1 [] ++
    [.client () (some ⟨.dowrite [7], 1⟩),
      .server ⟨.receivemsg () (newData 1 1 [7]), 0, ⟨[1], [1], [1]⟩⟩,
      .server ⟨.dowrite 1 [8], 2, ⟨[1], [1], [1]⟩⟩,
      .client () (some ⟨.receivemsg (newData 1 1 [8]), 0⟩),
      .client () (some ⟨.receivemsg (newAck 1 1), 0⟩),
      .server ⟨.receivemsg () (newAck 1 1), 0, ⟨[1], [1], [1]⟩⟩]

def acknowledged : Session Unit :=
  LTS.execD (LTS.guarded Session.steady (Session.step (fun _ => oneByOne) oneByOne)) .init exchanging

def closeReq : ServerReq Unit := ⟨.doclose, 9, ⟨[1], [1], [1]⟩⟩

theorem exchange_closes_delivered :
    (∃ m, ((), m) ∈ acknowledged.inserted ∧ m.seqNum = (0 : Nat) + 1 ∧ m.payload = [7]) ∧
      ∃ a m, (a, m) ∈ acknowledged.heard ∧ m.type = .ack ∧ m.connID = 1 ∧
        m.seqNum = (0 : Nat) + 1 := by
  have hs : (steadySessions (fun _ => oneByOne) oneByOne).Reachable acknowledged :=
    ⟨_, exchanging, rfl, LTS.run_execD (by decide)⟩
  have h := close_means_delivered (A := Unit) (fun _ => oneByOne) oneByOne (fun _ => by decide)
    (by decide)
  have hclient : ((acknowledged.clients ()).client.iterate oneByOne (some ⟨.doclose, 9⟩)).isSome :=
    by decide
  have hserver : (acknowledged.server.server.handle oneByOne closeReq).isSome := by decide
  constructor
  · exact h.1 acknowledged (LTS.reachable_of_guarded hs) () _ _ _ (Option.some_get hclient).symm
      ⟨.inr ⟨9, rfl⟩, 9, by decide⟩ 0 [7] (by decide)
  · exact (h.2 acknowledged hs).2 closeReq _ _ (Option.some_get hserver).symm acknowledged.server.lost
      (by simp [Session.closeReturns, closeReq]) 1 (by decide) 0 (by decide)

/-! ## An ack of a connection that was closed -/

/-- The message on connection 1 is acknowledged. The server closes the connection, the
Connect arrives once more, and after a `Write` to connection 2 the same ack does. -/
def staleAck : List (SessionLbl Unit) :=
  connects () 1 [] ++
    [.server ⟨.dowrite 1 [7], 1, ⟨[1], [1], [1]⟩⟩,
      .client () (some ⟨.receivemsg (newData 1 1 [7]), 0⟩),
      .server ⟨.receivemsg () (newAck 1 1), 0, ⟨[1], [1], [1]⟩⟩,
      .server ⟨.docloseconn 1, 2, ⟨[1], [1], [1]⟩⟩,
      .server ⟨.receivemsg () newConnect, 0, ⟨[1], [1], [1]⟩⟩,
      .server ⟨.dowrite 2 [8], 3, ⟨[1, 2], [1, 2], [1, 2]⟩⟩,
      .server ⟨.receivemsg () (newAck 1 1), 0, ⟨[1, 2], [1, 2], [1, 2]⟩⟩]

def staleAcked : Session Unit :=
  LTS.execD (Session.step (fun _ => oneByOne) oneByOne) .init staleAck

theorem close_without_ack :
    (sessions (fun _ => oneByOne) oneByOne).Reachable staleAcked ∧
      staleAcked.server.written 2 = [[8]] ∧ staleAcked.server.lost 2 = false ∧
      -- `Close` returns nil
      (staleAcked.server.server.handle oneByOne ⟨.doclose, 9, ⟨[1, 2], [1, 2], [1, 2]⟩⟩).any
        (fun t => decide (.reply 9 ⟨.nil, none⟩ ∈ t.2)) = true ∧
      -- no ack of connection 2 was received, and the client does not have the message
      (∀ x ∈ staleAcked.heard, x.2.type = .ack → x.2.connID ≠ 2) ∧
      (staleAcked.clients ()).client.readBuffer.l = [newData 1 1 [7]] ∧
      (staleAcked.clients ()).returned = [] :=
  ⟨⟨_, staleAck, rfl, LTS.run_execD (by decide)⟩, by decide, by decide, by decide, by decide,
    by decide, by decide⟩

end Cmu440.Lsp
