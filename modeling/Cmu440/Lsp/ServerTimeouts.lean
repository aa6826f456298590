import Cmu440.Lsp.ServerCrash

/-!
# Silent clients of the server

Once a client sends nothing any more, `epochLimit` epochs later its connection is
declared lost (server_impl.go:223-251), and then nothing of it keeps a `Close`
waiting. This needs an entry of `latestActiveEpoch` for every connection on which
something is unacknowledged, which is part of `MapsAgree`.

`CloseConn` with messages pending deletes the entry and keeps the messages: from
then on a `Close` waits for ever for a client that does not answer
(`close_waits_for_ever`).
-/
namespace Cmu440.Lsp

variable {A : Type}

/-! ## What an event does to `latestActiveEpoch` -/

/-- An event other than an epoch concerns at most one connection: the one that is
closed, the one of the sender, or a new one. It is heard of in this epoch, or
ended. -/
inductive Touches (s : Server A) (req : ServerReq A) (s' : Server A) : Prop
  | none (hlatest : s'.latestActiveEpoch = s.latestActiveEpoch)
      (haddr : s'.connIdHostportMap = s.connIdHostportMap)
  | closed (c : Int) (hop : req.op = .docloseconn c) (hself : s'.latestActiveEpoch c = none)
      (haddr : s'.connIdHostportMap c = s.connIdHostportMap c ∨ s'.connIdHostportMap c = none)
      (hothers : ∀ id, id ≠ c → s'.latestActiveEpoch id = s.latestActiveEpoch id ∧
        s'.connIdHostportMap id = s.connIdHostportMap id)
  | heard (c : Int) (a : A) (msg : Message) (hop : req.op = .receivemsg a msg)
      (hc : s.connIdOf a = c ∧ 0 < c ∨ s.deferedClose = [] ∧ c = s.connId + 1)
      (hself : s'.latestActiveEpoch c = none ∨ s'.latestActiveEpoch c = some s.currEpoch)
      (hothers : ∀ id, id ≠ c → s'.latestActiveEpoch id = s.latestActiveEpoch id ∧
        s'.connIdHostportMap id = s.connIdHostportMap id)

/-- The clock stands still, and a pending `Close` stays pending. -/
structure NoEpoch (s : Server A) (req : ServerReq A) (s' : Server A) : Prop where
  touches : Touches s req s'
  currEpoch : s'.currEpoch = s.currEpoch
  inClosing : s'.connLostInClosing = s.connLostInClosing
  closing : s'.deferedClose = s.deferedClose ∨ req.op = .doclose ∧ s'.deferedClose ≠ []
  connId : s.connId ≤ s'.connId

theorem noEpoch_refl (s : Server A) (req : ServerReq A) : NoEpoch s req s :=
  ⟨.none rfl rfl, rfl, rfl, .inl rfl, le_refl _⟩

theorem NoEpoch.stillOpen {s s' : Server A} {req : ServerReq A} (h : NoEpoch s req s')
    (hnil : s'.deferedClose = []) : s.deferedClose = [] := by
  rcases h.closing with hcl | ⟨-, hne⟩
  · exact hcl.symm.trans hnil
  · exact absurd hnil hne

section NoEpoch

variable {s s' : Server A} {req : ServerReq A} {out : List (ServerOut A)} {P : Params}

theorem noEpoch_read {replyc : Nat} {o : Orders} (h : s.handleRead replyc o = some (s', out)) :
    s'.latestActiveEpoch = s.latestActiveEpoch ∧ s'.connIdHostportMap = s.connIdHostportMap ∧
      s'.currEpoch = s.currEpoch ∧ s'.connLostInClosing = s.connLostInClosing ∧
      s'.deferedClose = s.deferedClose ∧ s'.connId = s.connId := by
  unfold Server.handleRead at h
  split at h
  · cases h
    exact ⟨rfl, rfl, rfl, rfl, rfl, rfl⟩
  · split at h
    · simp only [Option.bind_eq_bind, Option.bind_eq_some_iff, Option.pure_def, Option.some.injEq,
        Prod.mk.injEq] at h
      obtain ⟨rb, -, t, -, rfl, -⟩ := h
      exact ⟨rfl, rfl, rfl, rfl, rfl, rfl⟩
    · split at h <;> cases h <;> exact ⟨rfl, rfl, rfl, rfl, rfl, rfl⟩

theorem noEpoch_write {id : Int} {p : Payload} {replyc : Nat}
    (h : s.handleWrite P id p replyc = some (s', out)) : NoEpoch s req s' := by
  cases writes_of_handle h with
  | rejected => exact noEpoch_refl s req
  | accepted => exact ⟨.none rfl rfl, rfl, rfl, .inl rfl, le_refl _⟩

theorem noEpoch_close {replyc : Nat} {o : Orders} (hop : req.op = .doclose)
    (h : s.handleClose replyc o = some (s', out)) : NoEpoch s req s' := by
  cases closesServer_of_handle h with
  | ends => exact ⟨.none rfl rfl, rfl, rfl, .inl rfl, le_refl _⟩
  | waits => exact ⟨.none rfl rfl, rfl, rfl, .inr ⟨hop, by simp⟩, le_refl _⟩

theorem touches_heard {addr : A} {msg : Message} (hop : req.op = .receivemsg addr msg)
    (hid : 0 < s.connIdOf addr)
    (hlatest : s'.latestActiveEpoch = mapSet s.latestActiveEpoch (s.connIdOf addr) s.currEpoch)
    (haddr : s'.connIdHostportMap = s.connIdHostportMap) : Touches s req s' := by
  refine .heard (s.connIdOf addr) addr msg hop (.inl ⟨rfl, hid⟩) (.inr ?_) fun id hne => ?_
  · rw [hlatest]
    exact Function.update_self ..
  · rw [hlatest, haddr]
    exact ⟨Function.update_of_ne hne .., rfl⟩

theorem noEpoch_data {addr : A} {msg : Message} {o : Orders} (hop : req.op = .receivemsg addr msg)
    (h : s.handleData P addr msg o = some (s', out)) : NoEpoch s req s' := by
  unfold Server.handleData at h
  simp only at h
  split at h
  · rename_i hc
    have heard : ∀ {s₁ : Server A}, _ → _ → Touches s req s₁ := touches_heard hop hc.1
    split at h
    · simp only [Option.bind_eq_bind, Option.bind_eq_some_iff] at h
      obtain ⟨rb, -, lab, -, r, -, h⟩ := h
      split at h
      · split at h
        · simp only [Option.bind_eq_some_iff, Option.pure_def, Option.some.injEq,
            Prod.mk.injEq] at h
          obtain ⟨t, ht, rfl, -⟩ := h
          obtain ⟨hlatest, haddr, hcurr, hin, hcl, hconn⟩ := noEpoch_read ht
          exact ⟨heard hlatest haddr, hcurr, hin, .inl hcl, hconn.ge⟩
        · cases h
          exact ⟨heard rfl rfl, rfl, rfl, .inl rfl, le_refl _⟩
      · cases h
        exact ⟨heard rfl rfl, rfl, rfl, .inl rfl, le_refl _⟩
    · cases h
      exact ⟨heard rfl rfl, rfl, rfl, .inl rfl, le_refl _⟩
  · cases h
    exact noEpoch_refl s req

variable [DecidableEq A]

theorem noEpoch_connect {addr : A} {msg : Message} (hop : req.op = .receivemsg addr msg) :
    NoEpoch s req (s.handleConnect addr).1 := by
  unfold Server.handleConnect
  split
  · rename_i hc
    refine ⟨.heard (s.connId + 1) addr msg hop (.inr ⟨List.length_eq_zero_iff.mp hc.1, rfl⟩)
      (.inr ?_) ?_, rfl, rfl, .inl rfl, ?_⟩
    · exact Function.update_self ..
    · exact fun id hne => ⟨Function.update_of_ne hne .., Function.update_of_ne hne ..⟩
    · simp only
      omega
  · exact noEpoch_refl s req

theorem noEpoch_ack {addr : A} {msg : Message} (hop : req.op = .receivemsg addr msg)
    (h : s.handleAck P addr msg = some (s', out)) : NoEpoch s req s' := by
  cases handlesAck_of_handle h with
  | unknown => exact noEpoch_refl s req
  | missed hid | acked hid =>
    exact ⟨touches_heard hop hid rfl rfl, rfl, rfl, .inl rfl, le_refl _⟩
  | last hid =>
    refine ⟨.heard (s.connIdOf addr) addr msg hop (.inl ⟨rfl, hid⟩)
      (.inl (Function.update_self ..)) fun id hne => ?_, rfl, rfl, .inl rfl, le_refl _⟩
    exact ⟨(Function.update_of_ne hne ..).trans (Function.update_of_ne hne ..),
      Function.update_of_ne hne ..⟩

theorem noEpoch_closeConn {id : Int} {replyc : Nat} (hop : req.op = .docloseconn id)
    (h : s.handleCloseConn id replyc = some (s', out)) : NoEpoch s req s' := by
  cases closesConn_of_handle h with
  | unknown => exact noEpoch_refl s req
  | waits =>
    exact ⟨.closed id hop (Function.update_self ..) (.inl rfl)
      fun id' hne => ⟨Function.update_of_ne hne .., rfl⟩, rfl, rfl, .inl rfl, le_refl _⟩
  | ends =>
    exact ⟨.closed id hop (Function.update_self ..) (.inr (Function.update_self ..))
      fun id' hne => ⟨Function.update_of_ne hne .., Function.update_of_ne hne ..⟩, rfl, rfl,
      .inl rfl, le_refl _⟩

theorem noEpoch_of_handle (hop : req.op ≠ .epochtimer) (h : s.handle P req = some (s', out)) :
    NoEpoch s req s' := by
  unfold Server.handle at h
  split at h
  · cases hop' : req.op <;> simp only [hop'] at h
    case doread =>
      obtain ⟨hlatest, haddr, hcurr, hin, hcl, hconn⟩ := noEpoch_read h
      exact ⟨.none hlatest haddr, hcurr, hin, .inl hcl, hconn.ge⟩
    case dowrite id p => exact noEpoch_write h
    case docloseconn id => exact noEpoch_closeConn hop' h
    case doclose => exact noEpoch_close hop' h
    case epochtimer => exact absurd hop' hop
    case receivemsg addr msg =>
      unfold Server.handleReceivedMsg at h
      cases htype : msg.type <;> simp only [htype] at h
      case connect =>
        have hno : NoEpoch s req (s.handleConnect addr).1 := noEpoch_connect hop'
        rw [Option.some.inj h] at hno
        exact hno
      case ack => exact noEpoch_ack hop' h
      case data => exact noEpoch_data hop' h
  · cases h

end NoEpoch

/-! ## What an epoch does -/

section Epoch

variable {s s' : Server A} {out : List (ServerOut A)} {P : Params} {id e : Int}

/-- What the loop over the connections does to one of them. -/
structure Detected (s s' : Server A) (out : List (ServerOut A)) (id : Int) : Prop where
  currEpoch : s'.currEpoch = s.currEpoch
  connId : s'.connId = s.connId
  closing : s'.deferedClose = s.deferedClose
  inClosing : s'.connLostInClosing = false → s.connLostInClosing = false ∧
    (s.deferedClose ≠ [] → out.filterMap ServerOut.lost = [])
  either : s'.latestActiveEpoch id = s.latestActiveEpoch id ∧
      s'.connIdHostportMap id = s.connIdHostportMap id ∨
    s'.latestActiveEpoch id = none ∧ s'.connIdHostportMap id = none ∧
      id ∈ out.filterMap ServerOut.lost

theorem Detected.absent (h : Detected s s' out id) (hn : s.latestActiveEpoch id = none) :
    s'.latestActiveEpoch id = none := by
  rcases h.either with ⟨hl, -⟩ | ⟨hl, -⟩
  · exact hl.trans hn
  · exact hl

theorem Detected.noAddr (h : Detected s s' out id) (hn : s.connIdHostportMap id = none) :
    s'.connIdHostportMap id = none := by
  rcases h.either with ⟨-, ha⟩ | ⟨-, ha, -⟩
  · exact ha.trans hn
  · exact ha

theorem Detected.refl (s : Server A) (id : Int) : Detected s s [] id :=
  ⟨rfl, rfl, rfl, fun hn => ⟨hn, fun _ => rfl⟩, .inl ⟨rfl, rfl⟩⟩

theorem Detected.trans {s₁ : Server A} {out₁ : List (ServerOut A)} (h₁ : Detected s s₁ out₁ id)
    (h₂ : Detected s₁ s' out id) : Detected s s' (out₁ ++ out) id := by
  refine ⟨h₂.currEpoch.trans h₁.currEpoch, h₂.connId.trans h₁.connId,
    h₂.closing.trans h₁.closing, fun hn => ?_, ?_⟩
  · obtain ⟨hn₁, hlost₂⟩ := h₂.inClosing hn
    obtain ⟨hn₀, hlost₁⟩ := h₁.inClosing hn₁
    refine ⟨hn₀, fun hne => ?_⟩
    rw [List.filterMap_append, hlost₁ hne, hlost₂ (h₁.closing ▸ hne)]
    rfl
  · rw [List.filterMap_append, List.mem_append]
    rcases h₁.either with ⟨hl₁, ha₁⟩ | ⟨hl₁, ha₁, hlost⟩
    · rcases h₂.either with ⟨hl₂, ha₂⟩ | ⟨hl₂, ha₂, hlost⟩
      · exact .inl ⟨hl₂.trans hl₁, ha₂.trans ha₁⟩
      · exact .inr ⟨hl₂, ha₂, .inr hlost⟩
    · exact .inr ⟨h₂.absent hl₁, h₂.noAddr ha₁, .inl hlost⟩

variable [DecidableEq A]

theorem Detects.detected {c : Int} (h : Detects P s c s' out) (id : Int) :
    Detected s s' out id := by
  cases h with
  | kept hsoon => exact .refl s id
  | _ haddr =>
    refine ⟨rfl, rfl, rfl, ?_, ?_⟩
    · intro hn
      have hn' : (s.connLostInClosing || decide (s.deferedClose.length > 0)) = false := hn
      rw [Bool.or_eq_false_iff, decide_eq_false_iff_not] at hn'
      exact ⟨hn'.1, fun hne => absurd (List.length_pos_iff.mpr hne) hn'.2⟩
    · by_cases hid : id = c
      · subst hid
        exact .inr ⟨Function.update_self .., Function.update_self .., List.mem_singleton_self _⟩
      · exact .inl ⟨Function.update_of_ne hid .., Function.update_of_ne hid ..⟩

theorem detected_detectLostAll {order : List Int} (h : s.detectLostAll P order = some (s', out))
    (id : Int) : Detected s s' out id :=
  detectLostAll_rule (R := fun s s' out => Detected s s' out id) (fun s => .refl s id)
    (fun h₁ h₂ => h₁.trans h₂) (fun hd => hd.detected id) h

/-- A connection that the loop comes to is gone if its client has been silent for
too long. -/
theorem detectLostAll_late {order : List Int} (h : s.detectLostAll P order = some (s', out))
    (hid : id ∈ order) (he : s.latestActiveEpoch id = some e)
    (hlate : P.epochLimit ≤ s.currEpoch - e) : s'.latestActiveEpoch id = none := by
  induction order generalizing s s' out with
  | nil => cases hid
  | cons c rest ih =>
    simp only [Server.detectLostAll, Option.bind_eq_bind, Option.bind_eq_some_iff, Option.pure_def,
      Option.some.injEq, Prod.mk.injEq] at h
    obtain ⟨⟨s₁, out₁⟩, h₁, ⟨s₂, out₂⟩, h₂, rfl, -⟩ := h
    have hdet := detects_of_detectLost h₁
    have hd₁ := hdet.detected id
    have hd₂ := detected_detectLostAll h₂ id
    rcases List.mem_cons.mp hid with rfl | hid
    · refine hd₂.absent ?_
      cases hdet with
      | kept hsoon =>
        have := hsoon e he
        omega
      | _ => exact Function.update_self ..
    · rcases hd₁.either with ⟨hl₁, -⟩ | ⟨hl₁, -, -⟩
      · exact ih h₂ hid (hl₁.trans he) (by rw [hd₁.currEpoch]; exact hlate)
      · exact hd₂.absent hl₁

/-- The epoch is the loop, and perhaps the end of the server: when a `Close` waits
and nothing is unacknowledged any more, every waiting `Close` is answered. -/
theorem epoch_cases {o : Orders} (h : s.handleEpoch P o = some (s', out)) :
    ∃ s₁ lostOut, Server.detectLostAll P { s with currEpoch := s.currEpoch + 1 } o.first =
        some (s₁, lostOut) ∧
      (s' = s₁ ∨ s' = { s₁ with serverRunning := false }) ∧
      out.filterMap ServerOut.lost = lostOut.filterMap ServerOut.lost ∧
      (s₁.deferedClose ≠ [] → (∀ id, s₁.unAckedMsgBuffer id = none) →
        s'.serverRunning = false ∧ ∀ k ∈ s₁.deferedClose, ∃ ret, .reply k ret ∈ out) := by
  cases epochs_of_handleEpoch h with
  | @stays _ lostOut hloop hbusy =>
    refine ⟨s', lostOut, hloop, .inl rfl, ?_, fun hclosing hnone => ?_⟩
    · rw [List.filterMap_append, (resent_epoch s' o).lost, List.append_nil]
    · obtain ⟨id, -, hid⟩ := hbusy hclosing
      rw [Server.pending, hnone id] at hid
      cases hid
  | @ends s₁ lostOut hloop hclosing hidle =>
    refine ⟨s₁, lostOut, hloop, .inr rfl, ?_, fun _ _ => ⟨rfl, fun k hk => ?_⟩⟩
    · have hreplies : (s₁.deferedClose.map fun closeReq => ServerOut.reply (A := A) closeReq
          s₁.closeRet).filterMap ServerOut.lost = [] := by
        rw [List.filterMap_map]
        exact List.filterMap_eq_nil_iff.mpr fun _ _ => rfl
      simp only [List.filterMap_append, (resent_epoch s₁ o).lost, hreplies, List.append_nil]
      exact List.append_nil _
    · exact ⟨_, List.mem_append_left _ (List.mem_append_right _ (List.mem_map.mpr ⟨k, hk, rfl⟩))⟩

end Epoch

/-! ## Runs -/

section Runs

/-- The event handler can take the next epoch. -/
theorem MapsAgree.epoch_handled [DecidableEq A] {s : Server A} (h : MapsAgree s) (P : Params)
    {req : ServerReq A} (htakes : s.Takes req) (hop : req.op = .epochtimer) :
    ∃ t, s.handle P req = some t := by
  obtain ⟨t, ht, -⟩ := h.epoch_agrees P req.orders
  refine ⟨t, ?_⟩
  unfold Server.handle
  rw [if_pos ⟨htakes.running, htakes.first, htakes.second, htakes.third⟩, hop]
  exact ht

variable [DecidableEq A] {P : Params} {r r' : ServerRun A} {req : ServerReq A} {id : Int} {a : A}
  {s s' : Server A} {out : List (ServerOut A)} {n : Nat}

/-- No connection was heard of later than now. -/
def Clocked (s : Server A) : Prop :=
  ∀ id e, s.latestActiveEpoch id = some e → e ≤ s.currEpoch

theorem epoch_of_handle (hop : req.op = .epochtimer) (hh : s.handle P req = some (s', out)) :
    req.orders.first.Perm s.ids ∧ s.handleEpoch P req.orders = some (s', out) := by
  unfold Server.handle at hh
  split at hh
  · rename_i htakes
    rw [hop] at hh
    exact ⟨htakes.2.1, hh⟩
  · cases hh

theorem epoch_detected (hop : req.op = .epochtimer) (hh : s.handle P req = some (s', out))
    (id : Int) :
    Detected { s with currEpoch := s.currEpoch + 1 } s' out id := by
  obtain ⟨s₁, lostOut, h₁, hs', hlost, -⟩ := epoch_cases (epoch_of_handle hop hh).2
  obtain ⟨hcurr, hconn, hcl, hin, heither⟩ := detected_detectLostAll h₁ id
  rw [← hlost] at hin heither
  rcases hs' with rfl | rfl <;> exact ⟨hcurr, hconn, hcl, hin, heither⟩

theorem epoch_late {e : Int} (hm : MapsAgree s) (hop : req.op = .epochtimer)
    (hh : s.handle P req = some (s', out)) (he : s.latestActiveEpoch id = some e)
    (hlate : P.epochLimit ≤ s.currEpoch + 1 - e) :
    s'.latestActiveEpoch id = none := by
  obtain ⟨hperm, hepoch⟩ := epoch_of_handle hop hh
  obtain ⟨s₁, lostOut, h₁, hs', -⟩ := epoch_cases hepoch
  have hid : id ∈ req.orders.first := by
    rcases hm.conns id with ⟨addr, hc⟩ | hno
    · exact hperm.mem_iff.mpr (mem_ids.mpr (hm.used id (.inl (by rw [hc.addr]; nofun))))
    · rw [hno.latestActive] at he
      cases he
  have hnone := detectLostAll_late h₁ hid he hlate
  rcases hs' with rfl | rfl <;> exact hnone

theorem Clocked.handle (h : Clocked s) (hh : s.handle P req = some (s', out)) : Clocked s' := by
  intro id e he
  by_cases hop : req.op = .epochtimer
  · have hd := epoch_detected hop hh id
    rw [hd.currEpoch]
    simp only
    rcases hd.either with ⟨hl, -⟩ | ⟨hl, -⟩
    · have := h id e (hl.symm.trans he)
      omega
    · rw [hl] at he
      cases he
  · have hno := noEpoch_of_handle hop hh
    rw [hno.currEpoch]
    rcases hno.touches with ⟨hlatest, -⟩ | ⟨c, -, hself, -, hothers⟩ | ⟨c, a, msg, -, -, hself, hothers⟩
    · rw [hlatest] at he
      exact h id e he
    · by_cases hid : id = c
      · rw [hid, hself] at he
        cases he
      · rw [(hothers id hid).1] at he
        exact h id e he
    · by_cases hid : id = c
      · rw [hid] at he
        rcases hself with hself | hself <;> rw [hself] at he <;> cases he
        exact le_refl _
      · rw [(hothers id hid).1] at he
        exact h id e he

theorem agree_and_clocked (hr : (serverRunsWhere P Server.settled).Reachable r) :
    MapsAgree r.server ∧ Clocked r.server := by
  have hind : (serverRunsWhere (A := A) P Server.settled).Inductive
      fun r => MapsAgree r.server ∧ Clocked r.server := by
    refine ⟨?_, fun r req r' h hstep => ?_⟩
    · rintro _ rfl
      exact ⟨mapsAgree_newServer, fun id e he => nomatch he⟩
    · obtain ⟨hsettled, s, out, hh, rfl⟩ := serverRunsWhere_step hstep
      exact ⟨h.1.handle hsettled hh, h.2.handle hh⟩
  exact hind.reachable r hr

/-- An event that is not about the connection leaves it alone. -/
theorem noEpoch_conn (hm : MapsAgree s) (hop : req.op ≠ .epochtimer)
    (hh : s.handle P req = some (s', out)) (hused : id ≤ s.connId)
    (hsilent : ∀ msg, s.connIdHostportMap id = some a → req.op ≠ .receivemsg a msg)
    (hkeep : req.op ≠ .docloseconn id)
    (ha : s.connIdHostportMap id = some a ∨ s.connIdHostportMap id = none) :
    s'.latestActiveEpoch id = s.latestActiveEpoch id ∧
      s'.connIdHostportMap id = s.connIdHostportMap id := by
  rcases (noEpoch_of_handle hop hh).touches with
    ⟨hlatest, haddr⟩ | ⟨c, hop', -, -, hothers⟩ | ⟨c, b, msg, hop', hc, -, hothers⟩
  · exact ⟨congrFun hlatest id, congrFun haddr id⟩
  · refine hothers id ?_
    rintro rfl
    exact hkeep hop'
  · refine hothers id ?_
    rintro rfl
    rcases hc with ⟨rfl, hpos⟩ | ⟨-, rfl⟩
    · have hb := (hm.entries_of_connIdOf hpos).addr
      rcases ha with ha | ha
      · rw [ha] at hb
        cases hb
        exact hsilent msg ha hop'
      · rw [ha] at hb
        cases hb
    · omega

/-- After `n` epochs without a word from its client, the connection is lost or
has been heard of less than `epochLimit` epochs ago. -/
def Lapses (P : Params) (id : Int) (a : A) (n : Nat) (r : ServerRun A) : Prop :=
  id ≤ r.server.connId ∧
    (r.lost id = true ∧ r.server.connIdHostportMap id = none ∨
      ∃ e, r.server.latestActiveEpoch id = some e ∧ r.server.connIdHostportMap id = some a ∧
        e + n ≤ r.server.currEpoch ∧ (0 < n → r.server.currEpoch - e < P.epochLimit))

def epochs (ls : List (ServerReq A)) : Nat := ls.countP fun req => req.op = .epochtimer

theorem Lapses.step (hm : MapsAgree r.server) (h : Lapses P id a n r)
    (hh : r.server.handle P req = some (s, out)) (hsilent : ∀ msg, req.op ≠ .receivemsg a msg)
    (hkeep : req.op ≠ .docloseconn id) :
    Lapses P id a (n + epochs [req]) (r.record req s out) := by
  obtain ⟨hused, h⟩ := h
  by_cases hop : req.op = .epochtimer
  · have hone : epochs [req] = 1 := by simp [epochs, hop]
    rw [hone]
    have hd := epoch_detected hop hh id
    refine ⟨hused.trans hd.connId.ge, ?_⟩
    rcases h with ⟨hlost, haddr⟩ | ⟨e, he, haddr, hn, hrecent⟩
    · refine .inl ⟨?_, hd.noAddr haddr⟩
      simp only [ServerRun.record, hlost, Bool.true_or]
    · rcases hd.either with ⟨hl, ha⟩ | ⟨hl, ha, hlost⟩
      · refine .inr ⟨e, hl.trans he, ha.trans haddr, ?_, fun _ => not_le.mp fun hlate => ?_⟩
        · simp only [ServerRun.record, hd.currEpoch]
          push_cast
          omega
        · simp only [ServerRun.record, hd.currEpoch] at hlate
          rw [epoch_late hm hop hh he hlate] at hl
          exact absurd (hl.trans he) nofun
      · refine .inl ⟨?_, ha⟩
        simp only [ServerRun.record, Bool.or_eq_true, decide_eq_true_eq]
        exact .inr hlost
  · have hzero : epochs [req] = 0 := by simp [epochs, hop]
    rw [hzero, Nat.add_zero]
    have hno := noEpoch_of_handle hop hh
    refine ⟨hused.trans hno.connId, ?_⟩
    rcases h with ⟨hlost, haddr⟩ | ⟨e, he, haddr, hn, hrecent⟩
    · obtain ⟨-, ha⟩ := noEpoch_conn hm hop hh hused (fun msg _ => hsilent msg) hkeep (.inr haddr)
      refine .inl ⟨?_, ha.trans haddr⟩
      simp only [ServerRun.record, hlost, Bool.true_or]
    · obtain ⟨hl, ha⟩ := noEpoch_conn hm hop hh hused (fun msg _ => hsilent msg) hkeep (.inl haddr)
      refine .inr ⟨e, hl.trans he, ha.trans haddr, ?_, fun hpos => ?_⟩
      · simp only [ServerRun.record, hno.currEpoch]
        exact hn
      · simp only [ServerRun.record, hno.currEpoch]
        exact hrecent hpos

/-- The same for all connections at once, while a `Close` waits. No connection is
opened then, so only those of the addresses `known` are left. -/
structure Closing (P : Params) (known : A → Prop) (n : Nat) (s : Server A) : Prop where
  closing : s.deferedClose ≠ []
  known : ∀ id a, s.connIdHostportMap id = some a → known a
  recent : ∀ id e, s.latestActiveEpoch id = some e →
    e + n ≤ s.currEpoch ∧ (0 < n → s.currEpoch - e < P.epochLimit)

theorem Closing.step {known : A → Prop} (hm : MapsAgree s) (h : Closing P known n s)
    (hh : s.handle P req = some (s', out))
    (hsilent : ∀ a msg, known a → req.op ≠ .receivemsg a msg) :
    Closing P known (n + epochs [req]) s' := by
  by_cases hop : req.op = .epochtimer
  · have hone : epochs [req] = 1 := by simp [epochs, hop]
    rw [hone]
    refine ⟨?_, fun id a ha => ?_, fun id e he => ?_⟩
    · rw [(epoch_detected hop hh 0).closing]
      exact h.closing
    · rcases (epoch_detected hop hh id).either with ⟨-, ha'⟩ | ⟨-, ha', -⟩
      · exact h.known id a (ha'.symm.trans ha)
      · rw [ha'] at ha
        cases ha
    · have hd := epoch_detected hop hh id
      rcases hd.either with ⟨hl, -⟩ | ⟨hl, -⟩
      · have he₀ := hl.symm.trans he
        have hrecent := h.recent id e he₀
        rw [hd.currEpoch]
        simp only
        refine ⟨by push_cast; omega, fun _ => not_le.mp fun hlate => ?_⟩
        rw [epoch_late hm hop hh he₀ hlate] at he
        cases he
      · rw [hl] at he
        cases he
  · have hzero : epochs [req] = 0 := by simp [epochs, hop]
    rw [hzero, Nat.add_zero]
    have hno := noEpoch_of_handle hop hh
    have hclosing : s'.deferedClose ≠ [] := fun hn => h.closing (hno.stillOpen hn)
    rcases hno.touches with ⟨hlatest, haddr⟩ | ⟨c, -, hself, haddr, hothers⟩ | ⟨c, b, msg, hop', hc, -, -⟩
    · refine ⟨hclosing, fun id a ha => ?_, fun id e he => ?_⟩
      · rw [haddr] at ha
        exact h.known id a ha
      · rw [hlatest] at he
        rw [hno.currEpoch]
        exact h.recent id e he
    · refine ⟨hclosing, fun id a ha => ?_, fun id e he => ?_⟩
      · by_cases hid : id = c
        · rw [hid] at ha
          rcases haddr with haddr | haddr
          · exact h.known c a (haddr.symm.trans ha)
          · rw [haddr] at ha
            cases ha
        · exact h.known id a ((hothers id hid).2.symm.trans ha)
      · by_cases hid : id = c
        · rw [hid, hself] at he
          cases he
        · rw [(hothers id hid).1] at he
          rw [hno.currEpoch]
          exact h.recent id e he
    · -- a datagram from an address without a connection is ignored
      rcases hc with ⟨rfl, hpos⟩ | ⟨hopen, -⟩
      · have hb := (hm.entries_of_connIdOf hpos).addr
        exact absurd hop' (hsilent b msg (h.known _ b hb))
      · exact absurd hopen h.closing

theorem epochs_cons (req : ServerReq A) (ls : List (ServerReq A)) :
    epochs (req :: ls) = epochs [req] + epochs ls := by
  simp only [epochs, List.countP_cons, List.countP_nil, Nat.zero_add]
  rw [Nat.add_comm]

theorem Lapses.run {ls : List (ServerReq A)} (hrun : (serverRunsWhere P Server.settled).Run r ls r')
    (hm : MapsAgree r.server) (h : Lapses P id a n r)
    (hsilent : ∀ req ∈ ls, (∀ msg, req.op ≠ .receivemsg a msg) ∧ req.op ≠ .docloseconn id) :
    Lapses P id a (n + epochs ls) r' := by
  induction hrun generalizing n with
  | nil => exact h
  | cons hstep _ ih =>
    rename_i r r₁ r₂ req ls _
    obtain ⟨hsettled, s, out, hh, rfl⟩ := serverRunsWhere_step hstep
    obtain ⟨hquiet, hkeep⟩ := hsilent req List.mem_cons_self
    rw [epochs_cons, ← Nat.add_assoc]
    exact ih (hm.handle hsettled hh) (h.step hm hh hquiet hkeep)
      fun req hreq => hsilent req (List.mem_cons_of_mem _ hreq)

theorem Closing.run {ls : List (ServerReq A)} {known : A → Prop}
    (hrun : (serverRunsWhere P Server.settled).Run r ls r') (hm : MapsAgree r.server)
    (h : Closing P known n r.server)
    (hsilent : ∀ req ∈ ls, ∀ a msg, known a → req.op ≠ .receivemsg a msg) :
    MapsAgree r'.server ∧ Closing P known (n + epochs ls) r'.server := by
  induction hrun generalizing n with
  | nil => exact ⟨hm, h⟩
  | cons hstep _ ih =>
    rename_i r r₁ r₂ req ls _
    obtain ⟨hsettled, s, out, hh, rfl⟩ := serverRunsWhere_step hstep
    rw [epochs_cons, ← Nat.add_assoc]
    exact ih (hm.handle hsettled hh) (h.step hm hh (hsilent req List.mem_cons_self))
      fun req hreq => hsilent req (List.mem_cons_of_mem _ hreq)

/-- The epoch that ends the waiting. -/
theorem Closing.answered {known : A → Prop} (hm : MapsAgree s) (h : Closing P known n s)
    (hn : P.epochLimit ≤ n + 1) (htakes : s.Takes req) (hop : req.op = .epochtimer) :
    ∃ s' out, s.handle P req = some (s', out) ∧ s'.serverRunning = false ∧
      ∀ k ∈ s.deferedClose, ∃ ret, .reply k ret ∈ out := by
  obtain ⟨⟨s', out⟩, hh⟩ := hm.epoch_handled P htakes hop
  obtain ⟨s₁, lostOut, h₁, -, -, hend⟩ := epoch_cases (epoch_of_handle hop hh).2
  have hnext : MapsAgree { s with currEpoch := s.currEpoch + 1 } := hm.kept { hm.kept_refl with }
  obtain ⟨t, ht, hm₁, hcl, -⟩ := hnext.detectLostAll_agrees P req.orders.first
  rw [h₁] at ht
  cases ht
  simp only at hcl hm₁
  -- every connection has been silent for too long
  have hnone : ∀ id, s₁.unAckedMsgBuffer id = none := by
    intro id
    rcases hm₁.conns id with ⟨a, hc⟩ | hno
    · obtain ⟨e, he⟩ := Option.isSome_iff_exists.mp hc.latestActive
      rcases (detected_detectLostAll h₁ id).either with ⟨hl, -⟩ | ⟨hl, -⟩
      · have he₀ := hl.symm.trans he
        have hlate : P.epochLimit ≤ s.currEpoch + 1 - e := by
          have := (h.recent id e he₀).1
          omega
        have hid : id ∈ req.orders.first := by
          refine (epoch_of_handle hop hh).1.mem_iff.mpr (mem_ids.mpr (hm.used id (.inl ?_)))
          rcases hm.conns id with ⟨a', hc'⟩ | hno'
          · rw [hc'.addr]; nofun
          · rw [hno'.latestActive] at he₀; cases he₀
        rw [detectLostAll_late h₁ hid he₀ hlate] at he
        cases he
      · rw [hl] at he
        cases he
    · exact hno.unAcked
  obtain ⟨hstop, hreply⟩ := hend (hcl ▸ h.closing) hnone
  exact ⟨s', out, hh, hstop, fun k hk => hreply k (hcl.symm ▸ hk)⟩

end Runs

/-! ## The result -/

section Result

variable [DecidableEq A]

/-- While connections are closed only when nothing is pending on them: whatever is
unacknowledged belongs to a connection that can time out; an epoch is always
handled; a connection whose client stays silent is lost after `epochLimit` epochs;
and when all are silent, a waiting `Close` is answered by then. -/
theorem silent_clients_time_out (P : Params) {r : ServerRun A}
    (hr : (serverRunsWhere P Server.settled).Reachable r) :
    (∀ id u, r.server.unAckedMsgBuffer id = some u → ∃ a, (r.server.writeBuffer id).isSome ∧
        r.server.connIdHostportMap id = some a ∧ (r.server.latestActiveEpoch id).isSome ∧
        r.server.hostportConnIdMap a = some id) ∧
      (∀ req, r.server.Takes req → req.op = .epochtimer → ∃ t, r.server.handle P req = some t) ∧
      (∀ id a ls r', r.server.connIdHostportMap id = some a →
        (serverRunsWhere P Server.settled).Run r ls r' →
        (∀ req ∈ ls, (∀ msg, req.op ≠ .receivemsg a msg) ∧ req.op ≠ .docloseconn id) →
        P.epochLimit ≤ epochs ls → 0 < epochs ls →
        r'.lost id = true ∧ r'.server.unAckedMsgBuffer id = none) ∧
      (∀ ls r' req, r.server.deferedClose ≠ [] → (serverRunsWhere P Server.settled).Run r ls r' →
        (∀ req ∈ ls, ∀ a msg, r.server.hostportConnIdMap a ≠ none → req.op ≠ .receivemsg a msg) →
        P.epochLimit ≤ epochs ls + 1 → r'.server.Takes req → req.op = .epochtimer →
        ∃ s out, r'.server.handle P req = some (s, out) ∧ s.serverRunning = false ∧
          ∀ k ∈ r'.server.deferedClose, ∃ ret, .reply k ret ∈ out) := by
  obtain ⟨hm, hclock⟩ := agree_and_clocked hr
  refine ⟨fun id u hu => ?_, fun req htakes hop => hm.epoch_handled P htakes hop, ?_, ?_⟩
  · rcases hm.conns id with ⟨a, hc⟩ | hno
    · exact ⟨a, hc.write, hc.addr, hc.latestActive, hc.hostport⟩
    · rw [hno.unAcked] at hu
      cases hu
  · intro id a ls r' ha hrun hsilent hlimit hpos
    have hc := hm.entries ha
    obtain ⟨e, he⟩ := Option.isSome_iff_exists.mp hc.latestActive
    have hlapse : Lapses P id a 0 r := by
      refine ⟨(hm.used id (.inl (by rw [ha]; nofun))).2, .inr ⟨e, he, ha, ?_, fun h => absurd h (lt_irrefl 0)⟩⟩
      have := hclock id e he
      simpa using this
    obtain ⟨-, hlapse⟩ := hlapse.run hrun hm hsilent
    rcases hlapse with ⟨hlost, haddr⟩ | ⟨e', -, -, hle, hlt⟩
    · refine ⟨hlost, ?_⟩
      have hm' : MapsAgree r'.server :=
        hrun.invariant (I := fun r => MapsAgree r.server)
          (mapsAgree_inductive P fun _ _ h => h).step hm
      rcases hm'.conns id with ⟨a', hc'⟩ | hno
      · rw [hc'.addr] at haddr
        cases haddr
      · exact hno.unAcked
    · have := hlt (by omega)
      omega
  · intro ls r' req hclosing hrun hsilent hlimit htakes hop
    have hstart : Closing P (fun a => r.server.hostportConnIdMap a ≠ none) 0 r.server := by
      refine ⟨hclosing, fun id a ha => ?_, fun id e he => ⟨?_, fun h => absurd h (lt_irrefl 0)⟩⟩
      · rw [(hm.entries ha).hostport]
        nofun
      · have := hclock id e he
        simpa using this
    obtain ⟨hm', hend⟩ := hstart.run hrun hm hsilent
    exact hend.answered hm' (by omega) htakes hop

end Result

/-! With `epochLimit` 1, one epoch is enough. -/

def waiting : ServerRun Unit := afterConnect [onOne (.dowrite 1 [7]) 1, onOne .doclose 2]

def timedOut : ServerRun Unit :=
  LTS.execD (LTS.guarded (fun r req => r.server.settled req) (ServerRun.step impatient)) waiting
    [onOne .epochtimer 0]

theorem silent_client_times_out :
    (waiting.server.unAckedMsgBuffer 1).isSome = true ∧ timedOut.lost 1 = true ∧
      timedOut.server.unAckedMsgBuffer 1 = none := by
  have hr : (serverRunsWhere impatient Server.settled).Reachable waiting :=
    ⟨_, ⟨.receivemsg () newConnect, 0, ⟨[], [], []⟩⟩ :: [onOne (.dowrite 1 [7]) 1, onOne .doclose 2],
      rfl, LTS.run_of_exec rfl⟩
  refine ⟨rfl, (silent_clients_time_out impatient hr).2.2.1 1 () [onOne .epochtimer 0] timedOut rfl
    (LTS.run_execD (by decide)) ?_ (by decide) (by decide)⟩
  intro req hreq
  rw [List.mem_singleton.mp hreq]
  exact ⟨fun msg => nofun, nofun⟩

/-! ## A connection that is closed with a message pending -/

/-- `Write`, `CloseConn` before the ack, and `Close`. -/
def abandoned : ServerRun Unit :=
  afterConnect [onOne (.dowrite 1 [7]) 1, onOne (.docloseconn 1) 2, onOne .doclose 3]

/-- The client sends nothing any more, and no epoch declares it lost. -/
theorem close_waits_for_ever :
    (serverRuns impatient).Reachable abandoned ∧
      (abandoned.server.unAckedMsgBuffer 1).isSome = true ∧
      abandoned.server.latestActiveEpoch 1 = none ∧
      ∀ n : Nat, ∃ r, (serverRuns impatient).Run abandoned (List.replicate n (onOne .epochtimer 0)) r ∧
        r.server.serverRunning = true ∧ r.server.deferedClose = [3] ∧ r.lost 1 = false := by
  refine ⟨reachable_afterConnect (by decide), rfl, rfl, fun n => ?_⟩
  -- an epoch only moves the clock
  have hrun : ∀ (r : ServerRun Unit) (e : Int), r.server = { abandoned.server with currEpoch := e } →
      r.lost 1 = false → ∃ r', (serverRuns impatient).Run r (List.replicate n (onOne .epochtimer 0)) r' ∧
        r'.server.serverRunning = true ∧ r'.server.deferedClose = [3] ∧ r'.lost 1 = false := by
    induction n with
    | zero =>
      intro r e hr hlost
      exact ⟨r, .nil r, by rw [hr]; rfl, by rw [hr]; rfl, hlost⟩
    | succ n ih =>
      intro r e hr hlost
      have hh : r.server.handle impatient (onOne .epochtimer 0) =
          some ({ abandoned.server with currEpoch := e + 1 }, [.send () (newData 1 1 [7])]) := by
        rw [hr]
        rfl
      obtain ⟨r', hrun, hend⟩ := ih (r.record (onOne .epochtimer 0)
        { abandoned.server with currEpoch := e + 1 } [.send () (newData 1 1 [7])]) (e + 1) rfl (by
          simp only [ServerRun.record, hlost, Bool.false_or]
          rfl)
      refine ⟨r', .cons ?_ hrun, hend⟩
      show ServerRun.step impatient r (onOne .epochtimer 0) = _
      rw [ServerRun.step, hh]
      rfl
  exact hrun abandoned 0 rfl rfl

end Cmu440.Lsp
