import Cmu440.Lsp.ServerCrash

/-!
# Blocked reads of the server

A `Read` with nothing to return is kept in `deferedRead`. The message with the
expected number wakes one of them (server_impl.go:207-212). If messages behind it
are in the read buffer already, they are ready as well, and nobody else is woken:
two blocked reads and two messages in the wrong order leave the second read
blocked in front of a ready message (`second_read_stays_blocked`).

No read stays blocked in front of a ready message as long as the message that
wakes one of several reads is not followed by a buffered one
(`no_read_blocked_on_ready`). With a single reader this is always so.
-/
namespace Cmu440.Lsp

variable {A : Type}

/-- No connection has its next message. -/
def NothingReady (s : Server A) : Prop :=
  ∀ id rb, s.readBuffer id = some rb → s.ready id rb = false

/-- The read buffers are of connections that have been opened. -/
structure ReadsKnown (s : Server A) : Prop where
  connId : 0 ≤ s.connId
  used : ∀ id, s.readBuffer id ≠ none → id ∈ s.ids

structure Woken (s : Server A) : Prop where
  known : ReadsKnown s
  quiet : s.deferedRead ≠ [] → NothingReady s

/-! ## Events that only take away -/

/-- Read buffers and blocked reads only go. -/
structure Shrinks (s s' : Server A) : Prop where
  read : ∀ id, s'.readBuffer id = none ∨
    s'.readBuffer id = s.readBuffer id ∧ s'.expectedSeqNum id = s.expectedSeqNum id
  reads : s'.deferedRead ≠ [] → s.deferedRead ≠ []
  connId : s'.connId = s.connId

theorem Shrinks.refl (s : Server A) : Shrinks s s := ⟨fun _ => .inr ⟨rfl, rfl⟩, id, rfl⟩

theorem Shrinks.trans {s s₁ s₂ : Server A} (h : Shrinks s s₁) (h' : Shrinks s₁ s₂) : Shrinks s s₂ where
  read id := by
    rcases h'.read id with hnone | ⟨hr', he'⟩
    · exact .inl hnone
    · rcases h.read id with hnone | ⟨hr, he⟩
      · exact .inl (hr'.trans hnone)
      · exact .inr ⟨hr'.trans hr, he'.trans he⟩
  reads hn := h.reads (h'.reads hn)
  connId := h'.connId.trans h.connId

theorem ids_eq {s s' : Server A} (h : s'.connId = s.connId) : s'.ids = s.ids := by
  unfold Server.ids
  rw [h]

theorem ready_congr {s s' : Server A} {id : Int} {rb : Buffer}
    (h : s'.expectedSeqNum id = s.expectedSeqNum id) : s'.ready id rb = s.ready id rb := by
  unfold Server.ready Server.expected
  rw [h]

theorem NothingReady.shrink {s s' : Server A} (h : NothingReady s) (hs : Shrinks s s') :
    NothingReady s' := by
  intro id rb hrb
  rcases hs.read id with hnone | ⟨hr, he⟩
  · rw [hnone] at hrb
    cases hrb
  · rw [ready_congr he]
    exact h id rb (hr.symm.trans hrb)

theorem ReadsKnown.shrink {s s' : Server A} (h : ReadsKnown s) (hs : Shrinks s s') : ReadsKnown s' where
  connId := hs.connId ▸ h.connId
  used id hid := by
    rw [ids_eq hs.connId]
    refine h.used id fun hn => hid ?_
    rcases hs.read id with hnone | ⟨hr, -⟩
    · exact hnone
    · exact hr.trans hn

theorem Woken.shrink {s s' : Server A} (h : Woken s) (hs : Shrinks s s') : Woken s' :=
  ⟨h.known.shrink hs, fun hn => (h.quiet (hs.reads hn)).shrink hs⟩

section Shrinks

variable {s s' : Server A} {out : List (ServerOut A)} {P : Params}

theorem shrinks_write {id : Int} {p : Payload} {replyc : Nat}
    (h : s.handleWrite P id p replyc = some (s', out)) : Shrinks s s' := by
  cases writes_of_handle h with
  | rejected => exact .refl s
  | accepted => exact ⟨fun _ => .inr ⟨rfl, rfl⟩, fun hn => hn, rfl⟩

theorem shrinks_close {replyc : Nat} {o : Orders} (h : s.handleClose replyc o = some (s', out)) :
    Shrinks s s' := by
  cases closesServer_of_handle h with
  | ends | waits => exact ⟨fun _ => .inr ⟨rfl, rfl⟩, fun hn => absurd rfl hn, rfl⟩

variable [DecidableEq A]

theorem shrinks_ack {addr : A} {msg : Message} (h : s.handleAck P addr msg = some (s', out)) :
    Shrinks s s' := by
  cases handlesAck_of_handle h with
  | unknown => exact .refl s
  | missed | acked => exact ⟨fun _ => .inr ⟨rfl, rfl⟩, fun hn => hn, rfl⟩
  | last =>
    refine ⟨fun id => ?_, fun hn => hn, rfl⟩
    by_cases hid : id = s.connIdOf addr
    · exact .inl (by rw [hid]; exact Function.update_self ..)
    · exact .inr ⟨Function.update_of_ne hid .., Function.update_of_ne hid ..⟩

omit [DecidableEq A] in
theorem shrinks_forgetConn (s : Server A) (id : Int) :
    Shrinks s (Server.forgetConn { s with deferedRead := s.deferedRead.tail } id) := by
  refine ⟨fun id' => ?_, fun hn hnil => hn ?_, rfl⟩
  · by_cases hid : id' = id
    · exact .inl (by rw [hid]; exact Function.update_self ..)
    · exact .inr ⟨Function.update_of_ne hid .., Function.update_of_ne hid ..⟩
  · simp only [Server.forgetConn, hnil, List.tail_nil]

theorem shrinks_closeConn {id : Int} {replyc : Nat}
    (h : s.handleCloseConn id replyc = some (s', out)) : Shrinks s s' := by
  cases closesConn_of_handle h with
  | unknown => exact .refl s
  | waits => exact shrinks_forgetConn s id
  | ends =>
    -- the sending half has no part in it
    obtain ⟨hread, hreads, hconn⟩ := shrinks_forgetConn s id
    exact ⟨hread, hreads, hconn⟩

theorem Detects.shrinks {c : Int} (h : Detects P s c s' out) : Shrinks s s' := by
  cases h with
  | kept hsoon => exact .refl s
  | lost haddr => exact ⟨fun _ => .inr ⟨rfl, rfl⟩, fun hn => hn, rfl⟩
  | told haddr hreads =>
    refine ⟨fun id => ?_, fun _ hnil => ?_, rfl⟩
    · by_cases hid : id = c
      · exact .inl (by rw [hid]; exact Function.update_self ..)
      · exact .inr ⟨Function.update_of_ne hid .., Function.update_of_ne hid ..⟩
    · rw [hnil] at hreads
      cases hreads

theorem shrinks_detectLostAll {order : List Int} (h : s.detectLostAll P order = some (s', out)) :
    Shrinks s s' :=
  detectLostAll_rule (R := fun s s' _ => Shrinks s s') .refl (fun h₁ h₂ => h₁.trans h₂)
    Detects.shrinks h

theorem shrinks_epoch {o : Orders} (h : s.handleEpoch P o = some (s', out)) : Shrinks s s' := by
  cases epochs_of_handleEpoch h with
  | stays hloop _ =>
    have hs := shrinks_detectLostAll hloop
    exact ⟨hs.read, hs.reads, hs.connId⟩
  | ends hloop _ _ =>
    have hs := shrinks_detectLostAll hloop
    exact ⟨hs.read, hs.reads, hs.connId⟩

end Shrinks

/-! ## Reads and data -/

/-- What a read does, with what it has found out. -/
inductive Reads (s : Server A) (replyc : Nat) : Server A → Prop
  | closed (h : s.deferedClose ≠ []) : Reads s replyc s
  | deliver {id : Int} {rb rb' : Buffer} {m : Message} (hrb : s.readBuffer id = some rb)
      (hready : s.ready id rb = true) (hm : rb.remove = some (m, rb')) :
      Reads s replyc { s with
        readBuffer := mapSet s.readBuffer id rb'
        expectedSeqNum := mapSet s.expectedSeqNum id (s.expected id + 1) }
  | forget {id : Int} (hquiet : NothingReady s) :
      Reads s replyc { s with
        readBuffer := mapDelete s.readBuffer id
        expectedSeqNum := mapDelete s.expectedSeqNum id }
  | defer (hquiet : NothingReady s) :
      Reads s replyc { s with deferedRead := s.deferedRead ++ [replyc] }

theorem reads_of_handleRead {s s' : Server A} {replyc : Nat} {o : Orders} {out : List (ServerOut A)}
    (h : s.handleRead replyc o = some (s', out)) (hk : ReadsKnown s)
    (hperm : o.first.Perm s.ids) : Reads s replyc s' := by
  unfold Server.handleRead at h
  split at h
  · rename_i hclosed
    cases h
    exact .closed (List.length_pos_iff.mp hclosed)
  · split at h
    · rename_i id hfind
      have hready := List.find?_some hfind
      simp only [Option.bind_eq_bind, Option.bind_eq_some_iff, Option.pure_def, Option.some.injEq,
        Prod.mk.injEq] at h
      obtain ⟨rb, hrb, ⟨m, rb'⟩, hm, rfl, -⟩ := h
      rw [hrb, Option.any_some] at hready
      exact .deliver hrb hready hm
    · rename_i hfind
      -- the loop has seen every read buffer
      have hquiet : NothingReady s := by
        intro id rb hrb
        have hid : id ∈ o.first := hperm.mem_iff.mpr (hk.used id (by simp [hrb]))
        have hnot := List.find?_eq_none.mp hfind id hid
        rw [hrb, Option.any_some] at hnot
        exact Bool.eq_false_iff.mpr hnot
      split at h
      · cases h
        exact .forget hquiet
      · cases h
        exact .defer hquiet

section Woken

variable {s s' : Server A} {out : List (ServerOut A)} {P : Params}

theorem shrinks_forget (s : Server A) (id : Int) : Shrinks s { s with
    readBuffer := mapDelete s.readBuffer id
    expectedSeqNum := mapDelete s.expectedSeqNum id } := by
  refine ⟨fun id' => ?_, fun hn => hn, rfl⟩
  by_cases hid : id' = id
  · exact .inl (by rw [hid]; exact Function.update_self ..)
  · exact .inr ⟨Function.update_of_ne hid .., Function.update_of_ne hid ..⟩

/-- The read buffers of other connections do not come into being. -/
theorem ReadsKnown.set (h : ReadsKnown s) {id : Int} {rb : Buffer} (hid : s.readBuffer id ≠ none)
    (hread : s'.readBuffer = mapSet s.readBuffer id rb) (hconn : s'.connId = s.connId) :
    ReadsKnown s' where
  connId := hconn ▸ h.connId
  used id' hid' := by
    rw [ids_eq hconn]
    by_cases he : id' = id
    · exact he ▸ h.used id hid
    · rw [hread, mapSet, Function.update_of_ne he] at hid'
      exact h.used id' hid'

theorem Woken.read (h : Woken s) {replyc : Nat} (hr : Reads s replyc s') : Woken s' := by
  cases hr with
  | closed => exact h
  | deliver hrb hready hm =>
    refine ⟨h.known.set (by rw [hrb]; nofun) rfl rfl, fun hn => ?_⟩
    -- a message was ready, so nobody is blocked
    rw [h.quiet hn _ _ hrb] at hready
    cases hready
  | forget hquiet => exact h.shrink (shrinks_forget s _)
  | defer hquiet => exact ⟨⟨h.known.connId, h.known.used⟩, fun _ => hquiet⟩

/-- A message with another number does not make the buffer ready. -/
theorem not_ready_insert {rb : Buffer} {msg : Message} {id : Int} (h : s.ready id rb = false)
    (hmsg : msg.seqNum ≠ s.expected id) : s.ready id (rb.insert msg) = false := by
  unfold Server.ready
  cases hf : (rb.insert msg).front with
  | none => rfl
  | some front =>
    refine decide_eq_false fun he => ?_
    have hmem : front ∈ (rb.insert msg).l := List.mem_of_mem_head? hf
    rcases Buffer.mem_insert.mp hmem with hold | ⟨rfl, -⟩
    · -- then it was the front before
      cases hf' : rb.front with
      | none =>
        rw [Buffer.front_eq_none.mp hf'] at hold
        cases hold
      | some front' =>
        have hold' : front' ∈ rb.l := List.mem_of_mem_head? hf'
        have hle := Buffer.front_le hf' front hold
        have hge := Buffer.front_le hf front' (Buffer.mem_insert.mpr (.inl hold'))
        unfold Server.ready at h
        rw [hf'] at h
        have := of_decide_eq_false h
        omega
    · exact hmsg he

theorem ready_eq_true {rb : Buffer} {id : Int} (h : s.ready id rb = true) :
    ∃ front, rb.front = some front ∧ front.seqNum = s.expected id := by
  unfold Server.ready at h
  split at h
  · rename_i front hf
    exact ⟨front, hf, of_decide_eq_true h⟩
  · cases h

/-- The message that wakes a read is not followed by a buffered one, if more than
one read is blocked. -/
def Server.spaced (s : Server A) (req : ServerReq A) : Bool :=
  match req.op with
  | .receivemsg addr msg =>
    !(msg.type = .data ∧ msg.seqNum = s.expected (s.connIdOf addr) ∧ 1 < s.deferedRead.length ∧
      (s.readBuffer (s.connIdOf addr)).any fun rb => rb.l.any fun m =>
        m.seqNum = s.expected (s.connIdOf addr) + 1)
  | _ => true

theorem Server.spaced_data {req : ServerReq A} {addr : A} {msg : Message} {rb : Buffer}
    (h : s.spaced req = true) (hop : req.op = .receivemsg addr msg) (htype : msg.type = .data)
    (hseq : msg.seqNum = s.expected (s.connIdOf addr)) (hreads : 1 < s.deferedRead.length)
    (hrb : s.readBuffer (s.connIdOf addr) = some rb) :
    ∀ m ∈ rb.l, m.seqNum ≠ s.expected (s.connIdOf addr) + 1 := by
  intro m hm he
  have hbuf : (rb.l.any fun m => decide (m.seqNum = s.expected (s.connIdOf addr) + 1)) = true :=
    List.any_eq_true.mpr ⟨m, hm, decide_eq_true he⟩
  simp [Server.spaced, hop, htype, hseq, hreads, hrb, hbuf] at h

/-- The read that is woken, when only the connection `id` can have its next
message. -/
theorem woken_of_wake {id : Int} {rb : Buffer} {readReq : Nat} (hr : Reads s readReq s')
    (hk : ReadsKnown s) (hopen : s.deferedClose = []) (hrb : s.readBuffer id = some rb)
    (hothers : ∀ id', id' ≠ id → ∀ rb', s.readBuffer id' = some rb' → s.ready id' rb' = false)
    (hnext : s.deferedRead ≠ [] → ∀ m ∈ rb.l, m.seqNum ≠ s.expected id + 1) : Woken s' := by
  cases hr with
  | closed hclosed => exact absurd hopen hclosed
  | deliver hrb' hready hm =>
    rename_i id₁ rb₁ rb₂ m
    have hid : id₁ = id := by
      by_contra hne
      rw [hothers id₁ hne rb₁ hrb'] at hready
      cases hready
    subst hid
    rw [hrb] at hrb'
    cases hrb'
    refine ⟨hk.set (by rw [hrb]; nofun) rfl rfl, fun hn id' rb' hid' => ?_⟩
    by_cases he : id' = id₁
    · subst he
      simp only [mapSet, Function.update_self, Option.some.injEq] at hid'
      subst hid'
      refine Bool.eq_false_iff.mpr fun hagain => ?_
      obtain ⟨front, hf, hseq⟩ := ready_eq_true hagain
      have hmem : front ∈ rb.l := by
        rw [Buffer.remove_eq_some.mp hm]
        exact List.mem_cons_of_mem _ (List.mem_of_mem_head? hf)
      refine hnext hn front hmem ?_
      simpa [Server.expected, mapSet] using hseq
    · simp only [mapSet, Function.update_of_ne he] at hid'
      rw [← hothers id' he rb' hid']
      exact ready_congr (Function.update_of_ne he ..)
  | forget hquiet => exact ⟨hk.shrink (shrinks_forget s _), fun _ => hquiet.shrink (shrinks_forget s _)⟩
  | defer hquiet => exact ⟨⟨hk.connId, hk.used⟩, fun _ => hquiet⟩

theorem Woken.data (h : Woken s) {req : ServerReq A} {addr : A} {msg : Message}
    (hspaced : s.spaced req = true) (hop : req.op = .receivemsg addr msg) (htype : msg.type = .data)
    (hperm : req.orders.first.Perm s.ids)
    (hd : s.handleData P addr msg req.orders = some (s', out)) : Woken s' := by
  unfold Server.handleData at hd
  simp only at hd
  split at hd
  · rename_i hc
    split at hd
    · simp only [Option.bind_eq_bind, Option.bind_eq_some_iff] at hd
      obtain ⟨rb, hrb, lab, hlab, r, hr, hd⟩ := hd
      have hr₁ : r.1 = rb.insert msg := by
        unfold acceptData at hr
        simp only [Option.bind_eq_bind, Option.bind_eq_some_iff, Option.pure_def,
          Option.some.injEq] at hr
        obtain ⟨lab', -, rfl⟩ := hr
        rfl
      have hset : ∀ s₁ : Server A, s₁.readBuffer = mapSet s.readBuffer (s.connIdOf addr) r.1 →
          s₁.connId = s.connId → ReadsKnown s₁ :=
        fun s₁ hread hconn => h.known.set (by simp [hrb]) hread hconn
      split at hd
      · rename_i readReq rest hreads
        -- nothing was ready before, since a read is blocked
        have hreads : s.deferedRead = readReq :: rest := hreads
        have hquiet := h.quiet (by simp [hreads])
        split at hd
        · rename_i hwake
          simp only [Option.bind_eq_some_iff, Option.pure_def, Option.some.injEq, Prod.mk.injEq] at hd
          obtain ⟨t, ht, rfl, -⟩ := hd
          refine woken_of_wake (reads_of_handleRead ht (hset _ rfl rfl) hperm) (hset _ rfl rfl)
            (List.length_eq_zero_iff.mp hc.2.2) (Function.update_self ..)
            (fun id' hne rb' hrb' => ?_) (fun hn m hm => ?_)
          · simp only [mapSet, Function.update_of_ne hne] at hrb'
            exact hquiet id' rb' hrb'
          · have hlen : 1 < s.deferedRead.length := by
              rw [hreads, List.length_cons]
              exact Nat.succ_lt_succ (List.length_pos_iff.mpr hn)
            rw [hr₁] at hm
            rcases Buffer.mem_insert.mp hm with hold | ⟨rfl, -⟩
            · exact Server.spaced_data hspaced hop htype hwake hlen hrb m hold
            · intro he
              have hwake : m.seqNum = s.expected (s.connIdOf addr) := hwake
              have he : m.seqNum = s.expected (s.connIdOf addr) + 1 := he
              omega
        · rename_i hwake
          cases hd
          refine ⟨hset _ rfl rfl, fun _ id' rb' hrb' => ?_⟩
          by_cases he : id' = s.connIdOf addr
          · subst he
            simp only [mapSet, Function.update_self, Option.some.injEq] at hrb'
            subst hrb'
            rw [hr₁]
            exact not_ready_insert (hquiet _ rb hrb) hwake
          · simp only [mapSet, Function.update_of_ne he] at hrb'
            exact hquiet id' rb' hrb'
      · rename_i hreads
        cases hd
        exact ⟨hset _ rfl rfl, fun hn => absurd hreads hn⟩
    · cases hd
      exact ⟨⟨h.known.connId, h.known.used⟩, h.quiet⟩
  · cases hd
    exact h

variable [DecidableEq A]

theorem Woken.connect (h : Woken s) (addr : A) : Woken (s.handleConnect addr).1 := by
  unfold Server.handleConnect
  split
  · have hconn := h.known.connId
    refine ⟨⟨?_, fun id hid => ?_⟩, fun hn id rb hrb => ?_⟩
    · simp only
      omega
    · have hbound : 0 < id ∧ id ≤ s.connId + 1 := by
        by_cases he : id = s.connId + 1
        · omega
        · simp only [mapSet, Function.update_of_ne he] at hid
          have := mem_ids.mp (h.known.used id hid)
          omega
      exact mem_ids.mpr hbound
    · by_cases he : id = s.connId + 1
      · subst he
        simp only [mapSet, Function.update_self, Option.some.injEq] at hrb
        subst hrb
        rfl
      · simp only [mapSet, Function.update_of_ne he] at hrb
        rw [← h.quiet hn id rb hrb]
        exact ready_congr (Function.update_of_ne he ..)
  · exact h

theorem Woken.handle (h : Woken s) {req : ServerReq A} (hspaced : s.spaced req = true)
    (hh : s.handle P req = some (s', out)) : Woken s' := by
  unfold Server.handle at hh
  split at hh
  · rename_i htakes
    cases hop : req.op <;> simp only [hop] at hh
    case doread => exact h.read (reads_of_handleRead hh h.known htakes.2.1)
    case dowrite id p => exact h.shrink (shrinks_write hh)
    case docloseconn id => exact h.shrink (shrinks_closeConn hh)
    case doclose => exact h.shrink (shrinks_close hh)
    case epochtimer => exact h.shrink (shrinks_epoch hh)
    case receivemsg addr msg =>
      unfold Server.handleReceivedMsg at hh
      cases htype : msg.type <;> simp only [htype] at hh
      case connect =>
        have hopened := h.connect addr
        rw [Option.some.inj hh] at hopened
        exact hopened
      case ack => exact h.shrink (shrinks_ack hh)
      case data => exact h.data hspaced hop htype htakes.2.1 hh
  · cases hh

end Woken

/-- While a read is blocked, no connection has its next message. -/
theorem no_read_blocked_on_ready [DecidableEq A] (P : Params) {r : ServerRun A}
    (hr : (serverRunsWhere P Server.spaced).Reachable r) (hreads : r.server.deferedRead ≠ []) :
    ∀ id rb, r.server.readBuffer id = some rb → r.server.ready id rb = false := by
  have hind : (serverRunsWhere (A := A) P Server.spaced).Inductive fun r => Woken r.server := by
    refine ⟨?_, fun r req r' h hstep => ?_⟩
    · rintro _ rfl
      exact ⟨⟨le_refl 0, fun id hid => absurd rfl hid⟩, fun hn => absurd rfl hn⟩
    · obtain ⟨hspaced, s, out, hh, rfl⟩ := serverRunsWhere_step hstep
      exact h.handle hspaced hh
  exact (hind.reachable r hr).quiet hreads

/-! With one reader, the messages may come in any order. -/

def oneReader : List (ServerReq Unit) :=
  [⟨.receivemsg () newConnect, 0, ⟨[], [], []⟩⟩, onOne .doread 1,
    onOne (.receivemsg () (newData 1 2 [8])) 0]

def oneBlocked : ServerRun Unit :=
  LTS.execD (LTS.guarded (fun r req => r.server.spaced req) (ServerRun.step impatient)) .init oneReader

theorem one_read_blocked_before_gap :
    oneBlocked.server.deferedRead = [1] ∧
      ∀ id rb, oneBlocked.server.readBuffer id = some rb → oneBlocked.server.ready id rb = false :=
  ⟨rfl, no_read_blocked_on_ready impatient ⟨_, oneReader, rfl, LTS.run_execD (by decide)⟩ (by decide)⟩

/-! ## Two blocked reads and two messages in the wrong order -/

def twoReaders : ServerRun Unit :=
  afterConnect [onOne .doread 1, onOne .doread 2, onOne (.receivemsg () (newData 1 2 [8])) 0,
    onOne (.receivemsg () (newData 1 1 [7])) 0]

theorem second_read_stays_blocked :
    (serverRuns impatient).Reachable twoReaders ∧ twoReaders.server.deferedClose = [] ∧
      twoReaders.server.deferedRead = [2] ∧ twoReaders.returned 1 = [[7]] ∧
      ∃ rb, twoReaders.server.readBuffer 1 = some rb ∧ rb.l = [newData 1 2 [8]] ∧
        twoReaders.server.ready 1 rb = true :=
  ⟨reachable_afterConnect (by decide), rfl, rfl, by decide, _, rfl, by decide, by decide⟩

end Cmu440.Lsp
