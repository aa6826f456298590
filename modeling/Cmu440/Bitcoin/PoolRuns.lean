import Cmu440.Bitcoin.Pool
import Mathlib.Data.List.Perm.Subperm

/-!
# What the pool prints

`Mining` runs the server with peers that answer as they should, and with results
that are taken on trust. In the pool nothing is assumed of what arrives: it is
followed by `Mining` (`pool_follows`), with the answers that `calculateMinHash`
gives. So whatever the range, the number of miners, the order of the messages and
the losses: a result that a client prints is the minimum of the hashes of all
nonces it asked for (`printed_is_minimum`).

That holds of ranges that `partitionJob` cuts wrongly too. Each of them has a unit
up to 2^64-1, no miner ever finishes that one, and the client waits for ever.
-/
namespace Cmu440.Bitcoin

/-! ## Answers and jobs that are honest -/

/-- Every answer is what the miner found, and every job was cut from its request. -/
structure Honest (hash : String → UInt64 → UInt64) (m : Mining) : Prop where
  answers : ∀ c, ∀ a ∈ m.answers c, a.2.Found hash
  parts : ∀ c st, m.server.clients.lookup c = some st → (m.requests c).CutInto (m.parts c)
  results : ∀ x ∈ m.results, (∀ a ∈ x.job.answers, a.2.Found hash) ∧ x.request.CutInto x.job.parts

/-- A step that adds at most answers that were found, a job that is cut from its
request and a result for a job that was there. -/
theorem Honest.of_step {hash : String → UInt64 → UInt64} {m m' : Mining} (h : Honest hash m)
    (hanswers : ∀ c, ∀ a ∈ m'.answers c, a ∈ m.answers c ∨ a.2.Found hash)
    (hparts : ∀ c st, m'.server.clients.lookup c = some st →
      (∃ st', m.server.clients.lookup c = some st' ∧ m'.requests c = m.requests c ∧
        m'.parts c = m.parts c) ∨ (m'.requests c).CutInto (m'.parts c))
    (hresults : ∀ x ∈ m'.results, x ∈ m.results ∨ ∃ c st, m.server.clients.lookup c = some st ∧
      x.request = m.requests c ∧ x.job.parts = m.parts c ∧ x.job.answers = m'.answers c) :
    Honest hash m' := by
  have hfound : ∀ c, ∀ a ∈ m'.answers c, a.2.Found hash := fun c a ha =>
    (hanswers c a ha).elim (h.answers c a) id
  refine ⟨hfound, fun c st hst => ?_, fun x hx => ?_⟩
  · rcases hparts c st hst with ⟨st', hst', hreq, hp⟩ | hcut
    · rw [hreq, hp]
      exact h.parts c st' hst'
    · exact hcut
  · rcases hresults x hx with hx | ⟨c, st, hst, hreq, hp, ha⟩
    · exact h.results x hx
    · rw [hreq, hp, ha]
      exact ⟨hfound c, h.parts c st hst⟩

/-- A finished job whose answers were found: the result is the minimum of the whole range. -/
theorem Honest.minimum {hash : String → UInt64 → UInt64} {m : Mining} (h : Honest hash m)
    (hc : Conserved m) {x : SentResult} (hx : x ∈ m.results) :
    IsMinimum (hash x.request.data) maxUint64 x.request.InRange x.message.hash x.message.nonce := by
  obtain ⟨hfound, hcut⟩ := h.results x hx
  obtain ⟨hsound, hdone, hmessage⟩ := hc.results x hx
  have hmin := hsound.minimum hdone fun a ha => (hfound a ha).truthful
  rw [hmessage]
  rcases hcut with hcut | ⟨u, hu, hupper⟩
  · exact hmin.congr hcut
  · -- the unit was answered, so it does not go up to 2^64-1
    rw [← hsound.ok.answered hdone, Job.mem_answered] at hu
    obtain ⟨a, ha⟩ := hu
    have hlt := (hfound _ ha).upper_lt
    rw [hsound.asked _ ha, hupper] at hlt
    exact absurd hlt (UInt64.lt_irrefl _)

/-! ## The pool follows `Mining` -/

/-- A client was sent, or has printed, the result `(hash, nonce)`. -/
def Conn.Hears (c : Conn) (hash nonce : UInt64) : Prop :=
  (∃ msg ∈ c.down, msg.hash = hash ∧ msg.nonce = nonce) ∨ c.state = .printed hash nonce

/-- The server has answered the request with `(hash, nonce)`. -/
def Mining.Told (m : Mining) (data : String) (maxNonce hash nonce : UInt64) : Prop :=
  ∃ x ∈ m.results, x.request = Conn.request data maxNonce ∧ x.message.hash = hash ∧
    x.message.nonce = nonce

/-- A connection of the pool and the same connection in `Mining`. -/
structure Attached (hash : String → UInt64 → UInt64) (m : Mining) (k : Int) (c : Conn) : Prop where
  lost : m.lost k = c.reported
  linked : c.reported = false → Linked hash (m.role k) (m.asked k) c
  told : ∀ data maxNonce, c.program = .client data maxNonce →
    ∀ h n, c.Hears h n → m.Told data maxNonce h n

structure Follows (hash : String → UInt64 → UInt64) (p : Pool) (m : Mining) : Prop where
  server : m.server = p.server
  reading : m.reading = p.reading
  bound : p.dialed < 2 ^ 63
  ids : ∀ k c, p.conns k = some c → 1 ≤ k ∧ k ≤ p.dialed
  fresh : ∀ k, p.conns k = none → m.role k = none ∧ m.lost k = false
  attached : ∀ k c, p.conns k = some c → Attached hash m k c
  clients : ∀ k st, p.server.clients.lookup k = some st → ∃ c data maxNonce,
    p.conns k = some c ∧ c.program = .client data maxNonce ∧
      m.requests k = Conn.request data maxNonce

section
variable {hash : String → UInt64 → UInt64} {p : Pool} {m m' : Mining} {k : Int} {c c' : Conn}

theorem Mining.Told.mono {data : String} {maxNonce h n : UInt64} (ht : m.Told data maxNonce h n)
    (hresults : ∀ x ∈ m.results, x ∈ m'.results) : m'.Told data maxNonce h n := by
  obtain ⟨x, hx, hrest⟩ := ht
  exact ⟨x, hresults x hx, hrest⟩

theorem Attached.mono (h : Attached hash m k c) (hrole : m'.role k = m.role k)
    (hlost : m'.lost k = m.lost k) (hasked : m'.asked k = m.asked k)
    (hresults : ∀ x ∈ m.results, x ∈ m'.results) : Attached hash m' k c := by
  refine ⟨hlost.trans h.lost, ?_, fun data maxNonce hp a b hab =>
    (h.told data maxNonce hp a b hab).mono hresults⟩
  rw [hrole, hasked]
  exact h.linked

/-- A step that concerns the connection `k` alone. -/
theorem Follows.moved (h : Follows hash p m) (m' : Mining) (hc : p.conns k = some c)
    (hprogram : c'.program = c.program) (hk : Attached hash m' k c')
    (hothers : ∀ j, j ≠ k → m'.role j = m.role j ∧ m'.lost j = m.lost j ∧ m'.asked j = m.asked j)
    (hresults : ∀ x ∈ m.results, x ∈ m'.results)
    (hclients : ∀ j st, m'.server.clients.lookup j = some st →
      (∃ st', p.server.clients.lookup j = some st' ∧ m'.requests j = m.requests j) ∨
      ∃ data maxNonce, j = k ∧ c.program = .client data maxNonce ∧
        m'.requests j = Conn.request data maxNonce) :
    Follows hash { p.setConn k c' with server := m'.server, reading := m'.reading } m' := by
  have hself := p.setConn_self k c'
  have hother : ∀ j, j ≠ k → (p.setConn k c').conns j = p.conns j := fun j hj =>
    p.setConn_of_ne hj c'
  refine ⟨rfl, rfl, h.bound, fun j d hd => ?_, fun j hj => ?_, fun j d hd => ?_,
    fun j st hst => ?_⟩
  · by_cases hjk : j = k
    · rw [hjk]
      exact h.ids k c hc
    · exact h.ids j d ((hother j hjk).symm.trans hd)
  · have hjk : j ≠ k := fun he => by
      rw [he] at hj
      cases hself.symm.trans hj
    obtain ⟨hrole, hlost, -⟩ := hothers j hjk
    rw [hrole, hlost]
    exact h.fresh j ((hother j hjk).symm.trans hj)
  · by_cases hjk : j = k
    · subst hjk
      cases hself.symm.trans hd
      exact hk
    · obtain ⟨hrole, hlost, hasked⟩ := hothers j hjk
      exact (h.attached j d ((hother j hjk).symm.trans hd)).mono hrole hlost hasked hresults
  · rcases hclients j st hst with ⟨st', hst', hreq⟩ | ⟨data, maxNonce, rfl, hp, hreq⟩
    · obtain ⟨d, data, maxNonce, hd, hp, hreq'⟩ := h.clients j st' hst'
      by_cases hjk : j = k
      · subst hjk
        cases hc.symm.trans hd
        exact ⟨c', data, maxNonce, hself, hprogram.trans hp, hreq.trans hreq'⟩
      · exact ⟨d, data, maxNonce, (hother j hjk).trans hd, hp, hreq.trans hreq'⟩
    · exact ⟨c', data, maxNonce, hself, hprogram.trans hp, hreq⟩

/-- A step of the peer `k`, which the server does not notice. -/
theorem Follows.setConn (h : Follows hash p m) (hc : p.conns k = some c)
    (hprogram : c'.program = c.program) (hk : Attached hash m k c') :
    Follows hash (p.setConn k c') m := by
  have hmoved := h.moved m hc hprogram hk (fun _ _ => ⟨rfl, rfl, rfl⟩) (fun _ hx => hx)
    fun j st hst => .inl ⟨st, h.server ▸ hst, rfl⟩
  rw [h.server, h.reading] at hmoved
  exact hmoved

theorem Follows.dial (h : Follows hash p m) (hbound : p.dialed + 1 < 2 ^ 63) (program : Program) :
    Follows hash { p.setConn (p.dialed + 1) (.dialed program) with dialed := p.dialed + 1 } m := by
  have hnew : p.conns (p.dialed + 1) = none := by
    cases hc : p.conns (p.dialed + 1) with
    | none => rfl
    | some c =>
      have := (h.ids _ c hc).2
      omega
  have hself := p.setConn_self (p.dialed + 1) (.dialed program)
  have hother : ∀ j, j ≠ (p.dialed + 1 : Int) →
      (p.setConn (p.dialed + 1) (.dialed program)).conns j = p.conns j := fun j hj =>
    p.setConn_of_ne hj (.dialed program)
  refine ⟨h.server, h.reading, hbound, fun j d hd => ?_, fun j hj => ?_, fun j d hd => ?_,
    fun j st hst => ?_⟩
  · by_cases hj : j = p.dialed + 1
    · push_cast
      omega
    · have := h.ids j d ((hother j hj).symm.trans hd)
      push_cast
      omega
  · by_cases hjk : j = p.dialed + 1
    · rw [hjk] at hj
      cases hself.symm.trans hj
    · exact h.fresh j ((hother j hjk).symm.trans hj)
  · by_cases hj : j = p.dialed + 1
    · subst hj
      cases hself.symm.trans hd
      obtain ⟨hrole, hlost⟩ := h.fresh _ hnew
      refine ⟨hlost, fun _ => ?_, fun data maxNonce _ a b hab => ?_⟩
      · rw [hrole]
        exact .dialed program
      · rcases hab with ⟨msg, hmsg, -⟩ | hs
        · cases hmsg
        · cases hs
    · exact h.attached j d ((hother j hj).symm.trans hd)
  · obtain ⟨d, data, maxNonce, hd, hp, hreq⟩ := h.clients j st hst
    have hj : j ≠ p.dialed + 1 := fun he => by
      rw [he, hnew] at hd
      cases hd
    exact ⟨d, data, maxNonce, (hother j hj).trans hd, hp, hreq⟩

theorem Follows.peer (h : Follows hash p m) (hc : p.conns k = some c)
    (hstep : c.peerStep hash = some c') : Follows hash (p.setConn k c') m := by
  obtain ⟨hprogram, hlost, hreported⟩ := Conn.peerStep_kept hstep
  have hk := h.attached k c hc
  refine h.setConn hc hprogram ⟨hk.lost.trans hreported.symm, fun hr => ?_,
    fun data maxNonce hp a b hab => ?_⟩
  · exact (hk.linked (hreported ▸ hr)).peerStep hstep
  · -- what it prints it has read
    refine hk.told data maxNonce (hprogram ▸ hp) a b ?_
    obtain ⟨data, maxNonce, -, hs, rfl⟩ | ⟨data, maxNonce, msg, down, -, hs, hd, rfl⟩ |
      ⟨-, hs, rfl⟩ | ⟨reqMsg, down, hp', -⟩ | ⟨reqMsg, i, minHash, nonce, hp', -⟩ :=
      Conn.peerStep_cases hstep
    · rcases hab with hab | hab
      · exact .inl hab
      · cases hab
    · rcases hab with ⟨x, hx, hxa⟩ | hab
      · exact .inl ⟨x, hd ▸ List.mem_cons_of_mem msg hx, hxa⟩
      · cases hab
        exact .inl ⟨msg, hd ▸ List.mem_cons_self, rfl, rfl⟩
    · rcases hab with hab | hab
      · exact .inl hab
      · cases hab
    · cases hp'.symm.trans (hprogram.symm.trans hp)
    · cases hp'.symm.trans (hprogram.symm.trans hp)

theorem Follows.exit (h : Follows hash p m) (hc : p.conns k = some c) :
    Follows hash (p.setConn k { c with state := .gone }) m := by
  have hk := h.attached k c hc
  refine h.setConn hc rfl ⟨hk.lost, fun hr => (hk.linked hr).exit, fun data maxNonce hp a b hab =>
    hk.told data maxNonce hp a b ?_⟩
  rcases hab with hab | hab
  · exact .inl hab
  · cases hab

theorem Follows.lose (h : Follows hash p m) (hc : p.conns k = some c) :
    Follows hash (p.setConn k { c with lost := true }) m := by
  have hk := h.attached k c hc
  exact h.setConn hc rfl ⟨hk.lost, fun hr => (hk.linked hr).congr rfl rfl rfl rfl, hk.told⟩

end

/-! ## Writing -/

namespace Scheduler

/-- A miner is sent a unit from the queue, if the write succeeds. -/
theorem assignOne_out (s : Scheduler) (connId : Int) (write : Bool) (q : List WorkUnit) :
    (s.assignOne connId write q).1.jobQ <:+ q ∧
    ∀ o ∈ (s.assignOne connId write q).2, o.1 = connId ∧ write = true ∧
      ∃ u ∈ q, o.2 = u.workMsg := by
  induction q with
  | nil => exact ⟨List.suffix_refl [], fun o ho => by cases ho⟩
  | cons u rest ih =>
    unfold assignOne
    split
    · split
      · rename_i hw
        refine ⟨List.suffix_cons u rest, fun o ho => ?_⟩
        rw [List.mem_singleton.mp ho]
        exact ⟨rfl, hw, u, List.mem_cons_self, rfl⟩
      · exact ⟨List.suffix_refl _, fun o ho => by cases ho⟩
    · refine ⟨ih.1.trans (List.suffix_cons u rest), fun o ho => ?_⟩
      obtain ⟨hk, hw, v, hv, hmsg⟩ := ih.2 o ho
      exact ⟨hk, hw, v, List.mem_cons_of_mem u hv, hmsg⟩

theorem assignLoop_out (writes : Int → Bool) (order : List Int) (s : Scheduler) :
    ∀ o ∈ (assignLoop writes order s).2, o.1 ∈ order ∧ writes o.1 = true ∧
      ∃ u ∈ s.jobQ, o.2 = u.workMsg := by
  induction order generalizing s with
  | nil =>
    intro o ho
    cases ho
  | cons connId order ih =>
    obtain ⟨hsuffix, hone⟩ := s.assignOne_out connId (writes connId) s.jobQ
    have hfirst : ∀ o ∈ (s.assignOne connId (writes connId) s.jobQ).2,
        o.1 ∈ connId :: order ∧ writes o.1 = true ∧ ∃ u ∈ s.jobQ, o.2 = u.workMsg := by
      intro o ho
      obtain ⟨hk, hw, hu⟩ := hone o ho
      rw [hk]
      exact ⟨List.mem_cons_self, hw, hu⟩
    intro o ho
    simp only [assignLoop] at ho
    split at ho
    · exact hfirst o ho
    · rcases List.mem_append.mp ho with ho | ho
      · exact hfirst o ho
      · obtain ⟨hk, hw, u, hu, hmsg⟩ := ih _ o ho
        exact ⟨List.mem_cons_of_mem connId hk, hw, u, hsuffix.subset hu, hmsg⟩

/-- The units sent go to miners without one whose connection is not lost. -/
theorem assignJobs_out {s : Scheduler} {order : List Int}
    (horder : order.Perm s.unOccupiedMiner.keys) (writes : Int → Bool) :
    ∀ o ∈ (s.assignJobsToUnoccupiedMiner order writes).2, o.1 ∈ s.unOccupiedMiner ∧
      writes o.1 = true ∧ ∃ u ∈ s.jobQ, o.2 = u.workMsg := by
  intro o ho
  unfold assignJobsToUnoccupiedMiner at ho
  split at ho
  · obtain ⟨hk, hrest⟩ := assignLoop_out writes order s o ho
    exact ⟨AList.mem_keys.mpr (horder.mem_iff.mp hk), hrest⟩
  · cases ho

end Scheduler

namespace Pool

theorem mail_eq_nil {out : List (Int × Message)} {k : Int} (h : ∀ o ∈ out, o.1 ≠ k) :
    mail out k = [] := by
  rw [mail, List.filter_eq_nil_iff.mpr fun o ho => by simp [h o ho], List.map_nil]

theorem write_conns {p : Pool} {out : List (Int × Message)} {k : Int} {c' : Conn}
    (h : (p.write out).conns k = some c') :
    ∃ c, p.conns k = some c ∧ c' = c.write (mail out k) := by
  obtain ⟨c, hc, rfl⟩ := Option.map_eq_some_iff.mp h
  exact ⟨c, hc, rfl⟩

theorem write_conns_none {p : Pool} {out : List (Int × Message)} {k : Int}
    (h : (p.write out).conns k = none) : p.conns k = none :=
  Option.map_eq_none_iff.mp h

/-- Nothing was written to it. -/
theorem write_conns_self {p : Pool} {out : List (Int × Message)} {k : Int}
    (h : ∀ o ∈ out, o.1 ≠ k) : (p.write out).conns k = p.conns k := by
  unfold write
  simp only [mail_eq_nil h, Conn.write_nil, Option.map_id']

theorem write_nil (p : Pool) : p.write [] = p := by
  have hconns : (p.write []).conns = p.conns := by
    funext k
    exact write_conns_self fun o ho => by cases ho
  show { p with conns := (p.write []).conns } = p
  rw [hconns]

theorem writable_iff {p : Pool} {k : Int} :
    p.writable k = true ↔ ∃ c, p.conns k = some c ∧ c.lost = false := by
  unfold writable
  split
  · rename_i c hc
    simp [hc]
  · rename_i hc
    simp [hc]

end Pool

section
variable {hash : String → UInt64 → UInt64} {p : Pool} {m : Mining} {k : Int} {c : Conn}

/-- The connections after a write, one by one. -/
theorem Follows.write (h : Follows hash p m) (m' : Mining) (out : List (Int × Message))
    {server : Scheduler} {reading : Bool} (hserver : m'.server = server)
    (hreading : m'.reading = reading) (hrole : m'.role = m.role) (hlost : m'.lost = m.lost)
    (hrequests : m'.requests = m.requests) (hclients : server.clients = p.server.clients)
    (hattached : ∀ j d, (p.write out).conns j = some d → Attached hash m' j d) :
    Follows hash { p.write out with server := server, reading := reading } m' := by
  refine ⟨hserver, hreading, h.bound, fun j d hd => ?_, fun j hj => ?_, hattached,
    fun j st hst => ?_⟩
  · obtain ⟨c, hc, -⟩ := Pool.write_conns hd
    exact h.ids j c hc
  · rw [hrole, hlost]
    exact h.fresh j (Pool.write_conns_none hj)
  · rw [hclients] at hst
    obtain ⟨c, data, maxNonce, hc, hp, hreq⟩ := h.clients j st hst
    exact ⟨c.write (Pool.mail out j), data, maxNonce, congrArg (Option.map _) hc,
      (c.write_program _).trans hp, hrequests ▸ hreq⟩

/-- A miner without a unit is there, and has joined. -/
theorem Follows.miner (h : Follows hash p m) (hreg : Registered m)
    (hk : k ∈ p.server.minerCurrWork) (hc : p.conns k = some c) :
    c.reported = false ∧ m.role k = some .miner ∧ c.program = .miner := by
  rw [← h.server] at hk
  obtain ⟨hrole, hlost⟩ := (hreg.miners k).mp hk
  have hattached := h.attached k c hc
  have hreported : c.reported = false := hattached.lost.symm.trans hlost
  refine ⟨hreported, hrole, ?_⟩
  cases hattached.linked hreported with
  | client _ _ _ hr => exact absurd hrole hr
  | unjoined hp => exact hp
  | joining hp => exact hp
  | joined _ _ hp => exact hp

theorem Follows.assign (h : Follows hash p m) (hreg : Registered m) {order : List Int}
    (horder : order.Perm p.server.unOccupiedMiner.keys) :
    Follows hash { p.write (p.server.assignJobsToUnoccupiedMiner order p.writable).2 with
        server := (p.server.assignJobsToUnoccupiedMiner order p.writable).1, reading := true }
      { m with server := (m.server.assignJobsToUnoccupiedMiner order p.writable).1
               reading := true
               asked := ask m.asked
                 (m.server.assignJobsToUnoccupiedMiner order p.writable).2 } := by
  have hroster : Roster p.server m.asked := h.server ▸ hreg.roster
  rw [h.server]
  have hout := Scheduler.assignJobs_out horder p.writable
  have hclients := (assigned_assignJobs hroster horder p.writable).1.clients
  generalize (p.server.assignJobsToUnoccupiedMiner order p.writable).2 = out at hout ⊢
  refine h.write { m with server := _, reading := true, asked := ask m.asked out } out
    rfl rfl rfl rfl rfl hclients fun j d hd => ?_
  by_cases hj : ∃ o ∈ out, o.1 = j
  · -- a unit was written to `j`, which is a miner
    obtain ⟨o, ho, rfl⟩ := hj
    obtain ⟨hfree, hw, -⟩ := hout o ho
    obtain ⟨c, hc, hopen⟩ := Pool.writable_iff.mp hw
    obtain ⟨c', hc', rfl⟩ := Pool.write_conns hd
    cases hc.symm.trans hc'
    have hmem : o.1 ∈ p.server.minerCurrWork := mem_of_work ((hroster o.1).free.mp hfree)
    obtain ⟨hreported, hrole, hp⟩ := h.miner hreg hmem hc
    have hattached := h.attached o.1 c hc
    rw [Conn.write_of_open hopen]
    refine ⟨hattached.lost, fun _ => (hattached.linked hreported).write hrole _, ?_⟩
    intro data maxNonce hp'
    cases hp.symm.trans hp'
  · have hnone : ∀ o ∈ out, o.1 ≠ j := fun o ho he => hj ⟨o, ho, he⟩
    have hasked : ask m.asked out j = m.asked j :=
      (congrArg (m.asked j ++ ·) (Pool.mail_eq_nil hnone)).trans (List.append_nil _)
    rw [Pool.write_conns_self hnone] at hd
    exact (h.attached j d hd).mono rfl rfl hasked fun _ hx => hx

/-- The result is written to the client that it is for. -/
theorem Follows.writeResult (h : Follows hash p m) {msg : Message} {data : String}
    {maxNonce : UInt64} (hc : p.conns k = some c) (hp : c.program = .client data maxNonce)
    (htold : m.Told data maxNonce msg.hash msg.nonce) : Follows hash (p.write [(k, msg)]) m := by
  have hwrite := h.write m [(k, msg)] h.server h.reading rfl rfl rfl rfl fun j d hd => ?_
  · exact hwrite
  by_cases hj : j = k
  · subst hj
    obtain ⟨c', hc', rfl⟩ := Pool.write_conns hd
    cases hc.symm.trans hc'
    have hattached := h.attached j c hc
    unfold Conn.write
    split
    · exact hattached
    · refine ⟨hattached.lost, fun hr => ?_, fun data' maxNonce' hp' a b hab => ?_⟩
      · cases hattached.linked hr with
        | client _ _ _ hr' => exact (hattached.linked hr).write_client hr' hp _
        | unjoined hp' => cases hp.symm.trans hp'
        | joining hp' => cases hp.symm.trans hp'
        | joined _ _ hp' => cases hp.symm.trans hp'
      · cases hp.symm.trans hp'
        rcases hab with ⟨x, hx, hxa, hxb⟩ | hab
        · rcases List.mem_append.mp hx with hx | hx
          · exact hattached.told data maxNonce hp a b (.inl ⟨x, hx, hxa, hxb⟩)
          · simp only [Pool.mail, decide_true, List.filter_cons_of_pos, List.filter_nil,
              List.map_cons, List.map_nil, List.mem_singleton] at hx
            rw [← hxa, ← hxb, hx]
            exact htold
        · exact hattached.told data maxNonce hp a b (.inr hab)
  · rw [Pool.write_conns_self (by simpa using Ne.symm hj)] at hd
    exact h.attached j d hd

end

/-! ## Reading -/

/-- What is left of a client's status, or sent to it, after a `Result` for one of its units. -/
theorem Scheduler.updateResult_out {s : Scheduler} {connId : Int} {u : WorkUnit} {msg : Message}
    {r : Scheduler × List (Int × Message)} (hu : s.currWork connId = some u)
    (h : s.updateResult connId msg = some r) :
    (∀ c st, r.1.clients.lookup c = some st → ∃ st', s.clients.lookup c = some st') ∧
    (r.2 = [] ∨ ∃ st result, s.clients.lookup u.clientWorkFor = some st ∧
      r.2 = [(u.clientWorkFor, result)]) := by
  simp only [updateResult, hu] at h
  split at h
  · cases h
    exact ⟨fun c st hst => ⟨st, hst⟩, .inl rfl⟩
  · rename_i st hst
    have hst : s.clients.lookup u.clientWorkFor = some st := hst
    split at h
    · cases h
      refine ⟨fun c st' hst' => ?_, .inr ⟨st, _, hst, rfl⟩⟩
      by_cases hc : c = u.clientWorkFor
      · exact ⟨st, hc ▸ hst⟩
      · exact ⟨st', (AList.lookup_erase_ne hc).symm.trans hst'⟩
    · cases h
      refine ⟨fun c st' hst' => ?_, .inl rfl⟩
      by_cases hc : c = u.clientWorkFor
      · exact ⟨st, hc ▸ hst⟩
      · exact ⟨st', (AList.lookup_insert_ne hc).symm.trans hst'⟩

section
variable {hash : String → UInt64 → UInt64} {p : Pool} {m : Mining} {k : Int} {c : Conn}

theorem Follows.numOfMiner_le (h : Follows hash p m) (hreg : Registered m) :
    p.server.numOfMiner ≤ max 1 p.dialed := by
  have hkeys : p.server.minerCurrWork.keys.length ≤ p.dialed := by
    have hsub : p.server.minerCurrWork.keys ⊆
        (List.range p.dialed).map fun i : Nat => (i : Int) + 1 := by
      intro k hk
      have hmem : k ∈ m.server.minerCurrWork := by
        rw [h.server]
        exact AList.mem_keys.mpr hk
      have hrole := ((hreg.miners k).mp hmem).1
      cases hc : p.conns k with
      | none => cases (h.fresh k hc).1.symm.trans hrole
      | some c =>
        have hk := h.ids k c hc
        refine List.mem_map.mpr ⟨(k - 1).toNat, List.mem_range.mpr ?_, ?_⟩ <;> omega
    have hlen := (p.server.minerCurrWork.keys_nodup.subperm hsub).length_le
    rw [List.length_map, List.length_range] at hlen
    exact hlen
  unfold Scheduler.numOfMiner
  split <;> omega

theorem Follows.fail (h : Follows hash p m) (hc : p.conns k = some c) :
    Follows hash { p.setConn k { c with reported := true } with
        server := m.server.handleFailure k, reading := false }
      { m with server := m.server.handleFailure k, reading := false,
               lost := Function.update m.lost k true, asked := Function.update m.asked k [] } := by
  have hk := h.attached k c hc
  refine h.moved { m with
      server := m.server.handleFailure k, reading := false,
      lost := Function.update m.lost k true, asked := Function.update m.asked k [] }
    hc rfl ⟨Function.update_self .., fun hr => Bool.noConfusion hr, hk.told⟩ ?_ (fun _ hx => hx) ?_
  · intro j hj
    exact ⟨rfl, Function.update_of_ne hj .., Function.update_of_ne hj ..⟩
  · intro j st hst
    exact .inl ⟨st, h.server ▸ Scheduler.lookup_of_handleFailure hst, rfl⟩

theorem Follows.readJoin (h : Follows hash p m) (hreg : Registered m) (hc : p.conns k = some c)
    (hp : c.program = .miner) (hrole : m.role k = none)
    (hdown : c.down = []) (hstate : c.state = .waiting ∨ c.state = .gone) :
    Follows hash { p.setConn k { c with up := [] } with
      server := m.server.free k, reading := false }
      (m.received k newJoin (m.server.free k, [])) := by
  have hk := h.attached k c hc
  have hasked : m.asked k = [] := by
    have hnone : m.server.minerCurrWork.lookup k = none := by
      rw [AList.lookup_eq_none, hreg.miners k, hrole]
      simp
    rw [(hreg.roster k).asked, hnone]
    rfl
  have heq : m.received k newJoin (m.server.free k, []) =
      { m with server := m.server.free k, reading := false,
               role := Function.update m.role k (some .miner) } := Mining.send_nil _
  rw [heq]
  refine h.moved { m with
      server := m.server.free k, reading := false, role := Function.update m.role k (some .miner) }
    hc rfl ⟨hk.lost, fun _ => ?_, hk.told⟩ ?_ (fun _ hx => hx) ?_
  · refine .joined [] [] hp (Function.update_self ..) rfl (fun a ha => by cases ha) hasked ?_
    unfold Conn.Working
    rcases hstate with hs | hs
    · simp only [hs, hdown]
    · simp only [hs]
  · intro j hj
    exact ⟨Function.update_of_ne hj .., rfl, rfl⟩
  · intro j st hst
    exact .inl ⟨st, h.server ▸ hst, rfl⟩

/-- The state after a request; `server` is what became of the server. -/
theorem Follows.readRequest (h : Follows hash p m) (m' : Mining) (hc : p.conns k = some c)
    {data : String} {maxNonce : UInt64} (hp : c.program = .client data maxNonce)
    (hrole : m'.role = Function.update m.role k (some .client)) (hlost : m'.lost = m.lost)
    (hasked : m'.asked = m.asked) (hresults : m'.results = m.results)
    (hclients : ∀ j st, m'.server.clients.lookup j = some st →
      (∃ st', p.server.clients.lookup j = some st' ∧ m'.requests j = m.requests j) ∨
      j = k ∧ m'.requests j = Conn.request data maxNonce) :
    Follows hash { p.setConn k { c with up := [] } with
      server := m'.server, reading := m'.reading } m' := by
  have hk := h.attached k c hc
  refine h.moved m' hc rfl ⟨(congrFun hlost k).trans hk.lost, fun _ => ?_, ?_⟩ ?_ ?_ ?_
  · refine .client data maxNonce hp ?_ (.inl rfl)
    rw [hrole, Function.update_self]
    simp
  · intro data' maxNonce' hp' a b hab
    exact (hk.told data' maxNonce' hp' a b hab).mono fun x hx => hresults ▸ hx
  · intro j hj
    rw [hrole, hlost, hasked]
    exact ⟨Function.update_of_ne hj .., rfl, rfl⟩
  · intro x hx
    rw [hresults]
    exact hx
  · intro j st hst
    rcases hclients j st hst with hold | ⟨hj, hreq⟩
    · exact .inl hold
    · exact .inr ⟨data, maxNonce, hj, hp, hreq⟩

/-- The state after a `Result`, before the client's own result is written. -/
theorem Follows.readResult (h : Follows hash p m) (m' : Mining) (hc : p.conns k = some c)
    {answered : List Answer} {rest : List Message} (hp : c.program = .miner)
    (hrole : m.role k = some .miner) (hfound : ∀ b ∈ answered, b.Found hash)
    (hworking : c.Working hash rest) (hrole' : m'.role = m.role)
    (hlost' : m'.lost = m.lost)
    (hasked' : m'.asked = Function.update m.asked k (answered.map Answer.request ++ rest))
    (hrequests' : m'.requests = m.requests) (hresults' : ∀ x ∈ m.results, x ∈ m'.results)
    (hclients' : ∀ j st, m'.server.clients.lookup j = some st →
      ∃ st', p.server.clients.lookup j = some st') :
    Follows hash { p.setConn k { c with up := answered.map Answer.result } with
      server := m'.server, reading := m'.reading } m' := by
  have hk := h.attached k c hc
  refine h.moved m' hc rfl ⟨(congrFun hlost' k).trans hk.lost, fun _ => ?_, ?_⟩ ?_ hresults' ?_
  · rw [hrole', hasked', Function.update_self]
    exact .joined answered rest hp hrole rfl hfound rfl hworking
  · intro data maxNonce hp'
    cases hp.symm.trans hp'
  · intro j hj
    rw [hrole', hlost', hasked']
    exact ⟨rfl, rfl, Function.update_of_ne hj ..⟩
  · intro j st hst
    obtain ⟨st', hst'⟩ := hclients' j st hst
    exact .inl ⟨st', hst', congrFun hrequests' j⟩

end

/-- A request that opens a job. -/
theorem Mining.received_request {m : Mining} {k : Int} {msg : Message} (hty : msg.type = .request)
    (hnew : m.server.clients.lookup k = none) :
    m.received k msg (m.server.partitionJob k msg, []) =
      { m with server := m.server.partitionJob k msg, reading := false,
               role := Function.update m.role k (some .client),
               requests := Function.update m.requests k msg,
               parts := Function.update m.parts k
                 ((m.server.partitionJob k msg).jobQ.drop m.server.jobQ.length : List WorkUnit),
               answers := Function.update m.answers k [] } := by
  simp only [received, note, hty, hnew, if_true, send_nil]

/-- A request of a client that has a job. -/
theorem Mining.received_ignored {m : Mining} {k : Int} {msg : Message} (hty : msg.type = .request)
    (hold : m.server.clients.lookup k ≠ none) : m.received k msg (m.server, []) =
      { m with reading := false, role := Function.update m.role k (some .client) } := by
  simp only [received, note, hty, if_neg hold, send_nil]

/-- A `Result` for the unit `u`. -/
theorem Mining.received_result {m : Mining} {k : Int} {msg request : Message} {u : WorkUnit}
    {rest : List Message} (hty : msg.type = .result) (hu : m.server.currWork k = some u)
    (hasked : m.asked k = request :: rest) (r : Scheduler × List (Int × Message)) :
    ∃ job : Int → Job WorkUnit Answer,
      m.received k msg r = { m with
        server := r.1, reading := false, asked := Function.update m.asked k rest,
        answers := Function.update m.answers u.clientWorkFor
          (m.answers u.clientWorkFor ++ [(u, ⟨request, msg⟩)]),
        results := m.results ++ r.2.map fun o => ⟨o.1, m.requests o.1, job o.1, o.2⟩ } ∧
      ∀ c, (job c).parts = m.parts c ∧ (job c).answers = (m.received k msg r).answers c := by
  refine ⟨(m.received k msg r).job, ?_, fun c => ⟨?_, rfl⟩⟩
  · simp only [received, note, hty, hu, hasked]
    rfl
  · simp only [received, note, hty, hu, hasked]
    rfl

section
variable {hash : String → UInt64 → UInt64} {p : Pool} {m : Mining} {k : Int} {c : Conn}

/-- A message that is read is one that `Mining` admits. -/
theorem Follows.admits (h : Follows hash p m) (hc : p.conns k = some c)
    (hreported : c.reported = false) {msg : Message} {up : List Message}
    (hup : c.up = msg :: up) : m.admits (.message k msg) = true := by
  have hk := h.attached k c hc
  simp only [Mining.admits, hk.lost.trans hreported, Bool.not_false, Bool.true_and]
  cases hk.linked hreported with
  | client data maxNonce hp hrole hup' =>
    rcases hup' with hup' | ⟨hup', -⟩
    · cases hup'.symm.trans hup
    · cases hup'.symm.trans hup
      simpa [Conn.request, newRequest] using hrole
  | unjoined _ _ hup' => cases hup'.symm.trans hup
  | joining _ hrole hup' =>
    cases hup'.symm.trans hup
    simpa [newJoin] using hrole
  | joined answered rest _ hrole hup' hfound hasked _ =>
    cases answered with
    | nil => cases hup'.symm.trans hup
    | cons a answered =>
      cases hup'.symm.trans hup
      simp [(hfound a List.mem_cons_self).type, hrole, hasked]

theorem Follows.readClient (h : Follows hash p m) (hreg : Registered m) (hhonest : Honest hash m)
    (hc : p.conns k = some c) {data : String} {maxNonce : UInt64}
    (hp : c.program = .client data maxNonce) {r : Scheduler × List (Int × Message)}
    (hr : m.server.handleIncomeMessage k (some (Conn.request data maxNonce)) = some r) :
    Follows hash { (p.setConn k { c with up := [] }).write r.2 with
      server := r.1, reading := false } (m.received k (Conn.request data maxNonce) r) ∧
    Honest hash (m.received k (Conn.request data maxNonce) r) := by
  have hty : (Conn.request data maxNonce).type = .request := rfl
  simp only [Scheduler.handleIncomeMessage, hty] at hr
  split at hr
  · rename_i hnew
    cases hr
    obtain ⟨units, hpush, -⟩ := m.server.partitionJob_eq k (Conn.request data maxNonce)
    have hlookup : ∀ j, j ≠ k →
        (m.server.partitionJob k (Conn.request data maxNonce)).clients.lookup j =
          m.server.clients.lookup j := by
      intro j hj
      rw [hpush]
      exact AList.lookup_insert_ne hj
    have hint : m.server.numOfMiner < 2 ^ 63 := by
      have hle := h.numOfMiner_le hreg
      have hbound := h.bound
      rw [h.server]
      omega
    have hcut := m.server.partitionJob_cutInto k (Conn.request data maxNonce)
      (UInt64.le_iff_toNat_le.mpr (Nat.zero_le _)) rfl hint
    have heq := Mining.received_request hty hnew
    rw [Pool.write_nil]
    refine ⟨?_, hhonest.of_step ?_ ?_ ?_⟩
    · refine h.readRequest (m.received k (Conn.request data maxNonce) _) hc hp
        (by rw [heq]) (by rw [heq]) (by rw [heq])
        (by rw [heq]) fun j st hst => ?_
      rw [heq] at hst ⊢
      by_cases hj : j = k
      · exact .inr ⟨hj, hj ▸ Function.update_self ..⟩
      · exact .inl ⟨st, h.server ▸ (hlookup j hj).symm.trans hst, Function.update_of_ne hj ..⟩
    · intro j a ha
      rw [heq] at ha
      by_cases hj : j = k
      · simp [hj] at ha
      · simp only [Function.update_of_ne hj] at ha
        exact .inl ha
    · intro j st hst
      rw [heq] at hst ⊢
      by_cases hj : j = k
      · subst hj
        simp only [Function.update_self]
        exact .inr hcut
      · simp only [Function.update_of_ne hj]
        exact .inl ⟨st, (hlookup j hj).symm.trans hst, trivial, trivial⟩
    · intro x hx
      rw [heq] at hx
      exact .inl hx
  · rename_i hold
    cases hr
    have heq := Mining.received_ignored hty hold
    rw [Pool.write_nil, heq]
    refine ⟨h.readRequest { m with
        reading := false, role := Function.update m.role k (some .client) } hc hp rfl rfl rfl rfl
      fun j st hst => .inl ⟨st, h.server ▸ hst, rfl⟩, ?_⟩
    exact hhonest.of_step (fun _ a ha => .inl ha) (fun j st hst => .inl ⟨st, hst, rfl, rfl⟩)
      fun x hx => .inl hx

theorem Follows.readMiner (h : Follows hash p m) (hreg : Registered m) (hhonest : Honest hash m)
    (hc : p.conns k = some c) {a : Answer} {answered : List Answer} {rest : List Message}
    (hp : c.program = .miner) (hrole : m.role k = some .miner)
    (hfound : ∀ b ∈ a :: answered, b.Found hash)
    (hasked : m.asked k = a.request :: (answered.map Answer.request ++ rest))
    (hworking : c.Working hash rest) {r : Scheduler × List (Int × Message)}
    (hr : m.server.handleIncomeMessage k (some a.result) = some r) :
    Follows hash { (p.setConn k { c with up := answered.map Answer.result }).write r.2 with
      server := r.1, reading := false } (m.received k a.result r) ∧
    Honest hash (m.received k a.result r) := by
  have hfirst := hfound a List.mem_cons_self
  obtain ⟨u, hu⟩ := hreg.roster.work_of_asked (k := k) (by simp [hasked])
  simp only [Scheduler.handleIncomeMessage, hfirst.type] at hr
  obtain ⟨hclients, hout⟩ := Scheduler.updateResult_out hu hr
  obtain ⟨job, heq, hjob⟩ := Mining.received_result hfirst.type hu hasked r
  have hbefore : Follows hash { p.setConn k { c with up := answered.map Answer.result } with
      server := r.1, reading := false } (m.received k a.result r) := by
    refine h.readResult (m.received k a.result r) hc hp hrole
      (fun b hb => hfound b (List.mem_cons_of_mem a hb)) hworking (by rw [heq])
      (by rw [heq]) (by rw [heq]) (by rw [heq])
      (fun x hx => ?_) fun j st hst => h.server ▸ hclients j st hst
    rw [heq]
    exact List.mem_append_left _ hx
  refine ⟨?_, hhonest.of_step (fun j b hb => ?_) (fun j st hst => ?_) fun x hx => ?_⟩
  · rcases hout with hnil | ⟨st, result, hst, hout⟩
    · rw [hnil, Pool.write_nil]
      exact hbefore
    · -- the job is done, and its client is told
      obtain ⟨d, data, maxNonce, hd, hpd, hreq⟩ := h.clients _ st (h.server ▸ hst)
      have hne : u.clientWorkFor ≠ k := by
        intro he
        rw [he] at hd
        cases hc.symm.trans hd
        cases hp.symm.trans hpd
      rw [hout]
      refine hbefore.writeResult ((p.setConn_of_ne hne _).trans hd) hpd ?_
      refine ⟨⟨u.clientWorkFor, m.requests u.clientWorkFor, job u.clientWorkFor, result⟩, ?_, hreq,
        rfl, rfl⟩
      rw [heq, hout]
      exact List.mem_append_right _ (List.mem_singleton_self _)
  · rw [heq] at hb
    by_cases hj : j = u.clientWorkFor
    · subst hj
      simp only [Function.update_self] at hb
      rcases List.mem_append.mp hb with hb | hb
      · exact .inl hb
      · rw [List.mem_singleton.mp hb]
        exact .inr hfirst
    · simp only [Function.update_of_ne hj] at hb
      exact .inl hb
  · obtain ⟨st', hst'⟩ := hclients j st hst
    rw [heq]
    exact .inl ⟨st', hst', rfl, rfl⟩
  · rw [heq] at hx
    rcases List.mem_append.mp hx with hx | hx
    · exact .inl hx
    · obtain ⟨o, ho, rfl⟩ := List.mem_map.mp hx
      rcases hout with hnil | ⟨st, result, hst, hout⟩
      · rw [hnil] at ho
        cases ho
      · rw [hout] at ho
        rw [List.mem_singleton.mp ho]
        exact .inr ⟨_, st, hst, rfl, (hjob _).1, (hjob _).2⟩

/-- The server reads the next message of `k`. -/
theorem Follows.read (h : Follows hash p m) (hreg : Registered m) (hhonest : Honest hash m)
    (hc : p.conns k = some c) (hreported : c.reported = false) {msg : Message} {up : List Message}
    (hup : c.up = msg :: up) {r : Scheduler × List (Int × Message)}
    (hr : p.server.handleIncomeMessage k (some msg) = some r) :
    Follows hash { (p.setConn k { c with up := up }).write r.2 with
      server := r.1, reading := false } (m.received k msg r) ∧
    Honest hash (m.received k msg r) := by
  rw [← h.server] at hr
  cases (h.attached k c hc).linked hreported with
  | client data maxNonce hp hrole hup' =>
    obtain ⟨hup', -⟩ := hup'.resolve_left fun hnil => by cases hnil.symm.trans hup
    cases hup'.symm.trans hup
    exact h.readClient hreg hhonest hc hp hr
  | unjoined _ _ hup' => cases hup'.symm.trans hup
  | joining hp hrole hup' hdown hstate =>
    cases hup'.symm.trans hup
    cases hr
    rw [Pool.write_nil]
    refine ⟨h.readJoin hreg hc hp hrole hdown hstate, ?_⟩
    have heq : m.received k newJoin (m.server.free k, []) =
        { m with server := m.server.free k, reading := false,
                 role := Function.update m.role k (some .miner) } := Mining.send_nil _
    rw [heq]
    exact hhonest.of_step (fun _ a ha => .inl ha) (fun j st hst => .inl ⟨st, hst, rfl, rfl⟩)
      fun x hx => .inl hx
  | joined answered rest hp hrole hup' hfound hasked hworking =>
    cases answered with
    | nil => cases hup'.symm.trans hup
    | cons a answered =>
      cases hup'.symm.trans hup
      exact h.readMiner hreg hhonest hc hp hrole hfound hasked hworking hr

end

/-! ## Every run -/

/-- The pool does what `Mining` does; what the peers do on their own is no step there. -/
theorem pool_follows (hash : String → UInt64 → UInt64) :
    LTS.Simulation (pool hash) mining
      (fun p m => Follows hash p m ∧ Registered m ∧ Honest hash m) where
  init p hp := by
    subst hp
    refine ⟨.init, rfl, ⟨rfl, rfl, by decide, fun k c hc => ?_, fun k _ => ⟨rfl, rfl⟩,
      fun k c hc => ?_, fun k st hst => ?_⟩, registered_inductive.init _ rfl,
      fun c a ha => ?_, fun c st hst => ?_, fun x hx => ?_⟩
    · cases hc
    · cases hc
    · cases hst
    · cases ha
    · cases hst
    · cases hx
  step p m l p' hrel hstep := by
    obtain ⟨h, hreg, hhonest⟩ := hrel
    -- a step that `Mining` does not make
    have hquiet : Follows hash p' m → ∃ ks m', mining.Run m ks m' ∧
        Follows hash p' m' ∧ Registered m' ∧ Honest hash m' :=
      fun hfollows => ⟨[], m, .nil m, hfollows, hreg, hhonest⟩
    -- a step of the server
    have hserver : ∀ (l' : MiningLbl) {m' : Mining}, mining.step m l' m' → Follows hash p' m' →
        Honest hash m' → ∃ ks m', mining.Run m ks m' ∧
          Follows hash p' m' ∧ Registered m' ∧ Honest hash m' := by
      intro l' m' hm hfollows hhonest'
      exact ⟨[l'], m', .single hm, hfollows, registered_inductive.step m l' m' hreg hm, hhonest'⟩
    cases Pool.steps_of_step hstep with
    | dial program hbound => exact hquiet (h.dial hbound program)
    | peer hc hc' => exact hquiet (h.peer hc hc')
    | exit hc hopen => exact hquiet (h.exit hc)
    | lose hc hlost => exact hquiet (h.lose hc)
    | @assign order hreading horder =>
      have hfree : order.Perm m.server.unOccupiedMiner.keys := h.server ▸ horder
      refine hserver (.assign order p.writable) (if_pos ⟨h.reading.trans hreading, hfree⟩)
        (h.assign hreg horder) ?_
      refine hhonest.of_step (fun _ a ha => .inl ha) (fun j st hst => ?_) fun x hx => .inl hx
      rw [(assigned_assignJobs hreg.roster hfree p.writable).1.clients] at hst
      exact .inl ⟨st, hst, rfl, rfl⟩
    | @read k c msg up r hc hup hreading hreported hr =>
      obtain ⟨hfollows, hhonest'⟩ := h.read hreg hhonest hc hreported hup hr
      refine hserver (.read (.message k msg)) ?_ hfollows hhonest'
      show m.step _ = _
      rw [← h.server] at hr
      simp only [Mining.step, h.reading.trans hreading, h.admits hc hreported hup, and_self,
        if_true, hr, Option.map_some]
    | @fail k c hc hreading hlost hreported =>
      have hfail := h.fail (k := k) hc
      rw [h.server] at hfail
      refine hserver (.read (.failure k)) ?_ hfail ?_
      · show m.step _ = _
        simp only [Mining.step, h.reading.trans hreading, Mining.admits, and_self, if_true,
          h.server]
      · refine hhonest.of_step (fun _ a ha => .inl ha) (fun j st hst => ?_) fun x hx => .inl hx
        rw [← h.server] at hst
        exact .inl ⟨st, Scheduler.lookup_of_handleFailure hst, rfl, rfl⟩

end Cmu440.Bitcoin
