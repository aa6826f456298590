import Cmu440.Core.Lease
import Cmu440.Tribbler.Locks

/-!
# Cached values are never stale

For every key the cluster follows the copies under leases of `Core.Lease`
(`Tracks`). A copy is a cached value or a granted reply on its way to a `Get`
that will cache it; it expires `leaseSeconds` after that `Get` began. A copy of
the current value is guarded by a lease the server has recorded for its holder,
which runs out later, and while a `Put` revokes leases the copy is either still
on its list or has expired.

Two things make this work. `Get` reads the clock before it locks the key, so
what it caches expires before the server's record of the lease does. And it
keeps the key locked over the call, so `RevokeLease` cannot come between a
reply and the cache.
-/
namespace Cmu440.Tribbler

/-! ## Copies -/

/-- The time up to which a value fetched by a `Get` that began at `now` is
used. -/
def expiry (now : Int) : Int := addSeconds now leaseSeconds

/-- `host` has the value of the key, or has it on its way, from a `Get` that
began at `now`. -/
def Copy (s : Cluster) (host : HostPort) (key : Key) (value : String) (now : Int) : Prop :=
  (∃ v, (s.libstores host).keyValue key = some v ∧ v.value = value ∧ v.lease.startFrom = now) ∨
    ∃ (g : Nat) (call : GetCall) (reply : GetReply), s.gets[g]? = some call ∧ call.host = host ∧
      call.key = key ∧ call.pc = .calling now ∧ call.rpc = .replied reply ∧ reply.status = .ok ∧
      reply.lease.granted = true ∧ reply.value = value

/-- A copy of the current value: its holder has a lease that runs out later, and
a `Put` that revokes leases of the key will come to it or it has expired. -/
def Guarded (s : Cluster) (key : Key) (c : LeaseCopy HostPort) : Prop :=
  ∃ vs l, s.server.keyValueStore key = some vs ∧ vs.leaseGranted.lookup c.holder = some l ∧
    c.expires ≤ expiry l.startFrom ∧
    ∀ (p : Nat) (call : PutCall), s.puts[p]? = some call → call.key = key →
      call.rpc.busy = true → call.rpc.Pending c.holder ∨ c.expires < s.clock

/-- The leases of the key follow `a`. -/
structure Tracks (s : Cluster) (key : Key) (a : Leases HostPort String) : Prop where
  clock : a.clock = s.clock
  versions : a.versions = s.versions key
  current : ∀ vs, s.server.keyValueStore key = some vs →
    ∃ t, (s.versions key).getLast? = some (vs.value, t)
  copies : ∀ host value now, Copy s host key value now → ∃ c ∈ a.copies, c.holder = host ∧
    c.expires = expiry now ∧ ∃ t, (s.versions key)[c.version]? = some (value, t)
  guarded : ∀ c ∈ a.copies, c.version + 1 = (s.versions key).length → Guarded s key c

section Copies

variable {s s' : Cluster} {key : Key}

/-- No new copies: nothing new in the caches, and no new reply. -/
theorem Copy.mono {host : HostPort} {value : String} {now : Int} (h : Copy s' host key value now)
    (hcache : ∀ host v, (s'.libstores host).keyValue key = some v →
      (s.libstores host).keyValue key = some v)
    (hgets : ∀ (g : Nat) (call : GetCall) (now : Int) (reply : GetReply), s'.gets[g]? = some call →
      call.key = key → call.pc = .calling now → call.rpc = .replied reply →
      s.gets[g]? = some call) : Copy s host key value now := by
  rcases h with ⟨v, hv, hrest⟩ | ⟨g, call, reply, hg, hh, hk, hpc, hrpc, hrest⟩
  · exact .inl ⟨v, hcache host v hv, hrest⟩
  · exact .inr ⟨g, call, reply, hgets g call now reply hg hk hpc hrpc, hh, hk, hpc, hrpc, hrest⟩

/-- One `Get` has changed, and is not waiting with a reply. -/
theorem Copy.of_move {host : HostPort} {value : String} {now : Int} {g : Nat} {call : GetCall}
    (h : Copy s' host key value now) (hgets : s'.gets = s.gets.set g call)
    (hnot : ∀ now reply, call.pc = .calling now → call.rpc ≠ .replied reply)
    (hcache : ∀ host v, (s'.libstores host).keyValue key = some v →
      (s.libstores host).keyValue key = some v) : Copy s host key value now := by
  refine h.mono hcache fun g' call' now' reply hg _ hpc hrpc => ?_
  rw [hgets] at hg
  rcases getElem?_moved hg with ⟨-, hg⟩ | ⟨-, rfl⟩
  · exact hg
  · exact absurd hrpc (hnot now' reply hpc)

end Copies

/-! ## One step -/

section Step

variable {s s' : Cluster} {key : Key} {a : Leases HostPort String} {c : LeaseCopy HostPort}
  {p g : Nat}

/-- The cluster moves and the leases follow. -/
def Follows (s' : Cluster) (key : Key) (a : Leases HostPort String) : Prop :=
  ∃ ls a', Leases.system.Run a ls a' ∧ Tracks s' key a'

/-- Time may pass and copies may be gone; the others stay guarded. -/
theorem Tracks.same (h : Tracks s key a) (hclock : s.clock ≤ s'.clock)
    (hversions : s'.versions key = s.versions key)
    (hvalues : ∀ vs', s'.server.keyValueStore key = some vs' →
      ∃ vs, s.server.keyValueStore key = some vs ∧ vs'.value = vs.value)
    (hcopies : ∀ host value now, Copy s' host key value now → Copy s host key value now)
    (hguard : ∀ c, Guarded s key c → Guarded s' key c) : Follows s' key a := by
  refine ⟨[.tick (s'.clock - s.clock)], _, .single (.tick a _ (by omega)), ⟨?_, ?_, ?_, ?_, ?_⟩⟩
  · simp only [h.clock]
    omega
  · exact h.versions.trans hversions.symm
  · intro vs' hvs'
    obtain ⟨vs, hvs, hv⟩ := hvalues vs' hvs'
    rw [hversions, hv]
    exact h.current vs hvs
  · intro host value now hc
    rw [hversions]
    exact h.copies host value now (hcopies host value now hc)
  · intro c hc hcur
    rw [hversions] at hcur
    exact hguard c (h.guarded c hc hcur)

/-- The lease stays, and so does every request that may revoke it. -/
theorem Guarded.mono (h : Guarded s key c) (hclock : s.clock ≤ s'.clock)
    (hstore : s'.server.keyValueStore key = s.server.keyValueStore key)
    (hputs : ∀ (p : Nat) (call : PutCall), s'.puts[p]? = some call → call.key = key →
      call.rpc.busy = true → ∃ (p' : Nat) (call' : PutCall), s.puts[p']? = some call' ∧
        call'.key = key ∧ call'.rpc = call.rpc) : Guarded s' key c := by
  obtain ⟨vs, l, hvs, hl, hexp, hpend⟩ := h
  refine ⟨vs, l, hstore.trans hvs, hl, hexp, fun p call hp hk hb => ?_⟩
  obtain ⟨p', call', hp', hk', hrpc⟩ := hputs p call hp hk hb
  rw [← hrpc] at hb ⊢
  exact (hpend p' call' hp' hk' hb).imp_right fun hlt => lt_of_lt_of_le hlt hclock

/-- Only the clock, the libstores and the `Get`s have changed. -/
theorem Tracks.gets (h : Tracks s key a) (hclock : s.clock ≤ s'.clock)
    (hserver : s'.server = s.server) (hputs : s'.puts = s.puts) (hversions : s'.versions = s.versions)
    (hcopies : ∀ host value now, Copy s' host key value now → Copy s host key value now) :
    Follows s' key a := by
  have hstore : s'.server.keyValueStore key = s.server.keyValueStore key := by
    rw [hserver]
  refine h.same hclock (by rw [hversions]) (fun vs hvs => ⟨vs, hstore ▸ hvs, rfl⟩) hcopies
    fun c hc => hc.mono hclock hstore ?_
  intro p call hp hk _
  rw [hputs] at hp
  exact ⟨p, call, hp, hk, rfl⟩

/-- A `Put` has changed that is of another key, or revokes no lease, or revokes
what it did before. -/
theorem Tracks.puts (h : Tracks s key a) {call call' : PutCall} (hp : s.puts[p]? = some call)
    (hputs : s'.puts = s.puts.set p call')
    (hcall : call'.key = key → call'.rpc.busy = true → call.key = key ∧ call.rpc = call'.rpc)
    (hclock : s'.clock = s.clock) (hversions : s'.versions key = s.versions key)
    (hstore : s'.server.keyValueStore key = s.server.keyValueStore key)
    (hcopies : ∀ host value now, Copy s' host key value now → Copy s host key value now) :
    Follows s' key a := by
  refine h.same (le_of_eq hclock.symm) hversions (fun vs hvs => ⟨vs, hstore ▸ hvs, rfl⟩) hcopies
    fun c hc => hc.mono (le_of_eq hclock.symm) hstore ?_
  intro p' call'' hp' hk hb
  rw [hputs] at hp'
  rcases getElem?_moved hp' with ⟨-, hp'⟩ | ⟨-, rfl⟩
  · exact ⟨p', call'', hp', hk, rfl⟩
  · obtain ⟨hk', hrpc⟩ := hcall hk hb
    exact ⟨p, call, hp, hk', hrpc⟩

theorem expiry_lt_validUntil {l : Lease} (h : l.validSeconds = leaseSeconds + leaseGuardSeconds) :
    expiry l.startFrom < l.validUntil := by
  simp only [expiry, Lease.validUntil, addSeconds, h, leaseSeconds, leaseGuardSeconds]
  omega

theorem expiry_mono {t t' : Int} (h : t ≤ t') : expiry t ≤ expiry t' := by
  simp only [expiry, addSeconds]
  omega

/-- `Put` begins to revoke: every lease of the key is on its list. -/
theorem Guarded.lockPut (h : Guarded s key c) {call : PutCall} {vs : ValueStore}
    (hstore : s.server.keyValueStore call.key = some vs)
    (hputs : s'.puts = s.puts.set p { call with rpc := .revoking vs.leaseGranted })
    (hclock : s'.clock = s.clock) (hstore' : s'.server.keyValueStore = s.server.keyValueStore) :
    Guarded s' key c := by
  obtain ⟨vs', l, hvs', hl, hexp, hpend⟩ := h
  refine ⟨vs', l, (congrFun hstore' key).trans hvs', hl, hexp, fun p' call' hp' hk hb => ?_⟩
  rw [hputs] at hp'
  rcases getElem?_moved hp' with ⟨-, hp'⟩ | ⟨-, rfl⟩
  · rw [hclock]
    exact hpend p' call' hp' hk hb
  · simp only at hk
    rw [hk, hvs'] at hstore
    cases hstore
    left
    simp only [PutRpc.Pending, hl, Option.isSome_some]

/-- The loop goes on: what it has dealt with has run out. -/
theorem Guarded.goOn (h : Guarded s key c) (hok : PutsOk s) {call : PutCall} {rpc : PutRpc}
    (hp : s.puts[p]? = some call) (hgo : call.rpc.GoesOn s.clock rpc)
    (hputs : s'.puts = s.puts.set p { call with rpc := rpc }) (hclock : s'.clock = s.clock)
    (hstore : s'.server.keyValueStore = s.server.keyValueStore) : Guarded s' key c := by
  obtain ⟨vs, l, hvs, hl, hexp, hpend⟩ := h
  refine ⟨vs, l, (congrFun hstore key).trans hvs, hl, hexp, fun p' call' hp' hk hb => ?_⟩
  rw [hclock]
  rw [hputs] at hp'
  rcases getElem?_moved hp' with ⟨-, hp'⟩ | ⟨-, rfl⟩
  · exact hpend p' call' hp' hk hb
  · simp only at hk
    obtain ⟨vs', hvs', hw⟩ := hok.within p call hp hgo.busy
    rw [hk, hvs] at hvs'
    cases hvs'
    rcases hpend p call hp hk hgo.busy with hpend | hlt
    · refine (hgo.pending _ hw _ l hl hpend).imp_right fun hout => ?_
      have := expiry_lt_validUntil (hok.lease key vs _ l hvs hl).1
      omega
    · exact .inr hlt

/-- `RevokeLease` has run at `hostport`: no copy is left there, and the others
are still to come. -/
theorem Tracks.revoked (h : Tracks s key a) (hgets : GetsOk s) {call : PutCall} {todo : LeaseMap}
    {hostport : HostPort} {validUntil : Int} (hp : s.puts[p]? = some call)
    (hrpc : call.rpc = .waiting todo hostport validUntil false)
    (hfree : s.free hostport call.key = true) :
    Follows ((s.setLib hostport ((s.libstores hostport).revokeLease call.key).1).setPut p
      { call with rpc := .waiting todo hostport validUntil true }) key a := by
  have hcopies : ∀ host value now,
      Copy ((s.setLib hostport ((s.libstores hostport).revokeLease call.key).1).setPut p
        { call with rpc := .waiting todo hostport validUntil true }) host key value now →
      Copy s host key value now := fun host value now hc =>
    hc.mono (fun _ _ => setLib_keyValue (noNewCopy_revoke _ _)) fun _ _ _ _ hg _ _ _ => hg
  by_cases hk : call.key = key
  swap
  · exact h.puts hp rfl (fun hk' => absurd hk' hk) rfl rfl rfl hcopies
  subst hk
  refine ⟨[.drop {c | c ∈ a.copies ∧ c.holder ≠ hostport}], _,
    .single (.drop a _ fun c hc => hc.1), ⟨h.clock, h.versions, h.current, ?_, ?_⟩⟩
  · intro host value now hc
    obtain ⟨c, hmem, hholder, hrest⟩ := h.copies host value now (hcopies host value now hc)
    refine ⟨c, ⟨hmem, ?_⟩, hholder, hrest⟩
    rw [hholder]
    rintro rfl
    rcases hc with ⟨v, hv, -⟩ | ⟨g, get, reply, hg, hh, hk, hpc, -⟩
    · simp only [Cluster.setPut, Cluster.setLib, Function.update_self] at hv
      exact (Libstore.revokeLease_keyValue hv).1 rfl
    · -- a `Get` that waits for the server keeps `RevokeLease` out
      have hm := hgets.held g get now hg hpc
      rw [hh, hk] at hm
      rw [Cluster.free, hm] at hfree
      cases hfree
  · rintro c ⟨hmem, hne⟩ hcur
    obtain ⟨vs, l, hvs, hl, hexp, hpend⟩ := h.guarded c hmem hcur
    refine ⟨vs, l, hvs, hl, hexp, fun p' call' hp' hk' hb => ?_⟩
    rcases getElem?_moved hp' with ⟨-, hp'⟩ | ⟨-, rfl⟩
    · exact hpend p' call' hp' hk' hb
    · refine (hpend p call hp rfl (by rw [hrpc]; rfl)).imp_left fun hpend' => ?_
      rw [hrpc] at hpend'
      exact .inr (hpend'.resolve_left fun he => hne he.1.symm)

/-- The value is installed when every lease of the key has been dealt with. -/
theorem Tracks.install (h : Tracks s key a) (hok : a.Ok) {call : PutCall}
    (hp : s.puts[p]? = some call) (hrpc : (call.rpc = .sent ∧ s.serverFree call.key = true ∧
        s.server.keyValueStore call.key = none) ∨
      ∃ todo, call.rpc = .revoking todo ∧ todo.keys = []) :
    Follows (s.installPut p call) key a := by
  by_cases hk : call.key = key
  swap
  · exact h.puts hp rfl (fun hk' => absurd hk' hk) rfl (Function.update_of_ne (Ne.symm hk) ..)
      (Function.update_of_ne (Ne.symm hk) ..) fun _ _ _ hc => hc
  subst hk
  have hversions : (s.installPut p call).versions call.key =
      s.versions call.key ++ [(call.value, s.clock)] := Function.update_self ..
  -- the copies of the value that is overwritten have expired
  have hexp : ∀ c ∈ a.copies, c.version + 1 = a.versions.length → c.expires < a.clock := by
    intro c hc hcur
    rw [h.versions] at hcur
    obtain ⟨vs, l, hvs, hl, -, hpend⟩ := h.guarded c hc hcur
    rw [h.clock]
    rcases hrpc with ⟨-, -, hnone⟩ | ⟨todo, hrpc, hnil⟩
    · rw [hnone] at hvs
      cases hvs
    · refine (hpend p call hp rfl (by rw [hrpc]; rfl)).resolve_left fun hin => ?_
      rw [hrpc] at hin
      have hmem : c.holder ∈ todo.keys := AList.lookup_isSome.mp hin
      rw [hnil] at hmem
      cases hmem
  refine ⟨[.install call.value], _, .single (.install a call.value hexp), ⟨h.clock, ?_, ?_, ?_, ?_⟩⟩
  · rw [hversions]
    simp only [h.versions, h.clock]
  · intro vs hvs
    simp only [Cluster.installPut, Cluster.setPut, StorageServer.install, Function.update_self,
      Option.some.injEq] at hvs
    subst hvs
    rw [hversions]
    exact ⟨s.clock, List.getLast?_concat⟩
  · intro host value now hc
    obtain ⟨c, hmem, hholder, hexpires, t, ht⟩ := h.copies host value now hc
    refine ⟨c, hmem, hholder, hexpires, t, ?_⟩
    rw [hversions]
    exact (List.getElem?_append_left (List.getElem?_eq_some_iff.mp ht).1).trans ht
  · intro c hc hcur
    have hlt := hok.known c hc
    rw [h.versions] at hlt
    rw [hversions, List.length_append, List.length_singleton] at hcur
    omega

/-- The server answers a `Get`: the leases it has recorded stay, or are renewed
later. -/
theorem Guarded.serve (h : Guarded s key c) (hok : PutsOk s) {call : GetCall} {wantLease : Bool}
    (hfree : s.serverFree call.key = true)
    (hserver : s'.server = (s.server.get s.clock call.key wantLease call.host).1)
    (hputs : s'.puts = s.puts) (hclock : s'.clock = s.clock) : Guarded s' key c := by
  obtain ⟨vs, l, hvs, hl, hexp, hpend⟩ := h
  by_cases hk : key = call.key
  · subst hk
    obtain ⟨vs', hvs', hkept⟩ := get_kept hvs
    obtain ⟨l', hl', hle⟩ := hkept c.holder l hl (hok.lease _ vs _ l hvs hl).2
    refine ⟨vs', l', hserver ▸ hvs', hl', le_trans hexp (expiry_mono hle), fun p put hp hk hb => ?_⟩
    rw [hok.not_busy (hputs ▸ hp) (hk ▸ hfree)] at hb
    cases hb
  · refine ⟨vs, l, ?_, hl, hexp, ?_⟩
    · rw [hserver, get_store.2.1 key hk]
      exact hvs
    · rw [hputs, hclock]
      exact hpend

/-- A copy that is new when the server has answered is the answer. -/
theorem Copy.of_serve {server : StorageServer} {call : GetCall} {reply : GetReply} {host : HostPort}
    {value : String} {now : Int}
    (h : Copy ({ s with server := server }.setGet g { call with rpc := .replied reply })
      host key value now) :
    Copy s host key value now ∨ (call.host = host ∧ call.key = key ∧ call.pc = .calling now ∧
      reply.status = .ok ∧ reply.lease.granted = true ∧ reply.value = value) := by
  rcases h with hv | ⟨g', call', reply', hg', hh, hk, hpc, hrpc, hrest⟩
  · exact .inl (.inl hv)
  · rcases getElem?_moved hg' with ⟨-, hg'⟩ | ⟨-, rfl⟩
    · exact .inl (.inr ⟨g', call', reply', hg', hh, hk, hpc, hrpc, hrest⟩)
    · cases hrpc
      exact .inr ⟨hh, hk, hpc, hrest⟩

/-- The server answers a `Get` that is waiting, and grants a lease. -/
theorem Tracks.grant (h : Tracks s key a) (hgets : GetsOk s) (hputs : PutsOk s) {call : GetCall}
    {wantLease : Bool} {now : Int} (hg : s.gets[g]? = some call)
    (hfree : s.serverFree call.key = true) (hk : call.key = key) (hpc : call.pc = .calling now)
    (hstatus : (s.server.get s.clock call.key wantLease call.host).2.status = .ok)
    (hgr : (s.server.get s.clock call.key wantLease call.host).2.lease.granted = true) :
    Follows ({ s with server := (s.server.get s.clock call.key wantLease call.host).1 }.setGet g
      { call with rpc := .replied (s.server.get s.clock call.key wantLease call.host).2 }) key a := by
  subst hk
  obtain ⟨vs, hvs, hvalue⟩ := get_ok hstatus
  obtain ⟨-, vs', hvs', hrec⟩ := get_granted hgr
  obtain ⟨t, ht⟩ := h.current vs hvs
  rw [List.getLast?_eq_getElem?] at ht
  have hpos := (List.getElem?_eq_some_iff.mp ht).1
  have hlast : (s.versions call.key).length - 1 + 1 = (s.versions call.key).length := by omega
  refine ⟨[.grant ⟨call.host, (s.versions call.key).length - 1, expiry now⟩], _,
    .single (.grant a _ (h.versions ▸ hlast)), ⟨h.clock, h.versions, ?_, ?_, ?_⟩⟩
  · intro vs'' hvs''
    obtain ⟨vs₀, hvs₀, hv, -⟩ := get_store.2.2 vs'' hvs''
    rw [hv]
    exact h.current vs₀ hvs₀
  · intro host value now' hc
    rcases hc.of_serve with hc | ⟨hh, -, hpc', -, -, hval⟩
    · obtain ⟨c, hmem, hrest⟩ := h.copies host value now' hc
      exact ⟨c, .inr hmem, hrest⟩
    · cases hpc.symm.trans hpc'
      refine ⟨_, .inl rfl, hh, rfl, t, ?_⟩
      rw [← hval, hvalue]
      exact ht
  · rintro c (rfl | hc) hcur
    · refine ⟨vs', _, hvs', hrec, expiry_mono (hgets.past g call now hg (.inr hpc)),
        fun p put hp hk hb => ?_⟩
      rw [hputs.not_busy hp (hk ▸ hfree)] at hb
      cases hb
    · exact (h.guarded c hc hcur).serve hputs hfree rfl rfl rfl

theorem Tracks.serve (h : Tracks s key a) (hgets : GetsOk s) (hputs : PutsOk s) {call : GetCall}
    {wantLease : Bool} (hg : s.gets[g]? = some call) (hfree : s.serverFree call.key = true) :
    Follows ({ s with server := (s.server.get s.clock call.key wantLease call.host).1 }.setGet g
      { call with rpc := .replied (s.server.get s.clock call.key wantLease call.host).2 }) key a := by
  by_cases hnew : call.key = key ∧ (∃ now, call.pc = .calling now) ∧
      (s.server.get s.clock call.key wantLease call.host).2.status = .ok ∧
      (s.server.get s.clock call.key wantLease call.host).2.lease.granted = true
  · obtain ⟨hk, ⟨now, hpc⟩, hstatus, hgr⟩ := hnew
    exact h.grant hgets hputs hg hfree hk hpc hstatus hgr
  · refine h.same (le_refl _) rfl ?_ ?_ fun c hc => hc.serve hputs hfree rfl rfl rfl
    · intro vs' hvs'
      by_cases hk : key = call.key
      · subst hk
        obtain ⟨vs, hvs, hv, -⟩ := get_store.2.2 vs' hvs'
        exact ⟨vs, hvs, hv⟩
      · exact ⟨vs', (get_store.2.1 key hk).symm.trans hvs', rfl⟩
    · intro host value now hc
      refine hc.of_serve.resolve_right fun ⟨_, hk, hpc, hstatus, hgr, _⟩ => ?_
      exact hnew ⟨hk, ⟨now, hpc⟩, hstatus, hgr⟩

/-- What a `Get` caches was on its way. -/
theorem Copy.of_receive {call : GetCall} {now : Int} {reply : GetReply}
    (hg : s.gets[g]? = some call) (hpc : call.pc = .calling now) (hrpc : call.rpc = .replied reply)
    {host : HostPort} {value : String} {t : Int}
    (h : Copy (s.receiveGet g call now reply) host key value t) : Copy s host key value t := by
  rcases h with ⟨v, hv, rfl, rfl⟩ | ⟨g', call', reply', hg', hh, hk, hpc', hrpc', hrest⟩
  · rcases receiveGet_keyValue hv with hv | ⟨rfl, rfl, hstatus, hgr, rfl⟩
    · exact .inl ⟨v, hv, rfl, rfl⟩
    · exact .inr ⟨g, call, reply, hg, rfl, rfl, hpc, hrpc, hstatus, hgr, rfl⟩
  · rcases getElem?_moved hg' with ⟨-, hg'⟩ | ⟨-, rfl⟩
    · exact .inr ⟨g', call', reply', hg', hh, hk, hpc', hrpc', hrest⟩
    · simp only at hpc'
      split at hpc' <;> cases hpc'

theorem Tracks.step (h : Tracks s key a) (hok : a.Ok) (hgets : GetsOk s) (hputs : PutsOk s)
    (hev : Event s s') : Follows s' key a := by
  cases hev with
  | tick d => exact h.gets (by simp only; omega) rfl rfl rfl fun _ _ _ hc => hc
  | newGet host k =>
    refine h.gets (le_refl _) rfl rfl rfl fun _ _ _ hc => hc.mono (fun _ _ hv => hv) ?_
    intro g call now reply hg _ hpc _
    rcases getElem?_started hg with hg | ⟨-, rfl⟩
    · exact hg
    · cases hpc
  | newPut host k value =>
    refine h.same (le_refl _) rfl (fun vs hvs => ⟨vs, hvs, rfl⟩) (fun _ _ _ hc => hc)
      fun c hc => hc.mono (le_refl _) rfl ?_
    intro p call hp hk hb
    rcases getElem?_started hp with hp | ⟨-, rfl⟩
    · exact ⟨p, call, hp, hk, rfl⟩
    · cases hb
  | lib hls =>
    exact h.gets (le_refl _) rfl rfl rfl fun _ _ _ hc =>
      hc.mono (fun _ _ => setLib_keyValue hls) fun _ _ _ _ hg _ _ _ => hg
  | readClock hg hpc =>
    exact h.gets (le_refl _) rfl rfl rfl fun _ _ _ hc =>
      hc.of_move rfl (fun _ _ hpc => by cases hpc) fun _ _ hv => hv
  | hit hg hpc hls | giveUp hg hpc hls =>
    exact h.gets (le_refl _) rfl rfl rfl fun _ _ _ hc =>
      hc.of_move rfl (fun _ _ hpc => by cases hpc) fun _ _ => setLib_keyValue hls
  | miss hg hpc hfree hls =>
    refine h.gets (le_refl _) rfl rfl rfl fun _ _ _ hc =>
      hc.of_move rfl (fun _ _ _ hrpc => by cases hrpc) fun host v hv => ?_
    simp only [Cluster.setGet, setMutex_keyValue] at hv
    exact setLib_keyValue hls hv
  | serve hg hrpc hfree => exact h.serve hgets hputs hg hfree
  | receive hg hpc hrpc =>
    exact h.gets (le_refl _) rfl rfl rfl fun _ _ _ hc => hc.of_receive hg hpc hrpc
  | failGet hg hpc =>
    refine h.gets (le_refl _) rfl rfl rfl fun _ _ _ hc =>
      hc.of_move rfl (fun _ _ hpc => by cases hpc) fun host v hv => ?_
    simp only [Cluster.setGet, setMutex_keyValue] at hv
    exact hv
  | enterPut hp hpc hpc' hrpc hls =>
    refine h.puts hp rfl (fun hk hb => ⟨hk, ?_⟩) rfl rfl rfl fun _ _ _ hc =>
      hc.mono (fun _ _ => setLib_keyValue hls) fun _ _ _ _ hg _ _ _ => hg
    rcases hrpc with rfl | rfl
    · cases hb
    · rfl
  | putPc hp hpc hdone =>
    exact h.puts hp rfl (fun hk _ => ⟨hk, rfl⟩) rfl rfl rfl fun _ _ _ hc => hc
  | lockPut hp hrpc hfree hstore =>
    exact h.same (le_refl _) rfl (fun vs hvs => ⟨vs, hvs, rfl⟩) (fun _ _ _ hc => hc)
      fun c hc => hc.lockPut hstore rfl rfl rfl
  | install hp hrpc => exact h.install hok hp hrpc
  | goOn hp hgo hstore hmutex =>
    exact h.same (le_refl _) rfl (fun vs hvs => ⟨vs, hstore ▸ hvs, rfl⟩) (fun _ _ _ hc => hc)
      fun c hc => hc.goOn hputs hp hgo rfl rfl hstore
  | dialFailed hp hbusy => exact h.puts hp rfl (fun _ hb => by cases hb) rfl rfl rfl fun _ _ _ hc => hc
  | revoked hp hrpc hfree => exact h.revoked hgets hp hrpc hfree

end Step

end Cmu440.Tribbler
