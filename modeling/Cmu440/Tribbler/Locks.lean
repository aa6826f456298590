import Cmu440.Tribbler.Events

/-!
# Who holds which mutex

Between steps, a `Get` that waits for the server has the mutex of its key at
its libstore (`GetsOk`), so that no `RevokeLease` for the key gets in before the
reply is in the cache. A `Put` that revokes leases has the mutex of its key at
the server (`PutsOk`), so that no lease for the key is granted meanwhile, and
what it has still to revoke are leases of the key.
-/
namespace Cmu440.Tribbler

/-! ## The mutexes and the copies of a libstore -/

section Libstores

variable {s : Cluster} {host : HostPort} {ls : Libstore}

theorem setLib_mutex (hls : NoNewCopy (s.libstores host) ls) (h : HostPort) :
    ((s.setLib host ls).libstores h).keyValueMutex = (s.libstores h).keyValueMutex := by
  simp only [Cluster.setLib, Function.update_apply]
  split
  · rename_i hh
    rw [hh]
    exact hls.mutex
  · rfl

theorem setLib_keyValue (hls : NoNewCopy (s.libstores host) ls) {h : HostPort} {k : Key}
    {value : ValueLib} (hv : ((s.setLib host ls).libstores h).keyValue k = some value) :
    (s.libstores h).keyValue k = some value := by
  simp only [Cluster.setLib, Function.update_apply] at hv
  split at hv
  · rename_i hh
    rw [hh]
    exact hls.keyValue k value hv
  · exact hv

theorem setMutex_mutex (s : Cluster) (host : HostPort) (key : Key) (holder : Option Nat)
    (h : HostPort) (k : Key) : ((s.setMutex host key holder).libstores h).keyValueMutex k =
      if h = host ∧ k = key then holder else (s.libstores h).keyValueMutex k := by
  simp only [Cluster.setMutex, Cluster.setLib, Function.update_apply]
  by_cases hh : h = host
  · subst hh
    by_cases hk : k = key <;> simp [hk]
  · simp [hh]

theorem setMutex_keyValue (s : Cluster) (host : HostPort) (key : Key) (holder : Option Nat)
    (h : HostPort) :
    ((s.setMutex host key holder).libstores h).keyValue = (s.libstores h).keyValue := by
  simp only [Cluster.setMutex, Cluster.setLib, Function.update_apply]
  split
  · rename_i hh
    rw [hh]
  · rfl

/-- What a reply leaves in the caches. -/
theorem receiveGet_keyValue {g : Nat} {call : GetCall} {now : Int} {reply : GetReply}
    {h : HostPort} {k : Key} {value : ValueLib}
    (hv : ((s.receiveGet g call now reply).libstores h).keyValue k = some value) :
    (s.libstores h).keyValue k = some value ∨
      (h = call.host ∧ k = call.key ∧ reply.status = .ok ∧ reply.lease.granted = true ∧
        value = ⟨reply.value, ⟨now, reply.lease.validSeconds⟩⟩) := by
  simp only [Cluster.receiveGet, Cluster.setGet, setMutex_keyValue] at hv
  simp only [Cluster.setLib, Function.update_apply] at hv
  split at hv
  · rename_i hh
    subst hh
    rcases Libstore.receive_keyValue hv with hv | ⟨hk, hrest⟩
    · exact .inl hv
    · exact .inr ⟨rfl, hk, hrest⟩
  · exact .inl hv

theorem receiveGet_mutex (s : Cluster) (g : Nat) (call : GetCall) (now : Int) (reply : GetReply)
    (h : HostPort) (k : Key) :
    ((s.receiveGet g call now reply).libstores h).keyValueMutex k =
      if h = call.host ∧ k = call.key then none else (s.libstores h).keyValueMutex k := by
  simp only [Cluster.receiveGet, Cluster.setGet, setMutex_mutex]
  split
  · rfl
  · simp only [Cluster.setLib, Function.update_apply]
    split
    · rename_i hh
      rw [Libstore.receive_mutex, hh]
    · rfl

end Libstores

/-! ## Gets -/

/-- `Get` calls the server with the mutex of the key held, and its time has
passed. -/
structure GetsOk (s : Cluster) : Prop where
  held : ∀ (g : Nat) (call : GetCall) (now : Int), s.gets[g]? = some call →
    call.pc = .calling now → (s.libstores call.host).keyValueMutex call.key = some g
  past : ∀ (g : Nat) (call : GetCall) (now : Int), s.gets[g]? = some call →
    call.pc = .locking now ∨ call.pc = .calling now → now ≤ s.clock
  granted : ∀ (g : Nat) (call : GetCall) (reply : GetReply), s.gets[g]? = some call →
    call.rpc = .replied reply → reply.lease.granted = true → reply.lease.validSeconds = leaseSeconds

section Gets

variable {s s' : Cluster}

theorem GetsOk.frame (h : GetsOk s) (hgets : s'.gets = s.gets)
    (hmutex : ∀ host, (s'.libstores host).keyValueMutex = (s.libstores host).keyValueMutex)
    (hclock : s.clock ≤ s'.clock) : GetsOk s' where
  held g call now hg hpc := by
    rw [hmutex]
    exact h.held g call now (hgets ▸ hg) hpc
  past g call now hg hpc := le_trans (h.past g call now (hgets ▸ hg) hpc) hclock
  granted g call reply hg := h.granted g call reply (hgets ▸ hg)

/-- One `Get` moves; the others keep their mutexes. -/
theorem GetsOk.move (h : GetsOk s) {g : Nat} {call : GetCall} (hgets : s'.gets = s.gets.set g call)
    (hclock : s'.clock = s.clock)
    (hheld : ∀ now, call.pc = .calling now →
      (s'.libstores call.host).keyValueMutex call.key = some g)
    (hothers : ∀ (g' : Nat) (host : HostPort) (key : Key), g' ≠ g →
      (s.libstores host).keyValueMutex key = some g' →
      (s'.libstores host).keyValueMutex key = some g')
    (hpast : ∀ now, call.pc = .locking now ∨ call.pc = .calling now → now ≤ s.clock)
    (hgranted : ∀ reply, call.rpc = .replied reply → reply.lease.granted = true →
      reply.lease.validSeconds = leaseSeconds) : GetsOk s' where
  held g' call' now hg' hpc := by
    rw [hgets] at hg'
    rcases getElem?_moved hg' with ⟨hne, hg'⟩ | ⟨rfl, rfl⟩
    · exact hothers g' _ _ hne (h.held g' call' now hg' hpc)
    · exact hheld now hpc
  past g' call' now hg' hpc := by
    rw [hclock]
    rw [hgets] at hg'
    rcases getElem?_moved hg' with ⟨-, hg'⟩ | ⟨-, rfl⟩
    · exact h.past g' call' now hg' hpc
    · exact hpast now hpc
  granted g' call' reply hg' := by
    rw [hgets] at hg'
    rcases getElem?_moved hg' with ⟨-, hg'⟩ | ⟨-, rfl⟩
    · exact h.granted g' call' reply hg'
    · exact hgranted reply

/-- A `Get` ends that has not called the server. -/
theorem GetsOk.answered (h : GetsOk s) {g : Nat} {call : GetCall} {pc : GetPc} {ls : Libstore}
    (hg : s.gets[g]? = some call) (hls : NoNewCopy (s.libstores call.host) ls)
    (hnot : ∀ now, pc ≠ .locking now ∧ pc ≠ .calling now) :
    GetsOk ((s.setLib call.host ls).setGet g { call with pc := pc }) := by
  refine h.move rfl rfl (fun now hc => absurd hc (hnot now).2) (fun _ _ _ _ hm => ?_)
    (fun now hc => (hc.elim (hnot now).1 (hnot now).2).elim)
    (fun reply hr => h.granted _ _ reply hg hr)
  simp only [Cluster.setGet, setLib_mutex hls]
  exact hm

/-- A `Get` that has called the server ends, and lets go of the mutex. -/
theorem GetsOk.release (h : GetsOk s) {g : Nat} {call : GetCall} {now : Int}
    (hg : s.gets[g]? = some call) (hpc : call.pc = .calling now) {pc : GetPc}
    (hgets : s'.gets = s.gets.set g { call with pc := pc }) (hclock : s'.clock = s.clock)
    (hmutex : ∀ host key, (s'.libstores host).keyValueMutex key =
      if host = call.host ∧ key = call.key then none else (s.libstores host).keyValueMutex key)
    (hnot : ∀ now, pc ≠ .locking now ∧ pc ≠ .calling now) : GetsOk s' := by
  refine h.move hgets hclock (fun now' hc => absurd hc (hnot now').2) ?_
    (fun now' hc => (hc.elim (hnot now').1 (hnot now').2).elim) (fun reply => h.granted g call reply hg)
  intro g' host key hne hm
  rw [hmutex, if_neg]
  · exact hm
  · -- the mutex that is released is its own
    rintro ⟨rfl, rfl⟩
    rw [h.held g call now hg hpc] at hm
    exact hne (Option.some.inj hm).symm

theorem GetsOk.step (h : GetsOk s) (hev : Event s s') : GetsOk s' := by
  cases hev with
  | tick d => exact h.frame rfl (fun _ => rfl) (by simp only; omega)
  | newGet host key =>
    refine ⟨fun g call now hg hpc => ?_, fun g call now hg hpc => ?_, fun g call reply hg hrpc => ?_⟩ <;>
      rcases getElem?_started hg with hg | ⟨-, rfl⟩
    · exact h.held g call now hg hpc
    · cases hpc
    · exact h.past g call now hg hpc
    · rcases hpc with hpc | hpc <;> cases hpc
    · exact h.granted g call reply hg hrpc
    · cases hrpc
  | newPut | putPc | lockPut | install | goOn | dialFailed => exact h.frame rfl (fun _ => rfl) (le_refl _)
  | lib hls => exact h.frame rfl (setLib_mutex hls) (le_refl _)
  | readClock hg hpc =>
    refine h.move rfl rfl nofun (fun _ _ _ _ hm => hm) (fun now hc => ?_)
      (fun reply hr => h.granted _ _ reply hg hr)
    rcases hc with hc | hc
    · cases hc
      exact le_refl _
    · cases hc
  | hit hg hpc hls hvalue hlive => exact h.answered hg hls fun now => ⟨nofun, nofun⟩
  | miss hg hpc hfree hls =>
    rename_i g call now ls wantLease
    refine h.move rfl rfl (fun _ _ => ?_) (fun g' host key hne hm => ?_) (fun now' hc => ?_) nofun
    · simp only [Cluster.setGet, setMutex_mutex, and_self, if_true]
    · simp only [Cluster.setGet, setMutex_mutex, setLib_mutex hls]
      rw [if_neg]
      · exact hm
      · -- nobody had the mutex
        rintro ⟨rfl, rfl⟩
        rw [Cluster.free, hm] at hfree
        cases hfree
    · rcases hc with hc | hc <;> cases hc
      exact h.past g call now hg (.inl hpc)
  | giveUp hg hpc hls => exact h.answered hg hls fun now => ⟨nofun, nofun⟩
  | serve hg hrpc hfree =>
    rename_i g call wantLease
    refine h.move rfl rfl (fun now hc => h.held g call now hg hc) (fun _ _ _ _ hm => hm)
      (fun now hc => h.past g call now hg hc) (fun reply hr hgr => ?_)
    cases hr
    exact (get_granted hgr).1
  | receive hg hpc hrpc =>
    refine h.release hg hpc rfl rfl (receiveGet_mutex _ _ _ _ _) fun now => ?_
    split <;> exact ⟨nofun, nofun⟩
  | failGet hg hpc =>
    exact h.release hg hpc rfl rfl (setMutex_mutex _ _ _ _) fun now => ⟨nofun, nofun⟩
  | enterPut hp hpc hpc' hrpc hls => exact h.frame rfl (setLib_mutex hls) (le_refl _)
  | revoked hp hrpc hfree => exact h.frame rfl (setLib_mutex (noNewCopy_revoke _ _)) (le_refl _)

/-- Cached values are valid for as long as the server grants. -/
def CacheOk (s : Cluster) : Prop :=
  ∀ host key value, (s.libstores host).keyValue key = some value →
    value.lease.validSeconds = leaseSeconds

theorem CacheOk.step (h : CacheOk s) (hgets : GetsOk s) (hev : Event s s') : CacheOk s' := by
  intro host key value hv
  cases hev with
  | tick | newGet | newPut | readClock | serve | putPc | lockPut | install | goOn | dialFailed =>
    exact h host key value hv
  | lib hls | hit _ _ hls | giveUp _ _ hls | enterPut _ _ _ _ hls =>
    exact h host key value (setLib_keyValue hls hv)
  | miss _ _ _ hls =>
    simp only [Cluster.setGet, setMutex_keyValue] at hv
    exact h host key value (setLib_keyValue hls hv)
  | failGet =>
    simp only [Cluster.setGet, setMutex_keyValue] at hv
    exact h host key value hv
  | receive hg hpc hrpc =>
    rcases receiveGet_keyValue hv with hv | ⟨-, -, -, hgr, rfl⟩
    · exact h host key value hv
    · exact hgets.granted _ _ _ hg hrpc hgr
  | revoked => exact h host key value (setLib_keyValue (noNewCopy_revoke _ _) hv)

end Gets

/-! ## Puts -/

/-- `Put` revokes leases of its key with the mutex of the key held. -/
structure PutsOk (s : Cluster) : Prop where
  lease : ∀ key vs host l, s.server.keyValueStore key = some vs →
    vs.leaseGranted.lookup host = some l →
    l.validSeconds = leaseSeconds + leaseGuardSeconds ∧ l.startFrom ≤ s.clock
  busy : ∀ (p : Nat) (call : PutCall), s.puts[p]? = some call → call.rpc.busy = true →
    s.server.keyValueMutex call.key = some p
  within : ∀ (p : Nat) (call : PutCall), s.puts[p]? = some call → call.rpc.busy = true →
    ∃ vs, s.server.keyValueStore call.key = some vs ∧ call.rpc.Within vs.leaseGranted

section Puts

variable {s s' : Cluster}

/-- No request revokes leases of a key whose mutex is free. -/
theorem PutsOk.not_busy (h : PutsOk s) {p : Nat} {call : PutCall} (hp : s.puts[p]? = some call)
    (hfree : s.serverFree call.key = true) : call.rpc.busy = false := by
  by_contra hb
  have hm := h.busy p call hp (Bool.eq_true_of_not_eq_false hb)
  rw [Cluster.serverFree, hm] at hfree
  cases hfree

theorem PutsOk.frame (h : PutsOk s) (hputs : s'.puts = s.puts) (hserver : s'.server = s.server)
    (hclock : s.clock ≤ s'.clock) : PutsOk s' where
  lease key vs host l hvs hl := by
    rw [hserver] at hvs
    obtain ⟨hvalid, hpast⟩ := h.lease key vs host l hvs hl
    exact ⟨hvalid, le_trans hpast hclock⟩
  busy p call hp := by
    rw [hserver]
    exact h.busy p call (hputs ▸ hp)
  within p call hp := by
    rw [hserver]
    exact h.within p call (hputs ▸ hp)

/-- A request moves, with the stored values as they are. -/
theorem PutsOk.move (h : PutsOk s) {p : Nat} {call : PutCall} (hputs : s'.puts = s.puts.set p call)
    (hclock : s'.clock = s.clock) (hstore : s'.server.keyValueStore = s.server.keyValueStore)
    (hmutex : ∀ p', p' ≠ p → ∀ key, s.server.keyValueMutex key = some p' →
      s'.server.keyValueMutex key = some p')
    (hbusy : call.rpc.busy = true → s'.server.keyValueMutex call.key = some p ∧
      ∃ vs, s.server.keyValueStore call.key = some vs ∧ call.rpc.Within vs.leaseGranted) :
    PutsOk s' where
  lease := by
    rw [hstore, hclock]
    exact h.lease
  busy p' call' hp' hb := by
    rw [hputs] at hp'
    rcases getElem?_moved hp' with ⟨hne, hp'⟩ | ⟨rfl, rfl⟩
    · exact hmutex p' hne _ (h.busy p' call' hp' hb)
    · exact (hbusy hb).1
  within p' call' hp' hb := by
    rw [hstore]
    rw [hputs] at hp'
    rcases getElem?_moved hp' with ⟨-, hp'⟩ | ⟨-, rfl⟩
    · exact h.within p' call' hp' hb
    · exact (hbusy hb).2

theorem PutsOk.serve (h : PutsOk s) {key : Key} {wantLease : Bool} {host : HostPort}
    (hfree : s.serverFree key = true) (hputs : s'.puts = s.puts) (hclock : s'.clock = s.clock)
    (hserver : s'.server = (s.server.get s.clock key wantLease host).1) : PutsOk s' := by
  obtain ⟨hmutex, hothers, hkey⟩ :=
    @get_store s.server s.clock key wantLease host
  rw [← hserver] at hmutex hothers hkey
  refine ⟨fun k vs' host' l hvs' hl => ?_, fun p call hp hb => ?_, fun p call hp hb => ?_⟩
  · rw [hclock]
    by_cases hk : k = key
    · subst hk
      obtain ⟨vs, hvs, -, hgrant⟩ := hkey vs' hvs'
      rcases hgrant with hsame | ⟨-, hgrant⟩
      · rw [hsame] at hl
        exact h.lease k vs host' l hvs hl
      · rw [hgrant] at hl
        rcases grant_lookup hl with hl | rfl
        · exact h.lease k vs host' l hvs hl
        · exact ⟨rfl, le_refl _⟩
    · rw [hothers k hk] at hvs'
      exact h.lease k vs' host' l hvs' hl
  · rw [hmutex]
    exact h.busy p call (hputs ▸ hp) hb
  · rw [hputs] at hp
    have hk : call.key ≠ key := by
      rintro rfl
      rw [h.not_busy hp hfree] at hb
      cases hb
    rw [hothers _ hk]
    exact h.within p call hp hb

theorem PutsOk.install (h : PutsOk s) {p : Nat} {call : PutCall}
    (hlocked : s.serverFree call.key = true ∨ s.server.keyValueMutex call.key = some p) :
    PutsOk (s.installPut p call) := by
  -- no other request is at work on the key
  have hother : ∀ (p' : Nat) (call' : PutCall), p' ≠ p → s.puts[p']? = some call' →
      call'.rpc.busy = true → call'.key ≠ call.key := by
    intro p' call' hne hp' hb hk
    have hm := h.busy p' call' hp' hb
    rw [hk] at hm
    rcases hlocked with hfree | hmine
    · rw [Cluster.serverFree, hm] at hfree
      cases hfree
    · rw [hm] at hmine
      exact hne (Option.some.inj hmine)
  refine ⟨fun k vs host l hvs hl => ?_, fun p' call' hp' hb => ?_, fun p' call' hp' hb => ?_⟩
  · simp only [Cluster.installPut, Cluster.setPut, StorageServer.install,
      Function.update_apply] at hvs
    split at hvs
    · cases hvs
      rw [AList.lookup_empty] at hl
      cases hl
    · exact h.lease k vs host l hvs hl
  · rcases getElem?_moved hp' with ⟨hne, hp'⟩ | ⟨-, rfl⟩
    · simp only [Cluster.installPut, Cluster.setPut, StorageServer.install,
        Function.update_of_ne (hother p' call' hne hp' hb)]
      exact h.busy p' call' hp' hb
    · cases hb
  · rcases getElem?_moved hp' with ⟨hne, hp'⟩ | ⟨-, rfl⟩
    · simp only [Cluster.installPut, Cluster.setPut, StorageServer.install,
        Function.update_of_ne (hother p' call' hne hp' hb)]
      exact h.within p' call' hp' hb
    · cases hb

/-- A request that installs its value has the key to itself. -/
theorem PutsOk.locked (h : PutsOk s) {p : Nat} {call : PutCall} (hp : s.puts[p]? = some call)
    (hrpc : (call.rpc = .sent ∧ s.serverFree call.key = true ∧
        s.server.keyValueStore call.key = none) ∨
      ∃ todo, call.rpc = .revoking todo ∧ todo.keys = []) :
    s.serverFree call.key = true ∨ s.server.keyValueMutex call.key = some p := by
  rcases hrpc with ⟨-, hfree, -⟩ | ⟨todo, hrpc, -⟩
  · exact .inl hfree
  · exact .inr (h.busy p call hp (by rw [hrpc]; rfl))

theorem PutsOk.step (h : PutsOk s) (hev : Event s s') : PutsOk s' := by
  cases hev with
  | tick d => exact h.frame rfl rfl (by simp only; omega)
  | newGet | lib | readClock | hit | miss | giveUp | receive | failGet =>
    exact h.frame rfl rfl (le_refl _)
  | newPut host key value =>
    refine ⟨h.lease, fun p call hp hb => ?_, fun p call hp hb => ?_⟩ <;>
      rcases getElem?_started hp with hp | ⟨-, rfl⟩
    · exact h.busy p call hp hb
    · cases hb
    · exact h.within p call hp hb
    · cases hb
  | serve hg hrpc hfree => exact h.serve hfree rfl rfl rfl
  | enterPut hp hpc hpc' hrpc hls =>
    refine h.move rfl rfl rfl (fun _ _ _ hm => hm) fun hb => ?_
    rename_i p call ls pc rpc
    rcases hrpc with rfl | rfl
    · cases hb
    · exact ⟨h.busy p call hp hb, h.within p call hp hb⟩
  | putPc hp hpc hdone =>
    rename_i p call pc
    exact h.move rfl rfl rfl (fun _ _ _ hm => hm) fun hb =>
      ⟨h.busy p call hp hb, h.within p call hp hb⟩
  | lockPut hp hrpc hfree hstore =>
    rename_i p call vs
    refine h.move rfl rfl rfl (fun p' hne key hm => ?_) fun _ =>
      ⟨Function.update_self .., vs, hstore, fun _ _ hl => hl⟩
    refine (Function.update_of_ne ?_ ..).trans hm
    rintro rfl
    rw [Cluster.serverFree, hm] at hfree
    cases hfree
  | install hp hrpc => exact h.install (h.locked hp hrpc)
  | goOn hp hgo hstore hmutex =>
    rename_i p call rpc server
    refine h.move rfl rfl hstore (fun _ _ _ hm => ?_) fun _ => ⟨?_, ?_⟩
    · simp only [Cluster.setPut, hmutex]
      exact hm
    · simp only [Cluster.setPut, hmutex]
      exact h.busy p call hp hgo.busy
    · obtain ⟨vs, hvs, hw⟩ := h.within p call hp hgo.busy
      exact ⟨vs, hvs, hgo.within _ hw⟩
  | dialFailed hp hbusy =>
    refine h.move rfl rfl rfl (fun p' hne key hm => ?_) nofun
    refine (Function.update_of_ne ?_ ..).trans hm
    rintro rfl
    rw [h.busy _ _ hp hbusy] at hm
    exact hne (Option.some.inj hm).symm
  | revoked hp hrpc hfree =>
    rename_i p call todo hostport validUntil
    have hb : call.rpc.busy = true := by
      rw [hrpc]
      rfl
    refine h.move rfl rfl rfl (fun _ _ _ hm => hm) fun _ => ⟨h.busy p call hp hb, ?_⟩
    obtain ⟨vs, hvs, hw⟩ := h.within p call hp hb
    rw [hrpc] at hw
    exact ⟨vs, hvs, hw⟩

end Puts

end Cmu440.Tribbler
