import Cmu440.Tribbler.System

/-!
# What a step does

`Event` lists what one step can do to the caches, the leases and the calls,
with what is known when it happens (`event_of_step`). The steps of the loop
that revokes leases are told apart only by what they leave to be revoked
(`PutRpc.GoesOn`).
-/
namespace Cmu440.Tribbler

/-! ## Revocation -/

namespace PutRpc

/-- The request has the mutex of the key. -/
def busy : PutRpc → Bool
  | .revoking _ | .dialing _ _ _ | .waiting _ _ _ _ => true
  | _ => false

/-- The lease of `host` has not been dealt with. -/
def Pending (host : HostPort) : PutRpc → Prop
  | .revoking todo => (todo.lookup host).isSome
  | .dialing todo hostport _ => hostport = host ∨ (todo.lookup host).isSome
  | .waiting todo hostport _ acked => (hostport = host ∧ acked = false) ∨ (todo.lookup host).isSome
  | _ => False

/-- What is to be revoked are leases of `leaseGranted`. -/
def Within (leaseGranted : LeaseMap) : PutRpc → Prop
  | .revoking todo => ∀ h l, todo.lookup h = some l → leaseGranted.lookup h = some l
  | .dialing todo hostport validUntil | .waiting todo hostport validUntil _ =>
    (∀ h l, todo.lookup h = some l → leaseGranted.lookup h = some l) ∧
      ∃ l, leaseGranted.lookup hostport = some l ∧ validUntil = l.validUntil
  | _ => True

/-- The loop goes on from `rpc` to `rpc'` at time `now`, with all leases still in
place: what it has dealt with has run out. -/
structure GoesOn (now : Int) (rpc rpc' : PutRpc) : Prop where
  busy : rpc.busy = true
  busy' : rpc'.busy = true
  within : ∀ m, rpc.Within m → rpc'.Within m
  pending : ∀ m, rpc.Within m → ∀ h l, m.lookup h = some l → rpc.Pending h →
    rpc'.Pending h ∨ l.validUntil ≤ now

end PutRpc

theorem lookup_of_erase {todo : LeaseMap} {hostport h : HostPort} {l : Lease}
    (hl : (todo.erase hostport).lookup h = some l) : todo.lookup h = some l := by
  by_cases hh : h = hostport
  · subst hh
    rw [AList.lookup_erase] at hl
    cases hl
  · rw [AList.lookup_erase_ne hh] at hl
    exact hl

/-- The loop takes the lease of `hostport`. -/
theorem goesOn_next {now : Int} {todo : LeaseMap} {hostport : HostPort} {l : Lease}
    (hl : todo.lookup hostport = some l) :
    PutRpc.GoesOn now (.revoking todo) (if now < l.validUntil then
      .dialing (todo.erase hostport) hostport l.validUntil else .revoking (todo.erase hostport)) := by
  have hrest : ∀ h, h ≠ hostport → (todo.lookup h).isSome →
      ((todo.erase hostport).lookup h).isSome := by
    intro h hh hsome
    rw [AList.lookup_erase_ne hh]
    exact hsome
  refine ⟨rfl, by split <;> rfl, fun m hm => ?_, fun m hm h l' hl' hpend => ?_⟩
  · split
    · exact ⟨fun h l' hl' => hm h l' (lookup_of_erase hl'), l, hm _ _ hl, rfl⟩
    · exact fun h l' hl' => hm h l' (lookup_of_erase hl')
  · by_cases hh : h = hostport
    · subst hh
      split
      · exact .inl (.inl rfl)
      · rename_i hexp
        rw [hm _ _ hl] at hl'
        cases hl'
        exact .inr (not_lt.mp hexp)
    · split
      · exact .inl (.inr (hrest h hh hpend))
      · exact .inl (hrest h hh hpend)

theorem goesOn_dialled {now : Int} {todo : LeaseMap} {hostport : HostPort} {validUntil : Int} :
    PutRpc.GoesOn now (.dialing todo hostport validUntil)
      (.waiting todo hostport validUntil false) :=
  ⟨rfl, rfl, fun _ hm => hm, fun _ _ _ _ _ hpend => .inl (hpend.imp_left fun he => ⟨he, rfl⟩)⟩

/-- The loop stops waiting. -/
theorem goesOn_woken {now : Int} {todo : LeaseMap} {hostport : HostPort} {validUntil : Int}
    {acked : Bool} (hwake : acked = true ∨ validUntil ≤ now) :
    PutRpc.GoesOn now (.waiting todo hostport validUntil acked) (.revoking todo) := by
  refine ⟨rfl, rfl, fun _ hm => hm.1, fun m hm h l hl hpend => ?_⟩
  rcases hpend with ⟨rfl, hacked⟩ | hpend
  · obtain ⟨l', hl', rfl⟩ := hm.2
    rw [hl] at hl'
    cases hl'
    rcases hwake with hwake | hwake
    · rw [hacked] at hwake
      cases hwake
    · exact .inr hwake
  · exact .inl hpend

/-! ## Events -/

/-- The libstore has the mutexes it had, and no new copy. -/
structure NoNewCopy (ls ls' : Libstore) : Prop where
  mutex : ls'.keyValueMutex = ls.keyValueMutex
  keyValue : ∀ k value, ls'.keyValue k = some value → ls.keyValue k = some value

inductive Event (s : Cluster) : Cluster → Prop
  | tick (d : Nat) : Event s { s with clock := s.clock + d }
  | newGet (host : HostPort) (key : Key) :
      Event s { s with gets := s.gets ++ [⟨host, key, .invoked, .idle⟩] }
  | newPut (host : HostPort) (key : Key) (value : String) :
      Event s { s with puts := s.puts ++ [⟨host, key, value, .invoked, .idle⟩] }
  | lib {host : HostPort} {ls : Libstore} (hls : NoNewCopy (s.libstores host) ls) :
      Event s (s.setLib host ls)
  | readClock {g : Nat} {call : GetCall} (hg : s.gets[g]? = some call) (hpc : call.pc = .invoked) :
      Event s (s.setGet g { call with pc := .locking s.clock })
  | hit {g : Nat} {call : GetCall} {now : Int} {ls : Libstore} {value : ValueLib}
      (hg : s.gets[g]? = some call) (hpc : call.pc = .locking now)
      (hls : NoNewCopy (s.libstores call.host) ls)
      (hvalue : (s.libstores call.host).keyValue call.key = some value)
      (hlive : now ≤ value.lease.validUntil) :
      Event s ((s.setLib call.host ls).setGet g { call with pc := .returned value.value })
  | miss {g : Nat} {call : GetCall} {now : Int} {ls : Libstore} {wantLease : Bool}
      (hg : s.gets[g]? = some call) (hpc : call.pc = .locking now)
      (hfree : s.free call.host call.key = true) (hls : NoNewCopy (s.libstores call.host) ls) :
      Event s (((s.setLib call.host ls).setMutex call.host call.key (some g)).setGet g
        { call with pc := .calling now, rpc := .sent wantLease })
  | giveUp {g : Nat} {call : GetCall} {now : Int} {ls : Libstore}
      (hg : s.gets[g]? = some call) (hpc : call.pc = .locking now)
      (hls : NoNewCopy (s.libstores call.host) ls) :
      Event s ((s.setLib call.host ls).setGet g { call with pc := .failed })
  | serve {g : Nat} {call : GetCall} {wantLease : Bool} (hg : s.gets[g]? = some call)
      (hrpc : call.rpc = .sent wantLease) (hfree : s.serverFree call.key = true) :
      Event s ({ s with server := (s.server.get s.clock call.key wantLease call.host).1 }.setGet g
        { call with rpc := .replied (s.server.get s.clock call.key wantLease call.host).2 })
  | receive {g : Nat} {call : GetCall} {now : Int} {reply : GetReply}
      (hg : s.gets[g]? = some call) (hpc : call.pc = .calling now)
      (hrpc : call.rpc = .replied reply) : Event s (s.receiveGet g call now reply)
  | failGet {g : Nat} {call : GetCall} {now : Int} (hg : s.gets[g]? = some call)
      (hpc : call.pc = .calling now) :
      Event s ((s.setMutex call.host call.key none).setGet g { call with pc := .failed })
  | enterPut {p : Nat} {call : PutCall} {ls : Libstore} {pc : PutPc} {rpc : PutRpc}
      (hp : s.puts[p]? = some call) (hpc : call.pc = .invoked) (hpc' : pc ≠ .returned)
      (hrpc : rpc = .sent ∨ rpc = call.rpc) (hls : NoNewCopy (s.libstores call.host) ls) :
      Event s ((s.setLib call.host ls).setPut p { call with pc := pc, rpc := rpc })
  | putPc {p : Nat} {call : PutCall} {pc : PutPc} (hp : s.puts[p]? = some call)
      (hpc : call.pc = .calling) (hdone : pc = .returned → ∃ i, call.rpc = .done i) :
      Event s (s.setPut p { call with pc := pc })
  | lockPut {p : Nat} {call : PutCall} {valueStore : ValueStore} (hp : s.puts[p]? = some call)
      (hrpc : call.rpc = .sent) (hfree : s.serverFree call.key = true)
      (hstore : s.server.keyValueStore call.key = some valueStore) :
      Event s ({ s with
          server := { s.server with
            keyValueMutex := Function.update s.server.keyValueMutex call.key (some p) } }.setPut p
        { call with rpc := .revoking valueStore.leaseGranted })
  | install {p : Nat} {call : PutCall} (hp : s.puts[p]? = some call)
      (hrpc : (call.rpc = .sent ∧ s.serverFree call.key = true ∧
          s.server.keyValueStore call.key = none) ∨
        ∃ todo, call.rpc = .revoking todo ∧ todo.keys = []) :
      Event s (s.installPut p call)
  | goOn {p : Nat} {call : PutCall} {rpc : PutRpc} {server : StorageServer}
      (hp : s.puts[p]? = some call) (hgo : call.rpc.GoesOn s.clock rpc)
      (hstore : server.keyValueStore = s.server.keyValueStore)
      (hmutex : server.keyValueMutex = s.server.keyValueMutex) :
      Event s ({ s with server := server }.setPut p { call with rpc := rpc })
  | dialFailed {p : Nat} {call : PutCall} {clientCacheMutex : HostPort → Bool}
      (hp : s.puts[p]? = some call) (hbusy : call.rpc.busy = true) :
      Event s ({ s with
          server := { s.server with
            clientCacheMutex := clientCacheMutex
            keyValueMutex := Function.update s.server.keyValueMutex call.key none } }.setPut p
        { call with rpc := .failed })
  | revoked {p : Nat} {call : PutCall} {todo : LeaseMap} {hostport : HostPort} {validUntil : Int}
      (hp : s.puts[p]? = some call) (hrpc : call.rpc = .waiting todo hostport validUntil false)
      (hfree : s.free hostport call.key = true) :
      Event s ((s.setLib hostport ((s.libstores hostport).revokeLease call.key).1).setPut p
        { call with rpc := .waiting todo hostport validUntil true })

theorem noNewCopy_lookup (ls : Libstore) (key : Key) (now : Int) : NoNewCopy ls (ls.lookup key now) :=
  ⟨rfl, fun _ _ => Libstore.lookup_keyValue⟩

theorem noNewCopy_revoke (ls : Libstore) (key : Key) : NoNewCopy ls (ls.revokeLease key).1 :=
  ⟨Libstore.revokeLease_mutex, fun _ _ h => (Libstore.revokeLease_keyValue h).2⟩

theorem event_of_enterGet {s : Cluster} {g : Nat} {call : GetCall} {now : Int} {dial : Bool}
    (hg : s.gets[g]? = some call) (hpc : call.pc = .locking now)
    (hfree : s.free call.host call.key = true) : Event s (s.enterGet g call now dial) := by
  have hls := noNewCopy_lookup (s.libstores call.host) call.key now
  unfold Cluster.enterGet
  simp only
  split
  · rename_i value hvalue
    have hc : (s.libstores call.host).cached call.key now = some value := by
      simpa only [Libstore.lookup, Function.update_self] using hvalue
    exact .hit hg hpc hls (Libstore.cached_eq_some hc).1 (Libstore.cached_eq_some hc).2
  · split
    · exact .miss hg hpc hfree ⟨hls.mutex, hls.keyValue⟩
    · exact .giveUp hg hpc hls

theorem event_of_servePut {s : Cluster} {p : Nat} {call : PutCall} (hp : s.puts[p]? = some call)
    (hrpc : call.rpc = .sent) (hfree : s.serverFree call.key = true) :
    Event s (s.servePut p call) := by
  unfold Cluster.servePut
  split
  · rename_i hnone
    exact .install hp (.inl ⟨hrpc, hfree, hnone⟩)
  · rename_i valueStore hstore
    exact .lockPut hp hrpc hfree hstore

theorem event_of_dialLease {s : Cluster} {p : Nat} {call : PutCall} {todo : LeaseMap}
    {hostport : HostPort} {validUntil : Int} {dial : Bool} (hp : s.puts[p]? = some call)
    (hrpc : call.rpc = .dialing todo hostport validUntil) :
    Event s (s.dialLease p call todo hostport validUntil dial) := by
  unfold Cluster.dialLease
  split
  · exact .goOn hp (hrpc ▸ goesOn_dialled) rfl rfl
  · exact .dialFailed hp (by rw [hrpc]; rfl)

theorem event_of_step {s s' : Cluster} {l : ClusterLbl} (h : s.step l = some s') : Event s s' := by
  cases l with
  | tick d =>
    cases h
    exact .tick d
  | get host key =>
    cases h
    exact .newGet host key
  | put host key value =>
    cases h
    exact .newPut host key value
  | readClock g =>
    simp only [Cluster.step, Option.bind_eq_bind, Option.bind_eq_some_iff] at h
    obtain ⟨call, hg, h⟩ := h
    split at h
    · cases h
      exact .readClock hg ‹_›
    · cases h
  | enterGet g dial =>
    simp only [Cluster.step, Option.bind_eq_bind, Option.bind_eq_some_iff] at h
    obtain ⟨call, hg, h⟩ := h
    split at h
    · split at h
      · cases h
        exact event_of_enterGet hg ‹_› ‹_›
      · cases h
    · cases h
  | serveGet g =>
    simp only [Cluster.step, Option.bind_eq_bind, Option.bind_eq_some_iff] at h
    obtain ⟨call, hg, h⟩ := h
    split at h
    · split at h
      · cases h
        exact .serve hg ‹_› ‹_›
      · cases h
    · cases h
  | receiveGet g =>
    simp only [Cluster.step, Option.bind_eq_bind, Option.bind_eq_some_iff] at h
    obtain ⟨call, hg, h⟩ := h
    split at h
    · cases h
      exact .receive hg ‹_› ‹_›
    · cases h
  | failGet g =>
    simp only [Cluster.step, Option.bind_eq_bind, Option.bind_eq_some_iff] at h
    obtain ⟨call, hg, h⟩ := h
    split at h
    · cases h
      exact .failGet hg ‹_›
    · cases h
  | enterPut p dial =>
    simp only [Cluster.step, Option.bind_eq_bind, Option.bind_eq_some_iff] at h
    obtain ⟨call, hp, h⟩ := h
    split at h
    · split at h
      · split at h
        · cases h
          exact .enterPut hp ‹_› nofun (.inl rfl) ⟨rfl, fun _ _ hv => hv⟩
        · cases h
          exact .enterPut hp ‹_› nofun (.inr rfl) ⟨rfl, fun _ _ hv => hv⟩
      · cases h
    · cases h
  | servePut p =>
    simp only [Cluster.step, Option.bind_eq_bind, Option.bind_eq_some_iff] at h
    obtain ⟨call, hp, h⟩ := h
    split at h
    · split at h
      · cases h
        exact event_of_servePut hp ‹_› ‹_›
      · cases h
    · cases h
  | nextLease p hostport =>
    simp only [Cluster.step, Option.bind_eq_bind, Option.bind_eq_some_iff] at h
    obtain ⟨call, hp, h⟩ := h
    split at h
    · rename_i todo hrpc
      obtain ⟨l, hl, rfl⟩ := Option.map_eq_some_iff.mp h
      exact .goOn hp (hrpc ▸ goesOn_next hl) rfl rfl
    · cases h
  | dialLease p dial =>
    simp only [Cluster.step, Option.bind_eq_bind, Option.bind_eq_some_iff] at h
    obtain ⟨call, hp, h⟩ := h
    split at h
    · split at h
      · cases h
      · cases h
        exact event_of_dialLease hp ‹_›
    · cases h
  | revokeLease p =>
    simp only [Cluster.step, Option.bind_eq_bind, Option.bind_eq_some_iff] at h
    obtain ⟨call, hp, h⟩ := h
    split at h
    · split at h
      · cases h
        exact .revoked hp ‹_› ‹_›
      · cases h
    · cases h
  | wakePut p =>
    simp only [Cluster.step, Option.bind_eq_bind, Option.bind_eq_some_iff] at h
    obtain ⟨call, hp, h⟩ := h
    split at h
    · rename_i hrpc
      split at h
      · rename_i hwake
        cases h
        exact .goOn hp (hrpc ▸ goesOn_woken hwake) rfl rfl
      · cases h
    · cases h
  | installPut p =>
    simp only [Cluster.step, Option.bind_eq_bind, Option.bind_eq_some_iff] at h
    obtain ⟨call, hp, h⟩ := h
    split at h
    · split at h
      · cases h
        exact .install hp (.inr ⟨_, ‹_›, ‹_›⟩)
      · cases h
    · cases h
  | receivePut p =>
    simp only [Cluster.step, Option.bind_eq_bind, Option.bind_eq_some_iff] at h
    obtain ⟨call, hp, h⟩ := h
    split at h
    · cases h
      exact .putPc hp ‹_› fun _ => ⟨_, ‹_›⟩
    · cases h
      exact .putPc hp ‹_› nofun
    · cases h
  | failPut p =>
    simp only [Cluster.step, Option.bind_eq_bind, Option.bind_eq_some_iff] at h
    obtain ⟨call, hp, h⟩ := h
    split at h
    · cases h
      exact .putPc hp ‹_› nofun
    · cases h
  | strayRevoke host key =>
    simp only [Cluster.step] at h
    split at h
    · cases h
      exact .lib (noNewCopy_revoke _ _)
    · cases h
  | sweepLook host key now =>
    simp only [Cluster.step, Option.bind_eq_bind, Option.bind_eq_some_iff] at h
    obtain ⟨value, -, h⟩ := h
    split at h
    · cases h
      exact .lib ⟨rfl, fun _ _ hv => hv⟩
    · cases h
  | sweepDelete host =>
    simp only [Cluster.step, Option.bind_eq_bind, Option.bind_eq_some_iff] at h
    obtain ⟨⟨now, key, value⟩, -, h⟩ := h
    split at h
    · cases h
      exact .lib ⟨Libstore.deleteinvalid_mutex, fun _ _ => Libstore.deleteinvalid_keyValue⟩
    · cases h
  | deletelist host key now =>
    simp only [Cluster.step] at h
    split at h
    · cases h
      exact .lib ⟨rfl, fun _ _ hv => hv⟩
    · cases h
  | cacheList host key entry =>
    cases h
    exact .lib ⟨rfl, fun _ _ hv => hv⟩

end Cmu440.Tribbler
