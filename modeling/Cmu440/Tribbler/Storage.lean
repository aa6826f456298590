import Cmu440.Tribbler.Libstore
import Mathlib.Data.List.AList

/-!
# The storage server

p2/src/github.com/cmu440/tribbler/storageserver/storageserver_impl.go: the
values of the server that owns the keys, with the leases it has granted. `Get`
runs with the mutex of its key held and never waits inside, so it is one
function of the server and the time. `Put` waits while it revokes leases; its
pieces are put together in `Tribbler.System`.

`leaseGranted` is a finite map from host and port to a lease. A `range` over it
takes the entries in any order.
-/
namespace Cmu440.Tribbler

abbrev LeaseMap := AList fun _ : HostPort => Lease

/-- mirrors storageserver_impl.go:31-34 -/
structure ValueStore where
  value : String
  leaseGranted : LeaseMap

/-- mirrors storageserver_impl.go:41-56. `keyValueMutex` holds the number of the
`Put` that has the mutex of the key, `clientCacheMutex` whether the mutex is
locked between two steps. -/
structure StorageServer where
  keyValueStore : Key → Option ValueStore
  keyValueMutex : Key → Option Nat
  clientCache : HostPort → Bool
  clientCacheMutex : HostPort → Bool

/-- mirrors storageserver_impl.go:485-509 -/
def grantLeaseIfNecessary (now : Int) (hostPort : HostPort) (leaseGranted : LeaseMap) :
    LeaseMap × ReplyLease :=
  match leaseGranted.lookup hostPort with
  | some prevLease =>
    if prevLease.validUntil < now then
      (leaseGranted.insert hostPort ⟨now, leaseSeconds + leaseGuardSeconds⟩, ⟨true, leaseSeconds⟩)
    else (leaseGranted, ⟨false, 0⟩)
  | none =>
    (leaseGranted.insert hostPort ⟨now, leaseSeconds + leaseGuardSeconds⟩, ⟨true, leaseSeconds⟩)

namespace StorageServer

/-- mirrors storageserver_impl.go:67-82 -/
def newStorageServer : StorageServer where
  keyValueStore _ := none
  keyValueMutex _ := none
  clientCache _ := false
  clientCacheMutex _ := false

/-- `Get` with the mutex of the key held. mirrors storageserver_impl.go:238-250 -/
def get (ss : StorageServer) (now : Int) (key : Key) (wantLease : Bool) (hostPort : HostPort) :
    StorageServer × GetReply :=
  match ss.keyValueStore key with
  | none => (ss, ⟨.keyNotFound, "", ⟨false, 0⟩⟩)
  | some valueStore =>
    if wantLease then
      let r := grantLeaseIfNecessary now hostPort valueStore.leaseGranted
      ({ ss with
          keyValueStore := Function.update ss.keyValueStore key
            (some { valueStore with leaseGranted := r.1 }) }, ⟨.ok, valueStore.value, r.2⟩)
    else (ss, ⟨.ok, valueStore.value, ⟨false, 0⟩⟩)

/-- The new value, when no lease is in the way; the mutex of the key is
released. mirrors storageserver_impl.go:318-330 -/
def install (ss : StorageServer) (key : Key) (value : String) : StorageServer :=
  { ss with
    keyValueStore := Function.update ss.keyValueStore key (some ⟨value, ∅⟩)
    keyValueMutex := Function.update ss.keyValueMutex key none }

end StorageServer

/-! ## What a grant does to the leases -/

section Grant

variable {now : Int} {hostPort : HostPort} {leaseGranted : LeaseMap}

/-- A lease that is granted is recorded for the holder, from now on. -/
theorem grant_recorded (h : (grantLeaseIfNecessary now hostPort leaseGranted).2.granted = true) :
    (grantLeaseIfNecessary now hostPort leaseGranted).1.lookup hostPort =
        some ⟨now, leaseSeconds + leaseGuardSeconds⟩ ∧
      (grantLeaseIfNecessary now hostPort leaseGranted).2.validSeconds = leaseSeconds := by
  unfold grantLeaseIfNecessary at h ⊢
  split at h
  · split at h
    · rename_i hexp
      rw [if_pos hexp]
      exact ⟨AList.lookup_insert _, rfl⟩
    · cases h
  · exact ⟨AList.lookup_insert _, rfl⟩

/-- Every recorded lease was recorded before, or is the new one. -/
theorem grant_lookup {host : HostPort} {l : Lease}
    (h : (grantLeaseIfNecessary now hostPort leaseGranted).1.lookup host = some l) :
    leaseGranted.lookup host = some l ∨ l = ⟨now, leaseSeconds + leaseGuardSeconds⟩ := by
  have key : ∀ {l' : Lease}, (leaseGranted.insert hostPort l').lookup host = some l →
      leaseGranted.lookup host = some l ∨ l = l' := by
    intro l' hl
    by_cases hh : host = hostPort
    · subst hh
      rw [AList.lookup_insert] at hl
      exact .inr (Option.some.inj hl).symm
    · rw [AList.lookup_insert_ne hh] at hl
      exact .inl hl
  unfold grantLeaseIfNecessary at h
  split at h
  · split at h
    · exact key h
    · exact .inl h
  · exact key h

/-- A recorded lease stays, or is replaced by a later one after it expired. -/
theorem grant_kept {host : HostPort} {l : Lease} (h : leaseGranted.lookup host = some l)
    (hpast : l.startFrom ≤ now) :
    ∃ l', (grantLeaseIfNecessary now hostPort leaseGranted).1.lookup host = some l' ∧
      l.startFrom ≤ l'.startFrom := by
  by_cases hh : host = hostPort
  · subst hh
    unfold grantLeaseIfNecessary
    simp only [h]
    split
    · exact ⟨_, AList.lookup_insert _, hpast⟩
    · exact ⟨l, h, le_refl _⟩
  · refine ⟨l, ?_, le_refl _⟩
    unfold grantLeaseIfNecessary
    split
    · split
      · rw [AList.lookup_insert_ne hh]
        exact h
      · exact h
    · rw [AList.lookup_insert_ne hh]
      exact h

end Grant

/-! ## What `Get` does to the stored values -/

section Get

variable {ss : StorageServer} {now : Int} {key : Key} {wantLease : Bool} {host : HostPort}

/-- Only leases are added. -/
theorem get_store :
    (ss.get now key wantLease host).1.keyValueMutex = ss.keyValueMutex ∧
      (∀ k, k ≠ key → (ss.get now key wantLease host).1.keyValueStore k = ss.keyValueStore k) ∧
      ∀ vs', (ss.get now key wantLease host).1.keyValueStore key = some vs' →
        ∃ vs, ss.keyValueStore key = some vs ∧ vs'.value = vs.value ∧
          (vs'.leaseGranted = vs.leaseGranted ∨ wantLease = true ∧
            vs'.leaseGranted = (grantLeaseIfNecessary now host vs.leaseGranted).1) := by
  unfold StorageServer.get
  split
  · exact ⟨rfl, fun _ _ => rfl, fun vs' hvs' => ⟨vs', hvs', rfl, .inl rfl⟩⟩
  · rename_i vs hvs
    split
    · rename_i hw
      refine ⟨rfl, fun k hk => Function.update_of_ne hk .., fun vs' hvs' => ?_⟩
      simp only [Function.update_self, Option.some.injEq] at hvs'
      subst hvs'
      exact ⟨vs, hvs, rfl, .inr ⟨hw, rfl⟩⟩
    · exact ⟨rfl, fun _ _ => rfl, fun vs' hvs' => ⟨vs', hvs', rfl, .inl rfl⟩⟩

/-- The recorded leases stay, or make room for later ones. -/
theorem get_kept {vs : ValueStore} (hvs : ss.keyValueStore key = some vs) :
    ∃ vs', (ss.get now key wantLease host).1.keyValueStore key = some vs' ∧
      ∀ h l, vs.leaseGranted.lookup h = some l → l.startFrom ≤ now →
        ∃ l', vs'.leaseGranted.lookup h = some l' ∧ l.startFrom ≤ l'.startFrom := by
  unfold StorageServer.get
  simp only [hvs]
  split
  · exact ⟨_, Function.update_self .., fun h l hl hpast => grant_kept hl hpast⟩
  · exact ⟨vs, hvs, fun h l hl _ => ⟨l, hl, le_refl _⟩⟩

/-- A lease that comes with the reply is recorded. -/
theorem get_granted (h : (ss.get now key wantLease host).2.lease.granted = true) :
    (ss.get now key wantLease host).2.lease.validSeconds = leaseSeconds ∧
      ∃ vs, (ss.get now key wantLease host).1.keyValueStore key = some vs ∧
        vs.leaseGranted.lookup host = some ⟨now, leaseSeconds + leaseGuardSeconds⟩ := by
  unfold StorageServer.get at h ⊢
  split at h
  · cases h
  · split at h
    · rename_i hw
      obtain ⟨hrec, hvalid⟩ := grant_recorded h
      simp only [hw, if_true]
      exact ⟨hvalid, _, Function.update_self .., hrec⟩
    · cases h

theorem get_ok (h : (ss.get now key wantLease host).2.status = .ok) :
    ∃ vs, ss.keyValueStore key = some vs ∧
      (ss.get now key wantLease host).2.value = vs.value := by
  unfold StorageServer.get at h ⊢
  split at h
  · cases h
  · rename_i vs hvs
    refine ⟨vs, hvs, ?_⟩
    split <;> rfl

end Get

end Cmu440.Tribbler
