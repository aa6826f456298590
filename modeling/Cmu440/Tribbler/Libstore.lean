import Mathlib.Algebra.Order.Ring.Int
import Mathlib.Logic.Function.Basic

/-!
# The libstore

p2/src/github.com/cmu440/tribbler/libstore/libstore_impl.go and the types of
rpc/storagerpc/proto.go. The libstore caches values it has a lease for. Here
are the pieces of `Get`, `Put`, `RevokeLease`, `deleteinvalid` and `deletelist`
between two points where other goroutines can get in: each runs with the mutex
of its key held, so it is a function from the libstore to the libstore.

* A Go map is a function into `Option`. `time.Time` counts nanoseconds.
* `clientmap` has an entry for the one storage server or not.
* `keylist` is the cache of `GetList`; `RevokeLease` looks at both caches.
-/
namespace Cmu440.Tribbler

abbrev Key := String

abbrev HostPort := String

/-! ## rpc/storagerpc/proto.go -/

inductive Status
  | ok
  | keyNotFound
  | itemNotFound
  | wrongServer
  | itemExists
  | notReady
  deriving DecidableEq, Repr

def queryCacheSeconds : Int := 10

def queryCacheThresh : Nat := 3

def leaseSeconds : Int := 10

def leaseGuardSeconds : Int := 2

structure ReplyLease where
  granted : Bool
  validSeconds : Int
  deriving DecidableEq, Repr

structure GetReply where
  status : Status
  value : String
  lease : ReplyLease
  deriving DecidableEq, Repr

/-- `startFrom.Add(time.Duration(seconds) * time.Second)` -/
def addSeconds (t : Int) (seconds : Int) : Int := t + seconds * 1000000000

/-! ## The libstore -/

inductive LeaseMode
  | never
  | normal
  | always
  deriving DecidableEq, Repr

/-- mirrors libstore_impl.go:18-21 and storageserver_impl.go:26-29 -/
structure Lease where
  startFrom : Int
  validSeconds : Int
  deriving DecidableEq, Repr

/-- mirrors libstore_impl.go:257 and storageserver_impl.go:490, 514 -/
def Lease.validUntil (l : Lease) : Int := addSeconds l.startFrom l.validSeconds

/-- mirrors libstore_impl.go:23-26 -/
structure ValueLib where
  value : String
  lease : Lease
  deriving DecidableEq, Repr

/-- mirrors libstore_impl.go:28-31 -/
structure ListLib where
  list : List String
  lease : Lease
  deriving DecidableEq, Repr

/-- mirrors libstore_impl.go:33-48. `keyValueMutex` holds the number of the
`Get` that has the mutex of the key; `looked` is the entry at which the loop of
`deleteinvalid` stands, with the time the loop works with. -/
structure Libstore where
  keyValue : Key → Option ValueLib
  keylist : Key → Option ListLib
  keyValudhistory : Key → Option (List Int)
  keyValueMutex : Key → Option Nat
  mode : LeaseMode
  connected : Bool
  looked : Option (Int × Key × ValueLib)

namespace Libstore

/-- mirrors libstore_impl.go:105-121; `NewLibstore` has dialled the master,
which need not be the server of the key -/
def newLibstore (mode : LeaseMode) (connected : Bool) : Libstore where
  keyValue _ := none
  keylist _ := none
  keyValudhistory _ := none
  keyValueMutex _ := none
  mode := mode
  connected := connected
  looked := none

/-- The loop that drops old queries.
mirrors libstore_impl.go:191-197 and 266-279 -/
def trim (now : Int) : List Int → List Int
  | [] => []
  | e :: list =>
    if now < addSeconds e queryCacheSeconds ∧ (e :: list).length ≤ queryCacheThresh then e :: list
    else trim now list

/-- The cached value, unless its lease has expired. mirrors libstore_impl.go:253-263 -/
def cached (ls : Libstore) (key : Key) (now : Int) : Option ValueLib :=
  match ls.keyValue key with
  | some value => if value.lease.validUntil < now then none else some value
  | none => none

/-- `Get` up to the use of the cache or the call of the server.
mirrors libstore_impl.go:253-282 -/
def lookup (ls : Libstore) (key : Key) (now : Int) : Libstore :=
  { ls with
    keyValue := Function.update ls.keyValue key (ls.cached key now)
    keyValudhistory := Function.update ls.keyValudhistory key
      ((ls.keyValudhistory key).map fun list => trim now list ++ [now]) }

/-- `want`, after the query has been recorded. mirrors libstore_impl.go:288-294 -/
def wantLease (ls : Libstore) (key : Key) : Bool :=
  match ls.mode with
  | .never => false
  | .always => true
  | .normal => (ls.keyValudhistory key).any fun list => decide (list.length ≥ queryCacheThresh)

/-- `Get` after the call has returned; `now` was read when `Get` began.
mirrors libstore_impl.go:320-334 -/
def receive (ls : Libstore) (key : Key) (now : Int) (reply : GetReply) :
    Libstore × Option String :=
  if reply.status = .ok then
    (if reply.lease.granted then
      { ls with
        keyValue := Function.update ls.keyValue key
          (some ⟨reply.value, ⟨now, reply.lease.validSeconds⟩⟩) }
    else ls, some reply.value)
  else (ls, none)

/-- `Put` before it calls the server. mirrors libstore_impl.go:340-346 -/
def startHistory (ls : Libstore) (key : Key) : Libstore :=
  { ls with
    keyValudhistory := Function.update ls.keyValudhistory key
      (some ((ls.keyValudhistory key).getD [])) }

/-- mirrors libstore_impl.go:539-562 -/
def revokeLease (ls : Libstore) (key : Key) : Libstore × Status :=
  if (ls.keyValue key).isSome then
    ({ ls with keyValue := Function.update ls.keyValue key none }, .ok)
  else if (ls.keylist key).isSome then
    ({ ls with keylist := Function.update ls.keylist key none }, .ok)
  else (ls, .keyNotFound)

/-- The rest of an iteration of `deleteinvalid`, which looks at the entry it has
found, not at the one that is there now. mirrors libstore_impl.go:160-168 -/
def deleteinvalid (ls : Libstore) (now : Int) (key : Key) (value : ValueLib) : Libstore :=
  if value.lease.validUntil < now then
    { ls with keyValue := Function.update ls.keyValue key none, looked := none }
  else { ls with looked := none }

/-- An iteration of `deletelist`. mirrors libstore_impl.go:188-199 -/
def deletelist (ls : Libstore) (now : Int) (key : Key) : Libstore :=
  { ls with
    keyValudhistory := Function.update ls.keyValudhistory key
      ((ls.keyValudhistory key).map (trim now)) }

/-! ## What the pieces do to the cached value -/

variable {ls : Libstore} {key : Key} {now : Int}

theorem cached_eq_some {value : ValueLib} (h : ls.cached key now = some value) :
    ls.keyValue key = some value ∧ now ≤ value.lease.validUntil := by
  unfold cached at h
  split at h
  · rename_i v hv
    split at h
    · cases h
    · rename_i hle
      cases h
      exact ⟨hv, not_lt.mp hle⟩
  · cases h

/-- `Get` keeps a copy or drops it. -/
theorem lookup_keyValue {k : Key} {value : ValueLib}
    (h : (ls.lookup key now).keyValue k = some value) : ls.keyValue k = some value := by
  unfold lookup at h
  simp only [Function.update_apply] at h
  split at h
  · rename_i hk
    rw [hk]
    exact (cached_eq_some h).1
  · exact h

theorem revokeLease_keyValue {k : Key} {value : ValueLib}
    (h : (ls.revokeLease key).1.keyValue k = some value) :
    k ≠ key ∧ ls.keyValue k = some value := by
  unfold revokeLease at h
  split at h
  · simp only [Function.update_apply] at h
    split at h
    · cases h
    · rename_i hk
      exact ⟨hk, h⟩
  · rename_i hnone
    have hk : ls.keyValue k = some value := by
      split at h <;> exact h
    refine ⟨?_, hk⟩
    rintro rfl
    rw [hk] at hnone
    exact hnone rfl

theorem revokeLease_mutex : (ls.revokeLease key).1.keyValueMutex = ls.keyValueMutex := by
  unfold revokeLease
  split
  · rfl
  · split <;> rfl

theorem deleteinvalid_keyValue {v value : ValueLib} {k : Key}
    (h : (ls.deleteinvalid now key v).keyValue k = some value) : ls.keyValue k = some value := by
  unfold deleteinvalid at h
  split at h
  · simp only [Function.update_apply] at h
    split at h
    · cases h
    · exact h
  · exact h

theorem deleteinvalid_mutex {v : ValueLib} :
    (ls.deleteinvalid now key v).keyValueMutex = ls.keyValueMutex := by
  unfold deleteinvalid
  split <;> rfl

/-- The copy a granted reply leaves in the cache. -/
theorem receive_keyValue {reply : GetReply} {k : Key} {value : ValueLib}
    (h : (ls.receive key now reply).1.keyValue k = some value) :
    (ls.keyValue k = some value) ∨ (k = key ∧ reply.status = .ok ∧ reply.lease.granted = true ∧
      value = ⟨reply.value, ⟨now, reply.lease.validSeconds⟩⟩) := by
  unfold receive at h
  split at h
  · rename_i hok
    split at h
    · rename_i hg
      simp only [Function.update_apply] at h
      split at h
      · rename_i hk
        exact .inr ⟨hk, hok, hg, (Option.some.inj h).symm⟩
      · exact .inl h
    · exact .inl h
  · exact .inl h

theorem receive_mutex {reply : GetReply} :
    (ls.receive key now reply).1.keyValueMutex = ls.keyValueMutex := by
  unfold receive
  split
  · split <;> rfl
  · rfl

end Libstore

end Cmu440.Tribbler
