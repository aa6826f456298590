import Cmu440.Tribbler.Libstore

/-!
# Cached lists

`GetList` of the libstore does to `keylist` what `Get` does to `keyValue`, with
mutexes and a history of queries of its own. The storage server keeps a value
and a list under one key as two entries with leases of their own, so a libstore
can hold a lease for each. There is one `RevokeLease` for both, and its argument
is the key: it drops the cached value if there is one and looks at the list only
otherwise (libstore_impl.go:547-555). With both cached, the list survives the
revocation of its own lease (`cached_list_survives`).
-/
namespace Cmu440.Tribbler

/-- mirrors rpc/storagerpc/proto.go, `GetListReply` -/
structure GetListReply where
  status : Status
  value : List String
  lease : ReplyLease
  deriving DecidableEq, Repr

/-- The libstore with the history `GetList` keeps. mirrors libstore_impl.go:42 -/
structure ListLibstore extends Libstore where
  keyListhistory : Key → Option (List Int)

/-- Where an answer comes from: the cache, or a call of the storage server. -/
inductive Source (α : Type)
  | cache (a : α)
  | server (wantLease : Bool)
  deriving DecidableEq, Repr

/-- `Get` up to its answer from the cache or its call of the server.
mirrors libstore_impl.go:248-301 -/
def Libstore.get (ls : Libstore) (key : Key) (now : Int) : Libstore × Source String :=
  match (ls.lookup key now).keyValue key with
  | some value => (ls.lookup key now, .cache value.value)
  | none => (ls.lookup key now, .server ((ls.lookup key now).wantLease key))

namespace ListLibstore

/-- mirrors libstore_impl.go:105-121 -/
def newLibstore (mode : LeaseMode) (connected : Bool) : ListLibstore :=
  { Libstore.newLibstore mode connected with keyListhistory := fun _ => none }

/-- The cached list, unless its lease has expired. mirrors libstore_impl.go:386-395 -/
def cachedList (ls : ListLibstore) (key : Key) (now : Int) : Option ListLib :=
  match ls.keylist key with
  | some value => if value.lease.validUntil < now then none else some value
  | none => none

/-- mirrors libstore_impl.go:386-409 -/
def lookupList (ls : ListLibstore) (key : Key) (now : Int) : ListLibstore :=
  { ls with
    keylist := Function.update ls.keylist key (ls.cachedList key now)
    keyListhistory := Function.update ls.keyListhistory key
      ((ls.keyListhistory key).map fun list => Libstore.trim now list ++ [now]) }

/-- mirrors libstore_impl.go:414-420 -/
def wantListLease (ls : ListLibstore) (key : Key) : Bool :=
  match ls.mode with
  | .never => false
  | .always => true
  | .normal => (ls.keyListhistory key).any fun list => decide (list.length ≥ queryCacheThresh)

/-- `GetList` up to its answer from the cache or its call of the server.
mirrors libstore_impl.go:381-426 -/
def getList (ls : ListLibstore) (key : Key) (now : Int) : ListLibstore × Source (List String) :=
  match (ls.lookupList key now).keylist key with
  | some value => (ls.lookupList key now, .cache value.list)
  | none => (ls.lookupList key now, .server ((ls.lookupList key now).wantListLease key))

/-- `GetList` after the call has returned; a key without a list reads as the
empty list. mirrors libstore_impl.go:447-462 -/
def receiveList (ls : ListLibstore) (key : Key) (now : Int) (reply : GetListReply) :
    ListLibstore × Option (List String) :=
  match reply.status with
  | .ok =>
    (if reply.lease.granted then
      { ls with
        keylist := Function.update ls.keylist key
          (some ⟨reply.value, ⟨now, reply.lease.validSeconds⟩⟩) }
    else ls, some reply.value)
  | .keyNotFound => (ls, some [])
  | _ => (ls, none)

/-- `Libstore.revokeLease`, which leaves the history alone. -/
def revokeLease (ls : ListLibstore) (key : Key) : ListLibstore × Status :=
  ({ ls with toLibstore := (ls.toLibstore.revokeLease key).1 }, (ls.toLibstore.revokeLease key).2)

/-- `Libstore.receive`, which leaves the history alone. -/
def receive (ls : ListLibstore) (key : Key) (now : Int) (reply : GetReply) : ListLibstore :=
  { ls with toLibstore := (ls.toLibstore.receive key now reply).1 }

end ListLibstore

/-! ## What `RevokeLease` leaves -/

/-- The key is cached as a value and as a list. -/
def Libstore.CachedTwice (ls : Libstore) (key : Key) : Prop :=
  (ls.keyValue key).isSome = true ∧ (ls.keylist key).isSome = true

section

variable {ls : Libstore} {key : Key}

/-- Of a key that is cached twice the list is left, of any other nothing. -/
theorem revokeLease_none_iff :
    (ls.revokeLease key).1.keyValue key = none ∧ (ls.revokeLease key).1.keylist key = none ↔
      ¬ ls.CachedTwice key := by
  unfold Libstore.revokeLease Libstore.CachedTwice
  split
  · rename_i hv
    simp [hv]
  · rename_i hv
    refine iff_of_true ?_ fun h => hv h.1
    rw [Option.not_isSome_iff_eq_none] at hv
    split
    · exact ⟨hv, Function.update_self ..⟩
    · rename_i hl
      exact ⟨hv, Option.not_isSome_iff_eq_none.mp hl⟩

theorem revokeLease_ne {k : Key} (hk : k ≠ key) :
    (ls.revokeLease key).1.keyValue k = ls.keyValue k ∧
      (ls.revokeLease key).1.keylist k = ls.keylist k := by
  unfold Libstore.revokeLease
  split
  · exact ⟨Function.update_of_ne hk .., rfl⟩
  · split
    · exact ⟨rfl, Function.update_of_ne hk ..⟩
    · exact ⟨rfl, rfl⟩

theorem revokeLease_status :
    (ls.revokeLease key).2 = .ok ∨ (ls.revokeLease key).2 = .keyNotFound := by
  unfold Libstore.revokeLease
  split
  · exact .inl rfl
  · split
    · exact .inl rfl
    · exact .inr rfl

/-- Without a cached value `Get` calls the server. -/
theorem get_server (h : ls.keyValue key = none) (now : Int) :
    ∃ want, (ls.get key now).2 = .server want := by
  have hl : (ls.lookup key now).keyValue key = none := by
    simp [Libstore.lookup, Libstore.cached, h]
  unfold Libstore.get
  rw [hl]
  exact ⟨_, rfl⟩

end

/-- Without a cached list `GetList` calls the server. -/
theorem getList_server {ls : ListLibstore} {key : Key} (h : ls.keylist key = none) (now : Int) :
    ∃ want, (ls.getList key now).2 = .server want := by
  have hl : (ls.lookupList key now).keylist key = none := by
    simp [ListLibstore.lookupList, ListLibstore.cachedList, h]
  unfold ListLibstore.getList
  rw [hl]
  exact ⟨_, rfl⟩

/-- Exactly when the key is not cached twice, `RevokeLease` takes it out of both
caches and the next `Get` and the next `GetList` go to the server. No other key
is touched in any case. -/
theorem revokeLease_revokes (ls : ListLibstore) (key : Key) :
    ((ls.revokeLease key).2 = .ok ∨ (ls.revokeLease key).2 = .keyNotFound) ∧
    ((ls.revokeLease key).1.keyValue key = none ∧ (ls.revokeLease key).1.keylist key = none ∧
      (∀ now, ∃ want, ((ls.revokeLease key).1.get key now).2 = .server want) ∧
      (∀ now, ∃ want, ((ls.revokeLease key).1.getList key now).2 = .server want) ↔
      ¬ ls.CachedTwice key) ∧
    ∀ k, k ≠ key → (ls.revokeLease key).1.keyValue k = ls.keyValue k ∧
      (ls.revokeLease key).1.keylist k = ls.keylist k := by
  refine ⟨revokeLease_status, ⟨?_, fun h => ?_⟩, fun k hk => revokeLease_ne hk⟩
  · rintro ⟨hv, hl, -, -⟩
    exact revokeLease_none_iff.mp ⟨hv, hl⟩
  · obtain ⟨hv, hl⟩ := revokeLease_none_iff.mpr h
    exact ⟨hv, hl, get_server hv, getList_server hl⟩

/-- A libstore that has a lease for the list of a key. -/
def listCached : ListLibstore :=
  ((ListLibstore.newLibstore .always true).receiveList "k" 0 ⟨.ok, ["a"], ⟨true, 10⟩⟩).1

theorem listCached_revokes :
    (listCached.keylist "k").isSome = true ∧
      ((listCached.revokeLease "k").1.getList "k" 1).2 = .server true := by
  have hnot : ¬ listCached.CachedTwice "k" := by
    rintro ⟨h, -⟩
    cases h
  obtain ⟨want, hwant⟩ := ((revokeLease_revokes listCached "k").2.1.mpr hnot).2.2.2 1
  refine ⟨rfl, ?_⟩
  cases want with
  | true => exact hwant
  | false => cases hwant

/-- The same libstore with a lease for the value under that key as well. -/
def bothCached : ListLibstore := listCached.receive "k" 0 ⟨.ok, "v", ⟨true, 10⟩⟩

/-- `RevokeLease` replies `OK`, and the next `GetList` is answered from the cache. -/
theorem cached_list_survives :
    (bothCached.revokeLease "k").2 = .ok ∧
    (bothCached.revokeLease "k").1.keylist "k" = some ⟨["a"], ⟨0, 10⟩⟩ ∧
    ((bothCached.revokeLease "k").1.getList "k" 1).2 = .cache ["a"] := by
  decide

end Cmu440.Tribbler
