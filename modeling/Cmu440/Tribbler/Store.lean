import Cmu440.Tribbler.Lists
import Cmu440.Tribbler.Ring
import Cmu440.Tribbler.Storage

/-!
# The storage server as a store

The five operations of storageserver_impl.go on one server, one request after
the other. `Tribbler.System` has `Get` and `Put` interleaved; here each request
runs to its end, and lists are there.

`Put`, `AppendToList` and `RemoveFromList` on a key that exists first revoke the
leases on it, in the order of a `range` over a map: a `Visit` is one iteration,
with the time it reads and how the revocation of its lease ends. For an
unexpired lease the loop takes `clientCacheMutex` of the holder, dials the
holder if it has no client yet, releases the mutex, calls `RevokeLease` and
waits until the call is acknowledged or the lease has run out, so it always gets
past that point. When the dial fails it returns at once and with the mutex
locked (storageserver_impl.go:520-527), and whoever comes next to revoke an
unexpired lease of that holder waits for ever: `none`.

`Contents` is the store the operations are meant to be: strings under keys and,
apart from them, duplicate-free lists under keys. A request returns an error when
such a dial fails and then only, and has changed nothing but that mutex
(`storage_conforms`). The value and the list under one key have leases of their
own: a `Put` leaves those on the list as they are.
-/
namespace Cmu440.Tribbler

/-! ## The server with its lists -/

/-- mirrors storageserver_impl.go:36-39 -/
structure ListStore where
  list : List String
  leaseGranted : LeaseMap

/-- mirrors storageserver_impl.go:41-56 -/
structure FullServer extends StorageServer where
  status : Status
  nodeID : UInt32
  serversList : List Node
  keyListStore : Key → Option ListStore

/-- How the revocation of a lease ends: `RevokeLease` is acknowledged; it fails
or replies something else, or takes too long, so that the lease runs out; or the
holder cannot be dialled. -/
inductive Outcome
  | acknowledged
  | callFailed
  | timedOut
  | dialError
  deriving DecidableEq, Repr

/-- One iteration of the loop of `revokeGrantedLease`. -/
structure Visit where
  hostport : HostPort
  now : Int
  outcome : Outcome
  deriving DecidableEq, Repr

/-- How a call of `revokeGrantedLease` ends. -/
inductive Ending
  | done
  | error
  | blocked
  deriving DecidableEq, Repr

/-- `ss.clientCache[hostport] = client` -/
def StorageServer.withClient (ss : StorageServer) (hostport : HostPort) : StorageServer :=
  { ss with clientCache := Function.update ss.clientCache hostport true }

/-- mirrors storageserver_impl.go:511-553 -/
def StorageServer.revokeGrantedLease (ss : StorageServer) (leaseGranted : LeaseMap) :
    List Visit → StorageServer × Ending
  | [] => (ss, .done)
  | v :: visits =>
    match leaseGranted.lookup v.hostport with
    | none => ss.revokeGrantedLease leaseGranted visits
    | some revokedLease =>
      if v.now < revokedLease.validUntil then
        if ss.clientCacheMutex v.hostport then (ss, .blocked)
        else if ss.clientCache v.hostport then ss.revokeGrantedLease leaseGranted visits
        else
          match v.outcome with
          | .dialError =>
            -- the mutex is not released on this way out
            ({ ss with
                clientCacheMutex := Function.update ss.clientCacheMutex v.hostport true }, .error)
          | .acknowledged | .callFailed | .timedOut =>
            (ss.withClient v.hostport).revokeGrantedLease leaseGranted visits
      else ss.revokeGrantedLease leaseGranted visits

/-- The iterations are those of a `range` over the leases, in some order. -/
def Ranges (leaseGranted : LeaseMap) (visits : List Visit) : Prop :=
  (visits.map (·.hostport)).Perm leaseGranted.keys

instance (leaseGranted : LeaseMap) (visits : List Visit) : Decidable (Ranges leaseGranted visits) :=
  inferInstanceAs (Decidable (List.Perm _ _))

/-- The lease of the holder has not expired when the loop comes to it. -/
def Visit.live (leaseGranted : LeaseMap) (v : Visit) : Bool :=
  (leaseGranted.lookup v.hostport).any fun l => decide (v.now < l.validUntil)

/-- The mutexes the loop has to take are free. -/
def StorageServer.Free (ss : StorageServer) (leaseGranted : LeaseMap) (visits : List Visit) : Prop :=
  ∀ v ∈ visits, v.live leaseGranted = true → ss.clientCacheMutex v.hostport = false

instance (ss : StorageServer) (leaseGranted : LeaseMap) (visits : List Visit) :
    Decidable (ss.Free leaseGranted visits) :=
  inferInstanceAs (Decidable (∀ v ∈ visits, _))

/-- The lease is live, its holder has no client yet and cannot be dialled. -/
def Visit.DialFails (ss : StorageServer) (leaseGranted : LeaseMap) (v : Visit) : Prop :=
  v.live leaseGranted = true ∧ ss.clientCache v.hostport = false ∧ v.outcome = .dialError

/-- A dial that the loop has to make fails. -/
def StorageServer.DialFails (ss : StorageServer) (leaseGranted : LeaseMap) (visits : List Visit) :
    Prop :=
  ∃ v ∈ visits, v.DialFails ss leaseGranted

instance (ss : StorageServer) (leaseGranted : LeaseMap) (v : Visit) :
    Decidable (v.DialFails ss leaseGranted) :=
  inferInstanceAs (Decidable (_ ∧ _ ∧ _))

instance (ss : StorageServer) (leaseGranted : LeaseMap) (visits : List Visit) :
    Decidable (ss.DialFails leaseGranted visits) :=
  inferInstanceAs (Decidable (∃ v ∈ visits, _))

/-! ## Requests -/

inductive Request
  | get (key : Key) (wantLease : Bool) (hostPort : HostPort) (now : Int)
  | getList (key : Key) (wantLease : Bool) (hostPort : HostPort) (now : Int)
  | put (key : Key) (value : String) (visits : List Visit)
  | appendToList (key : Key) (value : String) (visits : List Visit)
  | removeFromList (key : Key) (value : String) (visits : List Visit)
  deriving DecidableEq, Repr

/-- `error` is a call that returns an error, without a reply. -/
inductive Reply
  | get (reply : GetReply)
  | getList (reply : GetListReply)
  | put (status : Status)
  | error
  deriving DecidableEq, Repr

def Request.key : Request → Key
  | .get key _ _ _ | .getList key _ _ _ | .put key _ _ | .appendToList key _ _
  | .removeFromList key _ _ => key

def Request.visits : Request → List Visit
  | .get .. | .getList .. => []
  | .put _ _ visits | .appendToList _ _ visits | .removeFromList _ _ visits => visits

/-- A reply with nothing but a status. -/
def Request.refused (status : Status) : Request → Reply
  | .get .. => .get ⟨status, "", ⟨false, 0⟩⟩
  | .getList .. => .getList ⟨status, [], ⟨false, 0⟩⟩
  | .put .. | .appendToList .. | .removeFromList .. => .put status

namespace FullServer

/-- The server is alone and ready. mirrors storageserver_impl.go:67-82 -/
def newStorageServer (node : Node) : FullServer :=
  { StorageServer.newStorageServer with
    status := .ok, nodeID := node.nodeID, serversList := [node], keyListStore := fun _ => none }

/-- The two checks at the head of each operation: `none` when both are passed.
mirrors storageserver_impl.go:218-230 -/
def refuses (storeHash : String → UInt32) (ss : FullServer) (key : Key) : Option Status :=
  if ss.status ≠ .ok then some .notReady
  else if checkIsRightServer storeHash ss.serversList ss.nodeID key = some true then none
  else some .wrongServer

def setList (ss : FullServer) (key : Key) (listStore : ListStore) : FullServer :=
  { ss with keyListStore := Function.update ss.keyListStore key (some listStore) }

/-- `GetList` with the mutex of the key held. mirrors storageserver_impl.go:274-294 -/
def getList (ss : FullServer) (now : Int) (key : Key) (wantLease : Bool) (hostPort : HostPort) :
    FullServer × GetListReply :=
  match ss.keyListStore key with
  | none => (ss, ⟨.keyNotFound, [], ⟨false, 0⟩⟩)
  | some listStore =>
    if wantLease then
      let r := grantLeaseIfNecessary now hostPort listStore.leaseGranted
      (ss.setList key { listStore with leaseGranted := r.1 }, ⟨.ok, listStore.list, r.2⟩)
    else (ss, ⟨.ok, listStore.list, ⟨false, 0⟩⟩)

/-- The leases are revoked, then `k` changes the store; an error of the
revocation is returned. mirrors storageserver_impl.go:321-324, 363-366, 410-413 -/
def revoking (ss : FullServer) (leaseGranted : LeaseMap) (visits : List Visit)
    (k : FullServer → FullServer × Reply) : Option (FullServer × Reply) :=
  match ss.toStorageServer.revokeGrantedLease leaseGranted visits with
  | (ss', .done) => some (k { ss with toStorageServer := ss' })
  | (ss', .error) => some ({ ss with toStorageServer := ss' }, .error)
  | (_, .blocked) => none

/-- The value is stored without leases. mirrors storageserver_impl.go:318-330 -/
def setValue (ss : FullServer) (key : Key) (value : String) : FullServer :=
  { ss with toStorageServer := ss.toStorageServer.install key value }

/-- mirrors storageserver_impl.go:316-332 -/
def put (ss : FullServer) (key : Key) (value : String) (visits : List Visit) :
    Option (FullServer × Reply) :=
  match ss.keyValueStore key with
  | none => some (ss.setValue key value, .put .ok)
  | some valueStore =>
    ss.revoking valueStore.leaseGranted visits fun ss => (ss.setValue key value, .put .ok)

/-- mirrors storageserver_impl.go:353-384 -/
def appendToList (ss : FullServer) (key : Key) (value : String) (visits : List Visit) :
    Option (FullServer × Reply) :=
  match ss.keyListStore key with
  | none => some (ss.setList key ⟨[value], ∅⟩, .put .ok)
  | some listStore =>
    ss.revoking listStore.leaseGranted visits fun ss =>
      if value ∈ listStore.list then (ss.setList key ⟨listStore.list, ∅⟩, .put .itemExists)
      else (ss.setList key ⟨listStore.list ++ [value], ∅⟩, .put .ok)

/-- mirrors storageserver_impl.go:405-431 -/
def removeFromList (ss : FullServer) (key : Key) (value : String) (visits : List Visit) :
    Option (FullServer × Reply) :=
  match ss.keyListStore key with
  | none => some (ss, .put .itemNotFound)
  | some listStore =>
    ss.revoking listStore.leaseGranted visits fun ss =>
      if value ∈ listStore.list then (ss.setList key ⟨listStore.list.erase value, ∅⟩, .put .ok)
      else (ss.setList key ⟨listStore.list, ∅⟩, .put .itemNotFound)

/-- One request; `none` is a request that never returns.
mirrors storageserver_impl.go:217-432 -/
def serve (storeHash : String → UInt32) (ss : FullServer) (req : Request) :
    Option (FullServer × Reply) :=
  match ss.refuses storeHash req.key with
  | some status => some (ss, req.refused status)
  | none =>
    match req with
    | .get key wantLease hostPort now =>
      let r := ss.toStorageServer.get now key wantLease hostPort
      some ({ ss with toStorageServer := r.1 }, .get r.2)
    | .getList key wantLease hostPort now =>
      let r := ss.getList now key wantLease hostPort
      some (r.1, .getList r.2)
    | .put key value visits => ss.put key value visits
    | .appendToList key value visits => ss.appendToList key value visits
    | .removeFromList key value visits => ss.removeFromList key value visits

/-- The leases on the value under the key. -/
def valueLeases (ss : FullServer) (key : Key) : LeaseMap :=
  (ss.keyValueStore key).elim ∅ (·.leaseGranted)

/-- The leases on the list under the key. -/
def listLeases (ss : FullServer) (key : Key) : LeaseMap :=
  (ss.keyListStore key).elim ∅ (·.leaseGranted)

/-- The leases the request has to revoke. -/
def revokes (ss : FullServer) : Request → LeaseMap
  | .get .. | .getList .. => ∅
  | .put key _ _ => ss.valueLeases key
  | .appendToList key _ _ | .removeFromList key _ _ => ss.listLeases key

/-- The leases on the other entry under the key that the request is to change. -/
def spares (ss : FullServer) : Request → LeaseMap
  | .get .. | .getList .. => ∅
  | .put key _ _ => ss.listLeases key
  | .appendToList key _ _ | .removeFromList key _ _ => ss.valueLeases key

end FullServer

/-! ## The revocation -/

section Revoke

variable {leaseGranted : LeaseMap}

/-- What one visit does: the loop goes on, perhaps with one more client; it
waits for the mutex of a live holder; or it returns the error of a dial. -/
theorem revokeGrantedLease_cons (leaseGranted : LeaseMap) (ss : StorageServer) (v : Visit)
    (visits : List Visit) :
    (∃ ss', (ss' = ss ∨ ss' = ss.withClient v.hostport) ∧ ¬ v.DialFails ss leaseGranted ∧
      ss.revokeGrantedLease leaseGranted (v :: visits) =
        ss'.revokeGrantedLease leaseGranted visits) ∨
    (v.live leaseGranted = true ∧ ss.clientCacheMutex v.hostport = true ∧
      ss.revokeGrantedLease leaseGranted (v :: visits) = (ss, .blocked)) ∨
    (v.DialFails ss leaseGranted ∧
      ss.revokeGrantedLease leaseGranted (v :: visits) =
        ({ ss with clientCacheMutex := Function.update ss.clientCacheMutex v.hostport true },
          .error)) := by
  simp only [StorageServer.revokeGrantedLease]
  split
  · rename_i hnone
    exact .inl ⟨ss, .inl rfl, fun h => by simp [Visit.DialFails, Visit.live, hnone] at h, rfl⟩
  · rename_i revokedLease hlease
    split
    · rename_i hnow
      have hlive : v.live leaseGranted = true := by simp [Visit.live, hlease, hnow]
      split
      · exact .inr (.inl ⟨hlive, ‹_›, rfl⟩)
      · split
        · rename_i hc
          exact .inl ⟨ss, .inl rfl, fun h => absurd hc (Bool.eq_false_iff.mp h.2.1), rfl⟩
        · rename_i hc
          split <;> rename_i hout
          · exact .inr (.inr ⟨⟨hlive, Bool.eq_false_iff.mpr hc, hout⟩, rfl⟩)
          all_goals
            exact .inl ⟨_, .inr rfl, fun h => Outcome.noConfusion (hout.symm.trans h.2.2), rfl⟩
    · rename_i hnow
      exact .inl ⟨ss, .inl rfl, fun h => by simp [Visit.DialFails, Visit.live, hlease, hnow] at h,
        rfl⟩

/-- Whatever happens, nothing but the clients and their mutexes is touched. -/
theorem revokeGrantedLease_store (leaseGranted : LeaseMap) (ss : StorageServer)
    (visits : List Visit) :
    (ss.revokeGrantedLease leaseGranted visits).1.keyValueStore = ss.keyValueStore := by
  induction visits generalizing ss with
  | nil => rfl
  | cons v visits ih =>
    rcases revokeGrantedLease_cons leaseGranted ss v visits with
      ⟨ss', rfl | rfl, -, he⟩ | ⟨-, -, he⟩ | ⟨-, he⟩
    · rw [he, ih]
    · rw [he, ih]; rfl
    · rw [he]
    · rw [he]

/-- A client that is cached stays cached. -/
theorem StorageServer.withClient_clientCache {ss : StorageServer} {hostport h : HostPort}
    (hc : (ss.withClient hostport).clientCache h = false) : ss.clientCache h = false := by
  simp only [StorageServer.withClient, Function.update_apply] at hc
  split at hc
  · cases hc
  · exact hc

/-- A visit that the loop gets past locks no mutex. -/
theorem StorageServer.Free.tail {ss ss' : StorageServer} {v : Visit} {visits : List Visit}
    (hfree : ss.Free leaseGranted (v :: visits)) (hss' : ss' = ss ∨ ss' = ss.withClient v.hostport) :
    ss'.clientCacheMutex = ss.clientCacheMutex ∧ ss'.Free leaseGranted visits := by
  have hmutex : ss'.clientCacheMutex = ss.clientCacheMutex := by rcases hss' with rfl | rfl <;> rfl
  refine ⟨hmutex, fun u hu hlive => ?_⟩
  rw [hmutex]
  exact hfree u (List.mem_cons_of_mem v hu) hlive

/-- With the mutexes free the loop ends: after the last lease, with the mutexes
as they were, or when a holder without a client cannot be dialled. -/
theorem revokeGrantedLease_ends {ss : StorageServer} {visits : List Visit}
    (hfree : ss.Free leaseGranted visits) :
    ((ss.revokeGrantedLease leaseGranted visits).2 = .done ∧
      (ss.revokeGrantedLease leaseGranted visits).1.clientCacheMutex = ss.clientCacheMutex) ∨
    ((ss.revokeGrantedLease leaseGranted visits).2 = .error ∧ ss.DialFails leaseGranted visits) := by
  induction visits generalizing ss with
  | nil => exact .inl ⟨rfl, rfl⟩
  | cons v visits ih =>
    rcases revokeGrantedLease_cons leaseGranted ss v visits with
      ⟨ss', hss', -, he⟩ | ⟨hlive, hlocked, -⟩ | ⟨hfails, he⟩
    · obtain ⟨hmutex, hfree'⟩ := hfree.tail hss'
      rw [he]
      rcases ih hfree' with ⟨hdone, hm⟩ | ⟨herr, u, hu, hlive, hc, hout⟩
      · exact .inl ⟨hdone, hm.trans hmutex⟩
      · refine .inr ⟨herr, u, List.mem_cons_of_mem v hu, hlive, ?_, hout⟩
        rcases hss' with rfl | rfl
        · exact hc
        · exact StorageServer.withClient_clientCache hc
    · rw [hfree v List.mem_cons_self hlive] at hlocked
      cases hlocked
    · rw [he]
      exact .inr ⟨rfl, v, List.mem_cons_self, hfails⟩

theorem Ranges.nodup {visits : List Visit} (h : Ranges leaseGranted visits) :
    (visits.map (·.hostport)).Nodup :=
  h.nodup_iff.mpr leaseGranted.keys_nodup

/-- A dial that fails is made, as no visit before it is to the same holder: the
loop ends there or earlier, with an error and one more mutex locked. -/
theorem revokeGrantedLease_fails {ss : StorageServer} {visits : List Visit}
    (hfree : ss.Free leaseGranted visits) (hnodup : (visits.map (·.hostport)).Nodup)
    (hfails : ss.DialFails leaseGranted visits) :
    (ss.revokeGrantedLease leaseGranted visits).2 = .error ∧
    (ss.revokeGrantedLease leaseGranted visits).1.clientCacheMutex ≠ ss.clientCacheMutex := by
  induction visits generalizing ss with
  | nil =>
    obtain ⟨u, hu, -⟩ := hfails
    cases hu
  | cons v visits ih =>
    rw [List.map_cons, List.nodup_cons] at hnodup
    rcases revokeGrantedLease_cons leaseGranted ss v visits with
      ⟨ss', hss', hpast, he⟩ | ⟨hlive, hlocked, -⟩ | ⟨⟨hlive, -, -⟩, he⟩
    · obtain ⟨hmutex, hfree'⟩ := hfree.tail hss'
      obtain ⟨u, hu, hlive, hc, hout⟩ := hfails
      rcases List.mem_cons.mp hu with rfl | hu
      · exact absurd ⟨hlive, hc, hout⟩ hpast
      · have hne : u.hostport ≠ v.hostport := fun h =>
          hnodup.1 (List.mem_map.mpr ⟨u, hu, h⟩)
        have hc' : ss'.clientCache u.hostport = false := by
          rcases hss' with rfl | rfl
          · exact hc
          · exact (Function.update_of_ne hne _ _).trans hc
        rw [he, ← hmutex]
        exact ih hfree' hnodup.2 ⟨u, hu, hlive, hc', hout⟩
    · rw [hfree v List.mem_cons_self hlive] at hlocked
      cases hlocked
    · rw [he]
      refine ⟨rfl, fun h => ?_⟩
      have hlocked : Function.update ss.clientCacheMutex v.hostport true v.hostport =
          ss.clientCacheMutex v.hostport := congrFun h v.hostport
      rw [Function.update_self, hfree v List.mem_cons_self hlive] at hlocked
      cases hlocked

end Revoke

/-- After the revocation the server stores what it stored, and the request is
completed or returns the error of a dial. -/
theorem revoking_ends {ss : FullServer} {leaseGranted : LeaseMap} {visits : List Visit}
    {k : FullServer → FullServer × Reply} (hfree : ss.Free leaseGranted visits) :
    ∃ ss₁ : FullServer, ss₁.keyValueStore = ss.keyValueStore ∧ ss₁.keyListStore = ss.keyListStore ∧
      ((ss.revoking leaseGranted visits k = some (k ss₁) ∧
          (Ranges leaseGranted visits → ¬ ss.DialFails leaseGranted visits)) ∨
        (ss.revoking leaseGranted visits k = some (ss₁, .error) ∧
          ss.DialFails leaseGranted visits)) := by
  have hstore := revokeGrantedLease_store leaseGranted ss.toStorageServer visits
  have hends := revokeGrantedLease_ends hfree
  have hfails := fun h : Ranges leaseGranted visits => revokeGrantedLease_fails hfree h.nodup
  unfold FullServer.revoking
  split <;> rename_i t heq <;> simp only [heq] at hstore hends hfails
  · refine ⟨{ ss with toStorageServer := t }, hstore, rfl, .inl ⟨rfl, fun hrange hdial => ?_⟩⟩
    exact Ending.noConfusion (hfails hrange hdial).1
  · refine ⟨{ ss with toStorageServer := t }, hstore, rfl, .inr ⟨rfl, ?_⟩⟩
    rcases hends with ⟨hdone, -⟩ | ⟨-, hdial⟩
    · cases hdone
    · exact hdial
  · rcases hends with ⟨h, -⟩ | ⟨h, -⟩ <;> cases h

theorem revoking_isSome {ss : FullServer} {leaseGranted : LeaseMap} {visits : List Visit}
    {k : FullServer → FullServer × Reply} (hfree : ss.Free leaseGranted visits) :
    (ss.revoking leaseGranted visits k).isSome = true := by
  obtain ⟨ss₁, -, -, ⟨h, -⟩ | ⟨h, -⟩⟩ := revoking_ends (k := k) hfree <;> rw [h] <;> rfl

/-- The ring, as the server knows it, stays the same. -/
def FullServer.SameRing (ss ss' : FullServer) : Prop :=
  ss'.status = ss.status ∧ ss'.nodeID = ss.nodeID ∧ ss'.serversList = ss.serversList

section Leases

variable {ss : FullServer} {key : Key}

theorem valueLeases_some {valueStore : ValueStore} (h : ss.keyValueStore key = some valueStore) :
    ss.valueLeases key = valueStore.leaseGranted := by
  simp [FullServer.valueLeases, h]

theorem listLeases_some {listStore : ListStore} (h : ss.keyListStore key = some listStore) :
    ss.listLeases key = listStore.leaseGranted := by
  simp [FullServer.listLeases, h]

theorem valueLeases_none (h : ss.keyValueStore key = none) : ss.valueLeases key = ∅ := by
  simp [FullServer.valueLeases, h]

theorem listLeases_none (h : ss.keyListStore key = none) : ss.listLeases key = ∅ := by
  simp [FullServer.listLeases, h]

end Leases

/-- A request is answered at once, or after its leases are revoked. -/
theorem serve_cases (storeHash : String → UInt32) (ss : FullServer) (req : Request) :
    (∃ ss' reply, ss.serve storeHash req = some (ss', reply) ∧ ss.SameRing ss') ∨
    ∃ k : FullServer → FullServer × Reply,
      ss.serve storeHash req = ss.revoking (ss.revokes req) req.visits k ∧
      ∀ ss₁ : FullServer, ss₁.SameRing (k ss₁).1 := by
  unfold FullServer.serve
  split
  · exact .inl ⟨_, _, rfl, rfl, rfl, rfl⟩
  · cases req with
    | get => exact .inl ⟨_, _, rfl, rfl, rfl, rfl⟩
    | getList key wantLease hostPort now =>
      refine .inl ⟨_, _, rfl, ?_⟩
      unfold FullServer.getList
      split
      · exact ⟨rfl, rfl, rfl⟩
      · split <;> exact ⟨rfl, rfl, rfl⟩
    | put key value visits =>
      simp only [FullServer.put, FullServer.revokes]
      split
      · exact .inl ⟨_, _, rfl, rfl, rfl, rfl⟩
      · rename_i valueStore hv
        rw [valueLeases_some hv]
        exact .inr ⟨_, rfl, fun _ => ⟨rfl, rfl, rfl⟩⟩
    | appendToList key value visits =>
      simp only [FullServer.appendToList, FullServer.revokes]
      split
      · exact .inl ⟨_, _, rfl, rfl, rfl, rfl⟩
      · rename_i listStore hl
        rw [listLeases_some hl]
        refine .inr ⟨_, rfl, fun _ => ?_⟩
        split <;> exact ⟨rfl, rfl, rfl⟩
    | removeFromList key value visits =>
      simp only [FullServer.removeFromList, FullServer.revokes]
      split
      · exact .inl ⟨_, _, rfl, rfl, rfl, rfl⟩
      · rename_i listStore hl
        rw [listLeases_some hl]
        refine .inr ⟨_, rfl, fun _ => ?_⟩
        split <;> exact ⟨rfl, rfl, rfl⟩

/-- A request whose mutexes are free returns. -/
theorem serve_isSome {storeHash : String → UInt32} {ss : FullServer} {req : Request}
    (hfree : ss.Free (ss.revokes req) req.visits) : (ss.serve storeHash req).isSome = true := by
  rcases serve_cases storeHash ss req with ⟨ss', reply, heq, -⟩ | ⟨k, heq, -⟩ <;> rw [heq]
  · rfl
  · exact revoking_isSome hfree

/-- When no dial fails, `revokeGrantedLease` returns without an error and leaves
every mutex as it found it; a later request on any key whose holders were free
before gets a reply. Over a map of leases it leaves the mutexes so only then. -/
theorem revocation_leaves_no_lock (storeHash : String → UInt32) (ss : FullServer)
    (leaseGranted : LeaseMap) (visits : List Visit) (hfree : ss.Free leaseGranted visits) :
    (¬ ss.DialFails leaseGranted visits →
      (ss.revokeGrantedLease leaseGranted visits).2 = .done ∧
      (ss.revokeGrantedLease leaseGranted visits).1.clientCacheMutex = ss.clientCacheMutex ∧
      ∀ ss' : FullServer,
        ss'.toStorageServer = (ss.revokeGrantedLease leaseGranted visits).1 → ∀ req,
          ss.Free (ss'.revokes req) req.visits → (ss'.serve storeHash req).isSome = true) ∧
    (Ranges leaseGranted visits →
      ((ss.revokeGrantedLease leaseGranted visits).1.clientCacheMutex = ss.clientCacheMutex ↔
        ¬ ss.DialFails leaseGranted visits)) := by
  have hkept : ¬ ss.DialFails leaseGranted visits →
      (ss.revokeGrantedLease leaseGranted visits).2 = .done ∧
      (ss.revokeGrantedLease leaseGranted visits).1.clientCacheMutex = ss.clientCacheMutex := by
    intro hdial
    rcases revokeGrantedLease_ends hfree with hdone | ⟨-, hfails⟩
    · exact hdone
    · exact absurd hfails hdial
  refine ⟨fun hdial => ?_, fun hrange => ⟨fun hmutex hfails => ?_, fun hdial => (hkept hdial).2⟩⟩
  · obtain ⟨hdone, hmutex⟩ := hkept hdial
    refine ⟨hdone, hmutex, fun ss' hss' req hreq => serve_isSome fun v hv hlive => ?_⟩
    rw [hss', hmutex]
    exact hreq v hv hlive
  · exact (revokeGrantedLease_fails hfree hrange.nodup hfails).2 hmutex

/-- Leases of the hosts on one key, granted at time `0`. -/
def leased (hosts : List HostPort) : LeaseMap :=
  hosts.foldl (fun leases host => leases.insert host ⟨0, 12⟩) ∅

def lone : FullServer := .newStorageServer ⟨"localhost:9009", 1⟩

theorem two_holders_leave_no_lock :
    Ranges (leased ["a", "b"]) [⟨"b", 5, .acknowledged⟩, ⟨"a", 6, .timedOut⟩] ∧
    (lone.revokeGrantedLease (leased ["a", "b"])
      [⟨"b", 5, .acknowledged⟩, ⟨"a", 6, .timedOut⟩]).2 = .done :=
  ⟨by decide,
    ((revocation_leaves_no_lock (fun _ => 0) lone (leased ["a", "b"])
      [⟨"b", 5, .acknowledged⟩, ⟨"a", 6, .timedOut⟩] (by decide)).1 (by decide)).1⟩

/-- One holder that cannot be dialled: `revokeGrantedLease` returns the error
with the mutex of the holder locked, and the revocation of a lease of that
holder on another key never ends. -/
theorem dial_error_leaves_lock :
    Ranges (leased ["a"]) [⟨"a", 5, .dialError⟩] ∧
    (lone.revokeGrantedLease (leased ["a"]) [⟨"a", 5, .dialError⟩]).2 = .error ∧
    (lone.revokeGrantedLease (leased ["a"]) [⟨"a", 5, .dialError⟩]).1.clientCacheMutex "a" = true ∧
    ((lone.revokeGrantedLease (leased ["a"]) [⟨"a", 5, .dialError⟩]).1.revokeGrantedLease
      (leased ["a", "b"]) [⟨"a", 6, .acknowledged⟩, ⟨"b", 6, .acknowledged⟩]).2 = .blocked := by
  decide

/-! ## The store the operations are meant to be -/

/-- Strings under keys, and duplicate-free lists under keys. -/
structure Contents where
  values : Key → Option String
  lists : Key → Option { l : List String // l.Nodup }

theorem nodup_push {l : List String} {value : String} (hl : l.Nodup) (h : value ∉ l) :
    (l ++ [value]).Nodup := by
  rw [← List.concat_eq_append]
  exact hl.concat h

/-- What a caller gets to see of the contents. -/
inductive Answer
  | value (status : Status) (value : String)
  | list (status : Status) (list : List String)
  | status (status : Status)
  deriving DecidableEq, Repr

namespace Contents

def empty : Contents := ⟨fun _ => none, fun _ => none⟩

def setValue (c : Contents) (key : Key) (value : String) : Contents :=
  { c with values := Function.update c.values key (some value) }

def setList (c : Contents) (key : Key) (l : { l : List String // l.Nodup }) : Contents :=
  { c with lists := Function.update c.lists key (some l) }

/-- A new item goes to the end of the list. -/
def append (c : Contents) (key : Key) (value : String) : Contents × Answer :=
  match c.lists key with
  | none => (c.setList key ⟨[value], List.nodup_singleton value⟩, .status .ok)
  | some l =>
    if h : value ∈ l.1 then (c, .status .itemExists)
    else (c.setList key ⟨l.1 ++ [value], nodup_push l.2 h⟩, .status .ok)

/-- A list that has lost its last item is still there. -/
def remove (c : Contents) (key : Key) (value : String) : Contents × Answer :=
  match c.lists key with
  | none => (c, .status .itemNotFound)
  | some l =>
    if value ∈ l.1 then (c.setList key ⟨l.1.erase value, l.2.erase value⟩, .status .ok)
    else (c, .status .itemNotFound)

def exec (c : Contents) : Request → Contents × Answer
  | .get key _ _ _ =>
    (c, match c.values key with
      | some v => .value .ok v
      | none => .value .keyNotFound "")
  | .getList key _ _ _ =>
    (c, match c.lists key with
      | some l => .list .ok l.1
      | none => .list .keyNotFound [])
  | .put key value _ => (c.setValue key value, .status .ok)
  | .appendToList key value _ => c.append key value
  | .removeFromList key value _ => c.remove key value

end Contents

/-- What a reply says of the contents. -/
def Reply.answer : Reply → Option Answer
  | .get reply => some (.value reply.status reply.value)
  | .getList reply => some (.list reply.status reply.value)
  | .put status => some (.status status)
  | .error => none

/-- The server stores `c`. -/
structure Represents (ss : FullServer) (c : Contents) : Prop where
  values : ∀ key, c.values key = (ss.keyValueStore key).map (·.value)
  lists : ∀ key, (c.lists key).map (·.1) = (ss.keyListStore key).map (·.list)

/-- A request answered as the contents `c` say: the server stores what they
become, an error has changed neither values nor lists nor leases, and no lease
is left on what the request was to change, while those on the other entry under
its key stay. The reply is an error when a dial fails, and only then. -/
structure Matches (ss : FullServer) (c : Contents) (req : Request) (ss' : FullServer)
    (reply : Reply) (c' : Contents) : Prop where
  stores : Represents ss' c'
  error : reply = .error → c' = c ∧ ss'.keyValueStore = ss.keyValueStore ∧
    ss'.keyListStore = ss.keyListStore
  answer : reply ≠ .error → c' = (c.exec req).1 ∧ reply.answer = some (c.exec req).2
  revoked : reply ≠ .error → ss'.revokes req = ∅
  spared : ss'.spares req = ss.spares req
  failed : reply = .error → ss.DialFails (ss.revokes req) req.visits
  fails : Ranges (ss.revokes req) req.visits → ss.DialFails (ss.revokes req) req.visits →
    reply = .error

section Ops

variable {ss : FullServer} {c : Contents} {storeHash : String → UInt32}

/-- The values and lists decide what is represented. -/
theorem Represents.congr (h : Represents ss c) {ss' : FullServer}
    (hv : ss'.keyValueStore = ss.keyValueStore) (hl : ss'.keyListStore = ss.keyListStore) :
    Represents ss' c := by
  refine ⟨?_, ?_⟩
  · rw [hv]; exact h.values
  · rw [hl]; exact h.lists

theorem Represents.setValue (h : Represents ss c) (key : Key) (value : String) :
    Represents (ss.setValue key value) (c.setValue key value) := by
  refine ⟨fun k => ?_, h.lists⟩
  simp only [FullServer.setValue, StorageServer.install, Contents.setValue, Function.update_apply]
  split
  · rfl
  · exact h.values k

theorem Represents.setList (h : Represents ss c) (key : Key)
    (l : { l : List String // l.Nodup }) (leases : LeaseMap) :
    Represents (ss.setList key ⟨l.1, leases⟩) (c.setList key l) := by
  refine ⟨h.values, fun k => ?_⟩
  simp only [FullServer.setList, Contents.setList, Function.update_apply]
  split
  · rfl
  · exact h.lists k

/-- Only the leases on a list change. -/
theorem Represents.setLeases (h : Represents ss c) {key : Key} {listStore : ListStore}
    (hl : ss.keyListStore key = some listStore) (leases : LeaseMap) :
    Represents (ss.setList key ⟨listStore.list, leases⟩) c := by
  refine ⟨h.values, fun k => ?_⟩
  simp only [FullServer.setList, Function.update_apply]
  split
  · rename_i hk
    rw [hk, h.lists key, hl]
    rfl
  · exact h.lists k

/-- The list the contents have for a list of the server. -/
theorem Represents.list (h : Represents ss c) {key : Key} {listStore : ListStore}
    (hl : ss.keyListStore key = some listStore) : ∃ l, c.lists key = some l ∧ l.1 = listStore.list := by
  have hk := h.lists key
  rw [hl] at hk
  exact Option.map_eq_some_iff.mp hk

theorem Represents.no_list (h : Represents ss c) {key : Key} (hl : ss.keyListStore key = none) :
    c.lists key = none := by
  have hk := h.lists key
  rw [hl] at hk
  exact Option.map_eq_none_iff.mp hk

@[simp] theorem listLeases_setList (ss : FullServer) (key : Key) (listStore : ListStore) :
    (ss.setList key listStore).listLeases key = listStore.leaseGranted := by
  simp [FullServer.listLeases, FullServer.setList]

@[simp] theorem valueLeases_setValue (ss : FullServer) (key : Key) (value : String) :
    (ss.setValue key value).valueLeases key = ∅ := by
  simp [FullServer.valueLeases, FullServer.setValue, StorageServer.install]

theorem listLeases_congr {ss' : FullServer} (hl : ss'.keyListStore = ss.keyListStore) (key : Key) :
    ss'.listLeases key = ss.listLeases key := by
  unfold FullServer.listLeases
  rw [hl]

theorem valueLeases_congr {ss' : FullServer} (hv : ss'.keyValueStore = ss.keyValueStore)
    (key : Key) : ss'.valueLeases key = ss.valueLeases key := by
  unfold FullServer.valueLeases
  rw [hv]

/-- Without a lease no dial is made. -/
theorem not_dialFails_empty (ss : StorageServer) (visits : List Visit) :
    ¬ ss.DialFails ∅ visits := by
  rintro ⟨v, -, hlive, -, -⟩
  rw [Visit.live, AList.lookup_empty] at hlive
  cases hlive

/-- A request that has returned an error. -/
theorem Matches.of_error (h : Represents ss c) {ss' : FullServer} {req : Request}
    (hv : ss'.keyValueStore = ss.keyValueStore) (hl : ss'.keyListStore = ss.keyListStore)
    (hfails : ss.DialFails (ss.revokes req) req.visits) : Matches ss c req ss' .error c where
  stores := h.congr hv hl
  error _ := ⟨rfl, hv, hl⟩
  answer hne := absurd rfl hne
  revoked hne := absurd rfl hne
  spared := by
    cases req with
    | get | getList => rfl
    | put key => exact listLeases_congr hl key
    | appendToList key | removeFromList key => exact valueLeases_congr hv key
  failed _ := hfails
  fails _ _ := rfl

/-- A request that has returned a reply. -/
theorem Matches.replied {req : Request} {ss' : FullServer} {reply : Reply} {c' : Contents}
    {a : Answer} (hstores : Represents ss' c') (ha : reply.answer = some a)
    (hexec : c.exec req = (c', a)) (hleases : ss'.revokes req = ∅)
    (hspared : ss'.spares req = ss.spares req)
    (hdial : Ranges (ss.revokes req) req.visits → ¬ ss.DialFails (ss.revokes req) req.visits) :
    Matches ss c req ss' reply c' where
  stores := hstores
  error he := by rw [he] at ha; cases ha
  answer _ := by rw [hexec]; exact ⟨rfl, ha⟩
  revoked _ := hleases
  spared := hspared
  failed he := by rw [he] at ha; cases ha
  fails hrange hfails := absurd hfails (hdial hrange)

/-- A request that has returned a reply and had nothing to revoke. -/
theorem Matches.unleased {req : Request} {ss' : FullServer} {reply : Reply} {c' : Contents}
    {a : Answer} (hnone : ss.revokes req = ∅) (hstores : Represents ss' c')
    (ha : reply.answer = some a) (hexec : c.exec req = (c', a)) (hleases : ss'.revokes req = ∅)
    (hspared : ss'.spares req = ss.spares req) : Matches ss c req ss' reply c' := by
  refine .replied hstores ha hexec hleases hspared fun _ => ?_
  rw [hnone]
  exact not_dialFails_empty _ _

/-- A change that follows a revocation. -/
theorem matches_revoking (h : Represents ss c) (req : Request) {leaseGranted : LeaseMap}
    (hleases : ss.revokes req = leaseGranted) {k : FullServer → FullServer × Reply}
    (hfree : ss.Free (ss.revokes req) req.visits)
    (hk : ∀ ss₁ : FullServer, Represents ss₁ c → ss₁.keyValueStore = ss.keyValueStore →
      ss₁.keyListStore = ss.keyListStore →
      (Ranges (ss.revokes req) req.visits → ¬ ss.DialFails (ss.revokes req) req.visits) →
      ∃ c', Matches ss c req (k ss₁).1 (k ss₁).2 c') :
    ∃ ss' reply c', ss.revoking leaseGranted req.visits k = some (ss', reply) ∧
      Matches ss c req ss' reply c' := by
  rw [← hleases]
  obtain ⟨ss₁, hv, hl, ⟨hdone, hdial⟩ | ⟨herr, hfails⟩⟩ := revoking_ends (k := k) hfree
  · obtain ⟨c', hm⟩ := hk ss₁ (h.congr hv hl) hv hl hdial
    exact ⟨_, _, c', hdone, hm⟩
  · exact ⟨ss₁, .error, c, herr, .of_error h hv hl hfails⟩

theorem put_matches (h : Represents ss c) (key : Key) (value : String) {visits : List Visit}
    (hfree : ss.Free (ss.valueLeases key) visits) :
    ∃ ss' reply c', ss.put key value visits = some (ss', reply) ∧
      Matches ss c (.put key value visits) ss' reply c' := by
  unfold FullServer.put
  split
  · rename_i hv
    exact ⟨_, _, _, rfl, .unleased (valueLeases_none hv) (h.setValue key value) rfl rfl
      (valueLeases_setValue ..) rfl⟩
  · rename_i valueStore hv
    refine matches_revoking h (.put key value visits) (valueLeases_some hv) hfree
      fun ss₁ h₁ _ hl₁ hdial => ?_
    exact ⟨_, .replied (h₁.setValue key value) rfl rfl (valueLeases_setValue ..)
      (listLeases_congr hl₁ key) hdial⟩

theorem appendToList_matches (h : Represents ss c) (key : Key) (value : String)
    {visits : List Visit} (hfree : ss.Free (ss.listLeases key) visits) :
    ∃ ss' reply c', ss.appendToList key value visits = some (ss', reply) ∧
      Matches ss c (.appendToList key value visits) ss' reply c' := by
  unfold FullServer.appendToList
  split
  · rename_i hl
    refine ⟨_, _, _, rfl, .unleased (listLeases_none hl)
      (h.setList key ⟨[value], List.nodup_singleton value⟩ ∅) rfl ?_ (listLeases_setList ..) rfl⟩
    simp only [Contents.exec, Contents.append, h.no_list hl]
  · rename_i listStore hl
    refine matches_revoking h (.appendToList key value visits) (listLeases_some hl) hfree
      fun ss₁ h₁ hv₁ hl₁ hdial => ?_
    obtain ⟨l, hcl, hlist⟩ := h.list hl
    split
    · rename_i hmem
      refine ⟨c, .replied (h₁.setLeases (hl₁ ▸ hl) ∅) rfl ?_ (listLeases_setList ..)
        (valueLeases_congr hv₁ key) hdial⟩
      simp only [Contents.exec, Contents.append, hcl, hlist, hmem, dite_true]
    · rename_i hmem
      rw [← hlist] at hmem ⊢
      refine ⟨_, .replied (h₁.setList key ⟨l.1 ++ [value], nodup_push l.2 hmem⟩ ∅) rfl ?_
        (listLeases_setList ..) (valueLeases_congr hv₁ key) hdial⟩
      simp only [Contents.exec, Contents.append, hcl, hmem, dite_false]

theorem removeFromList_matches (h : Represents ss c) (key : Key) (value : String)
    {visits : List Visit} (hfree : ss.Free (ss.listLeases key) visits) :
    ∃ ss' reply c', ss.removeFromList key value visits = some (ss', reply) ∧
      Matches ss c (.removeFromList key value visits) ss' reply c' := by
  unfold FullServer.removeFromList
  split
  · rename_i hl
    refine ⟨_, _, c, rfl, .unleased (listLeases_none hl) h rfl ?_ (listLeases_none hl) rfl⟩
    simp only [Contents.exec, Contents.remove, h.no_list hl]
  · rename_i listStore hl
    refine matches_revoking h (.removeFromList key value visits) (listLeases_some hl) hfree
      fun ss₁ h₁ hv₁ hl₁ hdial => ?_
    obtain ⟨l, hcl, hlist⟩ := h.list hl
    split
    · rename_i hmem
      rw [← hlist] at hmem ⊢
      refine ⟨_, .replied (h₁.setList key ⟨l.1.erase value, l.2.erase value⟩ ∅) rfl ?_
        (listLeases_setList ..) (valueLeases_congr hv₁ key) hdial⟩
      simp only [Contents.exec, Contents.remove, hcl, hmem, if_true]
    · rename_i hmem
      refine ⟨c, .replied (h₁.setLeases (hl₁ ▸ hl) ∅) rfl ?_ (listLeases_setList ..)
        (valueLeases_congr hv₁ key) hdial⟩
      simp only [Contents.exec, Contents.remove, hcl, hlist, hmem, if_false]

theorem get_matches (h : Represents ss c) (key : Key) (wantLease : Bool) (hostPort : HostPort)
    (now : Int) :
    Matches ss c (.get key wantLease hostPort now)
      { ss with toStorageServer := (ss.toStorageServer.get now key wantLease hostPort).1 }
      (.get (ss.toStorageServer.get now key wantLease hostPort).2) c := by
  have hv := h.values key
  unfold StorageServer.get
  split
  · rename_i hnone
    refine .unleased rfl (h.congr rfl rfl) rfl ?_ rfl rfl
    simp only [hnone, Option.map_none] at hv
    simp only [Contents.exec, hv]
  · rename_i valueStore hsome
    simp only [hsome, Option.map_some] at hv
    split
    · refine .unleased rfl ⟨fun k => ?_, h.lists⟩ rfl ?_ rfl rfl
      · simp only [Function.update_apply]
        split
        · rename_i hk
          rw [hk, hv]
          rfl
        · exact h.values k
      · simp only [Contents.exec, hv]
    · refine .unleased rfl (h.congr rfl rfl) rfl ?_ rfl rfl
      simp only [Contents.exec, hv]

theorem getList_matches (h : Represents ss c) (key : Key) (wantLease : Bool) (hostPort : HostPort)
    (now : Int) :
    Matches ss c (.getList key wantLease hostPort now) (ss.getList now key wantLease hostPort).1
      (.getList (ss.getList now key wantLease hostPort).2) c := by
  unfold FullServer.getList
  split
  · rename_i hnone
    refine .unleased rfl h rfl ?_ rfl rfl
    simp only [Contents.exec, h.no_list hnone]
  · rename_i listStore hsome
    obtain ⟨l, hcl, hlist⟩ := h.list hsome
    split
    · refine .unleased rfl (h.setLeases hsome _) rfl ?_ rfl rfl
      simp only [Contents.exec, hcl, hlist]
    · refine .unleased rfl h rfl ?_ rfl rfl
      simp only [Contents.exec, hcl, hlist]

end Ops

/-! ## Sequences of requests -/

theorem revoking_ring {ss ss' : FullServer} {leaseGranted : LeaseMap} {visits : List Visit}
    {k : FullServer → FullServer × Reply} {reply : Reply}
    (h : ss.revoking leaseGranted visits k = some (ss', reply))
    (hk : ∀ ss₁ : FullServer, ss₁.SameRing (k ss₁).1) : ss.SameRing ss' := by
  unfold FullServer.revoking at h
  split at h
  · rename_i t _
    have hr := hk { ss with toStorageServer := t }
    rw [Option.some.inj h] at hr
    exact hr
  · cases h
    exact ⟨rfl, rfl, rfl⟩
  · cases h

theorem serve_ring {storeHash : String → UInt32} {ss ss' : FullServer} {req : Request}
    {reply : Reply} (h : ss.serve storeHash req = some (ss', reply)) : ss.SameRing ss' := by
  rcases serve_cases storeHash ss req with ⟨ss₁, reply₁, heq, hring⟩ | ⟨k, heq, hring⟩ <;>
    rw [heq] at h
  · cases h
    exact hring
  · exact revoking_ring h hring

theorem FullServer.SameRing.refuses {storeHash : String → UInt32} {ss ss' : FullServer}
    (h : ss.SameRing ss') (key : Key) : ss'.refuses storeHash key = ss.refuses storeHash key := by
  unfold FullServer.refuses
  rw [h.1, h.2.1, h.2.2]

section Sequences

variable (storeHash : String → UInt32)

/-- Each request of the sequence returns, and is answered as the contents say. -/
inductive Conforms : FullServer → Contents → List Request → Prop
  | nil {ss : FullServer} {c : Contents} : Conforms ss c []
  | cons {ss ss' : FullServer} {c c' : Contents} {req : Request} {reqs : List Request}
      {reply : Reply} (h : ss.serve storeHash req = some (ss', reply))
      (hm : Matches ss c req ss' reply c') (hrest : Conforms ss' c' reqs) :
      Conforms ss c (req :: reqs)

/-- No request has to revoke an unexpired lease of a host whose mutex is locked. -/
def unhindered : FullServer → List Request → Bool
  | _, [] => true
  | ss, req :: reqs =>
    decide (ss.Free (ss.revokes req) req.visits) &&
      match ss.serve storeHash req with
      | some (ss', _) => unhindered ss' reqs
      | none => false

/-- The replies, if all requests return. -/
def serveAll : FullServer → List Request → Option (List Reply)
  | _, [] => some []
  | ss, req :: reqs =>
    match ss.serve storeHash req with
    | some (ss', reply) => (serveAll ss' reqs).map (reply :: ·)
    | none => none

variable {storeHash}

theorem Conforms.isSome {ss : FullServer} {c : Contents} {reqs : List Request}
    (h : Conforms storeHash ss c reqs) : (serveAll storeHash ss reqs).isSome = true := by
  induction h with
  | nil => rfl
  | cons h _ _ ih =>
    simp only [serveAll, h, Option.isSome_map]
    exact ih

/-- One request on a key the server owns. -/
theorem serve_matches {ss : FullServer} {c : Contents} {req : Request} (h : Represents ss c)
    (hown : ss.refuses storeHash req.key = none) (hfree : ss.Free (ss.revokes req) req.visits) :
    ∃ ss' reply c', ss.serve storeHash req = some (ss', reply) ∧ Matches ss c req ss' reply c' := by
  unfold FullServer.serve
  rw [hown]
  cases req with
  | get key wantLease hostPort now => exact ⟨_, _, c, rfl, get_matches h key wantLease hostPort now⟩
  | getList key wantLease hostPort now =>
    exact ⟨_, _, c, rfl, getList_matches h key wantLease hostPort now⟩
  | put key value visits => exact put_matches h key value hfree
  | appendToList key value visits => exact appendToList_matches h key value hfree
  | removeFromList key value visits => exact removeFromList_matches h key value hfree

end Sequences

/-- A server that stores `c` serves every sequence of requests on keys it owns
as the contents say, as long as no request runs into a mutex that a failed dial
has left locked. -/
theorem storage_conforms (storeHash : String → UInt32) (ss : FullServer) (c : Contents)
    (reqs : List Request) (hrep : Represents ss c)
    (hown : ∀ req ∈ reqs, ss.refuses storeHash req.key = none)
    (hfree : unhindered storeHash ss reqs = true) : Conforms storeHash ss c reqs := by
  induction reqs generalizing ss c with
  | nil => exact .nil
  | cons req reqs ih =>
    simp only [unhindered, Bool.and_eq_true, decide_eq_true_eq] at hfree
    obtain ⟨ss', reply, c', hserve, hm⟩ :=
      serve_matches hrep (hown req List.mem_cons_self) hfree.1
    refine .cons hserve hm (ih ss' c' hm.stores (fun r hr => ?_) ?_)
    · rw [(serve_ring hserve).refuses]
      exact hown r (List.mem_cons_of_mem req hr)
    · have hrest := hfree.2
      rw [hserve] at hrest
      exact hrest

theorem lone_represents : Represents lone .empty := ⟨fun _ => rfl, fun _ => rfl⟩

/-- A list is read with a lease, an item is refused because the dial fails, and
the lease has expired when the next one is appended. -/
def patient : List Request :=
  [.appendToList "k" "x" [], .getList "k" true "a" 0, .appendToList "k" "y" [⟨"a", 5, .dialError⟩],
   .appendToList "k" "y" [⟨"a", 12000000000, .timedOut⟩], .removeFromList "k" "x" [],
   .removeFromList "k" "y" [], .getList "k" false "a" 0, .put "k" "v" [], .get "k" true "b" 0]

theorem patient_conforms :
    serveAll (fun _ => 0) lone patient = some
      [.put .ok, .getList ⟨.ok, ["x"], ⟨true, 10⟩⟩, .error, .put .ok, .put .ok, .put .ok,
       .getList ⟨.ok, [], ⟨false, 0⟩⟩, .put .ok, .get ⟨.ok, "v", ⟨true, 10⟩⟩] ∧
    Conforms (fun _ => 0) lone .empty patient :=
  ⟨by decide +kernel, storage_conforms (fun _ => 0) lone .empty patient lone_represents
    (by decide +kernel) (by decide +kernel)⟩

/-- The same, but the lease has not expired. -/
def impatient : List Request :=
  [.appendToList "k" "x" [], .getList "k" true "a" 0, .appendToList "k" "y" [⟨"a", 5, .dialError⟩],
   .appendToList "k" "y" [⟨"a", 6, .acknowledged⟩]]

/-- The third request returns an error; the fourth, to which the contents answer
`OK`, never returns. -/
theorem dial_error_blocks :
    (∀ req ∈ impatient, lone.refuses (fun _ => 0) req.key = none) ∧
    serveAll (fun _ => 0) lone (impatient.take 3) =
      some [.put .ok, .getList ⟨.ok, ["x"], ⟨true, 10⟩⟩, .error] ∧
    serveAll (fun _ => 0) lone impatient = none ∧
    ¬ Conforms (fun _ => 0) lone .empty impatient := by
  have hnone : serveAll (fun _ => 0) lone impatient = none := by decide +kernel
  refine ⟨by decide +kernel, by decide +kernel, hnone, fun h => ?_⟩
  have hsome := h.isSome
  rw [hnone] at hsome
  cases hsome

end Cmu440.Tribbler
