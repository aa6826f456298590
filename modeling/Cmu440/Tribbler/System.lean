import Cmu440.Core.LTS
import Cmu440.Tribbler.Storage

/-!
# Libstores and the storage server

Any number of libstores, one for each host and port, the storage server that
owns the keys, and one clock that never goes back. `Get` and `Put` of the
libstores run concurrently; each step of `step` is what one goroutine does up
to the next point where it waits: for a mutex, a call, a timer or the clock.

* A call of the server is a request that stays in the network until the server
  handles it, and a reply that arrives at some time or never. The caller may
  get an error at any time (`failGet`, `failPut`), also while the request is
  still on its way or being handled. That covers a server that is not ready or
  does not own the key.
* `Put` holds the mutex of its key on the server while it revokes the leases,
  one after the other in any order. For each it calls `RevokeLease` at the
  holder and waits until the call has succeeded or the lease has run out. A
  failed dial leaves `clientCacheMutex` locked.
* `RevokeLease` may also come from elsewhere at any time: from a `Put` that has
  stopped waiting for it, or on behalf of a list.
* `deleteinvalid` and `deletelist` work with a time read when their loops began,
  so with any earlier time; `cacheList` is what `GetList` and the other half of
  `deleteinvalid` do to `keylist`.

`versions` is the history of each key: the values the server has stored, with
the times.
-/
namespace Cmu440.Tribbler

/-! ## Calls -/

/-- `Get` in the libstore. mirrors libstore_impl.go:246-336 -/
inductive GetPc
  | invoked
  | locking (now : Int)
  | calling (now : Int)
  | returned (value : String)
  | failed
  deriving DecidableEq, Repr

/-- Its request to the server. -/
inductive GetRpc
  | idle
  | sent (wantLease : Bool)
  | replied (reply : GetReply)
  deriving DecidableEq, Repr

structure GetCall where
  host : HostPort
  key : Key
  pc : GetPc
  rpc : GetRpc
  deriving DecidableEq, Repr

/-- `Put` in the libstore. mirrors libstore_impl.go:338-378 -/
inductive PutPc
  | invoked
  | calling
  | returned
  | failed
  deriving DecidableEq, Repr

/-- Its request to the server: `todo` are the leases the loop has not come to,
`acked` says that `RevokeLease` has succeeded at `hostport`, and `version` is
the place of the value in the history of the key.
mirrors storageserver_impl.go:297-333 and 511-553 -/
inductive PutRpc
  | idle
  | sent
  | revoking (todo : LeaseMap)
  | dialing (todo : LeaseMap) (hostport : HostPort) (validUntil : Int)
  | waiting (todo : LeaseMap) (hostport : HostPort) (validUntil : Int) (acked : Bool)
  | done (version : Nat)
  | failed

structure PutCall where
  host : HostPort
  key : Key
  value : String
  pc : PutPc
  rpc : PutRpc

/-! ## The system -/

structure Cluster where
  clock : Int
  libstores : HostPort → Libstore
  server : StorageServer
  gets : List GetCall
  puts : List PutCall
  versions : Key → List (String × Int)

inductive ClusterLbl
  | tick (d : Nat)
  | get (host : HostPort) (key : Key)
  | put (host : HostPort) (key : Key) (value : String)
  | readClock (g : Nat)
  | enterGet (g : Nat) (dial : Bool)
  | serveGet (g : Nat)
  | receiveGet (g : Nat)
  | failGet (g : Nat)
  | enterPut (p : Nat) (dial : Bool)
  | servePut (p : Nat)
  | nextLease (p : Nat) (hostport : HostPort)
  | dialLease (p : Nat) (dial : Bool)
  | revokeLease (p : Nat)
  | wakePut (p : Nat)
  | installPut (p : Nat)
  | receivePut (p : Nat)
  | failPut (p : Nat)
  | strayRevoke (host : HostPort) (key : Key)
  | sweepLook (host : HostPort) (key : Key) (now : Int)
  | sweepDelete (host : HostPort)
  | deletelist (host : HostPort) (key : Key) (now : Int)
  | cacheList (host : HostPort) (key : Key) (entry : Option ListLib)

namespace Cluster

def init (clock : Int) (mode : HostPort → LeaseMode) (connected : HostPort → Bool) : Cluster where
  clock := clock
  libstores h := .newLibstore (mode h) (connected h)
  server := .newStorageServer
  gets := []
  puts := []
  versions _ := []

def setLib (s : Cluster) (host : HostPort) (ls : Libstore) : Cluster :=
  { s with libstores := Function.update s.libstores host ls }

def setGet (s : Cluster) (g : Nat) (call : GetCall) : Cluster := { s with gets := s.gets.set g call }

def setPut (s : Cluster) (p : Nat) (call : PutCall) : Cluster := { s with puts := s.puts.set p call }

/-- Take or release the mutex of the key. -/
def setMutex (s : Cluster) (host : HostPort) (key : Key) (holder : Option Nat) : Cluster :=
  s.setLib host { s.libstores host with
    keyValueMutex := Function.update (s.libstores host).keyValueMutex key holder }

/-- Nobody has the mutex of the key at the libstore. -/
def free (s : Cluster) (host : HostPort) (key : Key) : Bool :=
  ((s.libstores host).keyValueMutex key).isNone

/-- Nobody has the mutex of the key at the server. -/
def serverFree (s : Cluster) (key : Key) : Bool := (s.server.keyValueMutex key).isNone

/-- `Get` has the mutex: it returns the cached value, or calls the server and
keeps the mutex. mirrors libstore_impl.go:249-318 -/
def enterGet (s : Cluster) (g : Nat) (call : GetCall) (now : Int) (dial : Bool) : Cluster :=
  let ls := (s.libstores call.host).lookup call.key now
  match ls.keyValue call.key with
  | some value => (s.setLib call.host ls).setGet g { call with pc := .returned value.value }
  | none =>
    if ls.connected || dial then
      ((s.setLib call.host { ls with connected := true }).setMutex call.host call.key (some g)).setGet g
        { call with pc := .calling now, rpc := .sent (ls.wantLease call.key) }
    else (s.setLib call.host ls).setGet g { call with pc := .failed }

/-- mirrors libstore_impl.go:318-336 -/
def receiveGet (s : Cluster) (g : Nat) (call : GetCall) (now : Int) (reply : GetReply) : Cluster :=
  let r := (s.libstores call.host).receive call.key now reply
  ((s.setLib call.host r.1).setMutex call.host call.key none).setGet g
    { call with pc := match r.2 with
      | some value => .returned value
      | none => .failed }

/-- The value is stored and `Put` is done. -/
def installPut (s : Cluster) (p : Nat) (call : PutCall) : Cluster :=
  { s with
      server := s.server.install call.key call.value
      versions := Function.update s.versions call.key
        (s.versions call.key ++ [(call.value, s.clock)]) }.setPut p
    { call with rpc := .done (s.versions call.key).length }

/-- mirrors storageserver_impl.go:311-322 -/
def servePut (s : Cluster) (p : Nat) (call : PutCall) : Cluster :=
  match s.server.keyValueStore call.key with
  | none => s.installPut p call
  | some valueStore =>
    { s with
        server := { s.server with
          keyValueMutex := Function.update s.server.keyValueMutex call.key (some p) } }.setPut p
      { call with rpc := .revoking valueStore.leaseGranted }

/-- mirrors storageserver_impl.go:513-517 -/
def nextLease (s : Cluster) (p : Nat) (call : PutCall) (todo : LeaseMap) (hostport : HostPort)
    (revokedLease : Lease) : Cluster :=
  s.setPut p { call with
    rpc := if s.clock < revokedLease.validUntil then
        .dialing (todo.erase hostport) hostport revokedLease.validUntil
      else .revoking (todo.erase hostport) }

/-- mirrors storageserver_impl.go:519-530 -/
def dialLease (s : Cluster) (p : Nat) (call : PutCall) (todo : LeaseMap) (hostport : HostPort)
    (validUntil : Int) (dial : Bool) : Cluster :=
  if s.server.clientCache hostport || dial then
    { s with
        server := { s.server with
          clientCache := Function.update s.server.clientCache hostport true } }.setPut p
      { call with rpc := .waiting todo hostport validUntil false }
  else
    { s with
        server := { s.server with
          clientCacheMutex := Function.update s.server.clientCacheMutex hostport true
          keyValueMutex := Function.update s.server.keyValueMutex call.key none } }.setPut p
      { call with rpc := .failed }

def step (s : Cluster) : ClusterLbl → Option Cluster
  | .tick d => some { s with clock := s.clock + d }
  | .get host key => some { s with gets := s.gets ++ [⟨host, key, .invoked, .idle⟩] }
  | .put host key value => some { s with puts := s.puts ++ [⟨host, key, value, .invoked, .idle⟩] }
  | .readClock g => do
    let call ← s.gets[g]?
    match call.pc with
    | .invoked => some (s.setGet g { call with pc := .locking s.clock })
    | _ => none
  | .enterGet g dial => do
    let call ← s.gets[g]?
    match call.pc with
    | .locking now => if s.free call.host call.key then some (s.enterGet g call now dial) else none
    | _ => none
  | .serveGet g => do
    let call ← s.gets[g]?
    match call.rpc with
    | .sent wantLease =>
      if s.serverFree call.key then
        let r := s.server.get s.clock call.key wantLease call.host
        some ({ s with server := r.1 }.setGet g { call with rpc := .replied r.2 })
      else none
    | _ => none
  | .receiveGet g => do
    let call ← s.gets[g]?
    match call.pc, call.rpc with
    | .calling now, .replied reply => some (s.receiveGet g call now reply)
    | _, _ => none
  | .failGet g => do
    let call ← s.gets[g]?
    match call.pc with
    | .calling _ =>
      some ((s.setMutex call.host call.key none).setGet g { call with pc := .failed })
    | _ => none
  | .enterPut p dial => do
    let call ← s.puts[p]?
    match call.pc with
    | .invoked =>
      if s.free call.host call.key then
        let ls := (s.libstores call.host).startHistory call.key
        if ls.connected || dial then
          some ((s.setLib call.host { ls with connected := true }).setPut p
            { call with pc := .calling, rpc := .sent })
        else some ((s.setLib call.host ls).setPut p { call with pc := .failed })
      else none
    | _ => none
  | .servePut p => do
    let call ← s.puts[p]?
    match call.rpc with
    | .sent => if s.serverFree call.key then some (s.servePut p call) else none
    | _ => none
  | .nextLease p hostport => do
    let call ← s.puts[p]?
    match call.rpc with
    | .revoking todo => (todo.lookup hostport).map (s.nextLease p call todo hostport)
    | _ => none
  | .dialLease p dial => do
    let call ← s.puts[p]?
    match call.rpc with
    | .dialing todo hostport validUntil =>
      if s.server.clientCacheMutex hostport then none
      else some (s.dialLease p call todo hostport validUntil dial)
    | _ => none
  | .revokeLease p => do
    let call ← s.puts[p]?
    match call.rpc with
    | .waiting todo hostport validUntil false =>
      if s.free hostport call.key then
        some ((s.setLib hostport ((s.libstores hostport).revokeLease call.key).1).setPut p
          { call with rpc := .waiting todo hostport validUntil true })
      else none
    | _ => none
  | .wakePut p => do
    let call ← s.puts[p]?
    match call.rpc with
    | .waiting todo _ validUntil acked =>
      if acked ∨ validUntil ≤ s.clock then some (s.setPut p { call with rpc := .revoking todo })
      else none
    | _ => none
  | .installPut p => do
    let call ← s.puts[p]?
    match call.rpc with
    | .revoking todo => if todo.keys = [] then some (s.installPut p call) else none
    | _ => none
  | .receivePut p => do
    let call ← s.puts[p]?
    match call.pc, call.rpc with
    | .calling, .done _ => some (s.setPut p { call with pc := .returned })
    | .calling, .failed => some (s.setPut p { call with pc := .failed })
    | _, _ => none
  | .failPut p => do
    let call ← s.puts[p]?
    match call.pc with
    | .calling => some (s.setPut p { call with pc := .failed })
    | _ => none
  | .strayRevoke host key =>
    if s.free host key then some (s.setLib host ((s.libstores host).revokeLease key).1) else none
  | .sweepLook host key now => do
    let value ← (s.libstores host).keyValue key
    if now ≤ s.clock then
      some (s.setLib host { s.libstores host with looked := some (now, key, value) })
    else none
  | .sweepDelete host => do
    let (now, key, value) ← (s.libstores host).looked
    if s.free host key then some (s.setLib host ((s.libstores host).deleteinvalid now key value))
    else none
  | .deletelist host key now =>
    if s.free host key ∧ now ≤ s.clock then
      some (s.setLib host ((s.libstores host).deletelist now key))
    else none
  | .cacheList host key entry =>
    some (s.setLib host { s.libstores host with
      keylist := Function.update (s.libstores host).keylist key entry })

end Cluster

def cluster : LTS Cluster ClusterLbl :=
  .ofFn (fun s => ∃ clock mode connected, s = .init clock mode connected) Cluster.step

end Cmu440.Tribbler
