import Cmu440.Core.LTS
import Cmu440.Tribbler.Register

/-!
# Starting a ring

The storage servers of a ring and the libstores that use it, from the launch of the
first process on. Every process does what `NewStorageServer` or `NewLibstore` does:

* the master registers itself in a goroutine and waits for `masterReadySignal`; the
  registration that fills the map sends the signal with the mutex held, so nobody sees
  the list before the master has it;
* a slave dials the master and sends `RegisterServer` once a second until the answer is
  OK, and then takes over the list (storageserver_impl.go:119-138);
* a libstore asks for the list with `GetServers`, five times at most
  (libstore_impl.go:75-103).

A call may fail before it arrives, and its reply may be lost. More servers may be
launched than the ring has room for. What is assumed of a launch is in `Deployment`:
the servers have different addresses and different ids.

`Agreed` is what holds at any time: whoever has a list has the one the master has
published, and that is a list of launched servers in the order of their ids. Each key
then has one server, and all libstores send its requests there (`ring_agrees`).
-/
namespace Cmu440.Tribbler

/-- The servers that are launched, all with the same `numNodes` and the address of
the master. -/
structure Deployment where
  storeHash : String → UInt32
  numNodes : Nat
  master : Node
  slaves : List Node
  numNodes_pos : 1 ≤ numNodes
  master_ne : master.hostPort ≠ ""
  hostPorts_nodup : ((master :: slaves).map Node.hostPort).Nodup
  nodeIDs_nodup : ((master :: slaves).map Node.nodeID).Nodup

def Deployment.nodes (d : Deployment) : List Node := d.master :: d.slaves

/-! ## The processes -/

/-- Where `NewStorageServer` stands. A slave dials the master, registers in a loop and
leaves it with a list; the master is registering until it gets the signal. -/
inductive StartPc
  | dialing
  | registering
  | answered (servers : List Node)
  | returned
  | failed
  deriving DecidableEq, Repr

/-- What the start of a storage server works on. `selfPending` says that the goroutine in
which the master registers itself has not run yet. mirrors storageserver_impl.go:41-56 -/
structure Process where
  master : Master
  nodeID : UInt32
  pc : StartPc
  selfPending : Bool

/-- mirrors rpc/storagerpc/proto.go, `GetServersReply` -/
structure GetServersReply where
  status : Status
  servers : List Node
  deriving DecidableEq, Repr

namespace Process

/-- mirrors storageserver_impl.go:66-114 -/
def launch (masterServerHostPort : HostPort) (numNodes : Nat) (nodeID : UInt32) : Process :=
  let master := newStorageServer masterServerHostPort numNodes
  { master, nodeID, pc := if master.isMaster then .registering else .dialing,
    selfPending := master.isMaster }

/-- The signal ends the wait of `NewStorageServer`. mirrors storageserver_impl.go:144-197, 118 -/
def registerServer (p : Process) (order : List Node) (info : Node) :
    Process × Except String RegisterReply :=
  let r := p.master.registerServer order info
  ({ p with master := r.1, pc := if p.master.signals < r.1.signals then .returned else p.pc }, r.2)

/-- mirrors storageserver_impl.go:199-215 -/
def getServers (p : Process) : Except String GetServersReply :=
  if p.master.isMaster = false then .error "cannot get servers on a slave server"
  else .ok ⟨p.master.status, if p.master.status = .ok then p.master.serversList else []⟩

/-- One round of the loop. mirrors storageserver_impl.go:125-131 -/
def heard (p : Process) : Except String RegisterReply → Process
  | .ok reply => if reply.status = .ok then { p with pc := .answered reply.servers } else p
  | .error _ => p

/-- mirrors storageserver_impl.go:133-137 -/
def adopt (p : Process) (servers : List Node) : Process :=
  { p with
    master := { p.master with serversList := servers, numNodes := servers.length, status := .ok }
    pc := .returned }

end Process

/-- Where `NewLibstore` stands: it has asked `num` times, has returned an error, or has
returned a libstore with the list. -/
inductive LibstorePc
  | polling (num : Nat)
  | failed (err : String)
  | running (servers : List Node)
  deriving DecidableEq, Repr

/-- What becomes of a call: it fails, its reply is lost, or it is answered. -/
inductive Fate
  | failed
  | lost
  | answered
  deriving DecidableEq, Repr

/-- One round of the loop; `reply` is what `GetServers` answers.
mirrors libstore_impl.go:88-103 -/
def LibstorePc.poll (num : Nat) (fate : Fate) (reply : Except String GetServersReply) :
    LibstorePc :=
  if num ≥ 5 then .failed "cannot find the storage server"
  else
    match fate, reply with
    | .answered, .ok reply =>
      if reply.status = .ok then .running reply.servers else .polling (num + 1)
    | _, _ => .failed "meet error when client call"

/-! ## The steps -/

/-- All processes, by their addresses. -/
structure Fleet where
  servers : HostPort → Option Process
  libstores : HostPort → Option LibstorePc

inductive StartLbl
  | dial (host : HostPort) (ok : Bool)
  | registerSelf (order : List Node)
  | register (host : HostPort) (order : List Node) (fate : Fate)
  | adopt (host : HostPort)
  | newLibstore (host : HostPort) (dial : Bool)
  | getServers (host : HostPort) (fate : Fate)
  deriving DecidableEq, Repr

namespace Fleet

/-- mirrors storageserver_impl.go:66-114 for each server -/
def launch (d : Deployment) : Fleet where
  servers host := (d.nodes.find? fun node => node.hostPort == host).map fun node =>
    .launch (if host = d.master.hostPort then "" else d.master.hostPort) d.numNodes node.nodeID
  libstores _ := none

def setServer (f : Fleet) (host : HostPort) (p : Process) : Fleet :=
  { f with servers := Function.update f.servers host (some p) }

def setLibstore (f : Fleet) (host : HostPort) (ls : LibstorePc) : Fleet :=
  { f with libstores := Function.update f.libstores host (some ls) }

theorem setServer_self (f : Fleet) (host : HostPort) (p : Process) :
    (f.setServer host p).servers host = some p := Function.update_self ..

theorem setServer_ne (f : Fleet) {host other : HostPort} (p : Process) (h : other ≠ host) :
    (f.setServer host p).servers other = f.servers other := Function.update_of_ne h ..

/-- A slave calls `RegisterServer` at the master. mirrors storageserver_impl.go:125-131 -/
def register (d : Deployment) (f : Fleet) (host : HostPort) (p m : Process) (order : List Node) :
    Fate → Fleet
  | .failed => f
  | .lost => f.setServer d.master.hostPort (m.registerServer order ⟨host, p.nodeID⟩).1
  | .answered =>
    (f.setServer d.master.hostPort (m.registerServer order ⟨host, p.nodeID⟩).1).setServer host
      (p.heard (m.registerServer order ⟨host, p.nodeID⟩).2)

def start (d : Deployment) (f : Fleet) : StartLbl → Option Fleet
  | .dial host ok => do
    let p ← f.servers host
    match p.pc with
    | .dialing => some (f.setServer host { p with pc := if ok then .registering else .failed })
    | _ => none
  | .registerSelf order => do
    let m ← f.servers d.master.hostPort
    if m.selfPending ∧ order.Perm (m.master.enter d.master).nodes then
      some (f.setServer d.master.hostPort
        { (m.registerServer order d.master).1 with selfPending := false })
    else none
  | .register host order fate => do
    let p ← f.servers host
    let m ← f.servers d.master.hostPort
    if host ≠ d.master.hostPort ∧ p.pc = .registering ∧
        order.Perm (m.master.enter ⟨host, p.nodeID⟩).nodes then
      some (f.register d host p m order fate)
    else none
  | .adopt host => do
    let p ← f.servers host
    match p.pc with
    | .answered servers => some (f.setServer host (p.adopt servers))
    | _ => none
  | .newLibstore host dial =>
    match f.libstores host with
    | none => some (f.setLibstore host
        (if dial then .polling 0 else .failed "meet error when DialHTTP"))
    | some _ => none
  | .getServers host fate => do
    let ls ← f.libstores host
    let m ← f.servers d.master.hostPort
    match ls with
    | .polling num => some (f.setLibstore host (.poll num fate m.getServers))
    | _ => none

/-- The list the master has published. -/
def ring (d : Deployment) (f : Fleet) : Option (List Node) :=
  (f.servers d.master.hostPort).bind fun m =>
    if m.master.status = .ok then some m.master.serversList else none

end Fleet

def startup (d : Deployment) : LTS Fleet StartLbl := LTS.ofFn (· = .launch d) (Fleet.start d)

/-! ## Who is launched -/

namespace Deployment

variable {d : Deployment}

/-- An address is that of one server. -/
theorem find?_node {node : Node} (h : node ∈ d.nodes) :
    (d.nodes.find? fun other => other.hostPort == node.hostPort) = some node := by
  have hsome : (d.nodes.find? fun other => other.hostPort == node.hostPort).isSome :=
    List.find?_isSome.mpr ⟨node, h, beq_self_eq_true _⟩
  obtain ⟨other, hother⟩ := Option.isSome_iff_exists.mp hsome
  rw [hother, List.inj_on_of_nodup_map d.hostPorts_nodup (List.mem_of_find?_eq_some hother) h
    (eq_of_beq (List.find?_some hother :))]

theorem mem_of_find? {host : HostPort} {node : Node}
    (h : (d.nodes.find? fun other => other.hostPort == host) = some node) :
    node ∈ d.nodes ∧ node.hostPort = host :=
  ⟨List.mem_of_find?_eq_some h, eq_of_beq (List.find?_some h :)⟩

theorem eq_of_hostPort {a b : Node} (ha : a ∈ d.nodes) (hb : b ∈ d.nodes)
    (h : a.hostPort = b.hostPort) : a = b :=
  List.inj_on_of_nodup_map d.hostPorts_nodup ha hb h

theorem eq_of_nodeID {a b : Node} (ha : a ∈ d.nodes) (hb : b ∈ d.nodes)
    (h : a.nodeID = b.nodeID) : a = b :=
  List.inj_on_of_nodup_map d.nodeIDs_nodup ha hb h

end Deployment

/-! ## The published list -/

/-- A list of launched servers in the order of their ids, as long as the ring is. -/
structure Listed (d : Deployment) (servers : List Node) : Prop where
  length : servers.length = d.numNodes
  launched : ∀ node ∈ servers, node ∈ d.nodes
  sorted : servers.Pairwise fun a b => a.nodeID < b.nodeID

theorem Listed.ne_nil {d : Deployment} {servers : List Node} (h : Listed d servers) :
    servers ≠ [] := by
  rintro rfl
  have hlen := h.length
  have hpos := d.numNodes_pos
  rw [List.length_nil] at hlen
  omega

section Registration

variable {d : Deployment} {ls : List Registration} {ss : Master} {r : Registration}

/-- The map has nothing but nodes that registered. -/
theorem Registered.nodes_launched {n : Nat} (h : Registered n ls ss)
    (hls : ∀ r ∈ ls, r.info ∈ d.nodes) : ∀ node ∈ ss.nodes, node ∈ d.nodes := by
  intro node hnode
  have hlatest := (mem_nodes_iff h.lookup node).mp hnode
  have hmem := List.mem_of_find?_eq_some hlatest
  obtain ⟨q, hq, rfl⟩ := List.mem_map.mp (List.mem_reverse.mp hmem)
  exact hls q hq

/-- What is published. -/
theorem Registered.publish_listed {ss : Master} (h : Registered d.numNodes ls ss)
    (hls : ∀ r ∈ ls, r.info ∈ d.nodes) {servers : List Node} (hperm : servers.Perm ss.nodes)
    (hle : servers.Pairwise fun a b => a.nodeID ≤ b.nodeID)
    (hfull : ss.serversMap.keys.length = d.numNodes) : Listed d servers := by
  have hlaunched : ∀ node ∈ servers, node ∈ d.nodes := fun node hnode =>
    h.nodes_launched hls node (hperm.mem_iff.mp hnode)
  have hnodup : servers.Nodup := by
    refine hperm.nodup_iff.mpr (List.Nodup.of_map Node.hostPort ?_)
    rw [nodes_hostPorts h.lookup]
    exact ss.serversMap.keys_nodup
  refine ⟨?_, hlaunched, ?_⟩
  · rw [hperm.length_eq, Master.length_nodes, hfull]
  · refine (hle.and hnodup).imp_of_mem fun ha hb hab => ?_
    refine UInt32.lt_of_le_of_ne hab.1 fun hid => hab.2 ?_
    exact d.eq_of_nodeID (hlaunched _ ha) (hlaunched _ hb) hid

/-- A registration leaves a published list alone, and what it publishes is a list of
launched servers; a server that is told OK is told the list. -/
theorem Registered.list_kept (h : Registered d.numNodes ls ss) (hls : ∀ r ∈ ls, r.info ∈ d.nodes)
    (hinfo : r.info ∈ d.nodes) (horder : r.order.Perm (ss.enter r.info).nodes) :
    let out := ss.registerServer r.order r.info
    (ss.status = .ok → out.1.status = .ok ∧ out.1.serversList = ss.serversList) ∧
    (ss.status ≠ .ok → out.1.status = .ok → Listed d out.1.serversList) ∧
    ∀ reply, out.2 = .ok reply → reply.status = .ok →
      out.1.status = .ok ∧ reply.servers = out.1.serversList := by
  intro out
  have hgrow := ss.length_keys_enter r.info
  have h' := h.registerServer horder
  have hls' : ∀ q ∈ ls ++ [r], q.info ∈ d.nodes := by
    intro q hq
    rcases List.mem_append.mp hq with hq | hq
    · exact hls q hq
    · rw [List.mem_singleton.mp hq]
      exact hinfo
  rcases ss.registerServer_cases h.isMaster r.order r.info with
    ⟨hsize, heq⟩ | ⟨hsize, hnew, heq⟩ | ⟨hsize, hold, heq⟩ | ⟨hsize, heq⟩ <;>
    simp only [out, heq] at h' ⊢
  · refine ⟨fun hok => ⟨hok, rfl⟩, fun hnot hok => absurd hok hnot, fun reply hreply => ?_⟩
    cases hreply
  · rw [if_pos hnew] at hgrow
    have hn := h.numNodes
    obtain ⟨hwait, -⟩ := h.waiting (by omega)
    refine ⟨fun hok => ?_, fun _ _ => ?_, fun reply hreply _ => ?_⟩
    · rw [hwait] at hok
      cases hok
    · obtain ⟨hperm, hle⟩ := (ss.enter r.info).publish_spec (h.length.trans hn.symm) hsize horder
      exact h'.publish_listed hls' hperm hle (hsize.trans hn)
    · cases hreply
      exact ⟨rfl, rfl⟩
  · have hn := h.numNodes
    have hlen : ss.serversMap.keys.length = ss.numNodes := by
      rw [if_neg (by intro hnone; rw [hnone] at hold; cases hold)] at hgrow
      omega
    refine ⟨fun hok => ⟨hok, rfl⟩, fun hnot hok => absurd hok hnot, fun reply hreply _ => ?_⟩
    cases hreply
    exact ⟨(h.ready (by omega)).1, rfl⟩
  · refine ⟨fun hok => ⟨hok, rfl⟩, fun hnot hok => absurd hok hnot, fun reply hreply hok => ?_⟩
    cases hreply
    cases hok

end Registration

/-! ## Agreement -/

/-- The servers that run are the ones launched, the master has heard from none but
them, and everyone who has a list has the one that is published. -/
structure Agreed (d : Deployment) (f : Fleet) : Prop where
  launched : ∀ host, (f.servers host).map Process.nodeID =
    (d.nodes.find? fun node => node.hostPort == host).map Node.nodeID
  master : ∃ m ls, f.servers d.master.hostPort = some m ∧ Registered d.numNodes ls m.master ∧
    (∀ r ∈ ls, r.info ∈ d.nodes) ∧ (m.pc = .registering ∨ m.pc = .returned)
  listed : ∀ l, f.ring d = some l → Listed d l
  answered : ∀ host p l, f.servers host = some p → p.pc = .answered l → f.ring d = some l
  adopted : ∀ host p, f.servers host = some p → p.master.status = .ok →
    f.ring d = some p.master.serversList
  running : ∀ host l, f.libstores host = some (.running l) → f.ring d = some l

section Agreement

variable {d : Deployment} {f : Fleet}

theorem ring_eq {m : Process} (hm : f.servers d.master.hostPort = some m) :
    f.ring d = if m.master.status = .ok then some m.master.serversList else none := by
  rw [Fleet.ring, hm]
  rfl

theorem Process.launch_pc (host : HostPort) (numNodes : Nat) (nodeID : UInt32) :
    (launch host numNodes nodeID).pc = .registering ∨
      (launch host numNodes nodeID).pc = .dialing := by
  simp only [launch]
  split
  · exact .inl rfl
  · exact .inr rfl

theorem launch_agreed (d : Deployment) : Agreed d (.launch d) := by
  have hfresh : ∀ host p, (Fleet.launch d).servers host = some p →
      p.master.status ≠ .ok ∧ (p.pc = .registering ∨ p.pc = .dialing) := by
    intro host p hp
    obtain ⟨node, -, rfl⟩ := Option.map_eq_some_iff.mp hp
    exact ⟨Status.noConfusion, Process.launch_pc ..⟩
  have hmaster : (Fleet.launch d).servers d.master.hostPort =
      some (.launch "" d.numNodes d.master.nodeID) := by
    simp only [Fleet.launch, d.find?_node (List.mem_cons_self : d.master ∈ d.nodes), if_true]
    rfl
  refine ⟨fun host => ?_, ⟨_, [], hmaster, .init d.numNodes_pos, ?_, .inl rfl⟩, fun l hl => ?_,
    fun host p l hp hpc => ?_, fun host p hp hok => ?_, fun host l hl => ?_⟩
  · simp only [Fleet.launch, Option.map_map]
    rfl
  · exact fun r hr => absurd hr List.not_mem_nil
  · rw [ring_eq hmaster] at hl
    cases hl
  · rcases (hfresh host p hp).2 with h | h <;> rw [h] at hpc <;> cases hpc
  · exact absurd hok (hfresh host p hp).1
  · cases hl

/-- The node under which a server registers was launched. -/
theorem Agreed.node_mem (h : Agreed d f) {host : HostPort} {p : Process}
    (hp : f.servers host = some p) : Node.mk host p.nodeID ∈ d.nodes := by
  have hid := h.launched host
  rw [hp, Option.map_some] at hid
  obtain ⟨node, hnode, hnodeID⟩ := Option.map_eq_some_iff.mp hid.symm
  obtain ⟨hmem, rfl⟩ := Deployment.mem_of_find? hnode
  rw [← hnodeID]
  exact hmem

/-- As far as the list goes only the master counts. -/
theorem ring_setServer {host : HostPort} (p : Process) (hne : host ≠ d.master.hostPort) :
    (f.setServer host p).ring d = f.ring d := by
  rw [Fleet.ring, Fleet.setServer_ne f p hne.symm]
  rfl

theorem servers_setServer {host other : HostPort} {p q : Process}
    (h : (f.setServer host p).servers other = some q) :
    (other = host ∧ q = p) ∨ (other ≠ host ∧ f.servers other = some q) := by
  simp only [Fleet.setServer, Function.update_apply] at h
  split at h
  · rename_i heq
    exact .inl ⟨heq, (Option.some.inj h).symm⟩
  · rename_i hne
    exact .inr ⟨hne, h⟩

theorem launched_setServer (h : Agreed d f) {host : HostPort} {p p' : Process}
    (hp : f.servers host = some p) (hid : p'.nodeID = p.nodeID) (other : HostPort) :
    ((f.setServer host p').servers other).map Process.nodeID =
      (d.nodes.find? fun node => node.hostPort == other).map Node.nodeID := by
  rw [← h.launched other]
  simp only [Fleet.setServer, Function.update_apply]
  split
  · rename_i heq
    rw [heq, hp, Option.map_some, Option.map_some, hid]
  · rfl

/-- A step of a slave: what the master has published is as before. -/
theorem Agreed.setServer (h : Agreed d f) {host : HostPort} {p p' : Process}
    (hp : f.servers host = some p) (hid : p'.nodeID = p.nodeID) (hne : host ≠ d.master.hostPort)
    (hanswered : ∀ l, p'.pc = .answered l → f.ring d = some l)
    (hadopted : p'.master.status = .ok → f.ring d = some p'.master.serversList) :
    Agreed d (f.setServer host p') := by
  have hring : (f.setServer host p').ring d = f.ring d := ring_setServer p' hne
  obtain ⟨m, ls, hm, hmaster⟩ := h.master
  refine ⟨launched_setServer h hp hid, ⟨m, ls, (f.setServer_ne p' hne.symm).trans hm, hmaster⟩,
    fun l hl => ?_, fun other q l hq hpc => ?_, fun other q hq hok => ?_, fun other l hl => ?_⟩
  · rw [hring] at hl
    exact h.listed l hl
  · rw [hring]
    rcases servers_setServer hq with ⟨-, rfl⟩ | ⟨-, hq⟩
    · exact hanswered l hpc
    · exact h.answered other q l hq hpc
  · rw [hring]
    rcases servers_setServer hq with ⟨-, rfl⟩ | ⟨-, hq⟩
    · exact hadopted hok
    · exact h.adopted other q hq hok
  · rw [hring]
    exact h.running other l hl

/-- A registration at the master: the list stays, or is published; a reply that says
OK has the list. -/
theorem Agreed.registerServer (h : Agreed d f) {m : Process} {order : List Node} {info : Node}
    (hm : f.servers d.master.hostPort = some m) (hinfo : info ∈ d.nodes)
    (horder : order.Perm (m.master.enter info).nodes) (pending : Bool) :
    let f' := f.setServer d.master.hostPort
      { (m.registerServer order info).1 with selfPending := pending }
    Agreed d f' ∧ (∀ l, f.ring d = some l → f'.ring d = some l) ∧
    ∀ reply, (m.registerServer order info).2 = .ok reply → reply.status = .ok →
      f'.ring d = some reply.servers := by
  intro f'
  obtain ⟨m', ls, hm', hreg, hls, hpc⟩ := h.master
  cases hm.symm.trans hm'
  obtain ⟨hkept, hnew, hreply⟩ := hreg.list_kept (r := ⟨info, order⟩) hls hinfo horder
  have hm₁ : f'.servers d.master.hostPort =
      some { (m.registerServer order info).1 with selfPending := pending } :=
    f.setServer_self ..
  have hring : ∀ l, f.ring d = some l → f'.ring d = some l := by
    intro l hl
    rw [ring_eq hm] at hl
    split at hl
    · rename_i hok
      cases hl
      rw [ring_eq hm₁]
      exact (if_pos (hkept hok).1).trans (congrArg some (hkept hok).2)
    · cases hl
  have hpublished : ∀ l, f'.ring d = some l → Listed d l := by
    intro l hl
    by_cases hok : m.master.status = .ok
    · have hold : f.ring d = some m.master.serversList := by rw [ring_eq hm, if_pos hok]
      cases (hring _ hold).symm.trans hl
      exact h.listed _ hold
    · rw [ring_eq hm₁] at hl
      split at hl
      · rename_i hok'
        cases hl
        exact hnew hok hok'
      · cases hl
  have hpc' : (m.registerServer order info).1.pc = .registering ∨
      (m.registerServer order info).1.pc = .returned := by
    simp only [Process.registerServer]
    split
    · exact .inr rfl
    · exact hpc
  refine ⟨⟨launched_setServer h hm rfl, ⟨_, ls ++ [⟨info, order⟩], hm₁, ?_, ?_, hpc'⟩, hpublished,
    fun other q l hq hpcq => ?_, fun other q hq hok => ?_, fun other l hl => ?_⟩, hring,
    fun reply hrep hok => ?_⟩
  · exact hreg.registerServer (r := ⟨info, order⟩) horder
  · intro r hr
    rcases List.mem_append.mp hr with hr | hr
    · exact hls r hr
    · rw [List.mem_singleton.mp hr]
      exact hinfo
  · rcases servers_setServer hq with ⟨-, rfl⟩ | ⟨-, hq⟩
    · rcases hpc' with heq | heq <;> cases heq.symm.trans hpcq
    · exact hring l (h.answered other q l hq hpcq)
  · rcases servers_setServer hq with ⟨-, rfl⟩ | ⟨-, hq⟩
    · rw [ring_eq hm₁, if_pos hok]
    · exact hring _ (h.adopted other q hq hok)
  · exact hring _ (h.running other l hl)
  · obtain ⟨hok', hlist⟩ := hreply reply hrep hok
    rw [ring_eq hm₁]
    exact (if_pos hok').trans (congrArg some hlist.symm)

/-- A slave goes on as before, or has heard the list. -/
theorem heard_spec (p : Process) (out : Except String RegisterReply) :
    (p.heard out).nodeID = p.nodeID ∧ (p.heard out).master = p.master ∧
    ∀ l, (p.heard out).pc = .answered l →
      p.pc = .answered l ∨ ∃ reply, out = .ok reply ∧ reply.status = .ok ∧ reply.servers = l := by
  unfold Process.heard
  split
  · split
    · rename_i reply hok
      exact ⟨rfl, rfl, fun l hl => .inr ⟨reply, rfl, hok, StartPc.answered.inj hl⟩⟩
    · exact ⟨rfl, rfl, fun l hl => .inl hl⟩
  · exact ⟨rfl, rfl, fun l hl => .inl hl⟩

/-- The list that a libstore gets is the one that is published. -/
theorem poll_ring {m : Process} (hm : f.servers d.master.hostPort = some m) {num : Nat}
    {fate : Fate} {l : List Node} (hl : LibstorePc.poll num fate m.getServers = .running l) :
    f.ring d = some l := by
  unfold LibstorePc.poll at hl
  split at hl
  · cases hl
  · split at hl
    · rename_i reply hreply
      unfold Process.getServers at hreply
      split at hl
      · rename_i hok
        cases hl
        split at hreply
        · cases hreply
        · cases hreply
          rw [ring_eq hm, if_pos hok]
          exact congrArg some (if_pos hok).symm
      · cases hl
    · cases hl

end Agreement

/-! ## What a step does -/

section Steps

variable {d : Deployment} {f f' : Fleet}

/-- A slave that registers. -/
theorem Agreed.register (h : Agreed d f) {host : HostPort} {p m : Process} {order : List Node}
    (hp : f.servers host = some p) (hm : f.servers d.master.hostPort = some m)
    (hne : host ≠ d.master.hostPort)
    (horder : order.Perm (m.master.enter ⟨host, p.nodeID⟩).nodes) (fate : Fate) :
    Agreed d (f.register d host p m order fate) ∧
      ∀ l, f.ring d = some l → (f.register d host p m order fate).ring d = some l := by
  obtain ⟨h₁, hring, hreply⟩ := h.registerServer hm (h.node_mem hp) horder m.selfPending
  cases fate with
  | failed => exact ⟨h, fun l hl => hl⟩
  | lost => exact ⟨h₁, hring⟩
  | answered =>
    have hp₁ := (f.setServer_ne (m.registerServer order ⟨host, p.nodeID⟩).1 hne).trans hp
    obtain ⟨hid, hmaster, hanswered⟩ := heard_spec p (m.registerServer order ⟨host, p.nodeID⟩).2
    refine ⟨h₁.setServer hp₁ hid hne (fun l hl => ?_) fun hok => ?_, fun l hl => ?_⟩
    · rcases hanswered l hl with hl | ⟨reply, hrep, hok, rfl⟩
      · exact hring l (h.answered host p l hp hl)
      · exact hreply reply hrep hok
    · rw [hmaster] at hok ⊢
      exact hring _ (h.adopted host p hp hok)
    · exact (ring_setServer _ hne).trans (hring l hl)

/-- A server that dials or takes over the list it was told: that is not the master. -/
theorem Agreed.slaveStep (h : Agreed d f) {host : HostPort} {p p' : Process}
    (hp : f.servers host = some p) (hpc : p.pc = .dialing ∨ ∃ l, p.pc = .answered l)
    (hid : p'.nodeID = p.nodeID) (hanswered : ∀ l, p'.pc ≠ .answered l)
    (hadopted : p'.master.status = .ok → f.ring d = some p'.master.serversList) :
    Agreed d (f.setServer host p') ∧
      ∀ l, f.ring d = some l → (f.setServer host p').ring d = some l := by
  have hne : host ≠ d.master.hostPort := by
    rintro rfl
    obtain ⟨m, -, hm, -, -, hmaster⟩ := h.master
    cases hp.symm.trans hm
    rcases hpc with heq | ⟨l, heq⟩ <;> rcases hmaster with heq' | heq' <;> cases heq.symm.trans heq'
  refine ⟨h.setServer hp hid hne (fun l hl => absurd hl (hanswered l)) hadopted, fun l hl => ?_⟩
  rw [ring_setServer p' hne]
  exact hl

theorem Agreed.setLibstore (h : Agreed d f) (host : HostPort) {pc : LibstorePc}
    (hpc : ∀ l, pc = .running l → f.ring d = some l) : Agreed d (f.setLibstore host pc) := by
  refine ⟨h.launched, h.master, h.listed, h.answered, h.adopted, fun other l hl => ?_⟩
  simp only [Fleet.setLibstore, Function.update_apply] at hl
  split at hl
  · exact hpc l (Option.some.inj hl)
  · exact h.running other l hl

/-- Every step keeps the agreement, and the list once it is published. -/
theorem Agreed.start (h : Agreed d f) {lbl : StartLbl} (hs : f.start d lbl = some f') :
    Agreed d f' ∧ ∀ l, f.ring d = some l → f'.ring d = some l := by
  cases lbl with
  | dial host ok =>
    simp only [Fleet.start, Option.bind_eq_bind, Option.bind_eq_some_iff] at hs
    obtain ⟨p, hp, hs⟩ := hs
    split at hs
    · rename_i hpc
      cases hs
      refine h.slaveStep hp (.inl hpc) rfl (fun l => ?_) (h.adopted host p hp)
      cases ok <;> exact StartPc.noConfusion
    · cases hs
  | registerSelf order =>
    simp only [Fleet.start, Option.bind_eq_bind, Option.bind_eq_some_iff] at hs
    obtain ⟨m, hm, hs⟩ := hs
    split at hs
    · rename_i hguard
      cases hs
      obtain ⟨h', hring, -⟩ := h.registerServer hm List.mem_cons_self hguard.2 false
      exact ⟨h', hring⟩
    · cases hs
  | register host order fate =>
    simp only [Fleet.start, Option.bind_eq_bind, Option.bind_eq_some_iff] at hs
    obtain ⟨p, hp, m, hm, hs⟩ := hs
    split at hs
    · rename_i hguard
      cases hs
      exact h.register hp hm hguard.1 hguard.2.2 fate
    · cases hs
  | adopt host =>
    simp only [Fleet.start, Option.bind_eq_bind, Option.bind_eq_some_iff] at hs
    obtain ⟨p, hp, hs⟩ := hs
    split at hs
    · rename_i servers hpc
      cases hs
      exact h.slaveStep hp (.inr ⟨servers, hpc⟩) rfl (fun l => StartPc.noConfusion)
        fun _ => h.answered host p servers hp hpc
    · cases hs
  | newLibstore host dial =>
    simp only [Fleet.start] at hs
    split at hs
    · cases hs
      refine ⟨h.setLibstore host fun l hl => ?_, fun l hl => hl⟩
      cases dial <;> cases hl
    · cases hs
  | getServers host fate =>
    simp only [Fleet.start, Option.bind_eq_bind, Option.bind_eq_some_iff] at hs
    obtain ⟨ls, -, m, hm, hs⟩ := hs
    split at hs
    · cases hs
      exact ⟨h.setLibstore host fun l hl => poll_ring hm hl, fun l hl => hl⟩
    · cases hs

/-- The agreement holds from the launch on. -/
theorem agreed_reachable (hr : (startup d).Reachable f) : Agreed d f := by
  refine LTS.Inductive.reachable ⟨?_, fun f l f' h hs => ?_⟩ f hr
  · rintro f rfl
    exact launch_agreed d
  · exact (h.start hs).1

/-- The server of a key on the list: the others that know the list say it is not theirs. -/
theorem Agreed.right (h : Agreed d f) {servers : List Node} (hring : f.ring d = some servers)
    {key : Key} {right : Node} (hright : right ∈ servers)
    (howner : owner (d.storeHash (partitionKey key)) servers = some right) :
    (∀ host p, f.servers host = some p → p.master.status = .ok →
      p.master.serversList = servers ∧
      checkIsRightServer d.storeHash p.master.serversList p.nodeID key =
        some (decide (host = right.hostPort))) ∧
    ∀ host l, f.libstores host = some (.running l) → l = servers ∧
      findshashring d.storeHash l key = some right.hostPort := by
  refine ⟨fun host p hp hok => ?_, fun host l hl => ?_⟩
  · have hsame : p.master.serversList = servers :=
      Option.some.inj ((h.adopted host p hp hok).symm.trans hring)
    refine ⟨hsame, ?_⟩
    rw [hsame, checkIsRightServer_eq, howner, Option.map_some]
    congr 1
    rw [Bool.eq_iff_iff, beq_iff_eq, decide_eq_true_eq]
    have hnode : Node.mk host p.nodeID ∈ d.nodes := h.node_mem hp
    have hlaunched := (h.listed servers hring).launched right hright
    constructor
    · intro hid
      rw [Deployment.eq_of_nodeID hlaunched hnode hid]
    · intro hhost
      rw [Deployment.eq_of_hostPort hlaunched hnode hhost.symm]
  · have hsame : l = servers := Option.some.inj ((h.running host l hl).symm.trans hring)
    refine ⟨hsame, ?_⟩
    rw [hsame, findshashring_eq, howner, Option.map_some]

end Steps

/-- The servers of a `Deployment` have ids and addresses that differ. At any time either
nobody knows a list, or there is one list of launched servers in
the order of their ids, and everyone who knows a list from then on knows this one. Each
key then has one server: of those that are ready it is the only one to take the key,
and all libstores send their requests there. -/
theorem ring_agrees (d : Deployment) {f : Fleet} (hr : (startup d).Reachable f) :
    ((∀ host p, f.servers host = some p → p.master.status ≠ .ok) ∧
      ∀ host l, f.libstores host ≠ some (.running l)) ∨
    ∃ servers, Listed d servers ∧ ∀ key, ∃ right ∈ servers,
      ∀ ls f', (startup d).Run f ls f' →
        (∀ host p, f'.servers host = some p → p.master.status = .ok →
          p.master.serversList = servers ∧
          checkIsRightServer d.storeHash p.master.serversList p.nodeID key =
            some (decide (host = right.hostPort))) ∧
        ∀ host l, f'.libstores host = some (.running l) → l = servers ∧
          findshashring d.storeHash l key = some right.hostPort := by
  have h := agreed_reachable hr
  cases hring : f.ring d with
  | none =>
    refine .inl ⟨fun host p hp hok => ?_, fun host l hl => ?_⟩
    · rw [h.adopted host p hp hok] at hring
      cases hring
    · rw [h.running host l hl] at hring
      cases hring
  | some servers =>
    have hlisted := h.listed servers hring
    refine .inr ⟨servers, hlisted, fun key => ?_⟩
    obtain ⟨right, hright, howner⟩ := owner_mem (d.storeHash (partitionKey key)) hlisted.ne_nil
    refine ⟨right, hright, fun ls f' hrun => ?_⟩
    -- the list is still there after the run
    have hkept : Agreed d f' ∧ f'.ring d = some servers := by
      refine hrun.invariant (I := fun f => Agreed d f ∧ f.ring d = some servers)
        (fun f l f' hf hs => ?_) ⟨h, hring⟩
      obtain ⟨h', hring'⟩ := hf.1.start hs
      exact ⟨h', hring' servers hf.2⟩
    exact hkept.1.right hkept.2 hright howner

/-- Two servers. A key with a user of three letters belongs to the slave. -/
def twoServers : Deployment where
  storeHash s := .ofNat s.length
  numNodes := 2
  master := ⟨"localhost:9009", 2⟩
  slaves := [⟨"localhost:9010", 5⟩]
  numNodes_pos := by decide
  master_ne := by decide
  hostPorts_nodup := by decide
  nodeIDs_nodup := by decide

/-- Both servers are started and a libstore asks for the list; the first reply to the
slave is lost. -/
def starting : List StartLbl :=
  [.dial "localhost:9010" true, .register "localhost:9010" [⟨"localhost:9010", 5⟩] .lost,
    .registerSelf [⟨"localhost:9009", 2⟩, ⟨"localhost:9010", 5⟩],
    .newLibstore "localhost:8000" true, .getServers "localhost:8000" .answered]

def onTwoServers (ls : List StartLbl) : Fleet :=
  LTS.execD (Fleet.start twoServers) (.launch twoServers) ls

theorem starting_reachable : (startup twoServers).Reachable (onTwoServers starting) :=
  ⟨_, starting, rfl, LTS.run_execD (by decide +kernel)⟩

/-- The list is out before the slave has it, and it will be the one that the slave gets. -/
theorem starting_agrees :
    ∃ servers, Listed twoServers servers ∧ ∃ right ∈ servers,
      ∀ ls f', (startup twoServers).Run (onTwoServers starting) ls f' →
        ∀ p, f'.servers "localhost:9010" = some p → p.master.status = .ok →
          p.master.serversList = servers ∧
          checkIsRightServer twoServers.storeHash p.master.serversList p.nodeID "ann:user" =
            some (decide ("localhost:9010" = right.hostPort)) := by
  have hrunning : (onTwoServers starting).libstores "localhost:8000" =
      some (.running [⟨"localhost:9009", 2⟩, ⟨"localhost:9010", 5⟩]) := by decide +kernel
  rcases ring_agrees twoServers starting_reachable with ⟨-, hnone⟩ | ⟨servers, hlisted, hkey⟩
  · exact absurd hrunning (hnone _ _)
  · obtain ⟨right, hright, hrun⟩ := hkey "ann:user"
    exact ⟨servers, hlisted, right, hright, fun ls f' hl => (hrun ls f' hl).1 _⟩

end Cmu440.Tribbler
