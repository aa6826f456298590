import Cmu440.Core.Exchange
import Cmu440.Tribbler.Libstore
import Cmu440.Tribbler.Ring
import Mathlib.Data.List.AList
import Mathlib.Data.List.Dedup
import Mathlib.Data.List.Induction

/-!
# Joining the ring

The storage servers of a ring find each other through the master. Every server,
the master itself among them, sends it a `RegisterServer`, and a slave sends the
same request again each second until the answer is OK (`NewStorageServer`,
storageserver_impl.go). The master keeps the last `Node` it heard from each
HostPort in `serversMap`. The request that fills the map copies it to
`serversList` in whatever order the map is ranged over, sorts the list, and wakes
the master through `masterReadySignal`.

What the master answers depends on how many HostPorts it has heard from
(`Registered`): less than `numNodes`, and it says NotReady; the request that
brings them to `numNodes` publishes the list, once (`ring_published_once`).
But the map takes the newcomer in before its size is checked. One server too many
is refused and stays in the map, from then on the map is larger than `numNodes`,
and every server that still polls is refused with it
(`surplus_locks_out_registered`). As long as no more than `numNodes` HostPorts
ever ask, nobody is refused and a server that asks after the list is out gets all
of it (`registered_always_answered`).
-/
namespace Cmu440.Tribbler

/-- The part of `storageServer` that `RegisterServer` works on. `signals` counts
the sends on `masterReadySignal`. -/
structure Master where
  isMaster : Bool
  numNodes : Nat
  serversMap : AList fun _ : HostPort => Node
  serversList : List Node
  status : Status
  signals : Nat

/-- mirrors rpc/storagerpc/proto.go, `RegisterReply` -/
structure RegisterReply where
  status : Status
  servers : List Node
  deriving DecidableEq, Repr

/-- What `NewStorageServer` sets up, for a positive `numNodes`: it refuses any other.
mirrors storageserver_impl.go:66-84 -/
def newStorageServer (masterServerHostPort : HostPort) (numNodes : Nat) : Master :=
  { isMaster := masterServerHostPort == "", numNodes, serversMap := ∅,
    serversList := List.replicate numNodes ⟨"", 0⟩, status := .notReady, signals := 0 }

/-- The nodes of the map. `range` visits them in some order. -/
def Master.nodes (ss : Master) : List Node :=
  ss.serversMap.entries.map (·.2)

theorem Master.length_nodes (ss : Master) : ss.nodes.length = ss.serversMap.keys.length := by
  simp [nodes, AList.keys, List.keys]

def Master.enter (ss : Master) (slaveServerInfo : Node) : Master :=
  { ss with serversMap := ss.serversMap.insert slaveServerInfo.hostPort slaveServerInfo }

/-- The list is filled from the front, sorted, and the master is woken.
mirrors storageserver_impl.go:163-183 -/
def Master.publish (ss : Master) (order : List Node) : Master :=
  { ss with
    serversList := Exchange.sort Node.nodeID ss.numNodes (order ++ ss.serversList.drop order.length)
    status := .ok
    signals := ss.signals + 1 }

/-- `order` is the order in which the map is ranged over.
mirrors storageserver_impl.go:144-197 -/
def Master.registerServer (ss : Master) (order : List Node) (slaveServerInfo : Node) :
    Master × Except String RegisterReply :=
  if ss.isMaster = false then (ss, .error "cannot register server on a slave server")
  else
    let exist := (ss.serversMap.lookup slaveServerInfo.hostPort).isSome
    let entered := ss.enter slaveServerInfo
    let size := entered.serversMap.keys.length
    if size > ss.numNodes then
      (entered, .error "num of servers registered exceeds the num of nodes specified")
    else if size = ss.numNodes then
      let ready := if exist then entered else entered.publish order
      (ready, .ok ⟨.ok, ready.serversList⟩)
    else (entered, .ok ⟨.notReady, []⟩)

/-! ## A history of requests -/

/-- One request, with the order `range` takes should it publish the list. -/
structure Registration where
  info : Node
  order : List Node

/-- The last node heard from `hostPort`. -/
def latest (ls : List Registration) (hostPort : HostPort) : Option Node :=
  ((ls.map (·.info)).reverse).find? fun node => node.hostPort = hostPort

/-- The HostPorts that have asked, each of them once. -/
def hostPorts (ls : List Registration) : List HostPort :=
  (ls.map (·.info.hostPort)).dedup

/-- The master of a ring of `n` after the requests of `ls`. -/
def registerAll (n : Nat) (ls : List Registration) : Master :=
  ls.foldl (fun ss r => (ss.registerServer r.order r.info).1) (newStorageServer "" n)

/-- Whatever order `range` takes, it visits the nodes of the map and no other. -/
def Ranged (n : Nat) (ls : List Registration) : Prop :=
  ∀ before r after, ls = before ++ r :: after →
    r.order.Perm ((registerAll n before).enter r.info).nodes

theorem registerAll_concat (n : Nat) (ls : List Registration) (r : Registration) :
    registerAll n (ls ++ [r]) = ((registerAll n ls).registerServer r.order r.info).1 := by
  simp [registerAll]

theorem ranged_nil (n : Nat) : Ranged n [] := by
  intro before r after heq
  simp at heq

theorem ranged_concat {n : Nat} {ls : List Registration} {r : Registration} :
    Ranged n (ls ++ [r])
      ↔ Ranged n ls ∧ r.order.Perm ((registerAll n ls).enter r.info).nodes := by
  constructor
  · intro h
    refine ⟨fun before q after heq => h before q (after ++ [r]) (by simp [heq]), h ls r [] rfl⟩
  · intro ⟨hinit, hlast⟩ before q after heq
    cases after using List.reverseRecOn with
    | nil =>
      obtain ⟨rfl, hq⟩ := List.append_inj' heq rfl
      rw [← List.head_eq_of_cons_eq hq]
      exact hlast
    | append_singleton after p =>
      rw [← List.cons_append, ← List.append_assoc] at heq
      exact hinit before q after (List.append_inj' heq rfl).1

theorem latest_concat (ls : List Registration) (r : Registration) (hostPort : HostPort) :
    latest (ls ++ [r]) hostPort
      = if r.info.hostPort = hostPort then some r.info else latest ls hostPort := by
  unfold latest
  rw [List.map_append, List.reverse_append, List.map_singleton, List.reverse_singleton,
    List.singleton_append, List.find?_cons]
  split <;> rename_i h
  · rw [if_pos (of_decide_eq_true h)]
  · rw [if_neg (of_decide_eq_false h)]

theorem latest_hostPort {ls : List Registration} {hostPort : HostPort} {node : Node}
    (h : latest ls hostPort = some node) : node.hostPort = hostPort :=
  of_decide_eq_true (List.find?_some h :)

theorem latest_isSome_iff (ls : List Registration) (hostPort : HostPort) :
    (latest ls hostPort).isSome ↔ hostPort ∈ hostPorts ls := by
  simp [latest, hostPorts, List.find?_isSome, List.mem_dedup]

/-! ## What a request does -/

/-- The four ways a request to the master ends. -/
theorem Master.registerServer_cases {ss : Master} (hm : ss.isMaster = true) (order : List Node)
    (info : Node) :
    (ss.numNodes < (ss.enter info).serversMap.keys.length ∧
      ss.registerServer order info = (ss.enter info,
        .error "num of servers registered exceeds the num of nodes specified")) ∨
    ((ss.enter info).serversMap.keys.length = ss.numNodes ∧
      ss.serversMap.lookup info.hostPort = none ∧
      ss.registerServer order info = ((ss.enter info).publish order,
        .ok ⟨.ok, ((ss.enter info).publish order).serversList⟩)) ∨
    ((ss.enter info).serversMap.keys.length = ss.numNodes ∧
      (ss.serversMap.lookup info.hostPort).isSome ∧
      ss.registerServer order info = (ss.enter info, .ok ⟨.ok, ss.serversList⟩)) ∨
    ((ss.enter info).serversMap.keys.length < ss.numNodes ∧
      ss.registerServer order info = (ss.enter info, .ok ⟨.notReady, []⟩)) := by
  unfold registerServer
  simp only [hm, Bool.true_eq_false, if_false]
  split <;> rename_i hover
  · exact .inl ⟨hover, rfl⟩
  split <;> rename_i hfull
  · cases hlook : ss.serversMap.lookup info.hostPort with
    | none => exact .inr (.inl ⟨hfull, rfl, rfl⟩)
    | some node => exact .inr (.inr (.inl ⟨hfull, rfl, rfl⟩))
  · exact .inr (.inr (.inr ⟨by omega, rfl⟩))

/-- The map grows by a HostPort that is not in it, and by no other. -/
theorem Master.length_keys_enter (ss : Master) (info : Node) :
    (ss.enter info).serversMap.keys.length
      = ss.serversMap.keys.length
        + if ss.serversMap.lookup info.hostPort = none then 1 else 0 := by
  unfold enter
  rw [AList.keys_insert, List.length_cons]
  split <;> rename_i h
  · rw [List.erase_of_not_mem fun hmem => AList.lookup_eq_none.mp h (AList.mem_keys.mp hmem)]
  · have hmem : info.hostPort ∈ ss.serversMap.keys :=
      AList.mem_keys.mpr (by_contra fun hn => h (AList.lookup_eq_none.mpr hn))
    rw [List.length_erase_of_mem hmem]
    have := List.length_pos_of_mem hmem
    omega

/-- The list the master hands out: every HostPort of the map, in the order of the ids. -/
structure Master.Published (ss : Master) : Prop where
  sorted : ss.serversList.Pairwise fun a b => a.nodeID ≤ b.nodeID
  hostPorts : (ss.serversList.map Node.hostPort).Perm ss.serversMap.keys

/-- The master after the requests of `ls`: the map has the last node of everyone
who asked, and the list is out when `numNodes` have. -/
structure Registered (n : Nat) (ls : List Registration) (ss : Master) : Prop where
  isMaster : ss.isMaster = true
  numNodes : ss.numNodes = n
  length : ss.serversList.length = n
  lookup : ∀ hostPort, ss.serversMap.lookup hostPort = latest ls hostPort
  waiting : ss.serversMap.keys.length < n → ss.status = .notReady ∧ ss.signals = 0
  ready : n ≤ ss.serversMap.keys.length → ss.status = .ok ∧ ss.signals = 1
  full : ss.serversMap.keys.length = n → ss.Published

namespace Registered

variable {n : Nat} {ls : List Registration} {ss : Master}

theorem init (hn : 1 ≤ n) : Registered n [] (newStorageServer "" n) where
  isMaster := rfl
  numNodes := rfl
  length := List.length_replicate
  lookup hostPort := AList.lookup_empty hostPort
  waiting _ := ⟨rfl, rfl⟩
  ready h := absurd (show n ≤ 0 from h) (by omega)
  full h := absurd (show 0 = n from h) (by omega)

theorem lookup_enter (h : Registered n ls ss) (r : Registration) (hostPort : HostPort) :
    (ss.enter r.info).serversMap.lookup hostPort = latest (ls ++ [r]) hostPort := by
  rw [latest_concat]
  unfold Master.enter
  split <;> rename_i heq
  · rw [← heq]
    exact AList.lookup_insert _
  · rw [← h.lookup hostPort]
    exact AList.lookup_insert_ne fun heq' => heq heq'.symm

end Registered

/-- Where the map has the last node of everyone who asked, its keys are theirs. -/
theorem keys_perm_hostPorts {ls : List Registration} {ss : Master}
    (h : ∀ hostPort, ss.serversMap.lookup hostPort = latest ls hostPort) :
    ss.serversMap.keys.Perm (hostPorts ls) := by
  refine (List.perm_ext_iff_of_nodup ss.serversMap.keys_nodup (List.nodup_dedup _)).mpr
    fun hostPort => ?_
  rw [← AList.mem_keys, ← AList.lookup_isSome, h hostPort]
  exact latest_isSome_iff ls hostPort

/-- The nodes of the map are the last ones heard. -/
theorem mem_nodes_iff {ls : List Registration} {ss : Master}
    (h : ∀ hostPort, ss.serversMap.lookup hostPort = latest ls hostPort) (node : Node) :
    node ∈ ss.nodes ↔ latest ls node.hostPort = some node := by
  unfold Master.nodes
  rw [← h node.hostPort]
  constructor
  · intro hmem
    obtain ⟨⟨hostPort, node'⟩, hentry, rfl⟩ := List.mem_map.mp hmem
    have hlook : ss.serversMap.lookup hostPort = some node' := AList.mem_lookup_iff.mpr hentry
    rw [latest_hostPort ((h hostPort).symm.trans hlook), hlook]
  · intro hlook
    exact List.mem_map.mpr ⟨_, AList.mem_lookup_iff.mp hlook, rfl⟩

/-- A node stands in the map under its own HostPort. -/
theorem nodes_hostPorts {ls : List Registration} {ss : Master}
    (h : ∀ hostPort, ss.serversMap.lookup hostPort = latest ls hostPort) :
    ss.nodes.map Node.hostPort = ss.serversMap.keys := by
  unfold Master.nodes AList.keys List.keys
  rw [List.map_map]
  refine List.map_congr_left fun entry hentry => ?_
  exact latest_hostPort ((h entry.1).symm.trans (AList.mem_lookup_iff.mpr hentry))

/-- The list that is published is the map, sorted. -/
theorem Master.publish_spec (ss : Master) {order : List Node}
    (hlen : ss.serversList.length = ss.numNodes)
    (hfull : ss.serversMap.keys.length = ss.numNodes) (horder : order.Perm ss.nodes) :
    (ss.publish order).serversList.Perm ss.nodes ∧
    (ss.publish order).serversList.Pairwise fun a b => a.nodeID ≤ b.nodeID := by
  have hsize : order.length = ss.numNodes := by
    rw [horder.length_eq, length_nodes, hfull]
  have hfill : order ++ ss.serversList.drop order.length = order := by
    rw [List.drop_eq_nil_of_le (by omega), List.append_nil]
  unfold publish
  rw [hfill]
  exact ⟨(Exchange.sort_perm _ _ _).trans horder, Exchange.sort_sorted _ hsize.le⟩

namespace Registered

variable {n : Nat} {ls : List Registration} {ss : Master}

/-- One request: the master has heard from everyone it had, and from the sender. -/
theorem registerServer (h : Registered n ls ss) {r : Registration}
    (horder : r.order.Perm (ss.enter r.info).nodes) :
    Registered n (ls ++ [r]) (ss.registerServer r.order r.info).1 := by
  have hlook := h.lookup_enter r
  have hkeys := ss.length_keys_enter r.info
  have hn := h.numNodes
  rcases ss.registerServer_cases h.isMaster r.order r.info with
    ⟨hsize, heq⟩ | ⟨hsize, hnew, heq⟩ | ⟨hsize, hold, heq⟩ | ⟨hsize, heq⟩ <;> rw [heq] <;> dsimp only
  · -- the map was full already, or the sender is the one too many
    exact ⟨h.isMaster, hn, h.length, hlook, fun hlt => absurd hlt (by omega),
      fun _ => h.ready (by split at hkeys <;> omega), fun hfull => absurd hfull (by omega)⟩
  · rw [if_pos hnew] at hkeys
    obtain ⟨-, hsignals⟩ := h.waiting (by omega)
    have hspec := (ss.enter r.info).publish_spec (h.length.trans hn.symm) hsize horder
    refine ⟨h.isMaster, hn, ?_, hlook, fun hlt => absurd hlt ?_, fun _ => ⟨rfl, ?_⟩, fun _ =>
      ⟨hspec.2, ?_⟩⟩
    · rw [hspec.1.length_eq, Master.length_nodes, hsize, hn]
    · show ¬(ss.enter r.info).serversMap.keys.length < n
      omega
    · show ss.signals + 1 = 1
      omega
    · show (_ : List HostPort).Perm (ss.enter r.info).serversMap.keys
      rw [← nodes_hostPorts hlook]
      exact hspec.1.map _
  · have hlen : ss.serversMap.keys.length = n := by
      rw [if_neg (by intro hnone; rw [hnone] at hold; cases hold)] at hkeys
      omega
    obtain ⟨hsorted, hperm⟩ := h.full hlen
    -- the sender is in the map, so the keys are the ones that were published
    refine ⟨h.isMaster, hn, h.length, hlook, fun hlt => absurd hlt (by omega),
      fun _ => h.ready hlen.ge, fun _ => ⟨hsorted, hperm.trans ?_⟩⟩
    have hmem : r.info.hostPort ∈ ss.serversMap.keys :=
      AList.mem_keys.mp (AList.lookup_isSome.mp hold)
    rw [Master.enter, AList.keys_insert]
    exact List.perm_cons_erase hmem
  · exact ⟨h.isMaster, hn, h.length, hlook, fun _ => h.waiting (by omega),
      fun hle => absurd hle (by omega), fun hfull => absurd hfull (by omega)⟩

theorem registerAll (hn : 1 ≤ n) (hr : Ranged n ls) :
    Registered n ls (registerAll n ls) := by
  induction ls using List.reverseRecOn with
  | nil => exact init hn
  | append_singleton ls r ih =>
    rw [registerAll_concat]
    exact (ih (ranged_concat.mp hr).1).registerServer (ranged_concat.mp hr).2

theorem length_keys (h : Registered n ls ss) :
    ss.serversMap.keys.length = (hostPorts ls).length :=
  (keys_perm_hostPorts h.lookup).length_eq

theorem length_keys_enter (h : Registered n ls ss) (r : Registration) :
    (ss.enter r.info).serversMap.keys.length = (hostPorts (ls ++ [r])).length :=
  (keys_perm_hostPorts (h.lookup_enter r)).length_eq

/-- The signal has gone out if enough have asked. -/
theorem signals_eq (h : Registered n ls ss) :
    ss.signals = if n ≤ (hostPorts ls).length then 1 else 0 := by
  rw [← h.length_keys]
  split <;> rename_i hle
  · exact (h.ready hle).2
  · exact (h.waiting (by omega)).2

/-- The request that brings the HostPorts to `numNodes` copies the map to the list. -/
theorem published (h : Registered n ls ss) {r : Registration}
    (horder : r.order.Perm (ss.enter r.info).nodes) (hlt : (hostPorts ls).length < n)
    (hfull : (hostPorts (ls ++ [r])).length = n) :
    (ss.registerServer r.order r.info).1.serversList.Perm
      (ss.registerServer r.order r.info).1.nodes := by
  have hgrow := ss.length_keys_enter r.info
  rw [← h.length_keys] at hlt
  rw [← h.length_keys_enter] at hfull
  have hn := h.numNodes
  rcases ss.registerServer_cases h.isMaster r.order r.info with
    ⟨hsize, heq⟩ | ⟨hsize, hnew, heq⟩ | ⟨hsize, hold, heq⟩ | ⟨hsize, heq⟩
  · omega
  · rw [heq]
    exact ((ss.enter r.info).publish_spec (h.length.trans hn.symm) hsize horder).1
  · rw [if_neg (by intro hnone; rw [hnone] at hold; cases hold)] at hgrow
    omega
  · omega

end Registered

/-! ## The list is published once -/

/-- The signal goes out with the request that brings the HostPorts to `numNodes`
and with no other; the list then has the last node of everyone who asked, in the
order of the ids; and OK is not said before. -/
theorem ring_published_once {n : Nat} (hn : 1 ≤ n) (ls : List Registration) (r : Registration)
    (hr : Ranged n (ls ++ [r])) :
    let ss := registerAll n ls
    let out := ss.registerServer r.order r.info
    let completes := (hostPorts ls).length < n ∧ (hostPorts (ls ++ [r])).length = n
    out.1.signals = ss.signals + (if completes then 1 else 0) ∧
    out.1.signals ≤ 1 ∧
    (completes →
      out.1.serversList.Perm out.1.nodes ∧
      (out.1.serversList.map Node.hostPort).Perm (hostPorts (ls ++ [r])) ∧
      (∀ node, node ∈ out.1.serversList ↔ latest (ls ++ [r]) node.hostPort = some node) ∧
      out.1.serversList.Pairwise fun a b => a.nodeID ≤ b.nodeID) ∧
    (∀ reply, out.2 = .ok reply → reply.status = .ok → n ≤ (hostPorts (ls ++ [r])).length) := by
  intro ss out completes
  have h : Registered n ls ss := .registerAll hn (ranged_concat.mp hr).1
  have h' : Registered n (ls ++ [r]) out.1 := h.registerServer (ranged_concat.mp hr).2
  have hnn := h.numNodes
  have hgrow := ss.length_keys_enter r.info
  rw [h.length_keys, h.length_keys_enter] at hgrow
  have hsignals := h'.signals_eq
  refine ⟨?_, ?_, ?_, ?_⟩
  · rw [hsignals, h.signals_eq]
    split at hgrow <;> split <;> split <;> split <;> omega
  · rw [hsignals]
    split <;> omega
  · intro ⟨hlt, hfull⟩
    have hperm : out.1.serversList.Perm out.1.nodes := h.published (ranged_concat.mp hr).2 hlt hfull
    obtain ⟨hsorted, hkeys⟩ := h'.full (h'.length_keys.trans hfull)
    refine ⟨hperm, hkeys.trans (keys_perm_hostPorts h'.lookup), fun node => ?_, hsorted⟩
    rw [hperm.mem_iff]
    exact mem_nodes_iff h'.lookup node
  · intro reply hreply hok
    rcases ss.registerServer_cases h.isMaster r.order r.info with
      ⟨hsize, heq⟩ | ⟨hsize, hnew, heq⟩ | ⟨hsize, hold, heq⟩ | ⟨hsize, heq⟩ <;>
      rw [h.length_keys_enter] at hsize
    · omega
    · omega
    · omega
    · have : Except.ok ⟨.notReady, []⟩ = Except.ok reply := (congrArg Prod.snd heq).symm.trans hreply
      cases this
      cases hok

/-- Two servers, the one with the larger id first; `range` comes back in that order. -/
def largerFirst : List Registration :=
  [⟨⟨"localhost:9010", 2⟩, [⟨"localhost:9010", 2⟩]⟩,
    ⟨⟨"localhost:9009", 1⟩, [⟨"localhost:9010", 2⟩, ⟨"localhost:9009", 1⟩]⟩]

theorem largerFirst_ranged : Ranged 2 largerFirst := by
  have hfirst : Ranged 2 (largerFirst.take 1) :=
    (@ranged_concat 2 [] _).mpr ⟨ranged_nil 2, by decide⟩
  exact (@ranged_concat 2 (largerFirst.take 1) _).mpr ⟨hfirst, by decide⟩

theorem ring_published_largerFirst :
    let ss := registerAll 2 (largerFirst.take 1)
    let out := ss.registerServer [⟨"localhost:9010", 2⟩, ⟨"localhost:9009", 1⟩]
      ⟨"localhost:9009", 1⟩
    (hostPorts (largerFirst.take 1)).length < 2 ∧ (hostPorts largerFirst).length = 2 ∧
    out.1.signals ≤ 1 ∧ out.1.serversList.Pairwise fun a b => a.nodeID ≤ b.nodeID :=
  have h := ring_published_once (by decide) (largerFirst.take 1)
    ⟨⟨"localhost:9009", 1⟩, [⟨"localhost:9010", 2⟩, ⟨"localhost:9009", 1⟩]⟩ largerFirst_ranged
  ⟨by decide, by decide, h.2.1, (h.2.2.1 ⟨by decide, by decide⟩).2.2.2⟩

/-! ## One server too many -/

/-- As long as no more than `numNodes` HostPorts ask, no request is refused, and
once they have all asked each request is answered OK with the list of them all. -/
theorem registered_always_answered {n : Nat} (hn : 1 ≤ n) (ls : List Registration)
    (r : Registration) (hr : Ranged n (ls ++ [r])) (hfit : (hostPorts (ls ++ [r])).length ≤ n) :
    let ss := registerAll n ls
    let out := ss.registerServer r.order r.info
    (∃ reply, out.2 = .ok reply) ∧
    ((hostPorts ls).length = n →
      out.2 = .ok ⟨.ok, ss.serversList⟩ ∧
      (ss.serversList.map Node.hostPort).Perm (hostPorts ls)) := by
  intro ss out
  have h : Registered n ls ss := .registerAll hn (ranged_concat.mp hr).1
  have hnn := h.numNodes
  have hgrow := ss.length_keys_enter r.info
  rw [← h.length_keys_enter] at hfit
  rw [← h.length_keys]
  have hperm := fun hfull => (h.full hfull).hostPorts.trans (keys_perm_hostPorts h.lookup)
  rcases ss.registerServer_cases h.isMaster r.order r.info with
    ⟨hsize, heq⟩ | ⟨hsize, hnew, heq⟩ | ⟨hsize, hold, heq⟩ | ⟨hsize, heq⟩
  · omega
  · rw [if_pos hnew] at hgrow
    exact ⟨⟨_, congrArg Prod.snd heq⟩, fun hfull => by omega⟩
  · exact ⟨⟨_, congrArg Prod.snd heq⟩, fun hfull => ⟨congrArg Prod.snd heq, hperm hfull⟩⟩
  · exact ⟨⟨_, congrArg Prod.snd heq⟩, fun hfull => by split at hgrow <;> omega⟩

theorem registered_answered_again :
    let ss := registerAll 2 largerFirst
    (hostPorts (largerFirst ++ [⟨⟨"localhost:9010", 2⟩, ss.nodes⟩])).length ≤ 2 ∧
    (ss.registerServer ss.nodes ⟨"localhost:9010", 2⟩).2 = .ok ⟨.ok, ss.serversList⟩ :=
  ⟨by decide, ((registered_always_answered (by decide) largerFirst
    ⟨⟨"localhost:9010", 2⟩, (registerAll 2 largerFirst).nodes⟩
    (ranged_concat.mpr ⟨largerFirst_ranged, by decide⟩) (by decide)).2 (by decide)).1⟩

/-- Once one server too many has asked, everyone is refused from then on. -/
theorem refused_after_surplus {n : Nat} (hn : 1 ≤ n) (ls : List Registration)
    (hr : Ranged n ls) (hover : n < (hostPorts ls).length) (order : List Node) (info : Node) :
    ((registerAll n ls).registerServer order info).2
      = .error "num of servers registered exceeds the num of nodes specified" := by
  have h : Registered n ls (registerAll n ls) := .registerAll hn hr
  have hnn := h.numNodes
  have hgrow := (registerAll n ls).length_keys_enter info
  rw [← h.length_keys] at hover
  rcases (registerAll n ls).registerServer_cases h.isMaster order info with
    ⟨hsize, heq⟩ | ⟨hsize, hnew, heq⟩ | ⟨hsize, hold, heq⟩ | ⟨hsize, heq⟩
  · exact congrArg Prod.snd heq
  · split at hgrow <;> omega
  · split at hgrow <;> omega
  · split at hgrow <;> omega

/-- A ring of one. The master has registered and is ready; a second server asks, is
refused, and is in the map; the master asks again and is refused too. -/
theorem surplus_locks_out_registered :
    let master : Registration := ⟨⟨"localhost:9009", 1⟩, [⟨"localhost:9009", 1⟩]⟩
    let surplus : Registration :=
      ⟨⟨"localhost:9010", 2⟩, [⟨"localhost:9009", 1⟩, ⟨"localhost:9010", 2⟩]⟩
    let ss := registerAll 1 [master]
    let refused := ss.registerServer surplus.order surplus.info
    let again := refused.1.registerServer surplus.order master.info
    Ranged 1 [master, surplus] ∧ (hostPorts [master]).length = 1 ∧ ss.status = .ok ∧
    refused.2 = .error "num of servers registered exceeds the num of nodes specified" ∧
    ss.serversMap.keys = ["localhost:9009"] ∧
    refused.1.serversMap.keys = ["localhost:9010", "localhost:9009"] ∧
    again.2 = .error "num of servers registered exceeds the num of nodes specified" := by
  intro master surplus
  have hmaster : Ranged 1 [master] := (@ranged_concat 1 [] _).mpr ⟨ranged_nil 1, by decide⟩
  exact ⟨(@ranged_concat 1 [master] _).mpr ⟨hmaster, by decide⟩, by decide, by decide, rfl,
    by decide, by decide, rfl⟩

end Cmu440.Tribbler
