import Mathlib.Data.List.Nodup

/-!
# Who owns a key

The storage servers stand on a ring in the order of their ids, and a key belongs
to the first server whose id is not below the hash of the key, or to the first
server of all if there is none. The libstore finds that server with a scan over
indices (`Findshashring`, libstore_impl.go), the server finds the id of the
owner with a scan over nodes (`checkIsRightServer`, storageserver_impl.go).
`owner` is what both of them look for.

`StoreHash` is a parameter. `none` is an index out of range.
-/
namespace Cmu440.Tribbler

/-- mirrors rpc/storagerpc/proto.go, `Node` -/
structure Node where
  hostPort : String
  nodeID : UInt32
  deriving DecidableEq, Repr

/-- `strings.Split`, for a separator of one character. -/
def split (sep : Char) : List Char → List (List Char)
  | [] => [[]]
  | c :: s =>
    if c = sep then [] :: split sep s
    else match split sep s with
      | [] => [[c]]
      | word :: words => (c :: word) :: words

/-- mirrors libstore_impl.go:227-244 -/
def findshashring (storeHash : String → UInt32) (servers : List Node) (key : String) :
    Option String := do
  let serverkey ← (split ':' key.toList)[0]?
  let hashring := storeHash (.ofList serverkey)
  let i := servers.findIdx fun server => decide (server.nodeID ≥ hashring)
  let server ← servers[if i = servers.length then 0 else i]?
  return server.hostPort

/-- mirrors storageserver_impl.go:468-483 -/
def checkIsRightServer (storeHash : String → UInt32) (serversList : List Node) (nodeID : UInt32)
    (key : String) : Option Bool := do
  let partitionKey ← (split ':' key.toList)[0]?
  let hashVal := storeHash (.ofList partitionKey)
  let first ← serversList[0]?
  let nodeIDBelong := match serversList.find? fun node => decide (hashVal ≤ node.nodeID) with
    | some node => node.nodeID
    | none => first.nodeID
  return nodeIDBelong == nodeID

/-! ## The owner -/

/-- The first server from `hash` on, around the ring. -/
def owner (hash : UInt32) (servers : List Node) : Option Node :=
  (servers.find? fun node => decide (hash ≤ node.nodeID)).or servers.head?

/-- What is in front of the first separator, if there is one. -/
theorem split_head (sep : Char) (s : List Char) :
    (split sep s)[0]? = some (s.takeWhile (· ≠ sep)) := by
  induction s with
  | nil => rfl
  | cons c s ih =>
    unfold split
    by_cases hc : c = sep
    · simp [hc]
    · rw [if_neg hc]
      split
      · rename_i hnil
        rw [hnil] at ih
        cases ih
      · rename_i word words hs
        rw [hs] at ih
        simp only [List.getElem?_cons_zero, Option.some.injEq] at ih ⊢
        rw [List.takeWhile_cons_of_pos (by simpa using hc), ih]

/-- The key up to the first colon decides. -/
def partitionKey (key : String) : String := .ofList (key.toList.takeWhile (· ≠ ':'))

theorem split_key (key : String) : (split ':' key.toList)[0]? = some (partitionKey key).toList := by
  rw [split_head, partitionKey, String.toList_ofList]

section Ring

variable {storeHash : String → UInt32} {servers : List Node}

theorem findshashring_eq (key : String) :
    findshashring storeHash servers key =
      (owner (storeHash (partitionKey key)) servers).map (·.hostPort) := by
  unfold findshashring owner
  rw [split_key, List.find?_eq_getElem?_findIdx]
  simp only [Option.bind_eq_bind, Option.bind_some, Option.pure_def, ge_iff_le, String.ofList_toList]
  -- both scans stop at the same place, or run off the end
  split
  · rename_i hend
    rw [hend, List.getElem?_eq_none (Nat.le_refl _), Option.none_or, List.head?_eq_getElem?]
    exact (Option.map_eq_bind ..).symm
  · rename_i hin
    have hlt := Nat.lt_of_le_of_ne List.findIdx_le_length hin
    rw [List.getElem?_eq_getElem hlt, Option.some_or]
    rfl

theorem checkIsRightServer_eq (nodeID : UInt32) (key : String) :
    checkIsRightServer storeHash servers nodeID key =
      (owner (storeHash (partitionKey key)) servers).map (·.nodeID == nodeID) := by
  unfold checkIsRightServer owner
  rw [split_key]
  simp only [Option.bind_eq_bind, Option.bind_some, Option.pure_def, String.ofList_toList]
  cases servers with
  | nil => rfl
  | cons first rest =>
    simp only [List.getElem?_cons_zero, List.head?_cons, Option.bind_some]
    split
    · rename_i node hfind
      rw [hfind, Option.some_or, Option.map_some]
    · rename_i hfind
      rw [hfind, Option.none_or, Option.map_some]

theorem owner_mem (hash : UInt32) (hne : servers ≠ []) :
    ∃ node ∈ servers, owner hash servers = some node := by
  unfold owner
  cases hfind : servers.find? fun node => decide (hash ≤ node.nodeID) with
  | some node => exact ⟨node, List.mem_of_find?_eq_some hfind, rfl⟩
  | none =>
    obtain ⟨first, rest, rfl⟩ := List.exists_cons_of_ne_nil hne
    exact ⟨first, List.mem_cons_self, rfl⟩

/-- The ids of a ring are those of different servers. -/
theorem eq_of_nodeID (hsorted : servers.Pairwise fun a b => a.nodeID < b.nodeID) {a b : Node}
    (ha : a ∈ servers) (hb : b ∈ servers) (hid : a.nodeID = b.nodeID) : a = b := by
  have hnodup : (servers.map (·.nodeID)).Nodup :=
    List.pairwise_map.mpr (hsorted.imp fun h => UInt32.ne_of_lt h)
  exact List.inj_on_of_nodup_map hnodup ha hb hid

end Ring

/-- The libstore and the servers agree on who owns a key: one server of the list
says that the key is its own, the others say it is not, and the libstore sends
requests for the key to that server. -/
theorem routing_agrees (storeHash : String → UInt32) (servers : List Node) (hne : servers ≠ [])
    (hsorted : servers.Pairwise fun a b => a.nodeID < b.nodeID) (key : String) :
    ∃ right ∈ servers, findshashring storeHash servers key = some right.hostPort ∧
      ∀ server ∈ servers, checkIsRightServer storeHash servers server.nodeID key =
        some (decide (server = right)) := by
  obtain ⟨right, hright, howner⟩ := owner_mem (storeHash (partitionKey key)) hne
  refine ⟨right, hright, ?_, fun server hserver => ?_⟩
  · rw [findshashring_eq, howner, Option.map_some]
  · rw [checkIsRightServer_eq, howner, Option.map_some]
    congr 1
    rw [Bool.eq_iff_iff, beq_iff_eq, decide_eq_true_eq]
    exact ⟨fun hid => eq_of_nodeID hsorted hserver hright hid.symm, fun h => by rw [h]⟩

/-- Past the largest id the ring begins again. -/
theorem routing_agrees_wrapped :
    ∃ right ∈ [Node.mk "a:1" 3, Node.mk "b:1" 7],
      findshashring (fun _ => 8) [Node.mk "a:1" 3, Node.mk "b:1" 7] "user:post" =
          some right.hostPort ∧
        ∀ server ∈ [Node.mk "a:1" 3, Node.mk "b:1" 7],
          checkIsRightServer (fun _ => 8) [Node.mk "a:1" 3, Node.mk "b:1" 7] server.nodeID
            "user:post" = some (decide (server = right)) :=
  routing_agrees (fun _ => 8) [Node.mk "a:1" 3, Node.mk "b:1" 7] nofun (by decide) "user:post"

end Cmu440.Tribbler
