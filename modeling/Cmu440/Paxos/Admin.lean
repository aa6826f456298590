import Cmu440.Core.Calls
import Cmu440.Core.Exchange
import Cmu440.Paxos.World
import Mathlib.Order.Lattice

/-!
# The administrator's programs

`AddPeer`, `RemovePeer` and `ChangePeer` of paxosadmin.go with the helpers they
call, as `Prog`s over the admin RPCs of a peer. A question is one `paxosAdminCall`; its
answer is the reply, or `none` (`false`) when the call failed, which the
program cannot tell from a reply that was lost. `range` stands for the order
in which Go ranges over a map.

`sliceEqual` sorts both of its arguments in place, so `AddPeer` and
`RemovePeer` go on with a sorted `peers`; the model returns the sorted lists.
`time.Sleep` and `gob.Register` do nothing to the peers and are left out, and
the lists `badPeers` of `ShowPeers` and the error it always returns as `nil`
are not read by the callers.
-/
namespace Cmu440.Paxos

variable {H V : Type}

/-- One call of `paxosAdminCall`, with its arguments. -/
inductive Ask (H V : Type)
  | setLock (srv : H) (value : Bool)
  | checkStatus (srv : H)
  | minUndecidedSlot (srv : H)
  | maxDecidedSlot (srv : H)
  | syncPaxosValue (srv : H) (slotNum : Int)
  | updatePeers (srv : H) (peers : List H) (me : Nat)
  | put (srv : H) (slotNum : Int) (value : Option V) (seqNumAccepted seqNumHighest : Int)
  | remoteKill (srv : H)
  | range (keys : List H)

/-- What comes back: `success` and the fields of the reply that are read. -/
@[reducible] def Ans : Ask H V → Type
  | .setLock .. | .remoteKill .. => Bool
  | .checkStatus _ => Option (List H)
  | .minUndecidedSlot _ | .maxDecidedSlot _ => Option (Status × Int)
  | .syncPaxosValue .. => Option (SyncPaxosValueReply V)
  | .updatePeers .. | .put .. => Option Status
  | .range _ => List H

abbrev Admin (H V : Type) := Prog (Ask H V) Ans

def paxosAdminCall (q : Ask H V) : Admin H V (Ans q) := Prog.ask q

/-- How a call of the administrator ends: with `nil` and its results, with an
error, or in a run-time panic. -/
inductive Outcome (α : Type)
  | ok (a : α)
  | error (msg : String)
  | panicked
  deriving DecidableEq, Repr

section
variable [ToString H]

/-- The accumulated `errMsg`. mirrors paxosadmin.go:97-116 -/
def lockPeers (peers : List H) (value : Bool) : Admin H V (Option String) := do
  let errMsg ← peers.zipIdx.foldlM
    (fun errMsg (p, i) => do
      let success : Bool ← paxosAdminCall (.setLock p value)
      return if success then errMsg else errMsg ++ ("cannot connect to peer " ++ toString i)) ""
  return if errMsg.length = 0 then none else some errMsg

/-- `getMin` and `getMax` over the peers, starting from the int32 bounds.
mirrors paxosadmin.go:120-150 -/
def slotBounds (peers : List H) : Admin H V (Int × Int × String) :=
  peers.foldlM
    (fun (lo, hi, errMsg) p => do
      let r : Option (Status × Int) ← paxosAdminCall (.minUndecidedSlot p)
      let (lo, errMsg) := match r with
        | some (.ok, n) => (min lo n, errMsg)
        | _ => (lo, errMsg ++
          ("error occurs when trying to get minimal undecided slot from peer " ++ toString p))
      let r : Option (Status × Int) ← paxosAdminCall (.maxDecidedSlot p)
      return match r with
        | some (.ok, n) => (lo, max hi n, errMsg)
        | _ => (lo, hi, errMsg ++
          ("error occurs when trying to get maximal decided slot from peer " ++ toString p)))
    (2147483647, -2147483648, "")

/-- The inner loop for slot `i`; `none` is the panic of `peers[i]` in the error
text, which indexes the peers by the slot. mirrors paxosadmin.go:154-163 -/
def syncSlot (peers : List H) (i : Int) : List H → String → Admin H V (Option String)
  | [], errMsg => return some errMsg
  | p :: rest, errMsg => do
    let r : Option (SyncPaxosValueReply V) ← paxosAdminCall (.syncPaxosValue p i)
    match r with
    | some ⟨.ok, _, _, _⟩ => syncSlot peers i rest errMsg
    | _ =>
      if i < 0 then return none
      else match peers[i.toNat]? with
        | none => return none
        | some q => syncSlot peers i rest (errMsg ++ ("error occurs when trying to sync gapped slot "
            ++ toString i ++ " on peer " ++ toString q))

/-- `n` iterations of the outer loop, from slot `i`. mirrors paxosadmin.go:153 -/
def syncSlots (peers : List H) : Nat → Int → String → Admin H V (Option String)
  | 0, _, errMsg => return some errMsg
  | n + 1, i, errMsg => do
    match ← syncSlot peers i peers errMsg with
    | none => return none
    | some errMsg => syncSlots peers n (i + 1) errMsg

/-- mirrors paxosadmin.go:119-172 -/
def syncPeers (peers : List H) : Admin H V (Outcome (Int × Int)) := do
  let (lo, hi, errMsg) ← slotBounds peers
  match ← syncSlots peers (hi - lo + 1).toNat lo errMsg with
  | none => return .panicked
  | some errMsg => return if errMsg.length = 0 then .ok (lo, hi) else .error errMsg

end

section
variable [DecidableEq H]

/-- The map `goodPeers`, in the order of its insertions. -/
def mapInsert (m : List (H × List H)) (k : H) (v : List H) : List (H × List H) :=
  if m.any (·.1 = k) then m.map fun e => if e.1 = k then (k, v) else e else m ++ [(k, v)]

theorem mapInsert_keys (m : List (H × List H)) (k : H) (v : List H) :
    (mapInsert m k v).map (·.1) = if k ∈ m.map (·.1) then m.map (·.1) else m.map (·.1) ++ [k] := by
  have hany : m.any (·.1 = k) = decide (k ∈ m.map (·.1)) := by
    rw [Bool.eq_iff_iff]
    simp
  unfold mapInsert
  rw [hany]
  by_cases hk : k ∈ m.map (·.1)
  · rw [if_pos (decide_eq_true hk), if_pos hk, List.map_map]
    refine List.map_congr_left fun e _ => ?_
    simp only [Function.comp_apply]
    split
    · rename_i he; exact he.symm
    · rfl
  · rw [if_neg (by simpa using hk), if_neg hk, List.map_append]
    rfl

theorem mem_mapInsert {m : List (H × List H)} {k : H} {v : List H} {e : H × List H}
    (h : e ∈ mapInsert m k v) : e = (k, v) ∨ e ∈ m := by
  unfold mapInsert at h
  split at h
  · obtain ⟨e', he', rfl⟩ := List.mem_map.mp h
    split
    · exact .inl rfl
    · exact .inr he'
  · rcases List.mem_append.mp h with h | h
    · exact .inr h
    · exact .inl (List.mem_singleton.mp h)

/-- mirrors paxosadmin.go:75-95 -/
def showPeers (peers : List H) : Admin H V (List (H × List H)) :=
  peers.foldlM
    (fun good p => do
      let r : Option (List H) ← paxosAdminCall (.checkStatus p)
      return match r with
        | some l => mapInsert good p l
        | none => good) []

end

/-! ## Comparing lists -/

section
variable [LinearOrder H]

/-- The inner loop for one `i`: `x` is `slice[i]`, the list is what follows. -/
def exchangePass (x : H) : List H → H × List H
  | [] => (x, [])
  | y :: ys =>
    if x > y then
      let (m, r) := exchangePass y ys
      (m, x :: r)
    else
      let (m, r) := exchangePass x ys
      (m, y :: r)

def exchangeSort : Nat → List H → List H
  | n + 1, x :: xs =>
    let (m, r) := exchangePass x xs
    m :: exchangeSort n r
  | _, l => l

/-- The result, and the two slices as the call leaves them.
mirrors paxosadmin.go:174-202 -/
def sliceEqual (slice1 slice2 : List H) : Bool × List H × List H :=
  if slice1.length ≠ slice2.length then (false, slice1, slice2)
  else
    let s₁ := exchangeSort slice1.length slice1
    let s₂ := exchangeSort slice2.length slice2
    (s₁ == s₂, s₁, s₂)

/-- The range over `goodPeersmap`: `none` when some list differs, otherwise
`peers` as the comparisons leave it. mirrors paxosadmin.go:221-225 -/
def sameLists : List (H × List H) → List H → Option (List H)
  | [], peers => some peers
  | (_, l) :: rest, peers =>
    match sliceEqual l peers with
    | (false, _, _) => none
    | (true, _, peers) => sameLists rest peers

theorem exchangePass_eq (x : H) (l : List H) : exchangePass x l = Exchange.pass id x l := by
  induction l generalizing x with
  | nil => rfl
  | cons y ys ih =>
    unfold exchangePass Exchange.pass
    simp only [ih]
    rfl

theorem exchangeSort_eq (n : Nat) (l : List H) : exchangeSort n l = Exchange.sort id n l := by
  induction n generalizing l with
  | zero => cases l <;> rfl
  | succ n ih =>
    cases l with
    | nil => rfl
    | cons x xs =>
      unfold exchangeSort Exchange.sort
      simp only [exchangePass_eq, ih]

theorem exchangeSort_perm (n : Nat) (l : List H) : (exchangeSort n l).Perm l := by
  rw [exchangeSort_eq]
  exact Exchange.sort_perm id n l

theorem exchangeSort_sorted (l : List H) : (exchangeSort l.length l).Pairwise (· ≤ ·) := by
  rw [exchangeSort_eq]
  exact Exchange.sort_sorted id (Nat.le_refl l.length)

/-- Sorted, the slices are equal if and only if they have the same elements. -/
theorem exchangeSort_eq_iff (slice1 slice2 : List H) :
    exchangeSort slice1.length slice1 = exchangeSort slice2.length slice2 ↔
      slice2.Perm slice1 := by
  have h₁ := exchangeSort_perm slice1.length slice1
  have h₂ := exchangeSort_perm slice2.length slice2
  constructor
  · intro heq
    rw [heq] at h₁
    exact h₂.symm.trans h₁
  · intro hperm
    exact (h₁.trans (hperm.symm.trans h₂.symm)).eq_of_pairwise (fun _ _ _ _ => le_antisymm)
      (exchangeSort_sorted slice1) (exchangeSort_sorted slice2)

/-- `sliceEqual` tells whether one slice is a permutation of the other, and leaves the
elements of each in it; if it has compared them, in order. -/
theorem sliceEqual_decides_perm (slice1 slice2 : List H) :
    ((sliceEqual slice1 slice2).1 = true ↔ slice2.Perm slice1) ∧
    (sliceEqual slice1 slice2).2.1.Perm slice1 ∧
    (sliceEqual slice1 slice2).2.2.Perm slice2 ∧
    (slice1.length = slice2.length →
      (sliceEqual slice1 slice2).2.1.Pairwise (· ≤ ·) ∧
      (sliceEqual slice1 slice2).2.2.Pairwise (· ≤ ·)) := by
  unfold sliceEqual
  split
  · rename_i hlen
    refine ⟨⟨nofun, fun hperm => ?_⟩, .refl _, .refl _, fun heq => absurd heq hlen⟩
    exact absurd hperm.length_eq.symm hlen
  · refine ⟨?_, exchangeSort_perm _ _, exchangeSort_perm _ _, fun _ =>
      ⟨exchangeSort_sorted slice1, exchangeSort_sorted slice2⟩⟩
    rw [beq_iff_eq]
    exact exchangeSort_eq_iff slice1 slice2

/-- Slices that compare as equal have the same elements, and sorting keeps them. -/
theorem sliceEqual_perm {l peers l' peers' : List H}
    (h : sliceEqual l peers = (true, l', peers')) : peers'.Perm peers ∧ l.Perm peers := by
  unfold sliceEqual at h
  split at h
  · cases h
  · simp only [Prod.mk.injEq, beq_iff_eq] at h
    obtain ⟨heq, -, rfl⟩ := h
    refine ⟨exchangeSort_perm _ _, (exchangeSort_perm l.length l).symm.trans ?_⟩
    rw [heq]
    exact exchangeSort_perm _ _

theorem sameLists_perm {good : List (H × List H)} {peers peers' : List H}
    (h : sameLists good peers = some peers') :
    peers'.Perm peers ∧ ∀ e ∈ good, e.2.Perm peers := by
  induction good generalizing peers with
  | nil => cases h; exact ⟨.refl _, fun e he => absurd he List.not_mem_nil⟩
  | cons e good ih =>
    rw [sameLists] at h
    split at h
    · cases h
    · rename_i peers₁ heq
      obtain ⟨h₁, h₂⟩ := sliceEqual_perm heq
      obtain ⟨h₃, h₄⟩ := ih h
      refine ⟨h₃.trans h₁, fun e' he' => ?_⟩
      rcases List.mem_cons.mp he' with rfl | he'
      · exact h₂
      · exact (h₄ e' he').trans h₁

variable [ToString H]

/-- mirrors paxosadmin.go:249-260 -/
def updateAll (newPeers : List H) : List (H × Nat) → Admin H V (Outcome Unit)
  | [] => return .ok ()
  | (p, i) :: rest => do
    let r : Option Status ← paxosAdminCall (.updatePeers p newPeers i)
    match r with
    | some .ok => updateAll newPeers rest
    | _ => return .error "error occurs when updating peers in AddPeer"

/-- `n` iterations of the copy loop, from slot `i`. mirrors paxosadmin.go:277-300 -/
def copySlots (src addPeer : H) : Nat → Int → Admin H V (Outcome Unit)
  | 0, _ => return .ok ()
  | n + 1, i => do
    let r : Option (SyncPaxosValueReply V) ← paxosAdminCall (.syncPaxosValue src i)
    match r with
    | some ⟨.ok, v, na, nh⟩ =>
      let r : Option Status ← paxosAdminCall (.put addPeer i v na nh)
      match r with
      | some .ok => copySlots src addPeer n (i + 1)
      | _ =>
        return .error ("slot:" ++ toString i ++
          "error occurs when trying to put all slots from one paxos peer to the new added peer")
    | _ =>
      return .error (
        "error occurs when trying to sync all slots from one paxos peer to the new added peer")

/-- What follows the quiesce of `AddPeer`, before its deferred unlock; `peers`
is not empty here. mirrors paxosadmin.go:236-308 -/
def addQuiesced (peers : List H) (addPeer : H) (err : Option String) : Admin H V (Outcome Unit) := do
  let newPeers := peers ++ [addPeer]
  match err with
  | some e => return .error e
  | none =>
    match ← syncPeers peers with
    | .panicked => return .panicked
    | .error e => return .error e
    | .ok (_, maxDecidedSlot) =>
      match ← updateAll newPeers peers.zipIdx with
      | .panicked => return .panicked
      | .error e => return .error e
      | .ok () => do
        -- the error value built when this call fails is dropped
        let _ : Option Status ← paxosAdminCall (.updatePeers addPeer newPeers (newPeers.length - 1))
        match peers with
        | [] => return .ok ()
        | src :: _ => copySlots src addPeer (maxDecidedSlot + 1).toNat 0

/-- mirrors paxosadmin.go:205-309 -/
def addPeer (peers : List H) (addPeer : H) : Admin H V (Outcome Unit) := do
  let _ ← lockPeers peers false
  if peers.length = 0 then return .error "number of existing paxos peers cannot be zero"
  else do
    let good ← showPeers peers
    if good.length < peers.length then
      return .error "Some Paxos peers in the peers list given are not working, which is not permitted when adding new Paxos node, you must first remove these un-working Paxos nodes"
    else match sameLists good peers with
      | none => return .error "The peers list in some Paxos peer is not consistent with the peers list given, please re-check the peers list on all Paxos peers and update the unconsistent one"
      | some peers => do
        let newPeers := peers ++ [addPeer]
        let err ← lockPeers newPeers true
        let out ← addQuiesced peers addPeer err
        let _ ← lockPeers newPeers false
        return out

/-- The update loop of `RemovePeer`: a peer that was not reached before may
fail. mirrors paxosadmin.go:367-378 -/
def updateGood (newPeers good : List H) : List (H × Nat) → Admin H V (Outcome Unit)
  | [] => return .ok ()
  | (p, i) :: rest => do
    let r : Option Status ← paxosAdminCall (.updatePeers p newPeers i)
    if r ≠ some .ok ∧ p ∈ good then
      return .error ("error occurs when updating peers on paxos peer " ++ toString p ++
        " in RemovePeer")
    else updateGood newPeers good rest

/-- What follows the quiesce of `RemovePeer`, before its deferred unlock.
mirrors paxosadmin.go:354-379 -/
def removeQuiesced (peers goodPeers : List H) (removePeer : H) : Admin H V (Outcome Unit) := do
  match ← syncPeers goodPeers with
  | .panicked => return .panicked
  | .error e => return .error e
  | .ok _ =>
    let newPeers := peers.filter (· ≠ removePeer)
    updateGood newPeers goodPeers newPeers.zipIdx

/-- mirrors paxosadmin.go:312-380 -/
def removePeer (peers : List H) (removePeer : H) : Admin H V (Outcome Unit) := do
  let _ ← lockPeers peers false
  let _ : Bool ← paxosAdminCall (.remoteKill removePeer)
  let goodPeersmap ← showPeers peers
  match sameLists goodPeersmap peers with
  | none => return .error "The peers list in some Paxos peer is not consistent with the peers list given, please re-check the peers list on all Paxos peers and update the unconsistent one"
  | some peers =>
    if removePeer ∉ peers then
      return .error "the hostport of removed peer is not in the list of peers given"
    else do
      let goodPeers : List H ← paxosAdminCall (.range (goodPeersmap.map (·.1)))
      let _ ← lockPeers goodPeers true
      let out ← removeQuiesced peers goodPeers removePeer
      let _ ← lockPeers goodPeers false
      return out

/-- The last position of `peerme`, or `0`. mirrors paxosadmin.go:396-401 -/
def changeIndex (peers : List H) (peerme : H) : Nat :=
  peers.zipIdx.foldl (fun me (p, i) => if p = peerme then i else me) 0

/-- Every listed peer is given the one index, and what becomes of the calls is
not looked at. mirrors paxosadmin.go:382-414 -/
def changePeer (peers : List H) (peerme : H) : Admin H V (Outcome Unit) := do
  let _ ← lockPeers peers false
  if peers.length = 0 then return .error "number of existing paxos peers cannot be zero"
  else do
    let _ ← lockPeers peers true
    peers.foldlM
      (fun _ p => do
        let _ : Option Status ← paxosAdminCall (.updatePeers p peers (changeIndex peers peerme))
        return ()) ()
    let _ ← lockPeers peers false
    return .ok ()

end

/-! ## What the programs ask of the peers -/

/-- The `SyncPaxosValue` replies a program has received, by slot. -/
def Heard (V : Type) := Int → SyncPaxosValueReply V → Prop

/-- `UpdatePeers` names its receiver at `Me`, and `Put` passes on a reply of
`SyncPaxosValue` for the same slot. -/
def admitted (g : Heard V) : Ask H V → Prop
  | .updatePeers srv peers me => peers[me]? = some srv
  | .put _ s v na nh => ∃ st, g s ⟨st, v, na, nh⟩
  | _ => True

def learn (g : Heard V) : (q : Ask H V) → Ans q → Heard V
  | .syncPaxosValue _ s, some rep => fun s' rep' => g s' rep' ∨ (s' = s ∧ rep' = rep)
  | _, _ => g

/-- Whatever the answers, the program only asks what is admitted. -/
def Sound {α : Type} (p : Admin H V α) : Prop :=
  ∀ g, Prog.wp admitted learn g p fun _ _ => True

/-- Whatever the answers, the program only asks what `ok` admits. -/
def Within {α : Type} (ok : Heard V → Ask H V → Prop) (p : Admin H V α) : Prop :=
  ∀ g, Prog.wp ok learn g p fun _ _ => True

/-- No list is changed, and `Put` passes on what was heard. -/
def calm (g : Heard V) : Ask H V → Prop
  | .updatePeers .. => False
  | .put _ s v na nh => ∃ st, g s ⟨st, v, na, nh⟩
  | _ => True

theorem calm_admitted (g : Heard V) (q : Ask H V) (h : calm g q) : admitted g q := by
  cases q with
  | updatePeers => exact h.elim
  | put => exact h
  | _ => trivial

section
variable {α β : Type} {ok : Heard V → Ask H V → Prop}

theorem Within.ret (a : α) : Within ok (pure a : Admin H V α) := fun _ => trivial

theorem Within.bind {p : Admin H V α} {f : α → Admin H V β} (hp : Within ok p)
    (hf : ∀ a, Within ok (f a)) : Within ok (p >>= f) :=
  fun g => Prog.wp_bind (Prog.wp_mono (fun g' a _ => hf a g') (hp g))

theorem Within.call {q : Ask H V} (h : ∀ g, ok g q) : Within ok (paxosAdminCall q) :=
  fun g => Prog.wp_ask (h g) fun _ => trivial

theorem Within.foldlM {f : β → α → Admin H V β} {l : List α} (b : β)
    (h : ∀ a ∈ l, ∀ b, Within ok (f b a)) : Within ok (l.foldlM f b) :=
  fun _ => Prog.wp_foldlM trivial fun a ha g b _ => h a ha b g

theorem Within.mono {ok' : Heard V → Ask H V → Prop} {p : Admin H V α}
    (h : ∀ g q, ok g q → ok' g q) (hp : Within ok p) : Within ok' p :=
  fun g => Prog.wp_admit h (hp g)

end

theorem lockPeers_calm (peers : List H) (value : Bool) :
    Within calm (lockPeers peers value : Admin H V _) := by
  refine .bind (.foldlM _ fun _ _ _ => ?_) fun _ => .ret _
  exact .bind (.call fun _ => trivial) fun _ => .ret _

theorem showPeers_calm [DecidableEq H] (peers : List H) :
    Within calm (showPeers peers : Admin H V _) :=
  .foldlM _ fun _ _ _ => .bind (.call fun _ => trivial) fun _ => .ret _

section
variable [ToString H]

theorem slotBounds_calm (peers : List H) : Within calm (slotBounds peers : Admin H V _) := by
  refine .foldlM _ fun _ _ _ => ?_
  exact .bind (.call fun _ => trivial) fun _ => .bind (.call fun _ => trivial) fun _ => .ret _

theorem syncSlot_calm (peers : List H) (i : Int) (rest : List H) (errMsg : String) :
    Within calm (syncSlot peers i rest errMsg : Admin H V _) := by
  induction rest generalizing errMsg with
  | nil => exact .ret _
  | cons p rest ih =>
    refine .bind (.call fun _ => trivial) fun r => ?_
    split
    · exact ih _
    · split
      · exact .ret _
      · split
        · exact .ret _
        · exact ih _

theorem syncSlots_calm (peers : List H) (n : Nat) (i : Int) (errMsg : String) :
    Within calm (syncSlots peers n i errMsg : Admin H V _) := by
  induction n generalizing i errMsg with
  | zero => exact .ret _
  | succ n ih =>
    refine .bind (syncSlot_calm _ _ _ _) fun r => ?_
    split
    · exact .ret _
    · exact ih _ _

theorem syncPeers_calm (peers : List H) : Within calm (syncPeers peers : Admin H V _) := by
  refine .bind (slotBounds_calm peers) fun b => .bind (syncSlots_calm _ _ _ _) fun r => ?_
  split <;> exact .ret _

end

theorem copySlots_calm (src addPeer : H) (n : Nat) (i : Int) :
    Within calm (copySlots src addPeer n i : Admin H V _) := by
  induction n generalizing i with
  | zero => exact .ret _
  | succ n ih =>
    intro g
    refine Prog.wp_bind (Prog.wp_ask trivial fun r => ?_)
    split
    · -- the reply just heard is what `Put` passes on
      refine Prog.wp_bind (Prog.wp_ask ⟨_, .inr ⟨rfl, rfl⟩⟩ fun r => ?_)
      split
      · exact ih _ _
      · exact trivial
    · exact trivial

theorem mem_zipIdx {l : List H} {e : H × Nat} (h : e ∈ l.zipIdx) : l[e.2]? = some e.1 :=
  List.mem_zipIdx_iff_getElem?.mp h

/-! The programs that change lists, for any `ok` that admits what is calm and
the updates with the new list that name their receiver. -/

section
variable {ok : Heard V → Ask H V → Prop} {newPeers : List H}

theorem updateAll_within (l : List (H × Nat))
    (h : ∀ e ∈ l, ∀ g, ok g (.updatePeers e.1 newPeers e.2)) :
    Within ok (updateAll newPeers l : Admin H V _) := by
  induction l with
  | nil => exact .ret _
  | cons e l ih =>
    refine .bind (.call (h e List.mem_cons_self)) fun r => ?_
    split
    · exact ih fun e' he' => h e' (List.mem_cons_of_mem e he')
    · exact .ret _

theorem lockPeers_within (hcalm : ∀ g q, calm g q → ok g q) (peers : List H) (value : Bool) :
    Within ok (lockPeers peers value : Admin H V _) :=
  (lockPeers_calm peers value).mono hcalm

theorem changePeer_within [LinearOrder H] (hcalm : ∀ g q, calm g q → ok g q) (peers : List H)
    (peerme : H)
    (h : ∀ srv ∈ peers, ∀ g, ok g (.updatePeers srv peers (changeIndex peers peerme))) :
    Within ok (changePeer peers peerme : Admin H V _) := by
  refine Within.bind (lockPeers_within hcalm _ _) fun _ => ?_
  split
  · exact .ret _
  · refine .bind (lockPeers_within hcalm _ _) fun _ => .bind (.foldlM _ fun p hp _ => ?_) fun _ =>
      .bind (lockPeers_within hcalm _ _) fun _ => .ret _
    exact .bind (.call (h p hp)) fun _ => .ret _

variable [ToString H]

theorem addQuiesced_within (hcalm : ∀ g q, calm g q → ok g q) (peers : List H) (p : H)
    (h : ∀ srv me, (peers ++ [p])[me]? = some srv → ∀ g, ok g (.updatePeers srv (peers ++ [p]) me))
    (err : Option String) : Within ok (addQuiesced peers p err : Admin H V _) := by
  unfold addQuiesced
  cases err with
  | some e => exact .ret _
  | none =>
    refine .bind ((syncPeers_calm peers).mono hcalm) fun r => ?_
    split
    · exact .ret _
    · exact .ret _
    · refine .bind (updateAll_within _ fun e he => h e.1 e.2 ?_) fun r => ?_
      · have hi := mem_zipIdx he
        rw [List.getElem?_append_left (List.getElem?_eq_some_iff.mp hi).1]
        exact hi
      · split
        · exact .ret _
        · exact .ret _
        · refine .bind (.call (h p _ (by simp))) fun _ => ?_
          split
          · exact .ret _
          · exact (copySlots_calm _ _ _ _).mono hcalm

variable [LinearOrder H]

theorem updateGood_within (good : List H) (l : List (H × Nat))
    (h : ∀ e ∈ l, ∀ g, ok g (.updatePeers e.1 newPeers e.2)) :
    Within ok (updateGood newPeers good l : Admin H V _) := by
  induction l with
  | nil => exact .ret _
  | cons e l ih =>
    refine .bind (.call (h e List.mem_cons_self)) fun r => ?_
    split
    · exact .ret _
    · exact ih fun e' he' => h e' (List.mem_cons_of_mem e he')

theorem removeQuiesced_within (hcalm : ∀ g q, calm g q → ok g q) (peers good : List H) (p : H)
    (h : ∀ srv me, (peers.filter (· ≠ p))[me]? = some srv →
      ∀ g, ok g (.updatePeers srv (peers.filter (· ≠ p)) me)) :
    Within ok (removeQuiesced peers good p : Admin H V _) := by
  refine .bind ((syncPeers_calm good).mono hcalm) fun r => ?_
  split
  · exact .ret _
  · exact .ret _
  · exact updateGood_within _ _ fun e he => h e.1 e.2 (mem_zipIdx he)

end

section
variable [LinearOrder H] [ToString H]

theorem addPeer_sound (peers : List H) (p : H) : Sound (addPeer peers p : Admin H V _) := by
  refine Within.bind (lockPeers_within calm_admitted _ _) fun _ => ?_
  split
  · exact .ret _
  · refine .bind ((showPeers_calm peers).mono calm_admitted) fun good => ?_
    split
    · exact .ret _
    · split
      · exact .ret _
      · exact .bind (lockPeers_within calm_admitted _ _) fun _ =>
          .bind (addQuiesced_within calm_admitted _ _ (fun _ _ hi _ => hi) _) fun _ =>
          .bind (lockPeers_within calm_admitted _ _) fun _ => .ret _

theorem removePeer_sound (peers : List H) (p : H) : Sound (removePeer peers p : Admin H V _) := by
  refine Within.bind (lockPeers_within calm_admitted _ _) fun _ =>
    .bind (.call fun _ => trivial) fun _ => .bind ((showPeers_calm peers).mono calm_admitted) fun good => ?_
  split
  · exact .ret _
  · split
    · exact .ret _
    · exact .bind (.call fun _ => trivial) fun _ =>
        .bind (lockPeers_within calm_admitted _ _) fun _ =>
        .bind (removeQuiesced_within calm_admitted _ _ _ fun _ _ hi _ => hi) fun _ =>
        .bind (lockPeers_within calm_admitted _ _) fun _ => .ret _

end

end Cmu440.Paxos
