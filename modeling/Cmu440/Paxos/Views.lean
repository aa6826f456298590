import Cmu440.Paxos.Sync

/-!
# The lists of the peers under administration

A peer counts with its `peers` and its index `me` in them: in a send loop of
`startHelper` the iteration with `i == px.me` runs the peer's own handler, and
every other one calls `peers[i]` over the network. With another peer at `me` a
peer votes in the place of that peer and once more when it calls itself, so it
can make a majority out of one vote too few.

`AddPeer` and `RemovePeer` send each peer its own index in the list they have
just sorted and extended or filtered. That the lists stay free of duplicates is
less plain. `AddPeer` of a peer that is a member already cannot return nil: its
slot 0 is decided by then, and `Put` is rejected (`not_mem_of_added`).
`RemovePeer` goes on with the given list when no listed peer has answered, but
then none of them listens, and the updates reach nobody (`removePeer_listed`).

`ChangePeer` sends one index, that of `peerme`, to every listed peer
(paxosadmin.go:396-410), as tests/networkpartition.sh has it do with three peers
at the end. All but one of them then have the wrong index
(`changePeer_misplaces`).
-/
namespace Cmu440.Paxos

variable {H V : Type}

/-! ## `AddPeer` with the maximum it copies to -/

def Outcome.forget {α : Type} : Outcome α → Outcome Unit
  | .ok _ => .ok ()
  | .error msg => .error msg
  | .panicked => .panicked

section
variable [ToString H]

/-- `addQuiesced`, returning the `maxDecidedSlot` of its `syncPeers`. -/
def addQuiescedMax (peers : List H) (addPeer : H) (err : Option String) :
    Admin H V (Outcome Int) := do
  let newPeers := peers ++ [addPeer]
  match err with
  | some e => return .error e
  | none =>
    match ← syncPeers peers with
    | .panicked => return .panicked
    | .error e => return .error e
    | .ok (_, maxDecidedSlot) =>
      match ← updateAll newPeers peers.zipIdx with
      | .panicked => return .panicked
      | .error e => return .error e
      | .ok () => do
        let _ : Option Status ← paxosAdminCall (.updatePeers addPeer newPeers (newPeers.length - 1))
        match peers with
        | [] => return .ok maxDecidedSlot
        | src :: _ =>
          match ← copySlots src addPeer (maxDecidedSlot + 1).toNat 0 with
          | .panicked => return .panicked
          | .error e => return .error e
          | .ok () => return .ok maxDecidedSlot

theorem addQuiesced_eq (peers : List H) (p : H) (err : Option String) :
    (addQuiesced peers p err : Admin H V _) =
      addQuiescedMax peers p err >>= fun out => pure out.forget := by
  unfold addQuiesced addQuiescedMax
  cases err with
  | some e => rfl
  | none =>
    simp only [bind_assoc]
    congr 1
    funext r
    rcases r with ⟨lo, hi⟩ | e | _
    · simp only [bind_assoc]
      congr 1
      funext r
      rcases r with _ | e | _
      · simp only [bind_assoc]
        congr 1
        funext r
        cases peers with
        | nil => rfl
        | cons src rest =>
          simp only [bind_assoc]
          conv_lhs => rw [← bind_pure (copySlots _ _ _ _)]
          congr 1
          funext r
          rcases r with _ | e | _ <;> rfl
      · rfl
      · rfl
    · rfl
    · rfl

variable [LinearOrder H]

/-- `addPeer`, returning the `maxDecidedSlot` of its `syncPeers`. -/
def addPeerMax (peers : List H) (addPeer : H) : Admin H V (Outcome Int) := do
  let _ ← lockPeers peers false
  if peers.length = 0 then return .error "number of existing paxos peers cannot be zero"
  else do
    let good ← showPeers peers
    if good.length < peers.length then
      return .error "Some Paxos peers in the peers list given are not working, which is not permitted when adding new Paxos node, you must first remove these un-working Paxos nodes"
    else match sameLists good peers with
      | none => return .error "The peers list in some Paxos peer is not consistent with the peers list given, please re-check the peers list on all Paxos peers and update the unconsistent one"
      | some peers => do
        let newPeers := peers ++ [addPeer]
        let err ← lockPeers newPeers true
        let out ← addQuiescedMax peers addPeer err
        let _ ← lockPeers newPeers false
        return out

theorem addPeer_eq (peers : List H) (p : H) :
    (addPeer peers p : Admin H V _) = addPeerMax peers p >>= fun out => pure out.forget := by
  unfold addPeer addPeerMax
  rw [bind_assoc]
  congr 1
  funext _
  split
  · rfl
  · rw [bind_assoc]
    congr 1
    funext good
    split
    · rfl
    · cases sameLists good peers with
      | none => rfl
      | some peers => simp only [bind_assoc, addQuiesced_eq, pure_bind]

end

/-! ## What `ShowPeers` finds -/

/-- A peer that listens answers `CheckStatus`. -/
def Guard.Attentive (G : Guard H V) : Prop :=
  ∀ w p, G.answer w (.checkStatus p) none = true → (w.peer p).deaf = true

/-- The peers `done` were asked, beginning in `w₀`. -/
structure Shows (G : Guard H V) (w₀ : World H V) (done : List H) (good : List (H × List H))
    (w : World H V) : Prop where
  calm : w₀.Calm w
  lists : ∀ e ∈ good, e.2 = (w₀.peer e.1).peers
  keys : (good.map (·.1)).Nodup
  sub : ∀ p ∈ good.map (·.1), p ∈ done
  rest : G.Attentive → ∀ p ∈ done, p ∈ good.map (·.1) ∨ (w.peer p).deaf = true

section
variable [DecidableEq H] [DecidableEq V] {noOp : Option V} {G : Guard H V} {w₀ : World H V}

omit [DecidableEq H] [DecidableEq V] in
theorem Shows.steady (done : List H) (good : List (H × List H)) :
    Steady (Shows G w₀ done good) := fun _ _ hc h =>
  ⟨h.calm.trans hc, h.lists, h.keys, h.sub, fun hG p hp =>
    (h.rest hG p hp).imp (fun h => h) fun hd => (hc p).deaf hd⟩

omit [DecidableEq V] in
/-- The next peer has answered with its list. -/
theorem Shows.found {done : List H} {good : List (H × List H)} {w : World H V}
    (h : Shows G w₀ done good w) {p : H} {l : List H} (hl : l = (w₀.peer p).peers) :
    Shows G w₀ (done ++ [p]) (mapInsert good p l) w where
  calm := h.calm
  lists e he := by
    rcases mem_mapInsert he with rfl | he
    · exact hl
    · exact h.lists e he
  keys := by
    rw [mapInsert_keys]
    split
    · exact h.keys
    · rename_i hp
      exact List.concat_eq_append ▸ h.keys.concat hp
  sub p' hp' := by
    rw [mapInsert_keys] at hp'
    split at hp'
    · exact List.mem_append_left _ (h.sub p' hp')
    · rcases List.mem_append.mp hp' with hp' | hp'
      · exact List.mem_append_left _ (h.sub p' hp')
      · exact List.mem_append_right _ hp'
  rest hG p' hp' := by
    rw [mapInsert_keys]
    rcases List.mem_append.mp hp' with hp' | hp'
    · refine (h.rest hG p' hp').imp (fun hk => ?_) fun hd => hd
      split
      · exact hk
      · exact List.mem_append_left _ hk
    · left
      rw [List.mem_singleton.mp hp']
      split
      · assumption
      · exact List.mem_append_right _ (List.mem_singleton_self p)

omit [DecidableEq H] [DecidableEq V] in
/-- The next peer has not answered. -/
theorem Shows.missed {done : List H} {good : List (H × List H)} {w : World H V}
    (h : Shows G w₀ done good w) {p : H} (hd : G.Attentive → (w.peer p).deaf = true) :
    Shows G w₀ (done ++ [p]) good w where
  calm := h.calm
  lists := h.lists
  keys := h.keys
  sub p' hp' := List.mem_append_left _ (h.sub p' hp')
  rest hG p' hp' := by
    rcases List.mem_append.mp hp' with hp' | hp'
    · exact h.rest hG p' hp'
    · rw [List.mem_singleton.mp hp']
      exact .inr (hd hG)

theorem showPeers_spec (peers : List H) :
    Triple (host noOp G) w₀.Calm (showPeers peers) fun good w => Shows G w₀ peers good w := by
  refine Triple.conseq (P := Shows G w₀ [] []) ?_ ?_ fun _ _ h => h
  · refine Triple.foldlM (fun done good => (Shows.steady done good).stable) peers [] _ ?_
    intro done good p _
    refine .bind (M := fun r w => Shows G w₀ done good w ∧
      (∀ l, r = some l → l = (w₀.peer p).peers) ∧
      (r = none → G.Attentive → (w.peer p).deaf = true)) ?_ fun r => ?_
    · refine Steady.call (Shows.steady done good) (fun r w w' hc h => ?_) fun w r w' h hg ha => ?_
      · exact ⟨Shows.steady done good w w' hc h.1, h.2.1, fun hr hG => (hc p).deaf (h.2.2 hr hG)⟩
      · have hc := ha.calm rfl
        refine ⟨Shows.steady done good w w' hc h, fun l hr => ?_, fun hr hG => ?_⟩
        · subst hr
          rw [answered_checkStatus ha]
          exact ((h.calm.trans hc) p).list.1
        · subst hr
          exact (hc p).deaf (hG w p hg)
    · refine Steady.ret (fun w w' hc h => ?_) fun w h => ?_
      · exact ⟨Shows.steady done good w w' hc h.1, h.2.1, fun hr hG => (hc p).deaf (h.2.2 hr hG)⟩
      · obtain ⟨h, hsome, hnone⟩ := h
        cases r with
        | none => exact h.missed (hnone rfl)
        | some l => exact h.found (hsome l rfl)
  · intro w h
    exact ⟨h, fun e he => absurd he List.not_mem_nil, List.nodup_nil,
      fun p hp => absurd hp List.not_mem_nil, fun _ p hp => absurd hp List.not_mem_nil⟩

end

/-! ## Runs of `AddPeer` that return nil -/

section
variable [DecidableEq H] [DecidableEq V] {noOp : Option V} {G : Guard H V} {w w' : World H V}

theorem put_call (p : H) (s : Int) (x : Option V) (na nh : Int) :
    Triple (host noOp G) (fun _ => True) (paxosAdminCall (.put p s x na nh)) fun r w =>
      r = some .ok → (w.peer p).Decided s := by
  refine Steady.call (fun _ _ _ h => h) (fun r w w' hc h hr => hc.later.decided (h hr)) ?_
  intro w r w' _ _ ha hr
  subst hr
  exact (answered_put ha).2

/-- `Put` does not succeed on a decided slot. -/
theorem put_decided (p : H) (s : Int) (x : Option V) (na nh : Int) :
    Triple (host noOp G) (fun w => (w.peer p).Decided s) (paxosAdminCall (.put p s x na nh))
      fun r _ => r ≠ some .ok := by
  refine Steady.call (fun _ _ hc h => hc.later.decided h) (fun _ _ _ _ h => h) ?_
  intro w r w' hd _ ha hr
  subst hr
  exact (answered_put ha).1 hd

theorem copySlots_decided {src p : H} {n : Nat} {i : Int} (hd : (w.peer p).Decided i) :
    ¬ Conducts (host noOp G) w (copySlots src p (n + 1) i) w' (.ok ()) := by
  intro h
  obtain ⟨w₁, r, hsync, hrest⟩ := h.of_bind
  split at hrest
  · obtain ⟨w₂, r', hput, hrest⟩ := hrest.of_bind
    have hne := put_decided p i _ _ _ _ _ _ ((conducts_later hsync).decided hd) hput
    split at hrest
    · exact absurd rfl hne
    · cases hrest.of_ret
  · cases hrest.of_ret

/-- The copy loop has decided every slot it went through at the new peer. -/
theorem copySlots_spec {src p : H} {n : Nat} {i : Int}
    (h : Conducts (host noOp G) w (copySlots src p n i) w' (.ok ())) :
    ∀ s, i ≤ s → s < i + n → (w'.peer p).Decided s := by
  induction n generalizing w i with
  | zero =>
    intro s h₁ h₂
    omega
  | succ n ih =>
    obtain ⟨w₁, r, -, hrest⟩ := h.of_bind
    split at hrest
    · obtain ⟨w₂, r', hput, hrest⟩ := hrest.of_bind
      have hd := put_call p i _ _ _ _ _ _ trivial hput
      split at hrest
      · intro s h₁ h₂
        by_cases hs : s = i
        · subst hs
          exact (conducts_later hrest).decided (hd rfl)
        · exact ih hrest s (by omega) (by push_cast at h₂; omega)
      · cases hrest.of_ret
    · cases hrest.of_ret

theorem calm_of_ret {α : Type} {a b : α} (h : Conducts (host noOp G) w (pure a) w' b) :
    w.Calm w' :=
  conducts_calm (Within.ret a) h

variable [ToString H]

/-- The parts of a run of `addQuiesced` that returns nil. -/
theorem addQuiescedMax_run {src : H} {rest : List H} {p : H} {err : Option String} {hi : Int}
    (h : Conducts (host noOp G) w (addQuiescedMax (src :: rest) p err) w' (.ok hi)) :
    ∃ w₁ w₂ w₃ w₄ lo r, Conducts (host noOp G) w (syncPeers (src :: rest)) w₁ (.ok (lo, hi)) ∧
      Conducts (host noOp G) w₁ (updateAll (src :: rest ++ [p]) (src :: rest).zipIdx) w₂ (.ok ()) ∧
      Conducts (host noOp G) w₂
        (paxosAdminCall (.updatePeers p (src :: rest ++ [p]) (src :: rest).length)) w₃ r ∧
      Conducts (host noOp G) w₃ (copySlots src p (hi + 1).toNat 0) w₄ (.ok ()) ∧ w₄.Calm w' := by
  unfold addQuiescedMax at h
  cases err with
  | some e => cases h.of_ret
  | none =>
    obtain ⟨w₁, r₁, hsync, hrest⟩ := h.of_bind
    split at hrest
    · cases hrest.of_ret
    · cases hrest.of_ret
    · rename_i lo hi'
      obtain ⟨w₂, r₂, hall, hrest⟩ := hrest.of_bind
      split at hrest
      · cases hrest.of_ret
      · cases hrest.of_ret
      · obtain ⟨w₃, r, hnew, hrest⟩ := hrest.of_bind
        obtain ⟨w₄, r₄, hcopy, hrest⟩ := hrest.of_bind
        split at hrest
        · cases hrest.of_ret
        · cases hrest.of_ret
        · have hc := calm_of_ret hrest
          cases hrest.of_ret
          refine ⟨w₁, w₂, w₃, w₄, lo, r, hsync, hall, ?_, hcopy, hc⟩
          rwa [List.length_append] at hnew

/-- The new peer is not among the old ones: they have all decided slot `0`, and
`Put` is rejected on a decided slot. -/
theorem not_mem_of_added {src : H} {rest : List H} {p : H} {err : Option String} {hi : Int}
    (hb : ∀ q ∈ src :: rest, (w.peer q).Bookkept)
    (h : Conducts (host noOp G) w (addQuiescedMax (src :: rest) p err) w' (.ok hi)) :
    p ∉ src :: rest := by
  intro hp
  obtain ⟨w₁, w₂, w₃, w₄, lo, r, hsync, hall, hnew, hcopy, -⟩ := addQuiescedMax_run h
  obtain ⟨hpos, hdec⟩ := (syncPeers_spec hb hsync).2 lo hi rfl
  have h₀ : 0 ≤ hi := hpos (List.cons_ne_nil src rest)
  have hd : (w₁.peer p).Decided 0 := hdec p hp 0 (le_refl 0) h₀
  obtain ⟨n, hn⟩ : ∃ n, (hi + 1).toNat = n + 1 := ⟨hi.toNat, by omega⟩
  rw [hn] at hcopy
  exact copySlots_decided
    (((conducts_later hall).trans (conducts_later hnew)).decided hd) hcopy

end

section
variable [LinearOrder H] [ToString H] [DecidableEq V] {noOp : Option V} {G : Guard H V}
  {w w' : World H V}

/-- A run of `AddPeer` that returns nil, with the list `peers` as the
comparisons leave it. -/
theorem addPeerMax_run {peers : List H} {p : H} {hi : Int}
    (h : Conducts (host noOp G) w (addPeerMax peers p) w' (.ok hi)) :
    ∃ src rest w₁ w₂ err, (src :: rest).Perm peers ∧ (src :: rest).Nodup ∧ w.Calm w₁ ∧
      Conducts (host noOp G) w₁ (addQuiescedMax (src :: rest) p err) w₂ (.ok hi) ∧
      w₂.Calm w' := by
  obtain ⟨w₀, _, hlock, hrest⟩ := h.of_bind
  have hc₀ := conducts_calm (lockPeers_calm _ _) hlock
  split at hrest
  · cases hrest.of_ret
  · rename_i hlen
    obtain ⟨w₁, good, hshow, hrest⟩ := hrest.of_bind
    have hs := showPeers_spec peers _ _ _ (.refl w₀) hshow
    split at hrest
    · cases hrest.of_ret
    · rename_i hge
      split at hrest
      · cases hrest.of_ret
      · rename_i peers' hsame
        obtain ⟨hperm, -⟩ := sameLists_perm hsame
        obtain ⟨w₂, err, hlock₂, hrest⟩ := hrest.of_bind
        obtain ⟨w₃, out, hadd, hrest⟩ := hrest.of_bind
        obtain ⟨w₄, _, hlock₃, hrest⟩ := hrest.of_bind
        have hc₄ := calm_of_ret hrest
        cases hrest.of_ret
        -- each given peer has answered, so the keys of the map are the given peers
        have hsub : (good.map (·.1)).Subperm peers := List.subperm_of_subset hs.keys hs.sub
        have hkeys : (good.map (·.1)).Perm peers :=
          hsub.perm_of_length_le (by rw [List.length_map]; omega)
        have hnodup : peers'.Nodup := (hkeys.trans hperm.symm).nodup_iff.mp hs.keys
        cases peers' with
        | nil =>
          exact absurd hperm.length_eq.symm hlen
        | cons src rest =>
          refine ⟨src, rest, w₂, w₃, err, hperm, hnodup, ?_, hadd, ?_⟩
          · exact (hc₀.trans hs.calm).trans (conducts_calm (lockPeers_calm _ _) hlock₂)
          · exact (conducts_calm (lockPeers_calm _ _) hlock₃).trans hc₄

theorem conducts_addPeer {peers : List H} {p : H}
    (h : Conducts (host noOp G) w (addPeer peers p) w' (.ok ())) :
    ∃ hi, Conducts (host noOp G) w (addPeerMax peers p) w' (.ok hi) := by
  rw [addPeer_eq] at h
  obtain ⟨w₁, out, hmax, hret⟩ := h.of_bind
  have hout := hret.of_ret
  cases out with
  | ok hi => exact ⟨hi, hmax.append hret⟩
  | error e => cases hout
  | panicked => cases hout

end

/-! ## Lists that name their owner -/

/-- The peer stands in its list at `me`, and nobody stands in it twice. -/
def Listed (px : Peer H V) (p : H) : Prop := ListOk (fun _ => True) px p

/-- Updates with such a list, or to a peer of `D`. -/
def listing (D : H → Prop) (_ : Heard V) : Ask H V → Prop
  | .updatePeers p l me => D p ∨ (l.Nodup ∧ l[me]? = some p)
  | _ => True

theorem calm_listing (D : H → Prop) (g : Heard V) (q : Ask H V) (h : calm g q) :
    listing D g q := by
  cases q with
  | updatePeers => exact h.elim
  | _ => trivial

section
variable [DecidableEq H] [DecidableEq V] {noOp : Option V} {G : Guard H V} {w w' : World H V}

omit [DecidableEq H] [DecidableEq V] in
theorem Listed.calm {p : H} (h : Listed (w.peer p) p) (hc : w.Calm w') : Listed (w'.peer p) p :=
  h.congr (hc p).list

theorem Answered.listed {q : Ask H V} {r : Ans q} (h : Answered noOp G w q r w') {D : H → Prop}
    {g : Heard V} (hq : listing D g q) (hD : ∀ y, D y → (w.peer y).deaf = true)
    (hw : ∀ p, Listed (w.peer p) p) : ∀ p, Listed (w'.peer p) p := by
  cases hup : q.updates with
  | false => exact fun p => (hw p).calm (h.calm hup)
  | true =>
    cases q with
    | updatePeers srv l me =>
      have hset : (w.peer srv).deaf = false →
          ∀ p, Listed ((Ask.effect w (.updatePeers srv l me)).peer p) p := by
        intro hl p
        obtain ⟨hnodup, hme⟩ := hq.resolve_left fun hy => by rw [hD srv hy] at hl; cases hl
        by_cases hp : p = srv
        · subst hp
          simp only [Ask.effect, Function.update_self]
          exact ⟨trivial, hnodup, hme⟩
        · simp only [Ask.effect, Function.update_of_ne hp]
          exact hw p
      cases h with
      | reach _ hl => exact hset (by simpa [Ask.listening, Ask.srv] using hl)
      | lost _ hl => exact hset (by simpa [Ask.listening, Ask.srv] using hl)
      | miss => exact hw
    | _ => cases hup

/-- A program that sends such updates only, and others only to peers that do not
listen, leaves every list in order. -/
theorem conducts_listed {α : Type} {p : Admin H V α} {a : α} {D : H → Prop}
    (hp : Within (listing D) p) (h : Conducts (host noOp G) w p w' a)
    (hD : ∀ y, D y → (w.peer y).deaf = true) (hw : ∀ p, Listed (w.peer p) p) :
    ∀ p, Listed (w'.peer p) p := by
  obtain ⟨g, ⟨hl, -⟩, -⟩ : ∃ g' : Heard V,
      ((∀ p, Listed (w'.peer p) p) ∧ ∀ y, D y → (w'.peer y).deaf = true) ∧ True := by
    refine h.of_wp (J := fun _ w => (∀ p, Listed (w.peer p) p) ∧ ∀ y, D y → (w.peer y).deaf = true)
      ?_ ?_ (hp fun _ _ => False) ⟨hw, hD⟩
    · intro g w₁ w₂ h₁ hs
      have hc := Guard.Moves.calm hs
      exact ⟨fun p => (h₁.1 p).calm hc, fun y hy => (hc y).deaf (h₁.2 y hy)⟩
    · intro g w₁ q r w₂ h₁ hq hs
      exact ⟨hs.2.listed hq h₁.2 h₁.1, fun y hy => (hs.2.later y).deaf (h₁.2 y hy)⟩
  exact hl

end

/-! ## The three commands -/

section
variable [LinearOrder H] [ToString H] [DecidableEq V] {noOp : Option V} {G : Guard H V}
  {w w' : World H V}

theorem addPeer_listed {peers : List H} {p : H} (hb : ∀ q, (w.peer q).Bookkept)
    (hw : ∀ q, Listed (w.peer q) q)
    (h : Conducts (host noOp G) w (addPeer peers p) w' (.ok ())) : ∀ q, Listed (w'.peer q) q := by
  obtain ⟨hi, hmax⟩ := conducts_addPeer h
  obtain ⟨src, rest, w₁, w₂, err, -, hnodup, hc, hadd, hc'⟩ := addPeerMax_run hmax
  have hnot : p ∉ src :: rest := not_mem_of_added (fun q _ => hc.later.bookkept (hb q)) hadd
  have hnew : (src :: rest ++ [p]).Nodup :=
    List.concat_eq_append ▸ hnodup.concat hnot
  have hrun : Conducts (host noOp G) w₁ (addQuiesced (src :: rest) p err) w₂ (.ok ()) := by
    rw [addQuiesced_eq]
    exact hadd.bind (.ret w₂ _)
  have hlist := conducts_listed (D := fun _ => False)
    (addQuiesced_within (calm_listing _) _ _ (fun _ _ hme _ => .inr ⟨hnew, hme⟩) _) hrun
    (fun _ hy => hy.elim) fun q => (hw q).calm hc
  exact fun q => (hlist q).calm hc'

theorem removePeer_listed (hG : G.Attentive) {peers : List H} {p : H} {out : Outcome Unit}
    (hw : ∀ q, Listed (w.peer q) q)
    (h : Conducts (host noOp G) w (removePeer peers p) w' out) : ∀ q, Listed (w'.peer q) q := by
  obtain ⟨w₁, _, hlock, hrest⟩ := h.of_bind
  obtain ⟨w₂, _, hkill, hrest⟩ := hrest.of_bind
  obtain ⟨w₃, good, hshow, hrest⟩ := hrest.of_bind
  have hs := showPeers_spec peers _ _ _ (.refl w₂) hshow
  have hc : w.Calm w₂ := (conducts_calm (lockPeers_calm _ _) hlock).trans
    (conducts_calm (Within.call (q := .remoteKill p) fun _ => trivial) hkill)
  have hw₃ : ∀ q, Listed (w₃.peer q) q := fun q => (hw q).calm (hc.trans hs.calm)
  split at hrest
  · exact fun q => (hw₃ q).calm (calm_of_ret hrest)
  · rename_i peers' hsame
    split at hrest
    · exact fun q => (hw₃ q).calm (calm_of_ret hrest)
    · obtain ⟨hperm, hlists⟩ := sameLists_perm hsame
      refine conducts_listed (D := fun y => y ∈ peers ∧ (w₃.peer y).deaf = true) ?_ hrest
        (fun y hy => hy.2) hw₃
      refine .bind (.call fun _ => trivial) fun l =>
        .bind (lockPeers_within (calm_listing _) _ _) fun _ =>
        .bind (removeQuiesced_within (calm_listing _) _ _ _ fun srv me hme _ => ?_) fun _ =>
        .bind (lockPeers_within (calm_listing _) _ _) fun _ => .ret _
      -- a peer that has answered has a list of distinct peers, which is the list given
      cases good with
      | nil =>
        have hmem : srv ∈ peers :=
          hperm.mem_iff.mp (List.mem_of_mem_filter (List.mem_of_getElem? hme))
        exact .inl ⟨hmem, (hs.rest hG srv hmem).resolve_left List.not_mem_nil⟩
      | cons e good =>
        have hnodup : peers.Nodup := by
          refine (hlists e List.mem_cons_self).nodup_iff.mp ?_
          rw [hs.lists e List.mem_cons_self]
          exact ((hw e.1).calm hc).nodup
        exact .inr ⟨(hperm.symm.nodup_iff.mp hnodup).filter _, hme⟩

omit [ToString H] in
theorem changePeer_listed {p peerme : H} {out : Outcome Unit} (hw : ∀ q, Listed (w.peer q) q)
    (h : Conducts (host noOp G) w (changePeer [p] peerme) w' out) :
    ∀ q, Listed (w'.peer q) q := by
  refine conducts_listed (D := fun _ => False)
    (changePeer_within (calm_listing _) _ _ fun q hq _ => .inr ⟨List.nodup_singleton p, ?_⟩) h
    (fun _ hy => hy.elim) hw
  have hzero : changeIndex [p] peerme = 0 := by simp [changeIndex]
  rw [hzero, List.mem_singleton.mp hq]
  rfl

/-! ## Whole histories -/

/-- The command returns nil, and `ChangePeer` is called with one peer. -/
def single (op : Op H) (out : Outcome Unit) : Prop :=
  out = .ok () ∧ ∀ peers peerme, op = .changePeer peers peerme → peers.length = 1

/-- A peer that listens answers `CheckStatus`. -/
def attentive : Guard H V where
  step _ _ := true
  handle _ _ := true
  answer w q r :=
    match q, r with
    | .checkStatus p, none => (w.peer p).deaf
    | _, _ => true

omit [LinearOrder H] [ToString H] [DecidableEq V] in
theorem attentive_attentive : (attentive : Guard H V).Attentive := fun _ _ h => h

/-- Every peer keeps its books and its list in order. -/
def InOrder (w : World H V) : Prop := ∀ p, (w.peer p).Bookkept ∧ Listed (w.peer p) p

omit [ToString H] [DecidableEq V] in
theorem inOrder_launch {L : List H} (hL : L.Nodup) : InOrder (World.launch L : World H V) := by
  intro p
  simp only [World.launch]
  split
  · rename_i hp
    exact ⟨Peer.bookkept_make L _, trivial, hL, List.getElem?_idxOf hp⟩
  · exact ⟨Peer.bookkept_make [p] 0, trivial, List.nodup_singleton p, rfl⟩

theorem inOrder_inductive (noOp : Option V) (hG : G.Attentive) :
    (administration noOp G single).Inductive InOrder where
  init := by
    rintro w ⟨L, hL, rfl⟩
    exact inOrder_launch hL
  step := by
    intro w e w' h hs
    cases e with
    | world l =>
      have hc := (G.moves_of_move hs).calm
      exact fun p => ⟨hc.later.bookkept (h p).1, (h p).2.calm hc⟩
    | call op =>
      obtain ⟨out, ⟨rfl, hone⟩, hrun⟩ := hs
      have hlist : ∀ p, Listed (w'.peer p) p := by
        cases op with
        | addPeer peers p => exact addPeer_listed (fun q => (h q).1) (fun q => (h q).2) hrun
        | removePeer peers p => exact removePeer_listed hG (fun q => (h q).2) hrun
        | changePeer peers peerme =>
          obtain ⟨p, rfl⟩ := List.length_eq_one_iff.mp (hone peers peerme rfl)
          exact changePeer_listed (fun q => (h q).2) hrun
      exact fun p => ⟨(conducts_later hrun).bookkept (h p).1, hlist p⟩

end

/-! ## What the send loops make of a list -/

/-- The peers that a send loop calls over the network from index `i` on; at
`me` it runs the handler of its own peer. mirrors paxos.go:459-473 -/
def callsFrom (me : Nat) : Nat → List H → List H
  | _, [] => []
  | i, dst :: rest => if i = me then callsFrom me (i + 1) rest else dst :: callsFrom me (i + 1) rest

def Peer.contacts (px : Peer H V) : List H := callsFrom px.me 0 px.peers

theorem callsFrom_past {me i : Nat} (h : me < i) (l : List H) : callsFrom me i l = l := by
  induction l generalizing i with
  | nil => rfl
  | cons dst rest ih => rw [callsFrom, if_neg (by omega), ih (by omega)]

theorem callsFrom_eq {me i : Nat} (h : i ≤ me) (l : List H) :
    callsFrom me i l = l.eraseIdx (me - i) := by
  induction l generalizing i with
  | nil => rfl
  | cons dst rest ih =>
    rw [callsFrom]
    split
    · rename_i hi
      rw [callsFrom_past (by omega), hi, Nat.sub_self, List.eraseIdx_cons_zero]
    · rename_i hi
      rw [ih (by omega), show me - i = me - (i + 1) + 1 by omega, List.eraseIdx_cons_succ]

/-- With its list in order a peer calls every other member and not itself. -/
theorem Listed.contacts [DecidableEq H] {px : Peer H V} {p : H} (h : Listed px p) :
    px.contacts = px.peers.erase p := by
  have hme : px.me = px.peers.idxOf p := (h.index (List.getElem?_idxOf h.self_mem)).symm
  rw [Peer.contacts, callsFrom_eq (Nat.zero_le _), Nat.sub_zero, hme,
    List.eraseIdx_idxOf_eq_erase]

/-- The run is in one of its three send loops. -/
def Pc.sends : Pc → Bool
  | .sendPrepare | .sendAccept | .sendDecide => true
  | _ => false

/-- Where a request goes. -/
def Msg.dst : Msg H V → Option H
  | .prepare _ _ dst _ _ | .accept _ _ dst _ _ _ | .decide dst _ _ => some dst
  | .prepareReply .. | .acceptReply .. => none

/-- The receivers of the requests in the network, the last one first. -/
def World.requests (w : World H V) : List H := w.net.filterMap Msg.dst

section
variable [DecidableEq H] [DecidableEq V] {w : World H V} {j : Nat} {r : Run H V}

/-- One iteration of a send loop. -/
theorem send_step (hj : w.runs[j]? = some r) (hpc : r.pc.sends = true) {dst : H}
    (hd : (w.peer r.px).peers[r.i]? = some dst) :
    ∃ w₁ r₁, w.step (.go j) = some w₁ ∧ w₁.runs[j]? = some r₁ ∧ r₁.px = r.px ∧ r₁.pc = r.pc ∧
      r₁.i = r.i + 1 ∧
      w₁.requests = (if r.i = (w.peer r.px).me then [] else [dst]) ++ w.requests := by
  have hlt : j < w.runs.length := (List.getElem?_eq_some_iff.mp hj).1
  have hset : ∀ r', (w.runs.set j r')[j]? = some r' := fun r' => by
    rw [List.getElem?_set_self hlt]
  simp only [World.step, hj, World.goRun]
  cases hp : r.pc <;> rw [hp] at hpc <;> simp only [Pc.sends, Bool.false_eq_true] at hpc
  all_goals
    simp only [hd]
    split <;> exact ⟨_, _, rfl, hset _, rfl, by first | exact hp | rfl, rfl, rfl⟩

/-- What is left of a send loop, run without interruption. -/
theorem sendLoop (hj : w.runs[j]? = some r) (hpc : r.pc.sends = true) (rest : List H)
    (hrest : (w.peer r.px).peers.drop r.i = rest) :
    ∃ w', LTS.exec World.step w (List.replicate rest.length (.go j)) = some w' ∧
      w'.requests = (callsFrom (w.peer r.px).me r.i rest).reverse ++ w.requests := by
  induction rest generalizing w r with
  | nil => exact ⟨w, rfl, rfl⟩
  | cons dst rest ih =>
    have hd : (w.peer r.px).peers[r.i]? = some dst := by
      rw [← List.head?_drop, hrest]
      rfl
    obtain ⟨w₁, r₁, hstep, hj₁, hpx, hpc₁, hi, hreq⟩ := send_step hj hpc hd
    obtain ⟨hpeers, hme, -⟩ := step_frame hstep r.px
    have hrest₁ : (w₁.peer r₁.px).peers.drop r₁.i = rest := by
      rw [hpx, hi, hpeers, ← List.drop_drop, hrest]
      rfl
    obtain ⟨w', hexec, hreq'⟩ := ih hj₁ (by rw [hpc₁]; exact hpc) hrest₁
    refine ⟨w', ?_, ?_⟩
    · rw [List.length_cons, List.replicate_succ, LTS.exec, hstep]
      exact hexec
    · rw [hreq', hreq, hpx, hme, hi, callsFrom]
      split <;> simp

end

/-- After any sequence of `AddPeer`, `RemovePeer` and `ChangePeer` calls that
returned nil, with every listening peer reached and `ChangePeer` called with one
peer at a time: every peer stands in its own list at `me`; a send loop of
`startHelper` on it, which runs the handler of its own peer once, calls every
other member once and itself not at all. -/
theorem views_stay_wellFormed [LinearOrder H] [ToString H] [DecidableEq V] (noOp : Option V)
    (w : World H V) (hw : (administration noOp attentive single).Reachable w) (p : H) :
    (w.peer p).peers[(w.peer p).me]? = some p ∧ (w.peer p).contacts.Nodup ∧
    (∀ q, q ∈ (w.peer p).contacts ↔ q ∈ (w.peer p).peers ∧ q ≠ p) ∧
    (w.peer p).contacts.length + 1 = (w.peer p).peers.length ∧
    ∀ j r, w.runs[j]? = some r → r.px = p → r.pc.sends = true → r.i = 0 →
      ∃ w', LTS.exec World.step w (List.replicate (w.peer p).peers.length (.go j)) = some w' ∧
        w'.requests = (w.peer p).contacts.reverse ++ w.requests := by
  have h := ((inOrder_inductive noOp attentive_attentive).reachable w hw p).2
  have hmem := h.self_mem
  refine ⟨h.self, ?_, fun q => ?_, ?_, fun j r hj hpx hpc hi => ?_⟩
  · rw [h.contacts]
    exact h.nodup.erase p
  · rw [h.contacts, h.nodup.mem_erase_iff, and_comm]
  · rw [h.contacts, List.length_erase_of_mem hmem]
    have := List.length_pos_of_mem hmem
    omega
  · subst hpx
    obtain ⟨w', hexec, hreq⟩ := sendLoop hj hpc (w.peer r.px).peers (by rw [hi]; rfl)
    rw [hi] at hreq
    exact ⟨w', hexec, hreq⟩

/-! ## One history in order, and one that is not -/

/-- `AddPeer([0], 1)` on a cluster of one; slot `0` is filled with a `NoOp`. -/
def oneAdded : World Nat Nat :=
  conductD (some 0) attentive
    (List.replicate 6 .reach ++ [.sync (aloneRun 0 1)] ++ List.replicate 6 .reach)
    (World.launch [0]) (addPeer [0] 1)

/-- `ChangePeer([2], 2)`. -/
def oneChanged : World Nat Nat :=
  conductD (some 0) attentive (List.replicate 4 .reach) oneAdded (changePeer [2] 2)

/-- `RemovePeer([0, 1], 0)`; peer `0` does not listen any more. -/
def oneKilled : World Nat Nat :=
  conductD (some 0) attentive
    ([.reach, .reach, .reach, .miss, .reach, .order [1]] ++ List.replicate 5 .reach)
    oneChanged (removePeer [0, 1] 0)

theorem oneKilled_wellFormed :
    (oneKilled.peer 1).peers = [1] ∧ (oneKilled.peer 0).peers = [0, 1] ∧
    (oneKilled.peer 0).peers[(oneKilled.peer 0).me]? = some 0 ∧
    (oneKilled.peer 0).contacts.length + 1 = 2 := by
  have hadd : (administration (some 0) attentive single).step (World.launch [0])
      (.call (.addPeer [0] 1)) oneAdded :=
    ⟨.ok (), ⟨rfl, nofun⟩, conducts_conductD _ (by decide +kernel)⟩
  have hchange : (administration (some 0) attentive single).step oneAdded
      (.call (.changePeer [2] 2)) oneChanged := by
    refine ⟨.ok (), ⟨rfl, fun peers peerme h => ?_⟩, conducts_conductD _ (by decide +kernel)⟩
    cases h
    rfl
  have hremove : (administration (some 0) attentive single).step oneChanged
      (.call (.removePeer [0, 1] 0)) oneKilled :=
    ⟨.ok (), ⟨rfl, nofun⟩, conducts_conductD _ (by decide +kernel)⟩
  have hreach : (administration (some 0) attentive single).Reachable oneKilled :=
    ⟨World.launch [0], _, ⟨[0], by decide, rfl⟩, .cons hadd (.cons hchange (.single hremove))⟩
  have h := views_stay_wellFormed (some 0) oneKilled hreach 0
  have hlist : (oneKilled.peer 0).peers = [0, 1] := by decide +kernel
  refine ⟨by decide +kernel, hlist, h.1, ?_⟩
  have hlen := h.2.2.2.1
  rw [hlist] at hlen
  exact hlen

/-- `ChangePeer([0, 1], 0)` with both peers reached. -/
def misplaced : World Nat Nat :=
  conductD (some 0) attentive (List.replicate 8 .reach) (World.launch [0, 1]) (changePeer [0, 1] 0)

/-- The call returns nil, and peer `1` has the index of peer `0`: its rounds run
its own handler in the place of peer `0` and call peer `1`, itself, over the
network. -/
theorem changePeer_misplaces :
    (administration (some 0) attentive fun _ out => out = .ok ()).Reachable misplaced ∧
    (misplaced.peer 1).peers[(misplaced.peer 1).me]? = some 0 ∧
    (misplaced.peer 1).contacts = [1] := by
  refine ⟨⟨World.launch [0, 1], [.call (.changePeer [0, 1] 0)], ⟨[0, 1], by decide, rfl⟩,
    .single ⟨.ok (), rfl, conducts_conductD _ (by decide +kernel)⟩⟩, by decide +kernel,
    by decide +kernel⟩

end Cmu440.Paxos
