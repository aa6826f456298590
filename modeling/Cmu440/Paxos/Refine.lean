import Cmu440.Core.Ballot
import Cmu440.Paxos.World

/-!
# Every slot of a Paxos world follows ballot voting

`Rel s w t` relates slot `s` of a world to a state `t` of `Cmu440.Ballot`: an
acceptor's floor is its `seqNumHighest`, its votes are bounded by its
`seqNumAccepted`, and what it reports under that number is the value of that
ballot or a chosen value. The second case is there for `Decide`, which
overwrites `value` and leaves `seqNumAccepted` alone (paxos.go:191-193).

The quorums are the majorities of a family `F` of pairwise overlapping peer
lists; every round on the slot has to be started with a list of the family
(`ListOk`). For a fixed membership `F` holds of one list only.

`rel_step` is the simulation step. A promise for a number is granted once per
peer because `Prepare` compares strictly, so two rounds with equal numbers
cannot both pass the prepare phase (`Rel.once`, `Rel.owner`).
-/
namespace Cmu440.Paxos

open Ballot

variable {H V : Type}

/-- `Pc`s at which a round has passed its prepare phase. -/
def Pc.afterPrepare : Pc → Bool
  | .top | .sendPrepare | .recvPrepare | .checkPrepare => false
  | _ => true

/-- `Pc`s inside the prepare or accept phase of a round. -/
def Pc.midRound : Pc → Bool
  | .sendPrepare | .recvPrepare | .checkPrepare | .sendAccept | .recvAccept | .checkAccept => true
  | _ => false

/-- The list a peer counts with is in the family, names each member once, and
has the peer itself at position `me`. -/
structure ListOk (F : List H → Prop) (px : Peer H V) (p : H) : Prop where
  mem : F px.peers
  nodup : px.peers.Nodup
  self : px.peers[px.me]? = some p

theorem ListOk.self_mem {F : List H → Prop} {px : Peer H V} {p : H} (h : ListOk F px p) :
    p ∈ px.peers :=
  List.mem_of_getElem? h.self

/-- The peer stands in its list at `me` only. -/
theorem ListOk.index {F : List H → Prop} {px : Peer H V} {p : H} (h : ListOk F px p) {i : Nat}
    (hi : px.peers[i]? = some p) : i = px.me := by
  obtain ⟨h₁, e₁⟩ := List.getElem?_eq_some_iff.mp hi
  obtain ⟨h₂, e₂⟩ := List.getElem?_eq_some_iff.mp h.self
  exact (List.Nodup.getElem_inj_iff h.nodup).mp (e₁.trans e₂.symm)

section
variable (q : QuorumSystem H)

/-- `x` may be reported as the value accepted under number `k`. -/
def Known (t : St H (Option V)) (k : Int) (x : Option V) : Prop :=
  t.prop k = some x ∨ Chosen q t x

/-- What an OK reply `(k, x)` of peer `p` to a `Prepare` with number `n` guarantees. -/
structure Promised (t : St H (Option V)) (p : H) (n k : Int) (x : Option V) : Prop where
  floor : n ≤ t.floor p
  nonneg : 0 ≤ k
  bound : ∀ b, t.votes p b → b < n → b ≤ k
  known : 0 < k → Known q t k x

/-- `numOk` distinct peers of `L`, all heard from, satisfy `P`. -/
def Counted (L : List H) (r : Run H V) (P : H → Prop) : Prop :=
  r.waiting.Nodup ∧ (∀ p ∈ r.waiting, p ∈ L) ∧
    ∃ S : Finset H, S.card = r.numOk ∧ ∀ p ∈ S, p ∈ L ∧ p ∉ r.waiting ∧ P p

/-- Peer `p` has granted number `n` to round `c` of run `j`. -/
def Granted (net : List (Msg H V)) (s : Int) (j c : Nat) (n : Int) (p : H) : Prop :=
  ∃ rep : PrepareReply V, Msg.prepareReply j c p s n rep ∈ net ∧ rep.status = .ok

/-- A run in its prepare phase, with the peers of `L` called so far. -/
structure PrepRel (net : List (Msg H V)) (t : St H (Option V)) (j : Nat) (L : List H)
    (r : Run H V) : Prop where
  pos : 0 < r.seqNum
  counted : Counted L r fun p => Granted net r.slotNum j r.round r.seqNum p ∧
    r.seqNum ≤ t.floor p ∧ ∀ b, t.votes p b → b < r.seqNum → b ≤ r.maxSeqNumAccepted
  nonneg : 0 ≤ r.maxSeqNumAccepted
  own : r.maxSeqNumAccepted = 0 → r.proposeValue = r.v
  known : 0 < r.maxSeqNumAccepted → Known q t r.maxSeqNumAccepted r.proposeValue
  /-- The peer has handled its own `Prepare` once the loop is past it. -/
  self : r.px ∈ L → r.seqNum ≤ t.floor r.px

/-- A run in its accept phase, with the peers of `L` called so far. -/
structure AccRel (t : St H (Option V)) (L : List H) (r : Run H V) : Prop where
  prop : t.prop r.seqNum = some r.proposeValue
  counted : Counted L r fun p => t.votes p r.seqNum
  self : r.seqNum ≤ t.floor r.px

def RunRel (F : List H → Prop) (net : List (Msg H V)) (t : St H (Option V)) (px : Peer H V)
    (j : Nat) (r : Run H V) : Prop :=
  match r.pc with
  | .top | .killed => True
  | .sendPrepare => ListOk F px r.px ∧ PrepRel q net t j (px.peers.take r.i) r
  | .recvPrepare | .checkPrepare => ListOk F px r.px ∧ PrepRel q net t j px.peers r
  | .sendAccept => ListOk F px r.px ∧ AccRel t (px.peers.take r.i) r
  | .recvAccept | .checkAccept => ListOk F px r.px ∧ AccRel t px.peers r
  | .sendDecide | .returned => ChosenAt q t r.seqNum r.proposeValue ∧ r.seqNum ≤ t.floor r.px

end

/-- Round `c` of run `j` has passed its prepare phase. -/
def Passed (w : World H V) (j c : Nat) : Prop :=
  ∃ r, w.runs[j]? = some r ∧ (c < r.round ∨ (c = r.round ∧ r.pc.afterPrepare = true))

section
variable (F : List H → Prop) (hF : ∀ L L', F L → F L' → Overlap L L') (s : Int)

/-- Slot `s` of world `w` follows the ballots `t`. -/
structure Rel (w : World H V) (t : St H (Option V)) : Prop where
  floor : ∀ p, t.floor p = (w.slot p s).seqNumHighest
  nonneg : ∀ p, 0 ≤ (w.slot p s).seqNumAccepted
  votes : ∀ p b, t.votes p b → b ≤ (w.slot p s).seqNumAccepted
  known : ∀ p, 0 < (w.slot p s).seqNumAccepted →
    Known (majorities F hF) t (w.slot p s).seqNumAccepted (w.slot p s).value
  promised : ∀ j c p n rep, Msg.prepareReply j c p s n rep ∈ w.net → rep.status = .ok →
    Promised (majorities F hF) t p n rep.seqNumAccepted rep.valueAccepted
  /-- A peer grants a number to one round only. -/
  once : ∀ j c j' c' n p, Granted w.net s j c n p → Granted w.net s j' c' n p → j = j' ∧ c = c'
  accept : ∀ j c p n x, Msg.accept j c p s n x ∈ w.net → t.prop n = some x
  accepted : ∀ j c p n rep, Msg.acceptReply j c p s n rep ∈ w.net → rep.status = .ok →
    t.votes p n
  decide : ∀ p x, Msg.decide p s x ∈ w.net → Chosen (majorities F hF) t x
  run : ∀ j r, w.runs[j]? = some r → r.slotNum = s →
    RunRel (majorities F hF) F w.net t (w.peer r.px) j r
  /-- Each opened ballot belongs to a round that a majority granted its number. -/
  owner : ∀ n x, t.prop n = some x → ∃ j c, Passed w j c ∧ ∃ Q, (majorities F hF).Quorum Q ∧
    ∀ p ∈ Q, Granted w.net s j c n p
  valid : ∀ n x, t.prop n = some x → ∃ r ∈ w.runs, r.slotNum = s ∧ r.v = x

end

/-! ## Monotonicity -/

section
variable {q : QuorumSystem H}

theorem Known.mono {t t' : St H (Option V)} (he : Ext t t') {k : Int} {x : Option V}
    (h : Known q t k x) : Known q t' k x := by
  rcases h with h | h
  · exact .inl (he.prop k x h)
  · exact .inr (h.mono q he)

theorem Promised.mono {t t' : St H (Option V)} (he : Ext t t') {p : H} {n k : Int}
    {x : Option V} (h : Promised q t p n k x) : Promised q t' p n k x where
  floor := le_trans h.floor (he.floor p)
  nonneg := h.nonneg
  bound := he.frozen h.floor h.bound
  known hk := (h.known hk).mono he

theorem Counted.mono {L : List H} {r : Run H V} {P P' : H → Prop} (hP : ∀ p, P p → P' p)
    (h : Counted L r P) : Counted L r P' := by
  obtain ⟨h₁, h₂, S, h₃, h₄⟩ := h
  refine ⟨h₁, h₂, S, h₃, fun p hp => ?_⟩
  obtain ⟨a, b, c⟩ := h₄ p hp
  exact ⟨a, b, hP p c⟩

theorem Granted.mono {net net' : List (Msg H V)} (hn : ∀ m ∈ net, m ∈ net') {s n : Int} {j c : Nat}
    {p : H} (h : Granted net s j c n p) : Granted net' s j c n p := by
  obtain ⟨rep, h₁, h₂⟩ := h
  exact ⟨rep, hn _ h₁, h₂⟩

theorem PrepRel.mono {net net' : List (Msg H V)} {t t' : St H (Option V)} {j : Nat} {L : List H}
    {r : Run H V} (hn : ∀ m ∈ net, m ∈ net') (he : Ext t t') (h : PrepRel q net t j L r) :
    PrepRel q net' t' j L r where
  pos := h.pos
  counted := by
    refine h.counted.mono fun p hp => ?_
    obtain ⟨h₁, h₂, h₃⟩ := hp
    exact ⟨h₁.mono hn, le_trans h₂ (he.floor p), he.frozen h₂ h₃⟩
  nonneg := h.nonneg
  own := h.own
  known hk := (h.known hk).mono he
  self hp := le_trans (h.self hp) (he.floor _)

theorem AccRel.mono {t t' : St H (Option V)} {L : List H} {r : Run H V} (he : Ext t t')
    (h : AccRel t L r) : AccRel t' L r where
  prop := he.prop _ _ h.prop
  counted := h.counted.mono fun p hp => he.votes p _ hp
  self := le_trans h.self (he.floor _)

theorem ListOk.congr {F : List H → Prop} {px px' : Peer H V} {p : H} (h : ListOk F px p)
    (hc : px.SameList px') : ListOk F px' p := by
  refine ⟨?_, ?_, ?_⟩
  · rw [hc.1]; exact h.mem
  · rw [hc.1]; exact h.nodup
  · rw [hc.1, hc.2]; exact h.self

theorem RunRel.mono {F : List H → Prop} {net net' : List (Msg H V)} {t t' : St H (Option V)}
    {px px' : Peer H V} {j : Nat} {r : Run H V} (hn : ∀ m ∈ net, m ∈ net') (he : Ext t t')
    (hc : px.SameList px') (h : RunRel q F net t px j r) :
    RunRel q F net' t' px' j r := by
  unfold RunRel at h ⊢
  split at h
  · trivial
  · trivial
  all_goals first
    | exact ⟨h.1.mono q he, le_trans h.2 (he.floor _)⟩
    | rw [hc.1]; exact ⟨h.1.congr hc, h.2.mono hn he⟩
    | rw [hc.1]; exact ⟨h.1.congr hc, h.2.mono he⟩

end

/-- Between its rounds a run does not read the list of its peer. -/
theorem RunRel.of_not_midRound {q : QuorumSystem H} {F : List H → Prop} {net : List (Msg H V)}
    {t : St H (Option V)} {px px' : Peer H V} {j : Nat} {r : Run H V}
    (hmid : r.pc.midRound = false) (h : RunRel q F net t px j r) : RunRel q F net t px' j r := by
  unfold RunRel at h ⊢
  cases hpc : r.pc <;> rw [hpc] at h hmid
  case top | killed => trivial
  case sendDecide | returned => exact h
  all_goals cases hmid

/-! ## Extending the relation along a step -/

section
variable {F : List H → Prop} {hF : ∀ L L', F L → F L' → Overlap L L'} {s : Int}

/-- What a message on the slot must guarantee when it is first sent. -/
def MsgOk (q : QuorumSystem H) (net : List (Msg H V)) (t : St H (Option V)) : Msg H V → Prop
  | .prepare .. => True
  | .prepareReply _ _ p s n rep => rep.status = .ok →
      Promised q t p n rep.seqNumAccepted rep.valueAccepted ∧ ∀ j c, ¬ Granted net s j c n p
  | .accept _ _ _ _ n x => t.prop n = some x
  | .acceptReply _ _ p _ n rep => rep.status = .ok → t.votes p n
  | .decide _ _ x => Chosen q t x

theorem granted_cons {net : List (Msg H V)} {m : Msg H V} {j c : Nat} {n : Int} {p : H}
    (h : Granted (m :: net) s j c n p) :
    Granted net s j c n p ∨ ∃ rep, m = .prepareReply j c p s n rep ∧ rep.status = .ok := by
  obtain ⟨rep, hm, hok⟩ := h
  rcases List.mem_cons.mp hm with hm | hm
  · exact .inr ⟨rep, hm.symm, hok⟩
  · exact .inl ⟨rep, hm, hok⟩

/-- One handler call or one message: the runs stay, the peers keep their
lists, the ballots gain no value, and at most one message is new. -/
theorem Rel.extend {w w' : World H V} {t t' : St H (Option V)} (h : Rel F hF s w t)
    (he : Ext t t') (hprop : t'.prop = t.prop) (hruns : w'.runs = w.runs)
    (hpeer : ∀ p, (w.peer p).SameList (w'.peer p))
    (hnet : w'.net = w.net ∨ ∃ m, w'.net = m :: w.net ∧
      (m.slotNum = s → MsgOk (majorities F hF) w.net t' m))
    (hfloor : ∀ p, t'.floor p = (w'.slot p s).seqNumHighest)
    (hnonneg : ∀ p, 0 ≤ (w'.slot p s).seqNumAccepted)
    (hvotes : ∀ p b, t'.votes p b → b ≤ (w'.slot p s).seqNumAccepted)
    (hknown : ∀ p, 0 < (w'.slot p s).seqNumAccepted →
      Known (majorities F hF) t' (w'.slot p s).seqNumAccepted (w'.slot p s).value) :
    Rel F hF s w' t' := by
  have hsub : ∀ m ∈ w.net, m ∈ w'.net := by
    intro m hm
    rcases hnet with e | ⟨m', e, -⟩
    · rw [e]; exact hm
    · rw [e]; exact List.mem_cons_of_mem _ hm
  have hcase : ∀ m ∈ w'.net, m.slotNum = s → m ∈ w.net ∨ MsgOk (majorities F hF) w.net t' m := by
    intro m hm hs
    rcases hnet with e | ⟨m', e, hok⟩
    · rw [e] at hm; exact .inl hm
    · rw [e] at hm
      rcases List.mem_cons.mp hm with rfl | hm
      · exact .inr (hok hs)
      · exact .inl hm
  refine ⟨hfloor, hnonneg, hvotes, hknown, ?_, ?_, ?_, ?_, ?_, ?_, ?_, ?_⟩
  · intro j c p n rep hm hok
    rcases hcase _ hm rfl with hm | hm
    · exact (h.promised j c p n rep hm hok).mono he
    · exact (hm hok).1
  · intro j c j' c' n p hg hg'
    rcases hnet with e | ⟨m, e, hok⟩
    · rw [e] at hg hg'; exact h.once j c j' c' n p hg hg'
    · rw [e] at hg hg'
      rcases granted_cons hg with h₁ | ⟨rep, rfl, hst⟩
      · rcases granted_cons hg' with h₂ | ⟨rep', rfl, hst'⟩
        · exact h.once j c j' c' n p h₁ h₂
        · exact absurd h₁ ((hok rfl hst').2 j c)
      · rcases granted_cons hg' with h₂ | ⟨rep', e', -⟩
        · exact absurd h₂ ((hok rfl hst).2 j' c')
        · cases e'; exact ⟨rfl, rfl⟩
  · intro j c p n x hm
    rcases hcase _ hm rfl with hm | hm
    · exact he.prop n x (h.accept j c p n x hm)
    · exact hm
  · intro j c p n rep hm hok
    rcases hcase _ hm rfl with hm | hm
    · exact he.votes p n (h.accepted j c p n rep hm hok)
    · exact hm hok
  · intro p x hm
    rcases hcase _ hm rfl with hm | hm
    · exact (h.decide p x hm).mono _ he
    · exact hm
  · intro j r hj hs
    rw [hruns] at hj
    exact (h.run j r hj hs).mono hsub he (hpeer r.px)
  · intro n x hn
    rw [hprop] at hn
    obtain ⟨j, c, ⟨r, hr, hc⟩, Q, hQ, hg⟩ := h.owner n x hn
    refine ⟨j, c, ⟨r, ?_, hc⟩, Q, hQ, fun p hp => (hg p hp).mono hsub⟩
    rw [hruns]; exact hr
  · intro n x hn
    rw [hprop] at hn
    rw [hruns]; exact h.valid n x hn

theorem rel_send {w : World H V} {t : St H (Option V)} (h : Rel F hF s w t) (m : Msg H V)
    (hm : m.slotNum = s → MsgOk (majorities F hF) w.net t m) : Rel F hF s (w.send m) t :=
  h.extend (Ext.refl t) rfl rfl (fun _ => ⟨rfl, rfl⟩) (.inr ⟨m, rfl, hm⟩) h.floor h.nonneg h.votes
    h.known

/-- A step that leaves the slot as it is on every peer. -/
theorem Rel.frame {w w' : World H V} {t : St H (Option V)} (h : Rel F hF s w t)
    (hruns : w'.runs = w.runs)
    (hpeer : ∀ p, (w.peer p).SameList (w'.peer p))
    (hslot : ∀ p, w'.slot p s = w.slot p s)
    (hnet : w'.net = w.net ∨ ∃ m, w'.net = m :: w.net ∧
      (m.slotNum = s → MsgOk (majorities F hF) w.net t m)) : Rel F hF s w' t := by
  refine h.extend (Ext.refl t) rfl hruns hpeer hnet ?_ ?_ ?_ ?_ <;> intro p <;> rw [hslot p]
  · exact h.floor p
  · exact h.nonneg p
  · exact h.votes p
  · exact h.known p

/-! ## The handlers -/

variable [DecidableEq H]

theorem update_slot {f : H → Peer H V} {p : H} {px : Peer H V} {s' : Int}
    (h : px.getTimeSlotValue s' = (f p).getTimeSlotValue s') (p' : H) :
    (Function.update f p px p').getTimeSlotValue s' = (f p').getTimeSlotValue s' := by
  by_cases hp : p' = p
  · subst hp; rw [Function.update_self]; exact h
  · rw [Function.update_of_ne hp]

theorem rel_doPrepare {w : World H V} {t : St H (Option V)} (h : Rel F hF s w t) (j c : Nat)
    (p : H) (s' n : Int) :
    ∃ ls t', (lts (majorities F hF)).Run t ls t' ∧ Rel F hF s (w.doPrepare j c p s' n) t' := by
  have hframe := fun p' => (Peer.update_frame (Peer.prepare_frame (w.peer p) s' n) p').list
  by_cases hs : s' = s
  · subst hs
    rcases Peer.prepare_cases (w.peer p) s' n with ⟨hlt, hslot, hrep⟩ | ⟨-, hslot, hrep⟩
    · -- granted: the floor of `p` rises to `n`
      have hle : t.floor p ≤ n := by rw [h.floor p]; exact le_of_lt hlt
      have he : Ext t (raised t p n) := ext_raised hle
      have hself : (w.doPrepare j c p s' n).slot p s' =
          { w.slot p s' with seqNumHighest := n } := by
        simpa [World.slot, World.doPrepare] using hslot
      have hother : ∀ p', p' ≠ p → (w.doPrepare j c p s' n).slot p' s' = w.slot p' s' := by
        intro p' hp
        simp [World.slot, World.doPrepare, Function.update_of_ne hp]
      refine ⟨[.raise p n], raised t p n, .single ⟨hle, rfl⟩, ?_⟩
      refine h.extend he rfl rfl hframe (.inr ⟨_, rfl, fun _ => ?_⟩) ?_ ?_ ?_ ?_
      · intro _
        rw [hrep]
        refine ⟨⟨by simp [raised], h.nonneg p, fun b hv _ => h.votes p b hv,
          fun hk => (h.known p hk).mono he⟩, ?_⟩
        rintro j' c' ⟨rep, hm, hok⟩
        have hfl := (h.promised j' c' p n rep hm hok).floor
        rw [h.floor p] at hfl
        simp only [World.slot] at hfl
        omega
      all_goals
        intro p'
        by_cases hp : p' = p
        · subst hp
          rw [hself]
          first
            | exact h.nonneg p'
            | exact h.votes p'
            | exact fun hk => (h.known p' hk).mono he
            | simp [raised]
        · rw [hother p' hp]
          first
            | exact h.nonneg p'
            | exact h.votes p'
            | exact fun hk => (h.known p' hk).mono he
            | (simp only [raised, Function.update_of_ne hp]; exact h.floor p')
    · refine ⟨[], t, .nil t, h.frame rfl hframe (update_slot hslot) (.inr ⟨_, rfl, fun _ => ?_⟩)⟩
      intro hok
      rw [hrep] at hok; cases hok
  · refine ⟨[], t, .nil t, h.frame rfl hframe
      (update_slot (Peer.prepare_get_ne _ _ (Ne.symm hs))) (.inr ⟨_, rfl, fun e => ?_⟩)⟩
    exact absurd e hs

theorem rel_doAccept {w : World H V} {t : St H (Option V)} (h : Rel F hF s w t)
    (hi : Inv (majorities F hF) t) (j c : Nat) (p : H) (s' n : Int) (x : Option V)
    (hx : s' = s → t.prop n = some x) :
    ∃ ls t', (lts (majorities F hF)).Run t ls t' ∧ Rel F hF s (w.doAccept j c p s' n x) t' := by
  have hframe := fun p' => (Peer.update_frame (Peer.accept_frame (w.peer p) s' n x) p').list
  by_cases hs : s' = s
  · subst hs
    have hx := hx rfl
    rcases Peer.accept_cases (w.peer p) s' n x with ⟨hlt, hslot, -⟩ | ⟨-, hslot, hrep⟩
    · -- accepted: `p` votes in ballot `n`
      have hle : t.floor p ≤ n := by rw [h.floor p]; exact hlt
      have he : Ext t (voted t p n) := ext_voted hle
      have hself : (w.doAccept j c p s' n x).slot p s' =
          { w.slot p s' with seqNumAccepted := n, seqNumHighest := n, value := x } := by
        simpa [World.slot, World.doAccept] using hslot
      have hother : ∀ p', p' ≠ p → (w.doAccept j c p s' n x).slot p' s' = w.slot p' s' := by
        intro p' hp
        simp [World.slot, World.doAccept, Function.update_of_ne hp]
      refine ⟨[.vote p n], voted t p n, .single ⟨hle, ⟨x, hx⟩, rfl⟩, ?_⟩
      refine h.extend he rfl rfl hframe (.inr ⟨_, rfl, fun _ _ => .inr ⟨rfl, rfl⟩⟩) ?_ ?_ ?_ ?_
      · intro p'
        by_cases hp : p' = p
        · subst hp; rw [hself]; simp [voted]
        · rw [hother p' hp]; simp only [voted, Function.update_of_ne hp]; exact h.floor p'
      · intro p'
        by_cases hp : p' = p
        · subst hp; rw [hself]; exact le_of_lt (hi.prop_pos n x hx)
        · rw [hother p' hp]; exact h.nonneg p'
      · rintro p' b (hv | ⟨rfl, rfl⟩)
        · by_cases hp : p' = p
          · subst hp; rw [hself]; exact le_trans (hi.vote_floor p' b hv) hle
          · rw [hother p' hp]; exact h.votes p' b hv
        · rw [hself]
      · intro p'
        by_cases hp : p' = p
        · subst hp; rw [hself]; exact fun _ => .inl hx
        · rw [hother p' hp]; exact fun hk => (h.known p' hk).mono he
    · refine ⟨[], t, .nil t, h.frame rfl hframe (update_slot hslot) (.inr ⟨_, rfl, fun _ => ?_⟩)⟩
      intro hok
      rw [hrep] at hok; cases hok
  · refine ⟨[], t, .nil t, h.frame rfl hframe
      (update_slot (Peer.accept_get_ne _ _ _ (Ne.symm hs))) (.inr ⟨_, rfl, fun e => ?_⟩)⟩
    exact absurd e hs

theorem rel_doDecide {w : World H V} {t : St H (Option V)} (h : Rel F hF s w t) (p : H) (s' : Int)
    (x : Option V) (hx : s' = s → Chosen (majorities F hF) t x) :
    Rel F hF s (w.doDecide p s' x) t := by
  have hframe := fun p' => (Peer.update_frame (Peer.decide_frame (w.peer p) s' x) p').list
  by_cases hs : s' = s
  · subst hs
    have hself : (w.doDecide p s' x).slot p s' =
        { w.slot p s' with value := x, isDecided := true } := by
      simpa [World.slot, World.doDecide] using Peer.decide_get (w.peer p) s' x
    have hother : ∀ p', p' ≠ p → (w.doDecide p s' x).slot p' s' = w.slot p' s' := by
      intro p' hp
      simp [World.slot, World.doDecide, Function.update_of_ne hp]
    refine h.extend (Ext.refl t) rfl rfl hframe (.inl rfl) ?_ ?_ ?_ ?_
    all_goals
      intro p'
      by_cases hp : p' = p
      · subst hp
        rw [hself]
        first
          | exact h.floor p'
          | exact h.nonneg p'
          | exact h.votes p'
          | exact fun _ => .inr (hx rfl)
      · rw [hother p' hp]
        first
          | exact h.floor p'
          | exact h.nonneg p'
          | exact h.votes p'
          | exact h.known p'
  · exact h.frame rfl hframe (update_slot (Peer.decide_get_ne _ _ (Ne.symm hs))) (.inl rfl)

end

end Cmu440.Paxos
