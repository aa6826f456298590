import Cmu440.Paxos.Decided
import Cmu440.Paxos.Views

/-!
# What a successful `AddPeer` has done

`AddPeer` locks the peers, fills the gaps of the old ones, sends every old peer
the new list, sends it to the new peer, and copies the slots from the first old
peer to the new one with `Put` (paxosadmin.go:205-309). Every failed call on the
way makes it return an error, except one: the error for a failed `UpdatePeers` of
the new peer is built and dropped (line 271). The new peer then takes part with
the list it was started with, alone (`addPeer_without_effect`).

With that call answered all is in place. That the slots hold one value
everywhere is not the doing of `AddPeer`, which copies what one peer shows: it is
the agreement of the rounds, so it needs what agreement needs (`Orderly`). Rounds
on the slot begin with lists of one family of pairwise overlapping lists, an
arriving `Decide` finds a peer that has seen the number of a run that decided,
and the calls that are handled are tame. `Abides` says that a slot then follows
ballot voting with every decided peer holding a chosen value; a reply of
`SyncPaxosValue` carries a chosen value and a number above its ballot, and so
does the slot `Put` fills with it.
-/
namespace Cmu440.Paxos

open Ballot

variable {H V : Type}

/-! ## The condition -/

/-- A guard under which `UpdatePeers` of `p` does not fail. -/
def Guard.Informs (G : Guard H V) (p : H) : Prop :=
  ∀ w l me r, G.answer w (.updatePeers p l me) r = true → r = some .ok

/-- A guard under which slot `s` stays in agreement. -/
structure Guard.Orderly [DecidableEq H] (G : Guard H V) (F : List H → Prop) (s : Int) : Prop where
  top : ∀ w l, G.step w l = true → TopOk F s w l
  sees : ∀ w l, G.step w l = true → w.seesDecider l = true
  tame : ∀ w q, G.handle w q = true → q.tame s w

section
variable [DecidableEq H] (F : List H → Prop) [DecidablePred F] (s : Int)

/-- A round on slot `s` begins with a duplicate-free list of the family, in
which its peer stands at `me`. -/
def begins (w : World H V) : Lbl H V → Bool
  | .top j _ => w.runs[j]?.all fun r => decide (r.slotNum = s → F (w.peer r.px).peers ∧
      (w.peer r.px).peers.Nodup ∧ (w.peer r.px).peers[(w.peer r.px).me]? = some r.px)
  | _ => true

/-- What the two ask for, and no more. -/
def joining (p : H) : Guard H V where
  step w l := begins F s w l && w.seesDecider l
  handle w q := decide (q.tame s w)
  answer _ q r :=
    match q, r with
    | .updatePeers srv _ _, r => decide (srv = p → r = some .ok)
    | _, _ => true

variable {F s}

theorem topOk_of_begins {w : World H V} {l : Lbl H V} (h : begins F s w l = true) :
    TopOk F s w l := by
  rintro j n r rfl hj hs
  simp only [begins, hj, Option.all_some, decide_eq_true_eq] at h
  obtain ⟨h₁, h₂, h₃⟩ := h hs
  exact ⟨h₁, h₂, h₃⟩

theorem joining_orderly (p : H) : (joining F s p : Guard H V).Orderly F s where
  top _ _ h := topOk_of_begins (Bool.and_eq_true_iff.mp h).1
  sees _ _ h := (Bool.and_eq_true_iff.mp h).2
  tame _ _ h := of_decide_eq_true h

theorem joining_informs (p : H) : (joining F s p : Guard H V).Informs p :=
  fun _ _ _ _ h => of_decide_eq_true h rfl

end

/-! ## A slot in agreement -/

section
variable [DecidableEq H] (F : List H → Prop) (hF : ∀ L L', F L → F L' → Overlap L L') (s : Int)

/-- Slot `s` follows ballot voting, decided peers hold a chosen value, and so do
the replies `g` that the administrator has heard. -/
def Abides (g : Heard V) (w : World H V) : Prop :=
  ∃ t, Rel F hF s w t ∧ Inv (majorities F hF) t ∧ Shown (majorities F hF) s w t ∧
    ∀ rep, g s rep → Told (majorities F hF) t rep ∧
      ∃ b, ChosenAt (majorities F hF) t b rep.syncedValue ∧ b ≤ rep.seqNumHighest

end

/-- `Put` passes on what was heard. -/
def relayed (g : Heard V) : Ask H V → Prop
  | .put _ s v na nh => ∃ st, g s ⟨st, v, na, nh⟩
  | _ => True

theorem admitted_relayed (g : Heard V) (q : Ask H V) (h : admitted g q) : relayed g q := by
  cases q with
  | put => exact h
  | _ => trivial

section
variable [DecidableEq H] {F : List H → Prop} {hF : ∀ L L', F L → F L' → Overlap L L'} {s : Int}
  {g : Heard V} {w w' : World H V}

/-- What a handled call may do to a slot. -/
theorem effect_slot (w : World H V) (q : Ask H V) (p : H) (s : Int) :
    (q.effect w).slot p s = w.slot p s ∨
      ∃ x na nh, q = .put p s x na nh ∧ (q.effect w).slot p s = ⟨x, true, na, nh⟩ := by
  cases q with
  | put srv s' x na nh =>
    by_cases hp : p = srv
    · subst hp
      have hself : (Ask.effect w (.put p s' x na nh)).slot p s =
          ((w.peer p).put s' x na nh).1.getTimeSlotValue s := by
        simp [World.slot, Ask.effect]
      rw [hself]
      by_cases hs : s' = s
      · subst hs
        rcases Peer.put_cases (w.peer p) s' x na nh with ⟨-, h⟩ | h
        · exact .inr ⟨x, na, nh, rfl, h⟩
        · exact .inl h
      · exact .inl (Peer.put_get_ne _ _ _ _ (Ne.symm hs))
    · exact .inl (slot_update_ne rfl hp s)
  | setLock p' b | updatePeers p' l me | remoteKill p' | minUndecidedSlot p' =>
    refine .inl (update_slot ?_ p)
    rfl
  | checkStatus | maxDecidedSlot | syncPaxosValue | range => exact .inl rfl

theorem Abides.effect (h : Abides F hF s g w) (q : Ask H V) (hq : relayed g q)
    (htame : q.tame s w) : Abides F hF s g (q.effect w) := by
  obtain ⟨t, hrel, hinv, hshown, hg⟩ := h
  have htold : ∀ rep, g s rep → Told (majorities F hF) t rep := fun rep hr => (hg rep hr).1
  obtain ⟨ls, t', hrun, hrel'⟩ : ∃ ls t', (lts (majorities F hF)).Run t ls t' ∧
      Rel F hF s (q.effect w) t' := by
    cases q with
    | updatePeers p l me => exact ⟨[], t, .nil t, hrel.setPeer rfl (.inr htame)⟩
    | put => exact rel_effect hrel htold _ hq htame
    | _ => exact rel_effect hrel htold _ trivial trivial
  have he := ext_run _ hrun
  refine ⟨t', hrel', hrun.invariant (inv_inductive _).step hinv, fun p hd => ?_, fun rep hr => ?_⟩
  · rcases effect_slot w q p s with hs | ⟨x, na, nh, rfl, hs⟩
    · rw [hs] at hd ⊢
      obtain ⟨b, hb, hle⟩ := hshown p hd
      exact ⟨b, hb.mono _ he, le_trans hle (he.floor p)⟩
    · obtain ⟨st, hst⟩ := hq
      obtain ⟨-, b, hb, hle⟩ := hg _ hst
      rw [hrel'.floor p, hs]
      exact ⟨b, hb.mono _ he, hle⟩
  · obtain ⟨ht, b, hb, hle⟩ := hg rep hr
    exact ⟨ht.mono he, b, hb.mono _ he, hle⟩

omit [DecidableEq H] in
/-- The administrator hears what a peer shows. -/
theorem Abides.learn (h : Abides F hF s g w) (p : H) (s' : Int) :
    Abides F hF s (learn g (.syncPaxosValue p s') ((w.peer p).syncPaxosValue s')) w := by
  obtain ⟨t, hrel, hinv, hshown, hg⟩ := h
  refine ⟨t, hrel, hinv, hshown, fun rep hr => ?_⟩
  cases hsync : (w.peer p).syncPaxosValue s' with
  | none => rw [hsync] at hr; exact hg rep hr
  | some rep' =>
    rw [hsync] at hr
    rcases hr with hr | ⟨rfl, rfl⟩
    · exact hg rep hr
    · refine ⟨hrel.told hsync, ?_⟩
      obtain ⟨b, hb, hle⟩ := hshown p (Peer.decided_of_sync hsync)
      rw [hrel.floor p] at hle
      simp only [Peer.syncPaxosValue] at hsync
      split at hsync
      · cases hsync
        exact ⟨b, hb, hle⟩
      · cases hsync

omit [DecidableEq H] in
theorem learn_eq (q : Ask H V) (r : Ans q) (h : ∀ p s, q ≠ .syncPaxosValue p s) :
    Paxos.learn g q r = g := by
  cases q with
  | syncPaxosValue p s => exact absurd rfl (h p s)
  | _ => rfl

variable [DecidableEq V] {noOp : Option V} {G : Guard H V}

theorem Abides.step (h : Abides F hF s g w) {l : Lbl H V} (htop : TopOk F s w l)
    (hsees : w.seesDecider l = true) (hs : w.step l = some w') : Abides F hF s g w' := by
  obtain ⟨t, hrel, hinv, hshown, hg⟩ := h
  obtain ⟨ls, t', hrun, hrel'⟩ := rel_step hrel hinv htop hs
  have he := ext_run _ hrun
  refine ⟨t', hrel', hrun.invariant (inv_inductive _).step hinv,
    hshown.step hrel hinv hsees hs he, fun rep hr => ?_⟩
  obtain ⟨ht, b, hb, hle⟩ := hg rep hr
  exact ⟨ht.mono he, b, hb.mono _ he, hle⟩

theorem Abides.moves (hG : G.Orderly F s) (h : Abides F hF s g w) (hm : G.Moves w w') :
    Abides F hF s g w' := by
  obtain ⟨l, hl, -, hs⟩ := hm
  exact h.step (hG.top w l hl) (hG.sees w l hl) hs

/-- The run that `SyncPaxosValue` starts, and what goes on meanwhile. -/
theorem Abides.spawned (hG : G.Orderly F s) (h : Abides F hF s g w) {p : H} {s' : Int}
    {w₁ : World H V} (hstart : w.step (.start p s' noOp) = some w₁)
    (hrun : Relation.ReflTransGen G.Moves w₁ w') : Abides F hF s g w' := by
  induction hrun with
  | refl => exact h.step (fun _ _ _ he => by cases he) rfl hstart
  | tail _ hm ih => exact ih.moves hG hm

theorem Abides.answered (hG : G.Orderly F s) (h : Abides F hF s g w) {q : Ask H V} {r : Ans q}
    (hq : relayed g q) (ha : Answered noOp G w q r w') :
    Abides F hF s (Paxos.learn g q r) w' := by
  cases ha with
  | reach _ _ _ hg =>
    by_cases hsync : ∃ p s', q = .syncPaxosValue p s'
    · obtain ⟨p, s', rfl⟩ := hsync
      exact h.learn p s'
    · rw [learn_eq q _ fun p s' he => hsync ⟨p, s', he⟩]
      exact h.effect q hq (hG.tame w q hg)
  | lost _ _ _ hg =>
    rw [learn_failed]
    exact h.effect q hq (hG.tame w q hg)
  | miss =>
    rw [learn_failed]
    exact h
  | order => exact h
  | sync p s' _ _ hstart hrun => exact (h.spawned hG hstart hrun).learn p s'
  | broken p s' _ _ hstart hrun => exact h.spawned hG hstart hrun

/-- A program that puts only what it has heard keeps the slot in agreement. -/
theorem conducts_abides (hG : G.Orderly F s) {α : Type} {p : Admin H V α} {a : α}
    (hp : Within relayed p) (h : Conducts (host noOp G) w p w' a)
    (hw : Abides F hF s (fun _ _ => False) w) : Abides F hF s (fun _ _ => False) w' := by
  obtain ⟨g, ⟨t, hrel, hinv, hshown, -⟩, -⟩ : ∃ g, Abides F hF s g w' ∧ True := by
    refine h.of_wp (J := Abides F hF s) ?_ ?_ (hp _) hw
    · intro g w₁ w₂ h₁ hm
      exact h₁.moves hG hm
    · intro g w₁ q r w₂ h₁ hq ha
      exact h₁.answered hG hq ha.2
  exact ⟨t, hrel, hinv, hshown, fun _ hr => hr.elim⟩

omit [DecidableEq H] [DecidableEq V] in
/-- Peers that have decided the slot hold one value. -/
theorem Abides.agree (h : Abides F hF s g w) {p q : H} (hp : (w.peer p).Decided s)
    (hq : (w.peer q).Decided s) : (w.slot p s).value = (w.slot q s).value := by
  obtain ⟨t, -, hinv, hshown, -⟩ := h
  obtain ⟨b, hb, -⟩ := hshown p hp
  obtain ⟨c, hc, -⟩ := hshown q hq
  exact chosen_unique _ hinv ⟨b, hb⟩ ⟨c, hc⟩

end

/-! ## Histories -/

section
variable [LinearOrder H] [ToString H]

theorem Op.prog_relayed (op : Op H) : Within relayed (op.prog : Admin H V _) := by
  cases op with
  | addPeer peers p => exact Within.mono admitted_relayed (addPeer_sound peers p)
  | removePeer peers p => exact Within.mono admitted_relayed (removePeer_sound peers p)
  | changePeer peers peerme =>
    exact changePeer_within (fun g q h => admitted_relayed g q (calm_admitted g q h)) _ _
      fun _ _ _ => trivial

variable [DecidableEq V] {F : List H → Prop} {s : Int} {G : Guard H V}

theorem administration_bookkept (noOp : Option V) (G : Guard H V)
    (accept : Op H → Outcome Unit → Prop) :
    (administration noOp G accept).Inductive fun w => ∀ p, (w.peer p).Bookkept where
  init := by
    rintro w ⟨L, hL, rfl⟩
    exact fun p => (inOrder_launch hL p).1
  step := by
    intro w e w' h hs
    cases e with
    | world l => exact fun p => (G.moves_of_move hs).calm.later.bookkept (h p)
    | call op =>
      obtain ⟨out, -, hrun⟩ := hs
      exact fun p => (conducts_later hrun).bookkept (h p)

theorem abides_inductive (noOp : Option V) (hF : ∀ L L', F L → F L' → Overlap L L')
    (hG : G.Orderly F s) (accept : Op H → Outcome Unit → Prop) :
    (administration noOp G accept).Inductive (Abides F hF s fun _ _ => False) where
  init := by
    rintro w ⟨L, -, rfl⟩
    refine ⟨empty, (keeps_init L).rel, inv_empty _, fun p hd => ?_, fun _ hr => hr.elim⟩
    simp only [World.slot, World.launch] at hd
    split at hd <;> cases hd
  step := by
    intro w e w' h hs
    cases e with
    | world l => exact h.moves hG (G.moves_of_move hs)
    | call op =>
      obtain ⟨out, -, hrun⟩ := hs
      exact conducts_abides hG op.prog_relayed hrun h

end

/-! ## The lists -/

/-- The peer holds the list, with its index. -/
def Holds (newPeers : List H) (w : World H V) (e : H × Nat) : Prop :=
  (w.peer e.1).peers = newPeers ∧ (w.peer e.1).me = e.2

theorem Holds.calm {newPeers : List H} {w w' : World H V} {e : H × Nat} (h : Holds newPeers w e)
    (hc : w.Calm w') : Holds newPeers w' e :=
  ⟨(hc e.1).list.1.trans h.1, (hc e.1).list.2.trans h.2⟩

section
variable [DecidableEq H] [DecidableEq V] {noOp : Option V} {G : Guard H V} {w w' : World H V}
  {newPeers : List H}

/-- One more peer is sent the list. -/
theorem update_call {done : List (H × Nat)} {srv : H} {me : Nat} (hsrv : srv ∉ done.map (·.1)) :
    Triple (host noOp G) (fun w => ∀ e ∈ done, Holds newPeers w e)
      (paxosAdminCall (.updatePeers srv newPeers me)) fun r w =>
        (∀ e ∈ done, Holds newPeers w e) ∧ (r = some .ok → Holds newPeers w (srv, me)) ∧
          ∃ w₀, G.answer w₀ (.updatePeers srv newPeers me) r = true := by
  refine Steady.call (fun w w' hc h e he => (h e he).calm hc) (fun r w w' hc h => ?_) ?_
  · exact ⟨fun e he => (h.1 e he).calm hc, fun hr => (h.2.1 hr).calm hc, h.2.2⟩
  · intro w r w' h hg ha
    have hset : ∀ e ∈ done, Holds newPeers (Ask.effect w (.updatePeers srv newPeers me)) e := by
      intro e he
      have hne : e.1 ≠ srv := fun heq => hsrv (heq ▸ List.mem_map_of_mem he)
      simp only [Holds, Ask.effect, Function.update_of_ne hne]
      exact h e he
    refine ⟨?_, fun hr => ?_, w, hg⟩
    · cases ha with
      | reach | lost => exact hset
      | miss => exact h
    · subst hr
      rw [answered_updatePeers ha]
      simp only [Holds, Ask.effect, Function.update_self]
      exact ⟨rfl, rfl⟩

theorem updateAll_spec {l : List (H × Nat)} (done : List (H × Nat)) (hnodup : ((done ++ l).map (·.1)).Nodup)
    (hdone : ∀ e ∈ done, Holds newPeers w e)
    (h : Conducts (host noOp G) w (updateAll newPeers l) w' (.ok ())) :
    ∀ e ∈ done ++ l, Holds newPeers w' e := by
  induction l generalizing done w with
  | nil =>
    rw [List.append_nil]
    exact fun e he => (hdone e he).calm (calm_of_ret h)
  | cons e l ih =>
    have hsrv : e.1 ∉ done.map (·.1) := by
      rw [List.map_append, List.map_cons] at hnodup
      exact fun he => (List.nodup_append.mp hnodup).2.2 _ he _ List.mem_cons_self rfl
    obtain ⟨w₁, r, hcall, hrest⟩ := h.of_bind
    obtain ⟨hd, hok, -⟩ := update_call hsrv _ _ _ hdone hcall
    split at hrest
    · have happ : done ++ e :: l = done ++ [e] ++ l := by simp
      rw [happ] at hnodup ⊢
      refine ih (done ++ [e]) hnodup (fun e' he' => ?_) hrest
      rcases List.mem_append.mp he' with he' | he'
      · exact hd e' he'
      · rw [List.mem_singleton.mp he']
        exact hok rfl
    · cases hrest.of_ret

end

/-! ## `AddPeer` -/

section
variable [LinearOrder H] [ToString H] [DecidableEq V] {noOp : Option V} {G : Guard H V}
  {w w' : World H V} {peers : List H} {p : H} {hi : Int}

/-- What a run of `AddPeer` that returned nil has done, in any host in which
`UpdatePeers` of the new peer does not fail. -/
theorem addPeerMax_spec (hG : G.Informs p)
    (hb : ∀ q, (w.peer q).Bookkept)
    (h : Conducts (host noOp G) w (addPeerMax peers p) w' (.ok hi)) :
    ∃ newPeers : List H, newPeers.Perm (p :: peers) ∧ newPeers.Nodup ∧
      (∀ e ∈ newPeers.zipIdx, Holds newPeers w' e) ∧
      ∀ q ∈ p :: peers, ∀ s, 0 ≤ s → s ≤ hi → (w'.peer q).Decided s := by
  obtain ⟨src, rest, w₁, w₂, err, hperm, hnodup, hc, hadd, hc'⟩ := addPeerMax_run h
  have hb₁ : ∀ q ∈ src :: rest, (w₁.peer q).Bookkept := fun q _ => hc.later.bookkept (hb q)
  have hnot := not_mem_of_added hb₁ hadd
  obtain ⟨u₁, u₂, u₃, u₄, lo, r, hsync, hall, hnew, hcopy, hcalm⟩ := addQuiescedMax_run hadd
  have hlater : u₃.Calm w' :=
    ((conducts_calm (copySlots_calm _ _ _ _) hcopy).trans hcalm).trans hc'
  refine ⟨src :: rest ++ [p], ?_, ?_, ?_, ?_⟩
  · exact (List.perm_append_singleton p _).trans (hperm.cons p)
  · exact List.concat_eq_append ▸ hnodup.concat hnot
  · -- the old peers, then the new one
    have hfst : ((src :: rest).zipIdx.map (·.1)) = src :: rest := List.zipIdx_map_fst 0 _
    have hold : ∀ e ∈ (src :: rest).zipIdx, Holds (src :: rest ++ [p]) u₂ e := by
      have := updateAll_spec [] (by rw [List.nil_append, hfst]; exact hnodup)
        (fun e he => absurd he List.not_mem_nil) hall
      simpa using this
    obtain ⟨hall₃, hok, w₀, hg⟩ := update_call (by rw [hfst]; exact hnot) _ _ _ hold hnew
    intro e he
    rw [List.zipIdx_append, List.mem_append] at he
    rcases he with he | he
    · exact (hall₃ e he).calm hlater
    · have hlast : e = (p, (src :: rest).length) := by simpa using he
      rw [hlast]
      exact (hok (hG w₀ _ _ r hg)).calm hlater
  · intro q hq s h₀ hs
    rcases List.mem_cons.mp hq with rfl | hq
    · exact (hcalm.trans hc').later.decided (copySlots_spec hcopy s h₀ (by omega))
    · have hd := ((syncPeers_spec hb₁ hsync).2 lo hi rfl).2 q (hperm.mem_iff.mpr hq) s h₀ hs
      exact (((conducts_later hall).trans (conducts_later hnew)).trans hlater.later).decided hd

end

/-- `AddPeer` returns nil, whatever calls fail but `UpdatePeers` of the new peer,
after any rounds and commands. Then every old peer and the new peer hold one new
list with their own index, and have decided every slot up to the maximum that
`syncPeers` returned. A slot on which the rounds agree has one value. -/
theorem addPeer_takes_effect [LinearOrder H] [ToString H] [DecidableEq V] (noOp : Option V)
    (G₀ G : Guard H V) (w w' : World H V) (peers : List H) (p : H) (hG : G.Informs p)
    (hw : (administration noOp G₀ fun _ _ => True).Reachable w)
    (h : Conducts (host noOp G) w (addPeer peers p) w' (.ok ())) :
    (w'.peer p).peers.Perm (p :: peers) ∧ (w'.peer p).peers.Nodup ∧
    (∀ q ∈ p :: peers, (w'.peer q).peers = (w'.peer p).peers ∧
      (w'.peer q).peers[(w'.peer q).me]? = some q) ∧
    (∃ hi, Conducts (host noOp G) w (addPeerMax peers p) w' (.ok hi)) ∧
    ∀ hi, Conducts (host noOp G) w (addPeerMax peers p) w' (.ok hi) → ∀ s, 0 ≤ s → s ≤ hi →
      (∀ q ∈ p :: peers, (w'.peer q).Decided s) ∧
      ∀ F : List H → Prop, (∀ L L', F L → F L' → Overlap L L') → G₀.Orderly F s → G.Orderly F s →
        ∀ q ∈ peers, (w'.slot q s).value = (w'.slot p s).value := by
  have hb := (administration_bookkept noOp G₀ fun _ _ => True).reachable w hw
  obtain ⟨hi₀, hrun⟩ := conducts_addPeer h
  obtain ⟨newPeers, hperm, hnodup, hholds, -⟩ := addPeerMax_spec hG hb hrun
  have hown : ∀ q ∈ p :: peers, (w'.peer q).peers = newPeers ∧
      (w'.peer q).peers[(w'.peer q).me]? = some q := by
    intro q hq
    obtain ⟨i, hi⟩ := List.mem_iff_getElem?.mp (hperm.mem_iff.mpr hq)
    obtain ⟨h₁, h₂⟩ := hholds (q, i) (List.mem_zipIdx_iff_getElem?.mpr hi)
    rw [h₁, h₂]
    exact ⟨rfl, hi⟩
  have hlist := (hown p List.mem_cons_self).1
  refine ⟨by rw [hlist]; exact hperm, by rw [hlist]; exact hnodup, fun q hq => ?_, ⟨hi₀, hrun⟩, ?_⟩
  · rw [hlist]
    exact hown q hq
  · intro hi hrun s h₀ hs
    obtain ⟨-, -, -, -, hdec⟩ := addPeerMax_spec hG hb hrun
    refine ⟨fun q hq => hdec q hq s h₀ hs, fun F hF horderly₀ horderly q hq => ?_⟩
    have habides := (abides_inductive noOp hF horderly₀ fun _ _ => True).reachable w hw
    have habides' := conducts_abides horderly (Op.prog_relayed (.addPeer peers p)) h habides
    exact habides'.agree (hdec q (List.mem_cons_of_mem p hq) s h₀ hs)
      (hdec p List.mem_cons_self s h₀ hs)

/-! ## A peer that joins, and one that does not -/

/-- The list before and after. -/
def grown (l : List Nat) : Prop := l = [0] ∨ l = [0, 1]

instance : DecidablePred grown := fun l => inferInstanceAs (Decidable (l = _ ∨ l = _))

theorem grown_overlap (L₁ L₂ : List Nat) (h₁ : grown L₁) (h₂ : grown L₂) : Overlap L₁ L₂ := by
  rcases h₁ with rfl | rfl <;> rcases h₂ with rfl | rfl
  · exact overlap_self _
  · exact overlap_of_subset (by decide) (by decide)
  · exact (overlap_of_subset (by decide) (by decide)).symm
  · exact overlap_self _

/-- `AddPeer([0], 1)`; the last call, which unlocks peer `1`, fails. -/
def joined : World Nat Nat :=
  conductD (some 0) (joining grown 0 1)
    (List.replicate 6 .reach ++ [.sync (aloneRun 0 1)] ++ List.replicate 5 .reach ++ [.miss])
    (World.launch [0]) (addPeerMax [0] 1)

theorem joined_takes_effect :
    (joined.peer 1).peers.Perm [1, 0] ∧ (joined.peer 0).peers = (joined.peer 1).peers ∧
    (joined.peer 1).Decided 0 ∧ (joined.slot 0 0).value = (joined.slot 1 0).value := by
  have hmax : Conducts (host (some 0) (joining grown 0 1)) (World.launch [0]) (addPeerMax [0] 1)
      joined (.ok 0) := conducts_conductD _ (by decide +kernel)
  have hrun : Conducts (host (some 0) (joining grown 0 1)) (World.launch [0]) (addPeer [0] 1)
      joined (.ok ()) := by
    rw [addPeer_eq]
    exact hmax.bind (.ret joined _)
  obtain ⟨hperm, -, hown, -, hslots⟩ := addPeer_takes_effect (some 0) (joining grown 0 1)
    (joining grown 0 1) (World.launch [0]) joined [0] 1 (joining_informs 1)
    ⟨_, [], ⟨[0], by decide, rfl⟩, .nil _⟩ hrun
  obtain ⟨hdec, hvalue⟩ := hslots 0 hmax 0 (by decide) (by decide)
  exact ⟨hperm, (hown 0 (by decide)).1, hdec 1 (by decide),
    hvalue grown grown_overlap (joining_orderly 1) (joining_orderly 1) 0 (by decide)⟩

/-- The same, but `UpdatePeers` does not reach peer `1`. -/
def leftOut : World Nat Nat :=
  conductD (some 0) .free
    (List.replicate 6 .reach ++ [.sync (aloneRun 0 1), .reach, .miss] ++ List.replicate 4 .reach)
    (World.launch [0]) (addPeer [0] 1)

/-- `AddPeer` returns nil, and the new peer still has the list it was started
with. -/
theorem addPeer_without_effect :
    Conducts (host (some 0) .free) (World.launch [0]) (addPeer [0] 1) leftOut (.ok ()) ∧
    (leftOut.peer 0).peers = [0, 1] ∧ (leftOut.peer 1).peers = [1] :=
  ⟨conducts_conductD _ (by decide +kernel), by decide +kernel, by decide +kernel⟩

end Cmu440.Paxos
