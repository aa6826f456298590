import Cmu440.Paxos.Refine

/-!
# The rounds of `startHelper` follow ballot voting

What the statements of `startHelper` do to the relation of
`Cmu440.Paxos.Refine`. The send loops enlarge the set of called peers, the
receive loops move a peer from `waiting` to the counted ones, and the two
majority tests are where a ballot is opened (`Rel.beginAccept`) and where its
value turns out to be chosen (`AccRel.chosen`).

`rel_step` assembles them: whatever step a world takes, each slot follows with
some ballot steps, provided the rounds on the slot are started with lists of
the family.
-/
namespace Cmu440.Paxos

open Ballot

variable {H V : Type}

/-! ## Counting replies -/

section
variable {L : List H} {r r' : Run H V} {P P' : H → Prop}

theorem Counted.empty (hw : r.waiting = []) (hn : r.numOk = 0) : Counted L r P := by
  unfold Counted
  rw [hw, hn]
  exact ⟨List.nodup_nil, fun p hp => absurd hp List.not_mem_nil, ∅, rfl,
    fun p hp => absurd hp (Finset.notMem_empty p)⟩

/-- The send loop calls the next peer of the list. -/
theorem Counted.called (hnd : L.Nodup) {dst : H} (hi : L[r.i]? = some dst)
    (h : Counted (L.take r.i) r P) : Counted (L.take (r.i + 1)) (r.called dst) P := by
  obtain ⟨h₁, h₂, S, h₃, h₄⟩ := h
  have hsplit : L.take (r.i + 1) = L.take r.i ++ [dst] := by
    rw [List.take_add_one, hi]; rfl
  have hnew : dst ∉ L.take r.i := by
    intro hd
    have hnd' : (L.take (r.i + 1)).Nodup := hnd.sublist (List.take_sublist _ _)
    rw [hsplit] at hnd'
    exact List.disjoint_of_nodup_append hnd' hd (List.mem_singleton.mpr rfl)
  rw [hsplit]
  refine ⟨List.nodup_cons.mpr ⟨fun hd => hnew (h₂ dst hd), h₁⟩, ?_, S, h₃, ?_⟩
  · intro p hp
    rcases List.mem_cons.mp hp with rfl | hp
    · exact List.mem_append_right _ (List.mem_singleton.mpr rfl)
    · exact List.mem_append_left _ (h₂ p hp)
  · intro p hp
    obtain ⟨a, b, c⟩ := h₄ p hp
    refine ⟨List.mem_append_left _ a, ?_, c⟩
    intro hp'
    rcases List.mem_cons.mp hp' with rfl | hp'
    · exact hnew a
    · exact b hp'

variable [DecidableEq H] {src : H}

/-- The receive loop takes a reply that does not count. -/
theorem Counted.skip (h : Counted L r P) (hP : ∀ p, P p → P' p)
    (hw : r'.waiting = r.waiting.erase src) (hn : r'.numOk = r.numOk) : Counted L r' P' := by
  obtain ⟨h₁, h₂, S, h₃, h₄⟩ := h
  unfold Counted
  rw [hw, hn]
  refine ⟨h₁.erase src, fun p hp => h₂ p (List.mem_of_mem_erase hp), S, h₃, fun p hp => ?_⟩
  obtain ⟨a, b, c⟩ := h₄ p hp
  exact ⟨a, fun hp' => b (List.mem_of_mem_erase hp'), hP p c⟩

/-- The receive loop takes an OK reply of `src`. -/
theorem Counted.ok (h : Counted L r P) (hP : ∀ p, P p → P' p) (hsrc : src ∈ r.waiting)
    (hw : r'.waiting = r.waiting.erase src) (hn : r'.numOk = r.numOk + 1) (hnew : P' src) :
    Counted L r' P' := by
  obtain ⟨h₁, h₂, S, h₃, h₄⟩ := h
  unfold Counted
  rw [hw, hn]
  have hS : src ∉ S := fun hs => (h₄ src hs).2.1 hsrc
  refine ⟨h₁.erase src, fun p hp => h₂ p (List.mem_of_mem_erase hp), insert src S, ?_, ?_⟩
  · rw [Finset.card_insert_of_notMem hS, h₃]
  · intro p hp
    rcases Finset.mem_insert.mp hp with rfl | hp
    · exact ⟨h₂ _ hsrc, h₁.not_mem_erase, hnew⟩
    · obtain ⟨a, b, c⟩ := h₄ p hp
      exact ⟨a, fun hp' => b (List.mem_of_mem_erase hp'), hP p c⟩

omit [DecidableEq H] in
/-- More than half of the list counted is a majority of it. -/
theorem Counted.majority (h : Counted L r P) (hmaj : ¬ r.numOk ≤ L.length / 2) :
    ∃ S, IsMajority L S ∧ ∀ p ∈ S, P p := by
  obtain ⟨-, -, S, h₃, h₄⟩ := h
  refine ⟨S, ⟨fun p hp => (h₄ p hp).1, ?_⟩, fun p hp => (h₄ p hp).2.2⟩
  omega

end

/-! ## One run of a phase -/

section
variable {q : QuorumSystem H} {net : List (Msg H V)} {t : St H (Option V)} {j : Nat} {L : List H}
  {r : Run H V}

theorem PrepRel.begin {n : Int} (hn : 0 < n) : PrepRel q net t j [] (r.beginRound n) where
  pos := hn
  counted := .empty rfl rfl
  nonneg := le_refl _
  own _ := rfl
  known h := absurd h (lt_irrefl _)
  self h := absurd h List.not_mem_nil

theorem PrepRel.called (hnd : L.Nodup) {dst : H} (hi : L[r.i]? = some dst)
    (hself : dst = r.px → r.seqNum ≤ t.floor r.px) (h : PrepRel q net t j (L.take r.i) r) :
    PrepRel q net t j (L.take (r.i + 1)) (r.called dst) := by
  refine ⟨h.pos, h.counted.called hnd hi, h.nonneg, h.own, h.known, fun hp => ?_⟩
  have hp : r.px ∈ L.take (r.i + 1) := hp
  rw [List.take_add_one, hi] at hp
  rcases List.mem_append.mp hp with hp | hp
  · exact h.self hp
  · exact hself (List.mem_singleton.mp hp).symm

theorem AccRel.called (hnd : L.Nodup) {dst : H} (hi : L[r.i]? = some dst)
    (h : AccRel t (L.take r.i) r) : AccRel t (L.take (r.i + 1)) (r.called dst) :=
  ⟨h.prop, h.counted.called hnd hi, h.self⟩

variable [DecidableEq H] {src : H} {n : Nat} {done : Pc}

/-- The receive loop of the prepare phase takes a reply whose guarantee is
`Promised`, or a failed call. -/
theorem PrepRel.taken (h : PrepRel q net t j L r) (hsrc : src ∈ r.waiting)
    (rep : Option (PrepareReply V))
    (hrep : ∀ reply, rep = some reply → reply.status = .ok →
      Granted net r.slotNum j r.round r.seqNum src ∧
        Promised q t src r.seqNum reply.seqNumAccepted reply.valueAccepted) :
    PrepRel q net t j L ((r.countPrepare rep).taken n done src) := by
  cases rep with
  | none => exact ⟨h.pos, h.counted.skip (fun _ hp => hp) rfl rfl, h.nonneg, h.own, h.known, h.self⟩
  | some reply =>
    simp only [Run.countPrepare]
    cases hst : reply.status with
    | reject =>
      simp only
      split
      · exact ⟨h.pos, h.counted.skip (fun _ hp => hp) rfl rfl, h.nonneg, h.own, h.known, h.self⟩
      · exact ⟨h.pos, h.counted.skip (fun _ hp => hp) rfl rfl, h.nonneg, h.own, h.known, h.self⟩
    | ok =>
      obtain ⟨hg, hp⟩ := hrep reply rfl hst
      simp only
      split
      · -- a larger accepted number: its value replaces the proposal
        rename_i hgt
        have hpos : 0 < reply.seqNumAccepted := lt_of_le_of_lt h.nonneg hgt
        refine ⟨h.pos, ?_, le_of_lt hpos, fun h0 => ?_, fun _ => hp.known hpos, h.self⟩
        · refine h.counted.ok ?_ hsrc rfl rfl ⟨hg, hp.floor, hp.bound⟩
          intro p hold
          obtain ⟨h₁, h₂, h₃⟩ := hold
          exact ⟨h₁, h₂, fun b hv hb => le_trans (h₃ b hv hb) (le_of_lt hgt)⟩
        · simp only [Run.taken] at h0
          omega
      · rename_i hle
        refine ⟨h.pos, ?_, h.nonneg, h.own, h.known, h.self⟩
        refine h.counted.ok (fun _ hold => hold) hsrc rfl rfl ⟨hg, hp.floor, ?_⟩
        intro b hv hb
        exact le_trans (hp.bound b hv hb) (not_lt.mp hle)

theorem AccRel.taken (h : AccRel t L r) (hsrc : src ∈ r.waiting) (rep : Option AcceptReply)
    (hrep : ∀ reply, rep = some reply → reply.status = .ok → t.votes src r.seqNum) :
    AccRel t L ((r.countAccept rep).taken n done src) := by
  cases rep with
  | none => exact ⟨h.prop, h.counted.skip (fun _ hp => hp) rfl rfl, h.self⟩
  | some reply =>
    simp only [Run.countAccept]
    cases hst : reply.status with
    | reject =>
      simp only
      split
      · exact ⟨h.prop, h.counted.skip (fun _ hp => hp) rfl rfl, h.self⟩
      · exact ⟨h.prop, h.counted.skip (fun _ hp => hp) rfl rfl, h.self⟩
    | ok =>
      exact ⟨h.prop, h.counted.ok (fun _ hp => hp) hsrc rfl rfl (hrep reply rfl hst), h.self⟩

end

/-! ## Replacing a run -/

section
variable {F : List H → Prop} {hF : ∀ L L', F L → F L' → Overlap L L'} {s : Int}
  {w w' : World H V} {t : St H (Option V)} {r : Run H V} {j : Nat}

/-- Run `j` moves on from `r` to `r'`; at most the ballots that `r'` has just
passed the prepare phase of are new. -/
theorem Rel.setRun {t t' : St H (Option V)} (h : Rel F hF s w t) (he : Ext t t')
    (hfloor : t'.floor = t.floor) (hvotes : t'.votes = t.votes) {r r' : Run H V}
    (hj : w.runs[j]? = some r) (hslot : r'.slotNum = r.slotNum) (hv : r'.v = r.v)
    (hpass : ∀ c, c < r.round ∨ (c = r.round ∧ r.pc.afterPrepare = true) →
      c < r'.round ∨ (c = r'.round ∧ r'.pc.afterPrepare = true))
    (hrun : r.slotNum = s → RunRel (majorities F hF) F w.net t' (w.peer r'.px) j r')
    (hprop : ∀ n x, t'.prop n = some x → t.prop n = some x ∨
      ((∃ c, Passed (w.setRun j r') j c ∧ ∃ Q, (majorities F hF).Quorum Q ∧
        ∀ p ∈ Q, Granted w.net s j c n p) ∧ ∃ r₀ ∈ w.runs, r₀.slotNum = s ∧ r₀.v = x)) :
    Rel F hF s (w.setRun j r') t' := by
  have hget : ∀ i, (w.setRun j r').runs[i]? = if j = i then some r' else w.runs[i]? := by
    intro i
    have hlt : j < w.runs.length := (List.getElem?_eq_some_iff.mp hj).1
    simp only [World.setRun, List.getElem?_set, hlt, if_true]
  have hpassed : ∀ i c, Passed w i c → Passed (w.setRun j r') i c := by
    rintro i c ⟨r₁, h₁, h₂⟩
    by_cases e : j = i
    · subst e
      rw [hj] at h₁; cases h₁
      exact ⟨r', by rw [hget]; exact if_pos rfl, hpass c h₂⟩
    · exact ⟨r₁, by rw [hget, if_neg e]; exact h₁, h₂⟩
  have hvalid : ∀ x, (∃ r₀ ∈ w.runs, r₀.slotNum = s ∧ r₀.v = x) →
      ∃ r₀ ∈ (w.setRun j r').runs, r₀.slotNum = s ∧ r₀.v = x := by
    rintro x ⟨r₀, hmem, h₁, h₂⟩
    obtain ⟨i, hi⟩ := List.mem_iff_getElem?.mp hmem
    by_cases e : j = i
    · subst e
      rw [hj] at hi; cases hi
      refine ⟨r', List.mem_iff_getElem?.mpr ⟨j, ?_⟩, by rw [hslot, h₁], by rw [hv, h₂]⟩
      rw [hget]; exact if_pos rfl
    · refine ⟨r₀, List.mem_iff_getElem?.mpr ⟨i, ?_⟩, h₁, h₂⟩
      rw [hget, if_neg e]; exact hi
  refine ⟨?_, h.nonneg, ?_, fun p hp => (h.known p hp).mono he, ?_, h.once, ?_, ?_, ?_, ?_, ?_, ?_⟩
  · intro p; rw [hfloor]; exact h.floor p
  · intro p b hb; rw [hvotes] at hb; exact h.votes p b hb
  · intro i c p n rep hm hok; exact (h.promised i c p n rep hm hok).mono he
  · intro i c p n x hm; exact he.prop n x (h.accept i c p n x hm)
  · intro i c p n rep hm hok; exact he.votes p n (h.accepted i c p n rep hm hok)
  · intro p x hm; exact (h.decide p x hm).mono _ he
  · intro i r₁ hi hs
    rw [hget] at hi
    split at hi
    · rename_i e; subst e; cases hi
      exact hrun (by rw [← hslot, hs])
    · exact (h.run i r₁ hi hs).mono (fun _ hm => hm) he ⟨rfl, rfl⟩
  · intro n x hn
    rcases hprop n x hn with hold | ⟨⟨c, hc⟩, -⟩
    · obtain ⟨i, c, hp, hQ⟩ := h.owner n x hold
      exact ⟨i, c, hpassed i c hp, hQ⟩
    · exact ⟨j, c, hc⟩
  · intro n x hn
    rcases hprop n x hn with hold | ⟨-, hr⟩
    · exact hvalid x (h.valid n x hold)
    · exact hvalid x hr

/-- A local step of run `j`: the ballots stay. -/
theorem Rel.moveRun (h : Rel F hF s w t) {r r' : Run H V} (hj : w.runs[j]? = some r)
    (hslot : r'.slotNum = r.slotNum) (hv : r'.v = r.v)
    (hpass : ∀ c, c < r.round ∨ (c = r.round ∧ r.pc.afterPrepare = true) →
      c < r'.round ∨ (c = r'.round ∧ r'.pc.afterPrepare = true))
    (hrun : r.slotNum = s → RunRel (majorities F hF) F w.net t (w.peer r'.px) j r') :
    Rel F hF s (w.setRun j r') t :=
  h.setRun (Ext.refl t) rfl rfl hj hslot hv hpass hrun fun _ _ hn => .inl hn

/-- The value of a ballot, or a chosen one, was passed to some run. -/
theorem Rel.known_valid (h : Rel F hF s w t) {k : Int} {x : Option V}
    (hk : Known (majorities F hF) t k x) :
    ∃ r ∈ w.runs, r.slotNum = s ∧ r.v = x := by
  rcases hk with hp | ⟨b, hp, -⟩
  · exact h.valid k x hp
  · exact h.valid b x hp

/-- The number of a round that gets a majority of promises is not in use: its
owner would share a promise with this round. -/
theorem Rel.fresh (h : Rel F hF s w t) (hj : w.runs[j]? = some r) (hpc : r.pc = .checkPrepare)
    {S : Finset H} (hS : (majorities F hF).Quorum S)
    (hg : ∀ p ∈ S, Granted w.net s j r.round r.seqNum p) :
    t.prop r.seqNum = none := by
  cases hp : t.prop r.seqNum with
  | none => rfl
  | some x =>
    obtain ⟨i, c, ⟨r₁, hi, hc⟩, Q, hQ, hQg⟩ := h.owner _ x hp
    obtain ⟨p, hpS, hpQ⟩ := (majorities F hF).meet S Q hS hQ
    obtain ⟨rfl, rfl⟩ := h.once _ _ _ _ _ p (hg p hpS) (hQg p hpQ)
    rw [hj] at hi; cases hi
    rcases hc with hc | ⟨-, hc⟩
    · exact absurd hc (lt_irrefl _)
    · rw [hpc] at hc; cases hc

/-- A majority of promises opens a ballot with the value the round proposes. -/
theorem Rel.beginAccept [DecidableEq H] (h : Rel F hF s w t) (hj : w.runs[j]? = some r)
    (hs : r.slotNum = s) (hpc : r.pc = .checkPrepare)
    (hmaj : ¬ r.numOk ≤ (w.peer r.px).peers.length / 2) :
    ∃ ls t', (lts (majorities F hF)).Run t ls t' ∧ Rel F hF s (w.setRun j r.beginAccept) t' := by
  have hrel := h.run j r hj hs
  simp only [RunRel, hpc] at hrel
  obtain ⟨hL, hrel⟩ := hrel
  obtain ⟨S, hmajS, hP⟩ := hrel.counted.majority hmaj
  have hS : (majorities F hF).Quorum S := ⟨_, hL.mem, hmajS⟩
  have hg : ∀ p ∈ S, Granted w.net s j r.round r.seqNum p := by
    intro p hp
    have := (hP p hp).1
    rw [hs] at this
    exact this
  have hnone := h.fresh hj hpc hS hg
  have hvalid : ∃ r₀ ∈ w.runs, r₀.slotNum = s ∧ r₀.v = r.proposeValue := by
    by_cases h0 : r.maxSeqNumAccepted = 0
    · exact ⟨r, List.mem_iff_getElem?.mpr ⟨j, hj⟩, hs, (hrel.own h0).symm⟩
    · have := hrel.nonneg
      exact h.known_valid (hrel.known (by omega))
  have hjust : Justified (majorities F hF) t r.seqNum r.proposeValue := by
    refine ⟨S, r.maxSeqNumAccepted, hS, fun p hp => (hP p hp).2.1, fun p hp => (hP p hp).2.2, ?_⟩
    by_cases h0 : 0 < r.maxSeqNumAccepted
    · exact .inr (hrel.known h0)
    · exact .inl (not_lt.mp h0)
  have hnew : ∀ n x, (proposed t r.seqNum r.proposeValue).prop n = some x →
      t.prop n = some x ∨ (n = r.seqNum ∧ x = r.proposeValue) := by
    intro n x hn
    by_cases e : n = r.seqNum
    · subst e
      simp only [proposed, Function.update_self, Option.some.injEq] at hn
      exact .inr ⟨rfl, hn.symm⟩
    · simp only [proposed, Function.update_of_ne e] at hn
      exact .inl hn
  refine ⟨[.propose r.seqNum r.proposeValue], proposed t r.seqNum r.proposeValue,
    .single ⟨hrel.pos, hnone, hjust, rfl⟩, ?_⟩
  refine h.setRun (ext_proposed hnone) rfl rfl hj rfl rfl ?_ ?_ ?_
  · intro c hc
    rcases hc with hc | ⟨-, hc⟩
    · exact .inl hc
    · rw [hpc] at hc; cases hc
  · intro _
    exact ⟨hL, by simp [proposed, Run.beginAccept], .empty rfl rfl, hrel.self hL.self_mem⟩
  · intro n x hn
    rcases hnew n x hn with hold | ⟨rfl, rfl⟩
    · exact .inl hold
    · refine .inr ⟨⟨r.round, ⟨r.beginAccept, ?_, .inr ⟨rfl, rfl⟩⟩, S, hS, hg⟩, hvalid⟩
      have hlt : j < w.runs.length := (List.getElem?_eq_some_iff.mp hj).1
      simp [World.setRun, hlt]

/-- A majority of votes for the ballot of a round chooses its value. -/
theorem AccRel.chosen {L : List H} (hL : F L) (h : AccRel t L r) (hmaj : ¬ r.numOk ≤ L.length / 2) :
    ChosenAt (majorities F hF) t r.seqNum r.proposeValue := by
  obtain ⟨S, hS, hv⟩ := h.counted.majority hmaj
  exact ⟨h.prop, S, ⟨L, hL, hS⟩, hv⟩

theorem rel_start (h : Rel F hF s w t) (p : H) (s' : Int) (v : Option V) (m : Int) :
    Rel F hF s { w with runs := w.runs ++ [Run.init p s' v m] } t := by
  have hget : ∀ (i : Nat) r, w.runs[i]? = some r → (w.runs ++ [Run.init p s' v m])[i]? = some r := by
    intro i r hi
    rw [List.getElem?_append_left (List.getElem?_eq_some_iff.mp hi).1]
    exact hi
  refine ⟨h.floor, h.nonneg, h.votes, h.known, h.promised, h.once, h.accept, h.accepted, h.decide,
    ?_, ?_, ?_⟩
  · intro j r hj hs
    by_cases hlt : j < w.runs.length
    · simp only [List.getElem?_append_left hlt] at hj
      exact h.run j r hj hs
    · simp only [List.getElem?_append_right (not_lt.mp hlt)] at hj
      have hmem := List.mem_of_getElem? hj
      rw [List.mem_singleton] at hmem
      subst hmem
      trivial
  · intro n x hn
    obtain ⟨j, c, ⟨r, hr, hc⟩, hQ⟩ := h.owner n x hn
    exact ⟨j, c, ⟨r, hget j r hr, hc⟩, hQ⟩
  · intro n x hn
    obtain ⟨r, hr, h₁, h₂⟩ := h.valid n x hn
    exact ⟨r, List.mem_append_left _ hr, h₁, h₂⟩

/-! ## The statements of the loop -/

/-- The prepare loop has called the next peer. -/
theorem Rel.calledPrepare (h : Rel F hF s w t) (hj : w.runs[j]? = some r)
    (hpc : r.pc = .sendPrepare) {dst : H} (hi : (w.peer r.px).peers[r.i]? = some dst)
    (hself : r.slotNum = s → dst = r.px → r.seqNum ≤ t.floor r.px) :
    Rel F hF s (w.setRun j (r.called dst)) t := by
  refine h.moveRun hj rfl rfl (fun c hc => hc) fun hs => ?_
  have hrel := h.run j r hj hs
  have hpc' : (r.called dst).pc = .sendPrepare := hpc
  simp only [RunRel, hpc] at hrel
  simp only [RunRel, hpc']
  exact ⟨hrel.1, hrel.2.called hrel.1.nodup hi (hself hs)⟩

/-- The accept loop has called the next peer. -/
theorem Rel.calledAccept (h : Rel F hF s w t) (hj : w.runs[j]? = some r) (hpc : r.pc = .sendAccept)
    {dst : H} (hi : (w.peer r.px).peers[r.i]? = some dst) :
    Rel F hF s (w.setRun j (r.called dst)) t := by
  refine h.moveRun hj rfl rfl (fun c hc => hc) fun hs => ?_
  have hrel := h.run j r hj hs
  have hpc' : (r.called dst).pc = .sendAccept := hpc
  simp only [RunRel, hpc] at hrel
  simp only [RunRel, hpc']
  exact ⟨hrel.1, hrel.2.called hrel.1.nodup hi⟩

/-- A run on another slot may move as it likes. -/
theorem Rel.moveOther (h : Rel F hF s w t) {r r' : Run H V} (hj : w.runs[j]? = some r)
    (hs : r.slotNum ≠ s) (hslot : r'.slotNum = r.slotNum) (hv : r'.v = r.v)
    (hpass : ∀ c, c < r.round ∨ (c = r.round ∧ r.pc.afterPrepare = true) →
      c < r'.round ∨ (c = r'.round ∧ r'.pc.afterPrepare = true)) :
    Rel F hF s (w.setRun j r') t :=
  h.moveRun hj hslot hv hpass fun e => absurd e hs

/-- A test failed: back to the head of the loop. -/
theorem Rel.retry (h : Rel F hF s w t) (hj : w.runs[j]? = some r) :
    Rel F hF s (w.setRun j r.retry) t := by
  refine h.moveRun hj rfl rfl (fun c hc => ?_) fun _ => trivial
  simp only [Run.retry]
  omega

theorem take_of_getElem?_none {A : Type} {L : List A} {i : Nat} (h : L[i]? = none) :
    L.take i = L :=
  List.take_of_length_le (List.getElem?_eq_none_iff.mp h)

variable [DecidableEq H]

/-- One iteration of the prepare loop. -/
theorem rel_sendPrepare (h : Rel F hF s w t) (hj : w.runs[j]? = some r) (hpc : r.pc = .sendPrepare)
    {dst : H} (hi : (w.peer r.px).peers[r.i]? = some dst) (hstep : (if r.i = (w.peer r.px).me then
        some ((w.doPrepare j r.round r.px r.slotNum r.seqNum).setRun j (r.called r.px))
      else some ((w.send (.prepare j r.round dst r.slotNum r.seqNum)).setRun j (r.called dst)))
        = some w') :
    ∃ ls t', (lts (majorities F hF)).Run t ls t' ∧ Rel F hF s w' t' := by
  have hrel := h.run j r hj
  simp only [RunRel, hpc] at hrel
  split at hstep <;> cases hstep
  · rename_i hme
    obtain ⟨ls, t', hrun, h'⟩ := rel_doPrepare h j r.round r.px r.slotNum r.seqNum
    refine ⟨ls, t', hrun, ?_⟩
    by_cases hs : r.slotNum = s
    · have hpeers := (Peer.update_frame (Peer.prepare_frame (w.peer r.px) r.slotNum r.seqNum) r.px).1
      have hdst : dst = r.px := by
        have hself := (hrel hs).1.self
        rw [← hme, hi] at hself
        exact Option.some.inj hself
      refine h'.calledPrepare hj hpc ?_ fun _ _ => ?_
      · rw [← hdst, ← hi, hdst]
        exact congrArg (·[r.i]?) hpeers
      · rw [h'.floor r.px, ← hs]
        simpa [World.slot, World.doPrepare] using Peer.prepare_seen (w.peer r.px) r.slotNum r.seqNum
    · exact h'.moveOther hj hs rfl rfl fun c hc => hc
  · rename_i hme
    have hsent := rel_send h (.prepare j r.round dst r.slotNum r.seqNum) fun _ => trivial
    refine ⟨[], t, .nil t, hsent.calledPrepare hj hpc hi fun hs e => ?_⟩
    rw [e] at hi
    exact absurd ((hrel hs).1.index hi) hme

/-- One iteration of the accept loop. -/
theorem rel_sendAccept (h : Rel F hF s w t) (hinv : Inv (majorities F hF) t)
    (hj : w.runs[j]? = some r) (hpc : r.pc = .sendAccept) {dst : H}
    (hi : (w.peer r.px).peers[r.i]? = some dst) (hstep : (if r.i = (w.peer r.px).me then
        some ((w.doAccept j r.round r.px r.slotNum r.seqNum r.proposeValue).setRun j
          (r.called r.px))
      else some ((w.send (.accept j r.round dst r.slotNum r.seqNum r.proposeValue)).setRun j
        (r.called dst))) = some w') :
    ∃ ls t', (lts (majorities F hF)).Run t ls t' ∧ Rel F hF s w' t' := by
  have hrel := h.run j r hj
  simp only [RunRel, hpc] at hrel
  split at hstep <;> cases hstep
  · rename_i hme
    obtain ⟨ls, t', hrun, h'⟩ := rel_doAccept h hinv j r.round r.px r.slotNum r.seqNum
      r.proposeValue fun hs => (hrel hs).2.prop
    refine ⟨ls, t', hrun, ?_⟩
    by_cases hs : r.slotNum = s
    · have hpeers := (Peer.update_frame
        (Peer.accept_frame (w.peer r.px) r.slotNum r.seqNum r.proposeValue) r.px).1
      have hdst : dst = r.px := by
        have hself := (hrel hs).1.self
        rw [← hme, hi] at hself
        exact Option.some.inj hself
      refine h'.calledAccept hj hpc ?_
      rw [← hdst, ← hi, hdst]
      exact congrArg (·[r.i]?) hpeers
    · exact h'.moveOther hj hs rfl rfl fun c hc => hc
  · have hsent := rel_send h (.accept j r.round dst r.slotNum r.seqNum r.proposeValue)
      fun hs => (hrel hs).2.prop
    exact ⟨[], t, .nil t, hsent.calledAccept hj hpc hi⟩

theorem rel_goRun (h : Rel F hF s w t) (hinv : Inv (majorities F hF) t) (hj : w.runs[j]? = some r)
    (hstep : w.goRun j r = some w') :
    ∃ ls t', (lts (majorities F hF)).Run t ls t' ∧ Rel F hF s w' t' := by
  have hrel := h.run j r hj
  -- the phase changes that keep the ballots, with what is left to show
  have move : ∀ r' : Run H V, r'.slotNum = r.slotNum → r'.v = r.v → r'.round = r.round →
      (r.pc.afterPrepare = true → r'.pc.afterPrepare = true) →
      (r.slotNum = s → RunRel (majorities F hF) F w.net t (w.peer r'.px) j r') →
      ∃ ls t', (lts (majorities F hF)).Run t ls t' ∧ Rel F hF s (w.setRun j r') t' := by
    intro r' hslot hv hround hpass hrun
    refine ⟨[], t, .nil t, h.moveRun hj hslot hv (fun c hc => ?_) hrun⟩
    rw [hround]
    exact hc.imp_right fun ⟨e, hp⟩ => ⟨e, hpass hp⟩
  unfold World.goRun at hstep
  cases hpc : r.pc <;> simp only [hpc, RunRel] at hstep hrel
  case top | returned | killed => cases hstep
  case sendPrepare =>
    split at hstep
    · rename_i dst hi
      exact rel_sendPrepare h hj hpc hi hstep
    · rename_i hi
      cases hstep
      refine move _ rfl rfl rfl (fun hp => ?_) fun hs => ?_
      · rw [hpc] at hp; exact hp
      · have hL := hrel hs
        rw [take_of_getElem?_none hi] at hL
        exact ⟨hL.1, hL.2.pos, hL.2.counted, hL.2.nonneg, hL.2.own, hL.2.known, hL.2.self⟩
  case recvPrepare =>
    split at hstep
    · cases hstep
    · cases hstep
      refine move _ rfl rfl rfl (fun hp => ?_) fun hs => ?_
      · rw [hpc] at hp; exact hp
      · have hL := hrel hs
        exact ⟨hL.1, hL.2.pos, hL.2.counted, hL.2.nonneg, hL.2.own, hL.2.known, hL.2.self⟩
  case checkPrepare =>
    split at hstep
    · cases hstep
      exact ⟨[], t, .nil t, h.retry hj⟩
    · rename_i hmaj
      cases hstep
      by_cases hs : r.slotNum = s
      · exact h.beginAccept hj hs hpc hmaj
      · exact move _ rfl rfl rfl (fun _ => rfl) fun e => absurd e hs
  case sendAccept =>
    split at hstep
    · rename_i dst hi
      exact rel_sendAccept h hinv hj hpc hi hstep
    · rename_i hi
      cases hstep
      refine move _ rfl rfl rfl (fun _ => rfl) fun hs => ?_
      have hL := hrel hs
      rw [take_of_getElem?_none hi] at hL
      exact ⟨hL.1, hL.2.prop, hL.2.counted, hL.2.self⟩
  case recvAccept =>
    split at hstep
    · cases hstep
    · cases hstep
      refine move _ rfl rfl rfl (fun _ => rfl) fun hs => ?_
      have hL := hrel hs
      exact ⟨hL.1, hL.2.prop, hL.2.counted, hL.2.self⟩
  case checkAccept =>
    split at hstep
    · cases hstep
      exact ⟨[], t, .nil t, h.retry hj⟩
    · rename_i hmaj
      cases hstep
      refine move _ rfl rfl rfl (fun _ => rfl) fun hs => ?_
      obtain ⟨hL, hacc⟩ := hrel hs
      have hch : ChosenAt (majorities F hF) t r.seqNum r.proposeValue := hacc.chosen hL.mem hmaj
      exact ⟨hch, hacc.self⟩
  case sendDecide =>
    split at hstep
    · rename_i dst hi
      split at hstep
      · cases hstep
        have hdone := rel_doDecide h r.px r.slotNum r.proposeValue fun hs => ⟨_, (hrel hs).1⟩
        refine ⟨[], t, .nil t, hdone.moveRun hj rfl rfl (fun c hc => ?_) fun hs => hrel hs⟩
        rw [hpc] at hc; exact hc
      · cases hstep
        have hsent := rel_send h (.decide dst r.slotNum r.proposeValue)
          fun hs => ⟨_, (hrel hs).1⟩
        refine ⟨[], t, .nil t, hsent.moveRun hj rfl rfl (fun c hc => ?_) fun hs => hrel hs⟩
        rw [hpc] at hc; exact hc
    · cases hstep
      exact move _ rfl rfl rfl (fun _ => rfl) hrel

/-! ## The receive loops -/

theorem taken_pc (n : Nat) (done : Pc) (r : Run H V) (src : H) :
    (r.taken n done src).pc = r.pc ∨ (r.taken n done src).pc = done := by
  simp only [Run.taken]
  split
  · exact .inr rfl
  · exact .inl rfl

theorem rel_takePrepare (h : Rel F hF s w t) (hj : w.runs[j]? = some r) (hpc : r.pc = .recvPrepare)
    {src : H} (hsrc : src ∈ r.waiting) (rep : Option (PrepareReply V))
    (hrep : ∀ reply, rep = some reply →
      Msg.prepareReply j r.round src r.slotNum r.seqNum reply ∈ w.net) (n : Nat) :
    Rel F hF s (w.setRun j ((r.countPrepare rep).taken n .checkPrepare src)) t := by
  obtain ⟨⟨hpx, hslot, hv⟩, hpc', hround⟩ := countPrepare_frame r rep
  refine h.moveRun hj hslot hv (fun c hc => ?_) fun hs => ?_
  · rcases hc with hc | ⟨-, hc⟩
    · exact .inl (by simp only [Run.taken]; omega)
    · rw [hpc] at hc; cases hc
  · have hrel := h.run j r hj hs
    simp only [RunRel, hpc] at hrel
    obtain ⟨hL, hrel⟩ := hrel
    have htaken : PrepRel (majorities F hF) w.net t j (w.peer r.px).peers
        ((r.countPrepare rep).taken n .checkPrepare src) := by
      refine hrel.taken hsrc rep fun reply e hok => ?_
      have hm := hrep reply e
      refine ⟨⟨reply, hm, hok⟩, ?_⟩
      rw [hs] at hm
      exact h.promised _ _ _ _ _ hm hok
    have hpeer : ((r.countPrepare rep).taken n .checkPrepare src).px = r.px := hpx
    rcases taken_pc n .checkPrepare (r.countPrepare rep) src with e | e
    · rw [hpc', hpc] at e
      simp only [RunRel, e, hpeer]
      exact ⟨hL, htaken⟩
    · simp only [RunRel, e, hpeer]
      exact ⟨hL, htaken⟩

theorem rel_takeAccept (h : Rel F hF s w t) (hj : w.runs[j]? = some r) (hpc : r.pc = .recvAccept)
    {src : H} (hsrc : src ∈ r.waiting) (rep : Option AcceptReply)
    (hrep : ∀ reply, rep = some reply →
      Msg.acceptReply j r.round src r.slotNum r.seqNum reply ∈ w.net) (n : Nat) :
    Rel F hF s (w.setRun j ((r.countAccept rep).taken n .checkAccept src)) t := by
  obtain ⟨⟨hpx, hslot, hv⟩, hpc', hround⟩ := countAccept_frame r rep
  have hpcs := taken_pc n .checkAccept (r.countAccept rep) src
  rw [hpc', hpc] at hpcs
  refine h.moveRun hj hslot hv (fun c hc => ?_) fun hs => ?_
  · rcases hc with hc | ⟨hc, -⟩
    · exact .inl (by simp only [Run.taken]; omega)
    · refine .inr ⟨by simp only [Run.taken]; omega, ?_⟩
      rcases hpcs with e | e <;> rw [e] <;> rfl
  · have hrel := h.run j r hj hs
    simp only [RunRel, hpc] at hrel
    obtain ⟨hL, hrel⟩ := hrel
    have htaken : AccRel t (w.peer r.px).peers
        ((r.countAccept rep).taken n .checkAccept src) := by
      refine hrel.taken hsrc rep fun reply e hok => ?_
      have hm := hrep reply e
      rw [hs] at hm
      exact h.accepted _ _ _ _ _ hm hok
    have hpeer : ((r.countAccept rep).taken n .checkAccept src).px = r.px := hpx
    rcases hpcs with e | e
    · simp only [RunRel, e, hpeer]
      exact ⟨hL, htaken⟩
    · simp only [RunRel, e, hpeer]
      exact ⟨hL, htaken⟩

/-! ## Every step of a world -/

/-- A round on slot `s` may only begin with a list of the family. -/
def TopOk (F : List H → Prop) (s : Int) (w : World H V) (l : Lbl H V) : Prop :=
  ∀ j n r, l = .top j n → w.runs[j]? = some r → r.slotNum = s → ListOk F (w.peer r.px) r.px

theorem rel_deliver [DecidableEq V] (h : Rel F hF s w t) (hinv : Inv (majorities F hF) t)
    {m : Msg H V} (hstep : w.deliver m = some w') :
    ∃ ls t', (lts (majorities F hF)).Run t ls t' ∧ Rel F hF s w' t' := by
  simp only [World.deliver] at hstep
  split at hstep
  · rename_i hm
    cases m with
    | prepare j c dst s' n => cases hstep; exact rel_doPrepare h j c dst s' n
    | accept j c dst s' n x =>
      cases hstep
      refine rel_doAccept h hinv j c dst s' n x fun hs => ?_
      subst hs
      exact h.accept j c dst n x hm
    | decide dst s' x =>
      cases hstep
      refine ⟨[], t, .nil t, rel_doDecide h dst s' x fun hs => ?_⟩
      subst hs
      exact h.decide dst x hm
    | prepareReply | acceptReply => cases hstep
  · cases hstep

theorem rel_step [DecidableEq V] (h : Rel F hF s w t) (hinv : Inv (majorities F hF) t) {l : Lbl H V}
    (hl : TopOk F s w l) (hstep : w.step l = some w') :
    ∃ ls t', (lts (majorities F hF)).Run t ls t' ∧ Rel F hF s w' t' := by
  cases l with
  | start p s' v =>
    cases hstep
    exact ⟨[], t, .nil t, rel_start h p s' v _⟩
  | top j n =>
    simp only [World.step] at hstep
    split at hstep
    · cases hstep
    · rename_i r hj
      split at hstep
      · rename_i hpc
        cases hstep
        refine ⟨[], t, .nil t, h.moveRun hj rfl rfl (fun c hc => ?_) fun hs => ?_⟩
        · rcases hc with hc | ⟨-, hc⟩
          · exact .inl hc
          · rw [hpc.1] at hc; cases hc
        · exact ⟨hl j n r rfl hj hs, .begin hpc.2⟩
      · cases hstep
  | go j =>
    simp only [World.step] at hstep
    split at hstep
    · cases hstep
    · rename_i r hj
      exact rel_goRun h hinv hj hstep
  | recvPrepare j src reply =>
    simp only [World.step] at hstep
    split at hstep
    · cases hstep
    · rename_i r hj
      split at hstep
      · rename_i hc
        cases hstep
        obtain ⟨hpc, -, hsrc, hm⟩ := hc
        refine ⟨[], t, .nil t, rel_takePrepare h hj hpc hsrc (some reply) (fun rep e => ?_) _⟩
        cases e; exact hm
      · cases hstep
  | recvAccept j src reply =>
    simp only [World.step] at hstep
    split at hstep
    · cases hstep
    · rename_i r hj
      split at hstep
      · rename_i hc
        cases hstep
        obtain ⟨hpc, -, hsrc, hm⟩ := hc
        refine ⟨[], t, .nil t, rel_takeAccept h hj hpc hsrc (some reply) (fun rep e => ?_) _⟩
        cases e; exact hm
      · cases hstep
  | fail j src =>
    simp only [World.step] at hstep
    split at hstep
    · cases hstep
    · rename_i r hj
      split at hstep
      · rename_i hc
        split at hstep
        · rename_i hpc
          cases hstep
          exact ⟨[], t, .nil t, rel_takePrepare h hj hpc hc.2 none (fun rep e => by cases e) _⟩
        · rename_i hpc
          cases hstep
          exact ⟨[], t, .nil t, rel_takeAccept h hj hpc hc.2 none (fun rep e => by cases e) _⟩
        · cases hstep
      · cases hstep
  | deliver m => exact rel_deliver h hinv hstep

omit [DecidableEq H] in
/-- Untouched slots, no runs and no messages follow the empty ballots. -/
theorem rel_empty (hslot : ∀ p, w.slot p s = ⟨none, false, 0, 0⟩) (hruns : w.runs = [])
    (hnet : w.net = []) : Rel F hF s w empty := by
  refine ⟨?_, ?_, ?_, ?_, ?_, ?_, ?_, ?_, ?_, ?_, ?_, ?_⟩
  · intro p; rw [hslot]; rfl
  · intro p; rw [hslot]
  · intro p b hv; cases hv
  · intro p hp; rw [hslot] at hp; exact absurd hp (lt_irrefl _)
  · intro j c p n rep hm; rw [hnet] at hm; cases hm
  · rintro j c j' c' n p ⟨rep, hm, -⟩; rw [hnet] at hm; cases hm
  · intro j c p n x hm; rw [hnet] at hm; cases hm
  · intro j c p n rep hm; rw [hnet] at hm; cases hm
  · intro p x hm; rw [hnet] at hm; cases hm
  · intro j r hj; rw [hruns] at hj; cases hj
  · intro n x hn; cases hn
  · intro n x hn; cases hn

omit [DecidableEq H] in
/-- The value of a run in its decide phase is chosen in the run's ballot, a
number its own peer has seen. -/
theorem Rel.decides (h : Rel F hF s w t) (hr : r ∈ w.runs) (hs : r.slotNum = s) (hd : r.Decides) :
    ChosenAt (majorities F hF) t r.seqNum r.proposeValue ∧ r.seqNum ≤ t.floor r.px := by
  obtain ⟨j, hj⟩ := List.mem_iff_getElem?.mp hr
  have hrel := h.run j r hj hs
  rcases hd with hd | hd
  · simp only [RunRel, hd] at hrel
    exact hrel
  · simp only [RunRel, hd] at hrel
    exact hrel

omit [DecidableEq H] in
/-- Two runs in their decide phases have one value. -/
theorem Rel.agree (h : Rel F hF s w t) (hinv : Inv (majorities F hF) t) {r₁ r₂ : Run H V}
    (h₁ : r₁ ∈ w.runs) (h₂ : r₂ ∈ w.runs) (hs₁ : r₁.slotNum = s) (hs₂ : r₂.slotNum = s)
    (hd₁ : r₁.Decides) (hd₂ : r₂.Decides) :
    r₁.proposeValue = r₂.proposeValue :=
  chosen_unique _ hinv ⟨_, (h.decides h₁ hs₁ hd₁).1⟩ ⟨_, (h.decides h₂ hs₂ hd₂).1⟩

end

end Cmu440.Paxos
