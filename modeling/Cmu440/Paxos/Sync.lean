import Cmu440.Paxos.Conduct

/-!
# Filling the gaps: `syncPeers`

Before the administrator changes the membership it has every listed peer decide
every slot up to the highest decided one (paxosadmin.go:119-172). The slots
below the range it goes through are taken from the peers' answers to
`MinUndecidedSlot`: the least of them is a bound under which every peer has
decided everything, and decided slots stay decided.

So an error-free end means that no gap is left, whatever else happened
(`syncPeers_spec`). The error path is where it goes wrong: the text for a failed
`SyncPaxosValue` names the peer as `peers[i]`, but `i` is the slot. A failed call
for a slot from `len(peers)` on indexes outside the slice (`syncPeers_panics`), as
for slot 1 on a cluster of one peer (`failed_sync_panics`).
-/
namespace Cmu440.Paxos

variable {H V : Type}

section
variable [DecidableEq H] [DecidableEq V] {noOp : Option V} {G : Guard H V} {w w' : World H V}

theorem sync_call (p : H) (s : Int) :
    Triple (host noOp G) (fun _ => True) (paxosAdminCall (.syncPaxosValue p s)) fun r w =>
      (∀ rep, r = some rep → (w.peer p).Decided s) ∧
        ∃ w₀, G.answer w₀ (.syncPaxosValue p s) r = true := by
  refine Steady.call (fun _ _ _ h => h) (fun r w w' hc h => ⟨fun rep hr => ?_, h.2⟩) ?_
  · exact hc.later.decided (h.1 rep hr)
  · intro w r w' _ hg ha
    refine ⟨fun rep hr => ?_, w, hg⟩
    subst hr
    exact answered_sync ha

/-! ## The range of slots -/

/-- What the answers of the peers `done` say when none of them is missing. -/
structure Bounded (peers done : List H) (b : Int × Int × String) (w : World H V) : Prop where
  books : ∀ p ∈ peers, (w.peer p).Bookkept
  nonneg : 0 ≤ b.1
  below : b.2.2.length = 0 → ∀ p ∈ done, ∀ s, 0 ≤ s → s < b.1 → (w.peer p).Decided s
  top : b.2.2.length = 0 → done ≠ [] → 0 ≤ b.2.1

omit [DecidableEq H] [DecidableEq V] in
theorem Bounded.steady (peers done : List H) (b : Int × Int × String) :
    Steady (V := V) (Bounded peers done b) := fun _ _ hc h =>
  ⟨fun p hp => hc.later.bookkept (h.books p hp), h.nonneg,
    fun he p hp s h₀ hs => hc.later.decided (h.below he p hp s h₀ hs), h.top⟩

omit [DecidableEq H] [DecidableEq V] in
/-- One more peer has answered both questions. -/
theorem Bounded.snoc {peers done : List H} {lo hi m n : Int} {errMsg : String} {p : H}
    {w : World H V} (h : Bounded peers done (lo, hi, errMsg) w) (hm : 0 ≤ m)
    (hd : ∀ s, 0 ≤ s → s < m → (w.peer p).Decided s) (hn : 0 ≤ n) :
    Bounded peers (done ++ [p]) (min lo m, max hi n, errMsg) w where
  books := h.books
  nonneg := le_min h.nonneg hm
  below he p' hp' s h₀ hs := by
    rw [lt_min_iff] at hs
    rcases List.mem_append.mp hp' with hp' | hp'
    · exact h.below he p' hp' s h₀ hs.1
    · rw [List.mem_singleton] at hp'
      subst hp'
      exact hd s h₀ hs.2
  top _ _ := le_trans hn (le_max_right _ _)

omit [DecidableEq H] [DecidableEq V] in
/-- With an error recorded nothing is claimed any more. -/
theorem Bounded.failed {peers done done' : List H} {b : Int × Int × String} {lo hi : Int}
    {errMsg : String} {w : World H V} (h : Bounded peers done b w) (hlo : 0 ≤ lo)
    (he : errMsg.length ≠ 0) : Bounded peers done' (lo, hi, errMsg) w where
  books := h.books
  nonneg := hlo
  below h₀ := absurd h₀ he
  top h₀ := absurd h₀ he

theorem minUndecidedSlot_call {peers done : List H} {b : Int × Int × String} {p : H}
    (hp : p ∈ peers) :
    Triple (host noOp G) (Bounded peers done b) (paxosAdminCall (.minUndecidedSlot p)) fun r w =>
      Bounded peers done b w ∧ ∀ st n, r = some (st, n) →
        0 ≤ n ∧ ∀ s, 0 ≤ s → s < n → (w.peer p).Decided s := by
  refine Steady.call (Bounded.steady peers done b) (fun r w w' hc h => ?_) fun w r w' h _ ha => ?_
  · refine ⟨Bounded.steady peers done b w w' hc h.1, fun st n hr => ?_⟩
    obtain ⟨h₀, hd⟩ := h.2 st n hr
    exact ⟨h₀, fun s h₁ h₂ => hc.later.decided (hd s h₁ h₂)⟩
  · have h' := Bounded.steady peers done b w w' (ha.calm rfl) h
    refine ⟨h', fun st n hr => ?_⟩
    subst hr
    rw [answered_minUndecidedSlot ha]
    exact ⟨(h'.books p hp).nonneg, (h'.books p hp).below⟩

theorem maxDecidedSlot_call {P : World H V → Prop} (hP : Steady P) {p : H}
    (hb : ∀ w, P w → (w.peer p).Bookkept) :
    Triple (host noOp G) P (paxosAdminCall (.maxDecidedSlot p)) fun r w =>
      P w ∧ ∀ st n, r = some (st, n) → 0 ≤ n := by
  refine Steady.call hP (fun r w w' hc h => ⟨hP w w' hc h.1, h.2⟩) fun w r w' h _ ha => ?_
  have h' := hP w w' (ha.calm rfl) h
  refine ⟨h', fun st n hr => ?_⟩
  subst hr
  rw [answered_maxDecidedSlot ha]
  exact (hb w' h').max_nonneg

variable [ToString H]

theorem slotBounds_spec (peers : List H) :
    Triple (host noOp G) (fun w => ∀ p ∈ peers, (w.peer p).Bookkept) (slotBounds peers) fun b w =>
      Bounded peers peers b w := by
  refine Triple.conseq (P := Bounded peers [] (2147483647, -2147483648, "")) ?_ ?_ fun _ _ h => h
  · refine Triple.foldlM (fun done b => (Bounded.steady peers done b).stable) peers [] _ ?_
    rintro done ⟨lo, hi, errMsg⟩ p hp
    have hsteady : ∀ r : Option (Status × Int), Steady fun w : World H V =>
        Bounded peers done (lo, hi, errMsg) w ∧ ∀ st n, r = some (st, n) →
          0 ≤ n ∧ ∀ s, 0 ≤ s → s < n → (w.peer p).Decided s := by
      intro r w w' hc h
      refine ⟨Bounded.steady peers done _ w w' hc h.1, fun st n hr => ?_⟩
      obtain ⟨h₀, hd⟩ := h.2 st n hr
      exact ⟨h₀, fun s h₁ h₂ => hc.later.decided (hd s h₁ h₂)⟩
    refine .bind (minUndecidedSlot_call hp) fun r =>
      .bind (maxDecidedSlot_call (hsteady r) fun w h => h.1.books p hp) fun r' => ?_
    refine Steady.ret (fun w w' hc h => ⟨hsteady r w w' hc h.1, h.2⟩) ?_
    rintro w ⟨⟨h, hmin⟩, hmax⟩
    rcases r with _ | ⟨_ | _, m⟩ <;> rcases r' with _ | ⟨_ | _, n⟩
    case some.ok.some.ok =>
      exact h.snoc (hmin _ m rfl).1 (hmin _ m rfl).2 (hmax _ n rfl)
    all_goals
      first
        | exact h.failed h.nonneg (by simp)
        | exact h.failed (le_min h.nonneg (hmin _ m rfl).1) (by simp)
  · intro w h
    exact ⟨h, by decide, fun _ p hp => absurd hp List.not_mem_nil, fun _ h => absurd rfl h⟩

/-! ## The slots of the range -/

/-- No `SyncPaxosValue` for a slot from `n` on fails or is rejected. -/
def Guard.Sure (G : Guard H V) (n : Nat) : Prop :=
  ∀ w p s r, (n : Int) ≤ s → G.answer w (.syncPaxosValue p s) r = true →
    ∃ v na nh, r = some ⟨.ok, v, na, nh⟩

/-- A run of the inner loop. -/
theorem syncSlot_spec {peers : List H} {i : Int} (hi : 0 ≤ i) {rest : List H} {errMsg : String}
    {r : Option String} (h : Conducts (host noOp G) w (syncSlot peers i rest errMsg) w' r) :
    (G.Sure peers.length → r ≠ none) ∧ ∀ errMsg', r = some errMsg' → errMsg'.length = 0 →
      errMsg.length = 0 ∧ ∀ p ∈ rest, (w'.peer p).Decided i := by
  induction rest generalizing w errMsg with
  | nil =>
    cases h.of_ret
    refine ⟨fun _ => Option.some_ne_none _, fun errMsg' he h₀ => ?_⟩
    cases he
    exact ⟨h₀, fun p hp => absurd hp List.not_mem_nil⟩
  | cons p rest ih =>
    obtain ⟨w₁, rep, hcall, hrest⟩ := h.of_bind
    obtain ⟨hd, w₀, hg⟩ := sync_call p i _ _ _ trivial hcall
    split at hrest
    · obtain ⟨hne, hok⟩ := ih hrest
      refine ⟨hne, fun errMsg' he h₀ => ?_⟩
      obtain ⟨h₁, hall⟩ := hok errMsg' he h₀
      refine ⟨h₁, fun p' hp' => ?_⟩
      rcases List.mem_cons.mp hp' with rfl | hp'
      · exact (conducts_later hrest).decided (hd _ rfl)
      · exact hall p' hp'
    · rename_i hnot
      -- only slots within the slice may have failed here
      have hlt : G.Sure peers.length → i < peers.length := by
        intro hs
        by_contra hge
        obtain ⟨v, na, nh, rfl⟩ := hs w₀ p i rep (by omega) hg
        exact hnot v na nh rfl
      rw [if_neg (by omega)] at hrest
      split at hrest
      · rename_i hnone
        cases hrest.of_ret
        refine ⟨fun hs => ?_, fun errMsg' he => by cases he⟩
        have := List.getElem?_eq_none_iff.mp hnone
        have := hlt hs
        omega
      · obtain ⟨hne, hok⟩ := ih hrest
        refine ⟨hne, fun errMsg' he h₀ => ?_⟩
        have := (hok errMsg' he h₀).1
        simp at this

/-- A run of the outer loop. -/
theorem syncSlots_spec {peers : List H} {n : Nat} {i : Int} (hi : 0 ≤ i) {errMsg : String}
    {r : Option String} (h : Conducts (host noOp G) w (syncSlots peers n i errMsg) w' r) :
    (G.Sure peers.length → r ≠ none) ∧ ∀ errMsg', r = some errMsg' → errMsg'.length = 0 →
      errMsg.length = 0 ∧ ∀ p ∈ peers, ∀ s, i ≤ s → s < i + n → (w'.peer p).Decided s := by
  induction n generalizing w i errMsg with
  | zero =>
    cases h.of_ret
    refine ⟨fun _ => Option.some_ne_none _, fun errMsg' he h₀ => ?_⟩
    cases he
    exact ⟨h₀, fun p hp s h₁ h₂ => absurd h₁ (by omega)⟩
  | succ n ih =>
    obtain ⟨w₁, r₁, hslot, hrest⟩ := h.of_bind
    obtain ⟨hne, hok⟩ := syncSlot_spec hi hslot
    split at hrest
    · cases hrest.of_ret
      exact ⟨fun hs => absurd rfl (hne hs), fun errMsg' he => by cases he⟩
    · rename_i errMsg₁
      obtain ⟨hne', hok'⟩ := ih (by omega) hrest
      refine ⟨hne', fun errMsg' he h₀ => ?_⟩
      obtain ⟨h₁, hall⟩ := hok' errMsg' he h₀
      obtain ⟨h₂, hslot⟩ := hok errMsg₁ rfl h₁
      refine ⟨h₂, fun p hp s hle hlt => ?_⟩
      by_cases hs : s = i
      · subst hs
        exact (conducts_later hrest).decided (hslot p hp)
      · exact hall p hp s (by omega) (by push_cast at hlt; omega)

section Panics
omit [DecidableEq H] [DecidableEq V]
variable {E : Host (World H V) (Ask H V) Ans} {peers : List H} {p : H} {i : Int}

/-- `SyncPaxosValue` for slot `i` never succeeds on `p`. -/
def Refuses (E : Host (World H V) (Ask H V) Ans) (p : H) (i : Int) : Prop :=
  ∀ w r w', E.ans w (.syncPaxosValue p i) r w' → ∀ v na nh, r ≠ some ⟨.ok, v, na, nh⟩

theorem syncSlot_panics (hi : peers.length ≤ i) (hfail : Refuses E p i) {rest : List H}
    (hp : p ∈ rest) {errMsg : String} {r : Option String}
    (h : Conducts E w (syncSlot peers i rest errMsg) w' r) : r = none := by
  induction rest generalizing w errMsg with
  | nil => cases hp
  | cons q rest ih =>
    obtain ⟨w₁, rep, hcall, hrest⟩ := h.of_bind
    split at hrest
    · refine ih ((List.mem_cons.mp hp).resolve_left fun heq => ?_) hrest
      subst heq
      exact Triple.ask (P := fun _ => True) (fun _ _ _ _ => trivial) (fun _ _ _ hr _ => hr)
        (fun w r w' _ => hfail w r w') _ _ _ trivial hcall _ _ _ rfl
    · rw [if_neg (by omega), List.getElem?_eq_none (by omega)] at hrest
      exact hrest.of_ret.symm

theorem syncSlots_panics (hi : peers.length ≤ i) (hfail : Refuses E p i) (hp : p ∈ peers) {n : Nat}
    {lo : Int} (hlo : lo ≤ i) (hhi : i < lo + n) {errMsg : String} {r : Option String}
    (h : Conducts E w (syncSlots peers n lo errMsg) w' r) : r = none := by
  induction n generalizing w lo errMsg with
  | zero => omega
  | succ n ih =>
    obtain ⟨w₁, r₁, hslot, hrest⟩ := h.of_bind
    split at hrest
    · exact hrest.of_ret.symm
    · have hne : lo ≠ i := fun heq => by
        subst heq
        cases syncSlot_panics hi hfail hp hslot
      exact ih (by omega) (by omega) hrest

/-- In any surroundings: a call that fails for a slot of the range, from
`len(peers)` on, ends in a panic. -/
theorem syncPeers_panics (hi : peers.length ≤ i) (hfail : Refuses E p i) (hp : p ∈ peers)
    (hrange : ∀ w₁ b, Conducts E w (slotBounds peers) w₁ b → b.1 ≤ i ∧ i ≤ b.2.1)
    {out : Outcome (Int × Int)} (h : Conducts E w (syncPeers peers) w' out) : out = .panicked := by
  obtain ⟨w₁, ⟨lo, top, errMsg⟩, hbounds, hrest⟩ := h.of_bind
  obtain ⟨hlo, htop⟩ : lo ≤ i ∧ i ≤ top := hrange w₁ _ hbounds
  obtain ⟨w₂, r, hslots, hrest⟩ := hrest.of_bind
  cases syncSlots_panics hi hfail hp hlo (by omega) hslots
  exact hrest.of_ret.symm

end Panics

/-- A run of `syncPeers` in any host: it panics only when a call for a slot
outside the slice fails, and when it ends without an error every listed peer has
decided every slot up to the maximum. -/
theorem syncPeers_spec {peers : List H} (hw : ∀ p ∈ peers, (w.peer p).Bookkept)
    {out : Outcome (Int × Int)} (h : Conducts (host noOp G) w (syncPeers peers) w' out) :
    (G.Sure peers.length → out ≠ .panicked) ∧ ∀ lo hi, out = .ok (lo, hi) →
      (peers ≠ [] → 0 ≤ hi) ∧ ∀ p ∈ peers, ∀ s, 0 ≤ s → s ≤ hi → (w'.peer p).Decided s := by
  obtain ⟨w₁, ⟨lo, hi, errMsg⟩, hbounds, hrest⟩ := h.of_bind
  have hb := slotBounds_spec peers _ _ _ hw hbounds
  obtain ⟨w₂, r, hslots, hrest⟩ := hrest.of_bind
  obtain ⟨hne, hok⟩ := syncSlots_spec hb.nonneg hslots
  split at hrest
  · cases hrest.of_ret
    exact ⟨fun hs => absurd rfl (hne hs), fun _ _ he => by cases he⟩
  · rename_i errMsg'
    split at hrest
    · rename_i h₀
      cases hrest.of_ret
      refine ⟨fun _ he => (by cases he), fun lo' hi' he => ?_⟩
      cases he
      obtain ⟨h₁, hall⟩ := hok errMsg' rfl h₀
      refine ⟨hb.top h₁, fun p hp s h₀ hle => (conducts_later hrest).decided ?_⟩
      by_cases hs : s < lo
      · exact (conducts_later hslots).decided (hb.below h₁ p hp s h₀ hs)
      · exact hall p hp s (by omega) (by omega)
    · cases hrest.of_ret
      exact ⟨fun _ he => (by cases he), fun _ _ he => by cases he⟩

/-- The host in which no `SyncPaxosValue` for a slot from `n` on fails. -/
def syncing (n : Nat) : Guard H V where
  step _ _ := true
  handle _ _ := true
  answer _ q r :=
    match q, r with
    | .syncPaxosValue _ _, some ⟨.ok, _, _, _⟩ => true
    | .syncPaxosValue _ s, _ => decide (s < n)
    | _, _ => true

omit [DecidableEq H] [DecidableEq V] [ToString H] in
theorem syncing_sure (n : Nat) : (syncing n : Guard H V).Sure n := by
  intro w p s r hs hg
  rcases r with _ | ⟨_ | _, v, na, nh⟩
  case some.ok => exact ⟨v, na, nh, rfl⟩
  all_goals
    have hlt : s < n := of_decide_eq_true hg
    omega

end

/-- On peers that keep their books `syncPeers` returns as soon as its calls are
answered, whatever the answers are. It does not index outside the slice as long
as no `SyncPaxosValue` for a slot from `len(peers)` on fails or is rejected, and
does as soon as one fails in the range it has found. When
it returns without an error, whatever calls failed and whatever rounds went on,
every listed peer has decided every slot from `0` to the maximum. -/
theorem syncPeers_total_and_complete [DecidableEq H] [DecidableEq V] [ToString H]
    (noOp : Option V) (peers : List H) (w : World H V) (hw : ∀ p ∈ peers, (w.peer p).Bookkept) :
    (∀ E : Host (World H V) (Ask H V) Ans, E.Responsive →
      ∃ w' out, Conducts E w (syncPeers peers) w' out) ∧
    (∀ w' out, Conducts (host noOp (syncing peers.length)) w (syncPeers peers) w' out →
      out ≠ .panicked) ∧
    (∀ (E : Host (World H V) (Ask H V) Ans), ∀ p ∈ peers, ∀ i : Int, peers.length ≤ i →
      Refuses E p i → (∀ w₁ b, Conducts E w (slotBounds peers) w₁ b → b.1 ≤ i ∧ i ≤ b.2.1) →
      ∀ w' out, Conducts E w (syncPeers peers) w' out → out = .panicked) ∧
    ∀ w' lo hi, Conducts (host noOp .free) w (syncPeers peers) w' (.ok (lo, hi)) →
      ∀ p ∈ peers, ∀ s, 0 ≤ s → s ≤ hi → (w'.peer p).Decided s := by
  refine ⟨fun E hE => hE.conducts _ w, fun w' out h => ?_, fun E p hp i hi hfail hrange w' out h =>
    syncPeers_panics hi hfail hp hrange h, fun w' lo hi h => ?_⟩
  · exact (syncPeers_spec hw h).1 (syncing_sure _)
  · exact ((syncPeers_spec hw h).2 lo hi rfl).2

/-! ## A cluster of one -/

/-- Run `j` on peer `0`, alone in its list, decides slot `s`. -/
def aloneRun (j : Nat) (seqNum : Int) : List (Lbl Nat Nat) :=
  [.top j seqNum, .go j, .go j, .recvPrepare j 0 ⟨.ok, 0, none, 0⟩, .go j, .go j, .go j,
   .recvAccept j 0 ⟨.ok, 0⟩, .go j, .go j, .go j]

/-- Slot `1` is decided, and slot `0` is not. -/
def gapZero : World Nat Nat :=
  LTS.execD World.step (World.launch [0]) (.start 0 1 (some 10) :: aloneRun 0 1)

/-- The administrator fills the gap. -/
def gapFilled : World Nat Nat :=
  conductD (some 0) .free [.reach, .reach, .sync (aloneRun 1 2), .reach] gapZero (syncPeers [0])

theorem gapZero_bookkept : (gapZero.peer 0).Bookkept := by
  have hrun : (LTS.ofFn (· = World.launch [0]) (World.step (H := Nat) (V := Nat))).Run
      (World.launch [0]) (.start 0 1 (some 10) :: aloneRun 0 1) gapZero :=
    LTS.run_execD (by decide +kernel)
  have hcalm : World.Calm (World.launch [0]) gapZero :=
    hrun.invariant (I := World.Calm (World.launch [0]))
      (fun _ _ _ h hs => h.trans (step_calm hs)) (.refl _)
  exact hcalm.later.bookkept (Peer.bookkept_make [0] 0)

theorem gap_is_filled :
    (∃ w' out, Conducts (host (some 0) .free) gapZero (syncPeers [0]) w' out) ∧
    ¬ (gapZero.peer 0).Decided 0 ∧ (gapFilled.peer 0).Decided 0 ∧ (gapFilled.peer 0).Decided 1 := by
  have hw : ∀ p ∈ [0], (gapZero.peer p).Bookkept := by
    intro p hp
    rw [List.mem_singleton.mp hp]
    exact gapZero_bookkept
  obtain ⟨htotal, -, -, hall⟩ := syncPeers_total_and_complete (some 0) [0] gapZero hw
  have h := hall gapFilled 0 1 (conducts_conductD _ (by decide +kernel)) 0 List.mem_cons_self
  exact ⟨htotal _ (host_responsive _), by unfold Peer.Decided; decide +kernel,
    h 0 (by decide) (by decide), h 1 (by decide) (by decide)⟩

/-- Both calls of `SyncPaxosValue` fail. The error text for slot `1` takes
`peers[1]` of a slice of length one. -/
theorem failed_sync_panics :
    (gapZero.peer 0).Bookkept ∧
      ∃ w', Conducts (host (some 0) .free) gapZero (syncPeers [0]) w' .panicked :=
  ⟨gapZero_bookkept, _, conducts_conductD [.reach, .reach, .miss, .miss] (by decide +kernel)⟩

end Cmu440.Paxos
