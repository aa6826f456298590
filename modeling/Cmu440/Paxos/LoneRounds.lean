import Cmu440.Paxos.Lone

/-!
# The two rounds of a lone proposer

`Cmu440.Paxos.Lone` says what the network and the peers hold while a run is alone
on its slot. Here the loops of `startHelper` are gone through (`Situation`): the send
loops call every peer once, the receive loops have heard from everyone that is not
waited for any more (`Gathered`), and a majority test that fails has heard the highest
number of every peer of `Q`. That happens in the first round only, since in the
second one all of `Q` grant what is asked.

`Run.left` bounds the statements that are left; every statement lowers it
(`lone_step`), and as long as the run has not returned there is one it can take,
at most one delivery away (`Lone.next`).
-/
namespace Cmu440.Paxos

variable {H V : Type} [DecidableEq H]
variable {w w' : World H V} {j c₀ : Nat} {r r' : Run H V} {l : Lbl H V} {L Q : List H} {s : Int}

/-! ## Collecting replies -/

/-- Of a majority `Q`, those not waited for have told their highest number, and
either all of them agreed or one of them refused in the first round. -/
structure Gathered (Q : List H) (c₀ : Nat) (hi : H → Int) (r : Run H V) : Prop where
  covered : ∀ q ∈ Q, q ∈ r.waiting ∨ hi q ≤ max r.seqNum r.maxSeqNumHighest
  count : Q.length ≤ r.numOk + r.waiting.countP (· ∈ Q) ∨
    r.round = c₀ ∧ r.seqNum ≤ r.maxSeqNumHighest

/-- The peers of `L` called so far are those waited for. -/
structure Calling (L : List H) (r : Run H V) : Prop where
  waiting : r.waiting.Perm (L.take r.i)
  numOk : r.numOk = 0

/-- At most the counters and the value differ. -/
structure Untouched (r r' : Run H V) : Prop where
  slotNum : r'.slotNum = r.slotNum
  pc : r'.pc = r.pc
  round : r'.round = r.round
  seqNum : r'.seqNum = r.seqNum
  i : r'.i = r.i
  waiting : r'.waiting = r.waiting

omit [DecidableEq H] in
theorem Untouched.refl (r : Run H V) : Untouched r r := ⟨rfl, rfl, rfl, rfl, rfl, rfl⟩

/-- What a reply `(st, h)` does to the counters, in either phase. -/
structure Counts (st : Status) (h : Int) (r r' : Run H V) : Prop extends Untouched r r' where
  numOk : r'.numOk = r.numOk + if st = .ok then 1 else 0
  highest : r'.maxSeqNumHighest =
    if st = .ok then r.maxSeqNumHighest else max r.maxSeqNumHighest h

/-- `Gathered` does not depend on where the loop stands. -/
theorem Gathered.congr {hi hi' : H → Int} (h : Gathered Q c₀ hi r)
    (hw : r'.waiting = r.waiting) (hn : r'.numOk = r.numOk) (hround : r'.round = r.round)
    (hseq : r'.seqNum = r.seqNum) (hmax : r'.maxSeqNumHighest = r.maxSeqNumHighest)
    (hhi : ∀ q, hi' q ≤ max (hi q) r.seqNum) : Gathered Q c₀ hi' r' := by
  refine ⟨fun q hq => ?_, ?_⟩
  · rw [hw, hseq, hmax]
    refine (h.covered q hq).imp_right fun hle => le_trans (hhi q) (max_le hle (le_max_left _ _))
  · rw [hw, hn, hround, hseq, hmax]
    exact h.count

theorem countP_erase_mem {l : List H} {p : H → Bool} {a : H} (ha : a ∈ l) :
    (l.erase a).countP p + (if p a then 1 else 0) = l.countP p := by
  rw [(List.perm_cons_erase ha).countP_eq, List.countP_cons]

/-- A reply of `src` is counted. -/
theorem Gathered.reply {hi : H → Int} (h : Gathered Q c₀ hi r) (n : Nat) (done : Pc) {src : H}
    (hsrc : src ∈ r.waiting) {st : Status} {hr : Int} (htells : Tells r st hr (hi src))
    (hagree : r.round = c₀ + 1 → src ∈ Q → st = .ok) (hround : r.round = c₀ ∨ r.round = c₀ + 1)
    {r₁ : Run H V} (hc : Counts st hr r r₁) :
    Gathered Q c₀ hi (r₁.taken n done src) := by
  have hmax : r.maxSeqNumHighest ≤ r₁.maxSeqNumHighest := by
    rw [hc.highest]
    split
    · exact le_rfl
    · exact le_max_left _ _
  have hcount := countP_erase_mem (p := fun q => decide (q ∈ Q)) hsrc
  refine ⟨fun q hq => ?_, ?_⟩
  · simp only [Run.taken, hc.waiting, hc.seqNum]
    by_cases hqs : q = src
    · subst hqs
      refine .inr ?_
      cases st with
      | ok => exact le_trans htells (le_max_left _ _)
      | reject =>
        rw [hc.highest, if_neg (by decide)]
        exact le_trans htells.2 (le_trans (le_max_right _ _) (le_max_right _ _))
    · rcases h.covered q hq with hq | hle
      · exact .inl ((List.mem_erase_of_ne hqs).mpr hq)
      · exact .inr (le_trans hle (max_le_max le_rfl hmax))
  · simp only [Run.taken, hc.waiting, hc.seqNum, hc.round, hc.numOk]
    rcases h.count with hle | ⟨h₁, h₂⟩
    · by_cases hq : src ∈ Q
      · cases st with
        | ok =>
          left
          rw [if_pos (decide_eq_true hq)] at hcount
          rw [if_pos rfl]
          omega
        | reject =>
          right
          have hc₀ : r.round = c₀ := hround.resolve_right fun hr => by
            have := hagree hr hq
            cases this
          refine ⟨hc₀, ?_⟩
          rw [hc.highest, if_neg (by decide)]
          exact le_trans htells.1 (le_max_right _ _)
      · left
        rw [if_neg (by simpa using hq)] at hcount
        omega
    · exact .inr ⟨h₁, le_trans h₂ hmax⟩

/-- A call to a peer outside `Q` has failed. -/
theorem Gathered.skip {hi : H → Int} (h : Gathered Q c₀ hi r) (n : Nat) (done : Pc) {src : H}
    (hsrc : src ∈ r.waiting) (hQ : src ∉ Q) : Gathered Q c₀ hi (r.taken n done src) := by
  have hcount := countP_erase_mem (p := fun q => decide (q ∈ Q)) hsrc
  rw [if_neg (by simpa using hQ)] at hcount
  refine ⟨fun q hq => ?_, ?_⟩
  · have hqs : q ≠ src := fun he => hQ (he ▸ hq)
    exact (h.covered q hq).imp_left fun hq => (List.mem_erase_of_ne hqs).mpr hq
  · exact h.count.imp_left fun hle => by
      simp only [Run.taken]
      omega

/-- The send loop has called everyone. -/
theorem Calling.heard (hL : L.Nodup) (hQ : Q.Nodup) (hsub : Q ⊆ L) (h : Calling L r)
    (hi : L.length ≤ r.i) (hh : H → Int) (hw : r'.waiting = r.waiting) : Gathered Q c₀ hh r' := by
  have hperm : r.waiting.Perm L := by
    rw [← List.take_of_length_le hi]
    exact h.waiting
  refine ⟨fun q hq => .inl ?_, .inl ?_⟩
  · rw [hw]
    exact hperm.mem_iff.mpr (hsub hq)
  · rw [hw, hperm.countP_eq, List.countP_eq_length_filter]
    have hfilter : (L.filter fun q => decide (q ∈ Q)).Perm Q := by
      refine (List.perm_ext_iff_of_nodup (hL.filter _) hQ).mpr fun q => ?_
      simp only [List.mem_filter, decide_eq_true_eq]
      exact ⟨fun h => h.2, fun h => ⟨hsub h, h⟩⟩
    rw [hfilter.length_eq]
    exact Nat.le_add_left _ _

/-- The majority test fails: everyone was heard, the round was the first, and the
run knows the highest number of every peer of `Q`. -/
theorem Gathered.refused {hi : H → Int} (h : Gathered Q c₀ hi r) {n : Nat} (hmaj : n / 2 < Q.length)
    (hok : r.numOk ≤ n / 2) (hend : n / 2 < r.numOk ∨ r.waiting = []) :
    r.round = c₀ ∧ r.seqNum ≤ r.maxSeqNumHighest ∧ ∀ q ∈ Q, hi q ≤ r.maxSeqNumHighest := by
  have hw : r.waiting = [] := hend.resolve_left (Nat.not_lt.mpr hok)
  have hcount : r.round = c₀ ∧ r.seqNum ≤ r.maxSeqNumHighest := by
    refine h.count.resolve_left fun hle => ?_
    rw [hw, List.countP_nil] at hle
    omega
  refine ⟨hcount.1, hcount.2, fun q hq => ?_⟩
  rcases h.covered q hq with hq | hle
  · rw [hw] at hq
    cases hq
  · exact le_trans hle (max_le hcount.2 le_rfl)

/-- A receive loop, with all replies that were not taken still to come. -/
structure Collecting (L Q : List H) (c₀ : Nat) (hi : H → Int) (r : Run H V) : Prop
    extends Gathered Q c₀ hi r where
  rest : r.i + r.waiting.length = L.length

/-- A receive loop that has ended: with a majority, or with all replies. -/
structure Tested (L Q : List H) (c₀ : Nat) (hi : H → Int) (r : Run H V) : Prop
    extends Gathered Q c₀ hi r where
  ended : L.length / 2 < r.numOk ∨ r.waiting = []

theorem Collecting.taken {hi : H → Int} (h : Collecting L Q c₀ hi r) {src : H}
    (hsrc : src ∈ r.waiting) {r₁ : Run H V} (hk : Untouched r r₁) {done : Pc}
    (hh : Gathered Q c₀ hi (r₁.taken L.length done src)) :
    ((r₁.taken L.length done src).pc = done ∧
        Tested L Q c₀ hi (r₁.taken L.length done src)) ∨
      ((r₁.taken L.length done src).pc = r.pc ∧
        Collecting L Q c₀ hi (r₁.taken L.length done src)) := by
  by_cases hok : r₁.numOk > L.length / 2
  · exact .inl ⟨if_pos hok, hh, .inl hok⟩
  · refine .inr ⟨(if_neg hok).trans hk.pc, hh, ?_⟩
    have hpos : 0 < r.waiting.length := List.length_pos_of_mem hsrc
    have := h.rest
    simp only [Run.taken, hk.waiting, hk.i, List.length_erase_of_mem hsrc]
    omega

theorem Collecting.over {hi : H → Int} (h : Collecting L Q c₀ hi r) (hend : L.length ≤ r.i) :
    r.waiting = [] := by
  have := h.rest
  exact List.length_eq_zero_iff.mp (by omega)

/-- The end of a send loop. -/
theorem Calling.collecting (hL : L.Nodup) (hQ : Q.Nodup) (hsub : Q ⊆ L) (hc : Calling L r)
    (hi : L.length ≤ r.i) (hh : H → Int) (pc : Pc) :
    Collecting L Q c₀ hh { r with pc := pc, i := 0 } := by
  refine ⟨hc.heard hL hQ hsub hi _ rfl, ?_⟩
  have hlen := hc.waiting.length_eq
  rw [List.take_of_length_le hi] at hlen
  simp only [hlen, Nat.zero_add]

/-! ## Where the run stands -/

/-- Peer `q` has been asked in the prepare phase of the round, or has answered. -/
def Asked (j : Nat) (s : Int) (w : World H V) (r : Run H V) (q : H) : Prop :=
  .prepare j r.round q s r.seqNum ∈ w.net ∨
    ∃ rep, .prepareReply j r.round q s r.seqNum rep ∈ w.net

def AskedAccept (j : Nat) (s : Int) (w : World H V) (r : Run H V) (q : H) : Prop :=
  (∃ x, .accept j r.round q s r.seqNum x ∈ w.net) ∨
    ∃ rep, .acceptReply j r.round q s r.seqNum rep ∈ w.net

/-- Nobody is asked before the send loop comes to it. -/
structure Called (L : List H) (j : Nat) (s : Int) (w : World H V) (r : Run H V) : Prop where
  asked : ∀ dst n, .prepare j r.round dst s n ∈ w.net → dst ∈ L.take r.i
  replied : ∀ q n rep, .prepareReply j r.round q s n rep ∈ w.net → q ∈ L.take r.i

/-- In the second round the peers of `Q` have seen less than its number until they
grant it. -/
structure Fresh (Q : List H) (j : Nat) (s : Int) (c₀ : Nat) (w : World H V) (r : Run H V) :
    Prop where
  below : r.round = c₀ + 1 → ∀ q ∈ Q, w.highest s q < r.seqNum ∨
    ∃ n rep, .prepareReply j r.round q s n rep ∈ w.net
  granted : r.round = c₀ + 1 → ∀ q ∈ Q, ∀ rep,
    .prepareReply j r.round q s r.seqNum rep ∈ w.net → rep.status = .ok

/-- What holds at each `Pc`. -/
def Situation (L Q : List H) (j : Nat) (s : Int) (c₀ : Nat) (w : World H V) (r : Run H V) : Prop :=
  match r.pc with
  | .top => True
  | .sendPrepare => Calling L r ∧ (∀ q ∈ r.waiting, Asked j s w r q) ∧ Called L j s w r ∧
      Fresh Q j s c₀ w r
  | .recvPrepare => Collecting L Q c₀ (w.highest s) r ∧ (∀ q ∈ r.waiting, Asked j s w r q) ∧
      Fresh Q j s c₀ w r
  | .checkPrepare => Tested L Q c₀ (w.highest s) r
  | .sendAccept => Calling L r ∧ ∀ q ∈ r.waiting, AskedAccept j s w r q
  | .recvAccept => Collecting L Q c₀ (w.highest s) r ∧ ∀ q ∈ r.waiting, AskedAccept j s w r q
  | .checkAccept => Tested L Q c₀ (w.highest s) r
  | .sendDecide => L.idxOf r.px < r.i → (w.slot r.px s).isDecided = true
  | .returned => (w.slot r.px s).isDecided = true
  | .killed => False

omit [DecidableEq H] in
theorem Asked.mono (hsub : ∀ m ∈ w.net, m ∈ w'.net) {q : H} (h : Asked j s w r q) :
    Asked j s w' r q :=
  h.imp (hsub _) (Exists.imp fun _ => hsub _)

omit [DecidableEq H] in
theorem AskedAccept.mono (hsub : ∀ m ∈ w.net, m ∈ w'.net) {q : H} (h : AskedAccept j s w r q) :
    AskedAccept j s w' r q :=
  h.imp (Exists.imp fun _ => hsub _) (Exists.imp fun _ => hsub _)

omit [DecidableEq H] in
/-- Requests and replies are of a round and a number. -/
theorem Asked.congr (hround : r'.round = r.round) (hseq : r'.seqNum = r.seqNum) {q : H}
    (h : Asked j s w r q) : Asked j s w r' q := by
  unfold Asked
  rw [hround, hseq]
  exact h

omit [DecidableEq H] in
theorem AskedAccept.congr (hround : r'.round = r.round) (hseq : r'.seqNum = r.seqNum) {q : H}
    (h : AskedAccept j s w r q) : AskedAccept j s w r' q := by
  unfold AskedAccept
  rw [hround, hseq]
  exact h

omit [DecidableEq H] in
theorem Fresh.congr (hround : r'.round = r.round) (hseq : r'.seqNum = r.seqNum)
    (h : Fresh Q j s c₀ w r) : Fresh Q j s c₀ w r' := by
  refine ⟨?_, ?_⟩
  · rw [hround, hseq]
    exact h.below
  · rw [hround, hseq]
    exact h.granted

/-- Other steps keep the phase if they keep what is particular to its send loop. -/
theorem Situation.mono (h : Situation L Q j s c₀ w r) (hsub : ∀ m ∈ w.net, m ∈ w'.net)
    (hhi : r.pc ≠ .top → ∀ q, w'.highest s q ≤ max (w.highest s q) r.seqNum)
    (hdec : (w.slot r.px s).isDecided = true → (w'.slot r.px s).isDecided = true)
    (hcalled : r.pc = .sendPrepare → Called L j s w r → Called L j s w' r)
    (hfresh : r.pc = .sendPrepare ∨ r.pc = .recvPrepare → Fresh Q j s c₀ w r →
      Fresh Q j s c₀ w' r) : Situation L Q j s c₀ w' r := by
  unfold Situation at h ⊢
  cases hpc : r.pc <;> simp only [hpc] at h ⊢
  all_goals have hhi' := hhi (by rw [hpc]; decide)
  case sendPrepare =>
    obtain ⟨h₁, h₂, h₃, h₄⟩ := h
    exact ⟨h₁, fun q hq => (h₂ q hq).mono hsub, hcalled hpc h₃, hfresh (.inl hpc) h₄⟩
  case recvPrepare =>
    obtain ⟨h₁, h₂, h₃⟩ := h
    exact ⟨⟨h₁.toGathered.congr rfl rfl rfl rfl rfl hhi', h₁.rest⟩, fun q hq => (h₂ q hq).mono hsub,
      hfresh (.inr hpc) h₃⟩
  case sendAccept => exact ⟨h.1, fun q hq => (h.2 q hq).mono hsub⟩
  case recvAccept =>
    exact ⟨⟨h.1.toGathered.congr rfl rfl rfl rfl rfl hhi', h.1.rest⟩,
      fun q hq => (h.2 q hq).mono hsub⟩
  case checkPrepare | checkAccept =>
    exact ⟨h.toGathered.congr rfl rfl rfl rfl rfl hhi', h.ended⟩
  case sendDecide => exact fun hi => hdec (h hi)
  case returned => exact hdec h

omit [DecidableEq H] in
/-- The next peer of the list is called. -/
theorem Calling.called (h : Calling L r) {dst : H} (hdst : L[r.i]? = some dst) :
    Calling L (r.called dst) := by
  refine ⟨?_, h.numOk⟩
  have hsplit : L.take (r.i + 1) = L.take r.i ++ [dst] := by
    rw [List.take_add_one, hdst]
    rfl
  simp only [Run.called, hsplit]
  exact (List.Perm.cons dst h.waiting).trans (List.perm_append_singleton dst _).symm

omit [DecidableEq H] in
theorem mem_take_called {dst : H} {i : Nat} (hdst : L[i]? = some dst) : dst ∈ L.take (i + 1) := by
  rw [List.take_add_one, hdst]
  exact List.mem_append_right _ List.mem_cons_self

omit [DecidableEq H] in
theorem not_mem_take (hL : L.Nodup) {dst : H} {i : Nat} (hdst : L[i]? = some dst) :
    dst ∉ L.take i := by
  intro hmem
  obtain ⟨k, hk, hget⟩ := List.mem_take_iff_getElem.mp hmem
  obtain ⟨hi, hget'⟩ := List.getElem?_eq_some_iff.mp hdst
  have := (List.Nodup.getElem_inj_iff hL).mp (hget.trans hget'.symm)
  omega

omit [DecidableEq H] in
theorem Called.next (h : Called L j s w r) (dst : H) : Called L j s w (r.called dst) := by
  have hsub : ∀ q, q ∈ L.take r.i → q ∈ L.take (r.i + 1) := fun q hq =>
    (List.take_sublist_take_left (Nat.le_succ r.i)).subset hq
  exact ⟨fun d n hm => hsub d (h.asked d n hm), fun q n rep hm => hsub q (h.replied q n rep hm)⟩

/-- The invariant of a run that is alone on its slot. -/
structure Lone [DecidableEq V] (L Q : List H) (j : Nat) (s : Int) (c₀ : Nat) (w : World H V)
    (r : Run H V) : Prop where
  reach : (fixed L).Reachable w
  run : w.runs[j]? = some r
  alone : Alone Q j s c₀ w r
  phase : Situation L Q j s c₀ w r

/-! ## Steps that are none of the run's -/

/-- From `w` to `w'` nothing happens that concerns run `j` on slot `s`. -/
structure Elsewhere (j : Nat) (s : Int) (w w' : World H V) : Prop where
  sub : ∀ m ∈ w.net, m ∈ w'.net
  net : ∀ m, m.Of j s → m ∈ w'.net → m ∈ w.net
  highest : ∀ q, w'.highest s q = w.highest s q
  decided : ∀ q, (w.slot q s).isDecided = true → (w'.slot q s).isDecided = true

omit [DecidableEq H] in
theorem Elsewhere.called (h : Elsewhere j s w w') (hc : Called L j s w r) : Called L j s w' r :=
  ⟨fun dst n hm => hc.asked dst n (h.net _ ⟨rfl, _, rfl⟩ hm),
    fun q n rep hm => hc.replied q n rep (h.net _ ⟨rfl, _, rfl⟩ hm)⟩

omit [DecidableEq H] in
theorem Elsewhere.fresh (h : Elsewhere j s w w') (hf : Fresh Q j s c₀ w r) :
    Fresh Q j s c₀ w' r := by
  refine ⟨fun hc q hq => ?_, fun hc q hq rep hm => ?_⟩
  · rw [h.highest]
    exact (hf.below hc q hq).imp_right (Exists.imp fun _ => Exists.imp fun _ => h.sub _)
  · exact hf.granted hc q hq rep (h.net _ ⟨rfl, _, rfl⟩ hm)

omit [DecidableEq H] in
/-- Only the run list changes, or nothing. -/
theorem Elsewhere.of_eq (hpeer : w'.peer = w.peer) (hnet : w'.net = w.net) :
    Elsewhere j s w w' := by
  refine ⟨fun m hm => by rw [hnet]; exact hm, fun m _ hm => by rw [← hnet]; exact hm,
    fun q => ?_, fun q hd => ?_⟩
  · simp only [World.highest, World.slot, hpeer]
  · simp only [World.slot, hpeer]
    exact hd

/-- A message that is not of run `j` on slot `s` is added; peer `p` may have
changed, but not its slot `s`, except to be marked decided. -/
theorem Elsewhere.of_update {p : H} {px : Peer H V} (hpeer : w'.peer = Function.update w.peer p px)
    (hnet : w'.net = w.net ∨ ∃ m, w'.net = m :: w.net ∧ ¬ m.Of j s)
    (hhi : (px.getTimeSlotValue s).seqNumHighest = (w.slot p s).seqNumHighest)
    (hdec : (w.slot p s).isDecided = true → (px.getTimeSlotValue s).isDecided = true) :
    Elsewhere j s w w' := by
  refine ⟨fun m hm => ?_, fun m hof hm => ?_, fun q => ?_, fun q hd => ?_⟩
  · rcases hnet with e | ⟨m', e, -⟩ <;> rw [e]
    · exact hm
    · exact List.mem_cons_of_mem _ hm
  · rcases hnet with e | ⟨m', e, hnot⟩ <;> rw [e] at hm
    · exact hm
    · rcases List.mem_cons.mp hm with rfl | hm
      · exact absurd hof hnot
      · exact hm
  · by_cases hq : q = p
    · subst hq
      simpa only [World.highest, World.slot, hpeer, Function.update_self] using hhi
    · simp only [World.highest, World.slot, hpeer, Function.update_of_ne hq]
  · by_cases hq : q = p
    · subst hq
      simpa only [World.slot, hpeer, Function.update_self] using hdec hd
    · simpa only [World.slot, hpeer, Function.update_of_ne hq] using hd

theorem elsewhere_doPrepare (k c : Nat) (p : H) {s' : Int} (hs : s' ≠ s) (n : Int) :
    Elsewhere j s w (w.doPrepare k c p s' n) := by
  have hget := Peer.prepare_get_ne (w.peer p) n (Ne.symm hs)
  refine .of_update rfl (.inr ⟨_, rfl, fun hof => hs hof.1⟩) ?_ fun hd => ?_
  · rw [hget]
    rfl
  · rw [hget]
    exact hd

theorem elsewhere_doAccept (k c : Nat) (p : H) {s' : Int} (hs : s' ≠ s) (n : Int) (x : Option V) :
    Elsewhere j s w (w.doAccept k c p s' n x) := by
  have hget := Peer.accept_get_ne (w.peer p) n x (Ne.symm hs)
  refine .of_update rfl (.inr ⟨_, rfl, fun hof => hs hof.1⟩) ?_ fun hd => ?_
  · rw [hget]
    rfl
  · rw [hget]
    exact hd

/-- A `Decide` on any slot: the highest numbers stay as they are. -/
theorem elsewhere_doDecide (p : H) (s' : Int) (x : Option V) :
    Elsewhere j s w (w.doDecide p s' x) := by
  refine .of_update rfl (.inl rfl) ?_ fun hd => ?_
  · by_cases hs : s = s'
    · subst hs
      rw [Peer.decide_get]
      rfl
    · rw [Peer.decide_get_ne (w.peer p) x hs]
      rfl
  · have hmark := (w.peer p).decide_isDecided s' x s
    simp only [World.slot] at hd
    rw [hmark, hd, Bool.true_or]

omit [DecidableEq H] in
theorem elsewhere_send {m : Msg H V} (hm : ¬ m.Of j s) : Elsewhere j s w (w.send m) :=
  ⟨fun _ h => List.mem_cons_of_mem _ h,
    fun _ hof h => (List.mem_cons.mp h).resolve_left fun e => hm (e ▸ hof), fun _ => rfl,
    fun _ hd => hd⟩

omit [DecidableEq H] in
theorem Elsewhere.setRun (h : Elsewhere j s w w') (k : Nat) (r : Run H V) :
    Elsewhere j s w (w'.setRun k r) :=
  ⟨h.sub, h.net, h.highest, h.decided⟩

/-- A statement of a run on another slot. -/
theorem Statement.elsewhere {k : Nat} {r₁ : Run H V} (h : Statement w k r₁ l w')
    (hs : r₁.slotNum ≠ s) : Elsewhere j s w w' := by
  cases h with
  | ownPrepare hpc hdst hme => exact (elsewhere_doPrepare _ _ _ hs _).setRun k _
  | ownAccept hpc hdst hme => exact (elsewhere_doAccept _ _ _ hs _ _).setRun k _
  | ownDecide hpc hdst hme => exact (elsewhere_doDecide _ _ _).setRun k _
  | callPrepare hpc hdst hme | callAccept hpc hdst hme | callDecide hpc hdst hme =>
    refine Elsewhere.setRun (elsewhere_send ?_) k _
    exact fun hof => hs hof.1
  | _ => exact .of_eq rfl rfl

variable [DecidableEq V]

theorem Lone.elsewhere (h : Lone L Q j s c₀ w r) (he : Elsewhere j s w w')
    (hreach : (fixed L).Reachable w') (hrun : w'.runs[j]? = some r) : Lone L Q j s c₀ w' r where
  reach := hreach
  run := hrun
  alone := h.alone.frame (fun m hof => ⟨he.net m hof, he.sub m⟩) he.highest
  phase := h.phase.mono he.sub (fun _ q => by rw [he.highest]; exact le_max_left _ _)
    (he.decided r.px) (fun _ => he.called) fun _ => he.fresh

/-- A `Prepare` of the run is executed, for the first time. -/
theorem Lone.prepare (h : Lone L Q j s c₀ w r) {c : Nat} {p : H} {n : Int} (hc : c₀ ≤ c)
    (hm : .prepare j c p s n ∈ w.net) (hnew : ∀ n rep, .prepareReply j c p s n rep ∉ w.net)
    (hreach : (fixed L).Reachable (w.doPrepare j c p s n)) :
    Lone L Q j s c₀ (w.doPrepare j c p s n) r := by
  have hsent := h.alone.prepares c p n hm hc
  refine ⟨hreach, h.run, h.alone.doPrepare hsent p, h.phase.mono
    (fun _ h => List.mem_cons_of_mem _ h) (fun hpc q => ?_) ?_ (fun hpc hcalled => ?_)
    fun hpc hfresh => ?_⟩
  · rw [highest_doPrepare]
    split
    · exact max_le_max le_rfl (le_of_le_of_eq hsent.cap (Run.cap_of_ne hpc))
    · exact le_max_left _ _
  · intro hd
    by_cases hp : r.px = p
    · subst hp
      simp only [World.slot] at hd
      simp [World.slot, World.doPrepare, Peer.prepare_isDecided, hd]
    · simpa [World.slot, World.doPrepare, Function.update_of_ne hp] using hd
  · refine ⟨fun dst n' hm' => ?_, fun q n' rep hm' => ?_⟩
    · rcases List.mem_cons.mp hm' with e | hm'
      · cases e
      · exact hcalled.asked dst n' hm'
    · rcases List.mem_cons.mp hm' with e | hm'
      · cases e
        exact hcalled.asked p n hm
      · exact hcalled.replied q n' rep hm'
  · have hne : r.pc ≠ .top := by rcases hpc with hpc | hpc <;> rw [hpc] <;> decide
    refine ⟨fun hc₁ q hq => ?_, fun hc₁ q hq rep hm' => ?_⟩
    · rw [highest_doPrepare]
      by_cases hqp : q = p
      · subst hqp
        rw [if_pos rfl]
        by_cases hcr : c = r.round
        · subst hcr
          exact .inr ⟨n, _, List.mem_cons_self⟩
        · -- an old number
          have hlt := hsent.old (hsent.begun.resolve_right fun hb => hcr hb.1) hne
          refine (hfresh.below hc₁ q hq).imp (fun hb => max_lt hb hlt) ?_
          exact Exists.imp fun _ => Exists.imp fun _ => List.mem_cons_of_mem _
      · rw [if_neg hqp]
        exact (hfresh.below hc₁ q hq).imp_right
          (Exists.imp fun _ => Exists.imp fun _ => List.mem_cons_of_mem _)
    · rcases List.mem_cons.mp hm' with e | hm'
      · cases e
        -- it is below the number, since it has not answered before
        have hlow := (hfresh.below hc₁ p hq).resolve_right fun hex => by
          obtain ⟨n', rep', hrep'⟩ := hex
          exact hnew n' rep' hrep'
        rcases (w.peer p).prepare_tells s r.seqNum with ⟨hst, -⟩ | ⟨-, hle, -⟩
        · exact hst
        · exact absurd hlow (not_lt.mpr hle)
      · exact hfresh.granted hc₁ q hq rep hm'

/-- An `Accept` of the run is executed. -/
theorem Lone.accept (h : Lone L Q j s c₀ w r) {c : Nat} {p : H} {n : Int} {x : Option V}
    (hc : c₀ ≤ c) (hm : .accept j c p s n x ∈ w.net)
    (hreach : (fixed L).Reachable (w.doAccept j c p s n x)) :
    Lone L Q j s c₀ (w.doAccept j c p s n x) r := by
  have hsent := h.alone.accepts c p n x hm hc
  refine ⟨hreach, h.run, h.alone.doAccept hsent p x, h.phase.mono
    (fun _ h => List.mem_cons_of_mem _ h) (fun hpc q => ?_) ?_ (fun hpc hcalled => ?_)
    fun hpc hfresh => ?_⟩
  · rw [highest_doAccept]
    split
    · exact max_le_max le_rfl (le_of_le_of_eq hsent.cap (Run.cap_of_ne hpc))
    · exact le_max_left _ _
  · intro hd
    by_cases hp : r.px = p
    · subst hp
      simp only [World.slot] at hd
      simp [World.slot, World.doAccept, Peer.accept_isDecided, hd]
    · simpa [World.slot, World.doAccept, Function.update_of_ne hp] using hd
  · refine ⟨fun dst n' hm' => ?_, fun q n' rep hm' => ?_⟩
    · rcases List.mem_cons.mp hm' with e | hm'
      · cases e
      · exact hcalled.asked dst n' hm'
    · rcases List.mem_cons.mp hm' with e | hm'
      · cases e
      · exact hcalled.replied q n' rep hm'
  · have hne : r.pc ≠ .top := by rcases hpc with hpc | hpc <;> rw [hpc] <;> decide
    have hcr : c < r.round := by
      refine hsent.begun.resolve_right fun hb => ?_
      obtain ⟨rfl, -⟩ := hb
      refine h.alone.early ?_ p n x hm
      rcases hpc with hpc | hpc <;> rw [hpc] <;> rfl
    have hlt := hsent.old hcr hne
    refine ⟨fun hc₁ q hq => ?_, fun hc₁ q hq rep hm' => ?_⟩
    · refine (hfresh.below hc₁ q hq).imp (fun hb => ?_)
        (Exists.imp fun _ => Exists.imp fun _ => List.mem_cons_of_mem _)
      rw [highest_doAccept]
      split
      · exact max_lt hb hlt
      · exact hb
    · rcases List.mem_cons.mp hm' with e | hm'
      · cases e
      · exact hfresh.granted hc₁ q hq rep hm'

/-! ## The run's own statements -/

/-- A bound on the statements left in the round, in a cluster of `n` peers. -/
def Run.stage (n : Nat) (r : Run H V) : Nat :=
  match r.pc with
  | .top => 5 * n + 8
  | .sendPrepare => n - r.i + 4 * n + 7
  | .recvPrepare => n - r.i + 3 * n + 6
  | .checkPrepare => 3 * n + 5
  | .sendAccept => n - r.i + 2 * n + 4
  | .recvAccept => n - r.i + n + 3
  | .checkAccept => n + 2
  | .sendDecide => n - r.i + 1
  | .returned => 0
  | .killed => 0

/-- A bound on the statements left if the run is refused in round `c₀` at most. -/
def Run.left (n c₀ : Nat) (r : Run H V) : Nat :=
  (c₀ + 1 - r.round) * (5 * n + 8) + r.stage n

section
variable (h : Lone L Q j s c₀ w r)
include h

theorem Lone.runs_set (r' : Run H V) : (w.runs.set j r')[j]? = some r' :=
  List.getElem?_set_self (List.getElem?_eq_some_iff.mp h.run).1

theorem Lone.conf : (w.peer r.px).peers = L ∧ (w.peer r.px).me = L.idxOf r.px ∧ r.px ∈ L := by
  have hm := (member_inductive L).reachable w h.reach
  exact ⟨(hm.conf r.px).1, (hm.conf r.px).2.1, hm.runs r (List.mem_of_getElem? h.run)⟩

theorem Lone.begun : ∀ m ∈ w.net, ∀ c, m.call = some (j, c) → r.Begun c :=
  fun _ hm _ hc => begun_of_mem h.reach h.run hm hc

theorem Lone.top (hpc : r.pc = .top) {n : Int} (hn : r.maxSeqNumHighest < n)
    (hreach : (fixed L).Reachable (w.setRun j (r.beginRound n))) :
    Lone L Q j s c₀ (w.setRun j (r.beginRound n)) (r.beginRound n) := by
  have hnone : ∀ m ∈ w.net, m.call ≠ some (j, r.round) := by
    intro m hm hc
    rcases h.begun m hm _ hc with hlt | ⟨-, hne⟩
    · exact lt_irrefl _ hlt
    · exact hne hpc
  refine ⟨hreach, h.runs_set _, h.alone.beginRound h.begun hpc hn, ⟨?_, rfl⟩, ?_, ⟨?_, ?_⟩, ?_, ?_⟩
  · exact .nil
  · exact fun q hq => by cases hq
  · exact fun dst n hm => absurd rfl (hnone _ hm)
  · exact fun q n rep hm => absurd rfl (hnone _ hm)
  · intro hc q hq
    have hle := h.alone.low hc q hq
    rw [Run.cap, if_pos hpc] at hle
    exact .inl (lt_of_le_of_lt hle hn)
  · exact fun _ q _ rep hm => absurd rfl (hnone _ hm)

/-- The run's own peer executes the `Prepare` in the send loop. -/
theorem Lone.ownPrepare (hL : L.Nodup) (hpc : r.pc = .sendPrepare) (hdst : L[r.i]? = some r.px)
    (hreach : (fixed L).Reachable
      ((w.doPrepare j r.round r.px s r.seqNum).setRun j (r.called r.px))) :
    Lone L Q j s c₀ ((w.doPrepare j r.round r.px s r.seqNum).setRun j (r.called r.px))
      (r.called r.px) := by
  have hne : r.pc ≠ .top := by rw [hpc]; decide
  have hph := h.phase
  unfold Situation at hph
  rw [hpc] at hph
  obtain ⟨hcalling, hasked, hcalled, hfresh⟩ := hph
  have hsub : ∀ m ∈ w.net, m ∈ (w.doPrepare j r.round r.px s r.seqNum).net :=
    fun _ hm => List.mem_cons_of_mem _ hm
  refine ⟨hreach, h.runs_set _, (h.alone.doPrepare (.current hne) r.px).move rfl rfl rfl hne hne
    id, ?_⟩
  unfold Situation
  rw [show (r.called r.px).pc = .sendPrepare from hpc]
  refine ⟨hcalling.called hdst, fun q hq => ?_, ⟨fun dst n hm => ?_, fun q n rep hm => ?_⟩,
    fun hc q hq => ?_, fun hc q hq rep hm => ?_⟩
  · rcases List.mem_cons.mp hq with rfl | hq
    · exact .inr ⟨_, List.mem_cons_self⟩
    · exact (hasked q hq).mono hsub
  · rcases List.mem_cons.mp hm with e | hm
    · cases e
    · exact (hcalled.next r.px).asked dst n hm
  · rcases List.mem_cons.mp hm with e | hm
    · cases e
      exact mem_take_called hdst
    · exact (hcalled.next r.px).replied q n rep hm
  · by_cases hqp : q = r.px
    · subst hqp
      exact .inr ⟨_, _, List.mem_cons_self⟩
    · have hhi := highest_doPrepare (s := s) w j r.round r.px r.seqNum q
      rw [if_neg hqp] at hhi
      exact (hfresh.below hc q hq).imp (lt_of_eq_of_lt hhi)
        (Exists.imp fun _ => Exists.imp fun _ => hsub _)
  · rcases List.mem_cons.mp hm with e | hm
    · cases e
      have hlow := (hfresh.below hc r.px hq).resolve_right fun hex => by
        obtain ⟨n, rep, hrep⟩ := hex
        exact not_mem_take hL hdst (hcalled.replied _ n rep hrep)
      rcases (w.peer r.px).prepare_tells s r.seqNum with ⟨hst, -⟩ | ⟨-, hle, -⟩
      · exact hst
      · exact absurd hlow (not_lt.mpr hle)
    · exact hfresh.granted hc q hq rep hm

theorem Lone.callPrepare (hpc : r.pc = .sendPrepare) {dst : H} (hdst : L[r.i]? = some dst)
    (hreach : (fixed L).Reachable
      ((w.send (.prepare j r.round dst s r.seqNum)).setRun j (r.called dst))) :
    Lone L Q j s c₀ ((w.send (.prepare j r.round dst s r.seqNum)).setRun j (r.called dst))
      (r.called dst) := by
  have hne : r.pc ≠ .top := by rw [hpc]; decide
  have hph := h.phase
  unfold Situation at hph
  rw [hpc] at hph
  obtain ⟨hcalling, hasked, hcalled, hfresh⟩ := hph
  have hsub : ∀ m ∈ w.net, m ∈ (w.send (.prepare j r.round dst s r.seqNum)).net :=
    fun _ hm => List.mem_cons_of_mem _ hm
  have halone := h.alone.send (m := .prepare j r.round dst s r.seqNum) hne
    (fun c d n e => by cases e; exact ⟨rfl, rfl⟩) (by simp) (by simp) (by simp)
  refine ⟨hreach, h.runs_set _, halone.move rfl rfl rfl hne hne id, ?_⟩
  unfold Situation
  rw [show (r.called dst).pc = .sendPrepare from hpc]
  refine ⟨hcalling.called hdst, fun q hq => ?_, ⟨fun d n hm => ?_, fun q n rep hm => ?_⟩,
    fun hc q hq => ?_, fun hc q hq rep hm => ?_⟩
  · rcases List.mem_cons.mp hq with rfl | hq
    · exact .inl List.mem_cons_self
    · exact (hasked q hq).mono hsub
  · rcases List.mem_cons.mp hm with e | hm
    · cases e
      exact mem_take_called hdst
    · exact (hcalled.next dst).asked d n hm
  · rcases List.mem_cons.mp hm with e | hm
    · cases e
    · exact (hcalled.next dst).replied q n rep hm
  · exact (hfresh.below hc q hq).imp_right (Exists.imp fun _ => Exists.imp fun _ => hsub _)
  · rcases List.mem_cons.mp hm with e | hm
    · cases e
    · exact hfresh.granted hc q hq rep hm

theorem Lone.prepareCalled (hL : L.Nodup) (hQ : Q.Nodup) (hsub : Q ⊆ L)
    (hpc : r.pc = .sendPrepare) (hi : L.length ≤ r.i)
    (hreach : (fixed L).Reachable (w.setRun j { r with pc := .recvPrepare, i := 0 })) :
    Lone L Q j s c₀ (w.setRun j { r with pc := .recvPrepare, i := 0 })
      { r with pc := .recvPrepare, i := 0 } := by
  have hne : r.pc ≠ .top := by rw [hpc]; decide
  have hph := h.phase
  unfold Situation at hph
  rw [hpc] at hph
  obtain ⟨hcalling, hasked, -, hfresh⟩ := hph
  refine ⟨hreach, h.runs_set _, h.alone.move rfl rfl rfl hne (by simp) (fun _ => by rw [hpc]; rfl),
    hcalling.collecting hL hQ hsub hi _ _, hasked, hfresh.below, hfresh.granted⟩

/-- All replies are taken. -/
theorem Lone.read (pc : Pc) (hpc : r.pc = .recvPrepare ∧ pc = .checkPrepare ∨
    r.pc = .recvAccept ∧ pc = .checkAccept) (hi : L.length ≤ r.i)
    (hreach : (fixed L).Reachable (w.setRun j { r with pc := pc })) :
    Lone L Q j s c₀ (w.setRun j { r with pc := pc }) { r with pc := pc } := by
  have hph := h.phase
  unfold Situation at hph
  have hcoll : Collecting L Q c₀ (w.highest s) r := by
    rcases hpc with ⟨hpc, -⟩ | ⟨hpc, -⟩ <;> rw [hpc] at hph <;> exact hph.1
  have htested : Tested L Q c₀ (w.highest s) { r with pc := pc } :=
    ⟨hcoll.toGathered.congr rfl rfl rfl rfl rfl fun q => le_max_left _ _, .inr (hcoll.over hi)⟩
  refine ⟨hreach, h.runs_set _, h.alone.move rfl rfl rfl ?_ ?_ ?_, ?_⟩
  · rcases hpc with ⟨hpc, -⟩ | ⟨hpc, -⟩ <;> rw [hpc] <;> decide
  · rcases hpc with ⟨-, rfl⟩ | ⟨-, rfl⟩ <;> simp
  · rcases hpc with ⟨hpc, rfl⟩ | ⟨hpc, rfl⟩ <;> rw [hpc] <;> exact id
  · unfold Situation
    rcases hpc with ⟨-, rfl⟩ | ⟨-, rfl⟩ <;> exact htested

theorem Lone.tested (hpc : r.pc = .checkPrepare ∨ r.pc = .checkAccept) :
    Tested L Q c₀ (w.highest s) r := by
  have hph := h.phase
  unfold Situation at hph
  rcases hpc with hpc | hpc <;> rw [hpc] at hph <;> exact hph

/-- A majority has refused: the round was the first one. -/
theorem Lone.retry (hmaj : L.length / 2 < Q.length)
    (hpc : r.pc = .checkPrepare ∨ r.pc = .checkAccept) (hok : r.numOk ≤ L.length / 2)
    (hreach : (fixed L).Reachable (w.setRun j r.retry)) :
    r.round = c₀ ∧ Lone L Q j s c₀ (w.setRun j r.retry) r.retry := by
  have htested := h.tested hpc
  obtain ⟨hround, hseq, hlow⟩ := htested.toGathered.refused hmaj hok htested.ended
  have hne : r.pc ≠ .top := by rcases hpc with hpc | hpc <;> rw [hpc] <;> decide
  exact ⟨hround, hreach, h.runs_set _, h.alone.retry h.begun hne hround hseq hlow, trivial⟩

theorem Lone.prepared (hpc : r.pc = .checkPrepare)
    (hreach : (fixed L).Reachable (w.setRun j r.beginAccept)) :
    Lone L Q j s c₀ (w.setRun j r.beginAccept) r.beginAccept := by
  refine ⟨hreach, h.runs_set _, h.alone.move rfl rfl rfl (by rw [hpc]; decide)
    (by simp [Run.beginAccept]) (fun _ => by rw [hpc]; rfl), ⟨.nil, rfl⟩, fun q hq => ?_⟩
  cases hq

theorem Lone.ownAccept (hpc : r.pc = .sendAccept) (hdst : L[r.i]? = some r.px)
    (hreach : (fixed L).Reachable
      ((w.doAccept j r.round r.px s r.seqNum r.proposeValue).setRun j (r.called r.px))) :
    Lone L Q j s c₀
      ((w.doAccept j r.round r.px s r.seqNum r.proposeValue).setRun j (r.called r.px))
      (r.called r.px) := by
  have hne : r.pc ≠ .top := by rw [hpc]; decide
  have hph := h.phase
  unfold Situation at hph
  rw [hpc] at hph
  obtain ⟨hcalling, hasked⟩ := hph
  refine ⟨hreach, h.runs_set _,
    (h.alone.doAccept (.current hne) r.px r.proposeValue).move rfl rfl rfl hne hne id, ?_⟩
  unfold Situation
  rw [show (r.called r.px).pc = .sendAccept from hpc]
  refine ⟨hcalling.called hdst, fun q hq => ?_⟩
  rcases List.mem_cons.mp hq with rfl | hq
  · exact .inr ⟨_, List.mem_cons_self⟩
  · exact (hasked q hq).mono fun _ hm => List.mem_cons_of_mem _ hm

theorem Lone.callAccept (hpc : r.pc = .sendAccept) {dst : H} (hdst : L[r.i]? = some dst)
    (hreach : (fixed L).Reachable
      ((w.send (.accept j r.round dst s r.seqNum r.proposeValue)).setRun j (r.called dst))) :
    Lone L Q j s c₀
      ((w.send (.accept j r.round dst s r.seqNum r.proposeValue)).setRun j (r.called dst))
      (r.called dst) := by
  have hne : r.pc ≠ .top := by rw [hpc]; decide
  have hph := h.phase
  unfold Situation at hph
  rw [hpc] at hph
  obtain ⟨hcalling, hasked⟩ := hph
  have halone := h.alone.send (m := .accept j r.round dst s r.seqNum r.proposeValue) hne
    (by simp) (fun c d n x e => by cases e; exact ⟨rfl, rfl, by rw [hpc]; rfl⟩) (by simp) (by simp)
  refine ⟨hreach, h.runs_set _, halone.move rfl rfl rfl hne hne id, ?_⟩
  unfold Situation
  rw [show (r.called dst).pc = .sendAccept from hpc]
  refine ⟨hcalling.called hdst, fun q hq => ?_⟩
  rcases List.mem_cons.mp hq with rfl | hq
  · exact .inl ⟨_, List.mem_cons_self⟩
  · exact (hasked q hq).mono fun _ hm => List.mem_cons_of_mem _ hm

theorem Lone.acceptCalled (hL : L.Nodup) (hQ : Q.Nodup) (hsub : Q ⊆ L)
    (hpc : r.pc = .sendAccept) (hi : L.length ≤ r.i)
    (hreach : (fixed L).Reachable (w.setRun j { r with pc := .recvAccept, i := 0 })) :
    Lone L Q j s c₀ (w.setRun j { r with pc := .recvAccept, i := 0 })
      { r with pc := .recvAccept, i := 0 } := by
  have hph := h.phase
  unfold Situation at hph
  rw [hpc] at hph
  obtain ⟨hcalling, hasked⟩ := hph
  exact ⟨hreach, h.runs_set _, h.alone.move rfl rfl rfl (by rw [hpc]; decide) (by simp)
    (fun hf => by cases hf), hcalling.collecting hL hQ hsub hi _ _, hasked⟩

theorem Lone.accepted (hpc : r.pc = .checkAccept)
    (hreach : (fixed L).Reachable (w.setRun j { r with pc := .sendDecide, i := 0 })) :
    Lone L Q j s c₀ (w.setRun j { r with pc := .sendDecide, i := 0 })
      { r with pc := .sendDecide, i := 0 } :=
  ⟨hreach, h.runs_set _, h.alone.move rfl rfl rfl (by rw [hpc]; decide) (by simp)
    (fun hf => by cases hf), fun hi => absurd hi (Nat.not_lt_zero _)⟩

/-- The decide phase: `w₁` is the world after the handler or the send. -/
theorem Lone.decide (hpc : r.pc = .sendDecide) {w₁ : World H V} (he : Elsewhere j s w w₁)
    (hruns : w₁.runs = w.runs)
    (hown : L.idxOf r.px = r.i → (w₁.slot r.px s).isDecided = true)
    (hreach : (fixed L).Reachable (w₁.setRun j { r with pc := .sendDecide, i := r.i + 1 })) :
    Lone L Q j s c₀ (w₁.setRun j { r with pc := .sendDecide, i := r.i + 1 })
      { r with pc := .sendDecide, i := r.i + 1 } := by
  have hph := h.phase
  unfold Situation at hph
  rw [hpc] at hph
  have halone := h.alone.frame (fun m hof => ⟨he.net m hof, he.sub m⟩) he.highest
  refine ⟨hreach, ?_, halone.move rfl rfl rfl (by rw [hpc]; decide) (by simp)
    (fun hf => by cases hf), fun hi => ?_⟩
  · simp only [World.setRun, hruns]
    exact h.runs_set _
  · rcases Nat.lt_succ_iff_lt_or_eq.mp hi with hi | hi
    · exact he.decided _ (hph hi)
    · exact hown hi

theorem Lone.decideCalled (hpc : r.pc = .sendDecide) (hi : L.length ≤ r.i)
    (hreach : (fixed L).Reachable (w.setRun j { r with pc := .returned })) :
    Lone L Q j s c₀ (w.setRun j { r with pc := .returned }) { r with pc := .returned } := by
  have hph := h.phase
  unfold Situation at hph
  rw [hpc] at hph
  exact ⟨hreach, h.runs_set _, h.alone.move rfl rfl rfl (by rw [hpc]; decide) (by simp)
    (fun hf => by cases hf), hph (Nat.lt_of_lt_of_le (List.idxOf_lt_length_of_mem h.conf.2.2) hi)⟩

end

omit [DecidableEq V] in
theorem Statement.own {k : Nat} {r₁ : Run H V} (h : Statement w k r₁ l w') (j : Nat) :
    l.own j = decide (k = j) := by
  cases h <;> rfl

omit [DecidableEq V] in
/-- A run that moves beside run `j` is on another slot. -/
theorem Statement.other {k : Nat} {r₁ : Run H V} (h : Statement w k r₁ l w') (hk : k ≠ j)
    (hrun : w.runs[k]? = some r₁) (hl : lonely Q j s c₀ w l = true) : r₁.slotNum ≠ s := by
  have helse : w.elsewhere s k = true := by
    cases h <;> simpa only [lonely, hk, if_false, decide_false, Bool.false_or] using hl
  simpa only [World.elsewhere, hrun, decide_eq_true_eq] using helse

omit [DecidableEq V] in
theorem any_isPrepareReply {k c : Nat} {q : H} {net : List (Msg H V)} :
    net.any (Msg.isPrepareReply k c q s) = true ↔
      ∃ n rep, .prepareReply k c q s n rep ∈ net := by
  rw [List.any_eq_true]
  constructor
  · rintro ⟨m, hm, his⟩
    cases m with
    | prepareReply k' c' q' s' n rep =>
      simp only [Msg.isPrepareReply, decide_eq_true_eq] at his
      obtain ⟨rfl, rfl, rfl, rfl⟩ := his
      exact ⟨n, rep, hm⟩
    | _ => cases his
  · rintro ⟨n, rep, hm⟩
    exact ⟨_, hm, by simp [Msg.isPrepareReply]⟩

theorem lonely_step (hl : lonely Q j s c₀ w l = true) (hon : l.on L = true)
    (hs : w.step l = some w') : (lone L Q j s c₀).step w l w' :=
  LTS.guarded_eq_some.mpr ⟨hl, LTS.guarded_eq_some.mpr ⟨hon, hs⟩⟩

omit [DecidableEq V] in
/-- A statement that needs no message can be executed. -/
theorem goRun_isSome (hpc : r.pc = .sendPrepare ∨ r.pc = .checkPrepare ∨ r.pc = .sendAccept ∨
      r.pc = .checkAccept ∨ r.pc = .sendDecide ∨
      (r.pc = .recvPrepare ∨ r.pc = .recvAccept) ∧ (w.peer r.px).peers.length ≤ r.i) :
    ∃ w', w.goRun j r = some w' := by
  unfold World.goRun
  rcases hpc with hpc | hpc | hpc | hpc | hpc | ⟨hpc | hpc, hi⟩ <;> simp only [hpc]
  · split
    · split <;> exact ⟨_, rfl⟩
    · exact ⟨_, rfl⟩
  · split <;> exact ⟨_, rfl⟩
  · split
    · split <;> exact ⟨_, rfl⟩
    · exact ⟨_, rfl⟩
  · split <;> exact ⟨_, rfl⟩
  · split
    · split <;> exact ⟨_, rfl⟩
    · exact ⟨_, rfl⟩
  · exact ⟨_, if_neg (Nat.not_lt.mpr hi)⟩
  · exact ⟨_, if_neg (Nat.not_lt.mpr hi)⟩

/-- A step of the run, and a run with one step of it. -/
theorem Lone.one {l : Lbl H V} (hs : (lone L Q j s c₀).step w l w') (hown : l.own j = true) :
    ∃ ls w₁, (lone L Q j s c₀).Run w ls w₁ ∧ ls.length ≤ 2 ∧ ls.countP (Lbl.own j) = 1 :=
  ⟨[l], w', .single hs, Nat.le_succ 1, by simp [hown]⟩

/-- A receive loop of the prepare phase can go on: a reply is there, or the request
is, and is executed first. -/
theorem Lone.nextPrepare (h : Lone L Q j s c₀ w r) (hpc : r.pc = .recvPrepare)
    (hi : r.i < L.length) :
    ∃ ls w', (lone L Q j s c₀).Run w ls w' ∧ ls.length ≤ 2 ∧ ls.countP (Lbl.own j) = 1 := by
  obtain ⟨hpeers, -, -⟩ := h.conf
  have hslot := h.alone.slot
  have hph := h.phase
  unfold Situation at hph
  rw [hpc] at hph
  obtain ⟨hcoll, hasked, -⟩ := hph
  -- a reply that is there can be taken
  have take : ∀ {u : World H V}, u.runs[j]? = some r → (u.peer r.px).peers = L →
      ∀ q ∈ r.waiting, ∀ rep, .prepareReply j r.round q s r.seqNum rep ∈ u.net →
      ∃ w₂, (lone L Q j s c₀).step u (.recvPrepare j q rep) w₂ := by
    intro u hrun hp q hq rep hm
    have hs : u.step (.recvPrepare j q rep) =
        some (u.setRun j ((r.countPrepare (some rep)).taken L.length .checkPrepare q)) := by
      simp only [World.step, hrun, hp]
      exact if_pos ⟨hpc, hi, hq, by rw [hslot]; exact hm⟩
    exact ⟨_, lonely_step (by simp [lonely]) rfl hs⟩
  have hpos : 0 < r.waiting.length := by
    have := hcoll.rest
    omega
  obtain ⟨q, hq⟩ := List.exists_mem_of_length_pos hpos
  by_cases hrep : ∃ rep, .prepareReply j r.round q s r.seqNum rep ∈ w.net
  · obtain ⟨rep, hrep⟩ := hrep
    obtain ⟨w₂, hs⟩ := take h.run hpeers q hq rep hrep
    exact Lone.one hs (by simp [Lbl.own])
  · have hm := (hasked q hq).resolve_right hrep
    have hnew : w.net.any (Msg.isPrepareReply j r.round q s) = false := by
      refine Bool.eq_false_iff.mpr fun hany => ?_
      obtain ⟨n, rep, hrep'⟩ := any_isPrepareReply.mp hany
      obtain rfl := h.alone.answers (by rw [hpc]; decide) q n rep hrep'
      exact hrep ⟨rep, hrep'⟩
    have hs₁ : (lone L Q j s c₀).step w (.deliver (.prepare j r.round q s r.seqNum))
        (w.doPrepare j r.round q s r.seqNum) := by
      refine lonely_step ?_ rfl ?_
      · simp [lonely, hnew, h.alone.lower]
      · simp only [World.step, World.deliver, if_pos hm]
    have hpeers₁ : ((w.doPrepare j r.round q s r.seqNum).peer r.px).peers = L := by
      have := Peer.update_frame (Peer.prepare_frame (w.peer q) s r.seqNum) r.px
      exact this.1.trans hpeers
    obtain ⟨w₂, hs₂⟩ := take (u := w.doPrepare j r.round q s r.seqNum) h.run hpeers₁ q hq _
      List.mem_cons_self
    exact ⟨_, w₂, .cons hs₁ (.single hs₂), le_rfl, by simp [Lbl.own]⟩

theorem Lone.nextAccept (h : Lone L Q j s c₀ w r) (hpc : r.pc = .recvAccept)
    (hi : r.i < L.length) :
    ∃ ls w', (lone L Q j s c₀).Run w ls w' ∧ ls.length ≤ 2 ∧ ls.countP (Lbl.own j) = 1 := by
  obtain ⟨hpeers, -, -⟩ := h.conf
  have hslot := h.alone.slot
  have hph := h.phase
  unfold Situation at hph
  rw [hpc] at hph
  obtain ⟨hcoll, hasked⟩ := hph
  have take : ∀ {u : World H V}, u.runs[j]? = some r → (u.peer r.px).peers = L →
      ∀ q ∈ r.waiting, ∀ rep, .acceptReply j r.round q s r.seqNum rep ∈ u.net →
      ∃ w₂, (lone L Q j s c₀).step u (.recvAccept j q rep) w₂ := by
    intro u hrun hp q hq rep hm
    have hs : u.step (.recvAccept j q rep) =
        some (u.setRun j ((r.countAccept (some rep)).taken L.length .checkAccept q)) := by
      simp only [World.step, hrun, hp]
      exact if_pos ⟨hpc, hi, hq, by rw [hslot]; exact hm⟩
    exact ⟨_, lonely_step (by simp [lonely]) rfl hs⟩
  have hpos : 0 < r.waiting.length := by
    have := hcoll.rest
    omega
  obtain ⟨q, hq⟩ := List.exists_mem_of_length_pos hpos
  rcases hasked q hq with ⟨x, hm⟩ | ⟨rep, hrep⟩
  · have hs₁ : (lone L Q j s c₀).step w (.deliver (.accept j r.round q s r.seqNum x))
        (w.doAccept j r.round q s r.seqNum x) := by
      refine lonely_step ?_ rfl ?_
      · simp [lonely, h.alone.lower]
      · simp only [World.step, World.deliver, if_pos hm]
    have hpeers₁ : ((w.doAccept j r.round q s r.seqNum x).peer r.px).peers = L := by
      have := Peer.update_frame (Peer.accept_frame (w.peer q) s r.seqNum x) r.px
      exact this.1.trans hpeers
    obtain ⟨w₂, hs₂⟩ := take (u := w.doAccept j r.round q s r.seqNum x) h.run hpeers₁ q hq _
      List.mem_cons_self
    exact ⟨_, w₂, .cons hs₁ (.single hs₂), le_rfl, by simp [Lbl.own]⟩
  · obtain ⟨w₂, hs⟩ := take h.run hpeers q hq rep hrep
    exact Lone.one hs (by simp [Lbl.own])

/-- As long as it has not returned, the run can execute a statement, at most one
delivery away. -/
theorem Lone.next (h : Lone L Q j s c₀ w r) (hret : r.pc ≠ .returned) :
    ∃ ls w', (lone L Q j s c₀).Run w ls w' ∧ ls.length ≤ 2 ∧ ls.countP (Lbl.own j) = 1 := by
  obtain ⟨hpeers, -, -⟩ := h.conf
  have go : (∃ w', w.goRun j r = some w') →
      ∃ ls w', (lone L Q j s c₀).Run w ls w' ∧ ls.length ≤ 2 ∧ ls.countP (Lbl.own j) = 1 := by
    rintro ⟨w', hw'⟩
    have hs : (lone L Q j s c₀).step w (.go j) w' := by
      refine lonely_step (by simp [lonely]) rfl ?_
      simp only [World.step, h.run]
      exact hw'
    exact Lone.one hs (by simp [Lbl.own])
  cases hpc : r.pc with
  | top =>
    have hs : (lone L Q j s c₀).step w (.top j (max r.maxSeqNumHighest 0 + 1))
        (w.setRun j (r.beginRound (max r.maxSeqNumHighest 0 + 1))) := by
      refine lonely_step ?_ rfl ?_
      · simp only [lonely, if_true, h.run, decide_eq_true_eq]
        omega
      · simp only [World.step, h.run]
        exact if_pos ⟨hpc, by omega⟩
    exact Lone.one hs (by simp [Lbl.own])
  | recvPrepare =>
    by_cases hi : r.i < L.length
    · exact h.nextPrepare hpc hi
    · refine go (goRun_isSome ?_)
      rw [hpeers]
      simp [hpc, Nat.not_lt.mp hi]
  | recvAccept =>
    by_cases hi : r.i < L.length
    · exact h.nextAccept hpc hi
    · refine go (goRun_isSome ?_)
      rw [hpeers]
      simp [hpc, Nat.not_lt.mp hi]
  | sendPrepare | checkPrepare | sendAccept | checkAccept | sendDecide =>
    exact go (goRun_isSome (by simp [hpc]))
  | returned => exact absurd hpc hret
  | killed =>
    have hph := h.phase
    unfold Situation at hph
    rw [hpc] at hph
    exact hph.elim

/-- Peer 1 has promised its own run number 5 on slot 3. -/
def otherPromise : List (Lbl Nat String) :=
  [.start 0 3 "a", .start 1 3 "b", .top 1 5, .go 1, .go 1]

/-- The run on peer 0 is refused with number 1 and decides with 6, while peer 2
never answers. -/
def refusedOnce : List (Lbl Nat String) :=
  [.top 0 1, .go 0, .go 0, .go 0, .go 0,
   .deliver (.prepare 0 0 1 3 1),
   .recvPrepare 0 1 ⟨.reject, 0, none, 5⟩, .recvPrepare 0 0 ⟨.ok, 0, none, 0⟩, .fail 0 2,
   .go 0, .go 0,
   .top 0 6, .go 0, .go 0, .go 0, .go 0,
   .deliver (.prepare 0 1 1 3 6),
   .recvPrepare 0 1 ⟨.ok, 0, none, 0⟩, .recvPrepare 0 0 ⟨.ok, 0, none, 0⟩,
   .go 0, .go 0, .go 0, .go 0, .go 0,
   .deliver (.accept 0 1 1 3 6 (some "a")),
   .recvAccept 0 0 ⟨.ok, 0⟩, .recvAccept 0 1 ⟨.ok, 0⟩,
   .go 0, .go 0, .go 0, .go 0, .go 0]

def promised : World Nat String :=
  LTS.execD (fixedStep [0, 1, 2]) (World.init [0, 1, 2]) otherPromise

end Cmu440.Paxos
