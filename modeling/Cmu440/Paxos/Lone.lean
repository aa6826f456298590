import Cmu440.Paxos.Agreement
import Cmu440.Paxos.Moves

/-!
# A proposer that is alone on its slot

`startHelper` has no bound on its rounds: two proposers can refuse each other for
ever. A proposer that is alone on its slot decides it, in at most two rounds
(`lone_proposer_decides`). The first round may be refused, by peers that have seen
a higher number; but then it has heard the highest number of each peer that
answers, and the number of the next round is above all of them.

The rounds of run `j` on slot `s` from round `c₀` on are looked at under these
conditions (`lonely`):

* the peers of `Q`, a majority, answer: no call to one of them fails;
* no other run on the slot takes a step, and no request of another run or an
  earlier round reaches a peer. Everything may happen on other slots;
* a call is executed at most once, as by `net/rpc`. (A `Prepare` that was executed
  twice would be refused the second time, with its own number.)
* the number of a round is above `maxSeqNumHighest`, which is what
  paxos.go:445-447 is for (see `Cmu440.Paxos.SeqNum`).
-/
namespace Cmu440.Paxos

variable {H V : Type} [DecidableEq H] [DecidableEq V]

/-! ## The rounds that messages belong to -/

/-- The run and the round a request or a reply belongs to. -/
def Msg.call : Msg H V → Option (Nat × Nat)
  | .prepare j c _ _ _ => some (j, c)
  | .prepareReply j c _ _ _ _ => some (j, c)
  | .accept j c _ _ _ _ => some (j, c)
  | .acceptReply j c _ _ _ _ => some (j, c)
  | .decide _ _ _ => none

/-- The run has begun round `c`. -/
def Run.Begun (r : Run H V) (c : Nat) : Prop := c < r.round ∨ c = r.round ∧ r.pc ≠ .top

/-- Every message belongs to a round that was begun. -/
def Stamped (w : World H V) : Prop :=
  ∀ m ∈ w.net, ∀ j c, m.call = some (j, c) → ∃ r, w.runs[j]? = some r ∧ r.Begun c

variable {w w' : World H V} {j : Nat} {r r' : Run H V} {l : Lbl H V} {L Q : List H} {s : Int}

omit [DecidableEq H] [DecidableEq V] in
theorem Run.Begun.mono (hround : r.round ≤ r'.round)
    (hpc : r'.round = r.round → r.pc ≠ .top → r'.pc ≠ .top) {c : Nat} (h : r.Begun c) :
    r'.Begun c := by
  rcases h with h | ⟨rfl, hne⟩
  · exact .inl (Nat.lt_of_lt_of_le h hround)
  · rcases Nat.lt_or_eq_of_le hround with hlt | heq
    · exact .inl hlt
    · exact .inr ⟨heq, hpc heq.symm hne⟩

omit [DecidableEq V] in
/-- One iteration of a receive loop. -/
theorem Run.taken_top {done : Pc} (hdone : done ≠ .top) (hpc : r.pc ≠ .top) (n : Nat) (src : H) :
    (r.taken n done src).pc ≠ .top := by
  by_cases hok : r.numOk > n / 2
  · simp only [Run.taken, if_pos hok]
    exact hdone
  · simp only [Run.taken, if_neg hok]
    exact hpc

omit [DecidableEq V] in
/-- What a statement does to its run as far as rounds go: it may end a round or
begin one, and what it sends is of the round it is in. -/
theorem Statement.begun (h : Statement w j r l w') :
    ∃ r', w'.runs = w.runs.set j r' ∧ r.round ≤ r'.round ∧
      (r'.round = r.round → r.pc ≠ .top → r'.pc ≠ .top) ∧
      ∀ m ∈ w'.net, m ∈ w.net ∨ ∀ k c, m.call = some (k, c) → k = j ∧ r'.Begun c := by
  cases h with
  | top n hpc hn => exact ⟨_, rfl, Nat.le_refl _, fun _ hne => absurd hpc hne, fun m hm => .inl hm⟩
  | ownPrepare hpc hdst hme | callPrepare hpc hdst hme | ownAccept hpc hdst hme
  | callAccept hpc hdst hme =>
    refine ⟨_, rfl, Nat.le_refl _, fun _ hne => hne, fun m hm => ?_⟩
    rcases List.mem_cons.mp hm with rfl | hm
    · refine .inr fun k c hc => ?_
      cases hc
      exact ⟨rfl, .inr ⟨rfl, by rw [Run.called, hpc]; decide⟩⟩
    · exact .inl hm
  | callDecide hpc hdst hme =>
    refine ⟨_, rfl, Nat.le_refl _, fun _ _ => by simp, fun m hm => ?_⟩
    rcases List.mem_cons.mp hm with rfl | hm
    · exact .inr fun k c hc => by cases hc
    · exact .inl hm
  | ownDecide | prepareCalled | prepareRead | prepared | acceptCalled | acceptRead | accepted
  | decideCalled =>
    exact ⟨_, rfl, Nat.le_refl _, fun _ _ => by simp [Run.beginAccept], fun m hm => .inl hm⟩
  | refusedPrepare | refusedAccept =>
    exact ⟨_, rfl, Nat.le_succ _, fun he => absurd he (Nat.succ_ne_self _), fun m hm => .inl hm⟩
  | recvPrepare src reply hpc hi hsrc hm =>
    obtain ⟨-, hpc', hround⟩ := countPrepare_frame r (some reply)
    exact ⟨_, rfl, Nat.le_of_eq hround.symm,
      fun _ hne => Run.taken_top (by decide) (by rw [hpc']; exact hne) _ _, fun m hm => .inl hm⟩
  | recvAccept src reply hpc hi hsrc hm =>
    obtain ⟨-, hpc', hround⟩ := countAccept_frame r (some reply)
    exact ⟨_, rfl, Nat.le_of_eq hround.symm,
      fun _ hne => Run.taken_top (by decide) (by rw [hpc']; exact hne) _ _, fun m hm => .inl hm⟩
  | failPrepare src hpc hi hsrc | failAccept src hpc hi hsrc =>
    exact ⟨_, rfl, Nat.le_refl _, fun _ hne => Run.taken_top (by decide) hne _ _,
      fun m hm => .inl hm⟩

theorem Stamped.step (h : Stamped w) (hs : w.step l = some w') : Stamped w' := by
  intro m hm k c hc
  cases step_takes hs with
  | start p s v hl hw =>
    subst hw
    obtain ⟨r, hr, hb⟩ := h m hm k c hc
    have hlt : k < w.runs.length := (List.getElem?_eq_some_iff.mp hr).1
    exact ⟨r, by rw [List.getElem?_append_left hlt, hr], hb⟩
  | handled hh =>
    have hruns : w'.runs = w.runs := by cases hh <;> rfl
    rw [hruns]
    -- a reply is of the round of its request
    cases hh with
    | prepare j c' p s n hreq | accept j c' p s n x hreq =>
      rcases List.mem_cons.mp hm with rfl | hm
      · cases hc
        exact h _ hreq _ _ rfl
      · exact h m hm k c hc
    | decide p s x hreq => exact h m hm k c hc
  | moved j r hj hst =>
    obtain ⟨r', hruns, hround, hpc, hnew⟩ := hst.begun
    have hlt : j < w.runs.length := (List.getElem?_eq_some_iff.mp hj).1
    rw [hruns]
    rcases hnew m hm with hm | hm
    · obtain ⟨r₁, hr₁, hb⟩ := h m hm k c hc
      by_cases hk : k = j
      · subst hk
        rw [hj] at hr₁
        cases hr₁
        exact ⟨r', List.getElem?_set_self hlt, hb.mono hround hpc⟩
      · exact ⟨r₁, by rw [List.getElem?_set_ne (Ne.symm hk), hr₁], hb⟩
    · obtain ⟨rfl, hb⟩ := hm k c hc
      exact ⟨r', List.getElem?_set_self hlt, hb⟩

theorem stamped_inductive (L : List H) : (fixed (V := V) L).Inductive Stamped where
  init := by
    rintro w rfl m hm
    cases hm
  step w l w' h hs := h.step (LTS.guarded_eq_some.mp hs).2

/-- A message of run `j` is of a round it has begun. -/
theorem begun_of_mem (hw : (fixed L).Reachable w) (hj : w.runs[j]? = some r) {m : Msg H V}
    (hm : m ∈ w.net) {c : Nat} (hc : m.call = some (j, c)) : r.Begun c := by
  obtain ⟨r', hr', hb⟩ := (stamped_inductive L).reachable w hw m hm j c hc
  rw [hj] at hr'
  cases hr'
  exact hb

/-! ## Alone on a slot -/

/-- Run `k` is on another slot. -/
def World.elsewhere (w : World H V) (s : Int) (k : Nat) : Bool :=
  match w.runs[k]? with
  | some r => decide (r.slotNum ≠ s)
  | none => true

/-- Peer `src` has executed the `Prepare` of round `c` of run `j` on slot `s`. -/
def Msg.isPrepareReply (j c : Nat) (src : H) (s : Int) : Msg H V → Bool
  | .prepareReply j' c' src' s' _ _ =>
    Decidable.decide (j' = j ∧ c' = c ∧ src' = src ∧ s' = s)
  | _ => false

/-- Run `j` is alone on slot `s` from round `c₀` on, and the peers of `Q`
answer. -/
def lonely (Q : List H) (j : Nat) (s : Int) (c₀ : Nat) (w : World H V) : Lbl H V → Bool
  | .start _ _ _ => true
  | .top k n =>
    if k = j then
      match w.runs[j]? with
      | some r => decide (r.maxSeqNumHighest < n)
      | none => false
    else w.elsewhere s k
  | .go k => decide (k = j) || w.elsewhere s k
  | .recvPrepare k _ _ => decide (k = j) || w.elsewhere s k
  | .recvAccept k _ _ => decide (k = j) || w.elsewhere s k
  | .fail k src => if k = j then decide (src ∉ Q) else w.elsewhere s k
  | .deliver (.prepare k c dst s' _) =>
    decide (s' ≠ s) || decide (k = j ∧ c₀ ≤ c) && !w.net.any (Msg.isPrepareReply k c dst s')
  | .deliver (.accept k c _ s' _ _) => decide (s' ≠ s) || decide (k = j ∧ c₀ ≤ c)
  | .deliver _ => true

/-- The runs of the cluster `L` from any of its states on in which run `j` is
alone on its slot. -/
def lone (L Q : List H) (j : Nat) (s : Int) (c₀ : Nat) : LTS (World H V) (Lbl H V) :=
  .ofFn (fun w => (fixed L).Reachable w) (LTS.guarded (lonely Q j s c₀) (fixedStep L))

/-- A statement of run `j`. -/
def Lbl.own (j : Nat) : Lbl H V → Bool
  | .top k _ => decide (k = j)
  | .go k => decide (k = j)
  | .recvPrepare k _ _ => decide (k = j)
  | .recvAccept k _ _ => decide (k = j)
  | .fail k _ => decide (k = j)
  | .start _ _ _ => false
  | .deliver _ => false

/-! ## What the replies tell -/

/-- The highest number peer `p` has seen for slot `s`. -/
def World.highest (w : World H V) (s : Int) (p : H) : Int := (w.slot p s).seqNumHighest

/-- The highest number the run has used or, between rounds, has heard of. -/
def Run.cap (r : Run H V) : Int := if r.pc = .top then r.maxSeqNumHighest else r.seqNum

/-- A request of round `c` with number `n`. -/
structure Sent (r : Run H V) (c : Nat) (n : Int) : Prop where
  begun : r.Begun c
  cap : n ≤ r.cap
  now : c = r.round → n = r.seqNum
  old : c < r.round → r.pc ≠ .top → n < r.seqNum

/-- What an answer with `SeqNumHighest` `h` tells of the highest number `hi` of
the peer. -/
def Tells (r : Run H V) (st : Status) (h hi : Int) : Prop :=
  match st with
  | .ok => hi ≤ r.seqNum
  | .reject => r.seqNum ≤ h ∧ hi ≤ h

/-- What the network and the peers hold for run `j`, alone on slot `s` since
round `c₀`. -/
structure Alone (Q : List H) (j : Nat) (s : Int) (c₀ : Nat) (w : World H V) (r : Run H V) :
    Prop where
  slot : r.slotNum = s
  lower : c₀ ≤ r.round
  upper : r.round ≤ c₀ + 1
  prepares : ∀ c dst n, .prepare j c dst s n ∈ w.net → c₀ ≤ c → Sent r c n
  accepts : ∀ c dst n x, .accept j c dst s n x ∈ w.net → c₀ ≤ c → Sent r c n
  /-- No `Accept` of the round is sent before its prepare phase is over. -/
  early : r.pc.afterPrepare = false → ∀ dst n x, .accept j r.round dst s n x ∉ w.net
  answers : r.pc ≠ .top → ∀ q n rep, .prepareReply j r.round q s n rep ∈ w.net → n = r.seqNum
  told : r.pc ≠ .top → ∀ q rep, .prepareReply j r.round q s r.seqNum rep ∈ w.net →
    Tells r rep.status rep.seqNumHighest (w.highest s q)
  toldAccept : r.pc ≠ .top → ∀ q rep, .acceptReply j r.round q s r.seqNum rep ∈ w.net →
    Tells r rep.status rep.seqNumHighest (w.highest s q)
  /-- After a refusal no peer of `Q` has seen a number the run does not know. -/
  low : r.round = c₀ + 1 → ∀ q ∈ Q, w.highest s q ≤ r.cap
  agreed : r.round = c₀ + 1 → ∀ q ∈ Q, ∀ rep,
    .acceptReply j r.round q s r.seqNum rep ∈ w.net → rep.status = .ok

/-- A request of run `j` or a reply to one on slot `s`. -/
def Msg.Of (j : Nat) (s : Int) (m : Msg H V) : Prop := m.slotNum = s ∧ ∃ c, m.call = some (j, c)

omit [DecidableEq H] [DecidableEq V] in
/-- Steps on other slots and by other runs. -/
theorem Alone.frame {c₀ : Nat} (h : Alone Q j s c₀ w r)
    (hnet : ∀ m, m.Of j s → (m ∈ w'.net ↔ m ∈ w.net))
    (hhi : ∀ q, w'.highest s q = w.highest s q) : Alone Q j s c₀ w' r := by
  refine ⟨h.slot, h.lower, h.upper, fun c dst n hm => ?_, fun c dst n x hm => ?_,
    fun hpc dst n x hm => ?_, fun hpc q n rep hm => ?_, fun hpc q rep hm => ?_,
    fun hpc q rep hm => ?_, fun hc q hq => ?_, fun hc q hq rep hm => ?_⟩
  · exact h.prepares c dst n ((hnet _ ⟨rfl, _, rfl⟩).mp hm)
  · exact h.accepts c dst n x ((hnet _ ⟨rfl, _, rfl⟩).mp hm)
  · exact h.early hpc dst n x ((hnet _ ⟨rfl, _, rfl⟩).mp hm)
  · exact h.answers hpc q n rep ((hnet _ ⟨rfl, _, rfl⟩).mp hm)
  · rw [hhi]
    exact h.told hpc q rep ((hnet _ ⟨rfl, _, rfl⟩).mp hm)
  · rw [hhi]
    exact h.toldAccept hpc q rep ((hnet _ ⟨rfl, _, rfl⟩).mp hm)
  · rw [hhi]
    exact h.low hc q hq
  · exact h.agreed hc q hq rep ((hnet _ ⟨rfl, _, rfl⟩).mp hm)

/-! ## The handlers -/

section
omit [DecidableEq H] [DecidableEq V]

theorem Peer.prepare_tells (px : Peer H V) (s n : Int) :
    ((px.prepare s n).2.status = .ok ∧ (px.getTimeSlotValue s).seqNumHighest < n) ∨
    ((px.prepare s n).2.status = .reject ∧ n ≤ (px.getTimeSlotValue s).seqNumHighest ∧
      (px.prepare s n).2.seqNumHighest = (px.getTimeSlotValue s).seqNumHighest) := by
  simp only [prepare]
  split
  · rename_i h
    exact .inl ⟨rfl, h⟩
  · rename_i h
    exact .inr ⟨rfl, not_lt.mp h, rfl⟩

theorem Peer.accept_tells (px : Peer H V) (s n : Int) (x : Option V) :
    ((px.accept s n x).2.status = .ok ∧ (px.getTimeSlotValue s).seqNumHighest ≤ n) ∨
    ((px.accept s n x).2.status = .reject ∧ n < (px.getTimeSlotValue s).seqNumHighest ∧
      (px.accept s n x).2.seqNumHighest = (px.getTimeSlotValue s).seqNumHighest) := by
  simp only [accept]
  split
  · rename_i h
    exact .inl ⟨rfl, h⟩
  · rename_i h
    exact .inr ⟨rfl, not_le.mp h, rfl⟩

/-- The run's own numbers do not spoil what a reply told. -/
theorem Tells.raise {st : Status} {h hi n : Int} (ht : Tells r st h hi) (hn : n ≤ r.seqNum) :
    Tells r st h (max hi n) := by
  cases st with
  | ok => exact max_le ht hn
  | reject => exact ⟨ht.1, max_le ht.2 (le_trans hn ht.1)⟩

theorem Run.cap_of_ne (h : r.pc ≠ .top) : r.cap = r.seqNum := if_neg h

/-- A request of the round the run is in. -/
theorem Sent.current (hpc : r.pc ≠ .top) : Sent r r.round r.seqNum :=
  ⟨.inr ⟨rfl, hpc⟩, le_of_eq (Run.cap_of_ne hpc).symm, fun _ => rfl,
    fun hlt => absurd hlt (lt_irrefl _)⟩

theorem Sent.not_top {n : Int} (h : Sent r r.round n) : r.pc ≠ .top :=
  (h.begun.resolve_left (lt_irrefl _)).2

end

section
omit [DecidableEq V]

theorem highest_doPrepare (w : World H V) (k c : Nat) (p : H) (n : Int) (q : H) :
    (w.doPrepare k c p s n).highest s q =
      if q = p then max (w.highest s q) n else w.highest s q := by
  by_cases hq : q = p
  · subst hq
    rw [if_pos rfl]
    rcases Peer.prepare_cases (w.peer q) s n with ⟨hlt, h, -⟩ | ⟨hle, h, -⟩
    · simp only [World.highest, World.slot, World.doPrepare, Function.update_self, h]
      exact (max_eq_right (le_of_lt hlt)).symm
    · simp only [World.highest, World.slot, World.doPrepare, Function.update_self, h]
      exact (max_eq_left hle).symm
  · simp [World.highest, World.slot, World.doPrepare, hq]

theorem highest_doAccept (w : World H V) (k c : Nat) (p : H) (n : Int) (x : Option V) (q : H) :
    (w.doAccept k c p s n x).highest s q =
      if q = p then max (w.highest s q) n else w.highest s q := by
  by_cases hq : q = p
  · subst hq
    rw [if_pos rfl]
    rcases Peer.accept_cases (w.peer q) s n x with ⟨hle, h, -⟩ | ⟨hlt, h, -⟩
    · simp only [World.highest, World.slot, World.doAccept, Function.update_self, h]
      exact (max_eq_right hle).symm
    · simp only [World.highest, World.slot, World.doAccept, Function.update_self, h]
      exact (max_eq_left (le_of_lt hlt)).symm
  · simp [World.highest, World.slot, World.doAccept, hq]

/-- Some peer `p` handles a request with number `n` of the run: nothing that was
known is lost. -/
theorem Alone.raised {c₀ : Nat} (h : Alone Q j s c₀ w r) {p : H} {n : Int} (hn : n ≤ r.cap)
    {m : Msg H V} (hnet : w'.net = m :: w.net)
    (hhi : ∀ q, w'.highest s q = if q = p then max (w.highest s q) n else w.highest s q)
    (hprep : ∀ c dst n, m ≠ .prepare j c dst s n) (hacc : ∀ c dst n x, m ≠ .accept j c dst s n x)
    (hans : ∀ q n rep, m = .prepareReply j r.round q s n rep → n = r.seqNum)
    (htold : r.pc ≠ .top → ∀ q rep, m = .prepareReply j r.round q s r.seqNum rep →
      Tells r rep.status rep.seqNumHighest (w'.highest s q))
    (htoldAccept : r.pc ≠ .top → ∀ q rep, m = .acceptReply j r.round q s r.seqNum rep →
      Tells r rep.status rep.seqNumHighest (w'.highest s q))
    (hagreed : r.round = c₀ + 1 → ∀ q ∈ Q, ∀ rep, m = .acceptReply j r.round q s r.seqNum rep →
      rep.status = .ok) : Alone Q j s c₀ w' r := by
  have hkeep : ∀ {st : Status} {hr : Int} {q : H}, r.pc ≠ .top →
      Tells r st hr (w.highest s q) → Tells r st hr (w'.highest s q) := by
    intro st hr q hpc ht
    rw [hhi]
    split
    · exact ht.raise (by rw [← Run.cap_of_ne hpc]; exact hn)
    · exact ht
  refine ⟨h.slot, h.lower, h.upper, fun c dst n hm => ?_, fun c dst n x hm => ?_,
    fun hpc dst n x hm => ?_, fun hpc q n rep hm => ?_, fun hpc q rep hm => ?_,
    fun hpc q rep hm => ?_, fun hc q hq => ?_, fun hc q hq rep hm => ?_⟩
  · rw [hnet] at hm
    rcases List.mem_cons.mp hm with e | hm
    · exact absurd e.symm (hprep c dst n)
    · exact h.prepares c dst n hm
  · rw [hnet] at hm
    rcases List.mem_cons.mp hm with e | hm
    · exact absurd e.symm (hacc c dst n x)
    · exact h.accepts c dst n x hm
  · rw [hnet] at hm
    rcases List.mem_cons.mp hm with e | hm
    · exact absurd e.symm (hacc _ dst n x)
    · exact h.early hpc dst n x hm
  · rw [hnet] at hm
    rcases List.mem_cons.mp hm with e | hm
    · exact hans q n rep e.symm
    · exact h.answers hpc q n rep hm
  · rw [hnet] at hm
    rcases List.mem_cons.mp hm with e | hm
    · exact htold hpc q rep e.symm
    · exact hkeep hpc (h.told hpc q rep hm)
  · rw [hnet] at hm
    rcases List.mem_cons.mp hm with e | hm
    · exact htoldAccept hpc q rep e.symm
    · exact hkeep hpc (h.toldAccept hpc q rep hm)
  · rw [hhi]
    split
    · exact max_le (h.low hc q hq) hn
    · exact h.low hc q hq
  · rw [hnet] at hm
    rcases List.mem_cons.mp hm with e | hm
    · exact hagreed hc q hq rep e.symm
    · exact h.agreed hc q hq rep hm

theorem Alone.doPrepare {c₀ c : Nat} {n : Int} (h : Alone Q j s c₀ w r) (hs : Sent r c n) (p : H) :
    Alone Q j s c₀ (w.doPrepare j c p s n) r := by
  refine h.raised hs.cap rfl (highest_doPrepare w j c p n) (by simp) (by simp) ?_ ?_ (by simp)
    (by simp)
  · intro q n' rep e
    cases e
    exact hs.now rfl
  intro hpc q rep e
  cases e
  rw [highest_doPrepare, if_pos rfl]
  rcases (w.peer p).prepare_tells s r.seqNum with ⟨hst, hlt⟩ | ⟨hst, hle, heq⟩
  · rw [hst]
    exact max_le (le_of_lt hlt) le_rfl
  · rw [hst, heq]
    exact ⟨hle, max_le le_rfl hle⟩

theorem Alone.doAccept {c₀ c : Nat} {n : Int} (h : Alone Q j s c₀ w r) (hs : Sent r c n) (p : H)
    (x : Option V) : Alone Q j s c₀ (w.doAccept j c p s n x) r := by
  refine h.raised hs.cap rfl (highest_doAccept w j c p n x) (by simp) (by simp) (by simp) (by simp)
    ?_ ?_
  · intro hpc q rep e
    cases e
    rw [highest_doAccept, if_pos rfl]
    rcases (w.peer p).accept_tells s r.seqNum x with ⟨hst, hle⟩ | ⟨hst, hlt, heq⟩
    · rw [hst]
      exact max_le hle le_rfl
    · rw [hst, heq]
      exact ⟨le_of_lt hlt, max_le le_rfl (le_of_lt hlt)⟩
  · intro hc q hq rep e
    cases e
    -- no peer of `Q` has seen more than the number of this round
    have hle := le_trans (h.low hc p hq) (le_of_eq (Run.cap_of_ne hs.not_top))
    rcases (w.peer p).accept_tells s r.seqNum x with ⟨hst, -⟩ | ⟨-, hlt, -⟩
    · exact hst
    · exact absurd hle (not_le.mpr hlt)

end

/-! ## The statements -/

section
omit [DecidableEq H] [DecidableEq V]

variable {c₀ : Nat}

/-- The run goes on within its round. -/
theorem Sent.move (hround : r'.round = r.round) (hseq : r'.seqNum = r.seqNum) (hpc : r.pc ≠ .top)
    (hpc' : r'.pc ≠ .top) {c : Nat} {n : Int} (h : Sent r c n) : Sent r' c n := by
  refine ⟨h.begun.mono (le_of_eq hround.symm) fun _ _ => hpc', ?_, fun hc => ?_, fun hc _ => ?_⟩
  · rw [Run.cap_of_ne hpc', hseq, ← Run.cap_of_ne hpc]
    exact h.cap
  · rw [hseq]
    exact h.now (hc.trans hround)
  · rw [hseq]
    exact h.old (by rw [← hround]; exact hc) hpc

theorem Alone.move (h : Alone Q j s c₀ w r) (hslot : r'.slotNum = r.slotNum)
    (hround : r'.round = r.round) (hseq : r'.seqNum = r.seqNum) (hpc : r.pc ≠ .top)
    (hpc' : r'.pc ≠ .top) (hafter : r'.pc.afterPrepare = false → r.pc.afterPrepare = false) :
    Alone Q j s c₀ (w.setRun j r') r' where
  slot := hslot.trans h.slot
  lower := by rw [hround]; exact h.lower
  upper := by rw [hround]; exact h.upper
  prepares c dst n hm hc := (h.prepares c dst n hm hc).move hround hseq hpc hpc'
  accepts c dst n x hm hc := (h.accepts c dst n x hm hc).move hround hseq hpc hpc'
  early ha := by rw [hround]; exact h.early (hafter ha)
  answers _ := by
    rw [hround, hseq]
    exact h.answers hpc
  told _ := by
    unfold Tells
    rw [hround, hseq]
    exact h.told hpc
  toldAccept _ := by
    unfold Tells
    rw [hround, hseq]
    exact h.toldAccept hpc
  low hc := by
    rw [Run.cap_of_ne hpc', hseq, ← Run.cap_of_ne hpc]
    exact h.low (hround.symm.trans hc)
  agreed hc := by
    rw [hround, hseq]
    exact h.agreed (hround.symm.trans hc)

/-- A request of the round is sent. -/
theorem Alone.send (h : Alone Q j s c₀ w r) (hpc : r.pc ≠ .top) {m : Msg H V}
    (hprep : ∀ c dst n, m = .prepare j c dst s n → c = r.round ∧ n = r.seqNum)
    (hacc : ∀ c dst n x, m = .accept j c dst s n x →
      c = r.round ∧ n = r.seqNum ∧ r.pc.afterPrepare = true)
    (hrep : ∀ c q n rep, m ≠ .prepareReply j c q s n rep)
    (hrepAccept : ∀ c q n rep, m ≠ .acceptReply j c q s n rep) :
    Alone Q j s c₀ (w.send m) r := by
  refine ⟨h.slot, h.lower, h.upper, fun c dst n hm hc => ?_, fun c dst n x hm hc => ?_,
    fun hpc dst n x hm => ?_, fun hpc q n rep hm => ?_, fun hpc q rep hm => ?_,
    fun hpc q rep hm => ?_, h.low, fun hc q hq rep hm => ?_⟩
  · rcases List.mem_cons.mp hm with e | hm
    · obtain ⟨rfl, rfl⟩ := hprep c dst n e.symm
      exact .current hpc
    · exact h.prepares c dst n hm hc
  · rcases List.mem_cons.mp hm with e | hm
    · obtain ⟨rfl, rfl, -⟩ := hacc c dst n x e.symm
      exact .current hpc
    · exact h.accepts c dst n x hm hc
  · rcases List.mem_cons.mp hm with e | hm
    · rw [(hacc _ dst n x e.symm).2.2] at hpc
      cases hpc
    · exact h.early hpc dst n x hm
  · rcases List.mem_cons.mp hm with e | hm
    · exact absurd e.symm (hrep _ q n rep)
    · exact h.answers hpc q n rep hm
  · rcases List.mem_cons.mp hm with e | hm
    · exact absurd e.symm (hrep _ q _ rep)
    · exact h.told hpc q rep hm
  · rcases List.mem_cons.mp hm with e | hm
    · exact absurd e.symm (hrepAccept _ q _ rep)
    · exact h.toldAccept hpc q rep hm
  · rcases List.mem_cons.mp hm with e | hm
    · exact absurd e.symm (hrepAccept _ q _ rep)
    · exact h.agreed hc q hq rep hm

/-- A round begins, with a number above all the run has heard of. -/
theorem Alone.beginRound (h : Alone Q j s c₀ w r)
    (hbegun : ∀ m ∈ w.net, ∀ c, m.call = some (j, c) → r.Begun c) (hpc : r.pc = .top) {n : Int}
    (hn : r.maxSeqNumHighest < n) :
    Alone Q j s c₀ (w.setRun j (r.beginRound n)) (r.beginRound n) := by
  have hcap : r.cap = r.maxSeqNumHighest := if_pos hpc
  have hold : ∀ m ∈ w.net, m.call ≠ some (j, r.round) := by
    intro m hm hc
    rcases hbegun m hm _ hc with hlt | ⟨-, hne⟩
    · exact lt_irrefl _ hlt
    · exact hne hpc
  have hsent : ∀ {c : Nat} {n' : Int}, Sent r c n' → Sent (r.beginRound n) c n' := by
    intro c n' hs
    have hlt : n' < n := lt_of_le_of_lt (hcap ▸ hs.cap) hn
    refine ⟨hs.begun.imp_right fun hc => ⟨hc.1, by simp [Run.beginRound]⟩, le_of_lt hlt,
      fun hc => ?_, fun _ _ => hlt⟩
    rcases hs.begun with hb | ⟨-, hne⟩
    · exact absurd hc (Nat.ne_of_lt hb)
    · exact absurd hpc hne
  refine ⟨h.slot, h.lower, h.upper, fun c dst n' hm hc => hsent (h.prepares c dst n' hm hc),
    fun c dst n' x hm hc => hsent (h.accepts c dst n' x hm hc), fun _ dst n' x hm => ?_,
    fun _ q n' rep hm => ?_, fun _ q rep hm => ?_, fun _ q rep hm => ?_, fun hc q hq => ?_,
    fun _ q _ rep hm => ?_⟩
  · exact hold _ hm rfl
  · exact absurd rfl (hold _ hm)
  · exact absurd rfl (hold _ hm)
  · exact absurd rfl (hold _ hm)
  · exact le_of_lt (lt_of_le_of_lt (hcap ▸ h.low hc q hq) hn)
  · exact absurd rfl (hold _ hm)

/-- The first round is refused, and the run has heard of every number its
majority has seen. -/
theorem Alone.retry (h : Alone Q j s c₀ w r)
    (hbegun : ∀ m ∈ w.net, ∀ c, m.call = some (j, c) → r.Begun c) (hpc : r.pc ≠ .top)
    (hround : r.round = c₀) (hseq : r.seqNum ≤ r.maxSeqNumHighest)
    (hlow : ∀ q ∈ Q, w.highest s q ≤ r.maxSeqNumHighest) :
    Alone Q j s c₀ (w.setRun j r.retry) r.retry := by
  have hnew : ∀ m ∈ w.net, m.call ≠ some (j, r.round + 1) := by
    intro m hm hc
    rcases hbegun m hm _ hc with hlt | ⟨he, -⟩
    · exact absurd hlt (Nat.not_lt.mpr (Nat.le_succ _))
    · exact Nat.succ_ne_self _ he
  have hsent : ∀ {c : Nat} {n : Int}, Sent r c n → Sent r.retry c n := by
    intro c n hs
    have hlt : c < r.round + 1 := by
      rcases hs.begun with hb | ⟨rfl, -⟩
      · exact Nat.lt_succ_of_lt hb
      · exact Nat.lt_succ_self _
    refine ⟨.inl hlt, ?_, fun hc => absurd hc (Nat.ne_of_lt hlt), fun _ hne => absurd rfl hne⟩
    exact le_trans (le_of_le_of_eq hs.cap (Run.cap_of_ne hpc)) hseq
  refine ⟨h.slot, Nat.le_succ_of_le h.lower, by rw [← hround]; exact le_rfl,
    fun c dst n' hm hc => hsent (h.prepares c dst n' hm hc),
    fun c dst n' x hm hc => hsent (h.accepts c dst n' x hm hc), fun _ dst n' x hm => ?_,
    fun hne => absurd rfl hne, fun hne => absurd rfl hne, fun hne => absurd rfl hne, fun _ => hlow,
    fun _ q _ rep hm => ?_⟩
  · exact hnew _ hm rfl
  · exact absurd rfl (hnew _ hm)

end

end Cmu440.Paxos
