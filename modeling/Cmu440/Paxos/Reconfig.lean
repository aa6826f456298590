import Cmu440.Paxos.Admin
import Cmu440.Paxos.Rounds

/-!
# Reconfiguration

A `Site` is a world together with one administrator, who runs `AddPeer` and
`RemovePeer` one after another, each after the previous one returned `nil`.
Each of its calls is handled and answered (`reach`), handled with the answer
lost (`lost`), or never handled (`miss`); a peer that was killed remotely has
closed its listener and is not reached. `SyncPaxosValue` on an undecided slot
has the peer run `startHelper` with a `NoOp`, and the administrator waits for
that run (`spawn`, `synced`) or loses the connection. Between these steps the
world goes on; `Start` refuses while the peer is locked. A request that was on
its way when a listener closed may still be handled.

`RemovePeer` goes on when peers are unreachable, so two removals can leave a
peer with the list `[A]` while another still counts with `[A, B, C]`
(`splitBrain`). Agreement on a slot holds when its rounds are begun with lists
of one family of pairwise overlapping lists, no round on it is under way at a
peer that handles `UpdatePeers`, and `Put` does not lower the numbers of the
slot (`tame`).
-/
namespace Cmu440.Paxos

open Ballot

variable {H V : Type}

inductive Phase (H V : Type)
  | idle
  | run (p : Admin H V (Outcome Unit))
  | sync (srv : H) (slotNum : Int) (j : Nat)
      (k : Option (SyncPaxosValueReply V) → Admin H V (Outcome Unit))
  | stopped

structure Site (H V : Type) where
  world : World H V
  phase : Phase H V

inductive SiteLbl (H V : Type)
  | world (l : Lbl H V)
  | addPeer (peers : List H) (p : H)
  | removePeer (peers : List H) (p : H)
  | reach
  | lost
  | miss
  | order (keys : List H)
  | spawn
  | synced
  | finish
  deriving DecidableEq, Repr

/-- The members of `L` were made with `L`; every other process was started on
its own, as tests/addpaxostest.sh starts the peer to be added. -/
def World.launch [DecidableEq H] (L : List H) : World H V :=
  ⟨fun p => if p ∈ L then .make L (L.idxOf p) else .make [p] 0, [], []⟩

namespace Ask

def srv : Ask H V → Option H
  | .setLock p _ | .checkStatus p | .minUndecidedSlot p | .maxDecidedSlot p | .syncPaxosValue p _
  | .updatePeers p _ _ | .put p _ _ _ _ | .remoteKill p => some p
  | .range _ => none

/-- What the handler does to the world. -/
def effect [DecidableEq H] (w : World H V) : Ask H V → World H V
  | .setLock p b => { w with peer := Function.update w.peer p ((w.peer p).setLock b) }
  | .updatePeers p l me =>
    { w with peer := Function.update w.peer p ((w.peer p).updatePeers l me) }
  | .put p s x na nh => { w with peer := Function.update w.peer p ((w.peer p).put s x na nh).1 }
  | .remoteKill p => { w with peer := Function.update w.peer p (w.peer p).remoteKill }
  | .minUndecidedSlot p => { w with peer := Function.update w.peer p (w.peer p).minUndecided.1 }
  | .checkStatus _ | .maxDecidedSlot _ | .syncPaxosValue _ _ | .range _ => w

/-- What the handler replies. -/
def reply (w : World H V) : (q : Ask H V) → Ans q
  | .setLock _ _ | .remoteKill _ => true
  | .checkStatus p => some (w.peer p).peers
  | .minUndecidedSlot p => some (.ok, (w.peer p).minUndecided.2)
  | .maxDecidedSlot p => some (.ok, (w.peer p).maxDecidedSlot)
  | .syncPaxosValue p s => (w.peer p).syncPaxosValue s
  | .updatePeers _ _ _ => some .ok
  | .put p s x na nh => some ((w.peer p).put s x na nh).2
  | .range l => l

/-- What the program sees of a failed call. -/
def failed : (q : Ask H V) → Ans q
  | .setLock _ _ | .remoteKill _ => false
  | .checkStatus _ | .minUndecidedSlot _ | .maxDecidedSlot _ | .syncPaxosValue _ _
  | .updatePeers _ _ _ | .put _ _ _ _ _ => none
  | .range l => l

/-- The handler returns at once. -/
def ready (w : World H V) : Ask H V → Bool
  | .syncPaxosValue p s => (w.slot p s).isDecided
  | .range _ => false
  | _ => true

/-- The call is to a peer that still listens. -/
def listening (w : World H V) (q : Ask H V) : Bool :=
  match q.srv with
  | some p => !(w.peer p).deaf
  | none => false

end Ask

/-- `Start` returns an error while the peer is locked. -/
def World.unlocked (w : World H V) : Lbl H V → Bool
  | .start p _ _ => !(w.peer p).isLocked
  | _ => true

namespace Site

variable [LinearOrder H] [ToString H] [DecidableEq V] (noOp : Option V)

def step (c : Site H V) : SiteLbl H V → Option (Site H V)
  | .world l =>
    if c.world.unlocked l then (c.world.step l).map fun w => { c with world := w } else none
  | .addPeer peers p =>
    match c.phase with
    | .idle => some { c with phase := .run (Paxos.addPeer peers p) }
    | _ => none
  | .removePeer peers p =>
    match c.phase with
    | .idle => some { c with phase := .run (Paxos.removePeer peers p) }
    | _ => none
  | .reach =>
    match c.phase with
    | .run (.call q k) =>
      if q.listening c.world && q.ready c.world then
        some ⟨q.effect c.world, .run (k (q.reply c.world))⟩
      else none
    | _ => none
  | .lost =>
    match c.phase with
    | .run (.call q k) =>
      if q.listening c.world && q.ready c.world then some ⟨q.effect c.world, .run (k q.failed)⟩
      else none
    | _ => none
  | .miss =>
    match c.phase with
    | .run (.call q k) => if q.srv.isSome then some { c with phase := .run (k q.failed) } else none
    | .sync _ _ _ k => some { c with phase := .run (k none) }
    | _ => none
  | .order keys =>
    match c.phase with
    | .run (.call (.range l) k) =>
      if keys.isPerm l then some { c with phase := .run (k keys) } else none
    | _ => none
  | .spawn =>
    match c.phase with
    | .run (.call (.syncPaxosValue p s) k) =>
      if Ask.listening c.world (.syncPaxosValue p s) && !(c.world.slot p s).isDecided then
        (c.world.step (.start p s noOp)).map fun w => ⟨w, .sync p s c.world.runs.length k⟩
      else none
    | _ => none
  | .synced =>
    match c.phase with
    | .sync p s j k =>
      if c.world.runs[j]?.map (·.pc) = some .returned then
        some { c with phase := .run (k ((c.world.peer p).syncPaxosValue s)) }
      else none
    | _ => none
  | .finish =>
    match c.phase with
    | .run (.ret (.ok ())) => some { c with phase := .idle }
    | .run (.ret _) => some { c with phase := .stopped }
    | _ => none

def init (L : List H) : Site H V := ⟨World.launch L, .idle⟩

/-- What a step of `Site` can do, one constructor for each branch that is taken. -/
inductive Moves : Site H V → SiteLbl H V → Site H V → Prop
  | world {w w' : World H V} {l : Lbl H V} (ph : Phase H V) (hu : w.unlocked l = true)
      (hs : w.step l = some w') : Moves ⟨w, ph⟩ (.world l) ⟨w', ph⟩
  | addPeer (w : World H V) (peers : List H) (p : H) :
      Moves ⟨w, .idle⟩ (.addPeer peers p) ⟨w, .run (Paxos.addPeer peers p)⟩
  | removePeer (w : World H V) (peers : List H) (p : H) :
      Moves ⟨w, .idle⟩ (.removePeer peers p) ⟨w, .run (Paxos.removePeer peers p)⟩
  | reach {w : World H V} {q : Ask H V} (k : Ans q → Admin H V (Outcome Unit))
      (hl : q.listening w = true) (hr : q.ready w = true) :
      Moves ⟨w, .run (.call q k)⟩ .reach ⟨q.effect w, .run (k (q.reply w))⟩
  | lost {w : World H V} {q : Ask H V} (k : Ans q → Admin H V (Outcome Unit))
      (hl : q.listening w = true) (hr : q.ready w = true) :
      Moves ⟨w, .run (.call q k)⟩ .lost ⟨q.effect w, .run (k q.failed)⟩
  | miss (w : World H V) (q : Ask H V) (k : Ans q → Admin H V (Outcome Unit))
      (hq : q.srv.isSome = true) : Moves ⟨w, .run (.call q k)⟩ .miss ⟨w, .run (k q.failed)⟩
  | broken (w : World H V) (p : H) (s : Int) (j : Nat)
      (k : Option (SyncPaxosValueReply V) → Admin H V (Outcome Unit)) :
      Moves ⟨w, .sync p s j k⟩ .miss ⟨w, .run (k none)⟩
  | order (w : World H V) {l keys : List H} (k : List H → Admin H V (Outcome Unit))
      (hk : keys.isPerm l = true) :
      Moves ⟨w, .run (.call (.range l) k)⟩ (.order keys) ⟨w, .run (k keys)⟩
  | spawn {w w' : World H V} {p : H} {s : Int}
      (k : Option (SyncPaxosValueReply V) → Admin H V (Outcome Unit))
      (hl : (w.peer p).deaf = false) (hd : (w.slot p s).isDecided = false)
      (hs : w.step (.start p s noOp) = some w') :
      Moves ⟨w, .run (.call (.syncPaxosValue p s) k)⟩ .spawn ⟨w', .sync p s w.runs.length k⟩
  | synced {w : World H V} {j : Nat} (p : H) (s : Int)
      (k : Option (SyncPaxosValueReply V) → Admin H V (Outcome Unit))
      (hret : w.runs[j]?.map (·.pc) = some .returned) :
      Moves ⟨w, .sync p s j k⟩ .synced ⟨w, .run (k ((w.peer p).syncPaxosValue s))⟩
  | done (w : World H V) : Moves ⟨w, .run (.ret (.ok ()))⟩ .finish ⟨w, .idle⟩
  | failed (w : World H V) {out : Outcome Unit} (ho : out ≠ .ok ()) :
      Moves ⟨w, .run (.ret out)⟩ .finish ⟨w, .stopped⟩

variable {noOp}

theorem moves_of_step {c c' : Site H V} {l : SiteLbl H V} (hs : c.step noOp l = some c') :
    Moves noOp c l c' := by
  obtain ⟨w, ph⟩ := c
  unfold step at hs
  cases l with
  | world l =>
    simp only at hs
    split at hs
    · obtain ⟨w', hw, rfl⟩ := Option.map_eq_some_iff.mp hs
      exact .world ph ‹_› hw
    · cases hs
  | addPeer peers p =>
    simp only at hs
    split at hs <;> cases hs
    exact .addPeer w peers p
  | removePeer peers p =>
    simp only at hs
    split at hs <;> cases hs
    exact .removePeer w peers p
  | reach =>
    simp only at hs
    split at hs
    · split at hs <;> cases hs
      rename_i hc
      exact .reach _ (Bool.and_eq_true_iff.mp hc).1 (Bool.and_eq_true_iff.mp hc).2
    · cases hs
  | lost =>
    simp only at hs
    split at hs
    · split at hs <;> cases hs
      rename_i hc
      exact .lost _ (Bool.and_eq_true_iff.mp hc).1 (Bool.and_eq_true_iff.mp hc).2
    · cases hs
  | miss =>
    simp only at hs
    split at hs
    · split at hs <;> cases hs
      exact .miss w _ _ ‹_›
    · cases hs
      exact .broken w _ _ _ _
    · cases hs
  | order keys =>
    simp only at hs
    split at hs
    · split at hs <;> cases hs
      exact .order w _ ‹_›
    · cases hs
  | spawn =>
    simp only at hs
    split at hs
    · split at hs
      · rename_i hc
        obtain ⟨w', hw, rfl⟩ := Option.map_eq_some_iff.mp hs
        simp only [Bool.and_eq_true, Bool.not_eq_true', Ask.listening, Ask.srv] at hc
        exact .spawn _ hc.1 hc.2 hw
      · cases hs
    · cases hs
  | synced =>
    simp only at hs
    split at hs
    · split at hs <;> cases hs
      exact .synced _ _ _ ‹_›
    · cases hs
  | finish =>
    simp only at hs
    split at hs
    · cases hs
      exact .done w
    · rename_i ho
      cases hs
      exact .failed w ho
    · cases hs

end Site

section
variable [LinearOrder H] [ToString H] [DecidableEq V]

/-- Every interleaving of the administrator's calls with the rounds. -/
def administered (noOp : Option V) (L : List H) : LTS (Site H V) (SiteLbl H V) :=
  .ofFn (· = Site.init L) (Site.step noOp)

end

/-! ## The condition -/

/-- What may be handled while slot `s` is to stay in agreement: `UpdatePeers`
at a peer with no round on the slot under way, and a `Put` that does not lower
the numbers of an undecided slot. -/
def Ask.tame (s : Int) (w : World H V) : Ask H V → Prop
  | .updatePeers p _ _ => ∀ r ∈ w.runs, r.px = p → r.slotNum = s → r.pc.midRound = false
  | .put p s' _ na nh => s' = s → (w.slot p s).isDecided = false →
      (w.slot p s).seqNumAccepted ≤ na ∧ (w.slot p s).seqNumHighest ≤ nh
  | _ => True

/-- The call the administrator is about to make. -/
def Phase.asks : Phase H V → Option (Ask H V)
  | .run (.call q _) => some q
  | _ => none

/-- A round on slot `s` begins with a duplicate-free list of the family `F`,
and what is handled is tame for `s`. -/
def Site.tame (F : List H → Prop) (s : Int) (c : Site H V) : SiteLbl H V → Prop
  | .world (.top j _) => ∀ r ∈ c.world.runs[j]?, r.slotNum = s →
      F (c.world.peer r.px).peers ∧ (c.world.peer r.px).peers.Nodup
  | .reach | .lost => ∀ q ∈ c.phase.asks, q.tame s c.world
  | _ => True

section
variable [DecidableEq H]

instance (s : Int) (w : World H V) : (q : Ask H V) → Decidable (q.tame s w)
  | .updatePeers p _ _ => inferInstanceAs
      (Decidable (∀ r ∈ w.runs, r.px = p → r.slotNum = s → r.pc.midRound = false))
  | .put p s' _ na nh => inferInstanceAs
      (Decidable (s' = s → (w.slot p s).isDecided = false →
        (w.slot p s).seqNumAccepted ≤ na ∧ (w.slot p s).seqNumHighest ≤ nh))
  | .setLock .. | .checkStatus _ | .minUndecidedSlot _ | .maxDecidedSlot _ | .syncPaxosValue ..
  | .remoteKill _ | .range _ => isTrue trivial

instance (F : List H → Prop) [DecidablePred F] (s : Int) (c : Site H V) :
    (l : SiteLbl H V) → Decidable (c.tame F s l)
  | .world (.top j _) => inferInstanceAs
      (Decidable (∀ r ∈ c.world.runs[j]?, r.slotNum = s →
        F (c.world.peer r.px).peers ∧ (c.world.peer r.px).peers.Nodup))
  | .reach | .lost => inferInstanceAs (Decidable (∀ q ∈ c.phase.asks, q.tame s c.world))
  | .world (.start ..) | .world (.go _) | .world (.recvPrepare ..) | .world (.recvAccept ..)
  | .world (.fail ..) | .world (.deliver _) | .addPeer .. | .removePeer .. | .miss | .order _
  | .spawn | .synced | .finish => isTrue trivial

end

section
variable [LinearOrder H] [ToString H] [DecidableEq V]

def tamedStep (noOp : Option V) (F : List H → Prop) [DecidablePred F] (s : Int) :
    Site H V → SiteLbl H V → Option (Site H V) :=
  LTS.guarded (fun c l => decide (c.tame F s l)) (Site.step noOp)

def tamed (noOp : Option V) (L : List H) (F : List H → Prop) [DecidablePred F] (s : Int) :
    LTS (Site H V) (SiteLbl H V) :=
  .ofFn (· = Site.init L) (tamedStep noOp F s)

end

/-! ## Handlers of the administrator -/

section
variable [DecidableEq H] {F : List H → Prop} {hF : ∀ L L', F L → F L' → Overlap L L'} {s : Int}
  {w : World H V} {t : St H (Option V)}

/-- A peer changes, but not in slot `s`; its list may only change when none of
its rounds on the slot is under way. -/
theorem Rel.setPeer (h : Rel F hF s w t) {p : H} {px : Peer H V}
    (hslot : px.getTimeSlotValue s = w.slot p s) (hlist : (w.peer p).SameList px ∨
      ∀ r ∈ w.runs, r.px = p → r.slotNum = s → r.pc.midRound = false) :
    Rel F hF s { w with peer := Function.update w.peer p px } t := by
  have hget : ∀ p', World.slot { w with peer := Function.update w.peer p px } p' s = w.slot p' s :=
    update_slot hslot
  refine ⟨?_, ?_, ?_, ?_, h.promised, h.once, h.accept, h.accepted, h.decide, ?_, h.owner, h.valid⟩
  · intro p'; rw [hget]; exact h.floor p'
  · intro p'; rw [hget]; exact h.nonneg p'
  · intro p'; rw [hget]; exact h.votes p'
  · intro p'; rw [hget]; exact h.known p'
  · intro j r hj hs
    have hrel := h.run j r hj hs
    by_cases hp : r.px = p
    · rcases hlist with hlist | hmid
      · rw [← hp] at hlist ⊢
        simp only [Function.update_self]
        exact hrel.mono (fun _ hm => hm) (Ext.refl t) hlist
      · exact hrel.of_not_midRound (hmid r (List.mem_of_getElem? hj) hp hs)
    · simp only [Function.update_of_ne hp]
      exact hrel

/-- What a reply of `SyncPaxosValue` for the slot guarantees for good. -/
def Told (q : QuorumSystem H) (t : St H (Option V)) (rep : SyncPaxosValueReply V) : Prop :=
  0 ≤ rep.seqNumAccepted ∧ (0 < rep.seqNumAccepted → Known q t rep.seqNumAccepted rep.syncedValue)

omit [DecidableEq H] in
theorem Told.mono {q : QuorumSystem H} {t t' : St H (Option V)} (he : Ext t t')
    {rep : SyncPaxosValueReply V} (h : Told q t rep) : Told q t' rep :=
  ⟨h.1, fun hk => (h.2 hk).mono he⟩

omit [DecidableEq H] in
theorem Rel.told (h : Rel F hF s w t) {p : H} {rep : SyncPaxosValueReply V}
    (hrep : (w.peer p).syncPaxosValue s = some rep) :
    Told (majorities F hF) t rep := by
  simp only [Peer.syncPaxosValue] at hrep
  split at hrep
  · cases hrep
    exact ⟨h.nonneg p, h.known p⟩
  · cases hrep

/-- `Put` of a reply for the slot raises the floor of the peer. -/
theorem rel_put (h : Rel F hF s w t) (p : H) (s' : Int) (x : Option V) (na nh : Int) (st : Status)
    (htold : s' = s → Told (majorities F hF) t ⟨st, x, na, nh⟩)
    (htame : Ask.tame s w (.put p s' x na nh)) :
    ∃ ls t', (lts (majorities F hF)).Run t ls t' ∧
      Rel F hF s (Ask.effect w (.put p s' x na nh)) t' := by
  have hframe := (Peer.put_frame (w.peer p) s' x na nh).list
  by_cases hs : s' = s
  · subst hs
    rcases Peer.put_cases (w.peer p) s' x na nh with ⟨hund, hslot⟩ | hslot
    · obtain ⟨hna, hnh⟩ := htame rfl hund
      have hle : t.floor p ≤ nh := by rw [h.floor p]; exact hnh
      have he : Ext t (raised t p nh) := ext_raised hle
      have hself : (Ask.effect w (.put p s' x na nh)).slot p s' = ⟨x, true, na, nh⟩ := by
        simpa [World.slot, Ask.effect] using hslot
      have hother : ∀ p', p' ≠ p →
          (Ask.effect w (.put p s' x na nh)).slot p' s' = w.slot p' s' := by
        intro p' hp
        simp [World.slot, Ask.effect, Function.update_of_ne hp]
      have hpeer : ∀ p', (w.peer p').SameList ((Ask.effect w (.put p s' x na nh)).peer p') :=
        fun p' => (Peer.update_frame (Peer.put_frame (w.peer p) s' x na nh) p').list
      refine ⟨[.raise p nh], raised t p nh, .single ⟨hle, rfl⟩, ?_⟩
      refine h.extend he rfl rfl hpeer (.inl rfl) ?_ ?_ ?_ ?_ <;> intro p' <;> by_cases hp : p' = p
      · subst hp; rw [hself]; simp [raised]
      · rw [hother p' hp]; simp only [raised, Function.update_of_ne hp]; exact h.floor p'
      · subst hp; rw [hself]; exact (htold rfl).1
      · rw [hother p' hp]; exact h.nonneg p'
      · subst hp; rw [hself]; exact fun b hv => le_trans (h.votes p' b hv) hna
      · rw [hother p' hp]; exact h.votes p'
      · subst hp; rw [hself]; exact fun hk => ((htold rfl).2 hk).mono he
      · rw [hother p' hp]; exact fun hk => (h.known p' hk).mono he
    · exact ⟨[], t, .nil t, h.setPeer hslot (.inl hframe)⟩
  · exact ⟨[], t, .nil t, h.setPeer (Peer.put_get_ne _ _ _ _ (Ne.symm hs)) (.inl hframe)⟩

/-- Any admitted and tame call of the administrator. -/
theorem rel_effect (h : Rel F hF s w t) {g : Heard V}
    (hg : ∀ rep, g s rep → Told (majorities F hF) t rep) (q : Ask H V) (hadm : admitted g q)
    (htame : q.tame s w) :
    ∃ ls t', (lts (majorities F hF)).Run t ls t' ∧ Rel F hF s (q.effect w) t' := by
  cases q with
  | setLock p b => exact ⟨[], t, .nil t, h.setPeer rfl (.inl ⟨rfl, rfl⟩)⟩
  | remoteKill p => exact ⟨[], t, .nil t, h.setPeer rfl (.inl ⟨rfl, rfl⟩)⟩
  | minUndecidedSlot p => exact ⟨[], t, .nil t, h.setPeer rfl (.inl ⟨rfl, rfl⟩)⟩
  | updatePeers p l me => exact ⟨[], t, .nil t, h.setPeer rfl (.inr htame)⟩
  | put p s' x na nh =>
    obtain ⟨st, hst⟩ := hadm
    refine rel_put h p s' x na nh st (fun hs => ?_) htame
    subst hs
    exact hg _ hst
  | checkStatus p | maxDecidedSlot p | syncPaxosValue p s' | range l =>
    exact ⟨[], t, .nil t, h⟩

/-- Each peer stands in its own list at `me`. -/
def SelfListed (w : World H V) : Prop := ∀ p, (w.peer p).peers[(w.peer p).me]? = some p

theorem selfListed_effect (h : SelfListed w) {g : Heard V} (q : Ask H V) (hadm : admitted g q) :
    SelfListed (q.effect w) := by
  have hset : ∀ p px, px.peers[px.me]? = some p →
      SelfListed { w with peer := Function.update w.peer p px } := by
    intro p px hpx p'
    by_cases hp : p' = p
    · subst hp; simp only [Function.update_self]; exact hpx
    · simp only [Function.update_of_ne hp]; exact h p'
  cases q with
  | setLock p b => exact hset p _ (h p)
  | remoteKill p => exact hset p _ (h p)
  | minUndecidedSlot p => exact hset p _ (h p)
  | updatePeers p l me => exact hset p _ hadm
  | put p s' x na nh =>
    obtain ⟨h₁, h₂, -⟩ := Peer.put_frame (w.peer p) s' x na nh
    exact hset p _ (by rw [h₁, h₂]; exact h p)
  | checkStatus p | maxDecidedSlot p | syncPaxosValue p s' | range l => exact h

omit [DecidableEq H] in
theorem learn_failed (g : Heard V) (q : Ask H V) : learn g q q.failed = g := by
  cases q <;> rfl

omit [DecidableEq H] in
theorem told_learn (h : Rel F hF s w t) {g : Heard V}
    (hg : ∀ rep, g s rep → Told (majorities F hF) t rep) (q : Ask H V) :
    ∀ rep, learn g q (q.reply w) s rep → Told (majorities F hF) t rep := by
  intro rep hrep
  cases q with
  | syncPaxosValue p s' =>
    simp only [Ask.reply] at hrep
    cases hsync : (w.peer p).syncPaxosValue s' with
    | none => rw [hsync] at hrep; exact hg rep hrep
    | some rep' =>
      rw [hsync] at hrep
      rcases hrep with hrep | ⟨rfl, rfl⟩
      · exact hg rep hrep
      · exact h.told hsync
  | setLock | remoteKill | minUndecidedSlot | updatePeers | put | checkStatus | maxDecidedSlot
  | range => exact hg rep hrep

end

/-! ## The simulation -/

section
variable (F : List H → Prop) (hF : ∀ L L', F L → F L' → Overlap L L') (s : Int)

/-- What remains of the administrator's program asks only what is admitted. -/
def Phase.sound (g : Heard V) : Phase H V → Prop
  | .idle | .stopped => True
  | .run p => Prog.wp admitted learn g p fun _ _ => True
  | .sync p s _ k => ∀ rep, Prog.wp admitted learn (learn g (.syncPaxosValue p s) rep) (k rep)
      fun _ _ => True

structure Keeps (c : Site H V) (t : St H (Option V)) : Prop where
  rel : Rel F hF s c.world t
  inv : Inv (majorities F hF) t
  self : SelfListed c.world
  phase : ∃ g, (∀ rep, g s rep → Told (majorities F hF) t rep) ∧ c.phase.sound g

end

section
variable {F : List H → Prop} {hF : ∀ L L', F L → F L' → Overlap L L'} {s : Int}
  {c c' : Site H V} {t : St H (Option V)}

/-- The program goes on without any peer being touched. -/
theorem Keeps.setPhase (h : Keeps F hF s c t) {ph : Phase H V}
    (hph : ∃ g, (∀ rep, g s rep → Told (majorities F hF) t rep) ∧ ph.sound g) :
    Keeps F hF s { c with phase := ph } t :=
  ⟨h.rel, h.inv, h.self, hph⟩

variable [LinearOrder H]

theorem keeps_init (L : List H) : Keeps F hF s (Site.init L : Site H V) empty := by
  refine ⟨rel_empty (fun p => ?_) rfl rfl, inv_empty _, fun p => ?_, fun _ _ => False,
    fun _ h => h.elim, trivial⟩
  · simp only [World.slot, Site.init, World.launch]
    split <;> rfl
  · simp only [Site.init, World.launch]
    split
    · rename_i hp; exact List.getElem?_idxOf hp
    · rfl

/-- A call is handled; `r` is what the program sees of it. -/
theorem keeps_handled (h : Keeps F hF s c t) {q : Ask H V} {k : Ans q → Admin H V (Outcome Unit)}
    (hphase : c.phase = .run (.call q k)) (htame : q.tame s c.world) (r : Ans q)
    (hr : r = q.reply c.world ∨ r = q.failed) :
    ∃ ls t', (lts (majorities F hF)).Run t ls t' ∧
      Keeps F hF s ⟨q.effect c.world, .run (k r)⟩ t' := by
  obtain ⟨g, hg, hsound⟩ := h.phase
  rw [hphase] at hsound
  obtain ⟨hadm, hk⟩ := hsound
  obtain ⟨ls, t', hrun, hrel⟩ := rel_effect h.rel hg q hadm htame
  have he := ext_run _ hrun
  refine ⟨ls, t', hrun, hrel, hrun.invariant (inv_inductive _).step h.inv,
    selfListed_effect h.self q hadm, learn g q r, fun rep hrep => Told.mono he ?_, hk r⟩
  rcases hr with rfl | rfl
  · exact told_learn h.rel hg q rep hrep
  · rw [learn_failed] at hrep; exact hg rep hrep

variable [DecidableEq V]

theorem keeps_world (h : Keeps F hF s c t) {l : Lbl H V} {w' : World H V}
    (htame : c.tame F s (.world l)) (hs : c.world.step l = some w') :
    ∃ ls t', (lts (majorities F hF)).Run t ls t' ∧ Keeps F hF s { c with world := w' } t' := by
  have htop : TopOk F s c.world l := by
    rintro j n r rfl hj hslot
    obtain ⟨h₁, h₂⟩ := htame r hj hslot
    exact ⟨h₁, h₂, h.self r.px⟩
  obtain ⟨ls, t', hrun, hrel⟩ := rel_step h.rel h.inv htop hs
  obtain ⟨g, hg, hphase⟩ := h.phase
  refine ⟨ls, t', hrun, hrel, hrun.invariant (inv_inductive _).step h.inv, fun p => ?_, g,
    fun rep hr => (hg rep hr).mono (ext_run _ hrun), hphase⟩
  obtain ⟨h₁, h₂, -⟩ := step_frame hs p
  rw [h₁, h₂]
  exact h.self p

variable [ToString H] {noOp : Option V}

theorem keeps_step {l : SiteLbl H V} (h : Keeps F hF s c t) (htame : c.tame F s l)
    (hs : c.step noOp l = some c') :
    ∃ ls t', (lts (majorities F hF)).Run t ls t' ∧ Keeps F hF s c' t' := by
  obtain ⟨g, hg, hsound⟩ := h.phase
  cases Site.moves_of_step hs with
  | world ph _ hw => exact keeps_world h htame hw
  | addPeer _ peers p => exact ⟨[], t, .nil t, h.setPhase ⟨g, hg, addPeer_sound peers p g⟩⟩
  | removePeer _ peers p => exact ⟨[], t, .nil t, h.setPhase ⟨g, hg, removePeer_sound peers p g⟩⟩
  | reach k => exact keeps_handled h rfl (htame _ rfl) _ (.inl rfl)
  | lost k => exact keeps_handled h rfl (htame _ rfl) _ (.inr rfl)
  | miss _ q k =>
    have hk := hsound.2 q.failed
    rw [learn_failed] at hk
    exact ⟨[], t, .nil t, h.setPhase ⟨g, hg, hk⟩⟩
  | broken => exact ⟨[], t, .nil t, h.setPhase ⟨g, hg, hsound none⟩⟩
  | order => exact ⟨[], t, .nil t, h.setPhase ⟨g, hg, hsound.2 _⟩⟩
  | spawn k _ _ hw =>
    obtain ⟨ls, t', hrun, h'⟩ := keeps_world h (l := .start _ _ noOp) trivial hw
    obtain ⟨g', hg', hsound'⟩ := h'.phase
    exact ⟨ls, t', hrun, h'.setPhase ⟨g', hg', hsound'.2⟩⟩
  | synced p s' =>
    exact ⟨[], t, .nil t, h.setPhase ⟨_, told_learn h.rel hg (.syncPaxosValue p s'), hsound _⟩⟩
  | done | failed => exact ⟨[], t, .nil t, h.setPhase ⟨g, hg, trivial⟩⟩

theorem tamed_simulates (noOp : Option V) (L : List H) (F : List H → Prop) [DecidablePred F]
    (hF : ∀ L L', F L → F L' → Overlap L L') (s : Int) :
    LTS.Simulation (tamed noOp L F s) (lts (majorities F hF)) (Keeps F hF s) where
  init := by
    rintro c rfl
    exact ⟨empty, rfl, keeps_init L⟩
  step := by
    intro c t l c' h hs
    obtain ⟨htame, hs⟩ := LTS.guarded_eq_some.mp hs
    exact keeps_step h (of_decide_eq_true htame) hs

end

/-- When the rounds on slot `s` are begun with duplicate-free lists of one
family of pairwise overlapping lists, no round on `s` is under way at a peer
that handles `UpdatePeers`, and `Put` never lowers the numbers of an undecided
slot `s`, runs in their decide phases for `s` carry one value, whatever the
administrator adds and removes and whoever it reaches. -/
theorem agreement_under_overlapping_lists [LinearOrder H] [ToString H] [DecidableEq V]
    (noOp : Option V) (L : List H) (F : List H → Prop) [DecidablePred F]
    (hF : ∀ L₁ L₂, F L₁ → F L₂ → Overlap L₁ L₂) (s : Int) (c : Site H V)
    (hc : (tamed noOp L F s).Reachable c) (r₁ r₂ : Run H V) (h₁ : r₁ ∈ c.world.runs)
    (h₂ : r₂ ∈ c.world.runs) (hs₁ : r₁.slotNum = s) (hs₂ : r₂.slotNum = s) (hd₁ : r₁.Decides)
    (hd₂ : r₂.Decides) : r₁.proposeValue = r₂.proposeValue := by
  obtain ⟨t, -, h⟩ := (tamed_simulates noOp L F hF s).reachable c hc
  exact h.rel.agree h.inv h₁ h₂ hs₁ hs₂ hd₁ hd₂

/-! ## Two removals that split the cluster -/

/-- Peer `0` decides 5 for slot `0` with peer `1`. -/
def slotZero : List (SiteLbl Nat Nat) :=
  [.start 0 0 (some 5), .top 0 3, .go 0, .go 0, .go 0, .go 0, .deliver (.prepare 0 0 1 0 3),
   .recvPrepare 0 0 ⟨.ok, 0, none, 0⟩, .recvPrepare 0 1 ⟨.ok, 0, none, 0⟩, .go 0,
   .go 0, .go 0, .go 0, .go 0, .deliver (.accept 0 0 1 0 3 (some 5)),
   .recvAccept 0 0 ⟨.ok, 0⟩, .recvAccept 0 1 ⟨.ok, 0⟩, .go 0, .go 0].map .world

/-- `RemovePeer([0, 1, 2], 2)`, with peers `1` and `2` unreachable. -/
def removeTwo : List (SiteLbl Nat Nat) :=
  [.removePeer [0, 1, 2] 2, .reach, .miss, .miss, .miss, .reach, .miss, .miss, .order [0], .reach,
   .reach, .reach, .reach, .miss, .reach, .finish]

/-- `RemovePeer([0, 1], 1)`, with peer `1` unreachable. -/
def removeOne : List (SiteLbl Nat Nat) :=
  [.removePeer [0, 1] 1, .reach, .miss, .miss, .reach, .miss, .order [0], .reach, .reach, .reach,
   .reach, .reach, .finish]

/-- Peer `0`, whose list is `[0]`, decides 10 for slot `1` on its own; peer `1`,
whose list is still `[0, 1, 2]`, decides 20 with peer `2`. -/
def bothSides : List (SiteLbl Nat Nat) :=
  [.start 0 1 (some 10), .top 1 7, .go 1, .go 1, .recvPrepare 1 0 ⟨.ok, 0, none, 0⟩, .go 1,
   .go 1, .go 1, .recvAccept 1 0 ⟨.ok, 0⟩, .go 1,
   .start 1 1 (some 20), .top 2 4, .go 2, .go 2, .go 2, .go 2, .deliver (.prepare 2 0 2 1 4),
   .recvPrepare 2 1 ⟨.ok, 0, none, 0⟩, .recvPrepare 2 2 ⟨.ok, 0, none, 0⟩, .go 2,
   .go 2, .go 2, .go 2, .go 2, .deliver (.accept 2 0 2 1 4 (some 20)),
   .recvAccept 2 1 ⟨.ok, 0⟩, .recvAccept 2 2 ⟨.ok, 0⟩, .go 2].map .world

def splitBrain : Site Nat Nat :=
  LTS.execD (Site.step (some 0)) (Site.init [0, 1, 2])
    (slotZero ++ removeTwo ++ removeOne ++ bothSides)

/-- Both removals returned `nil`, and two runs decide 10 and 20 for one slot. -/
theorem removals_break_agreement :
    (administered (some 0) [0, 1, 2]).Reachable splitBrain ∧
    ∃ r₁ ∈ splitBrain.world.runs, ∃ r₂ ∈ splitBrain.world.runs,
      r₁.slotNum = r₂.slotNum ∧ r₁.Decides ∧ r₂.Decides ∧
      r₁.proposeValue = some 10 ∧ r₂.proposeValue = some 20 :=
  ⟨⟨_, _, rfl, LTS.run_execD (by decide +kernel)⟩, by decide +kernel⟩

/-- After one removal peer `0` counts with `[0, 1]` and peer `1` with
`[0, 1, 2]`; both decide what peer `0` proposed for slot `1`. -/
def oneBehind : List (SiteLbl Nat Nat) :=
  [.start 0 1 (some 10), .top 1 7, .go 1, .go 1, .go 1, .deliver (.prepare 1 0 1 1 7),
   .recvPrepare 1 0 ⟨.ok, 0, none, 0⟩, .recvPrepare 1 1 ⟨.ok, 0, none, 0⟩, .go 1,
   .go 1, .go 1, .go 1, .deliver (.accept 1 0 1 1 7 (some 10)),
   .recvAccept 1 0 ⟨.ok, 0⟩, .recvAccept 1 1 ⟨.ok, 0⟩, .go 1,
   .start 1 1 (some 20), .top 2 10, .go 2, .go 2, .go 2, .go 2, .deliver (.prepare 2 0 2 1 10),
   .recvPrepare 2 1 ⟨.ok, 7, some 10, 0⟩, .recvPrepare 2 2 ⟨.ok, 0, none, 0⟩, .go 2,
   .go 2, .go 2, .go 2, .go 2, .deliver (.accept 2 0 2 1 10 (some 10)),
   .recvAccept 2 1 ⟨.ok, 0⟩, .recvAccept 2 2 ⟨.ok, 0⟩, .go 2].map .world

/-- The two lists in use, one removal apart. -/
def oldOrNew (l : List Nat) : Prop := l = [0, 1, 2] ∨ l = [0, 1]

instance : DecidablePred oldOrNew := fun l => inferInstanceAs (Decidable (l = _ ∨ l = _))

theorem oldOrNew_overlap (L₁ L₂ : List Nat) (h₁ : oldOrNew L₁) (h₂ : oldOrNew L₂) :
    Overlap L₁ L₂ := by
  rcases h₁ with rfl | rfl <;> rcases h₂ with rfl | rfl
  · exact overlap_self _
  · exact (overlap_of_subset (by decide) (by decide)).symm
  · exact overlap_of_subset (by decide) (by decide)
  · exact overlap_self _

def oneRemoved : Site Nat Nat :=
  LTS.execD (tamedStep (some 0) oldOrNew 1) (Site.init [0, 1, 2])
    (slotZero ++ removeTwo ++ oneBehind)

def newListRun : Run Nat Nat := ⟨0, 1, some 10, .sendDecide, 0, 7, 0, 2, some 10, 0, 0, []⟩

def oldListRun : Run Nat Nat := ⟨1, 1, some 20, .sendDecide, 0, 10, 0, 2, some 10, 7, 0, [0]⟩

theorem agreement_after_one_removal :
    newListRun ∈ oneRemoved.world.runs ∧ oldListRun ∈ oneRemoved.world.runs ∧
      newListRun.proposeValue = oldListRun.proposeValue :=
  ⟨by decide +kernel, by decide +kernel,
    agreement_under_overlapping_lists (some 0) [0, 1, 2] oldOrNew oldOrNew_overlap 1 oneRemoved
      ⟨_, slotZero ++ removeTwo ++ oneBehind, rfl, LTS.run_execD (by decide +kernel)⟩
      newListRun oldListRun (by decide +kernel) (by decide +kernel) rfl rfl (by decide)
      (by decide)⟩

end Cmu440.Paxos
