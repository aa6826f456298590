import Cmu440.Paxos.Agreement

/-!
# What a peer shows of a decided slot

`Decide` marks the slot decided and overwrites its value, but leaves
`seqNumHighest` alone (paxos.go:191-193), and `Accept` does not look at
`isDecided` (paxos.go:169-174; only `Put` does). So a peer that took part in
neither phase of the deciding round still accepts the request of an older
round, and its decided slot takes that round's value: `stale` is such a
schedule on three peers.

`learned L` is the fixed cluster in which an arriving `Decide` finds a peer
that has seen the number of a run that decided the slot, as every peer has that
handled the `Prepare` or the `Accept` of that run before. There a decided slot
never changes: any `Accept` that still passes the check of `seqNumHighest` is
of a ballot at or above the one the value was chosen in (`Shown.accept`). The
condition is on arriving requests only; the peer that decides has always seen
its own number (`Rel.decides`).
-/
namespace Cmu440.Paxos

open Ballot

variable {H V : Type} [DecidableEq H] [DecidableEq V]

/-- An arriving `Decide` finds a peer that has seen the number of a run in its
decide phase for the slot. -/
def World.seesDecider (w : World H V) : Lbl H V → Bool
  | .deliver (.decide p s _) =>
    w.runs.any fun r =>
      decide (r.Decides ∧ r.slotNum = s ∧ r.seqNum ≤ (w.slot p s).seqNumHighest)
  | _ => true

def learnedStep (L : List H) : World H V → Lbl H V → Option (World H V) :=
  LTS.guarded World.seesDecider (fixedStep L)

def learned (L : List H) : LTS (World H V) (Lbl H V) := .ofFn (· = World.init L) (learnedStep L)

/-- A decided slot holds a value chosen in a ballot the peer has seen. -/
def Shown (q : QuorumSystem H) (s : Int) (w : World H V) (t : St H (Option V)) : Prop :=
  ∀ p, (w.slot p s).isDecided = true →
    ∃ b, ChosenAt q t b (w.slot p s).value ∧ b ≤ t.floor p

section
variable {F : List H → Prop} {hF : ∀ L L', F L → F L' → Overlap L L'} {s : Int}
  {w w' : World H V} {t t' : St H (Option V)} {l : Lbl H V}

omit [DecidableEq H] [DecidableEq V] in
/-- The value an `Accept` carries is the value of its ballot. -/
theorem Rel.acceptFrom (h : Rel F hF s w t) {p : H} {n : Int} {x : Option V}
    (hf : AcceptFrom w l p s n x) : t.prop n = some x := by
  rcases hf with ⟨j, c, -, hm⟩ | ⟨j, r, -, hj, hpc, rfl, hs, rfl, rfl⟩
  · exact h.accept j c p n x hm
  · have hrel := h.run j r hj hs
    simp only [RunRel, hpc] at hrel
    exact hrel.2.prop

omit [DecidableEq H] [DecidableEq V] in
/-- The value a `Decide` carries was chosen in a ballot the peer has seen. -/
theorem Rel.decideFrom (h : Rel F hF s w t) (hi : Inv (majorities F hF) t)
    (hsees : w.seesDecider l = true) {p : H} {x : Option V} (hf : DecideFrom w l p s x) :
    ∃ b, ChosenAt (majorities F hF) t b x ∧ b ≤ t.floor p := by
  rcases hf with ⟨rfl, hm⟩ | ⟨j, r, -, hj, hpc, rfl, hs, rfl⟩
  · simp only [World.seesDecider, List.any_eq_true, decide_eq_true_eq] at hsees
    obtain ⟨r, hr, hd, hs, hle⟩ := hsees
    obtain ⟨hc, -⟩ := h.decides hr hs hd
    have hx : x = r.proposeValue := chosen_unique _ hi (h.decide p x hm) ⟨_, hc⟩
    refine ⟨r.seqNum, by rw [hx]; exact hc, ?_⟩
    rw [h.floor p]
    exact hle
  · exact ⟨r.seqNum, h.decides (List.mem_of_getElem? hj) hs (.inl hpc)⟩

omit [DecidableEq H] [DecidableEq V] in
/-- An `Accept` that passes the number check of a decided slot carries the
value that is already there. -/
theorem Shown.accept (h : Rel F hF s w t) (hi : Inv (majorities F hF) t)
    (hshown : Shown (majorities F hF) s w t) {p : H} {n : Int} {x : Option V}
    (hf : AcceptFrom w l p s n x) (hn : (w.slot p s).seqNumHighest ≤ n)
    (hd : (w.slot p s).isDecided = true) : x = (w.slot p s).value := by
  obtain ⟨b, hb, hle⟩ := hshown p hd
  rw [h.floor p] at hle
  exact chosenAt_above _ hi hb (h.acceptFrom hf) (le_trans hle hn)

/-- A step in which an arriving `Decide` finds a peer that has seen the deciding
number keeps every decided slot as it was. -/
theorem Shown.kept (h : Rel F hF s w t) (hi : Inv (majorities F hF) t)
    (hshown : Shown (majorities F hF) s w t) (hsees : w.seesDecider l = true)
    (hstep : w.step l = some w') {p : H} (hd : (w.slot p s).isDecided = true) :
    (w'.slot p s).isDecided = true ∧ (w'.slot p s).value = (w.slot p s).value := by
  cases step_slot hstep p s with
  | same e | promised n hn e => rw [e]; exact ⟨hd, rfl⟩
  | accepted n x hf hn e => rw [e]; exact ⟨hd, hshown.accept h hi hf hn hd⟩
  | decided x hf e =>
    rw [e]
    obtain ⟨b, hb, -⟩ := hshown p hd
    obtain ⟨b', hb', -⟩ := h.decideFrom hi hsees hf
    exact ⟨rfl, chosen_unique _ hi ⟨b', hb'⟩ ⟨b, hb⟩⟩

theorem Shown.step (h : Rel F hF s w t) (hi : Inv (majorities F hF) t)
    (hshown : Shown (majorities F hF) s w t) (hsees : w.seesDecider l = true)
    (hstep : w.step l = some w') (he : Ext t t') : Shown (majorities F hF) s w' t' := by
  intro p hd'
  by_cases hd : (w.slot p s).isDecided = true
  · obtain ⟨b, hb, hle⟩ := hshown p hd
    rw [(hshown.kept h hi hsees hstep hd).2]
    exact ⟨b, hb.mono _ he, le_trans hle (he.floor p)⟩
  · cases step_slot hstep p s with
    | same e | promised n hn e | accepted n x hf hn e => rw [e] at hd'; exact absurd hd' hd
    | decided x hf e =>
      obtain ⟨b, hb, hle⟩ := h.decideFrom hi hsees hf
      rw [e]
      exact ⟨b, hb.mono _ he, le_trans hle (he.floor p)⟩

end

/-- Every slot of a reachable state of the restricted cluster follows ballots
that account for what the peers show. -/
theorem learned_simulates (L : List H) (hL : L.Nodup) (s : Int) :
    LTS.Simulation (learned L) (lts (quorums L))
      fun (w : World H V) t => Follows L s w t ∧ Shown (quorums L) s w t where
  init := by
    rintro w rfl
    refine ⟨empty, rfl, follows_init L s, fun p hd => ?_⟩
    cases hd
  step := by
    rintro w t l w' ⟨h, hshown⟩ hs
    obtain ⟨hsees, hfix⟩ := LTS.guarded_eq_some.mp hs
    obtain ⟨ls, t', hrun, h'⟩ := follows_step hL h hfix
    exact ⟨ls, t', hrun, h',
      hshown.step h.rel h.inv hsees (LTS.guarded_eq_some.mp hfix).2 (ext_run _ hrun)⟩

theorem decided_kept_run (L : List H) (hL : L.Nodup) {w w' : World H V} {ls : List (Lbl H V)}
    (hw : (learned L).Reachable w) (hrun : (learned L).Run w ls w') (p : H) (s : Int)
    (hd : (w.slot p s).isDecided = true) :
    (w'.slot p s).isDecided = true ∧ (w'.slot p s).value = (w.slot p s).value := by
  obtain ⟨w₀, ls₀, h₀, hrun₀⟩ := hw
  induction hrun generalizing ls₀ with
  | nil => exact ⟨hd, rfl⟩
  | cons hstep _ ih =>
    obtain ⟨t, -, h, hshown⟩ := (learned_simulates L hL s).reachable _ ⟨w₀, ls₀, h₀, hrun₀⟩
    obtain ⟨hsees, hfix⟩ := LTS.guarded_eq_some.mp hstep
    obtain ⟨hd₁, hv₁⟩ := hshown.kept h.rel h.inv hsees (LTS.guarded_eq_some.mp hfix).2 hd
    obtain ⟨hd', hv'⟩ := ih hd₁ _ (hrun₀.append (.single hstep))
    exact ⟨hd', hv'.trans hv₁⟩

/-- When each arriving `Decide` finds a peer that has seen the deciding
number: once slot `s` of `p` is decided, every later `Status` and
`SyncPaxosValue` on `p` returns its value, and so does every other peer whose
slot is decided. -/
theorem decided_slot_never_changes (L : List H) (hL : L.Nodup) (w w' : World H V)
    (ls : List (Lbl H V)) (hw : (learned L).Reachable w) (hrun : (learned L).Run w ls w') (p : H)
    (s : Int) (hd : (w.slot p s).isDecided = true) :
    (w'.peer p).status s = some (true, (w.slot p s).value) ∧
    (∃ rep, (w'.peer p).syncPaxosValue s = some rep ∧ rep.status = .ok ∧
      rep.syncedValue = (w.slot p s).value) ∧
    ∀ p', (w'.slot p' s).isDecided = true → (w'.slot p' s).value = (w.slot p s).value := by
  obtain ⟨hd', hv'⟩ := decided_kept_run L hL hw hrun p s hd
  have hw' : (learned L).Reachable w' := by
    obtain ⟨w₀, ls₀, h₀, hrun₀⟩ := hw
    exact ⟨w₀, ls₀ ++ ls, h₀, hrun₀.append hrun⟩
  obtain ⟨t, -, h, hshown⟩ := (learned_simulates L hL s).reachable w' hw'
  have hlock := (h.member.conf p).2.2
  simp only [World.slot] at hd' hv'
  refine ⟨?_, ?_, fun p' hp' => ?_⟩
  · simp [Peer.status, hlock, hd', hv', World.slot]
  · simp [Peer.syncPaxosValue, hd', hv', World.slot]
  · obtain ⟨b, hb, -⟩ := hshown p hd'
    obtain ⟨b', hb', -⟩ := hshown p' hp'
    rw [chosen_unique _ h.inv ⟨b', hb'⟩ ⟨b, hb⟩]
    exact hv'

/-- The duel, then peer `0` decides its own slot and sends `Decide`; peer `1`
has handled the `Accept` of that run. -/
def toldOne : List (Lbl Nat Nat) :=
  duel ++ [.go 0, .go 0, .go 0, .deliver (.decide 1 0 (some 10))]

/-- Peer `2` has seen number 4 of the other run. -/
def toldTwo : List (Lbl Nat Nat) := [.deliver (.decide 2 0 (some 10))]

def told : World Nat Nat := LTS.execD (learnedStep [0, 1, 2]) (World.init [0, 1, 2]) toldOne

def toldAll : World Nat Nat := LTS.execD (learnedStep [0, 1, 2]) told toldTwo

set_option maxRecDepth 8000 in
theorem told_never_changes :
    (toldAll.peer 1).status 0 = some (true, (told.slot 1 0).value) ∧
    (∃ rep, (toldAll.peer 1).syncPaxosValue 0 = some rep ∧ rep.status = .ok ∧
      rep.syncedValue = (told.slot 1 0).value) ∧
    ∀ p', (toldAll.slot p' 0).isDecided = true → (toldAll.slot p' 0).value = (told.slot 1 0).value :=
  decided_slot_never_changes [0, 1, 2] (by decide) told toldAll toldTwo
    ⟨_, toldOne, rfl, LTS.run_execD (by decide +kernel)⟩ (LTS.run_execD (by decide +kernel)) 1 0
    (by decide +kernel)

/-! ## The schedule that changes a decided slot -/

/-- The run on peer `0` is promised number 3 by itself and peer `1`. The run on
peer `1` then takes number 4 through both phases with peer `0`, and its
`Decide` reaches peer `2`, which has heard of neither number. -/
def staleTold : List (Lbl Nat Nat) :=
  [.start 0 0 (some 10), .top 0 3, .go 0, .go 0, .go 0, .go 0, .deliver (.prepare 0 0 1 0 3),
   .recvPrepare 0 0 ⟨.ok, 0, none, 0⟩, .recvPrepare 0 1 ⟨.ok, 0, none, 0⟩, .go 0,
   .start 1 0 (some 20), .top 1 4, .go 1, .go 1, .go 1, .go 1, .deliver (.prepare 1 0 0 0 4),
   .recvPrepare 1 1 ⟨.ok, 0, none, 0⟩, .recvPrepare 1 0 ⟨.ok, 0, none, 0⟩, .go 1,
   .go 1, .go 1, .go 1, .go 1, .deliver (.accept 1 0 0 0 4 (some 20)),
   .recvAccept 1 1 ⟨.ok, 0⟩, .recvAccept 1 0 ⟨.ok, 0⟩, .go 1,
   .go 1, .go 1, .go 1, .deliver (.decide 2 0 (some 20))]

/-- The `Accept` of the first run, number 3 and value 10, reaches peer `2`. -/
def staleAccept : List (Lbl Nat Nat) :=
  [.go 0, .go 0, .go 0, .deliver (.accept 0 0 2 0 3 (some 10))]

def staleBefore : World Nat Nat := LTS.execD (fixedStep [0, 1, 2]) (World.init [0, 1, 2]) staleTold

def staleAfter : World Nat Nat := LTS.execD (fixedStep [0, 1, 2]) staleBefore staleAccept

set_option maxRecDepth 8000 in
/-- Peer `2` first shows 20 as decided, then 10, while peer `1` shows 20. -/
theorem stale_accept_changes_decided :
    (fixed [0, 1, 2]).Reachable staleBefore ∧
    (fixed [0, 1, 2]).Run staleBefore staleAccept staleAfter ∧
    (staleBefore.peer 2).status 0 = some (true, some 20) ∧
    (staleAfter.peer 2).status 0 = some (true, some 10) ∧
    (staleAfter.peer 2).syncPaxosValue 0 = some ⟨.ok, some 10, 3, 3⟩ ∧
    (staleAfter.peer 1).status 0 = some (true, some 20) :=
  ⟨⟨_, staleTold, rfl, LTS.run_execD (by decide +kernel)⟩, LTS.run_execD (by decide +kernel),
    by decide +kernel, by decide +kernel, by decide +kernel, by decide +kernel⟩

end Cmu440.Paxos
