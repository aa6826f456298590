import Cmu440.Paxos.Agreement

/-!
# Killing and restarting peers

The package comment promises in-memory state together with fail-recover, and
tests/failrecovertest.sh kills a server with `kill -9` and starts it again with
the same `-peers` and `-me`. `Make` then builds an empty `timeSlot`
(paxos.go:634-646): the peer has forgotten what it promised and accepted.

`Cluster` adds to a world the set of peers that are down. `kill` ends the runs
of the peer and is enabled while the peers down stay a minority; `restart` is
`Make`. `forget` is a schedule on three peers in which a majority that only
meets the deciding one in the restarted peer decides a second value.

A restart is harmless for a slot in which the peer had promised and accepted
nothing (`recovering`): its record is as `Make` leaves it, and no ballot counts
on it.
-/
namespace Cmu440.Paxos

open Ballot

variable {H V : Type}

structure Cluster (H V : Type) where
  world : World H V
  down : List H

inductive FaultLbl (H V : Type)
  | world (l : Lbl H V)
  | kill (p : H)
  | restart (p : H)
  deriving DecidableEq, Repr

def Msg.handler : Msg H V → Option H
  | .prepare _ _ dst _ _ => some dst
  | .accept _ _ dst _ _ _ => some dst
  | .decide dst _ _ => some dst
  | .prepareReply .. | .acceptReply .. => none

/-- The peer whose process takes the step. -/
def World.actor (w : World H V) : Lbl H V → Option H
  | .start p _ _ => some p
  | .deliver m => m.handler
  | .top j _ | .go j | .recvPrepare j _ _ | .recvAccept j _ _ | .fail j _ =>
    w.runs[j]?.map (·.px)

section
variable [DecidableEq H]

/-- The process of `p` dies. A run that has reached its decide phase sends
nothing more, as one that has returned. -/
def Run.killOn (p : H) (r : Run H V) : Run H V :=
  if r.px = p then { r with pc := if r.Decides then .returned else .killed } else r

def Cluster.init (L : List H) : Cluster H V := ⟨World.init L, []⟩

variable [DecidableEq V]

def Cluster.step (L : List H) (c : Cluster H V) : FaultLbl H V → Option (Cluster H V)
  | .world l =>
    if (c.world.actor l).all fun p => decide (p ∉ c.down) then
      (fixedStep L c.world l).map fun w => { c with world := w }
    else none
  | .kill p =>
    if p ∈ L ∧ p ∉ c.down ∧ 2 * (c.down.length + 1) < L.length then
      some ⟨{ c.world with runs := c.world.runs.map (Run.killOn p) }, p :: c.down⟩
    else none
  | .restart p =>
    if p ∈ c.down then
      some ⟨{ c.world with peer := Function.update c.world.peer p (.make L (L.idxOf p)) },
        c.down.filter (· ≠ p)⟩
    else none

/-- Every kill and restart while a minority is down. -/
def faulty (L : List H) : LTS (Cluster H V) (FaultLbl H V) := .ofFn (· = Cluster.init L) (·.step L)

/-- A restarted peer had neither promised nor accepted anything in slot `s`. -/
def Cluster.untouched (s : Int) (c : Cluster H V) : FaultLbl H V → Bool
  | .restart p => decide ((c.world.slot p s).seqNumHighest = 0)
  | _ => true

def recoverStep (L : List H) (s : Int) : Cluster H V → FaultLbl H V → Option (Cluster H V) :=
  LTS.guarded (Cluster.untouched s) (Cluster.step L)

def recovering (L : List H) (s : Int) : LTS (Cluster H V) (FaultLbl H V) :=
  .ofFn (· = Cluster.init L) (recoverStep L s)

end

/-! ## Death of a process -/

section
variable [DecidableEq H] {F : List H → Prop} {hF : ∀ L L', F L → F L' → Overlap L L'} {s : Int}

theorem killOn_same (p : H) (r : Run H V) : r.Same (r.killOn p) := by
  unfold Run.killOn
  split <;> exact ⟨rfl, rfl, rfl⟩

theorem killOn_round (p : H) (r : Run H V) : (r.killOn p).round = r.round := by
  unfold Run.killOn
  split <;> rfl

theorem killOn_afterPrepare (p : H) (r : Run H V) (h : r.pc.afterPrepare = true) :
    (r.killOn p).pc.afterPrepare = true := by
  unfold Run.killOn
  split
  · simp only
    split <;> rfl
  · exact h

theorem killOn_ended (p : H) (r : Run H V) (h : r.px = p) : (r.killOn p).pc.ended = true := by
  unfold Run.killOn
  rw [if_pos h]
  simp only
  split <;> rfl

theorem RunRel.killOn {q : QuorumSystem H} {net : List (Msg H V)} {t : St H (Option V)}
    {px : Peer H V} {j : Nat} {r : Run H V} (p : H) (h : RunRel q F net t px j r) :
    RunRel q F net t px j (r.killOn p) := by
  unfold Run.killOn
  split
  · split
    · rename_i hd
      rcases hd with hd | hd
      · simp only [RunRel, hd] at h; exact h
      · simp only [RunRel, hd] at h; exact h
    · trivial
  · exact h

theorem Pc.ended_not_midRound {pc : Pc} (h : pc.ended = true) : pc.midRound = false := by
  cases pc <;> first | rfl | cases h

theorem Rel.kill {w : World H V} {t : St H (Option V)} (h : Rel F hF s w t) (p : H) :
    Rel F hF s { w with runs := w.runs.map (Run.killOn p) } t := by
  refine ⟨h.floor, h.nonneg, h.votes, h.known, h.promised, h.once, h.accept, h.accepted, h.decide,
    ?_, ?_, ?_⟩
  · intro j r hj hs
    simp only [List.getElem?_map, Option.map_eq_some_iff] at hj
    obtain ⟨r₀, hj, rfl⟩ := hj
    obtain ⟨hpx, hslot, -⟩ := killOn_same p r₀
    rw [hpx]
    exact (h.run j r₀ hj (by rw [← hslot, hs])).killOn p
  · intro n x hn
    obtain ⟨j, c, ⟨r, hr, hc⟩, hQ⟩ := h.owner n x hn
    refine ⟨j, c, ⟨r.killOn p, ?_, ?_⟩, hQ⟩
    · simp only [List.getElem?_map, hr, Option.map_some]
    · rw [killOn_round]
      exact hc.imp_right fun ⟨e, hp⟩ => ⟨e, killOn_afterPrepare p r hp⟩
  · intro n x hn
    obtain ⟨r, hr, h₁, h₂⟩ := h.valid n x hn
    obtain ⟨-, hslot, hv⟩ := killOn_same p r
    exact ⟨r.killOn p, List.mem_map.mpr ⟨r, hr, rfl⟩, by rw [hslot, h₁], by rw [hv, h₂]⟩

/-- `Make` again, for a peer that has no live run and whose slot is untouched. -/
theorem Rel.restart {w : World H V} {t : St H (Option V)} (h : Rel F hF s w t)
    (hinv : Inv (majorities F hF) t) {p : H} (hrun : ∀ r ∈ w.runs, r.px = p → r.pc.ended = true)
    (hslot : (w.slot p s).seqNumHighest = 0) (px : Peer H V)
    (hpx : px.getTimeSlotValue s = ⟨none, false, 0, 0⟩) :
    Rel F hF s { w with peer := Function.update w.peer p px } t := by
  have hself : World.slot { w with peer := Function.update w.peer p px } p s =
      ⟨none, false, 0, 0⟩ := by
    simp [World.slot, hpx]
  have hother : ∀ p', p' ≠ p →
      World.slot { w with peer := Function.update w.peer p px } p' s = w.slot p' s := by
    intro p' hp
    simp [World.slot, Function.update_of_ne hp]
  -- nobody counts on `p`: its floor is 0 and votes carry positive numbers
  have hnovote : ∀ b, ¬ t.votes p b := by
    intro b hv
    obtain ⟨x, hx⟩ := hinv.vote_prop p b hv
    have h₁ := hinv.prop_pos b x hx
    have h₂ := hinv.vote_floor p b hv
    rw [h.floor p, hslot] at h₂
    omega
  refine ⟨?_, ?_, ?_, ?_, h.promised, h.once, h.accept, h.accepted, h.decide, ?_, h.owner, h.valid⟩
  · intro p'
    by_cases hp : p' = p
    · subst hp; rw [hself, h.floor, hslot]
    · rw [hother p' hp]; exact h.floor p'
  · intro p'
    by_cases hp : p' = p
    · subst hp; rw [hself]
    · rw [hother p' hp]; exact h.nonneg p'
  · intro p' b hv
    by_cases hp : p' = p
    · subst hp; exact absurd hv (hnovote b)
    · rw [hother p' hp]; exact h.votes p' b hv
  · intro p' hk
    by_cases hp : p' = p
    · subst hp; rw [hself] at hk; exact absurd hk (lt_irrefl _)
    · rw [hother p' hp] at hk ⊢; exact h.known p' hk
  · intro j r hj hs
    have hrel := h.run j r hj hs
    by_cases hp : r.px = p
    · exact hrel.of_not_midRound (Pc.ended_not_midRound (hrun r (List.mem_of_getElem? hj) hp))
    · simp only [Function.update_of_ne hp]
      exact hrel

end

/-! ## Restarts that agreement survives -/

section
variable [DecidableEq H] [DecidableEq V]

/-- The slot follows ballots, and the runs of peers that are down have ended. -/
structure Survives (L : List H) (s : Int) (c : Cluster H V) (t : St H (Option V)) : Prop where
  follows : Follows L s c.world t
  ended : ∀ r ∈ c.world.runs, r.px ∈ c.down → r.pc.ended = true

theorem survives_world {L : List H} (hL : L.Nodup) {s : Int} {c c' : Cluster H V}
    {t : St H (Option V)} {l : Lbl H V} (h : Survives L s c t)
    (hs : c.step L (.world l) = some c') :
    ∃ ls t', (lts (quorums L)).Run t ls t' ∧ Survives L s c' t' := by
  simp only [Cluster.step] at hs
  split at hs
  · rename_i hup
    obtain ⟨w', hw, rfl⟩ := Option.map_eq_some_iff.mp hs
    obtain ⟨ls, t', hrun, h'⟩ := follows_step hL h.follows hw
    refine ⟨ls, t', hrun, h', fun r hr hd => ?_⟩
    rcases step_cases (LTS.guarded_eq_some.mp hw).2 with ⟨p, s', v, m, rfl, rfl⟩ | ⟨w₁, he, hmv⟩
    · rcases List.mem_append.mp hr with hr | hr
      · exact h.ended r hr hd
      · rw [List.mem_singleton] at hr
        subst hr
        simp only [World.actor, Option.all_some, decide_eq_true_eq] at hup
        exact absurd hd hup
    · have hruns : w₁.runs = c.world.runs := by cases he <;> rfl
      rcases hmv with rfl | ⟨j, r₀, r', rfl, hj, hsame, hlive⟩
      · rw [hruns] at hr; exact h.ended r hr hd
      · simp only [World.setRun, hruns] at hr
        rcases List.mem_or_eq_of_mem_set hr with hr | rfl
        · exact h.ended r hr hd
        · -- the run that moved had not ended, so its peer is up
          rw [hsame.1] at hd
          rw [h.ended r₀ (List.mem_of_getElem? hj) hd] at hlive
          cases hlive
  · cases hs

theorem survives_kill {L : List H} {s : Int} {c c' : Cluster H V} {t : St H (Option V)} {p : H}
    (h : Survives L s c t) (hs : c.step L (.kill p) = some c') : Survives L s c' t := by
  simp only [Cluster.step] at hs
  split at hs
  · cases hs
    refine ⟨⟨⟨h.follows.member.conf, ?_⟩, h.follows.rel.kill p, h.follows.inv⟩, ?_⟩
    · intro r hr
      obtain ⟨r₀, hr₀, rfl⟩ := List.mem_map.mp hr
      rw [(killOn_same p r₀).1]
      exact h.follows.member.runs r₀ hr₀
    · intro r hr hd
      obtain ⟨r₀, hr₀, rfl⟩ := List.mem_map.mp hr
      rw [(killOn_same p r₀).1] at hd
      by_cases hp : r₀.px = p
      · exact killOn_ended p r₀ hp
      · have hend := h.ended r₀ hr₀ (by
          rcases List.mem_cons.mp hd with e | hd
          · exact absurd e hp
          · exact hd)
        unfold Run.killOn
        rw [if_neg hp]
        exact hend
  · cases hs

theorem survives_restart {L : List H} {s : Int} {c c' : Cluster H V} {t : St H (Option V)} {p : H}
    (h : Survives L s c t) (hslot : (c.world.slot p s).seqNumHighest = 0)
    (hs : c.step L (.restart p) = some c') : Survives L s c' t := by
  simp only [Cluster.step] at hs
  split at hs
  · rename_i hdown
    cases hs
    have hrun : ∀ r ∈ c.world.runs, r.px = p → r.pc.ended = true := by
      intro r hr e
      exact h.ended r hr (by rw [e]; exact hdown)
    refine ⟨⟨⟨fun p' => ?_, h.follows.member.runs⟩,
      h.follows.rel.restart h.follows.inv hrun hslot _ rfl, h.follows.inv⟩, fun r hr hd => ?_⟩
    · by_cases hp : p' = p
      · subst hp
        simp only [Function.update_self]
        exact ⟨rfl, rfl, rfl⟩
      · simp only [Function.update_of_ne hp]
        exact h.follows.member.conf p'
    · exact h.ended r hr (List.mem_filter.mp hd).1
  · cases hs

theorem recovering_simulates (L : List H) (hL : L.Nodup) (s : Int) :
    LTS.Simulation (recovering L s) (lts (quorums L)) (Survives (V := V) L s) where
  init := by
    rintro c rfl
    exact ⟨empty, rfl, follows_init L s, fun r hr => by cases hr⟩
  step := by
    intro c t l c' h hs
    obtain ⟨hu, hs⟩ := LTS.guarded_eq_some.mp hs
    cases l with
    | world l => exact survives_world hL h hs
    | kill p => exact ⟨[], t, .nil t, survives_kill h hs⟩
    | restart p => exact ⟨[], t, .nil t, survives_restart h (of_decide_eq_true hu) hs⟩

/-- Through kills and restarts of peers that had promised and accepted nothing
in slot `s`, runs in their decide phases for `s` carry one value. -/
theorem agreement_with_untouched_restarts (L : List H) (hL : L.Nodup) (s : Int) (c : Cluster H V)
    (hc : (recovering L s).Reachable c) (r₁ r₂ : Run H V) (h₁ : r₁ ∈ c.world.runs)
    (h₂ : r₂ ∈ c.world.runs) (hs₁ : r₁.slotNum = s) (hs₂ : r₂.slotNum = s) (hd₁ : r₁.Decides)
    (hd₂ : r₂.Decides) : r₁.proposeValue = r₂.proposeValue := by
  obtain ⟨t, -, h⟩ := (recovering_simulates L hL s).reachable c hc
  exact h.follows.rel.agree h.follows.inv h₁ h₂ hs₁ hs₂ hd₁ hd₂

end

/-! ## The schedule that forgets a decision -/

/-- Peer `0` decides 10 for slot `0` with peer `1`; peer `1` is killed and
restarted. -/
def forgetFirst : List (FaultLbl Nat Nat) :=
  [.start 0 0 (some 10), .top 0 3, .go 0, .go 0, .go 0, .go 0, .deliver (.prepare 0 0 1 0 3),
   .recvPrepare 0 0 ⟨.ok, 0, none, 0⟩, .recvPrepare 0 1 ⟨.ok, 0, none, 0⟩, .go 0,
   .go 0, .go 0, .go 0, .go 0, .deliver (.accept 0 0 1 0 3 (some 10)),
   .recvAccept 0 0 ⟨.ok, 0⟩, .recvAccept 0 1 ⟨.ok, 0⟩, .go 0].map .world ++ [.kill 1, .restart 1]

/-- Peer `2`, which heard nothing of this, runs on slot `s` with peer `1`. -/
def forgetThen (s : Int) : List (FaultLbl Nat Nat) :=
  [.start 2 s (some 20), .top 1 5, .go 1, .go 1, .go 1, .go 1, .deliver (.prepare 1 0 1 s 5),
   .recvPrepare 1 2 ⟨.ok, 0, none, 0⟩, .recvPrepare 1 1 ⟨.ok, 0, none, 0⟩, .go 1,
   .go 1, .go 1, .go 1, .go 1, .deliver (.accept 1 0 1 s 5 (some 20)),
   .recvAccept 1 2 ⟨.ok, 0⟩, .recvAccept 1 1 ⟨.ok, 0⟩, .go 1].map .world

def forgotten : Cluster Nat Nat :=
  LTS.execD (·.step [0, 1, 2]) (Cluster.init [0, 1, 2]) (forgetFirst ++ forgetThen 0)

set_option maxRecDepth 8000 in
/-- The restarted peer outvotes the decision: 10 and 20 for one slot. -/
theorem restart_breaks_agreement :
    (faulty [0, 1, 2]).Reachable forgotten ∧
    ∃ r₁ ∈ forgotten.world.runs, ∃ r₂ ∈ forgotten.world.runs,
      r₁.slotNum = r₂.slotNum ∧ r₁.Decides ∧ r₂.Decides ∧
      r₁.proposeValue = some 10 ∧ r₂.proposeValue = some 20 :=
  ⟨⟨_, _, rfl, LTS.run_execD (by decide)⟩, by decide⟩

/-- Peer `0` runs on slot `1` with peer `1`, which has accepted 20 there since
its restart. -/
def rememberThen : List (FaultLbl Nat Nat) :=
  [.start 0 1 (some 30), .top 2 6, .go 2, .go 2, .go 2, .go 2, .deliver (.prepare 2 0 1 1 6),
   .recvPrepare 2 0 ⟨.ok, 0, none, 0⟩, .recvPrepare 2 1 ⟨.ok, 5, some 20, 0⟩, .go 2,
   .go 2, .go 2, .go 2, .go 2, .deliver (.accept 2 0 1 1 6 (some 20)),
   .recvAccept 2 0 ⟨.ok, 0⟩, .recvAccept 2 1 ⟨.ok, 0⟩, .go 2].map .world

def remembered : Cluster Nat Nat :=
  LTS.execD (recoverStep [0, 1, 2] 1) (Cluster.init [0, 1, 2])
    (forgetFirst ++ forgetThen 1 ++ rememberThen)

def ranOnTwo : Run Nat Nat := ⟨2, 1, some 20, .sendDecide, 0, 5, 0, 2, some 20, 0, 0, [0]⟩

def ranOnZero : Run Nat Nat := ⟨0, 1, some 30, .sendDecide, 0, 6, 0, 2, some 20, 5, 0, [2]⟩

set_option maxRecDepth 8000 in
/-- Slot `1` had not been touched when peer `1` restarted. -/
theorem agreement_on_untouched_slot :
    ranOnTwo ∈ remembered.world.runs ∧ ranOnZero ∈ remembered.world.runs ∧
      ranOnTwo.proposeValue = ranOnZero.proposeValue :=
  ⟨by decide, by decide,
    agreement_with_untouched_restarts [0, 1, 2] (by decide) 1 remembered
      ⟨_, forgetFirst ++ forgetThen 1 ++ rememberThen, rfl, LTS.run_execD (by decide)⟩
      ranOnTwo ranOnZero (by decide) (by decide) rfl rfl (by decide) (by decide)⟩

end Cmu440.Paxos
