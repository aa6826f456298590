import Cmu440.Paxos.Rounds

/-!
# Agreement and validity over a fixed membership

`fixed L` is the world in which every peer was made with the list `L` and
`startHelper` runs on members of `L` only: any number of runs, on any slots,
several of them possibly on one peer. Requests and replies stay in the network
for good, so all delays, orders and losses are among its runs.

For each slot it simulates ballot voting with the majorities of `L`
(`fixed_simulates`), and what a run sends in its decide phase is a chosen
value.
-/
namespace Cmu440.Paxos

open Ballot

variable {H V : Type} [DecidableEq H] [DecidableEq V]

/-- `startHelper` is called on a member. -/
def Lbl.on (L : List H) : Lbl H V → Bool
  | .start p _ _ => decide (p ∈ L)
  | _ => true

def fixedStep (L : List H) : World H V → Lbl H V → Option (World H V) :=
  LTS.guarded (fun _ l => l.on L) World.step

def fixed (L : List H) : LTS (World H V) (Lbl H V) := .ofFn (· = World.init L) (fixedStep L)

omit [DecidableEq V] in
/-- Every peer counts with `L`, knows its place in it and is not locked, and
the runs are on members. -/
structure Member (L : List H) (w : World H V) : Prop where
  conf : ∀ p, (w.peer p).peers = L ∧ (w.peer p).me = L.idxOf p ∧ (w.peer p).isLocked = false
  runs : ∀ r ∈ w.runs, r.px ∈ L

theorem member_step {L : List H} {w w' : World H V} {l : Lbl H V} (h : Member L w)
    (hon : l.on L = true) (hs : w.step l = some w') : Member L w' := by
  refine ⟨fun p => ?_, ?_⟩
  · obtain ⟨h₁, h₂, h₃⟩ := step_frame hs p
    rw [h₁, h₂, h₃]
    exact h.conf p
  · intro r hr
    rcases step_cases hs with ⟨p, s, v, m, rfl, rfl⟩ | ⟨w₁, he, hw⟩
    · rcases List.mem_append.mp hr with hr | hr
      · exact h.runs r hr
      · rw [List.mem_singleton] at hr
        subst hr
        exact of_decide_eq_true hon
    · have hruns : w₁.runs = w.runs := by cases he <;> rfl
      rcases hw with rfl | ⟨j, r₀, r', rfl, hj, hsame, -⟩
      · rw [hruns] at hr; exact h.runs r hr
      · simp only [World.setRun, hruns] at hr
        rcases List.mem_or_eq_of_mem_set hr with hr | rfl
        · exact h.runs r hr
        · rw [hsame.1]; exact h.runs r₀ (List.mem_of_getElem? hj)

theorem member_inductive (L : List H) : (fixed (V := V) L).Inductive (Member L) where
  init := by
    rintro w rfl
    exact ⟨fun _ => ⟨rfl, rfl, rfl⟩, fun r hr => by cases hr⟩
  step := by
    intro w l w' h hs
    obtain ⟨hon, hs⟩ := LTS.guarded_eq_some.mp hs
    exact member_step h hon hs

omit [DecidableEq V] in
theorem Member.listOk {L : List H} {w : World H V} (h : Member L w) (hL : L.Nodup) {r : Run H V}
    (hr : r ∈ w.runs) : ListOk (· = L) (w.peer r.px) r.px := by
  obtain ⟨h₁, h₂, -⟩ := h.conf r.px
  refine ⟨h₁, by rw [h₁]; exact hL, ?_⟩
  rw [h₁, h₂]
  exact List.getElem?_idxOf (h.runs r hr)

omit [DecidableEq H] in
theorem overlap_eq (L : List H) : ∀ L₁ L₂, L₁ = L → L₂ = L → Overlap L₁ L₂ := by
  rintro L₁ L₂ rfl rfl
  exact overlap_self _

/-- The majorities of the one list. -/
def quorums (L : List H) : QuorumSystem H := majorities (· = L) (overlap_eq L)

/-- Slot `s` of `w` follows `t`, which satisfies the ballot invariant. -/
structure Follows (L : List H) (s : Int) (w : World H V) (t : St H (Option V)) : Prop where
  member : Member L w
  rel : Rel (· = L) (overlap_eq L) s w t
  inv : Inv (quorums L) t

theorem follows_init (L : List H) (s : Int) : Follows L s (World.init L : World H V) empty :=
  ⟨(member_inductive L).init _ rfl, rel_empty (fun _ => rfl) rfl rfl, inv_empty _⟩

theorem follows_step {L : List H} (hL : L.Nodup) {s : Int} {w w' : World H V}
    {t : St H (Option V)} {l : Lbl H V} (h : Follows L s w t) (hs : fixedStep L w l = some w') :
    ∃ ls t', (lts (quorums L)).Run t ls t' ∧ Follows L s w' t' := by
  obtain ⟨hon, hstep⟩ := LTS.guarded_eq_some.mp hs
  have htop : TopOk (· = L) s w l := by
    intro j n r _ hj _
    exact h.member.listOk hL (List.mem_of_getElem? hj)
  obtain ⟨ls, t', hrun, h'⟩ := rel_step h.rel h.inv htop hstep
  exact ⟨ls, t', hrun, member_step h.member hon hstep, h',
    hrun.invariant (inv_inductive _).step h.inv⟩

/-- Each slot of the fixed cluster is an instance of ballot voting. -/
theorem fixed_simulates (L : List H) (hL : L.Nodup) (s : Int) :
    LTS.Simulation (fixed L) (lts (quorums L)) (Follows (V := V) L s) where
  init := by
    rintro w rfl
    exact ⟨empty, rfl, follows_init L s⟩
  step := by
    intro w t l w' h hs
    exact follows_step hL h hs

theorem fixed_follows {L : List H} (hL : L.Nodup) (s : Int) {w : World H V}
    (hw : (fixed L).Reachable w) : ∃ t, Follows L s w t := by
  obtain ⟨t, -, h⟩ := (fixed_simulates L hL s).reachable w hw
  exact ⟨t, h⟩

/-- In every reachable state of a fixed cluster, runs in their decide phases
for one slot carry one value, every `Decide` sent for the slot carries it too,
and it was passed as `v` to a run on that slot. -/
theorem agreement_and_validity (L : List H) (hL : L.Nodup) (w : World H V)
    (hw : (fixed L).Reachable w) (r₁ : Run H V) (h₁ : r₁ ∈ w.runs) (hd₁ : r₁.Decides) :
    (∀ r₂ ∈ w.runs, r₂.Decides → r₂.slotNum = r₁.slotNum → r₂.proposeValue = r₁.proposeValue) ∧
    (∀ p x, Msg.decide p r₁.slotNum x ∈ w.net → x = r₁.proposeValue) ∧
    ∃ r ∈ w.runs, r.slotNum = r₁.slotNum ∧ r.v = r₁.proposeValue := by
  obtain ⟨t, h⟩ := fixed_follows hL r₁.slotNum hw
  obtain ⟨hc, -⟩ := h.rel.decides h₁ rfl hd₁
  refine ⟨fun r₂ h₂ hd₂ hs => ?_, fun p x hm => ?_, ?_⟩
  · exact h.rel.agree h.inv h₂ h₁ hs rfl hd₂ hd₁
  · exact chosen_unique _ h.inv (h.rel.decide p x hm) ⟨_, hc⟩
  · exact h.rel.valid _ _ hc.1

/-- Two proposers on a cluster of three: the run on peer `0` decides 10 with
peer `1`; the run on peer `1` was given 20, hears of 10 from itself and decides
it with peer `2`. -/
def duel : List (Lbl Nat Nat) :=
  [.start 0 0 (some 10), .top 0 3, .go 0, .go 0, .go 0, .go 0, .deliver (.prepare 0 0 1 0 3),
   .recvPrepare 0 0 ⟨.ok, 0, none, 0⟩, .recvPrepare 0 1 ⟨.ok, 0, none, 0⟩, .go 0,
   .go 0, .go 0, .go 0, .go 0, .deliver (.accept 0 0 1 0 3 (some 10)),
   .recvAccept 0 0 ⟨.ok, 0⟩, .recvAccept 0 1 ⟨.ok, 0⟩, .go 0,
   .start 1 0 (some 20), .top 1 4, .go 1, .go 1, .go 1, .go 1, .deliver (.prepare 1 0 2 0 4),
   .recvPrepare 1 1 ⟨.ok, 3, some 10, 0⟩, .recvPrepare 1 2 ⟨.ok, 0, none, 0⟩, .go 1,
   .go 1, .go 1, .go 1, .go 1, .deliver (.accept 1 0 2 0 4 (some 10)),
   .recvAccept 1 1 ⟨.ok, 0⟩, .recvAccept 1 2 ⟨.ok, 0⟩, .go 1]

def duelled : World Nat Nat := LTS.execD (fixedStep [0, 1, 2]) (World.init [0, 1, 2]) duel

set_option maxRecDepth 8000 in
theorem duel_agreement :
    ∃ r₁ ∈ duelled.runs, r₁.v = some 20 ∧
      ((∀ r₂ ∈ duelled.runs, r₂.Decides → r₂.slotNum = r₁.slotNum →
        r₂.proposeValue = r₁.proposeValue) ∧
      (∀ p x, Msg.decide p r₁.slotNum x ∈ duelled.net → x = r₁.proposeValue) ∧
      ∃ r ∈ duelled.runs, r.slotNum = r₁.slotNum ∧ r.v = r₁.proposeValue) :=
  ⟨⟨1, 0, some 20, .sendDecide, 0, 4, 0, 2, some 10, 3, 0, [0]⟩, by decide +kernel, rfl,
    agreement_and_validity [0, 1, 2] (by decide) duelled
      ⟨_, duel, rfl, LTS.run_execD (by decide +kernel)⟩ _ (by decide +kernel) (by decide +kernel)⟩

end Cmu440.Paxos
