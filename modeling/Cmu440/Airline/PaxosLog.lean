import Cmu440.Airline.Service
import Cmu440.Paxos.Decided
import Cmu440.Paxos.Moves

/-!
# The Paxos peers implement the write-once log

`Cmu440.Airline.Service` takes `paxosInstance` as a log whose slots are decided
once and for good. Here the log is read off a cluster of Paxos peers:

* an operation is proposed for a slot when a `startHelper` run for it exists;
* a slot is decided when the first run on it reaches its decide phase, with the
  value that run sends;
* a decided slot is known on a peer when its `isDecided` is set.

`Backs w log` says that `log` is what the world `w` amounts to. Each step of the
world is at most one step of the log (`backs_step`), as long as an arriving
`Decide` finds a peer that has seen the deciding number (`Paxos.learned`);
without that a peer may show two values for one slot, which no log does.

The slots of the servers are counted from 0, those of the peers are any `int`.
-/
namespace Cmu440.Airline

open Paxos (World Lbl Run RunsKept Onward Marks DecideFrom learned learnedStep)

variable {H : Type} [DecidableEq H]

/-! ## What the runs of a cluster agree on -/

section
variable {V : Type} [DecidableEq V] {L : List H} {w : World H V}

/-- Two runs in their decide phases for one slot have one value, which was
passed to a run on the slot. -/
theorem learned_agree (hL : L.Nodup) (hw : (learned L).Reachable w) {r₁ r₂ : Run H V}
    (h₁ : r₁ ∈ w.runs) (h₂ : r₂ ∈ w.runs) (hd₁ : r₁.Decides) (hd₂ : r₂.Decides)
    (hs : r₂.slotNum = r₁.slotNum) : r₂.proposeValue = r₁.proposeValue := by
  obtain ⟨t, -, h, -⟩ := (Paxos.learned_simulates L hL r₁.slotNum).reachable w hw
  exact h.rel.agree h.inv h₂ h₁ hs rfl hd₂ hd₁

theorem learned_valid (hL : L.Nodup) (hw : (learned L).Reachable w) {r : Run H V}
    (hr : r ∈ w.runs) (hd : r.Decides) :
    ∃ r₀ ∈ w.runs, r₀.slotNum = r.slotNum ∧ r₀.v = r.proposeValue := by
  obtain ⟨t, -, h, -⟩ := (Paxos.learned_simulates L hL r.slotNum).reachable w hw
  exact h.rel.valid _ _ (h.rel.decides hr rfl hd).1.1

/-- A decided slot shows the value of the runs that decided it. -/
theorem learned_shown (hL : L.Nodup) (hw : (learned L).Reachable w) {r : Run H V}
    (hr : r ∈ w.runs) (hd : r.Decides) {p : H} (hp : (w.slot p r.slotNum).isDecided = true) :
    (w.slot p r.slotNum).value = r.proposeValue := by
  obtain ⟨t, -, h, hshown⟩ := (Paxos.learned_simulates L hL r.slotNum).reachable w hw
  obtain ⟨b, hb, -⟩ := hshown p hp
  exact Ballot.chosen_unique _ h.inv ⟨b, hb⟩ ⟨_, (h.rel.decides hr rfl hd).1⟩

theorem learned_unlocked (hL : L.Nodup) (hw : (learned L).Reachable w) (p : H) :
    (w.peer p).isLocked = false := by
  obtain ⟨t, -, h, -⟩ := (Paxos.learned_simulates L hL 0).reachable w hw
  exact (h.member.conf p).2.2

end

/-! ## The relation -/

/-- `log` is what the peers and runs of `w` amount to. -/
structure Backs (w : World H PaxosValue) (log : Log H) : Prop where
  proposed : ∀ r ∈ w.runs, ∃ (s : Nat) (v : PaxosValue),
    r.slotNum = s ∧ r.v = some v ∧ v ∈ log.proposed s
  decides : ∀ r ∈ w.runs, r.Decides → ∀ s : Nat, r.slotNum = s →
    (log.decided s).isSome ∧ log.decided s = r.proposeValue
  decided : ∀ s, (log.decided s).isSome → ∃ r ∈ w.runs, r.Decides ∧ r.slotNum = s
  known : ∀ (i : H) (s : Nat), log.known i s = (w.slot i s).isDecided
  shown : ∀ i s, log.known i s = true → (log.decided s).isSome

/-- At most one step of the log. -/
inductive Log.Next (log : Log H) : Log H → Prop
  | same : Next log log
  | decide (s : Nat) (v : PaxosValue) (hnone : log.decided s = none) (hv : v ∈ log.proposed s) :
      Next log { log with decided := Function.update log.decided s (some v) }
  | learn (i : H) (s : Nat) (hdec : (log.decided s).isSome) :
      Next log { log with
        known := Function.update log.known i (Function.update (log.known i) s true) }

theorem backs_init (L : List H) :
    Backs (World.init L) ⟨fun _ => [], fun _ => none, fun _ _ => false⟩ := by
  refine ⟨fun r hr => ?_, fun r hr => ?_, fun s hs => ?_, fun _ _ => rfl, fun _ _ h => ?_⟩
  · cases hr
  · cases hr
  · cases hs
  · cases h

variable {w w' : World H PaxosValue} {log : Log H} {L : List H} {l : Lbl H PaxosValue}

/-- What `Status` returns for a slot of the log. -/
theorem Backs.status (h : Backs w log) (hL : L.Nodup) (hw : (learned L).Reachable w) (i : H)
    (s : Nat) : ∃ v, (w.peer i).status s = some (log.known i s, v) ∧
      (log.known i s = true → v = log.decided s ∧ (log.decided s).isSome) := by
  refine ⟨(w.slot i s).value, ?_, fun hk => ?_⟩
  · rw [h.known]
    simp [Paxos.Peer.status, learned_unlocked hL hw i, World.slot]
  · have hdec := h.shown i s hk
    obtain ⟨r, hr, hd, hs⟩ := h.decided s hdec
    rw [h.known, ← hs] at hk
    rw [(h.decides r hr hd s hs).2, ← hs]
    exact ⟨learned_shown hL hw hr hd hk, by rw [← (h.decides r hr hd s hs).2]; exact hdec⟩

/-- A new run proposes its operation. -/
theorem Backs.start (h : Backs w log) {p : H} {s : Nat} {op : PaxosValue}
    (hs : w.step (.start p s (some op)) = some w') : Backs w' (log.propose s op) := by
  cases hs
  have hold : ∀ {r : Run H PaxosValue} {m : Int}, r ∈ w.runs ++ [Run.init p s (some op) m] →
      r.Decides → r ∈ w.runs := by
    intro r m hr hd
    rcases List.mem_append.mp hr with hr | hr
    · exact hr
    · rw [List.mem_singleton] at hr
      subst hr
      rcases hd with hd | hd <;> cases hd
  refine ⟨fun r hr => ?_, fun r hr hd => h.decides r (hold hr hd) hd, fun s' hs' => ?_, h.known,
    h.shown⟩
  · rcases List.mem_append.mp hr with hr | hr
    · obtain ⟨s', v, hs', hv, hmem⟩ := h.proposed r hr
      refine ⟨s', v, hs', hv, ?_⟩
      by_cases hss : s' = s
      · subst hss
        simpa only [Log.propose, Function.update_self] using List.mem_cons_of_mem _ hmem
      · simpa only [Log.propose, Function.update_of_ne hss] using hmem
    · rw [List.mem_singleton] at hr
      subst hr
      exact ⟨s, op, rfl, rfl, by simp [Log.propose]⟩
  · obtain ⟨r, hr, hd, hrs⟩ := h.decided s' hs'
    exact ⟨r, List.mem_append_left _ hr, hd, hrs⟩

/-! ## A step of the peers -/

omit [DecidableEq H] in
/-- No run begins to decide, and the log knows what the peers of `w'` show. -/
theorem Backs.keep (h : Backs w log) (hruns : RunsKept w w') {log' : Log H}
    (hprop : log'.proposed = log.proposed) (hdec : log'.decided = log.decided)
    (hknown : ∀ (i : H) (s : Nat), log'.known i s = (w'.slot i s).isDecided)
    (hshown : ∀ i s, log'.known i s = true → (log.decided s).isSome) : Backs w' log' := by
  refine ⟨fun r' hr' => ?_, fun r' hr' hd' s hs => ?_, fun s hs => ?_, hknown, ?_⟩
  · obtain ⟨r, hr, ⟨-, hs, hv⟩, -⟩ := hruns.back r' hr'
    rw [hs, hv, hprop]
    exact h.proposed r hr
  · obtain ⟨r, hr, ⟨-, hrs, -⟩, hd⟩ := hruns.back r' hr'
    obtain ⟨hd, hx⟩ := hd hd'
    rw [hx, hdec]
    exact h.decides r hr hd s (hrs.symm.trans hs)
  · rw [hdec] at hs
    obtain ⟨r, hr, hd, hrs⟩ := h.decided s hs
    obtain ⟨r', hr', hd', hrs'⟩ := hruns.forth r hr hd
    exact ⟨r', hr', hd', hrs'.trans hrs⟩
  · rw [hdec]
    exact hshown

/-- A step in which no run begins to decide: at most one peer is told. -/
theorem Backs.marked (h : Backs w log) (hruns : RunsKept w w') (hmarks : Marks w w' l)
    (hsees : ∀ p s x, DecideFrom w l p s x → ∃ r ∈ w.runs, r.Decides ∧ r.slotNum = s) :
    ∃ log', log.Next log' ∧ Backs w' log' := by
  rcases hmarks with hsame | ⟨p, s, x, hf, hmark⟩
  · refine ⟨log, .same, h.keep hruns rfl rfl (fun i s => ?_) h.shown⟩
    rw [hsame, h.known]
  · obtain ⟨r, hr, hd, rfl⟩ := hsees p s x hf
    obtain ⟨n, v, hn, -, -⟩ := h.proposed r hr
    have hdec := (h.decides r hr hd n hn).1
    have hupd : ∀ i s', Function.update log.known p (Function.update (log.known p) n true) i s' =
        (log.known i s' || decide (i = p ∧ s' = n)) := by
      intro i s'
      by_cases hi : i = p
      · subst hi
        by_cases hs' : s' = n <;> simp [hs']
      · simp [hi]
    refine ⟨_, .learn p n hdec, h.keep hruns rfl rfl (fun i s' => ?_) fun i s' hk => ?_⟩
    · simp only [hupd, hmark, h.known, hn, Nat.cast_inj]
    · simp only [hupd, Bool.or_eq_true, decide_eq_true_eq] at hk
      rcases hk with hk | ⟨-, rfl⟩
      · exact h.shown i s' hk
      · exact hdec

/-- Run `j` begins to decide. If it is the first one on its slot, the slot is
decided now; otherwise it has the value the slot was decided with. -/
theorem Backs.began (h : Backs w log) (hL : L.Nodup) {j : Nat} {r r' : Run H PaxosValue}
    (hj : w.runs[j]? = some r) (hw' : (learned L).Reachable (w.setRun j r'))
    (ho : Onward w (w.setRun j r') j r r') (hd' : r'.Decides) :
    ∃ log', log.Next log' ∧ Backs (w.setRun j r') log' := by
  have hlt : j < w.runs.length := (List.getElem?_eq_some_iff.mp hj).1
  have hmem : r' ∈ (w.setRun j r').runs := List.mem_of_getElem? (List.getElem?_set_self hlt)
  -- what the runs were given, they were given before
  have hgiven : ∀ r₁ ∈ (w.setRun j r').runs, ∃ (s : Nat) (v : PaxosValue),
      r₁.slotNum = s ∧ r₁.v = some v ∧ v ∈ log.proposed s := by
    intro r₁ hr₁
    rcases List.mem_or_eq_of_mem_set hr₁ with hr₁ | rfl
    · exact h.proposed r₁ hr₁
    · rw [ho.same.2.1, ho.same.2.2]
      exact h.proposed r (List.mem_of_getElem? hj)
  obtain ⟨s, -, hs, -⟩ := hgiven r' hmem
  -- its value was given to a run on its slot
  obtain ⟨v, hv, hprop⟩ : ∃ v, r'.proposeValue = some v ∧ v ∈ log.proposed s := by
    obtain ⟨r₀, hr₀, hs₀, hv₀⟩ := learned_valid hL hw' hmem hd'
    obtain ⟨s₀, v, hs₀', hv, hprop⟩ := hgiven r₀ hr₀
    have : s₀ = s := by
      have := hs₀'.symm.trans (hs₀.trans hs)
      exact_mod_cast this
    subst this
    exact ⟨v, hv₀.symm.trans hv, hprop⟩
  -- every run that decides the slot has this value
  have hagree : ∀ r₁ ∈ (w.setRun j r').runs, r₁.Decides → r₁.slotNum = s →
      r₁.proposeValue = some v := by
    intro r₁ hr₁ hd₁ hs₁
    rw [← hv]
    exact learned_agree hL hw' hmem hr₁ hd' hd₁ (hs₁.trans hs.symm)
  have hother : ∀ r₁ ∈ (w.setRun j r').runs, r₁.slotNum ≠ s → r₁ ∈ w.runs := by
    intro r₁ hr₁ hne
    rcases List.mem_or_eq_of_mem_set hr₁ with hr₁ | rfl
    · exact hr₁
    · exact absurd hs hne
  cases hdec : log.decided s with
  | none =>
    refine ⟨_, .decide s v hdec hprop, hgiven, fun r₁ hr₁ hd₁ s₁ hs₁ => ?_, fun s₁ hs₁ => ?_,
      h.known, fun i s₁ hk => ?_⟩
    · by_cases hss : s₁ = s
      · subst hss
        simp [hagree r₁ hr₁ hd₁ hs₁]
      · have hne : r₁.slotNum ≠ s := by
          rw [hs₁]
          exact_mod_cast hss
        simp only [Function.update_of_ne hss]
        exact h.decides r₁ (hother r₁ hr₁ hne) hd₁ s₁ hs₁
    · by_cases hss : s₁ = s
      · subst hss
        exact ⟨r', hmem, hd', hs⟩
      · simp only [Function.update_of_ne hss] at hs₁
        obtain ⟨r₁, hr₁, hd₁, hs₁⟩ := h.decided s₁ hs₁
        obtain ⟨r₂, hr₂, hd₂, hs₂, -⟩ := ho.forth hj hr₁ hd₁
        exact ⟨r₂, hr₂, hd₂, hs₂.trans hs₁⟩
    · have hk := h.shown i s₁ hk
      have hss : s₁ ≠ s := by
        intro hss
        rw [hss, hdec] at hk
        cases hk
      simpa only [Function.update_of_ne hss] using hk
  | some u =>
    refine ⟨log, .same, hgiven, fun r₁ hr₁ hd₁ s₁ hs₁ => ?_, fun s₁ hs₁ => ?_, h.known, h.shown⟩
    · by_cases hss : s₁ = s
      · subst hss
        -- the run that decided the slot first has the value of `r'`
        obtain ⟨r₂, hr₂, hd₂, hs₂⟩ := h.decided s₁ (by rw [hdec]; rfl)
        obtain ⟨r₃, hr₃, hd₃, hs₃, hx₃⟩ := ho.forth hj hr₂ hd₂
        have hx := (h.decides r₂ hr₂ hd₂ s₁ hs₂).2
        rw [← hx₃, hagree r₃ hr₃ hd₃ (hs₃.trans hs₂)] at hx
        rw [hx, hagree r₁ hr₁ hd₁ hs₁]
        exact ⟨rfl, rfl⟩
      · have hne : r₁.slotNum ≠ s := by
          rw [hs₁]
          exact_mod_cast hss
        exact h.decides r₁ (hother r₁ hr₁ hne) hd₁ s₁ hs₁
    · obtain ⟨r₁, hr₁, hd₁, hs₁⟩ := h.decided s₁ hs₁
      obtain ⟨r₂, hr₂, hd₂, hs₂, -⟩ := ho.forth hj hr₁ hd₁
      exact ⟨r₂, hr₂, hd₂, hs₂.trans hs₁⟩

theorem backs_step (hL : L.Nodup) (hw : (learned L).Reachable w)
    (hs : learnedStep L w l = some w') (hl : ∀ p s v, l ≠ .start p s v) (h : Backs w log) :
    ∃ log', log.Next log' ∧ Backs w' log' := by
  obtain ⟨hsees, hfix⟩ := LTS.guarded_eq_some.mp hs
  obtain ⟨-, hstep⟩ := LTS.guarded_eq_some.mp hfix
  have htold : ∀ p s x, DecideFrom w l p s x → ∃ r ∈ w.runs, r.Decides ∧ r.slotNum = s := by
    rintro p s x (⟨rfl, -⟩ | ⟨j, r, -, hj, hpc, -, hs, -⟩)
    · simp only [World.seesDecider, List.any_eq_true, decide_eq_true_eq] at hsees
      obtain ⟨r, hr, hd, hs, -⟩ := hsees
      exact ⟨r, hr, hd, hs⟩
    · exact ⟨r, List.mem_of_getElem? hj, .inl hpc, hs⟩
  have hmarks := Paxos.step_marks hstep
  cases Paxos.step_takes hstep with
  | start p s v hl' hw' => exact absurd hl' (hl p s v)
  | handled hh =>
    have hruns : w'.runs = w.runs := by cases hh <;> rfl
    exact h.marked (.of_eq hruns) hmarks htold
  | moved j r hj hst =>
    obtain ⟨r', ho⟩ := hst.onward
    by_cases hd : r'.Decides → r.Decides
    · exact h.marked (.of_onward ho hj hd) hmarks htold
    · obtain ⟨hd', hnot⟩ := Classical.not_imp.mp hd
      rcases ho.began hd' with hd | rfl
      · exact absurd hd hnot
      · exact h.began hL hj (hw.step hs) ho hd'

end Cmu440.Airline
