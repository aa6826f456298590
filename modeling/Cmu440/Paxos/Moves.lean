import Cmu440.Paxos.World

/-!
# One statement of `startHelper`

`World.step` taken apart by what happens: a run is started, a request is
handled, or one run executes one statement (`Statement`), with what the
statement tests. The runs of a world are told apart by their position in the
list, so a statement of run `j` leaves all others as they are.
-/
namespace Cmu440.Paxos

variable {H V : Type} [DecidableEq H] [DecidableEq V]

/-- Run `j`, at `r`, executes the statement of label `l`. -/
inductive Statement (w : World H V) (j : Nat) (r : Run H V) : Lbl H V → World H V → Prop
  | top (n : Int) (hpc : r.pc = .top) (hn : 0 < n) :
      Statement w j r (.top j n) (w.setRun j (r.beginRound n))
  | ownPrepare {dst : H} (hpc : r.pc = .sendPrepare) (hdst : (w.peer r.px).peers[r.i]? = some dst)
      (hme : r.i = (w.peer r.px).me) :
      Statement w j r (.go j)
        ((w.doPrepare j r.round r.px r.slotNum r.seqNum).setRun j (r.called r.px))
  | callPrepare {dst : H} (hpc : r.pc = .sendPrepare) (hdst : (w.peer r.px).peers[r.i]? = some dst)
      (hme : r.i ≠ (w.peer r.px).me) :
      Statement w j r (.go j)
        ((w.send (.prepare j r.round dst r.slotNum r.seqNum)).setRun j (r.called dst))
  | prepareCalled (hpc : r.pc = .sendPrepare) (hi : (w.peer r.px).peers.length ≤ r.i) :
      Statement w j r (.go j) (w.setRun j { r with pc := .recvPrepare, i := 0 })
  | recvPrepare (src : H) (reply : PrepareReply V) (hpc : r.pc = .recvPrepare)
      (hi : r.i < (w.peer r.px).peers.length) (hsrc : src ∈ r.waiting)
      (hm : .prepareReply j r.round src r.slotNum r.seqNum reply ∈ w.net) :
      Statement w j r (.recvPrepare j src reply)
        (w.setRun j ((r.countPrepare (some reply)).taken (w.peer r.px).peers.length
          .checkPrepare src))
  | failPrepare (src : H) (hpc : r.pc = .recvPrepare) (hi : r.i < (w.peer r.px).peers.length)
      (hsrc : src ∈ r.waiting) :
      Statement w j r (.fail j src)
        (w.setRun j (r.taken (w.peer r.px).peers.length .checkPrepare src))
  | prepareRead (hpc : r.pc = .recvPrepare) (hi : (w.peer r.px).peers.length ≤ r.i) :
      Statement w j r (.go j) (w.setRun j { r with pc := .checkPrepare })
  | refusedPrepare (hpc : r.pc = .checkPrepare)
      (hok : r.numOk ≤ (w.peer r.px).peers.length / 2) :
      Statement w j r (.go j) (w.setRun j r.retry)
  | prepared (hpc : r.pc = .checkPrepare) (hok : (w.peer r.px).peers.length / 2 < r.numOk) :
      Statement w j r (.go j) (w.setRun j r.beginAccept)
  | ownAccept {dst : H} (hpc : r.pc = .sendAccept) (hdst : (w.peer r.px).peers[r.i]? = some dst)
      (hme : r.i = (w.peer r.px).me) :
      Statement w j r (.go j)
        ((w.doAccept j r.round r.px r.slotNum r.seqNum r.proposeValue).setRun j (r.called r.px))
  | callAccept {dst : H} (hpc : r.pc = .sendAccept) (hdst : (w.peer r.px).peers[r.i]? = some dst)
      (hme : r.i ≠ (w.peer r.px).me) :
      Statement w j r (.go j)
        ((w.send (.accept j r.round dst r.slotNum r.seqNum r.proposeValue)).setRun j
          (r.called dst))
  | acceptCalled (hpc : r.pc = .sendAccept) (hi : (w.peer r.px).peers.length ≤ r.i) :
      Statement w j r (.go j) (w.setRun j { r with pc := .recvAccept, i := 0 })
  | recvAccept (src : H) (reply : AcceptReply) (hpc : r.pc = .recvAccept)
      (hi : r.i < (w.peer r.px).peers.length) (hsrc : src ∈ r.waiting)
      (hm : .acceptReply j r.round src r.slotNum r.seqNum reply ∈ w.net) :
      Statement w j r (.recvAccept j src reply)
        (w.setRun j ((r.countAccept (some reply)).taken (w.peer r.px).peers.length
          .checkAccept src))
  | failAccept (src : H) (hpc : r.pc = .recvAccept) (hi : r.i < (w.peer r.px).peers.length)
      (hsrc : src ∈ r.waiting) :
      Statement w j r (.fail j src)
        (w.setRun j (r.taken (w.peer r.px).peers.length .checkAccept src))
  | acceptRead (hpc : r.pc = .recvAccept) (hi : (w.peer r.px).peers.length ≤ r.i) :
      Statement w j r (.go j) (w.setRun j { r with pc := .checkAccept })
  | refusedAccept (hpc : r.pc = .checkAccept) (hok : r.numOk ≤ (w.peer r.px).peers.length / 2) :
      Statement w j r (.go j) (w.setRun j r.retry)
  | accepted (hpc : r.pc = .checkAccept) (hok : (w.peer r.px).peers.length / 2 < r.numOk) :
      Statement w j r (.go j) (w.setRun j { r with pc := .sendDecide, i := 0 })
  | ownDecide {dst : H} (hpc : r.pc = .sendDecide) (hdst : (w.peer r.px).peers[r.i]? = some dst)
      (hme : r.i = (w.peer r.px).me) :
      Statement w j r (.go j)
        ((w.doDecide r.px r.slotNum r.proposeValue).setRun j
          { r with pc := .sendDecide, i := r.i + 1 })
  | callDecide {dst : H} (hpc : r.pc = .sendDecide) (hdst : (w.peer r.px).peers[r.i]? = some dst)
      (hme : r.i ≠ (w.peer r.px).me) :
      Statement w j r (.go j)
        ((w.send (.decide dst r.slotNum r.proposeValue)).setRun j
          { r with pc := .sendDecide, i := r.i + 1 })
  | decideCalled (hpc : r.pc = .sendDecide) (hi : (w.peer r.px).peers.length ≤ r.i) :
      Statement w j r (.go j) (w.setRun j { r with pc := .returned })

/-- A request is handled by the peer it was sent to. -/
inductive Handled (w : World H V) : Lbl H V → World H V → Prop
  | prepare (j c : Nat) (p : H) (s n : Int) (hm : .prepare j c p s n ∈ w.net) :
      Handled w (.deliver (.prepare j c p s n)) (w.doPrepare j c p s n)
  | accept (j c : Nat) (p : H) (s n : Int) (x : Option V) (hm : .accept j c p s n x ∈ w.net) :
      Handled w (.deliver (.accept j c p s n x)) (w.doAccept j c p s n x)
  | decide (p : H) (s : Int) (x : Option V) (hm : .decide p s x ∈ w.net) :
      Handled w (.deliver (.decide p s x)) (w.doDecide p s x)

/-- What a step of a world can be. -/
inductive Takes (w : World H V) (l : Lbl H V) (w' : World H V) : Prop
  | start (p : H) (s : Int) (v : Option V) (hl : l = .start p s v)
      (hw : w' = { w with runs := w.runs ++ [Run.init p s v (w.slot p s).seqNumHighest] })
  | handled (h : Handled w l w')
  | moved (j : Nat) (r : Run H V) (hj : w.runs[j]? = some r) (h : Statement w j r l w')

variable {w w' : World H V} {j : Nat} {r : Run H V} {l : Lbl H V}

omit [DecidableEq V] in
theorem statement_of_goRun (h : w.goRun j r = some w') : Statement w j r (.go j) w' := by
  simp only [World.goRun] at h
  cases hpc : r.pc <;> simp only [hpc] at h
  case top | returned | killed => cases h
  case sendPrepare =>
    split at h
    · rename_i hdst
      split at h <;> rename_i hme <;> cases h
      · exact .ownPrepare hpc hdst hme
      · exact .callPrepare hpc hdst hme
    · rename_i hi
      cases h
      exact .prepareCalled hpc (List.getElem?_eq_none_iff.mp hi)
  case recvPrepare =>
    split at h <;> rename_i hi <;> cases h
    exact .prepareRead hpc (Nat.le_of_not_lt hi)
  case checkPrepare =>
    split at h <;> rename_i hok <;> cases h
    · exact .refusedPrepare hpc hok
    · exact .prepared hpc (Nat.lt_of_not_le hok)
  case sendAccept =>
    split at h
    · rename_i hdst
      split at h <;> rename_i hme <;> cases h
      · exact .ownAccept hpc hdst hme
      · exact .callAccept hpc hdst hme
    · rename_i hi
      cases h
      exact .acceptCalled hpc (List.getElem?_eq_none_iff.mp hi)
  case recvAccept =>
    split at h <;> rename_i hi <;> cases h
    exact .acceptRead hpc (Nat.le_of_not_lt hi)
  case checkAccept =>
    split at h <;> rename_i hok <;> cases h
    · exact .refusedAccept hpc hok
    · exact .accepted hpc (Nat.lt_of_not_le hok)
  case sendDecide =>
    split at h
    · rename_i hdst
      split at h <;> rename_i hme <;> cases h
      · exact .ownDecide hpc hdst hme
      · exact .callDecide hpc hdst hme
    · rename_i hi
      cases h
      exact .decideCalled hpc (List.getElem?_eq_none_iff.mp hi)

theorem step_takes (h : w.step l = some w') : Takes w l w' := by
  cases l with
  | start p s v =>
    cases h
    exact .start p s v rfl rfl
  | deliver m =>
    simp only [World.step, World.deliver] at h
    split at h
    · rename_i hm
      cases m with
      | prepare j c p s n => cases h; exact .handled (.prepare j c p s n hm)
      | accept j c p s n x => cases h; exact .handled (.accept j c p s n x hm)
      | decide p s x => cases h; exact .handled (.decide p s x hm)
      | prepareReply | acceptReply => cases h
    · cases h
  | go j =>
    simp only [World.step] at h
    split at h
    · cases h
    · rename_i r hj
      exact .moved j r hj (statement_of_goRun h)
  | top j n =>
    simp only [World.step] at h
    split at h
    · cases h
    · rename_i r hj
      split at h
      · rename_i hc
        cases h
        exact .moved j r hj (.top n hc.1 hc.2)
      · cases h
  | recvPrepare j src reply =>
    simp only [World.step] at h
    split at h
    · cases h
    · rename_i r hj
      split at h
      · rename_i hc
        cases h
        exact .moved j r hj (.recvPrepare src reply hc.1 hc.2.1 hc.2.2.1 hc.2.2.2)
      · cases h
  | recvAccept j src reply =>
    simp only [World.step] at h
    split at h
    · cases h
    · rename_i r hj
      split at h
      · rename_i hc
        cases h
        exact .moved j r hj (.recvAccept src reply hc.1 hc.2.1 hc.2.2.1 hc.2.2.2)
      · cases h
  | fail j src =>
    simp only [World.step] at h
    split at h
    · cases h
    · rename_i r hj
      split at h
      · rename_i hc
        split at h
        · rename_i hpc
          cases h
          exact .moved j r hj (.failPrepare src hpc hc.1 hc.2)
        · rename_i hpc
          cases h
          exact .moved j r hj (.failAccept src hpc hc.1 hc.2)
        · cases h
      · cases h

/-! ## Runs that decide -/

/-- How a statement moves its run with respect to the decide phase: a run that
decides keeps deciding, with the value it has, and a run that begins to does
nothing else in that step. -/
structure Onward (w w' : World H V) (j : Nat) (r r' : Run H V) : Prop where
  runs : w'.runs = w.runs.set j r'
  same : r.Same r'
  kept : r.Decides → r'.Decides ∧ r'.proposeValue = r.proposeValue
  began : r'.Decides → r.Decides ∨ w' = w.setRun j r'

omit [DecidableEq H] [DecidableEq V] in
theorem Run.not_decides {pc : Pc} (h : r.pc = pc) (hne : pc ≠ .sendDecide ∧ pc ≠ .returned) :
    ¬ r.Decides := by
  intro hd
  unfold Run.Decides at hd
  rw [h] at hd
  exact hd.elim hne.1 hne.2

omit [DecidableEq V] in
/-- One iteration of a receive loop stays in the loop or goes to its test. -/
theorem Run.taken_not_decides {done : Pc} (hpc : ¬ r.Decides)
    (hdone : done ≠ .sendDecide ∧ done ≠ .returned) (n : Nat) (src : H) :
    ¬ (r.taken n done src).Decides := by
  by_cases hok : r.numOk > n / 2
  · exact Run.not_decides (if_pos hok) hdone
  · unfold Run.Decides Run.taken
    rw [if_neg hok]
    exact hpc

omit [DecidableEq H] [DecidableEq V] in
/-- A statement of the first two phases that stays in them. -/
theorem Onward.early {r' : Run H V} (hpc : ¬ r.Decides) (hruns : w'.runs = w.runs.set j r')
    (hsame : r.Same r') (hpc' : ¬ r'.Decides) : Onward w w' j r r' :=
  ⟨hruns, hsame, fun hd => absurd hd hpc, fun hd => absurd hd hpc'⟩

omit [DecidableEq V] in
theorem Statement.onward (h : Statement w j r l w') : ∃ r', Onward w w' j r r' := by
  cases h with
  | top n hpc hn =>
    exact ⟨_, .early (Run.not_decides hpc (by decide)) rfl ⟨rfl, rfl, rfl⟩
      (by simp [Run.Decides, Run.beginRound])⟩
  | ownPrepare hpc hdst hme | callPrepare hpc hdst hme | ownAccept hpc hdst hme
  | callAccept hpc hdst hme =>
    have hnot := Run.not_decides hpc (by decide)
    exact ⟨_, .early hnot rfl ⟨rfl, rfl, rfl⟩ hnot⟩
  | prepareCalled hpc hi | prepareRead hpc hi | refusedPrepare hpc hi | prepared hpc hi
  | acceptCalled hpc hi | acceptRead hpc hi | refusedAccept hpc hi =>
    exact ⟨_, .early (Run.not_decides hpc (by decide)) rfl ⟨rfl, rfl, rfl⟩
      (by simp [Run.Decides, Run.retry, Run.beginAccept])⟩
  | recvPrepare src reply hpc hi hsrc hm =>
    obtain ⟨hsame, hpc', -⟩ := countPrepare_frame r (some reply)
    exact ⟨_, .early (Run.not_decides hpc (by decide)) rfl hsame
      (Run.taken_not_decides (Run.not_decides (hpc'.trans hpc) (by decide)) (by decide) _ _)⟩
  | recvAccept src reply hpc hi hsrc hm =>
    obtain ⟨hsame, hpc', -⟩ := countAccept_frame r (some reply)
    exact ⟨_, .early (Run.not_decides hpc (by decide)) rfl hsame
      (Run.taken_not_decides (Run.not_decides (hpc'.trans hpc) (by decide)) (by decide) _ _)⟩
  | failPrepare src hpc hi hsrc | failAccept src hpc hi hsrc =>
    have hnot := Run.not_decides hpc (by decide)
    exact ⟨_, .early hnot rfl ⟨rfl, rfl, rfl⟩ (Run.taken_not_decides hnot (by decide) _ _)⟩
  | accepted hpc hok =>
    exact ⟨_, rfl, ⟨rfl, rfl, rfl⟩, fun hd => absurd hd (Run.not_decides hpc (by decide)),
      fun _ => .inr rfl⟩
  | ownDecide hpc hdst hme | callDecide hpc hdst hme =>
    exact ⟨_, rfl, ⟨rfl, rfl, rfl⟩, fun _ => ⟨.inl rfl, rfl⟩, fun _ => .inl (.inl hpc)⟩
  | decideCalled hpc hi =>
    exact ⟨_, rfl, ⟨rfl, rfl, rfl⟩, fun _ => ⟨.inr rfl, rfl⟩, fun _ => .inl (.inl hpc)⟩

/-- No run begins to decide from `w` to `w'`. -/
structure RunsKept (w w' : World H V) : Prop where
  back : ∀ r' ∈ w'.runs, ∃ r ∈ w.runs, r.Same r' ∧
    (r'.Decides → r.Decides ∧ r'.proposeValue = r.proposeValue)
  forth : ∀ r ∈ w.runs, r.Decides → ∃ r' ∈ w'.runs, r'.Decides ∧ r'.slotNum = r.slotNum

omit [DecidableEq H] [DecidableEq V]

theorem RunsKept.of_eq (h : w'.runs = w.runs) : RunsKept w w' := by
  refine ⟨fun r hr => ?_, fun r hr hd => ?_⟩
  · rw [h] at hr
    exact ⟨r, hr, ⟨rfl, rfl, rfl⟩, fun hd => ⟨hd, rfl⟩⟩
  · rw [← h] at hr
    exact ⟨r, hr, hd, rfl⟩

/-- A run that decides still does after a statement of any run. -/
theorem Onward.forth {r' : Run H V} (h : Onward w w' j r r') (hj : w.runs[j]? = some r)
    {r₁ : Run H V} (hr₁ : r₁ ∈ w.runs) (hd : r₁.Decides) :
    ∃ r₂ ∈ w'.runs, r₂.Decides ∧ r₂.slotNum = r₁.slotNum ∧
      r₂.proposeValue = r₁.proposeValue := by
  obtain ⟨k, hk⟩ := List.mem_iff_getElem?.mp hr₁
  have hlt : j < w.runs.length := (List.getElem?_eq_some_iff.mp hj).1
  rw [h.runs]
  by_cases hkj : k = j
  · subst hkj
    rw [hj] at hk
    cases hk
    obtain ⟨hd', hx⟩ := h.kept hd
    exact ⟨r', List.mem_of_getElem? (List.getElem?_set_self hlt), hd', h.same.2.1, hx⟩
  · have hk' : (w.runs.set j r')[k]? = some r₁ := by
      rw [List.getElem?_set_ne (Ne.symm hkj)]
      exact hk
    exact ⟨r₁, List.mem_of_getElem? hk', hd, rfl, rfl⟩

theorem RunsKept.of_onward {r' : Run H V} (h : Onward w w' j r r') (hj : w.runs[j]? = some r)
    (hd : r'.Decides → r.Decides) : RunsKept w w' := by
  refine ⟨fun r₁ hr₁ => ?_, fun r₁ hr₁ hd₁ => ?_⟩
  · rw [h.runs] at hr₁
    rcases List.mem_or_eq_of_mem_set hr₁ with hr₁ | rfl
    · exact ⟨r₁, hr₁, ⟨rfl, rfl, rfl⟩, fun hd₁ => ⟨hd₁, rfl⟩⟩
    · exact ⟨r, List.mem_of_getElem? hj, h.same, fun hd₁ => ⟨hd hd₁, (h.kept (hd hd₁)).2⟩⟩
  · obtain ⟨r₂, hr₂, hd₂, hs₂, -⟩ := h.forth hj hr₁ hd₁
    exact ⟨r₂, hr₂, hd₂, hs₂⟩

/-- A run stays where it is in the list and keeps its slot. -/
theorem slotNum_kept [DecidableEq H] [DecidableEq V] (h : w.step l = some w')
    (hj : w.runs[j]? = some r) : ∃ r', w'.runs[j]? = some r' ∧ r'.slotNum = r.slotNum := by
  have hlt : j < w.runs.length := (List.getElem?_eq_some_iff.mp hj).1
  cases step_takes h with
  | start p s v hl hw =>
    subst hw
    exact ⟨r, by rw [List.getElem?_append_left hlt, hj], rfl⟩
  | handled hh =>
    have hruns : w'.runs = w.runs := by cases hh <;> rfl
    exact ⟨r, by rw [hruns, hj], rfl⟩
  | moved k r₀ hk hst =>
    obtain ⟨r', ho⟩ := hst.onward
    rw [ho.runs]
    by_cases hjk : j = k
    · subst hjk
      rw [hj] at hk
      cases hk
      exact ⟨r', List.getElem?_set_self hlt, ho.same.2.1⟩
    · exact ⟨r, by rw [List.getElem?_set_ne (Ne.symm hjk), hj], rfl⟩

theorem start_last [DecidableEq H] [DecidableEq V] {p : H} {s : Int} {v : Option V}
    (h : w.step (.start p s v) = some w') :
    ∃ r', w'.runs[w.runs.length]? = some r' ∧ r'.slotNum = s := by
  cases h
  exact ⟨_, List.getElem?_concat_length, rfl⟩

/-! ## Slots that become decided -/

theorem Peer.prepare_isDecided (px : Peer H V) (s n s' : Int) :
    ((px.prepare s n).1.getTimeSlotValue s').isDecided = (px.getTimeSlotValue s').isDecided := by
  by_cases hs : s' = s
  · subst hs
    rcases px.prepare_cases s' n with ⟨-, h, -⟩ | ⟨-, h, -⟩ <;> rw [h]
  · rw [px.prepare_get_ne n hs]

theorem Peer.accept_isDecided (px : Peer H V) (s n : Int) (x : Option V) (s' : Int) :
    ((px.accept s n x).1.getTimeSlotValue s').isDecided = (px.getTimeSlotValue s').isDecided := by
  by_cases hs : s' = s
  · subst hs
    rcases px.accept_cases s' n x with ⟨-, h, -⟩ | ⟨-, h, -⟩ <;> rw [h]
  · rw [px.accept_get_ne n x hs]

theorem Peer.decide_isDecided (px : Peer H V) (s : Int) (x : Option V) (s' : Int) :
    ((px.decide s x).getTimeSlotValue s').isDecided =
      ((px.getTimeSlotValue s').isDecided || Decidable.decide (s' = s)) := by
  by_cases hs : s' = s
  · subst hs
    simp [px.decide_get]
  · simp [px.decide_get_ne x hs, hs]

/-- Which slots are marked decided from `w` to `w'`: those that were, and the
slot of a `Decide` that `l` has handled. -/
def Marks (w w' : World H V) (l : Lbl H V) : Prop :=
  (∀ i s, (w'.slot i s).isDecided = (w.slot i s).isDecided) ∨
  ∃ p s x, DecideFrom w l p s x ∧ ∀ i s', (w'.slot i s').isDecided =
    ((w.slot i s').isDecided || decide (i = p ∧ s' = s))

theorem Effect.marks [DecidableEq H] {w₁ : World H V} (h : Effect w l w₁) : Marks w w₁ l := by
  cases h with
  | idle | send => exact .inl fun _ _ => rfl
  | prepare j c p s n =>
    refine .inl fun i s' => ?_
    by_cases hi : i = p
    · subst hi
      simpa [World.slot, World.doPrepare] using (w.peer i).prepare_isDecided s n s'
    · simp [World.slot, World.doPrepare, Function.update_of_ne hi]
  | accept j c p s n x hf =>
    refine .inl fun i s' => ?_
    by_cases hi : i = p
    · subst hi
      simpa [World.slot, World.doAccept] using (w.peer i).accept_isDecided s n x s'
    · simp [World.slot, World.doAccept, Function.update_of_ne hi]
  | decide p s x hf =>
    refine .inr ⟨p, s, x, hf, fun i s' => ?_⟩
    by_cases hi : i = p
    · subst hi
      simpa [World.slot, World.doDecide] using (w.peer i).decide_isDecided s x s'
    · simp [World.slot, World.doDecide, hi]

theorem step_marks [DecidableEq H] [DecidableEq V] (h : w.step l = some w') : Marks w w' l := by
  rcases step_cases h with ⟨_, _, _, _, -, rfl⟩ | ⟨w₁, he, rfl | ⟨_, _, _, rfl, -⟩⟩
  · exact .inl fun _ _ => rfl
  · exact he.marks
  · exact he.marks

end Cmu440.Paxos
