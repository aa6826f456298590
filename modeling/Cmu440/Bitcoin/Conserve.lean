import Cmu440.Bitcoin.Mining

/-!
# No work is lost

The job of an active client is the abstract side: parts that are to do or
answered (`Cmu440.Job`). What is to do are the client's units in `jobQ` or with a
miner. Assigning a unit, a failed write, a lost miner and a lazy removal of the
units of lost clients do not change it; a result counted by `updateResult` is one
answer; a request opens a job.

`Conserved` states that and ties the client's status to its job: `notFinishedJob`
is what is left, and `minHash` and `nonce` are the best of the answers. A client
that is there and has no job has no units, so a second request starts afresh.

When the count reaches zero the answers are those of all units. If each of them is
the minimum of its range, the result sent is the minimum over all of them
(`JobSound.minimum`).
-/
namespace Cmu440.Bitcoin

/-! ## Jobs and statuses -/

/-- The best of the answers, as `updateResult` keeps it. -/
def bestAnswer (answers : List (WorkUnit × Answer)) : UInt64 × UInt64 :=
  best maxUint64 0 (answers.map fun p => (p.2.result.hash, p.2.result.nonce))

/-- A job made from `request`: every answer is one to the unit it counts for. -/
structure JobSound (request : Message) (j : Job WorkUnit Answer) : Prop where
  ok : j.Ok
  asked : ∀ p ∈ j.answers, p.2.request = p.1.workMsg
  data : ∀ u ∈ j.parts, u.workMsg.data = request.data

/-- The status agrees with the job. -/
structure ClientStatus.Of (st : ClientStatus) (j : Job WorkUnit Answer) : Prop where
  left : st.notFinishedJob = j.todo.card
  best : (st.minHash, st.nonce) = bestAnswer j.answers

section
variable {request : Message} {j : Job WorkUnit Answer} {u : WorkUnit} {a : Answer}
  {todo : Multiset WorkUnit}

theorem JobSound.start {units : List WorkUnit} (hnodup : units.Nodup)
    (hdata : ∀ u ∈ units, u.workMsg.data = request.data) : JobSound request (.start units) := by
  refine ⟨.start hnodup, ?_, hdata⟩
  intro p hp
  cases hp

theorem JobSound.answer (h : JobSound request j) (hu : j.todo = u ::ₘ todo)
    (ha : a.request = u.workMsg) : JobSound request ⟨j.parts, todo, j.answers ++ [(u, a)]⟩ := by
  refine ⟨h.ok.answer hu a, ?_, h.data⟩
  intro p hp
  rcases List.mem_append.mp hp with hp | hp
  · exact h.asked p hp
  · rw [List.mem_singleton.mp hp]
    exact ha

theorem ClientStatus.Of.start (units : List WorkUnit) :
    (newClientStatus units.length).Of (.start units) := ⟨rfl, rfl⟩

theorem bestAnswer_append (answers : List (WorkUnit × Answer)) (u : WorkUnit) (a : Answer) :
    bestAnswer (answers ++ [(u, a)]) =
      better (bestAnswer answers) (a.result.hash, a.result.nonce) := by
  rw [bestAnswer, List.map_append]
  exact best_append _ _ _ _

theorem ClientStatus.count_best (st : ClientStatus) (msg : Message) :
    ((st.count msg).minHash, (st.count msg).nonce) =
      better (st.minHash, st.nonce) (msg.hash, msg.nonce) := by
  unfold ClientStatus.count better
  simp only []
  split
  · rfl
  · rfl

theorem ClientStatus.count_left (st : ClientStatus) (msg : Message) :
    (st.count msg).notFinishedJob = st.notFinishedJob - 1 := by
  unfold ClientStatus.count
  simp only []
  split
  · rfl
  · rfl

theorem ClientStatus.Of.answer {st : ClientStatus} (h : st.Of j) (hu : j.todo = u ::ₘ todo) :
    (st.count a.result).Of ⟨j.parts, todo, j.answers ++ [(u, a)]⟩ := by
  refine ⟨?_, ?_⟩
  · rw [ClientStatus.count_left, h.left, hu, Multiset.card_cons]
    push_cast
    omega
  · rw [ClientStatus.count_best, h.best, ← bestAnswer_append]

end

/-! ## The result of a job -/

/-- The nonces a request asks for. -/
def Message.InRange (msg : Message) (i : UInt64) : Prop := msg.lower ≤ i ∧ i ≤ msg.upper

instance (msg : Message) (i : UInt64) : Decidable (msg.InRange i) :=
  inferInstanceAs (Decidable (_ ∧ _))

/-- The `Result` carries the minimum of the range it was asked for. -/
def Answer.Truthful (hash : String → UInt64 → UInt64) (a : Answer) : Prop :=
  IsMinimum (hash a.request.data) maxUint64 a.request.InRange a.result.hash a.result.nonce

/-- The best answer to a job of which every unit was answered truthfully. -/
theorem JobSound.minimum {request : Message} {j : Job WorkUnit Answer} (h : JobSound request j)
    (hdone : j.todo = 0) {hash : String → UInt64 → UInt64}
    (htrue : ∀ p ∈ j.answers, p.2.Truthful hash) :
    IsMinimum (hash request.data) maxUint64 (fun i => ∃ u ∈ j.parts, u.workMsg.InRange i)
      (bestAnswer j.answers).1 (bestAnswer j.answers).2 := by
  have hparts : ∀ p ∈ j.answers, IsMinimum (hash request.data) maxUint64 p.1.workMsg.InRange
      p.2.result.hash p.2.result.nonce := by
    intro p hp
    have hp' := htrue p hp
    rw [Answer.Truthful, h.asked p hp, h.data p.1 (h.ok.mem_parts hp)] at hp'
    exact hp'
  unfold bestAnswer
  have hbest := IsMinimum.best (fun p : WorkUnit × Answer => (p.2.result.hash, p.2.result.nonce)) 0
    hparts
  refine hbest.congr ?_
  intro i
  constructor
  · rintro ⟨p, hp, hi⟩
    exact ⟨p.1, h.ok.mem_parts hp, hi⟩
  · rintro ⟨u, hu, hi⟩
    rw [← h.ok.answered hdone, Job.mem_answered] at hu
    obtain ⟨a, ha⟩ := hu
    exact ⟨(u, a), ha, hi⟩

/-! ## The invariant -/

structure Conserved (m : Mining) : Prop where
  active : ∀ c st, m.server.clients.lookup c = some st →
    JobSound (m.requests c) (m.job c) ∧ st.Of (m.job c)
  idle : ∀ c, m.lost c = false → m.server.clients.lookup c = none → m.server.outstanding c = 0
  results : ∀ x ∈ m.results, JobSound x.request x.job ∧ x.job.todo = 0 ∧
    x.message = newResult (bestAnswer x.job.answers).1 (bestAnswer x.job.answers).2

/-- A step that opens and answers no job: the units of every client that is
active, or has none, stay outstanding. -/
theorem Conserved.of_same {m m' : Mining} (h : Conserved m)
    (hclients : ∀ c st, m'.server.clients.lookup c = some st → m.server.clients.lookup c = some st)
    (hidle : ∀ c, m'.lost c = false → m'.server.clients.lookup c = none →
      m.lost c = false ∧ m.server.clients.lookup c = none)
    (hout : ∀ c, m.server.clients.lookup c ≠ none ∨ m.server.outstanding c = 0 →
      m'.server.outstanding c = m.server.outstanding c)
    (hrequests : m'.requests = m.requests) (hparts : m'.parts = m.parts)
    (hanswers : m'.answers = m.answers) (hresults : m'.results = m.results) : Conserved m' := by
  refine ⟨?_, ?_, ?_⟩
  · intro c st hst
    have hst' := hclients c st hst
    have hjob : m'.job c = m.job c := by
      unfold Mining.job
      rw [hparts, hanswers, hout c (.inl (hst' ▸ nofun))]
    rw [hjob, hrequests]
    exact h.active c st hst'
  · intro c hlost hnone
    obtain ⟨hl, hn⟩ := hidle c hlost hnone
    have hzero := h.idle c hl hn
    rw [hout c (.inr hzero), hzero]
  · rw [hresults]
    exact h.results

theorem Conserved.opened {m : Mining} (h : Conserved m) {c : Int} {msg : Message}
    {units : List WorkUnit} (hlost : m.lost c = false) (hnew : m.server.clients.lookup c = none)
    (hnodup : units.Nodup)
    (hunits : ∀ u ∈ units, u.clientWorkFor = c ∧ u.workMsg.data = msg.data) :
    Conserved (m.opened c msg units) := by
  obtain ⟨hown, hothers⟩ := Scheduler.outstanding_pushJob (s := m.server) units.length
    fun u hu => (hunits u hu).1
  refine ⟨?_, ?_, h.results⟩
  · intro c' st hst
    have hst' : (m.server.clients.insert c (newClientStatus units.length)).lookup c' = some st := hst
    by_cases hc : c' = c
    · subst hc
      rw [AList.lookup_insert] at hst'
      cases hst'
      have hjob : (m.opened c' msg units).job c' = .start units := by
        simp only [Mining.job, Mining.opened, Function.update_self, hown, h.idle c' hlost hnew,
          zero_add]
        rfl
      rw [hjob]
      refine ⟨?_, .start units⟩
      show JobSound (Function.update m.requests c' msg c') _
      rw [Function.update_self]
      exact .start hnodup fun u hu => (hunits u hu).2
    · rw [AList.lookup_insert_ne hc] at hst'
      have hjob : (m.opened c msg units).job c' = m.job c' := by
        simp only [Mining.job, Mining.opened, Function.update_of_ne hc, hothers c' hc]
      rw [hjob]
      show JobSound (Function.update m.requests c msg c') _ ∧ _
      rw [Function.update_of_ne hc]
      exact h.active c' st hst'
  · intro c' hl hnone
    have hnone' : (m.server.clients.insert c (newClientStatus units.length)).lookup c' = none := hnone
    have hc : c' ≠ c := by
      rintro rfl
      rw [AList.lookup_insert] at hnone'
      cases hnone'
    rw [AList.lookup_insert_ne hc] at hnone'
    exact (hothers c' hc).trans (h.idle c' hl hnone')

section
variable {m : Mining} {k : Int} {u : WorkUnit} {a : Answer} {rest : List Message}

theorem job_answered_of_ne (a : Answer) (rest : List Message)
    (hw : m.server.minerCurrWork.lookup k = some (some u)) {c : Int} (hc : c ≠ u.clientWorkFor) :
    (m.answered k u a rest).job c = m.job c := by
  simp only [Mining.job, Mining.answered, Function.update_of_ne hc,
    (Scheduler.outstanding_free hw).2 c hc]

theorem job_answered : (m.answered k u a rest).job u.clientWorkFor =
    ⟨(m.job u.clientWorkFor).parts, (m.server.free k).outstanding u.clientWorkFor,
      (m.job u.clientWorkFor).answers ++ [(u, a)]⟩ := by
  simp only [Mining.job, Mining.answered, Function.update_self]

/-- An answer to `u` concerns the client of `u` alone. -/
theorem Conserved.answered (h : Conserved m)
    (hw : m.server.minerCurrWork.lookup k = some (some u))
    {clients : AList fun _ : Int => ClientStatus}
    (hothers : ∀ c, c ≠ u.clientWorkFor → clients.lookup c = m.server.clients.lookup c)
    (hactive : ∀ st, clients.lookup u.clientWorkFor = some st →
      JobSound (m.requests u.clientWorkFor) ((m.answered k u a rest).job u.clientWorkFor) ∧
      st.Of ((m.answered k u a rest).job u.clientWorkFor))
    (hidle : m.lost u.clientWorkFor = false → clients.lookup u.clientWorkFor = none →
      (m.server.free k).outstanding u.clientWorkFor = 0) :
    Conserved ((m.answered k u a rest).withClients clients) := by
  refine ⟨?_, ?_, h.results⟩
  · intro c st hst
    by_cases hc : c = u.clientWorkFor
    · subst hc
      exact hactive st hst
    · have hjob : ((m.answered k u a rest).withClients clients).job c = m.job c :=
        job_answered_of_ne a rest hw hc
      rw [hjob]
      exact h.active c st ((hothers c hc).symm.trans hst)
  · intro c hlost hnone
    by_cases hc : c = u.clientWorkFor
    · subst hc
      exact hidle hlost hnone
    · exact ((Scheduler.outstanding_free hw).2 c hc).trans
        (h.idle c hlost ((hothers c hc).symm.trans hnone))

/-- The job and the status of the client after a counted answer. -/
theorem Conserved.counted (h : Conserved m) (hreg : Registered m)
    (hw : m.server.minerCurrWork.lookup k = some (some u)) (ha : m.asked k = a.request :: rest)
    {st : ClientStatus} (hst : m.server.clients.lookup u.clientWorkFor = some st) :
    JobSound (m.requests u.clientWorkFor) ((m.answered k u a rest).job u.clientWorkFor) ∧
    (st.count a.result).Of ((m.answered k u a rest).job u.clientWorkFor) := by
  obtain ⟨hsound, hof⟩ := h.active _ st hst
  have htodo := (Scheduler.outstanding_free hw).1
  have hasked : a.request = u.workMsg := by
    have hentry := (hreg.roster k).asked
    rw [ha, hw] at hentry
    exact (List.cons.inj hentry).1
  rw [job_answered]
  exact ⟨hsound.answer htodo hasked, hof.answer htodo⟩

end

theorem Conserved.send {m : Mining} (h : Conserved m) {c : Int} {message : Message}
    (hsound : JobSound (m.requests c) (m.job c)) (hdone : (m.job c).todo = 0)
    (hmessage : message = newResult (bestAnswer (m.job c).answers).1
      (bestAnswer (m.job c).answers).2) : Conserved (m.send [(c, message)]) := by
  refine ⟨h.active, h.idle, ?_⟩
  intro x hx
  rcases List.mem_append.mp hx with hx | hx
  · exact h.results x hx
  · rw [List.mem_singleton.mp hx]
    exact ⟨hsound, hdone, hmessage⟩

/-- A status of which nothing is left belongs to a finished job. -/
theorem ClientStatus.Of.done {st : ClientStatus} {j : Job WorkUnit Answer} (h : st.Of j)
    (h0 : st.notFinishedJob = 0) :
    j.todo = 0 ∧ newResult st.minHash st.nonce =
      newResult (bestAnswer j.answers).1 (bestAnswer j.answers).2 := by
  have hleft := h.left
  rw [h0] at hleft
  refine ⟨Multiset.card_eq_zero.mp (by omega), ?_⟩
  rw [← h.best]

theorem Conserved.moves {m m' : Mining} (h : Conserved m) (hreg : Registered m)
    (hm : m.Moves m') : Conserved m' := by
  cases hm with
  | @assign order writes hperm =>
    have hassigned := (assigned_assignJobs hreg.roster hperm writes).1
    refine h.of_same ?_ ?_ hassigned.outstanding rfl rfl rfl rfl
    · intro c st hst
      rw [← hassigned.clients]
      exact hst
    · intro c hlost hnone
      rw [← hassigned.clients]
      exact ⟨hlost, hnone⟩
  | @join k hlost hrole =>
    have hnew : k ∉ m.server.minerCurrWork := by
      rw [hreg.miners k, hrole]
      simp
    exact h.of_same (fun _ _ hst => hst) (fun _ hl hn => ⟨hl, hn⟩)
      (fun c _ => Scheduler.outstanding_free_of_notMem hnew c) rfl rfl rfl rfl
  | request hlost hrole hnew hnodup hunits => exact h.opened hlost hnew hnodup hunits
  | ignored hrole =>
    exact h.of_same (fun _ _ hst => hst) (fun _ hl hn => ⟨hl, hn⟩) (fun _ _ => rfl) rfl rfl rfl rfl
  | dropped hw ha hst =>
    refine h.answered hw (fun _ _ => rfl) ?_ ?_
    · intro st hst'
      rw [hst] at hst'
      cases hst'
    · intro hlost _
      -- the client is gone, or its unit would be outstanding
      have hzero := h.idle _ hlost hst
      rw [(Scheduler.outstanding_free hw).1] at hzero
      exact absurd hzero Multiset.cons_ne_zero
  | @counted k u a rest st hw ha hst =>
    refine h.answered hw (fun _ hc => AList.lookup_insert_ne hc) ?_ ?_
    · intro st' hst'
      rw [AList.lookup_insert] at hst'
      cases hst'
      exact h.counted hreg hw ha hst
    · intro _ hnone
      rw [AList.lookup_insert] at hnone
      cases hnone
  | @finished k u a rest st hw ha hst hdone =>
    obtain ⟨hsound, hof⟩ := h.counted hreg hw ha hst
    obtain ⟨htodo, hmessage⟩ := hof.done hdone
    refine Conserved.send ?_ hsound htodo hmessage
    refine h.answered hw (fun _ hc => AList.lookup_erase_ne hc) ?_ ?_
    · intro st' hst'
      rw [AList.lookup_erase] at hst'
      cases hst'
    · intro _ _
      rw [job_answered] at htodo
      exact htodo
  | @failure k =>
    refine h.of_same ?_ ?_ (fun c _ => m.server.outstanding_handleFailure k c) rfl rfl rfl rfl
    · intro c st hst
      exact Scheduler.lookup_of_handleFailure hst
    · intro c hlost hnone
      have hc : c ≠ k := by
        rintro rfl
        simp at hlost
      simp only [Function.update_of_ne hc] at hlost
      exact ⟨hlost, (Scheduler.lookup_handleFailure_of_ne m.server hc).symm.trans hnone⟩

theorem conserved_inductive : mining.Inductive fun m => Registered m ∧ Conserved m where
  init := by
    intro m hm
    refine ⟨registered_inductive.init m hm, ?_⟩
    cases hm
    refine ⟨?_, fun c _ _ => rfl, ?_⟩
    · intro c st hst
      cases hst
    · intro x hx
      cases hx
  step := by
    rintro m l m' ⟨hreg, h⟩ hs
    exact ⟨registered_inductive.step m l m' hreg hs, h.moves hreg (Mining.moves_of_step hs)⟩

/-! ## Counting the places of a unit -/

theorem card_outstanding (s : Scheduler) (c : Int) : (s.outstanding c).card =
    s.jobQ.countP (fun u => u.clientWorkFor = c) +
      workersOn s.minerCurrWork fun u => u.clientWorkFor = c := by
  rw [Scheduler.outstanding, ← Multiset.countP_eq_card_filter, Multiset.countP_add,
    ← countP_occupied, Multiset.coe_countP]

theorem count_outstanding {s : Scheduler} {c : Int} {u : WorkUnit} (h : u ∈ s.outstanding c) :
    (s.outstanding c).count u = s.jobQ.count u + workersOn s.minerCurrWork (u = ·) := by
  have hc : u.clientWorkFor = c := (Scheduler.mem_outstanding.mp h).2
  rw [Scheduler.outstanding, Multiset.count_filter, if_pos hc, Multiset.count_add,
    Multiset.coe_count, ← countP_occupied]
  rfl

/-- No work is lost or done twice, and what a client is told is the minimum.

In every state of every run, a client's `notFinishedJob` is the number of its
units in `jobQ` plus the number of miners that work on one of them, and each unit
that was not answered is in exactly one of these places. Every `Result` sent ends
a job all of whose units were answered; if the answers are the minima of their
ranges, it carries the minimum over the ranges of all units, and a nonce that
attains it if it is below 2^64-1. Nothing the connections may send makes the
server panic. -/
theorem work_conserved {m : Mining} (hr : mining.Reachable m) :
    (∀ c st, m.server.clients.lookup c = some st →
      (m.job c).Ok ∧
      st.notFinishedJob = ↑(m.server.jobQ.countP (fun u => u.clientWorkFor = c) +
        workersOn m.server.minerCurrWork fun u => u.clientWorkFor = c) ∧
      ∀ u ∈ m.parts c, (∀ a, (u, a) ∉ m.answers c) →
        m.server.jobQ.count u + workersOn m.server.minerCurrWork (u = ·) = 1) ∧
    (∀ x ∈ m.results, x.message.type = .result ∧ x.job.answered = x.job.parts ∧
      ∀ hash : String → UInt64 → UInt64, (∀ p ∈ x.job.answers, p.2.Truthful hash) →
        IsMinimum (hash x.request.data) maxUint64 (fun i => ∃ u ∈ x.job.parts, u.workMsg.InRange i)
          x.message.hash x.message.nonce) ∧
    ∀ event, m.reading = true → m.admits event = true → ∃ m', mining.step m (.read event) m' := by
  obtain ⟨hreg, h⟩ := conserved_inductive.reachable m hr
  refine ⟨?_, ?_, fun event hreading hg => read_completes hreg hreading hg⟩
  · intro c st hst
    obtain ⟨hsound, hof⟩ := h.active c st hst
    refine ⟨hsound.ok, ?_, ?_⟩
    · rw [← card_outstanding]
      exact hof.left
    · intro u hu hnot
      have hone := hsound.ok.count_todo hu fun hm => (Job.mem_answered.mp hm).elim hnot
      rw [← count_outstanding (c := c)]
      · exact hone
      · exact Multiset.one_le_count_iff_mem.mp hone.ge
  · intro x hx
    obtain ⟨hsound, hdone, hmessage⟩ := h.results x hx
    rw [hmessage]
    exact ⟨rfl, hsound.ok.answered hdone, fun hash htrue => hsound.minimum hdone htrue⟩

/-- A job is cut into two units; the miner with the first one is lost, and the
other miner answers the second one. -/
def minerLost : List MiningLbl :=
  [.assign [] fun _ => true, .read (.message 2 newJoin),
    .assign [2] fun _ => true, .read (.message 3 newJoin),
    .assign [3, 2] fun _ => true, .read (.message 1 (newRequest "" 0 19999)),
    .assign [2, 3] fun _ => true, .read (.failure 2),
    .assign [] fun _ => true, .read (.message 3 (newResult 7 10004))]

/-- The first unit is sent again once a write succeeds. -/
def unitSentAgain : List MiningLbl :=
  [.assign [3] fun _ => false, .read (.message 4 newJoin),
    .assign [3, 4] fun k => k = 4, .read (.message 4 (newResult 5 3))]

def halfAnswered : Mining := LTS.execD Mining.step .init minerLost

def allAnswered : Mining := LTS.execD Mining.step .init (minerLost ++ unitSentAgain)

/-- A hash function of which the two miners found the minima. -/
def twoDips (_ : String) (i : UInt64) : UInt64 := if i = 3 then 5 else if i = 10004 then 7 else 9

theorem twoDips_first : (Answer.mk (newRequest "" 0 9999) (newResult 5 3)).Truthful twoDips := by
  refine ⟨?_, fun _ => ⟨by decide, rfl⟩⟩
  intro i _
  show 5 ≤ twoDips "" i
  unfold twoDips
  split
  · decide
  · split <;> decide

theorem twoDips_second :
    (Answer.mk (newRequest "" 10000 19999) (newResult 7 10004)).Truthful twoDips := by
  refine ⟨?_, fun _ => ⟨by decide, rfl⟩⟩
  intro i hi
  show 7 ≤ twoDips "" i
  have hne : i ≠ 3 := by
    rintro rfl
    exact absurd hi.1 (by decide)
  unfold twoDips
  rw [if_neg hne]
  split <;> decide

theorem lost_miner_conserved :
    (halfAnswered.server.clients.lookup 1 = some ⟨1, 7, 10004⟩ ∧ (halfAnswered.job 1).Ok) ∧
    ∃ x ∈ allAnswered.results, x.client = 1 ∧ x.message = newResult 5 3 ∧
      (∀ p ∈ x.job.answers, p.2.Truthful twoDips) ∧
      IsMinimum (twoDips x.request.data) maxUint64
        (fun i => ∃ u ∈ x.job.parts, u.workMsg.InRange i) x.message.hash x.message.nonce := by
  have hhalf : mining.Reachable halfAnswered :=
    ⟨_, minerLost, rfl, LTS.run_execD (by decide +kernel)⟩
  have hall : mining.Reachable allAnswered :=
    ⟨_, minerLost ++ unitSentAgain, rfl, LTS.run_execD (by decide +kernel)⟩
  have hst : halfAnswered.server.clients.lookup 1 = some ⟨1, 7, 10004⟩ := by decide +kernel
  have hsent : (1, newResult 5 3, [(newRequest "" 10000 19999, newResult 7 10004),
      (newRequest "" 0 9999, newResult 5 3)]) ∈ allAnswered.results.map fun x =>
        (x.client, x.message, x.job.answers.map fun p => (p.2.request, p.2.result)) := by
    decide +kernel
  obtain ⟨x, hx, heq⟩ := List.mem_map.mp hsent
  simp only [Prod.mk.injEq] at heq
  obtain ⟨hclient, hmessage, hanswers⟩ := heq
  have htrue : ∀ p ∈ x.job.answers, p.2.Truthful twoDips := by
    intro p hp
    have hmem : (p.2.request, p.2.result) ∈ x.job.answers.map fun p => (p.2.request, p.2.result) :=
      List.mem_map.mpr ⟨p, hp, rfl⟩
    rw [hanswers] at hmem
    unfold Answer.Truthful
    rcases List.mem_cons.mp hmem with h | h
    · obtain ⟨hreq, hres⟩ := Prod.mk.inj h
      rw [hreq, hres]
      exact twoDips_second
    · obtain ⟨hreq, hres⟩ := Prod.mk.inj (List.mem_singleton.mp h)
      rw [hreq, hres]
      exact twoDips_first
  exact ⟨⟨hst, ((work_conserved hhalf).1 1 _ hst).1⟩, x, hx, hclient, hmessage, htrue,
    ((work_conserved hall).2.1 x hx).2.2 twoDips htrue⟩

end Cmu440.Bitcoin
