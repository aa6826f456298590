import Cmu440.Bitcoin.Scheduler
import Cmu440.Core.LTS
import Mathlib.Logic.Function.Basic

/-!
# The mining system

The main loop of server.go (239-250) with the clients and the miners around it.
A turn of the loop is an `assign` step, in which `range` takes any order and any
`Write` may fail, and a `read` step, in which `lspServer.Read` returns a message
or the failure of a connection.

What the connections do is the guard `admits`. A connection id belongs to one
connection and nothing is read from a connection after its failure. A miner sends
one `Join` first and then one `Result` for each `Request` that was written to it
(`asked` are those it has not answered); a client sends `Request`s only. A failure
may be reported at any time, of any connection.

Ghost fields follow the jobs: for each client the request its job was made from,
the units the job was cut into and the answers that came for them. `results` are
the `Result`s sent to clients, each with the job it ends.

`Registered` is about the two maps of miners: they agree, and a miner has been
asked for exactly the unit it is registered with. So a `Result` always meets a
unit, and no message makes the server panic (`read_completes`).
-/
namespace Cmu440.Bitcoin

inductive Role
  | client | miner
  deriving DecidableEq, Repr

/-- A `Result` and the `Request` it answers. -/
structure Answer where
  request : Message
  result : Message

/-- A `Result` sent to `client`, whose request it was and the job it ends. -/
structure SentResult where
  client : Int
  request : Message
  job : Job WorkUnit Answer
  message : Message

structure Mining where
  server : Scheduler
  /-- between `assignJobsToUnoccupiedMiner` and the handling of what `Read` returns -/
  reading : Bool
  role : Int → Option Role
  lost : Int → Bool
  /-- the requests written to a miner that it has not answered -/
  asked : Int → List Message
  /-- ghost: the request a client's job was made from -/
  requests : Int → Message
  /-- ghost: the units the job was cut into -/
  parts : Int → Multiset WorkUnit
  /-- ghost: the answers to units of the job -/
  answers : Int → List (WorkUnit × Answer)
  /-- ghost -/
  results : List SentResult

inductive ReadEvent
  | message (connId : Int) (msg : Message)
  | failure (connId : Int)

inductive MiningLbl
  | assign (order : List Int) (writes : Int → Bool)
  | read (event : ReadEvent)

/-- `out` was written. -/
def ask (asked : Int → List Message) (out : List (Int × Message)) (k : Int) : List Message :=
  asked k ++ (out.filter fun o => o.1 = k).map Prod.snd

namespace Mining

def init : Mining where
  server := .init
  reading := false
  role _ := none
  lost _ := false
  asked _ := []
  requests _ := newRequest "" 0 0
  parts _ := 0
  answers _ := []
  results := []

/-- The job of a client as it stands. -/
def job (m : Mining) (c : Int) : Job WorkUnit Answer :=
  ⟨m.parts c, m.server.outstanding c, m.answers c⟩

def admits (m : Mining) : ReadEvent → Bool
  | .message connId msg =>
    !m.lost connId &&
      match msg.type with
      | .join => m.role connId = none
      | .request => m.role connId ≠ some .miner
      | .result => m.role connId = some .miner ∧ m.asked connId ≠ []
      | .other _ => false
  | .failure _ => true

/-- What is recorded of a message; `server` is the state it leads to. -/
def note (m : Mining) (connId : Int) (msg : Message) (server : Scheduler) : Mining :=
  match msg.type with
  | .join => { m with role := Function.update m.role connId (some .miner) }
  | .request =>
    let m := { m with role := Function.update m.role connId (some .client) }
    if m.server.clients.lookup connId = none then
      { m with requests := Function.update m.requests connId msg,
               parts := Function.update m.parts connId (server.jobQ.drop m.server.jobQ.length),
               answers := Function.update m.answers connId [] }
    else m
  | .result =>
    match m.server.currWork connId, m.asked connId with
    | some workU, request :: asked =>
      { m with asked := Function.update m.asked connId asked,
               answers := Function.update m.answers workU.clientWorkFor
                 (m.answers workU.clientWorkFor ++ [(workU, ⟨request, msg⟩)]) }
    | _, _ => m
  | .other _ => m

/-- The results `out` are sent. -/
def send (m : Mining) (out : List (Int × Message)) : Mining :=
  { m with results := m.results ++ out.map fun o => ⟨o.1, m.requests o.1, m.job o.1, o.2⟩ }

/-- The message was handled, with the result `r`. -/
def received (m : Mining) (connId : Int) (msg : Message) (r : Scheduler × List (Int × Message)) :
    Mining :=
  ({ m.note connId msg r.1 with server := r.1, reading := false }).send r.2

def step (m : Mining) : MiningLbl → Option Mining
  | .assign order writes =>
    if m.reading = false ∧ order.Perm m.server.unOccupiedMiner.keys then
      let r := m.server.assignJobsToUnoccupiedMiner order writes
      some { m with server := r.1, reading := true, asked := ask m.asked r.2 }
    else none
  | .read event =>
    if m.reading = true ∧ m.admits event = true then
      match event with
      | .message connId msg =>
        (m.server.handleIncomeMessage connId (some msg)).map (m.received connId msg)
      | .failure connId =>
        some { m with server := m.server.handleFailure connId, reading := false,
                      lost := Function.update m.lost connId true,
                      asked := Function.update m.asked connId [] }
    else none

end Mining

/-- Every run of the main loop. -/
def mining : LTS Mining MiningLbl := LTS.ofFn (· = .init) Mining.step

namespace Mining

/-! ## What a step can do -/

/-- A job for `c` was made of `units`. -/
def opened (m : Mining) (c : Int) (msg : Message) (units : List WorkUnit) : Mining :=
  { m with server := m.server.pushJob c units units.length, reading := false,
           role := Function.update m.role c (some .client),
           requests := Function.update m.requests c msg, parts := Function.update m.parts c units,
           answers := Function.update m.answers c [] }

/-- The miner `k` answered `u`; the status of the client is not yet updated. -/
def answered (m : Mining) (k : Int) (u : WorkUnit) (a : Answer) (rest : List Message) : Mining :=
  { m with server := m.server.free k, reading := false, asked := Function.update m.asked k rest,
           answers := Function.update m.answers u.clientWorkFor
             (m.answers u.clientWorkFor ++ [(u, a)]) }

def withClients (m : Mining) (clients : AList fun _ : Int => ClientStatus) : Mining :=
  { m with server := { m.server with clients := clients } }

/-- The transitions, by what they do to the jobs. -/
inductive Moves (m : Mining) : Mining → Prop
  | assign {order : List Int} {writes : Int → Bool}
      (hperm : order.Perm m.server.unOccupiedMiner.keys) :
      Moves m { m with server := (m.server.assignJobsToUnoccupiedMiner order writes).1
                       reading := true
                       asked := ask m.asked (m.server.assignJobsToUnoccupiedMiner order writes).2 }
  | join {k : Int} (hlost : m.lost k = false) (hrole : m.role k = none) :
      Moves m { m with server := m.server.free k, reading := false,
                       role := Function.update m.role k (some .miner) }
  | request {c : Int} {msg : Message} {units : List WorkUnit} (hlost : m.lost c = false)
      (hrole : m.role c ≠ some .miner) (hnew : m.server.clients.lookup c = none)
      (hnodup : units.Nodup)
      (hunits : ∀ u ∈ units, u.clientWorkFor = c ∧ u.workMsg.data = msg.data) :
      Moves m (m.opened c msg units)
  | ignored {c : Int} (hrole : m.role c ≠ some .miner) :
      Moves m { m with reading := false, role := Function.update m.role c (some .client) }
  | dropped {k : Int} {u : WorkUnit} {a : Answer} {rest : List Message}
      (hw : m.server.minerCurrWork.lookup k = some (some u)) (ha : m.asked k = a.request :: rest)
      (hst : m.server.clients.lookup u.clientWorkFor = none) : Moves m (m.answered k u a rest)
  | counted {k : Int} {u : WorkUnit} {a : Answer} {rest : List Message} {st : ClientStatus}
      (hw : m.server.minerCurrWork.lookup k = some (some u)) (ha : m.asked k = a.request :: rest)
      (hst : m.server.clients.lookup u.clientWorkFor = some st) :
      Moves m ((m.answered k u a rest).withClients
        (m.server.clients.insert u.clientWorkFor (st.count a.result)))
  | finished {k : Int} {u : WorkUnit} {a : Answer} {rest : List Message} {st : ClientStatus}
      (hw : m.server.minerCurrWork.lookup k = some (some u)) (ha : m.asked k = a.request :: rest)
      (hst : m.server.clients.lookup u.clientWorkFor = some st)
      (hdone : (st.count a.result).notFinishedJob = 0) :
      Moves m (((m.answered k u a rest).withClients (m.server.clients.erase u.clientWorkFor)).send
        [(u.clientWorkFor, newResult (st.count a.result).minHash (st.count a.result).nonce)])
  | failure {k : Int} :
      Moves m { m with server := m.server.handleFailure k, reading := false,
                       lost := Function.update m.lost k true,
                       asked := Function.update m.asked k [] }

theorem lookup_of_currWork {s : Scheduler} {k : Int} {u : WorkUnit} (h : s.currWork k = some u) :
    s.minerCurrWork.lookup k = some (some u) := Option.join_eq_some_iff.mp h

theorem send_nil (m : Mining) : m.send [] = m := by
  unfold send
  rw [List.map_nil, List.append_nil]

theorem moves_of_request {m : Mining} {k : Int} {msg : Message}
    {r : Scheduler × List (Int × Message)} (hty : msg.type = .request) (hlost : m.lost k = false)
    (hrole : m.role k ≠ some .miner) (h : m.server.handleIncomeMessage k (some msg) = some r) :
    m.Moves (m.received k msg r) := by
  simp only [Scheduler.handleIncomeMessage, hty] at h
  split at h
  · rename_i hnew
    cases h
    obtain ⟨units, heq, hnodup, hunits⟩ := m.server.partitionJob_eq k msg
    have hdrop : (m.server.partitionJob k msg).jobQ.drop m.server.jobQ.length = units := by
      rw [heq]
      exact List.drop_left
    have hm := Moves.request (m := m) hlost hrole hnew hnodup hunits
    simp only [received, note, hty, hnew, if_true, hdrop, send_nil]
    rw [heq]
    exact hm
  · rename_i hold
    cases h
    simp only [received, note, hty, if_neg hold, send_nil]
    exact .ignored hrole

theorem moves_of_result {m : Mining} {k : Int} {msg : Message}
    {r : Scheduler × List (Int × Message)} (hty : msg.type = .result) (hasked : m.asked k ≠ [])
    (h : m.server.handleIncomeMessage k (some msg) = some r) : m.Moves (m.received k msg r) := by
  simp only [Scheduler.handleIncomeMessage, hty, Scheduler.updateResult] at h
  obtain ⟨request, rest, hreq⟩ := List.exists_cons_of_ne_nil hasked
  split at h
  · cases h
  · rename_i u hwork
    have hw := lookup_of_currWork hwork
    split at h
    · rename_i hst
      cases h
      simp only [received, note, hty, hwork, hreq, send_nil]
      exact .dropped (a := ⟨request, msg⟩) hw hreq hst
    · rename_i st hst
      split at h
      · rename_i hdone
        cases h
        simp only [received, note, hty, hwork, hreq]
        exact .finished (a := ⟨request, msg⟩) hw hreq hst hdone
      · cases h
        simp only [received, note, hty, hwork, hreq, send_nil]
        exact .counted (a := ⟨request, msg⟩) hw hreq hst

theorem moves_of_message {m : Mining} {k : Int} {msg : Message}
    {r : Scheduler × List (Int × Message)} (hg : m.admits (.message k msg) = true)
    (h : m.server.handleIncomeMessage k (some msg) = some r) : m.Moves (m.received k msg r) := by
  simp only [admits, Bool.and_eq_true, Bool.not_eq_true'] at hg
  obtain ⟨hlost, hg⟩ := hg
  cases hty : msg.type with
  | join =>
    rw [hty] at hg
    simp only [Scheduler.handleIncomeMessage, hty] at h
    cases h
    simp only [received, note, hty, send_nil]
    exact .join hlost (of_decide_eq_true hg)
  | request =>
    rw [hty] at hg
    exact moves_of_request hty hlost (of_decide_eq_true hg) h
  | result =>
    rw [hty] at hg
    exact moves_of_result hty (of_decide_eq_true hg).2 h
  | other code =>
    rw [hty] at hg
    cases hg

theorem moves_of_step {m m' : Mining} {l : MiningLbl} (h : m.step l = some m') : m.Moves m' := by
  unfold step at h
  split at h
  · split at h
    · rename_i hg
      cases h
      exact .assign hg.2
    · cases h
  · split at h
    · rename_i hg
      split at h
      · obtain ⟨r, hr, rfl⟩ := Option.map_eq_some_iff.mp h
        exact moves_of_message hg.2 hr
      · cases h
        exact .failure
    · cases h

end Mining

/-! ## The maps of miners -/

theorem ask_nil (asked : Int → List Message) : ask asked [] = asked := by
  funext k
  exact List.append_nil _

theorem ask_append (asked : Int → List Message) (out out' : List (Int × Message)) :
    ask asked (out ++ out') = ask (ask asked out) out' := by
  funext k
  rw [ask, ask, ask, List.filter_append, List.map_append, List.append_assoc]

theorem ask_single (asked : Int → List Message) (connId : Int) (msg : Message) :
    ask asked [(connId, msg)] = Function.update asked connId (asked connId ++ [msg]) := by
  funext k
  by_cases hk : k = connId
  · subst hk
    simp [ask]
  · simp [ask, Function.update_of_ne hk, Ne.symm hk]

/-- What the server knows of one miner, and what the miner was asked for. -/
structure Entry (unOccupied : Prop) (work : Option (Option WorkUnit)) (asked : List Message) :
    Prop where
  free : unOccupied ↔ work = some none
  asked : asked = work.join.toList.map WorkUnit.workMsg

/-- The two maps of miners agree, and each miner was asked for its unit. -/
def Roster (s : Scheduler) (asked : Int → List Message) : Prop :=
  ∀ k, Entry (k ∈ s.unOccupiedMiner) (s.minerCurrWork.lookup k) (asked k)

section
variable {s : Scheduler} {asked : Int → List Message}

/-- A step that concerns the miner `k` alone. -/
theorem Roster.of_entry (h : Roster s asked) {s' : Scheduler} {asked' : Int → List Message}
    (k : Int) (hk : Entry (k ∈ s'.unOccupiedMiner) (s'.minerCurrWork.lookup k) (asked' k))
    (hrest : ∀ j, j ≠ k → (j ∈ s'.unOccupiedMiner ↔ j ∈ s.unOccupiedMiner) ∧
      s'.minerCurrWork.lookup j = s.minerCurrWork.lookup j ∧ asked' j = asked j) :
    Roster s' asked' := by
  intro j
  by_cases hj : j = k
  · rw [hj]
    exact hk
  · obtain ⟨hmem, hlook, hask⟩ := hrest j hj
    rw [hmem, hlook, hask]
    exact h j

theorem Roster.free (h : Roster s asked) (k : Int) :
    Roster (s.free k) (Function.update asked k []) := by
  refine h.of_entry k ?_ ?_
  · simp only [Scheduler.free, AList.mem_insert, AList.lookup_insert, true_or, Function.update_self]
    exact ⟨by simp, rfl⟩
  · intro j hj
    simp only [Scheduler.free, AList.mem_insert, hj, false_or, AList.lookup_insert_ne hj,
      Function.update_of_ne hj, and_self]

theorem Roster.assign (h : Roster s asked) {k : Int} (hk : k ∈ s.unOccupiedMiner) (u : WorkUnit)
    (rest : List WorkUnit) : Roster (s.assign k u rest) (ask asked [(k, u.workMsg)]) := by
  have hidle : asked k = [] := by
    rw [(h k).asked, (h k).free.mp hk]
    rfl
  rw [ask_single, hidle]
  refine h.of_entry k ?_ ?_
  · simp only [Scheduler.assign, AList.mem_erase, AList.lookup_insert, ne_eq, not_true_eq_false,
      false_and, Function.update_self]
    exact ⟨by simp, rfl⟩
  · intro j hj
    simp only [Scheduler.assign, AList.mem_erase, ne_eq, hj, not_false_eq_true, true_and,
      AList.lookup_insert_ne hj, Function.update_of_ne hj, and_self]

theorem Roster.handleFailure (h : Roster s asked) (k : Int) :
    Roster (s.handleFailure k) (Function.update asked k []) := by
  unfold Scheduler.handleFailure
  split
  · refine h.of_entry k ?_ ?_
    · simp only [AList.mem_erase, AList.lookup_erase, ne_eq, not_true_eq_false, false_and,
        Function.update_self]
      exact ⟨by simp, rfl⟩
    · intro j hj
      simp only [AList.mem_erase, ne_eq, hj, not_false_eq_true, true_and, AList.lookup_erase_ne hj,
        Function.update_of_ne hj, and_self]
  · rename_i hk
    have hsilent : Function.update asked k [] = asked := by
      rw [Function.update_eq_self_iff, (h k).asked, hk]
      rfl
    rw [hsilent]
    split
    · exact h
    · exact h

end

/-! ## Assigning units -/

/-- What assigning units does not change: the clients, the miners that are there
and the units of clients that are active, or have none. -/
structure Assigned (s s' : Scheduler) : Prop where
  clients : s'.clients = s.clients
  miners : ∀ k, k ∈ s'.minerCurrWork ↔ k ∈ s.minerCurrWork
  outstanding : ∀ c, s.clients.lookup c ≠ none ∨ s.outstanding c = 0 →
    s'.outstanding c = s.outstanding c

theorem Assigned.refl (s : Scheduler) : Assigned s s := ⟨rfl, fun _ => Iff.rfl, fun _ _ => rfl⟩

theorem Assigned.trans {s s₁ s' : Scheduler} (h : Assigned s s₁) (h' : Assigned s₁ s') :
    Assigned s s' := by
  refine ⟨h'.clients.trans h.clients, fun k => (h'.miners k).trans (h.miners k), ?_⟩
  intro c hc
  have hkept := h.outstanding c hc
  rw [h'.outstanding c, hkept]
  rw [h.clients, hkept]
  exact hc

theorem Assigned.drop (s : Scheduler) {u : WorkUnit} (rest : List WorkUnit)
    (h : s.clients.lookup u.clientWorkFor = none) :
    Assigned { s with jobQ := u :: rest } { s with jobQ := rest } := by
  refine ⟨rfl, fun _ => Iff.rfl, ?_⟩
  intro c hc
  have hcons := Scheduler.outstanding_cons (s := { s with jobQ := u :: rest })
    (t := { s with jobQ := rest }) (u := u) (Multiset.cons_add u ↑rest (occupied s.minerCurrWork))
  refine hcons.2 c ?_
  rintro rfl
  rcases hc with hc | hc
  · exact hc h
  · rw [hcons.1] at hc
    exact Multiset.cons_ne_zero hc

theorem Assigned.assign {s : Scheduler} {connId : Int} (u : WorkUnit) (rest : List WorkUnit)
    (h : s.minerCurrWork.lookup connId = some none) :
    Assigned { s with jobQ := u :: rest } (s.assign connId u rest) := by
  refine ⟨rfl, ?_, ?_⟩
  · intro k
    have hmem : connId ∈ s.minerCurrWork := AList.lookup_isSome.mp (h ▸ rfl)
    show k ∈ s.minerCurrWork.insert connId (some u) ↔ k ∈ s.minerCurrWork
    rw [AList.mem_insert]
    refine ⟨?_, .inr⟩
    rintro (rfl | hk)
    · exact hmem
    · exact hk
  · intro c _
    exact Scheduler.outstanding_assign (s := { s with jobQ := u :: rest }) h rfl c

theorem assigned_assignOne {s : Scheduler} {connId : Int} (write : Bool)
    (h : s.minerCurrWork.lookup connId = some none) (q : List WorkUnit) :
    Assigned { s with jobQ := q } (s.assignOne connId write q).1 := by
  induction q with
  | nil => exact .refl _
  | cons u rest ih =>
    unfold Scheduler.assignOne
    split
    · split
      · exact .assign u rest h
      · exact .refl _
    · rename_i hu
      exact (Assigned.drop s rest (not_not.mp hu)).trans ih

/-- A miner is sent one unit, or nothing. -/
theorem assignOne_cases (s : Scheduler) (connId : Int) (write : Bool) (q : List WorkUnit) :
    (∃ q', s.assignOne connId write q = ({ s with jobQ := q' }, [])) ∨
    ∃ u rest, s.assignOne connId write q = (s.assign connId u rest, [(connId, u.workMsg)]) := by
  induction q with
  | nil => exact .inl ⟨[], rfl⟩
  | cons u rest ih =>
    unfold Scheduler.assignOne
    split
    · split
      · exact .inr ⟨u, rest, rfl⟩
      · exact .inl ⟨u :: rest, rfl⟩
    · exact ih

theorem roster_assignOne {s : Scheduler} {asked : Int → List Message} (h : Roster s asked)
    {connId : Int} (hk : connId ∈ s.unOccupiedMiner) (write : Bool) (q : List WorkUnit) :
    Roster (s.assignOne connId write q).1 (ask asked (s.assignOne connId write q).2) ∧
    ∀ k, k ≠ connId → k ∈ s.unOccupiedMiner →
      k ∈ (s.assignOne connId write q).1.unOccupiedMiner := by
  rcases assignOne_cases s connId write q with ⟨q', hr⟩ | ⟨u, rest, hr⟩
  · rw [hr, ask_nil]
    exact ⟨h, fun _ _ hm => hm⟩
  · rw [hr]
    exact ⟨h.assign hk u rest, fun k hne hm => AList.mem_erase.mpr ⟨hne, hm⟩⟩

/-- The loop keeps the roster, whichever writes fail. -/
theorem assigned_assignLoop (writes : Int → Bool) (order : List Int) {s : Scheduler}
    {asked : Int → List Message} (h : Roster s asked) (hnodup : order.Nodup)
    (hfree : ∀ k ∈ order, k ∈ s.unOccupiedMiner) :
    Assigned s (Scheduler.assignLoop writes order s).1 ∧
    Roster (Scheduler.assignLoop writes order s).1
      (ask asked (Scheduler.assignLoop writes order s).2) := by
  induction order generalizing s asked with
  | nil =>
    unfold Scheduler.assignLoop
    rw [ask_nil]
    exact ⟨.refl s, h⟩
  | cons connId order ih =>
    have hk := hfree connId List.mem_cons_self
    have hone := assigned_assignOne (writes connId) ((h connId).free.mp hk) s.jobQ
    obtain ⟨hroster, hothers⟩ := roster_assignOne h hk (writes connId) s.jobQ
    obtain ⟨hnot, hnodup⟩ := List.nodup_cons.mp hnodup
    simp only [Scheduler.assignLoop]
    split
    · exact ⟨hone, hroster⟩
    · have hrest := ih hroster hnodup fun k hm =>
        hothers k (fun he => hnot (he ▸ hm)) (hfree k (List.mem_cons_of_mem connId hm))
      rw [ask_append]
      exact ⟨hone.trans hrest.1, hrest.2⟩

theorem assigned_assignJobs {s : Scheduler} {asked : Int → List Message} (h : Roster s asked)
    {order : List Int} (horder : order.Perm s.unOccupiedMiner.keys) (writes : Int → Bool) :
    Assigned s (s.assignJobsToUnoccupiedMiner order writes).1 ∧
    Roster (s.assignJobsToUnoccupiedMiner order writes).1
      (ask asked (s.assignJobsToUnoccupiedMiner order writes).2) := by
  unfold Scheduler.assignJobsToUnoccupiedMiner
  split
  · exact assigned_assignLoop writes order h (horder.nodup_iff.mpr s.unOccupiedMiner.keys_nodup)
      fun k hk => AList.mem_keys.mpr (horder.mem_iff.mp hk)
  · rw [ask_nil]
    exact ⟨.refl s, h⟩

/-! ## Registered miners -/

/-- The miners on the roster are those that joined and were not lost. -/
structure Registered (m : Mining) : Prop where
  roster : Roster m.server m.asked
  miners : ∀ k, k ∈ m.server.minerCurrWork ↔ m.role k = some .miner ∧ m.lost k = false

theorem Scheduler.mem_free {s : Scheduler} {k j : Int} :
    j ∈ (s.free k).minerCurrWork ↔ j = k ∨ j ∈ s.minerCurrWork := AList.mem_insert _

theorem Scheduler.mem_handleFailure {s : Scheduler} {k j : Int} :
    j ∈ (s.handleFailure k).minerCurrWork ↔ j ≠ k ∧ j ∈ s.minerCurrWork := by
  unfold handleFailure
  split
  · exact AList.mem_erase
  · rename_i hk
    have hmem : ∀ t : Scheduler, t.minerCurrWork = s.minerCurrWork →
        (j ∈ t.minerCurrWork ↔ j ≠ k ∧ j ∈ s.minerCurrWork) := by
      intro t ht
      rw [ht]
      refine ⟨fun hj => ⟨?_, hj⟩, fun hj => hj.2⟩
      rintro rfl
      exact AList.lookup_eq_none.mp hk hj
    split
    · exact hmem _ rfl
    · exact hmem _ rfl

theorem mem_of_work {s : Scheduler} {k : Int} {o : Option WorkUnit}
    (h : s.minerCurrWork.lookup k = some o) : k ∈ s.minerCurrWork :=
  AList.lookup_isSome.mp (h ▸ rfl)

theorem Registered.answered {m : Mining} (h : Registered m) {k : Int} {u : WorkUnit} {a : Answer}
    {rest : List Message} (hw : m.server.minerCurrWork.lookup k = some (some u))
    (ha : m.asked k = a.request :: rest) : Registered (m.answered k u a rest) := by
  have hrest : rest = [] := by
    have hentry := (h.roster k).asked
    rw [ha, hw] at hentry
    exact (List.cons.inj hentry).2
  refine ⟨?_, ?_⟩
  · rw [hrest]
    exact h.roster.free k
  · intro j
    show j ∈ (m.server.free k).minerCurrWork ↔ _
    rw [Scheduler.mem_free]
    refine ⟨?_, fun hj => .inr ((h.miners j).mpr hj)⟩
    rintro (rfl | hj)
    · exact (h.miners j).mp (mem_of_work hw)
    · exact (h.miners j).mp hj

/-- A request does not turn a miner into a client. -/
theorem Registered.miners_client {m : Mining} (h : Registered m) {c : Int}
    (hrole : m.role c ≠ some .miner) (k : Int) : k ∈ m.server.minerCurrWork ↔
      Function.update m.role c (some .client) k = some .miner ∧ m.lost k = false := by
  rw [h.miners k]
  by_cases hk : k = c
  · subst hk
    simp [hrole]
  · rw [Function.update_of_ne hk]

theorem Registered.moves {m m' : Mining} (h : Registered m) (hm : m.Moves m') : Registered m' := by
  cases hm with
  | assign hperm =>
    obtain ⟨hassigned, hroster⟩ := assigned_assignJobs h.roster hperm _
    exact ⟨hroster, fun k => (hassigned.miners k).trans (h.miners k)⟩
  | @join k hlost hrole =>
    have hnew : k ∉ m.server.minerCurrWork := by
      rw [h.miners k, hrole]
      simp
    have hsilent : Function.update m.asked k [] = m.asked := by
      rw [Function.update_eq_self_iff, (h.roster k).asked, AList.lookup_eq_none.mpr hnew]
      rfl
    refine ⟨hsilent ▸ h.roster.free k, ?_⟩
    intro j
    show j ∈ (m.server.free k).minerCurrWork ↔ _
    rw [Scheduler.mem_free, h.miners j]
    by_cases hj : j = k
    · subst hj
      simp [hlost]
    · simp [hj]
  | request hlost hrole hnew hnodup hunits => exact ⟨h.roster, h.miners_client hrole⟩
  | ignored hrole => exact ⟨h.roster, h.miners_client hrole⟩
  | dropped hw ha hst => exact h.answered hw ha
  | counted hw ha hst => exact ⟨(h.answered hw ha).roster, (h.answered hw ha).miners⟩
  | finished hw ha hst hdone => exact ⟨(h.answered hw ha).roster, (h.answered hw ha).miners⟩
  | @failure k =>
    refine ⟨h.roster.handleFailure k, ?_⟩
    intro j
    show j ∈ (m.server.handleFailure k).minerCurrWork ↔ _
    rw [Scheduler.mem_handleFailure, h.miners j]
    by_cases hj : j = k
    · subst hj
      simp
    · simp [hj]

theorem registered_inductive : mining.Inductive Registered where
  init := by
    rintro m rfl
    refine ⟨fun k => ⟨?_, rfl⟩, ?_⟩
    · simp [Mining.init, Scheduler.init]
    · simp [Mining.init, Scheduler.init]
  step := fun _ _ _ h hs => h.moves (Mining.moves_of_step hs)

theorem updateResult_isSome {s : Scheduler} {k : Int} {u : WorkUnit} (h : s.currWork k = some u)
    (msg : Message) : (s.updateResult k msg).isSome = true := by
  simp only [Scheduler.updateResult, h]
  split
  · rfl
  · split
    · rfl
    · rfl

/-- A miner that was asked for something has a unit. -/
theorem Roster.work_of_asked {s : Scheduler} {asked : Int → List Message} (h : Roster s asked)
    {k : Int} (hk : asked k ≠ []) : ∃ u, s.currWork k = some u := by
  cases hw : s.currWork k with
  | some u => exact ⟨u, rfl⟩
  | none =>
    refine absurd ?_ hk
    rw [(h k).asked]
    exact congrArg (fun w : Option WorkUnit => w.toList.map WorkUnit.workMsg) hw

/-- A message that the connections may send is handled without a panic. -/
theorem read_completes {m : Mining} (h : Registered m) (hreading : m.reading = true)
    {event : ReadEvent} (hg : m.admits event = true) : ∃ m', mining.step m (.read event) m' := by
  cases event with
  | failure k => exact ⟨_, if_pos ⟨hreading, hg⟩⟩
  | message k msg =>
    have hsome : (m.server.handleIncomeMessage k (some msg)).isSome = true := by
      simp only [Mining.admits, Bool.and_eq_true, Bool.not_eq_true'] at hg
      cases hty : msg.type with
      | join => simp only [Scheduler.handleIncomeMessage, hty]; rfl
      | request =>
        simp only [Scheduler.handleIncomeMessage, hty]
        split <;> rfl
      | result =>
        rw [hty] at hg
        obtain ⟨u, hu⟩ := h.roster.work_of_asked (of_decide_eq_true hg.2).2
        simp only [Scheduler.handleIncomeMessage, hty]
        exact updateResult_isSome hu msg
      | other code =>
        rw [hty] at hg
        cases hg.2
    obtain ⟨r, hr⟩ := Option.isSome_iff_exists.mp hsome
    refine ⟨m.received k msg r, ?_⟩
    show m.step _ = _
    simp only [Mining.step, hreading, hg, and_self, if_true, hr, Option.map_some]

end Cmu440.Bitcoin
