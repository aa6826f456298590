import Cmu440.Bitcoin.PoolRuns

/-!
# What the pool keeps

What holds in every state of the pool beside what `Mining` says of it (`Steady`). A
client that waits has its request on the way up, a job, or its result on the way
down; a client with a job has units left. Before the server reads there is nothing
left to assign, or the connection of every miner without a unit is lost. And if the
pool is `Modest`, no request goes up to 2^64-1: no client asks for that nonce, and
there are at most 10000 connections, so that no unit from 0 on is cut too short.
-/
namespace Cmu440.Bitcoin

/-- No job has a unit that goes up to 2^64-1. -/
structure Pool.Modest (p : Pool) : Prop where
  dialed : p.dialed ≤ minerWorkloadThreshold.toNat
  ranges : ∀ k c data maxNonce, p.conns k = some c → c.program = .client data maxNonce →
    maxNonce < maxUint64

/-! ## The units -/

/-- The units in the queue or with a miner. -/
def Scheduler.Holds (s : Scheduler) (u : WorkUnit) : Prop :=
  u ∈ s.jobQ ∨ ∃ k, s.minerCurrWork.lookup k = some (some u)

namespace Scheduler

variable {s : Scheduler} {u : WorkUnit} {connId : Int}

theorem Holds.of_free (h : (s.free connId).Holds u) : s.Holds u := by
  rcases h with hq | ⟨k, hk⟩
  · exact .inl hq
  · rcases lookup_of_insert hk with hnone | hk
    · cases hnone
    · exact .inr ⟨k, hk⟩

theorem Holds.of_handleFailure (h : (s.handleFailure connId).Holds u) : s.Holds u := by
  unfold handleFailure at h
  split at h
  · rename_i o ho
    rcases h with hq | ⟨k, hk⟩
    · rcases List.mem_append.mp hq with hu | hu
      · exact .inr ⟨connId, ho.trans (congrArg some (Option.mem_toList.mp hu))⟩
      · exact .inl hu
    · exact .inr ⟨k, lookup_of_erase hk⟩
  · split at h
    · exact h
    · exact h

theorem Holds.of_assignOne {write : Bool} {q : List WorkUnit}
    (h : (s.assignOne connId write q).1.Holds u) : Holds { s with jobQ := q } u := by
  induction q with
  | nil => exact h
  | cons v rest ih =>
    unfold assignOne at h
    split at h
    · split at h
      · rcases h with hq | ⟨k, hk⟩
        · exact .inl (List.mem_cons_of_mem v hq)
        · rcases lookup_of_insert hk with hv | hk
          · cases hv
            exact .inl List.mem_cons_self
          · exact .inr ⟨k, hk⟩
      · exact h
    · exact (ih h).imp_left (List.mem_cons_of_mem v)

theorem Holds.of_assignLoop {writes : Int → Bool} {order : List Int} {s : Scheduler}
    (h : (assignLoop writes order s).1.Holds u) : s.Holds u := by
  induction order generalizing s with
  | nil => exact h
  | cons connId order ih =>
    simp only [assignLoop] at h
    split at h
    · exact h.of_assignOne
    · exact (ih h).of_assignOne

theorem Holds.of_assignJobs {order : List Int} {writes : Int → Bool}
    (h : (s.assignJobsToUnoccupiedMiner order writes).1.Holds u) : s.Holds u := by
  unfold assignJobsToUnoccupiedMiner at h
  split at h
  · exact h.of_assignLoop
  · exact h

/-! ## After the assignment -/

/-- The queue is empty, or the write to every miner without a unit failed. -/
theorem assignOne_settled (s : Scheduler) (connId : Int) (q : List WorkUnit) :
    (s.assignOne connId true q).1.jobQ = [] ∨
      connId ∉ (s.assignOne connId true q).1.unOccupiedMiner := by
  induction q with
  | nil => exact .inl rfl
  | cons v rest ih =>
    unfold assignOne
    split
    · rw [if_pos rfl]
      exact .inr fun h => (AList.mem_erase.mp h).1 rfl
    · exact ih

theorem mem_unOccupied_assignOne {k : Int} {write : Bool} {q : List WorkUnit}
    (h : k ∈ (s.assignOne connId write q).1.unOccupiedMiner) : k ∈ s.unOccupiedMiner := by
  rcases assignOne_cases s connId write q with ⟨q', hr⟩ | ⟨v, rest, hr⟩
  · rw [hr] at h
    exact h
  · rw [hr] at h
    exact (AList.mem_erase.mp h).2

theorem mem_unOccupied_assignLoop {k : Int} (writes : Int → Bool) (order : List Int)
    {s : Scheduler} (h : k ∈ (assignLoop writes order s).1.unOccupiedMiner) :
    k ∈ s.unOccupiedMiner := by
  induction order generalizing s with
  | nil => exact h
  | cons connId order ih =>
    simp only [assignLoop] at h
    split at h
    · exact mem_unOccupied_assignOne h
    · exact mem_unOccupied_assignOne (ih h)

theorem assignLoop_settled (writes : Int → Bool) (order : List Int) (s : Scheduler) :
    (assignLoop writes order s).1.jobQ = [] ∨
      ∀ k ∈ order, k ∈ (assignLoop writes order s).1.unOccupiedMiner → writes k = false := by
  induction order generalizing s with
  | nil => exact .inr fun k hk => by cases hk
  | cons connId order ih =>
    simp only [assignLoop]
    split
    · rename_i hempty
      exact .inl (List.length_eq_zero_iff.mp hempty)
    · rename_i hleft
      refine (ih _).imp_right fun hrest k hk hfree => ?_
      rcases List.mem_cons.mp hk with rfl | hk
      · by_contra hw
        rw [Bool.not_eq_false] at hw
        rw [hw] at hleft hfree
        rcases s.assignOne_settled k s.jobQ with hempty | hgone
        · exact hleft (List.length_eq_zero_iff.mpr hempty)
        · exact hgone (mem_unOccupied_assignLoop writes order hfree)
      · exact hrest k hk hfree

theorem assignJobs_settled {order : List Int} (horder : order.Perm s.unOccupiedMiner.keys)
    (writes : Int → Bool) :
    (s.assignJobsToUnoccupiedMiner order writes).1.jobQ = [] ∨
      ∀ k ∈ (s.assignJobsToUnoccupiedMiner order writes).1.unOccupiedMiner, writes k = false := by
  unfold assignJobsToUnoccupiedMiner
  split
  · refine (assignLoop_settled writes order s).imp_right fun h k hk => h k ?_ hk
    exact horder.mem_iff.mpr (AList.mem_keys.mp (mem_unOccupied_assignLoop writes order hk))
  · rename_i hempty
    exact .inl (List.length_eq_zero_iff.mp (Nat.eq_zero_of_not_pos hempty))

/-! ## New units -/

/-- No unit of a modest job goes up to 2^64-1. -/
theorem partitionJob_upper_lt {msg : Message} (hle : msg.lower ≤ msg.upper)
    (hupper : msg.upper < maxUint64) (hmany : s.numOfMiner ≤ minerWorkloadThreshold.toNat) :
    ∀ v ∈ (s.partitionJob connId msg).jobQ, v ∈ s.jobQ ∨ v.workMsg.upper < maxUint64 := by
  intro v hv
  have hlt : msg.upper.toNat < 2 ^ 64 - 1 := UInt64.lt_iff_toNat_lt.mp hupper
  have hsize : msg.size < 2 ^ 64 := by
    unfold Message.size
    omega
  unfold partitionJob at hv
  split at hv
  · rcases List.mem_append.mp hv with hv | hv
    · exact .inl hv
    · rw [List.mem_singleton.mp hv]
      exact .inr hupper
  · rename_i hlong
    rw [UInt64.le_iff_toNat_le, Message.toNat_length hle hsize, not_le] at hlong
    rcases List.mem_append.mp hv with hv | hv
    · exact .inl hv
    · rw [cutJob_eq] at hv
      obtain ⟨i, hi, rfl⟩ := List.mem_map.mp hv
      have hi := List.mem_range.mp hi
      have hnext := s.cutUnit_upper connId hle hsize (n := s.numOfMiner) (by omega) hi
        fun _ => by omega
      have hlast : msg.cutPoint s.numOfMiner (i + 1) ≤ msg.cutPoint s.numOfMiner s.numOfMiner :=
        Message.cutPoint_mono hle hi
      rw [Message.cutPoint_last] at hlast
      refine .inr (UInt64.lt_iff_toNat_lt.mpr ?_)
      have hmax : maxUint64.toNat = 2 ^ 64 - 1 := rfl
      omega

end Scheduler

/-! ## The connections -/

/-- A client does not search, a miner does not print, and the failures reported are those
of lost connections. -/
structure Conn.Sane (c : Conn) : Prop where
  reported : c.reported = true → c.lost = true
  client : ∀ data maxNonce reqMsg i minHash nonce, c.program = .client data maxNonce →
    c.state ≠ .searching reqMsg i minHash nonce
  miner : ∀ hash nonce, c.program = .miner → c.state ≠ .printed hash nonce

/-- A client that waits has its request on the way up, a job, or its result on the way
down. -/
def Conn.Awaits (c : Conn) (s : Scheduler) (k : Int) : Prop :=
  ∀ data maxNonce, c.program = .client data maxNonce → c.state = .waiting → c.lost = false →
    c.up ≠ [] ∨ s.clients.lookup k ≠ none ∨ c.down ≠ []

/-- The requests of a miner end below 2^64-1. -/
structure Conn.Ends (c : Conn) : Prop where
  down : c.program = .miner → ∀ msg ∈ c.down, msg.upper < maxUint64
  searching : ∀ reqMsg i minHash nonce, c.state = .searching reqMsg i minHash nonce →
    reqMsg.upper < maxUint64

/-- `Q` holds of every connection. -/
def Pool.All (p : Pool) (Q : Int → Conn → Prop) : Prop := ∀ k c, p.conns k = some c → Q k c

section
variable {p : Pool} {Q R : Int → Conn → Prop} {k : Int} {c c' : Conn}

theorem Pool.All.setConn (h : p.All Q) (hk : Q k c') : (p.setConn k c').All Q := by
  intro j d hd
  by_cases hj : j = k
  · subst hj
    cases (p.setConn_self j c').symm.trans hd
    exact hk
  · exact h j d ((p.setConn_of_ne hj c').symm.trans hd)

theorem Pool.All.write (h : p.All Q) {out : List (Int × Message)}
    (hwrite : ∀ j d, p.conns j = some d → Q j d → R j (d.write (Pool.mail out j))) :
    (p.write out).All R := by
  intro j d hd
  obtain ⟨d, hd', rfl⟩ := Pool.write_conns hd
  exact hwrite j d hd' (h j d hd')

theorem Conn.write_state (c : Conn) (msgs : List Message) : (c.write msgs).state = c.state := by
  unfold Conn.write
  split <;> rfl

theorem Conn.write_up (c : Conn) (msgs : List Message) : (c.write msgs).up = c.up := by
  unfold Conn.write
  split <;> rfl

theorem Conn.write_reported (c : Conn) (msgs : List Message) :
    (c.write msgs).reported = c.reported := by
  unfold Conn.write
  split <;> rfl

theorem Conn.mem_write_down {msgs : List Message} {msg : Message} (h : msg ∈ (c.write msgs).down) :
    msg ∈ c.down ∨ msg ∈ msgs := by
  unfold Conn.write at h
  split at h
  · exact .inl h
  · exact List.mem_append.mp h

theorem Conn.write_down_ne_nil {msgs : List Message} (h : c.down ≠ []) :
    (c.write msgs).down ≠ [] := by
  unfold Conn.write
  split
  · exact h
  · exact List.append_ne_nil_of_left_ne_nil h _

theorem Conn.Sane.write (h : c.Sane) (msgs : List Message) : (c.write msgs).Sane := by
  refine ⟨?_, ?_, ?_⟩
  · rw [c.write_reported, c.write_lost]
    exact h.reported
  · rw [c.write_program, c.write_state]
    exact h.client
  · rw [c.write_program, c.write_state]
    exact h.miner

theorem Conn.Awaits.write {s s' : Scheduler} (h : c.Awaits s k) {msgs : List Message}
    (hclients : s.clients.lookup k ≠ none →
      s'.clients.lookup k ≠ none ∨ msgs ≠ []) : (c.write msgs).Awaits s' k := by
  intro data maxNonce hp hs hlost
  rw [c.write_program] at hp
  rw [c.write_state] at hs
  rw [c.write_lost] at hlost
  rcases h data maxNonce hp hs hlost with hup | hst | hdown
  · exact .inl ((c.write_up msgs).symm ▸ hup)
  · rcases hclients hst with hst | hmsgs
    · exact .inr (.inl hst)
    · rw [Conn.write_of_open hlost]
      exact .inr (.inr (List.append_ne_nil_of_right_ne_nil _ hmsgs))
  · exact .inr (.inr (Conn.write_down_ne_nil hdown))

theorem Conn.Ends.write (h : c.Ends) {msgs : List Message}
    (hmsgs : c.program = .miner → ∀ msg ∈ msgs, msg.upper < maxUint64) : (c.write msgs).Ends := by
  refine ⟨fun hp msg hmsg => ?_, ?_⟩
  · rw [c.write_program] at hp
    rcases Conn.mem_write_down hmsg with hmsg | hmsg
    · exact h.down hp msg hmsg
    · exact hmsgs hp msg hmsg
  · rw [c.write_state]
    exact h.searching

variable {hash : String → UInt64 → UInt64}

theorem Conn.Sane.peerStep (h : c.Sane) (hstep : c.peerStep hash = some c') : c'.Sane := by
  obtain ⟨hprogram, hlost, hreported⟩ := Conn.peerStep_kept hstep
  refine ⟨?_, ?_, ?_⟩
  · rw [hreported, hlost]
    exact h.reported
  · intro data maxNonce reqMsg i minHash nonce hp hs
    rw [hprogram] at hp
    obtain ⟨_, _, -, -, rfl⟩ | ⟨_, _, _, _, -, -, -, rfl⟩ | ⟨-, -, rfl⟩ | ⟨_, _, hp', -⟩ |
      ⟨_, _, _, _, hp', -⟩ := Conn.peerStep_cases hstep
    · cases hs
    · cases hs
    · cases hs
    · cases hp'.symm.trans hp
    · cases hp'.symm.trans hp
  · intro a b hp hs
    rw [hprogram] at hp
    obtain ⟨_, _, hp', -⟩ | ⟨_, _, _, _, hp', -⟩ | ⟨-, -, rfl⟩ | ⟨_, _, -, -, -, rfl⟩ |
      ⟨_, _, _, _, -, -, ⟨-, _, _, rfl, -⟩ | ⟨-, rfl⟩⟩ := Conn.peerStep_cases hstep
    · cases hp'.symm.trans hp
    · cases hp'.symm.trans hp
    · cases hs
    · cases hs
    · cases hs
    · cases hs

theorem Conn.awaits_of_peerStep (s : Scheduler) (hstep : c.peerStep hash = some c') :
    c'.Awaits s k := by
  obtain ⟨hprogram, -⟩ := Conn.peerStep_kept hstep
  intro data maxNonce hp hs _
  rw [hprogram] at hp
  obtain ⟨_, _, -, -, rfl⟩ | ⟨_, _, _, _, -, -, -, rfl⟩ | ⟨hp', -⟩ | ⟨_, _, hp', -⟩ |
    ⟨_, _, _, _, hp', -⟩ := Conn.peerStep_cases hstep
  · exact .inl (List.append_ne_nil_of_right_ne_nil _ (List.cons_ne_nil _ _))
  · cases hs
  · cases hp'.symm.trans hp
  · cases hp'.symm.trans hp
  · cases hp'.symm.trans hp

theorem Conn.Ends.peerStep (h : c.Ends) (hstep : c.peerStep hash = some c') : c'.Ends := by
  obtain ⟨_, _, hp, -, rfl⟩ | ⟨_, _, msg, down, hp, -, hd, rfl⟩ | ⟨-, -, rfl⟩ |
    ⟨reqMsg, down, hp, -, hd, rfl⟩ |
    ⟨reqMsg, i, minHash, nonce, -, hs, ⟨-, _, _, rfl, -⟩ | ⟨-, rfl⟩⟩ := Conn.peerStep_cases hstep
  · refine ⟨h.down, fun _ _ _ _ hs => ?_⟩
    cases hs
  · refine ⟨fun hp' => ?_, fun _ _ _ _ hs => ?_⟩
    · cases hp.symm.trans hp'
    · cases hs
  · refine ⟨h.down, fun _ _ _ _ hs => ?_⟩
    cases hs
  · have hdown := h.down hp
    rw [hd] at hdown
    refine ⟨fun _ x hx => hdown x (List.mem_cons_of_mem reqMsg hx), fun _ _ _ _ hs => ?_⟩
    cases hs
    exact hdown reqMsg List.mem_cons_self
  · refine ⟨h.down, fun _ _ _ _ hs' => ?_⟩
    cases hs'
    exact h.searching reqMsg i minHash nonce hs
  · refine ⟨h.down, fun _ _ _ _ hs => ?_⟩
    cases hs

end

/-! ## Handling a message -/

/-- What the clients and the units are after a message. -/
structure Scheduler.Handled (s : Scheduler) (connId : Int) (msg : Message)
    (r : Scheduler × List (Int × Message)) : Prop where
  busy : (∀ c st, s.clients.lookup c = some st → st.notFinishedJob ≠ 0) →
    ∀ c st, r.1.clients.lookup c = some st → st.notFinishedJob ≠ 0
  /-- a client that is there stays, or is sent its result -/
  stays : ∀ c, s.clients.lookup c ≠ none → r.1.clients.lookup c ≠ none ∨ ∃ result, (c, result) ∈ r.2
  opened : msg.type = .request → r.1.clients.lookup connId ≠ none
  clients : ∀ o ∈ r.2, s.clients.lookup o.1 ≠ none
  units : ∀ u, r.1.Holds u → s.Holds u ∨
    msg.type = .request ∧ u ∈ (s.partitionJob connId msg).jobQ

namespace Scheduler

variable {s : Scheduler} {connId : Int} {msg : Message} {r : Scheduler × List (Int × Message)}

theorem partitionJob_status (s : Scheduler) (connId : Int) (msg : Message) :
    ∃ n, 0 < n ∧ (s.partitionJob connId msg).clients =
      s.clients.insert connId (newClientStatus n) := by
  unfold partitionJob
  split
  · exact ⟨1, Nat.one_pos, rfl⟩
  · exact ⟨s.numOfMiner, s.numOfMiner_pos, rfl⟩

theorem partitionJob_miners (s : Scheduler) (connId : Int) (msg : Message) :
    (s.partitionJob connId msg).minerCurrWork = s.minerCurrWork := by
  unfold partitionJob
  split <;> rfl

theorem handled_request (hty : msg.type = .request) (hnew : s.clients.lookup connId = none) :
    s.Handled connId msg (s.partitionJob connId msg, []) := by
  obtain ⟨n, hn, hclients⟩ := s.partitionJob_status connId msg
  refine ⟨fun hbusy c st hst => ?_, fun c hc => .inl ?_, fun _ => ?_,
    fun o ho => absurd ho List.not_mem_nil, fun u hu => ?_⟩
  · rw [hclients] at hst
    by_cases hc : c = connId
    · subst hc
      rw [AList.lookup_insert] at hst
      cases hst
      exact Int.natCast_ne_zero.mpr (by omega)
    · rw [AList.lookup_insert_ne hc] at hst
      exact hbusy c st hst
  · have hne : c ≠ connId := fun he => hc (he ▸ hnew)
    rw [hclients, AList.lookup_insert_ne hne]
    exact hc
  · rw [hclients, AList.lookup_insert]
    exact Option.some_ne_none _
  · rcases hu with hu | ⟨k, hk⟩
    · exact .inr ⟨hty, hu⟩
    · rw [s.partitionJob_miners connId msg] at hk
      exact .inl (.inr ⟨k, hk⟩)

theorem handled_result (hty : msg.type = .result) (h : s.updateResult connId msg = some r) :
    s.Handled connId msg r := by
  have hopened : msg.type = .request → r.1.clients.lookup connId ≠ none := by
    rw [hty]
    intro hty
    cases hty
  unfold updateResult at h
  split at h
  · cases h
  · rename_i u hu
    dsimp only at h
    split at h
    · cases h
      exact ⟨id, fun _ hc => .inl hc, hopened, fun o ho => absurd ho List.not_mem_nil,
        fun v hv => .inl hv.of_free⟩
    · rename_i st hst
      have hst : s.clients.lookup u.clientWorkFor = some st := hst
      split at h
      · cases h
        refine ⟨fun hbusy c st' hst' => ?_, fun c hc => ?_, hopened, fun o ho => ?_,
          fun v hv => .inl (Holds.of_free hv)⟩
        · by_cases hc : c = u.clientWorkFor
          · subst hc
            cases (AList.lookup_erase ..).symm.trans hst'
          · exact hbusy c st' ((AList.lookup_erase_ne hc).symm.trans hst')
        · by_cases hcu : c = u.clientWorkFor
          · subst hcu
            exact .inr ⟨_, List.mem_singleton_self _⟩
          · refine .inl fun hnone => hc ?_
            exact (AList.lookup_erase_ne hcu).symm.trans hnone
        · rw [List.mem_singleton.mp ho]
          intro hnone
          cases hst.symm.trans hnone
      · rename_i hleft
        cases h
        refine ⟨fun hbusy c st' hst' => ?_, fun c hc => .inl fun hnone => hc ?_, hopened,
          fun o ho => absurd ho List.not_mem_nil, fun v hv => .inl (Holds.of_free hv)⟩
        · by_cases hc : c = u.clientWorkFor
          · subst hc
            cases (AList.lookup_insert ..).symm.trans hst'
            exact hleft
          · exact hbusy c st' ((AList.lookup_insert_ne hc).symm.trans hst')
        · by_cases hcu : c = u.clientWorkFor
          · subst hcu
            cases (AList.lookup_insert ..).symm.trans hnone
          · exact (AList.lookup_insert_ne hcu).symm.trans hnone

theorem handled (h : s.handleIncomeMessage connId (some msg) = some r) :
    s.Handled connId msg r := by
  have hsame : msg.type ≠ .request → r.1.clients = s.clients → r.2 = [] →
      (∀ u, r.1.Holds u → s.Holds u) → s.Handled connId msg r := by
    intro hty hclients hout hunits
    refine ⟨?_, fun c hc => .inl ?_, fun h => absurd h hty, fun o ho => ?_, fun u hu =>
      .inl (hunits u hu)⟩
    · rw [hclients]
      exact id
    · rw [hclients]
      exact hc
    · rw [hout] at ho
      cases ho
  unfold handleIncomeMessage at h
  dsimp only at h
  split at h
  · rename_i hty
    cases h
    exact hsame (by rw [hty]; simp) rfl rfl fun u hu => hu.of_free
  · rename_i hty
    split at h
    · rename_i hnew
      cases h
      exact handled_request hty hnew
    · rename_i hold
      cases h
      exact ⟨id, fun _ hc => .inl hc, fun _ => hold, fun o ho => absurd ho List.not_mem_nil,
        fun u hu => .inl hu⟩
  · rename_i hty
    exact handled_result hty h
  · rename_i hty
    cases h
    exact hsame (by rw [hty]; simp) rfl rfl fun u hu => hu

end Scheduler

/-! ## What every state of the pool keeps -/

structure Steady (p : Pool) : Prop where
  sane : p.All fun _ c => c.Sane
  awaits : p.All fun k c => c.Awaits p.server k
  busy : ∀ k st, p.server.clients.lookup k = some st → st.notFinishedJob ≠ 0
  /-- before `Read` nothing is left to assign, or nobody to assign it to -/
  settled : p.reading = true →
    p.server.jobQ = [] ∨ ∀ k ∈ p.server.unOccupiedMiner, ∀ c, p.conns k = some c → c.lost = true
  ends : p.Modest →
    (∀ u, p.server.Holds u → u.workMsg.upper < maxUint64) ∧ p.All fun _ c => c.Ends

section
variable {hash : String → UInt64 → UInt64} {p p' : Pool} {m : Mining} {l : PoolLbl}

theorem Follows.unOccupied (h : Follows hash p m) (hreg : Registered m) {k : Int}
    (hk : k ∈ p.server.unOccupiedMiner) : ∃ c, p.conns k = some c := by
  rw [← h.server] at hk
  have hrole := ((hreg.miners k).mp (mem_of_work ((hreg.roster k).free.mp hk))).1
  cases hc : p.conns k with
  | none => cases (h.fresh k hc).1.symm.trans hrole
  | some c => exact ⟨c, rfl⟩

/-- A connection keeps its program. -/
theorem Follows.kept (h : Follows hash p m) (hs : p.Steps hash l p') {k : Int} {c : Conn}
    (hc : p.conns k = some c) : ∃ c', p'.conns k = some c' ∧ c'.program = c.program := by
  have hset : ∀ {j : Int} {d d' : Conn}, p.conns j = some d → d'.program = d.program →
      ∃ c', (p.setConn j d').conns k = some c' ∧ c'.program = c.program := by
    intro j d d' hd hprogram
    by_cases hj : k = j
    · subst hj
      cases hc.symm.trans hd
      exact ⟨d', p.setConn_self k d', hprogram⟩
    · exact ⟨c, (p.setConn_of_ne hj d').trans hc, rfl⟩
  have hwrite : ∀ {q : Pool} (out : List (Int × Message)),
      (∃ c', q.conns k = some c' ∧ c'.program = c.program) →
      ∃ c', (q.write out).conns k = some c' ∧ c'.program = c.program := by
    intro q out hq
    obtain ⟨c', hc', hprogram⟩ := hq
    exact ⟨c'.write (Pool.mail out k), congrArg (Option.map _) hc',
      (c'.write_program _).trans hprogram⟩
  cases hs with
  | dial program hbound =>
    have hne : k ≠ p.dialed + 1 := by
      have := (h.ids k c hc).2
      omega
    exact ⟨c, (p.setConn_of_ne hne _).trans hc, rfl⟩
  | peer hd hd' => exact hset hd (Conn.peerStep_kept hd').1
  | exit hd hopen => exact hset hd rfl
  | lose hd hlost => exact hset hd rfl
  | assign hreading horder => exact hwrite _ ⟨c, hc, rfl⟩
  | read hd hup hreading hreported hr => exact hwrite _ (hset hd rfl)
  | fail hd hreading hlost hreported => exact hset hd rfl

theorem Pool.Steps.dialed_le (hs : p.Steps hash l p') : p.dialed ≤ p'.dialed := by
  cases hs with
  | dial program hbound => exact Nat.le_succ _
  | _ => exact le_rfl

/-- A pool that is modest was modest before. -/
theorem Follows.modest (h : Follows hash p m) (hs : p.Steps hash l p') (hm : p'.Modest) :
    p.Modest := by
  refine ⟨hs.dialed_le.trans hm.dialed, fun k c data maxNonce hc hp => ?_⟩
  obtain ⟨c', hc', hprogram⟩ := h.kept hs hc
  exact hm.ranges k c' data maxNonce hc' (hprogram.trans hp)

/-- A step of a peer, or of the network. -/
theorem Steady.setConn (h : Steady p) {k : Int} {c c' : Conn} (hc : p.conns k = some c)
    (hlost : c.lost = true → c'.lost = true) (hsane : c'.Sane) (hawaits : c'.Awaits p.server k)
    (hmodest : (p.setConn k c').Modest → p.Modest) (hends : c.Ends → c'.Ends) :
    Steady (p.setConn k c') := by
  refine ⟨h.sane.setConn hsane, h.awaits.setConn hawaits, h.busy, fun hreading => ?_,
    fun hm => ?_⟩
  · refine (h.settled hreading).imp_right fun hw j hj d hd => ?_
    by_cases hjk : j = k
    · subst hjk
      cases (p.setConn_self j c').symm.trans hd
      exact hlost (hw j hj c hc)
    · exact hw j hj d ((p.setConn_of_ne hjk c').symm.trans hd)
  · obtain ⟨hunits, hall⟩ := h.ends (hmodest hm)
    exact ⟨hunits, hall.setConn (hends (hall k c hc))⟩

theorem Conn.dialed_sane (program : Program) : (Conn.dialed program).Sane :=
  ⟨by simp [Conn.dialed], by simp [Conn.dialed], by simp [Conn.dialed]⟩

theorem Conn.dialed_awaits (program : Program) (s : Scheduler) (k : Int) :
    (Conn.dialed program).Awaits s k := by
  intro _ _ _ hs
  cases hs

theorem Conn.dialed_ends (program : Program) : (Conn.dialed program).Ends :=
  ⟨by simp [Conn.dialed], by simp [Conn.dialed]⟩

theorem Steady.dial (h : Steady p) (hf : Follows hash p m) (hreg : Registered m)
    {program : Program} (hbound : p.dialed + 1 < 2 ^ 63) :
    Steady { p.setConn (p.dialed + 1) (.dialed program) with dialed := p.dialed + 1 } := by
  refine ⟨Pool.All.setConn h.sane (Conn.dialed_sane program),
    Pool.All.setConn h.awaits (Conn.dialed_awaits program _ _), h.busy, fun hreading => ?_,
    fun hm => ?_⟩
  · refine (h.settled hreading).imp_right fun hw k hk d hd => ?_
    obtain ⟨c, hc⟩ := hf.unOccupied hreg hk
    have hne : k ≠ p.dialed + 1 := by
      have := (hf.ids k c hc).2
      omega
    exact hw k hk d ((p.setConn_of_ne hne _).symm.trans hd)
  · obtain ⟨hunits, hall⟩ := h.ends (hf.modest (.dial program hbound) hm)
    exact ⟨hunits, Pool.All.setConn hall (Conn.dialed_ends program)⟩

theorem Steady.assign (h : Steady p) (hf : Follows hash p m) (hreg : Registered m)
    {order : List Int} (hreading : p.reading = false)
    (horder : order.Perm p.server.unOccupiedMiner.keys) :
    Steady { p.write (p.server.assignJobsToUnoccupiedMiner order p.writable).2 with
      server := (p.server.assignJobsToUnoccupiedMiner order p.writable).1, reading := true } := by
  have hroster : Roster p.server m.asked := hf.server ▸ hreg.roster
  have hclients := (assigned_assignJobs hroster horder p.writable).1.clients
  refine ⟨Pool.All.write h.sane fun j d _ hd => hd.write _, ?_, ?_, fun _ => ?_, fun hm => ?_⟩
  · refine Pool.All.write h.awaits fun j d _ hd => hd.write fun hst => .inl ?_
    show (p.server.assignJobsToUnoccupiedMiner order p.writable).1.clients.lookup j ≠ none
    rw [hclients]
    exact hst
  · intro k st hst
    exact h.busy k st (hclients ▸ hst)
  · refine (Scheduler.assignJobs_settled horder p.writable).imp_right fun hw k hk d hd => ?_
    obtain ⟨d, hd', rfl⟩ := Pool.write_conns hd
    rw [Conn.write_lost]
    by_contra hopen
    have hwritable := Pool.writable_iff.mpr ⟨d, hd', Bool.eq_false_iff.mpr hopen⟩
    cases (hw k hk).symm.trans hwritable
  · obtain ⟨hunits, hall⟩ := h.ends (hf.modest (.assign hreading horder) hm)
    refine ⟨fun u hu => hunits u hu.of_assignJobs, Pool.All.write hall fun j d _ hd =>
      hd.write fun _ msg hmsg => ?_⟩
    obtain ⟨o, ho, rfl⟩ := List.mem_map.mp hmsg
    obtain ⟨-, -, u, hu, heq⟩ :=
      Scheduler.assignJobs_out horder p.writable o (List.mem_filter.mp ho).1
    rw [heq]
    exact hunits u (.inl hu)

/-- What is sent when a message was read goes to clients. -/
theorem Follows.mail_eq_nil (hf : Follows hash p m) {k : Int} {c : Conn} {msg : Message}
    {up : List Message} {r : Scheduler × List (Int × Message)} (hc : p.conns k = some c)
    (hhandled : p.server.Handled k msg r) {j : Int} {d : Conn}
    (hd : (p.setConn k { c with up := up }).conns j = some d) (hp : d.program = .miner) :
    Pool.mail r.2 j = [] := by
  refine Pool.mail_eq_nil fun o ho hoj => ?_
  obtain ⟨st, hst⟩ := Option.ne_none_iff_exists'.mp (hhandled.clients o ho)
  obtain ⟨e, data, maxNonce, he, hpe, -⟩ := hf.clients o.1 st hst
  rw [hoj] at he
  by_cases hj : j = k
  · subst hj
    cases (p.setConn_self j _).symm.trans hd
    cases hc.symm.trans he
    cases hpe.symm.trans hp
  · rw [p.setConn_of_ne hj] at hd
    cases hd.symm.trans he
    cases hpe.symm.trans hp

theorem Steady.read (h : Steady p) (hf : Follows hash p m) (hreg : Registered m) {k : Int}
    {c : Conn} {msg : Message} {up : List Message} {r : Scheduler × List (Int × Message)}
    (hc : p.conns k = some c) (hup : c.up = msg :: up) (hreading : p.reading = true)
    (hreported : c.reported = false)
    (hr : p.server.handleIncomeMessage k (some msg) = some r) :
    Steady { (p.setConn k { c with up := up }).write r.2 with
      server := r.1, reading := false } := by
  have hhandled := Scheduler.handled hr
  have hlinked := (hf.attached k c hc).linked hreported
  have hsane := h.sane k c hc
  -- what was read is a request, or comes from a miner
  have hrequest : ∀ data maxNonce, c.program = .client data maxNonce →
      msg = Conn.request data maxNonce := by
    intro data maxNonce hp
    cases hlinked with
    | client data' maxNonce' hp' _ hup' =>
      cases hp.symm.trans hp'
      rcases hup' with hup' | ⟨hup', -⟩
      · cases hup'.symm.trans hup
      · cases hup'.symm.trans hup
        rfl
    | unjoined hp' => cases hp.symm.trans hp'
    | joining hp' => cases hp.symm.trans hp'
    | joined _ _ hp' => cases hp.symm.trans hp'
  have hmail : ∀ j result, (j, result) ∈ r.2 → Pool.mail r.2 j ≠ [] := by
    intro j result hmem
    exact List.ne_nil_of_mem (List.mem_map.mpr
      ⟨(j, result), List.mem_filter.mpr ⟨hmem, decide_eq_true rfl⟩, rfl⟩)
  refine ⟨?_, ?_, hhandled.busy h.busy, fun hreading => Bool.noConfusion hreading, fun hm => ?_⟩
  · have hread : Conn.Sane { c with up := up } := ⟨hsane.reported, hsane.client, hsane.miner⟩
    exact Pool.All.write (h.sane.setConn hread) fun j d _ hd => hd.write _
  · intro j d hd
    obtain ⟨d, hd', rfl⟩ := Pool.write_conns hd
    by_cases hj : j = k
    · subst hj
      cases (p.setConn_self j _).symm.trans hd'
      intro data maxNonce hp _ _
      rw [Conn.write_program] at hp
      refine .inr (.inl (hhandled.opened ?_))
      rw [hrequest data maxNonce hp]
      rfl
    · rw [p.setConn_of_ne hj] at hd'
      refine (h.awaits j d hd').write fun hst => ?_
      exact (hhandled.stays j hst).imp_right fun hex => hex.elim (hmail j)
  · have hmodest := hf.modest (.read hc hup hreading hreported hr) hm
    obtain ⟨hunits, hall⟩ := h.ends hmodest
    refine ⟨fun u hu => ?_, ?_⟩
    · rcases hhandled.units u hu with hu | ⟨hty, hu⟩
      · exact hunits u hu
      · cases hlinked with
        | client data maxNonce hp =>
          have hupper := hmodest.ranges k c data maxNonce hc hp
          have hmany := hf.numOfMiner_le hreg
          have hdialed := hmodest.dialed
          have hone : 1 ≤ minerWorkloadThreshold.toNat := by decide
          rw [hrequest data maxNonce hp] at hu
          rcases Scheduler.partitionJob_upper_lt (UInt64.le_iff_toNat_le.mpr (Nat.zero_le _))
            hupper (by omega) u hu with hu | hlt
          · exact hunits u (.inl hu)
          · exact hlt
        | unjoined _ _ hup' => cases hup'.symm.trans hup
        | joining _ _ hup' =>
          cases hup'.symm.trans hup
          cases hty
        | joined answered rest _ _ hup' hfound =>
          cases answered with
          | nil => cases hup'.symm.trans hup
          | cons a answered =>
            cases hup'.symm.trans hup
            cases (hfound a List.mem_cons_self).type.symm.trans hty
    · refine Pool.All.write (Q := fun _ d => d.Ends) (hall.setConn ?_) fun j d hd hends =>
        hends.write fun hp x hx => ?_
      · exact ⟨(hall k c hc).down, (hall k c hc).searching⟩
      · rw [hf.mail_eq_nil hc hhandled hd hp] at hx
        cases hx

theorem Steady.fail (h : Steady p) (hf : Follows hash p m) {k : Int} {c : Conn}
    (hc : p.conns k = some c) (hreading : p.reading = true) (hlost : c.lost = true)
    (hreported : c.reported = false) :
    Steady { p.setConn k { c with reported := true } with
      server := p.server.handleFailure k, reading := false } := by
  have hsane := h.sane k c hc
  refine ⟨Pool.All.setConn h.sane ⟨fun _ => hlost, hsane.client, hsane.miner⟩, ?_, ?_,
    fun hreading => Bool.noConfusion hreading, fun hm => ?_⟩
  · intro j d hd data maxNonce hp hs hopen
    by_cases hj : j = k
    · subst hj
      cases (p.setConn_self j _).symm.trans hd
      cases hlost.symm.trans hopen
    · have hd' := (p.setConn_of_ne hj _).symm.trans hd
      have hold := h.awaits j d hd' data maxNonce hp hs hopen
      rw [← p.server.lookup_handleFailure_of_ne hj] at hold
      exact hold
  · intro j st hst
    exact h.busy j st (Scheduler.lookup_of_handleFailure hst)
  · obtain ⟨hunits, hall⟩ := h.ends (hf.modest (.fail hc hreading hlost hreported) hm)
    refine ⟨fun u hu => hunits u hu.of_handleFailure, Pool.All.setConn hall ?_⟩
    exact ⟨(hall k c hc).down, (hall k c hc).searching⟩

theorem Steady.step (h : Steady p) (hf : Follows hash p m) (hreg : Registered m)
    (hs : p.Steps hash l p') : Steady p' := by
  have hmodest := hf.modest hs
  cases hs with
  | dial program hbound => exact h.dial hf hreg hbound
  | @peer k c c' hc hc' =>
    refine h.setConn hc (fun hlost => ?_) ((h.sane k c hc).peerStep hc')
      (Conn.awaits_of_peerStep _ hc') hmodest fun hends => hends.peerStep hc'
    rw [(Conn.peerStep_kept hc').2.1]
    exact hlost
  | @exit k c hc hopen =>
    have hsane := h.sane k c hc
    refine h.setConn hc id ⟨hsane.reported, ?_, ?_⟩ (fun _ _ _ hs => ?_) hmodest fun hends =>
      ⟨hends.down, fun _ _ _ _ hs => ?_⟩
    · intro _ _ _ _ _ _ _ hs
      cases hs
    · intro _ _ _ hs
      cases hs
    · cases hs
    · cases hs
  | @lose k c hc hlost =>
    have hsane := h.sane k c hc
    refine h.setConn hc (fun _ => rfl) ⟨fun _ => rfl, hsane.client, hsane.miner⟩
      (fun _ _ _ _ hopen => ?_) hmodest fun hends => ⟨hends.down, hends.searching⟩
    cases hopen
  | assign hreading horder => exact h.assign hf hreg hreading horder
  | read hc hup hreading hreported hr => exact h.read hf hreg hc hup hreading hreported hr
  | fail hc hreading hlost hreported => exact h.fail hf hc hreading hlost hreported

end

/-- Every state of the pool is steady, and follows a state of `Mining`. -/
theorem steady_inductive (hash : String → UInt64 → UInt64) :
    (pool hash).Inductive fun p => Steady p ∧
      ∃ m, mining.Reachable m ∧ Follows hash p m ∧ Registered m ∧ Honest hash m where
  init p hp := by
    obtain ⟨m, hm, hrel⟩ := (pool_follows hash).init p hp
    refine ⟨?_, m, ⟨m, [], hm, .nil m⟩, hrel⟩
    subst hp
    refine ⟨fun k c hc => ?_, fun k c hc => ?_, fun k st hst => ?_, fun hreading => ?_,
      fun _ => ⟨fun u hu => ?_, fun k c hc => ?_⟩⟩
    · cases hc
    · cases hc
    · cases hst
    · cases hreading
    · rcases hu with hu | ⟨k, hk⟩
      · cases hu
      · cases hk
    · cases hc
  step p l p' hp hstep := by
    obtain ⟨hsteady, m, hm, hf, hreg, hhonest⟩ := hp
    obtain ⟨ks, m', hrun, hrel⟩ := (pool_follows hash).step p m l p' ⟨hf, hreg, hhonest⟩ hstep
    exact ⟨hsteady.step hf hreg (Pool.steps_of_step hstep), m', hm.run hrun, hrel⟩

end Cmu440.Bitcoin
