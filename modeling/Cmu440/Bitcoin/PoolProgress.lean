import Cmu440.Bitcoin.PoolSteady
import Mathlib.Algebra.BigOperators.Group.Finset.Piecewise
import Mathlib.Algebra.Order.BigOperators.Group.Finset

/-!
# The pool answers

A client is answered as long as its connection and that of one miner last. Other
miners may be lost, with the units they work on, and be lost unnoticed: until
`Read` returns the failure the server takes them for alive.

`calm` are the steps without disturbance: nobody connects or is killed any more,
and the only connections lost are those of peers that have ended, which LSP notices
by itself. Every one of them lowers the work that is left (`work`):

* a unit weighs its nonces and a few steps more, in `jobQ` or on its way down, and
  the loop of the miner uses that up, turn by turn;
* a request weighs as much as all units it may be cut into;
* a connection weighs, until its failure is reported, as much as the unit that is
  then put back.

So whatever the order of the steps, the pool comes to an end (`Pool.Steps.work_lt`),
and when there is no step left, every client that is connected has printed its
result (`pool_answers`).
-/
namespace Cmu440.Bitcoin

/-! ## Steps without disturbance -/

/-- A connection that is lost is that of a peer that has ended. -/
def Pool.calm (p : Pool) : PoolLbl → Bool
  | .dial _ | .exit _ => false
  | .lose connId =>
    match p.conns connId with
    | some c => c.state.ended
    | none => false
  | _ => true

/-- Neither side has lost the connection. -/
def Conn.Connected (c : Conn) : Prop := c.lost = false ∧ c.state ≠ .gone

/-! ## The work that is left -/

/-- The most that a unit weighs. -/
def unitMax : Nat := 2 ^ 64 + 5

/-- A request to a miner. -/
def Message.weight (msg : Message) : Nat := msg.upper.toNat + 1 - msg.lower.toNat + 5

/-- A message to the server; the units of a job weigh at most `job`. -/
def Message.upWeight (job : Nat) (msg : Message) : Nat :=
  match msg.type with
  | .join => 2
  | .request => 3 + job
  | .result => 3
  | .other _ => 0

namespace Conn

def stateWeight (job : Nat) (c : Conn) : Nat :=
  match c.program, c.state with
  | .client _ _, .start => 4 + job
  | .miner, .start => 3
  | _, .searching reqMsg i _ _ => reqMsg.upper.toNat + 1 - i.toNat + 4
  | _, _ => 0

def downWeight (c : Conn) : Nat :=
  match c.program with
  | .client _ _ => c.down.length
  | .miner => (c.down.map Message.weight).sum

/-- A unit weighs at most `unit`. -/
def weight (job unit : Nat) (c : Conn) : Nat :=
  c.stateWeight job + (c.up.map (Message.upWeight job)).sum + c.downWeight
    + (if c.lost then 0 else 1) + if c.reported then 0 else unit + 2

end Conn

def queueWeight (q : List WorkUnit) : Nat := (q.map fun u => u.workMsg.weight).sum

namespace Pool

def connWeight (p : Pool) : Conn → Nat := Conn.weight (p.dialed * unitMax) unitMax

/-- The ids of the connections. -/
def ids (p : Pool) : Finset Int := (Finset.range p.dialed).image fun i : Nat => (i : Int) + 1

def load (p : Pool) : Nat := ∑ k ∈ p.ids, (p.conns k).elim 0 p.connWeight

def work (p : Pool) : Nat := (if p.reading then 0 else 1) + queueWeight p.server.jobQ + p.load

end Pool

section
variable {hash : String → UInt64 → UInt64} {job unit : Nat} {c c' : Conn}

end

namespace Pool

variable {p : Pool} {k : Int} {c c' : Conn}

end Pool

/-! ## The server's steps -/

namespace Scheduler

end Scheduler

/-! ## Every step does some of the work -/

section
variable {hash : String → UInt64 → UInt64} {p p' : Pool} {m : Mining} {l : PoolLbl}

theorem Follows.mem_ids (h : Follows hash p m) {k : Int} {c : Conn} (hc : p.conns k = some c) :
    k ∈ p.ids := by
  have hk := h.ids k c hc
  refine Finset.mem_image.mpr ⟨(k - 1).toNat, Finset.mem_range.mpr ?_, ?_⟩ <;> omega

end

/-! ## When no step is left -/

/-- There is no calm step. -/
def Pool.Still (hash : String → UInt64 → UInt64) (p : Pool) : Prop :=
  ∀ l, LTS.guarded Pool.calm (Pool.step hash) p l = none

section
variable {hash : String → UInt64 → UInt64} {p : Pool} {m : Mining} {k : Int} {c : Conn}

theorem Pool.Still.step (h : p.Still hash) {l : PoolLbl} (hcalm : p.calm l = true) :
    p.step hash l = none := by
  have hnone := h l
  unfold LTS.guarded at hnone
  rw [if_pos hcalm] at hnone
  exact hnone

theorem Pool.Still.reading (h : p.Still hash) : p.reading = true := by
  by_contra hreading
  have hnone := h.step (l := .assign p.server.unOccupiedMiner.keys) rfl
  simp only [Pool.step, Bool.eq_false_iff.mpr hreading, true_and, List.Perm.refl, if_true] at hnone
  cases hnone

theorem Pool.Still.peer (h : p.Still hash) (hc : p.conns k = some c) : c.peerStep hash = none := by
  have hnone := h.step (l := .peer k) rfl
  simp only [Pool.step, hc, Option.bind_some, Option.map_eq_none_iff] at hnone
  exact hnone

/-- The failures of lost connections have been reported. -/
theorem Pool.Still.reported (h : p.Still hash) (hc : p.conns k = some c) (hlost : c.lost = true) :
    c.reported = true := by
  by_contra hreported
  have hnone := h.step (l := .fail k) rfl
  simp only [Pool.step, hc, Option.bind_some, h.reading, hlost, Bool.eq_false_iff.mpr hreported,
    and_self, if_true] at hnone
  cases hnone

theorem Pool.Still.lost (h : p.Still hash) (hc : p.conns k = some c)
    (hended : c.state.ended = true) : c.lost = true := by
  by_contra hlost
  have hcalm : p.calm (.lose k) = true := by
    simp only [Pool.calm, hc]
    exact hended
  have hnone := h.step hcalm
  simp only [Pool.step, hc, Option.bind_some, if_neg hlost] at hnone
  cases hnone

/-- Everything that was sent has been read. -/
theorem Pool.Still.up (h : p.Still hash) (hf : Follows hash p m) (hreg : Registered m)
    (hc : p.conns k = some c) (hreported : c.reported = false) : c.up = [] := by
  cases hup : c.up with
  | nil => rfl
  | cons msg up =>
    obtain ⟨m', hm'⟩ := read_completes hreg (hf.reading.trans h.reading)
      (hf.admits hc hreported hup)
    replace hm' : m.step (.read (.message k msg)) = some m' := hm'
    simp only [Mining.step, hf.reading.trans h.reading, hf.admits hc hreported hup, and_self,
      if_true] at hm'
    obtain ⟨r, hr, -⟩ := Option.map_eq_some_iff.mp hm'
    rw [hf.server] at hr
    have hnone := h.step (l := .read k) rfl
    simp only [Pool.step, hc, Option.bind_some, hup, h.reading, hreported, and_self, if_true, hr,
      Option.map_some] at hnone
    cases hnone

/-- No miner has a unit: it would search, or be reported. -/
theorem Pool.Still.no_work (h : p.Still hash) (hf : Follows hash p m) (hreg : Registered m)
    {u : WorkUnit} (hk : p.server.minerCurrWork.lookup k = some (some u)) : False := by
  rw [← hf.server] at hk
  obtain ⟨hrole, hlost⟩ := (hreg.miners k).mp (mem_of_work hk)
  cases hc : p.conns k with
  | none => cases (hf.fresh k hc).1.symm.trans hrole
  | some c =>
    have hattached := hf.attached k c hc
    have hreported : c.reported = false := hattached.lost.symm.trans hlost
    have hasked := (hreg.roster k).asked
    rw [hk] at hasked
    have hnone := h.peer hc
    have hup := h.up hf hreg hc hreported
    cases hattached.linked hreported with
    | client _ _ _ hr => exact hr hrole
    | unjoined _ hr => cases hr.symm.trans hrole
    | joining _ hr => cases hr.symm.trans hrole
    | joined answered rest hp _ hup' _ hasked' hworking =>
      have hnil : answered = [] := List.map_eq_nil_iff.mp (hup'.symm.trans hup)
      rw [hasked', hnil] at hasked
      replace hasked : rest = [u.workMsg] := hasked
      unfold Conn.peerStep at hnone
      unfold Conn.Working at hworking
      rw [hp] at hnone
      cases hs : c.state with
      | start => simp [hs] at hworking
      | printed _ _ => simp [hs] at hworking
      | waiting =>
        rw [hs] at hworking hnone
        simp [← hworking, hasked] at hnone
      | searching reqMsg i minHash nonce =>
        rw [hs] at hnone
        dsimp only at hnone
        split at hnone
        · split at hnone
          · cases hnone
          · cases hnone
        · cases hnone
      | gone =>
        have hended := h.reported hc (h.lost hc (by rw [hs]; rfl))
        cases hreported.symm.trans hended

/-- A miner that is connected is registered, and has no unit. -/
theorem Pool.Still.free (h : p.Still hash) (hf : Follows hash p m) (hreg : Registered m)
    (hsteady : Steady p) (hc : p.conns k = some c) (hp : c.program = .miner)
    (hconnected : c.Connected) : k ∈ p.server.unOccupiedMiner := by
  obtain ⟨hlost, hgone⟩ := hconnected
  have hreported : c.reported = false := by
    by_contra hreported
    rw [Bool.not_eq_false] at hreported
    cases hlost.symm.trans ((hsteady.sane k c hc).reported hreported)
  have hup := h.up hf hreg hc hreported
  have hnone := h.peer hc
  have hattached := hf.attached k c hc
  cases hattached.linked hreported with
  | client _ _ hp' => cases hp.symm.trans hp'
  | unjoined _ _ _ _ hs =>
    have hs := hs.resolve_right hgone
    simp [Conn.peerStep, hp, hs] at hnone
  | joining _ _ hup' => cases hup'.symm.trans hup
  | joined _ _ _ hrole =>
    have hmem := (hreg.miners k).mpr ⟨hrole, hattached.lost.trans hreported⟩
    rw [hf.server] at hmem
    obtain ⟨o, ho⟩ := Option.isSome_iff_exists.mp (AList.lookup_isSome.mpr hmem)
    cases o with
    | some u => exact (h.no_work hf hreg ho).elim
    | none =>
      rw [← hf.server] at ho ⊢
      exact (hreg.roster k).free.mpr ho

/-- A client that is connected has its result. -/
theorem Pool.Still.printed (h : p.Still hash) (hf : Follows hash p m) (hreg : Registered m)
    (hconserved : Conserved m) (hsteady : Steady p) (hc : p.conns k = some c) {data : String}
    {maxNonce : UInt64} (hp : c.program = .client data maxNonce)
    (hopen : c.lost = true → c.state.ended = true) (hgone : c.state ≠ .gone) {j : Int} {d : Conn}
    (hd : p.conns j = some d) (hdp : d.program = .miner) (hdc : d.Connected) :
    ∃ a b, c.state = .printed a b := by
  have hnone := h.peer hc
  cases hs : c.state with
  | printed a b => exact ⟨a, b, rfl⟩
  | gone => exact absurd hs hgone
  | searching reqMsg i minHash nonce =>
    exact absurd hs ((hsteady.sane k c hc).client data maxNonce reqMsg i minHash nonce hp)
  | start => simp [Conn.peerStep, hp, hs] at hnone
  | waiting =>
    exfalso
    have hlost : c.lost = false := by
      by_contra hlost
      rw [Bool.not_eq_false] at hlost
      have hended := hopen hlost
      rw [hs] at hended
      cases hended
    have hreported : c.reported = false := by
      by_contra hreported
      rw [Bool.not_eq_false] at hreported
      cases hlost.symm.trans ((hsteady.sane k c hc).reported hreported)
    have hdown : c.down = [] := by
      cases hdown : c.down with
      | nil => rfl
      | cons msg down => simp [Conn.peerStep, hp, hs, hdown] at hnone
    -- it has a job, and a unit of the job is somewhere
    rcases hsteady.awaits k c hc data maxNonce hp hs hlost with hup | hst | hne
    · exact hup (h.up hf hreg hc hreported)
    · obtain ⟨st, hst⟩ := Option.ne_none_iff_exists'.mp hst
      have hleft := (hconserved.active k st (hf.server.symm ▸ hst)).2.left
      have hbusy := hsteady.busy k st hst
      have hpos : (m.job k).todo ≠ 0 := by
        intro hzero
        rw [hzero, Multiset.card_zero] at hleft
        exact hbusy hleft
      obtain ⟨u, hu⟩ := Multiset.exists_mem_of_ne_zero hpos
      obtain ⟨hplace, -⟩ := Scheduler.mem_outstanding.mp hu
      rw [hf.server] at hplace
      rcases hplace with hq | ⟨i, hi⟩
      · rcases hsteady.settled h.reading with hempty | hall
        · rw [hempty] at hq
          cases hq
        · have hfree := h.free hf hreg hsteady hd hdp hdc
          cases hdc.1.symm.trans (hall j hfree d hd)
      · exact h.no_work hf hreg hi
    · exact hne hdown

end

/-! ## Every run -/

/-- A connection that was not disturbed: the server may lose it once the peer has ended. -/
structure Conn.Undisturbed (c c' : Conn) : Prop where
  program : c'.program = c.program
  gone : c'.state ≠ .gone
  lost : c'.lost = true → c'.state.ended = true

section
variable {hash : String → UInt64 → UInt64} {p p' : Pool} {m : Mining} {l : PoolLbl} {k : Int}
  {c : Conn}

theorem Conn.Connected.undisturbed (h : c.Connected) : c.Undisturbed c :=
  ⟨rfl, h.2, fun hlost => by cases h.1.symm.trans hlost⟩

theorem Conn.Undisturbed.peerStep {d d' : Conn} (h : c.Undisturbed d)
    (hstep : d.peerStep hash = some d') : c.Undisturbed d' := by
  obtain ⟨hprogram, hlost, -⟩ := Conn.peerStep_kept hstep
  have hended : d.state.ended = false := by
    obtain ⟨_, _, -, hs, -⟩ | ⟨_, _, _, _, -, hs, -⟩ | ⟨-, hs, -⟩ | ⟨_, _, -, hs, -⟩ |
      ⟨_, _, _, _, -, hs, -⟩ := Conn.peerStep_cases hstep <;> rw [hs] <;> rfl
  refine ⟨hprogram.trans h.program, ?_, fun hl => ?_⟩
  · obtain ⟨_, _, -, -, rfl⟩ | ⟨_, _, _, _, -, -, -, rfl⟩ | ⟨-, -, rfl⟩ | ⟨_, _, -, -, -, rfl⟩ |
      ⟨_, _, _, _, -, -, ⟨-, _, _, rfl, -⟩ | ⟨-, rfl⟩⟩ := Conn.peerStep_cases hstep <;> simp
  · rw [hlost] at hl
    cases hended.symm.trans (h.lost hl)

theorem Conn.Undisturbed.write {d : Conn} (h : c.Undisturbed d) (msgs : List Message) :
    c.Undisturbed (d.write msgs) := by
  refine ⟨(d.write_program msgs).trans h.program, ?_, ?_⟩
  · rw [d.write_state]
    exact h.gone
  · rw [d.write_lost, d.write_state]
    exact h.lost

theorem Conn.Undisturbed.step {d : Conn} (h : c.Undisturbed d) (hd : p.conns k = some d)
    (hs : p.Steps hash l p') (hcalm : p.calm l = true) :
    ∃ d', p'.conns k = some d' ∧ c.Undisturbed d' := by
  have hset : ∀ {j : Int} {e e' : Conn}, p.conns j = some e → (e = d → c.Undisturbed e') →
      ∃ d', (p.setConn j e').conns k = some d' ∧ c.Undisturbed d' := by
    intro j e e' he hkept
    by_cases hj : k = j
    · subst hj
      exact ⟨e', p.setConn_self k e', hkept (Option.some.inj (he.symm.trans hd))⟩
    · exact ⟨d, (p.setConn_of_ne hj e').trans hd, h⟩
  have hwrite : ∀ {q : Pool} (out : List (Int × Message)),
      (∃ d', q.conns k = some d' ∧ c.Undisturbed d') →
      ∃ d', (q.write out).conns k = some d' ∧ c.Undisturbed d' := by
    intro q out hq
    obtain ⟨d', hd', hkept⟩ := hq
    exact ⟨_, congrArg (Option.map _) hd', hkept.write _⟩
  cases hs with
  | dial => cases hcalm
  | exit => cases hcalm
  | peer he he' => exact hset he fun heq => (heq ▸ h).peerStep he'
  | @lose j e he hlost =>
    refine hset he fun heq => ?_
    subst heq
    simp only [Pool.calm, he] at hcalm
    exact ⟨h.program, h.gone, fun _ => hcalm⟩
  | assign hreading horder => exact hwrite _ ⟨d, hd, h⟩
  | read he hup hreading hreported hr =>
    refine hwrite _ (hset he fun heq => ?_)
    subst heq
    exact ⟨h.program, h.gone, h.lost⟩
  | fail he hreading hlost hreported =>
    refine hset he fun heq => ?_
    subst heq
    exact ⟨h.program, h.gone, h.lost⟩

end

/-- A calm pool stays modest. -/
theorem Pool.Modest.step {hash : String → UInt64 → UInt64} {p p' : Pool} {l : PoolLbl}
    (h : p.Modest) (hs : p.Steps hash l p') (hcalm : p.calm l = true) : p'.Modest := by
  have hall : p.All fun _ c => ∀ data maxNonce, c.program = .client data maxNonce →
    maxNonce < maxUint64 := fun k c hc data maxNonce hp => h.ranges k c data maxNonce hc hp
  have hmodest : ∀ {q : Pool}, q.dialed = p.dialed → (q.All fun _ c => ∀ data maxNonce,
      c.program = .client data maxNonce → maxNonce < maxUint64) → q.Modest := by
    intro q hdialed hq
    exact ⟨hdialed ▸ h.dialed, fun k c data maxNonce hc hp => hq k c hc data maxNonce hp⟩
  have hwrite : ∀ (c : Conn) (msgs : List Message), (∀ data maxNonce,
      c.program = .client data maxNonce → maxNonce < maxUint64) → ∀ data maxNonce,
      (c.write msgs).program = .client data maxNonce → maxNonce < maxUint64 := by
    intro c msgs hc
    rw [c.write_program]
    exact hc
  cases hs with
  | dial => cases hcalm
  | exit => cases hcalm
  | @peer k c c' hc hc' =>
    refine hmodest rfl (hall.setConn ?_)
    rw [(Conn.peerStep_kept hc').1]
    exact hall k c hc
  | @lose k c hc hlost => exact hmodest rfl (hall.setConn (hall k c hc))
  | assign hreading horder =>
    exact hmodest rfl (Pool.All.write hall fun _ d _ hd => hwrite d _ hd)
  | @read k c msg up r hc hup hreading hreported hr =>
    refine hmodest rfl (Pool.All.write (Pool.All.setConn hall ?_) fun _ d _ hd => hwrite d _ hd)
    exact hall k c hc
  | @fail k c hc hreading hlost hreported =>
    exact hmodest rfl (Pool.All.setConn hall (hall k c hc))

end Cmu440.Bitcoin
