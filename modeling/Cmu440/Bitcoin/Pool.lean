import Cmu440.Bitcoin.Miner
import Cmu440.Bitcoin.Partition

/-!
# The mining pool

The three programs of p1/src/github.com/cmu440/bitcoin together: the server's main
loop (server.go:239-250) and, on each LSP connection, a client (client.go) or a
miner (miner.go), which run side by side.

A connection has what its peer wrote and the server has not read (`up`), and what
the server wrote and the peer has not read (`down`). That is what LSP gives its
users: both sides read what was written, in order and once, until the connection is
lost. The server may lose it at any time (`lost`): a `Write` then fails, and one of
the next `Read`s returns the failure (`reported`), after which nothing more is read
from it. On the other side a peer may be killed, or its `Read` or `Write` may fail,
at any time (`gone`). The server numbers the connections from 1 on, with an `int`.
Parsing of arguments, JSON and the printed texts are left out.

The second half is about a connection on its own. `Linked` says what is on the way
up from it, given what the server knows of the peer: from a miner its `Join`, then
for each request that it has taken the answer that `calculateMinHash` gives, and
the requests that are left are those it searches or has not read.
-/
namespace Cmu440.Bitcoin

/-! ## The programs -/

inductive Program
  /-- `./client <hostport> <data> <maxNonce>` -/
  | client (data : String) (maxNonce : UInt64)
  | miner
  deriving DecidableEq, Repr

/-- Where a client or a miner is. -/
inductive PeerState
  /-- before its first `Write` -/
  | start
  /-- in `Read` -/
  | waiting
  /-- in the loop of `calculateMinHash` -/
  | searching (reqMsg : Message) (i minHash nonce : UInt64)
  /-- a client after `printResult` -/
  | printed (hash nonce : UInt64)
  /-- it was killed, or `Read` or `Write` failed -/
  | gone
  deriving DecidableEq, Repr

def PeerState.ended : PeerState → Bool
  | .printed _ _ | .gone => true
  | _ => false

structure Conn where
  program : Program
  state : PeerState
  /-- written by the peer, not read by the server -/
  up : List Message
  /-- written by the server, not read by the peer -/
  down : List Message
  lost : Bool
  reported : Bool
  deriving DecidableEq, Repr

namespace Conn

def dialed (program : Program) : Conn := ⟨program, .start, [], [], false, false⟩

/-- mirrors client.go:35 -/
def request (data : String) (maxNonce : UInt64) : Message := newRequest data 0 maxNonce

/-- The next thing the peer does. A message it reads is not looked at further than
its fields. mirrors client.go:35-61 and miner.go:62-88, with the loop of 32-38 turn
by turn -/
def peerStep (hash : String → UInt64 → UInt64) (c : Conn) : Option Conn :=
  match c.program, c.state with
  | .client data maxNonce, .start =>
    some { c with state := .waiting, up := c.up ++ [request data maxNonce] }
  | .miner, .start => some { c with state := .waiting, up := c.up ++ [newJoin] }
  | .client _ _, .waiting =>
    match c.down with
    | [] => none
    | resultMsg :: down =>
      some { c with state := .printed resultMsg.hash resultMsg.nonce, down := down }
  | .miner, .waiting =>
    match c.down with
    | [] => none
    | reqMsg :: down =>
      some { c with state := .searching reqMsg reqMsg.lower maxUint64 0, down := down }
  | .miner, .searching reqMsg i minHash nonce =>
    if i ≤ reqMsg.upper then
      if hash reqMsg.data i < minHash then
        some { c with state := .searching reqMsg (i + 1) (hash reqMsg.data i) i }
      else some { c with state := .searching reqMsg (i + 1) minHash nonce }
    else some { c with state := .waiting, up := c.up ++ [newResult minHash nonce] }
  | _, _ => none

/-- What is written to a lost connection is gone. -/
def write (c : Conn) (msgs : List Message) : Conn :=
  if c.lost then c else { c with down := c.down ++ msgs }

theorem write_nil (c : Conn) : c.write [] = c := by
  unfold write
  rw [List.append_nil, ite_self]

theorem write_program (c : Conn) (msgs : List Message) : (c.write msgs).program = c.program := by
  unfold write
  split <;> rfl

theorem write_lost (c : Conn) (msgs : List Message) : (c.write msgs).lost = c.lost := by
  unfold write
  split <;> rfl

theorem write_of_open {c : Conn} (h : c.lost = false) (msgs : List Message) :
    c.write msgs = { c with down := c.down ++ msgs } := by
  unfold write
  rw [h]
  rfl

end Conn

/-! ## The system -/

structure Pool where
  server : Scheduler
  /-- between `assignJobsToUnoccupiedMiner` and the handling of what `Read` returns -/
  reading : Bool
  conns : Int → Option Conn
  /-- the number of connections so far -/
  dialed : Nat

inductive PoolLbl
  | dial (program : Program)
  | peer (connId : Int)
  /-- the peer's `Read` or `Write` fails, or it is killed -/
  | exit (connId : Int)
  /-- the server's side of the connection is lost -/
  | lose (connId : Int)
  | assign (order : List Int)
  | read (connId : Int)
  /-- `Read` returns the failure of a connection -/
  | fail (connId : Int)
  deriving DecidableEq, Repr

namespace Pool

def init : Pool := ⟨.init, false, fun _ => none, 0⟩

/-- `lspServer.Write` succeeds. -/
def writable (p : Pool) (connId : Int) : Bool :=
  match p.conns connId with
  | some c => !c.lost
  | none => false

def setConn (p : Pool) (connId : Int) (c : Conn) : Pool :=
  { p with conns := Function.update p.conns connId (some c) }

theorem setConn_self (p : Pool) (k : Int) (c : Conn) : (p.setConn k c).conns k = some c :=
  Function.update_self ..

theorem setConn_of_ne (p : Pool) {k j : Int} (h : j ≠ k) (c : Conn) :
    (p.setConn k c).conns j = p.conns j :=
  Function.update_of_ne h ..

/-- The messages of `out` that are for `connId`. -/
def mail (out : List (Int × Message)) (connId : Int) : List Message :=
  (out.filter fun o => o.1 = connId).map Prod.snd

/-- The messages of `out` are written. -/
def write (p : Pool) (out : List (Int × Message)) : Pool :=
  { p with conns := fun k => (p.conns k).map fun c => c.write (mail out k) }

/-- One of the peers, or the server, takes a step, or a connection is made or lost. -/
def step (hash : String → UInt64 → UInt64) (p : Pool) : PoolLbl → Option Pool
  | .dial program =>
    if p.dialed + 1 < 2 ^ 63 then
      some { p.setConn (p.dialed + 1) (.dialed program) with dialed := p.dialed + 1 }
    else none
  | .peer connId => (p.conns connId).bind fun c => (c.peerStep hash).map (p.setConn connId)
  | .exit connId => (p.conns connId).bind fun c =>
    if c.state.ended then none else some (p.setConn connId { c with state := .gone })
  | .lose connId => (p.conns connId).bind fun c =>
    if c.lost then none else some (p.setConn connId { c with lost := true })
  | .assign order =>
    if p.reading = false ∧ order.Perm p.server.unOccupiedMiner.keys then
      let r := p.server.assignJobsToUnoccupiedMiner order p.writable
      some { p.write r.2 with server := r.1, reading := true }
    else none
  | .read connId => (p.conns connId).bind fun c =>
    match c.up with
    | [] => none
    | msg :: up =>
      if p.reading = true ∧ c.reported = false then
        (p.server.handleIncomeMessage connId (some msg)).map fun r =>
          { (p.setConn connId { c with up := up }).write r.2 with server := r.1, reading := false }
      else none
  | .fail connId => (p.conns connId).bind fun c =>
    if p.reading = true ∧ c.lost = true ∧ c.reported = false then
      some { p.setConn connId { c with reported := true } with
        server := p.server.handleFailure connId, reading := false }
    else none

/-- The steps, one by one. -/
inductive Steps (hash : String → UInt64 → UInt64) (p : Pool) : PoolLbl → Pool → Prop
  | dial (program : Program) (hbound : p.dialed + 1 < 2 ^ 63) :
      Steps hash p (.dial program)
        { p.setConn (p.dialed + 1) (.dialed program) with dialed := p.dialed + 1 }
  | peer {k : Int} {c c' : Conn} (hc : p.conns k = some c) (hc' : c.peerStep hash = some c') :
      Steps hash p (.peer k) (p.setConn k c')
  | exit {k : Int} {c : Conn} (hc : p.conns k = some c) (hopen : c.state.ended = false) :
      Steps hash p (.exit k) (p.setConn k { c with state := .gone })
  | lose {k : Int} {c : Conn} (hc : p.conns k = some c) (hlost : c.lost = false) :
      Steps hash p (.lose k) (p.setConn k { c with lost := true })
  | assign {order : List Int} (hreading : p.reading = false)
      (horder : order.Perm p.server.unOccupiedMiner.keys) :
      Steps hash p (.assign order)
        { p.write (p.server.assignJobsToUnoccupiedMiner order p.writable).2 with
          server := (p.server.assignJobsToUnoccupiedMiner order p.writable).1, reading := true }
  | read {k : Int} {c : Conn} {msg : Message} {up : List Message}
      {r : Scheduler × List (Int × Message)} (hc : p.conns k = some c) (hup : c.up = msg :: up)
      (hreading : p.reading = true) (hreported : c.reported = false)
      (hr : p.server.handleIncomeMessage k (some msg) = some r) :
      Steps hash p (.read k)
        { (p.setConn k { c with up := up }).write r.2 with server := r.1, reading := false }
  | fail {k : Int} {c : Conn} (hc : p.conns k = some c) (hreading : p.reading = true)
      (hlost : c.lost = true) (hreported : c.reported = false) :
      Steps hash p (.fail k)
        { p.setConn k { c with reported := true } with
          server := p.server.handleFailure k, reading := false }

theorem steps_of_step {hash : String → UInt64 → UInt64} {p p' : Pool} {l : PoolLbl}
    (h : p.step hash l = some p') : p.Steps hash l p' := by
  cases l with
  | dial program =>
    simp only [step] at h
    split at h
    · rename_i hbound
      cases h
      exact .dial program hbound
    · cases h
  | peer k =>
    obtain ⟨c, hc, h⟩ := Option.bind_eq_some_iff.mp h
    obtain ⟨c', hc', rfl⟩ := Option.map_eq_some_iff.mp h
    exact .peer hc hc'
  | exit k =>
    obtain ⟨c, hc, h⟩ := Option.bind_eq_some_iff.mp h
    split at h
    · cases h
    · rename_i hopen
      cases h
      exact .exit hc (Bool.eq_false_iff.mpr hopen)
  | lose k =>
    obtain ⟨c, hc, h⟩ := Option.bind_eq_some_iff.mp h
    split at h
    · cases h
    · rename_i hlost
      cases h
      exact .lose hc (Bool.eq_false_iff.mpr hlost)
  | assign order =>
    simp only [step] at h
    split at h
    · rename_i hguard
      cases h
      exact .assign hguard.1 hguard.2
    · cases h
  | read k =>
    obtain ⟨c, hc, h⟩ := Option.bind_eq_some_iff.mp h
    split at h
    · cases h
    · rename_i msg up hup
      split at h
      · rename_i hguard
        obtain ⟨r, hr, rfl⟩ := Option.map_eq_some_iff.mp h
        exact .read hc hup hguard.1 hguard.2 hr
      · cases h
  | fail k =>
    obtain ⟨c, hc, h⟩ := Option.bind_eq_some_iff.mp h
    split at h
    · rename_i hguard
      cases h
      exact .fail hc hguard.1 hguard.2.1 hguard.2.2
    · cases h

end Pool

def pool (hash : String → UInt64 → UInt64) : LTS Pool PoolLbl :=
  LTS.ofFn (· = .init) (Pool.step hash)

/-! ## What the miners find -/

/-- The `Result` is what `calculateMinHash` returns for the `Request`. -/
def Answer.Found (hash : String → UInt64 → UInt64) (a : Answer) : Prop :=
  ∃ fuel, Bitcoin.answer hash a.request fuel = some a.result

/-- The loop of `calculateMinHash`, called for `reqMsg`, has come to `i`. -/
def Message.SearchedTo (hash : String → UInt64 → UInt64) (reqMsg : Message)
    (i minHash nonce : UInt64) : Prop :=
  ∃ turns, ∀ fuel, calculateMinHash hash reqMsg.data reqMsg.lower reqMsg.upper (fuel + turns) =
    minHashLoop (hash reqMsg.data) reqMsg.upper fuel i minHash nonce

section
variable {hash : String → UInt64 → UInt64} {reqMsg : Message} {i minHash nonce : UInt64}

theorem Message.SearchedTo.start : reqMsg.SearchedTo hash reqMsg.lower maxUint64 0 :=
  ⟨0, fun _ => rfl⟩

theorem Message.SearchedTo.turn (h : reqMsg.SearchedTo hash i minHash nonce)
    (hle : i ≤ reqMsg.upper) :
    if hash reqMsg.data i < minHash then
      reqMsg.SearchedTo hash (i + 1) (hash reqMsg.data i) i
    else reqMsg.SearchedTo hash (i + 1) minHash nonce := by
  obtain ⟨turns, h⟩ := h
  have hnext : ∀ fuel, calculateMinHash hash reqMsg.data reqMsg.lower reqMsg.upper
      (fuel + (turns + 1)) =
      minHashLoop (hash reqMsg.data) reqMsg.upper (fuel + 1) i minHash nonce := by
    intro fuel
    rw [← h (fuel + 1)]
    congr 1
    omega
  split
  · rename_i hlt
    refine ⟨turns + 1, fun fuel => (hnext fuel).trans ?_⟩
    rw [minHashLoop, if_pos hle, if_pos hlt]
  · rename_i hlt
    refine ⟨turns + 1, fun fuel => (hnext fuel).trans ?_⟩
    rw [minHashLoop, if_pos hle, if_neg hlt]

theorem Message.SearchedTo.found (h : reqMsg.SearchedTo hash i minHash nonce)
    (hend : ¬ i ≤ reqMsg.upper) : (Answer.mk reqMsg (newResult minHash nonce)).Found hash := by
  obtain ⟨turns, h⟩ := h
  refine ⟨1 + turns, ?_⟩
  rw [answer, h 1, minHashLoop, if_neg hend]
  rfl

/-- There is no result for a range up to 2^64-1. -/
theorem Answer.Found.upper_lt {a : Answer} (h : a.Found hash) : a.request.upper < maxUint64 := by
  rcases UInt64.lt_or_eq_of_le (le_maxUint64 a.request.upper) with hlt | heq
  · exact hlt
  · obtain ⟨fuel, h⟩ := h
    rw [Bitcoin.answer, calculateMinHash, heq, minHashLoop_never_ends] at h
    cases h

theorem Answer.Found.truthful {a : Answer} (h : a.Found hash) : a.Truthful hash := by
  obtain ⟨fuel, hfuel⟩ := h
  exact answer_truthful (Answer.Found.upper_lt ⟨fuel, hfuel⟩) hfuel

theorem Answer.Found.type {a : Answer} (h : a.Found hash) : a.result.type = .result := by
  obtain ⟨fuel, hfuel⟩ := h
  obtain ⟨r, -, hr⟩ := Option.map_eq_some_iff.mp hfuel
  rw [← hr]
  rfl

end

/-! ## Cut jobs -/

/-- The units share out the range, or one of them goes up to 2^64-1. -/
def Message.CutInto (msg : Message) (parts : Multiset WorkUnit) : Prop :=
  (∀ i, (∃ u ∈ parts, u.workMsg.InRange i) ↔ msg.InRange i) ∨
    ∃ u ∈ parts, u.workMsg.upper = maxUint64

theorem Message.TiledBy.cutInto {msg : Message} {units : List WorkUnit} (h : msg.TiledBy units) :
    msg.CutInto (units : Multiset WorkUnit) := by
  refine .inl fun i => ⟨?_, h.covered i⟩
  rintro ⟨u, hu, hi⟩
  exact h.inside u hu i hi

theorem Scheduler.partitionJob_cutInto (s : Scheduler) (connId : Int) (msg : Message)
    (hle : msg.lower ≤ msg.upper) (hzero : msg.lower = 0) (hint : s.numOfMiner < 2 ^ 63) :
    msg.CutInto ((s.partitionJob connId msg).jobQ.drop s.jobQ.length : List WorkUnit) := by
  by_cases hfit : minerWorkloadThreshold.toNat < msg.size → s.numOfMiner ≤ msg.size
  · obtain ⟨units, -, hq, htiled, -⟩ := s.partitionJob_tiles connId msg hle hint fun _ => hfit
    rw [hq, List.drop_left]
    exact htiled.cutInto
  · obtain ⟨hlong, hmany⟩ := Classical.not_imp.mp hfit
    rw [not_le] at hmany
    have hsize : msg.size < 2 ^ 64 := by omega
    rw [s.partitionJob_cut connId hle hsize hlong]
    refine .inr ⟨s.cutUnit connId msg s.numOfMiner 0, ?_,
      s.cutUnit_wraps connId hzero hle hsize (by omega) hmany⟩
    rw [pushJob, List.drop_left, cutJob_eq]
    exact Multiset.mem_coe.mpr (List.mem_map.mpr ⟨0, List.mem_range.mpr s.numOfMiner_pos, rfl⟩)

/-! ## A connection and what `Mining` knows of it -/

/-- The requests a miner has read or is going to read, apart from those it answered. -/
def Conn.Working (hash : String → UInt64 → UInt64) (c : Conn) (rest : List Message) : Prop :=
  match c.state with
  | .waiting => rest = c.down
  | .searching reqMsg i minHash nonce =>
    rest = reqMsg :: c.down ∧ reqMsg.SearchedTo hash i minHash nonce
  | .gone => True
  | _ => False

/-- What is on the way up from a connection, by the role the server knows it in and
what it was asked for. -/
inductive Linked (hash : String → UInt64 → UInt64) (role : Option Role) (asked : List Message)
    (c : Conn) : Prop
  | client (data : String) (maxNonce : UInt64) (hprogram : c.program = .client data maxNonce)
      (hrole : role ≠ some .miner)
      (hup : c.up = [] ∨ c.up = [Conn.request data maxNonce] ∧ c.state ≠ .start)
  | unjoined (hprogram : c.program = .miner) (hrole : role = none) (hup : c.up = [])
      (hdown : c.down = []) (hstate : c.state = .start ∨ c.state = .gone)
  | joining (hprogram : c.program = .miner) (hrole : role = none) (hup : c.up = [newJoin])
      (hdown : c.down = []) (hstate : c.state = .waiting ∨ c.state = .gone)
  | joined (answered : List Answer) (rest : List Message) (hprogram : c.program = .miner)
      (hrole : role = some .miner) (hup : c.up = answered.map Answer.result)
      (hfound : ∀ a ∈ answered, a.Found hash) (hasked : asked = answered.map Answer.request ++ rest)
      (hworking : c.Working hash rest)

section
variable {hash : String → UInt64 → UInt64} {role : Option Role} {asked : List Message} {c c' : Conn}

theorem Linked.dialed (program : Program) : Linked hash none asked (.dialed program) := by
  cases program with
  | client data maxNonce => exact .client data maxNonce rfl (by simp) (.inl rfl)
  | miner => exact .unjoined rfl rfl rfl rfl (.inl rfl)

/-- Nothing of it depends on what the server made of the connection. -/
theorem Linked.congr (h : Linked hash role asked c) (hprogram : c'.program = c.program)
    (hstate : c'.state = c.state) (hup : c'.up = c.up) (hdown : c'.down = c.down) :
    Linked hash role asked c' := by
  cases h with
  | client data maxNonce hp hrole hu =>
    refine .client data maxNonce (hprogram.trans hp) hrole ?_
    rw [hup, hstate]
    exact hu
  | unjoined hp hrole hu hd hs =>
    exact .unjoined (hprogram.trans hp) hrole (hup.trans hu) (hdown.trans hd) (hstate ▸ hs)
  | joining hp hrole hu hd hs =>
    exact .joining (hprogram.trans hp) hrole (hup.trans hu) (hdown.trans hd) (hstate ▸ hs)
  | joined answered rest hp hrole hu hfound hasked hworking =>
    refine .joined answered rest (hprogram.trans hp) hrole (hup.trans hu) hfound hasked ?_
    unfold Conn.Working at hworking ⊢
    rw [hstate, hdown]
    exact hworking

theorem Linked.exit (h : Linked hash role asked c) :
    Linked hash role asked { c with state := .gone } := by
  cases h with
  | client data maxNonce hp hrole hu =>
    exact .client data maxNonce hp hrole (hu.imp_right fun h => ⟨h.1, by simp⟩)
  | unjoined hp hrole hu hd hs => exact .unjoined hp hrole hu hd (.inr rfl)
  | joining hp hrole hu hd hs => exact .joining hp hrole hu hd (.inr rfl)
  | joined answered rest hp hrole hu hfound hasked hworking =>
    exact .joined answered rest hp hrole hu hfound hasked trivial

/-- What a peer may do, by its program. -/
theorem Conn.peerStep_cases (h : c.peerStep hash = some c') :
    (∃ data maxNonce, c.program = .client data maxNonce ∧ c.state = .start ∧
      c' = { c with state := .waiting, up := c.up ++ [Conn.request data maxNonce] }) ∨
    (∃ data maxNonce msg down, c.program = .client data maxNonce ∧ c.state = .waiting ∧
      c.down = msg :: down ∧ c' = { c with state := .printed msg.hash msg.nonce, down := down }) ∨
    (c.program = .miner ∧ c.state = .start ∧
      c' = { c with state := .waiting, up := c.up ++ [newJoin] }) ∨
    (∃ reqMsg down, c.program = .miner ∧ c.state = .waiting ∧ c.down = reqMsg :: down ∧
      c' = { c with state := .searching reqMsg reqMsg.lower maxUint64 0, down := down }) ∨
    ∃ reqMsg i minHash nonce, c.program = .miner ∧ c.state = .searching reqMsg i minHash nonce ∧
      ((i ≤ reqMsg.upper ∧ ∃ minHash' nonce',
        c' = { c with state := .searching reqMsg (i + 1) minHash' nonce' } ∧
        (reqMsg.SearchedTo hash i minHash nonce →
          reqMsg.SearchedTo hash (i + 1) minHash' nonce')) ∨
      (¬ i ≤ reqMsg.upper ∧
        c' = { c with state := .waiting, up := c.up ++ [newResult minHash nonce] })) := by
  unfold Conn.peerStep at h
  split at h
  · rename_i data maxNonce hp hs
    exact .inl ⟨data, maxNonce, hp, hs, (Option.some.inj h).symm⟩
  · rename_i hp hs
    exact .inr (.inr (.inl ⟨hp, hs, (Option.some.inj h).symm⟩))
  · rename_i data maxNonce hp hs
    split at h
    · cases h
    · rename_i msg down hd
      exact .inr (.inl ⟨data, maxNonce, msg, down, hp, hs, hd, (Option.some.inj h).symm⟩)
  · rename_i hp hs
    split at h
    · cases h
    · rename_i msg down hd
      exact .inr (.inr (.inr (.inl ⟨msg, down, hp, hs, hd, (Option.some.inj h).symm⟩)))
  · rename_i reqMsg i minHash nonce hp hs
    refine .inr (.inr (.inr (.inr ⟨reqMsg, i, minHash, nonce, hp, hs, ?_⟩)))
    split at h
    · rename_i hle
      refine .inl ⟨hle, ?_⟩
      split at h
      · rename_i hlt
        refine ⟨_, _, (Option.some.inj h).symm, fun hsearched => ?_⟩
        have hturn := hsearched.turn hle
        rw [if_pos hlt] at hturn
        exact hturn
      · rename_i hlt
        refine ⟨_, _, (Option.some.inj h).symm, fun hsearched => ?_⟩
        have hturn := hsearched.turn hle
        rw [if_neg hlt] at hturn
        exact hturn
    · rename_i hend
      exact .inr ⟨hend, (Option.some.inj h).symm⟩
  · cases h

theorem Conn.peerStep_kept (h : c.peerStep hash = some c') :
    c'.program = c.program ∧ c'.lost = c.lost ∧ c'.reported = c.reported := by
  obtain ⟨data, maxNonce, -, -, rfl⟩ | ⟨data, maxNonce, msg, down, -, -, -, rfl⟩ | ⟨-, -, rfl⟩ |
    ⟨reqMsg, down, -, -, -, rfl⟩ |
    ⟨reqMsg, i, minHash, nonce, -, -, ⟨-, _, _, rfl, -⟩ | ⟨-, rfl⟩⟩ :=
    Conn.peerStep_cases h <;> exact ⟨rfl, rfl, rfl⟩

/-- A client is not affected by what a miner does, and the other way round. -/
theorem Linked.peerStep (h : Linked hash role asked c) (hstep : c.peerStep hash = some c') :
    Linked hash role asked c' := by
  obtain ⟨data, maxNonce, hp, hs, rfl⟩ | ⟨data, maxNonce, msg, down, hp, hs, hd, rfl⟩ |
    ⟨hp, hs, rfl⟩ | ⟨reqMsg, down, hp, hs, hd, rfl⟩ |
    ⟨reqMsg, i, minHash, nonce, hp, hs, hsearch⟩ := Conn.peerStep_cases hstep
  · cases h with
    | client data' maxNonce' hp' hrole hup =>
      cases hp.symm.trans hp'
      have hup : c.up = [] := hup.resolve_right fun h => h.2 hs
      refine .client data maxNonce hp hrole (.inr ⟨?_, by simp⟩)
      simp only [hup, List.nil_append]
    | unjoined hp' => cases hp.symm.trans hp'
    | joining hp' => cases hp.symm.trans hp'
    | joined _ _ hp' => cases hp.symm.trans hp'
  · cases h with
    | client data' maxNonce' hp' hrole hup =>
      exact .client data' maxNonce' hp' hrole (hup.imp_right fun h => ⟨h.1, by simp⟩)
    | unjoined hp' => cases hp.symm.trans hp'
    | joining hp' => cases hp.symm.trans hp'
    | joined _ _ hp' => cases hp.symm.trans hp'
  · cases h with
    | client _ _ hp' => cases hp.symm.trans hp'
    | unjoined _ hrole hup hdown _ =>
      refine .joining hp hrole ?_ hdown (.inl rfl)
      simp only [hup, List.nil_append]
    | joining _ _ _ _ hs' => simp [hs] at hs'
    | joined _ _ _ _ _ _ _ hworking => simp [Conn.Working, hs] at hworking
  · cases h with
    | client _ _ hp' => cases hp.symm.trans hp'
    | unjoined _ _ _ hd' => simp [hd] at hd'
    | joining _ _ _ hd' => simp [hd] at hd'
    | joined answered rest _ hrole hup hfound hasked hworking =>
      simp only [Conn.Working, hs, hd] at hworking
      exact .joined answered rest hp hrole hup hfound hasked ⟨hworking, .start⟩
  · cases h with
    | client _ _ hp' => cases hp.symm.trans hp'
    | unjoined _ _ _ _ hs' => simp [hs] at hs'
    | joining _ _ _ _ hs' => simp [hs] at hs'
    | joined answered rest _ hrole hup hfound hasked hworking =>
      simp only [Conn.Working, hs] at hworking
      obtain ⟨hrest, hsearched⟩ := hworking
      obtain ⟨-, minHash', nonce', rfl, hnext⟩ | ⟨hend, rfl⟩ := hsearch
      · exact .joined answered rest hp hrole hup hfound hasked ⟨hrest, hnext hsearched⟩
      · refine .joined (answered ++ [⟨reqMsg, newResult minHash nonce⟩]) c.down hp hrole
          ?_ ?_ ?_ rfl
        · simp only [hup, List.map_append, List.map_cons, List.map_nil]
        · intro a ha
          rcases List.mem_append.mp ha with ha | ha
          · exact hfound a ha
          · rw [List.mem_singleton.mp ha]
            exact hsearched.found hend
        · simp only [hasked, hrest, List.map_append, List.map_cons, List.map_nil,
            List.append_assoc, List.singleton_append]

/-- More requests are written to a miner. -/
theorem Linked.write (h : Linked hash role asked c) (hrole : role = some .miner)
    (msgs : List Message) :
    Linked hash role (asked ++ msgs) { c with down := c.down ++ msgs } := by
  cases h with
  | client _ _ _ hr => exact absurd hrole hr
  | unjoined _ hr => exact absurd (hr.symm.trans hrole) (by simp)
  | joining _ hr => exact absurd (hr.symm.trans hrole) (by simp)
  | joined answered rest hp hr hup hfound hasked hworking =>
    refine .joined answered (rest ++ msgs) hp hr hup hfound ?_ ?_
    · rw [hasked, List.append_assoc]
    · unfold Conn.Working at hworking ⊢
      cases hs : c.state with
      | waiting =>
        simp only [hs] at hworking ⊢
        rw [hworking]
      | searching reqMsg i minHash nonce =>
        simp only [hs] at hworking ⊢
        exact ⟨by rw [hworking.1, List.cons_append], hworking.2⟩
      | gone => trivial
      | start => simp only [hs] at hworking
      | printed _ _ => simp only [hs] at hworking

/-- Messages to a client do not matter here. -/
theorem Linked.write_client (h : Linked hash role asked c) (hrole : role ≠ some .miner)
    {data : String} {maxNonce : UInt64} (hp : c.program = .client data maxNonce)
    (msgs : List Message) : Linked hash role asked { c with down := c.down ++ msgs } := by
  cases h with
  | client data' maxNonce' hp' hr hup => exact .client data' maxNonce' hp' hr hup
  | unjoined hp' => cases hp.symm.trans hp'
  | joining hp' => cases hp.symm.trans hp'
  | joined _ _ hp' hr => exact absurd hr hrole

end

end Cmu440.Bitcoin
