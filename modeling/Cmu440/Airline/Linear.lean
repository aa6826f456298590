import Cmu440.Airline.Service

/-!
# The flight service is linearizable

The invariant of every run of `service`, locks or not:

* a server has executed exactly the slots below its `currSlotNum`, all of them
  decided;
* a proposed operation is a `NoOp` or was proposed by its own call, in a slot
  the call has reached;
* a call that is past its mutex has found every slot below its own decided with
  somebody else's operation;
* a call invoked after another has returned finds the slots up to that call's
  slot decided with operations that are not its own.

Exactly-once, real-time order, state equality and the returned values follow
from these without another look at the steps.
-/
namespace Cmu440.Airline

variable {I : Type}

theorem Request.op_type_ne (now : Time) (req : Request) : (req.op now).type ≠ .noOp := by
  cases req <;> simp [Request.op]

namespace Log

theorem mem_propose {log : Log I} {s s' : Nat} {op v : PaxosValue} :
    v ∈ (log.propose s op).proposed s' ↔ v ∈ log.proposed s' ∨ v = op ∧ s' = s := by
  unfold propose
  by_cases hs : s' = s
  · subst hs
    simp only [Function.update_self, List.mem_cons, and_true, or_comm]
  · simp only [Function.update_of_ne hs, hs, and_false, or_false]

/-- Slot `s` is decided with an operation other than `op`. -/
def Other (log : Log I) (s : Nat) (op : PaxosValue) : Prop :=
  ∃ u, log.decided s = some u ∧ u ≠ op

/-- No slot of `log` loses its value in `log'`. -/
def Extends (log' log : Log I) : Prop :=
  ∀ s v, log.decided s = some v → log'.decided s = some v

theorem Extends.other {log log' : Log I} (h : log'.Extends log) {s : Nat} {op : PaxosValue}
    (ho : log.Other s op) : log'.Other s op := by
  obtain ⟨u, hu, hne⟩ := ho
  exact ⟨u, h s u hu, hne⟩

theorem state_succ {log : Log I} {n : Nat} {op : PaxosValue} (h : log.decided n = some op) :
    log.state (n + 1) = ((log.state n).exec op).1 := by
  unfold state
  rw [List.range_succ, List.filterMap_append, List.foldl_append]
  simp only [List.filterMap_cons, List.filterMap_nil, h, List.foldl_cons, List.foldl_nil]

/-- The fold over decided slots does not depend on the rest of the log. -/
theorem Extends.state_eq {log log' : Log I} (h : log'.Extends log) {n : Nat}
    (hn : ∀ s < n, (log.decided s).isSome) : log'.state n = log.state n := by
  induction n with
  | zero => rfl
  | succ n ih =>
    obtain ⟨op, hop⟩ := Option.isSome_iff_exists.mp (hn n (Nat.lt_succ_self n))
    have ih' := ih (fun s hs => hn s (Nat.lt_succ_of_lt hs))
    rw [state_succ hop, state_succ (h n op hop), ih']

end Log

/-! ## The invariant -/

/-- The server's maps are the fold over the slots it has executed. -/
structure ServerOk (log : Log I) (srv : Server) : Prop where
  below : ∀ s < srv.currSlotNum, (log.decided s).isSome
  state : srv.state = log.state srv.currSlotNum

structure CallOk (m : Service I) (c : Nat) (k : Call I) : Prop where
  kind : k.paxosOp.type ≠ .noOp
  stamp : k.invoked < m.clock
  holds : k.pc.active = true →
    (m.server k.srv).mutex = some c ∧ (m.server k.srv).currSlotNum = k.slot
  passed : k.pc ≠ .waiting → ∀ s < k.slot, m.log.Other s k.paxosOp
  result : k.pc = .returned → m.log.decided k.slot = some k.paxosOp ∧
    k.retVal = ((m.log.state k.slot).exec k.paxosOp).2

/-- The call has got as far as proposing its operation for slot `s`. -/
def Call.Reached (k : Call I) (s : Nat) : Prop :=
  k.pc ≠ .waiting ∧ s ≤ k.slot ∧ (s = k.slot → k.tried = true)

structure Inv (m : Service I) : Prop where
  servers : ∀ i, ServerOk m.log (m.server i)
  valid : ∀ s v, m.log.decided s = some v → v ∈ m.log.proposed s
  owner : ∀ s v, v ∈ m.log.proposed s →
    v = noOpValue ∨ ∃ (c : Nat) (k : Call I), m.calls[c]? = some k ∧ k.paxosOp = v ∧ k.Reached s
  distinct : ∀ (c c' : Nat) (k k' : Call I), m.calls[c]? = some k → m.calls[c']? = some k' →
    k.paxosOp = k'.paxosOp → c = c'
  call : ∀ c k, m.calls[c]? = some k → CallOk m c k
  order : ∀ (a b : Nat) (ka kb : Call I), m.calls[a]? = some ka → m.calls[b]? = some kb → ka.pc = .returned →
    ka.ended < kb.invoked → ∀ s ≤ ka.slot, m.log.Other s kb.paxosOp

theorem ServerOk.extend {log log' : Log I} {srv : Server} (h : ServerOk log srv)
    (hext : log'.Extends log) : ServerOk log' srv where
  below s hs := by
    obtain ⟨v, hv⟩ := Option.isSome_iff_exists.mp (h.below s hs)
    exact Option.isSome_iff_exists.mpr ⟨v, hext s v hv⟩
  state := by rw [h.state, hext.state_eq h.below]

/-- Executing the decided operation of the next slot. -/
theorem ServerOk.next {log : Log I} {srv : Server} (h : ServerOk log srv) {v op : PaxosValue}
    (hv : log.decided srv.currSlotNum = some v) (ret : RetVal) (mutex : Option Nat) :
    ServerOk log ⟨mutex, srv.currSlotNum + 1, (srv.state.apply op v ret).1⟩ where
  below s hs := by
    rcases Nat.lt_succ_iff_lt_or_eq.mp hs with hs | rfl
    · exact h.below s hs
    · simp only [hv, Option.isSome_some]
  state := by
    rw [Log.state_succ hv, ← h.state, State.apply_state]

/-- A call keeps its facts when the log grows and its server is untouched. -/
theorem CallOk.extend {m m' : Service I} {c : Nat} {k : Call I} (h : CallOk m c k)
    (hext : m'.log.Extends m.log) (hclock : m.clock ≤ m'.clock)
    (hsrv : k.pc.active = true → m'.server k.srv = m.server k.srv) : CallOk m' c k where
  kind := h.kind
  stamp := Nat.lt_of_lt_of_le h.stamp hclock
  holds ha := by rw [hsrv ha]; exact h.holds ha
  passed hw s hs := hext.other (h.passed hw s hs)
  result hr := by
    have hne : k.pc ≠ .waiting := by rw [hr]; decide
    have hbelow : ∀ s < k.slot, (m.log.decided s).isSome := by
      intro s hs
      obtain ⟨u, hu, -⟩ := h.passed hne s hs
      simp only [hu, Option.isSome_some]
    obtain ⟨hdec, hret⟩ := h.result hr
    rw [hext.state_eq hbelow]
    exact ⟨hext _ _ hdec, hret⟩

/-! ## Where an operation can be -/

section Where

variable {m : Service I} (h : Inv m) {c : Nat} {k : Call I} (hk : m.calls[c]? = some k)
include h hk

theorem Inv.reached_of_decided {s : Nat} (hs : m.log.decided s = some k.paxosOp) :
    k.Reached s := by
  rcases h.owner s _ (h.valid s _ hs) with hno | ⟨c', k', hk', hop, hr⟩
  · exact absurd (congrArg PaxosValue.type hno) (h.call c k hk).kind
  · have hc : c' = c := h.distinct c' c k' k hk' hk hop
    subst hc
    rw [hk] at hk'
    cases hk'
    exact hr

/-- The only slot an operation can be decided in is the current slot of its
call, and there only after the call has proposed it. -/
theorem Inv.decided_slot {s : Nat} (hs : m.log.decided s = some k.paxosOp) :
    s = k.slot ∧ k.tried = true := by
  obtain ⟨hw, hle, htried⟩ := h.reached_of_decided hk hs
  have heq : s = k.slot := by
    rcases Nat.lt_or_eq_of_le hle with hlt | heq
    · obtain ⟨u, hu, hne⟩ := (h.call c k hk).passed hw s hlt
      rw [hs] at hu
      exact absurd (Option.some.inj hu).symm hne
    · exact heq
  exact ⟨heq, htried heq⟩

theorem Inv.decided_iff (hr : k.pc = .returned) (s : Nat) :
    m.log.decided s = some k.paxosOp ↔ s = k.slot := by
  constructor
  · intro hs
    exact (h.decided_slot hk hs).1
  · intro hs
    rw [hs]
    exact ((h.call c k hk).result hr).1

end Where

/-! ## One step of a call -/

/-- Call `c` goes from `k` to `k'`: what is the same in all its statements. -/
structure Moved (m : Service I) (c : Nat) (k k' : Call I) (m' : Service I) : Prop where
  calls : m'.calls = m.calls.set c k'
  clock : m.clock ≤ m'.clock
  srv : k'.srv = k.srv
  op : k'.paxosOp = k.paxosOp
  invoked : k'.invoked = k.invoked
  ended : k'.pc = .returned → k'.ended = m.clock
  left : k'.pc ≠ .waiting
  decided : m'.log.decided = m.log.decided
  kept : ∀ s v, v ∈ m.log.proposed s → v ∈ m'.log.proposed s
  proposed : ∀ s v, v ∈ m'.log.proposed s →
    v ∈ m.log.proposed s ∨ v = k.paxosOp ∧ s = k'.slot ∧ k'.tried = true
  slot : k.pc ≠ .waiting → k.slot ≤ k'.slot ∧ (k.slot = k'.slot → k.tried = true → k'.tried = true)
  others : ∀ i, i ≠ k.srv → m'.server i = m.server i
  free : (m.server k.srv).mutex = none ∨ (m.server k.srv).mutex = some c

section Move

variable {m m' : Service I} {c : Nat} {k k' : Call I}

theorem Moved.cases (hmv : Moved m c k k' m') {c' : Nat} {k'' : Call I}
    (h : m'.calls[c']? = some k'') : c' = c ∧ k'' = k' ∨ c' ≠ c ∧ m.calls[c']? = some k'' := by
  rw [hmv.calls] at h
  exact (getElem?_moved h).symm

theorem Moved.get_self (hmv : Moved m c k k' m') (hk : m.calls[c]? = some k) :
    m'.calls[c]? = some k' := by
  have hlt : c < m.calls.length := (List.getElem?_eq_some_iff.mp hk).1
  rw [hmv.calls, List.getElem?_set_self hlt]

theorem Moved.get_ne (hmv : Moved m c k k' m') {c' : Nat} (hc : c' ≠ c) :
    m'.calls[c']? = m.calls[c']? := by
  rw [hmv.calls, List.getElem?_set_ne (fun he => hc he.symm)]

theorem Moved.extends (hmv : Moved m c k k' m') : m'.log.Extends m.log := by
  intro s v hv
  rw [hmv.decided]
  exact hv

theorem Moved.reached (hmv : Moved m c k k' m') {s : Nat} (h : k.Reached s) : k'.Reached s := by
  obtain ⟨hw, hle, htried⟩ := h
  obtain ⟨hslot, hsame⟩ := hmv.slot hw
  refine ⟨hmv.left, Nat.le_trans hle hslot, ?_⟩
  intro hs
  have heq : s = k.slot := by omega
  exact hsame (by omega) (htried heq)

variable (h : Inv m) (hk : m.calls[c]? = some k) (hmv : Moved m c k k' m')
include h hk hmv

omit hk in
/-- The other calls keep their facts: none of them runs on this server. -/
theorem Inv.others_ok {c' : Nat} {k'' : Call I} (hc : c' ≠ c) (hk'' : m.calls[c']? = some k'') :
    CallOk m' c' k'' := by
  have hok := h.call c' k'' hk''
  refine hok.extend hmv.extends hmv.clock ?_
  intro ha
  by_cases hi : k''.srv = k.srv
  · have hm := (hok.holds ha).1
    rw [hi] at hm
    rcases hmv.free with hf | hf
    · rw [hf] at hm
      cases hm
    · rw [hf] at hm
      exact absurd (Option.some.inj hm).symm hc
  · exact hmv.others _ hi

/-- The call that has just returned returned after every other was invoked. -/
theorem Inv.order_move {a b : Nat} {ka kb : Call I} (ha : m'.calls[a]? = some ka)
    (hb : m'.calls[b]? = some kb) (hr : ka.pc = .returned) (hlt : ka.ended < kb.invoked) :
    ∀ s ≤ ka.slot, m'.log.Other s kb.paxosOp := by
  -- `b` was there before, with the same operation and the same stamp
  have hb' : ∃ kb₀ : Call I, m.calls[b]? = some kb₀ ∧ kb.paxosOp = kb₀.paxosOp ∧
      kb.invoked = kb₀.invoked := by
    rcases hmv.cases hb with ⟨rfl, rfl⟩ | ⟨-, hb⟩
    · exact ⟨k, hk, hmv.op, hmv.invoked⟩
    · exact ⟨kb, hb, rfl, rfl⟩
  obtain ⟨kb₀, hkb₀, hop, hinv⟩ := hb'
  rw [hinv] at hlt
  rw [hop]
  rcases hmv.cases ha with ⟨rfl, rfl⟩ | ⟨-, ha⟩
  · have hstamp := (h.call b kb₀ hkb₀).stamp
    have hended := hmv.ended hr
    omega
  · intro s hs
    exact hmv.extends.other (h.order a b ka kb₀ ha hkb₀ hr hlt s hs)

theorem Inv.move (hsrv : ServerOk m'.log (m'.server k.srv)) (hok : CallOk m' c k') : Inv m' where
  servers i := by
    by_cases hi : i = k.srv
    · subst hi
      exact hsrv
    · rw [hmv.others i hi]
      exact (h.servers i).extend hmv.extends
  valid s v hv := by
    rw [hmv.decided] at hv
    exact hmv.kept s v (h.valid s v hv)
  owner s v hv := by
    rcases hmv.proposed s v hv with hv | ⟨rfl, rfl, htried⟩
    · rcases h.owner s v hv with hno | ⟨c', k'', hk'', hop, hr⟩
      · exact .inl hno
      · by_cases hc : c' = c
        · subst hc
          rw [hk] at hk''
          cases hk''
          exact .inr ⟨c', k', hmv.get_self hk, hmv.op.trans hop, hmv.reached hr⟩
        · refine .inr ⟨c', k'', ?_, hop, hr⟩
          rw [hmv.get_ne hc]
          exact hk''
    · exact .inr ⟨c, k', hmv.get_self hk, hmv.op, hmv.left, Nat.le_refl _, fun _ => htried⟩
  distinct a b ka kb ha hb hop := by
    rcases hmv.cases ha with ⟨rfl, rfl⟩ | ⟨hca, ha⟩ <;> rcases hmv.cases hb with ⟨rfl, rfl⟩ | ⟨hcb, hb⟩
    · rfl
    · exact h.distinct _ _ k kb hk hb (hmv.op.symm.trans hop)
    · exact h.distinct _ _ ka k ha hk (hop.trans hmv.op)
    · exact h.distinct _ _ ka kb ha hb hop
  call c' k'' hk'' := by
    rcases hmv.cases hk'' with ⟨rfl, rfl⟩ | ⟨hc, hk''⟩
    · exact hok
    · exact h.others_ok hmv hc hk''
  order a b ka kb ha hb := h.order_move hk hmv ha hb

end Move

/-! ## The statements of the loop -/

theorem CallPc.active_ne {pc : CallPc} (h : pc.active = true) : pc ≠ .waiting ∧ pc ≠ .returned := by
  cases pc <;> simp [CallPc.active] at h ⊢

theorem CallPc.active_of_testsLock {pc : CallPc} (h : pc.testsLock = true) : pc.active = true := by
  cases pc <;> first | rfl | cases h

/-- No slot holds the operation of a call that still waits for the mutex. -/
theorem Inv.other_of_waiting {m : Service I} (h : Inv m) {c : Nat} {k : Call I}
    (hk : m.calls[c]? = some k) (hw : k.pc = .waiting) {s : Nat} (hs : (m.log.decided s).isSome) :
    m.log.Other s k.paxosOp := by
  obtain ⟨u, hu⟩ := Option.isSome_iff_exists.mp hs
  refine ⟨u, hu, ?_⟩
  intro hop
  subst hop
  exact (h.reached_of_decided hk hu).1 hw

section Statements

variable [DecidableEq I] {m : Service I} {c : Nat} {k : Call I}

/-- Server `k.srv` and call `c` change, the log does not. -/
theorem moved_quiet (srv : Server) (k' : Call I) (hsrv : k'.srv = k.srv)
    (hop : k'.paxosOp = k.paxosOp) (hinv : k'.invoked = k.invoked)
    (hend : k'.pc = .returned → k'.ended = m.clock) (hleft : k'.pc ≠ .waiting)
    (hslot : k.pc ≠ .waiting →
      k.slot ≤ k'.slot ∧ (k.slot = k'.slot → k.tried = true → k'.tried = true))
    (hfree : (m.server k.srv).mutex = none ∨ (m.server k.srv).mutex = some c) :
    Moved m c k k' ((m.setServer k.srv srv).setCall c k').tick where
  calls := rfl
  clock := Nat.le_succ _
  srv := hsrv
  op := hop
  invoked := hinv
  ended := hend
  left := hleft
  decided := rfl
  kept _ _ hv := hv
  proposed _ _ hv := .inl hv
  slot := hslot
  others _ hi := Function.update_of_ne hi _ _
  free := hfree

theorem server_moved (m : Service I) (i : I) (srv : Server) (c : Nat) (k : Call I) :
    ((m.setServer i srv).setCall c k).tick.server i = srv := by
  simp only [Service.tick, Service.setCall, Service.setServer, Function.update_self]

theorem setServer_self (m : Service I) (i : I) : m.setServer i (m.server i) = m := by
  unfold Service.setServer
  rw [Function.update_eq_self]

variable (h : Inv m) (hk : m.calls[c]? = some k)
include h hk

theorem Inv.acquire (hw : k.pc = .waiting) (hfree : (m.server k.srv).mutex = none) :
    Inv ((m.setServer k.srv { m.server k.srv with mutex := some c }).setCall c
      { k with pc := .status, slot := (m.server k.srv).currSlotNum }).tick := by
  have hserver := h.servers k.srv
  have hok := h.call c k hk
  refine h.move hk (moved_quiet _ _ rfl rfl rfl nofun nofun (fun hne => absurd hw hne) (.inl hfree))
    ?_ ⟨hok.kind, Nat.lt_succ_of_lt hok.stamp, ?_, ?_, nofun⟩
  · rw [server_moved]
    exact ⟨hserver.below, hserver.state⟩
  · intro _
    rw [server_moved]
    exact ⟨rfl, rfl⟩
  · intro _ s hs
    exact h.other_of_waiting hk hw (hserver.below s hs)

/-- Between two statements of one iteration only `pc` changes. -/
theorem Inv.setPc {pc : CallPc} (ha : k.pc.active = true) (hpc : pc.active = true) :
    Inv (m.setCall c { k with pc := pc }).tick := by
  have hok := h.call c k hk
  obtain ⟨hw, hr⟩ := CallPc.active_ne hpc
  have hmv : Moved m c k _ _ := moved_quiet (m.server k.srv) { k with pc := pc } rfl rfl rfl
    (fun he => absurd he hr) hw (fun _ => ⟨Nat.le_refl _, fun _ ht => ht⟩) (.inr (hok.holds ha).1)
  rw [setServer_self] at hmv
  refine h.move hk hmv (h.servers k.srv) ⟨hok.kind, Nat.lt_succ_of_lt hok.stamp, ?_, ?_, ?_⟩
  · exact fun _ => hok.holds ha
  · exact fun _ => hok.passed (CallPc.active_ne ha).1
  · exact fun he => absurd he hr

theorem Inv.fail (ha : k.pc.active = true) : Inv (m.finish c k .failed).tick := by
  have hok := h.call c k hk
  refine h.move hk (moved_quiet _ _ rfl rfl rfl nofun nofun
    (fun _ => ⟨Nat.le_refl _, fun _ ht => ht⟩) (.inr (hok.holds ha).1)) ?_
    ⟨hok.kind, Nat.lt_succ_of_lt hok.stamp, nofun, ?_, nofun⟩
  · unfold Service.finish
    rw [server_moved]
    exact ⟨(h.servers k.srv).below, (h.servers k.srv).state⟩
  · exact fun _ => hok.passed (CallPc.active_ne ha).1

/-- The current slot holds somebody else's operation: execute it and go on. -/
theorem Inv.passSlot (ha : k.pc.active = true) {v : PaxosValue} (hv : m.log.decided k.slot = some v)
    (hne : v ≠ k.paxosOp) (ret : RetVal) (st : State)
    (hst : st = ((m.server k.srv).state.apply k.paxosOp v k.retVal).1) :
    Inv ((m.setServer k.srv { m.server k.srv with
        currSlotNum := (m.server k.srv).currSlotNum + 1, state := st }).setCall c
      { k with pc := .status, retVal := ret, slot := k.slot + 1, tried := false }).tick := by
  have hok := h.call c k hk
  obtain ⟨hmutex, hcur⟩ := hok.holds ha
  refine h.move hk (moved_quiet _ _ rfl rfl rfl nofun nofun ?_ (.inr hmutex)) ?_
    ⟨hok.kind, Nat.lt_succ_of_lt hok.stamp, ?_, ?_, nofun⟩
  · intro _
    exact ⟨Nat.le_succ _, fun he => absurd he (Nat.ne_of_lt (Nat.lt_succ_self _))⟩
  · rw [server_moved, hst]
    rw [← hcur] at hv
    exact (h.servers k.srv).next hv _ _
  · intro _
    rw [server_moved]
    exact ⟨hmutex, congrArg (· + 1) hcur⟩
  · intro _ s hs
    rcases Nat.lt_succ_iff_lt_or_eq.mp hs with hs | rfl
    · exact hok.passed (CallPc.active_ne ha).1 s hs
    · exact ⟨v, hv, hne⟩

/-- The current slot holds the call's operation: execute it and return. -/
theorem Inv.return (ha : k.pc.active = true) (hv : m.log.decided k.slot = some k.paxosOp) :
    Inv ((m.setServer k.srv ⟨none, (m.server k.srv).currSlotNum + 1,
        ((m.server k.srv).state.apply k.paxosOp k.paxosOp k.retVal).1⟩).setCall c
      { k with pc := .returned, ended := m.clock
               retVal := ((m.server k.srv).state.apply k.paxosOp k.paxosOp k.retVal).2 }).tick := by
  have hok := h.call c k hk
  have hserver := h.servers k.srv
  obtain ⟨hmutex, hcur⟩ := hok.holds ha
  refine h.move hk (moved_quiet _ _ rfl rfl rfl (fun _ => rfl) nofun
    (fun _ => ⟨Nat.le_refl _, fun _ ht => ht⟩) (.inr hmutex)) ?_
    ⟨hok.kind, Nat.lt_succ_of_lt hok.stamp, nofun, ?_, ?_⟩
  · rw [server_moved]
    rw [← hcur] at hv
    exact hserver.next hv _ _
  · exact fun _ => hok.passed (CallPc.active_ne ha).1
  · intro _
    refine ⟨hv, ?_⟩
    rw [State.apply_retVal _ _ _ hok.kind, hserver.state, hcur]
    rfl

theorem Inv.process (ha : k.pc.active = true) {v : PaxosValue}
    (hv : m.log.decided (m.server k.srv).currSlotNum = some v) : Inv (m.process c k v).tick := by
  rw [((h.call c k hk).holds ha).2] at hv
  by_cases hop : k.paxosOp = v
  · subst hop
    have hret := h.return hk ha hv
    simp only [Service.process, if_true, Service.finish, Service.setServer, Function.update_self,
      Function.update_idem] at hret ⊢
    exact hret
  · simp only [Service.process, if_neg hop]
    exact h.passSlot hk ha hv (fun he => hop he.symm) _ _ rfl

omit [DecidableEq I] in
theorem Inv.start (ha : k.pc = .start) :
    Inv ({ m with log := m.log.propose (m.server k.srv).currSlotNum k.paxosOp }.setCall c
      { k with pc := .inStart, tried := true }).tick := by
  have hok := h.call c k hk
  have hactive : k.pc.active = true := by rw [ha]; rfl
  obtain ⟨hmutex, hcur⟩ := hok.holds hactive
  rw [hcur]
  have hmv : Moved m c k { k with pc := .inStart, tried := true }
      ({ m with log := m.log.propose k.slot k.paxosOp }.setCall c
        { k with pc := .inStart, tried := true }).tick := by
    refine ⟨rfl, Nat.le_succ _, rfl, rfl, rfl, nofun, nofun, rfl, ?_, ?_,
      fun _ => ⟨Nat.le_refl _, fun _ _ => rfl⟩, fun _ _ => rfl, .inr hmutex⟩
    · exact fun s v hv => Log.mem_propose.mpr (.inl hv)
    · intro s v hv
      rcases Log.mem_propose.mp hv with hv | ⟨hv, hs⟩
      · exact .inl hv
      · exact .inr ⟨hv, hs, rfl⟩
  exact h.move hk hmv ((h.servers k.srv).extend hmv.extends) ⟨hok.kind, Nat.lt_succ_of_lt hok.stamp,
    fun _ => ⟨hmutex, hcur⟩, fun _ => hok.passed (CallPc.active_ne hactive).1, nofun⟩

theorem Inv.resume {m' : Service I} (hst : Statement m c k m') : Inv m'.tick := by
  have active : ∀ {pc : CallPc}, k.pc = pc → pc.active = true → k.pc.active = true := by
    intro pc hpc hpc'
    rw [hpc]
    exact hpc'
  cases hst with
  | acquire hpc hfree => exact h.acquire hk hpc hfree
  | fail hpc hlock => exact h.fail hk (CallPc.active_of_testsLock hpc)
  | process v hpc hlock hv => exact h.process hk (hpc.elim (active · rfl) (active · rfl)) hv
  | undecided hpc hlock => exact h.setPc hk (hpc.elim (active · rfl) (active · rfl)) rfl
  | start hpc hlock => exact h.start hk hpc
  | startDone hpc hdec => exact h.setPc hk (active hpc rfl) rfl

end Statements

/-! ## The other steps -/

/-- The log changes and no call runs. -/
theorem Inv.env {m m' : Service I} (h : Inv m) (hcalls : m'.calls = m.calls)
    (hserver : m'.server = m.server) (hclock : m.clock ≤ m'.clock)
    (hext : m'.log.Extends m.log)
    (hvalid : ∀ s v, m'.log.decided s = some v → v ∈ m'.log.proposed s)
    (hprop : ∀ s v, v ∈ m'.log.proposed s → v ∈ m.log.proposed s ∨ v = noOpValue) : Inv m' where
  servers i := by
    rw [hserver]
    exact (h.servers i).extend hext
  valid := hvalid
  owner s v hv := by
    rcases hprop s v hv with hv | hno
    · rw [hcalls]
      exact h.owner s v hv
    · exact .inl hno
  distinct := by
    rw [hcalls]
    exact h.distinct
  call c k hk := by
    rw [hcalls] at hk
    exact (h.call c k hk).extend hext hclock (fun _ => by rw [hserver])
  order a b ka kb ha hb hr hlt s hs := by
    rw [hcalls] at ha hb
    exact hext.other (h.order a b ka kb ha hb hr hlt s hs)

theorem Inv.decide [DecidableEq I] {m : Service I} (h : Inv m) {s : Nat} {v : PaxosValue}
    (hnone : m.log.decided s = none) (hv : v ∈ m.log.proposed s) :
    Inv { m with log := { m.log with
      decided := Function.update m.log.decided s (some v) } }.tick := by
  refine h.env rfl rfl (Nat.le_succ _) ?_ ?_ (fun _ _ hp => .inl hp)
  · intro s' u hu
    have hs : s' ≠ s := by
      intro hs
      rw [hs, hnone] at hu
      cases hu
    simpa only [Service.tick, Function.update_of_ne hs] using hu
  · intro s' u hu
    by_cases hs : s' = s
    · subst hs
      simp only [Service.tick, Function.update_self] at hu
      cases hu
      exact hv
    · simp only [Service.tick, Function.update_of_ne hs] at hu
      exact h.valid s' u hu

section Invoke

variable {m : Service I} (h : Inv m) {op : PaxosValue} (hfresh : m.fresh op = true)
include hfresh

theorem fresh_ne {c : Nat} {k : Call I} (hk : m.calls[c]? = some k) : k.paxosOp ≠ op := by
  have hall := List.all_eq_true.mp hfresh k (List.mem_of_getElem? hk)
  exact of_decide_eq_true hall

include h

/-- A new operation is in no slot. -/
theorem Inv.other_of_fresh (hty : op.type ≠ .noOp) {s : Nat} {u : PaxosValue}
    (hu : m.log.decided s = some u) : u ≠ op := by
  intro he
  subst he
  rcases h.owner s u (h.valid s u hu) with hno | ⟨c, k, hk, hop, -⟩
  · rw [hno] at hty
    exact hty rfl
  · exact fresh_ne hfresh hk hop

theorem Inv.invoke (i : I) (hty : op.type ≠ .noOp) :
    Inv { m with calls := m.calls ++ [Call.new i op m.clock] }.tick := by
  refine ⟨h.servers, h.valid, ?_, ?_, ?_, ?_⟩
  · intro s v hv
    rcases h.owner s v hv with hno | ⟨c, k, hk, hop, hr⟩
    · exact .inl hno
    · refine .inr ⟨c, k, ?_, hop, hr⟩
      have hlt : c < m.calls.length := (List.getElem?_eq_some_iff.mp hk).1
      simpa only [Service.tick, List.getElem?_append_left hlt] using hk
  · intro c c' k k' hk hk' hop
    rcases getElem?_started hk with hk | ⟨rfl, rfl⟩ <;> rcases getElem?_started hk' with hk' | ⟨rfl, rfl⟩
    · exact h.distinct c c' k k' hk hk' hop
    · exact absurd hop (fresh_ne hfresh hk)
    · exact absurd hop.symm (fresh_ne hfresh hk')
    · rfl
  · intro c k hk
    rcases getElem?_started hk with hk | ⟨rfl, rfl⟩
    · exact (h.call c k hk).extend (fun _ _ hv => hv) (Nat.le_succ _) (fun _ => rfl)
    · exact ⟨hty, Nat.lt_succ_self _, nofun, fun hne => absurd rfl hne, nofun⟩
  · intro a b ka kb ha hb hr hlt s hs
    rcases getElem?_started ha with ha | ⟨rfl, rfl⟩
    · rcases getElem?_started hb with hb | ⟨rfl, rfl⟩
      · exact h.order a b ka kb ha hb hr hlt s hs
      · -- everything up to the slot of `a` is decided by now
        have hdec : ∃ u, m.log.decided s = some u := by
          rcases Nat.lt_or_eq_of_le hs with hs | rfl
          · obtain ⟨u, hu, -⟩ := (h.call a ka ha).passed (by rw [hr]; nofun) s hs
            exact ⟨u, hu⟩
          · exact ⟨_, ((h.call a ka ha).result hr).1⟩
        obtain ⟨u, hu⟩ := hdec
        exact ⟨u, hu, h.other_of_fresh hfresh hty hu⟩
    · cases hr

end Invoke

/-! ## Every run -/

variable [DecidableEq I]

omit [DecidableEq I] in
theorem Inv.init : Inv (Service.init : Service I) := by
  have hcalls : ∀ (c : Nat) (k : Call I), (Service.init : Service I).calls[c]? ≠ some k := by
    intro c k hk
    cases hk
  refine ⟨fun _ => ⟨?_, rfl⟩, ?_, ?_, ?_, ?_, ?_⟩
  · exact fun s hs => absurd hs (Nat.not_lt_zero s)
  · exact fun _ _ hv => by cases hv
  · exact fun _ _ hv => by cases hv
  · exact fun c _ k _ hk => absurd hk (hcalls c k)
  · exact fun c k hk => absurd hk (hcalls c k)
  · exact fun a _ ka _ ha => absurd ha (hcalls a ka)

theorem Inv.step {m m' : Service I} (h : Inv m) (l : SvcLbl I) (hst : m.step l = some m') :
    Inv m' := by
  obtain ⟨m₀, rfl, heff⟩ := step_cases hst
  cases heff with
  | invoke i req now hfresh => exact h.invoke hfresh i (Request.op_type_ne now req)
  | resume hk hst => exact h.resume hk hst
  | decide s v hnone hv => exact h.decide hnone hv
  | noOp s =>
    refine h.env rfl rfl (Nat.le_succ _) (fun _ _ hv => hv) ?_ ?_
    · exact fun s' v hv => Log.mem_propose.mpr (.inl (h.valid s' v hv))
    · exact fun s' v hv => (Log.mem_propose.mp hv).imp_right (·.1)
  | learn | setLock =>
    exact h.env rfl rfl (Nat.le_succ _) (fun _ _ hv => hv) h.valid (fun _ _ hv => .inl hv)

/-! ## Without locks -/

/-- The only statement that ends a call with an error. -/
theorem failed_of_statement {m m' : Service I} {c c' : Nat} {k k' : Call I}
    (hk : m.calls[c]? = some k) (hst : Statement m c k m') (hk' : m'.calls[c']? = some k')
    (hf : k'.pc = .failed) : m.calls[c']? = some k' ∨ c' = c ∧ k.pc.testsLock = true ∧
      m.isLocked k.srv = true ∧ k' = { k with pc := .failed, ended := m.clock } := by
  by_cases hc : c' = c
  · subst hc
    have hlt : c' < m.calls.length := (List.getElem?_eq_some_iff.mp hk).1
    cases hst with
    | fail hpc hlock =>
      simp only [Service.finish, Service.setCall, Service.setServer,
        List.getElem?_set_self hlt] at hk'
      exact .inr ⟨rfl, hpc, hlock, (Option.some.inj hk').symm⟩
    | process v hpc hlock hv =>
      simp only [Service.process, Service.finish, Service.setServer, Service.setCall] at hk'
      split at hk' <;> simp only [List.getElem?_set_self hlt] at hk' <;> cases hk' <;> cases hf
    | _ =>
      simp only [Service.setCall, Service.setServer, List.getElem?_set_self hlt] at hk'
      cases hk'
      cases hf
  · rw [hst.get_ne hc] at hk'
    exact .inl hk'

/-- A call that has failed had failed before, or finds its server locked in
this step. -/
theorem failed_of_step {m m' : Service I} {l : SvcLbl I} (hst : m.step l = some m') {c : Nat}
    {k : Call I} (hk : m'.calls[c]? = some k) (hf : k.pc = .failed) :
    m.calls[c]? = some k ∨ ∃ k₀ : Call I, l = .resume c ∧ m.calls[c]? = some k₀ ∧
      k₀.pc.testsLock = true ∧ m.isLocked k₀.srv = true ∧
      k = { k₀ with pc := .failed, ended := m.clock } := by
  obtain ⟨m₀, rfl, heff⟩ := step_cases hst
  cases heff with
  | invoke i req now hfresh =>
    rcases getElem?_started hk with hk | ⟨-, rfl⟩
    · exact .inl hk
    · cases hf
  | resume hk₀ hst =>
    rcases failed_of_statement hk₀ hst hk hf with hk | ⟨rfl, hpc, hlock, rfl⟩
    · exact .inl hk
    · exact .inr ⟨_, rfl, hk₀, hpc, hlock, rfl⟩
  | _ => exact .inl hk

/-- Anything but `SetLock(true)`. -/
def SvcLbl.quiet : SvcLbl I → Bool
  | .setLock _ b => !b
  | _ => true

/-- The runs in which no quiesce lock is set. -/
def unlockedService : LTS (Service I) (SvcLbl I) :=
  .ofFn (· = Service.init) (LTS.guarded (fun _ l => l.quiet) Service.step)

/-- No server is locked and no call has failed. -/
structure Unlocked (m : Service I) : Prop where
  locked : ∀ i, m.isLocked i = false
  failed : ∀ (c : Nat) (k : Call I), m.calls[c]? = some k → k.pc ≠ .failed

theorem Unlocked.step {m m' : Service I} (h : Unlocked m) {l : SvcLbl I} (hq : l.quiet = true)
    (hst : m.step l = some m') : Unlocked m' where
  locked i := by
    obtain ⟨m₀, rfl, heff⟩ := step_cases hst
    cases heff with
    | resume hk hst =>
      simp only [Service.tick, hst.isLocked_eq]
      exact h.locked i
    | setLock j b =>
      have hb : b = false := by simpa [SvcLbl.quiet] using hq
      by_cases hi : i = j
      · subst hi
        simp only [Service.tick, Function.update_self, hb]
      · simp only [Service.tick, Function.update_of_ne hi]
        exact h.locked i
    | _ => exact h.locked i
  failed c k hk hf := by
    rcases failed_of_step hst hk hf with hk | ⟨k₀, -, -, -, hlock, -⟩
    · exact h.failed c k hk hf
    · rw [h.locked k₀.srv] at hlock
      cases hlock

theorem unlocked_inductive :
    (unlockedService (I := I)).Inductive (fun m => Inv m ∧ Unlocked m) where
  init m hm := by
    cases hm
    exact ⟨Inv.init, fun _ => rfl, fun c k hk => by cases hk⟩
  step m l m' h hst := by
    obtain ⟨hq, hst⟩ := LTS.guarded_eq_some.mp hst
    exact ⟨h.1.step l hst, h.2.step hq hst⟩

/-- **Linearizability.** On any number of servers and in any interleaving
without quiesce locks: no call fails; the operation of a call that has returned
is in exactly one slot; the slot of a call that returned before another was
invoked comes first; every server's maps are the fold of the specification over
the slots below its `currSlotNum`, all of them decided; and a call returned
what the specification gives for its operation at its slot. -/
theorem linearizable (m : Service I) (hr : unlockedService.Reachable m) :
    (∀ k ∈ m.calls, k.pc ≠ .failed) ∧
    (∀ k ∈ m.calls, k.pc = .returned → ∃! s, m.log.decided s = some k.paxosOp) ∧
    (∀ a ∈ m.calls, ∀ b ∈ m.calls, a.pc = .returned → a.ended < b.invoked → ∀ s t,
      m.log.decided s = some a.paxosOp → m.log.decided t = some b.paxosOp → s < t) ∧
    (∀ i, (∀ s < (m.server i).currSlotNum, (m.log.decided s).isSome) ∧
      (m.server i).state = m.log.state (m.server i).currSlotNum) ∧
    (∀ k ∈ m.calls, k.pc = .returned → ∀ s, m.log.decided s = some k.paxosOp →
      k.retVal = ((m.log.state s).exec k.paxosOp).2) := by
  obtain ⟨h, hu⟩ := unlocked_inductive.reachable m hr
  refine ⟨?_, ?_, ?_, fun i => ⟨(h.servers i).below, (h.servers i).state⟩, ?_⟩
  · intro k hk
    obtain ⟨c, hc⟩ := List.mem_iff_getElem?.mp hk
    exact hu.failed c k hc
  · intro k hk hret
    obtain ⟨c, hc⟩ := List.mem_iff_getElem?.mp hk
    exact ⟨k.slot, (h.decided_iff hc hret _).mpr rfl, fun s hs => (h.decided_iff hc hret s).mp hs⟩
  · intro a ha b hb hret hlt s t hs ht
    obtain ⟨ca, hca⟩ := List.mem_iff_getElem?.mp ha
    obtain ⟨cb, hcb⟩ := List.mem_iff_getElem?.mp hb
    have hslot : s = a.slot := (h.decided_iff hca hret s).mp hs
    apply Nat.lt_of_not_le
    intro hle
    obtain ⟨u, hu, hne⟩ := h.order ca cb a b hca hcb hret hlt t (hslot ▸ hle)
    rw [ht] at hu
    exact hne (Option.some.inj hu).symm
  · intro k hk hret s hs
    obtain ⟨c, hc⟩ := List.mem_iff_getElem?.mp hk
    rw [(h.decided_iff hc hret s).mp hs]
    exact ((h.call c k hc).result hret).2

/-! A flight is added on server `false` and a ticket for it reserved on server
`true`. Both propose for slot 0; the reservation loses, catches up and takes
slot 1. -/

def raceAdd : Request := .addFlight "CX1" ⟨0, 0⟩ 1

def raceReserve : Request := .reserveTicket "ann" "CX1" ⟨0, 0⟩

def race : List (SvcLbl Bool) :=
  [.invoke false raceAdd ⟨1, 0⟩, .invoke true raceReserve ⟨2, 0⟩,
   .resume 0, .resume 1, .resume 0, .resume 1, .resume 0, .resume 1,
   .decide 0 (raceAdd.op ⟨1, 0⟩), .learn true 0, .resume 1, .resume 1, .resume 1, .resume 1,
   .decide 1 (raceReserve.op ⟨2, 0⟩), .learn true 1, .resume 1, .resume 1,
   .resume 0, .learn false 0, .resume 0]

def raced : Service Bool :=
  LTS.execD (LTS.guarded (fun _ l => l.quiet) Service.step) Service.init race

set_option maxRecDepth 8000 in
theorem race_linearizable :
    raced.calls.map (·.retVal) = [.bool true, .bool true] ∧
      (raced.server false).currSlotNum = 1 ∧
      ∃! s, raced.log.decided s = some (raceReserve.op ⟨2, 0⟩) :=
  ⟨by decide, by decide,
    (linearizable raced ⟨_, race, rfl, LTS.run_execD (by decide)⟩).2.1
      ⟨true, raceReserve.op ⟨2, 0⟩, .returned, .bool true, 1, 17, 1, true⟩ (by decide) rfl⟩

end Cmu440.Airline
