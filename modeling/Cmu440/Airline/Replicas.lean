import Cmu440.Airline.Linear
import Cmu440.Airline.PaxosLog

/-!
# The flight servers on their Paxos peers

`Cmu440.Airline.Service` runs the servers over an abstract log. Here they run as
`NewServer` sets them up: each process is a server and the Paxos peer it made
(server_impl.go:30-56), `Status` reads the local peer, `Start` is a run of
`startHelper` on it, and everything else is the protocol of
`Cmu440.Paxos.World`: rounds of any runs, requests and replies late, lost or out
of order.

* `resume c` runs call `c` to its next access to something shared, as in
  `Service`. A call whose `Start` is running waits for its run to return;
* `sync` is the administrator's `SyncPaxosValue` on an undecided slot, which runs
  `startHelper` for a `NoOp`;
* `paxos l` is any other step of the peers, the runs and the network.

`val.(paxosrpc.PaxosValue)` panics on a nil value; such a call takes no step here,
and that it never has to is part of what `Status` is shown to return.

Not here: the quiesce locks and changes of the peer list. The condition of
`Paxos.learned` on an arriving `Decide` is kept, see `Cmu440.Airline.PaxosLog`.
Values go through the network unchanged and are compared as they are, so `==` on
`PaxosValue` is assumed to survive the transfer (`Cmu440.Airline.State`).
-/
namespace Cmu440.Airline

open Paxos (World Lbl learned learnedStep)

/-- `startOf c` is the run of the `Start` that call `c` is in. -/
structure Cluster (H : Type) where
  world : World H PaxosValue
  server : H → Server
  calls : List (Call H)
  startOf : Nat → Nat
  clock : Nat

inductive ClusterLbl (H : Type)
  | invoke (i : H) (req : Request) (now : Time)
  | resume (c : Nat)
  | sync (i : H) (slot : Nat)
  | paxos (l : Lbl H PaxosValue)
  deriving DecidableEq, Repr

variable {H : Type} [DecidableEq H]

namespace Cluster

def init (L : List H) : Cluster H :=
  ⟨World.init L, fun _ => ⟨none, 0, .empty⟩, [], fun _ => 0, 0⟩

def setCall (cl : Cluster H) (c : Nat) (k : Call H) : Cluster H :=
  { cl with calls := cl.calls.set c k }

def setServer (cl : Cluster H) (i : H) (s : Server) : Cluster H :=
  { cl with server := Function.update cl.server i s }

def tick (cl : Cluster H) : Cluster H := { cl with clock := cl.clock + 1 }

/-- Distinct calls build distinct operations: their timestamps differ. -/
def fresh (cl : Cluster H) (op : PaxosValue) : Bool :=
  cl.calls.all fun k => decide (k.paxosOp ≠ op)

/-- The call returns and its deferred `Unlock` runs. -/
def finish (cl : Cluster H) (c : Nat) (k : Call H) (pc : CallPc) : Cluster H :=
  (cl.setServer k.srv { cl.server k.srv with mutex := none }).setCall c
    { k with pc := pc, ended := cl.clock }

/-- mirrors server_impl.go:221-249 -/
def process (cl : Cluster H) (c : Nat) (k : Call H) (v : PaxosValue) : Cluster H :=
  let srv := cl.server k.srv
  let r := srv.state.apply k.paxosOp v k.retVal
  let cl := cl.setServer k.srv { srv with currSlotNum := srv.currSlotNum + 1, state := r.1 }
  if k.paxosOp = v then cl.finish c { k with retVal := r.2 } .returned
  else cl.setCall c { k with pc := .status, retVal := r.2, slot := k.slot + 1, tried := false }

/-- `startHelper(slotNum, v)` is entered on peer `i`. -/
def startHelper (cl : Cluster H) (i : H) (slotNum : Nat) (v : PaxosValue) : Option (Cluster H) :=
  (cl.world.step (.start i slotNum (some v))).map fun w => { cl with world := w }

/-- mirrors server_impl.go:188-251 and paxos.go:409-419, 579-597 -/
def addPaxosLogAndUpdateState (cl : Cluster H) (c : Nat) (k : Call H) : Option (Cluster H) :=
  let srv := cl.server k.srv
  match k.pc with
  | .waiting =>
    if srv.mutex = none then
      some ((cl.setServer k.srv { srv with mutex := some c }).setCall c
        { k with pc := .status, slot := srv.currSlotNum })
    else none
  | .status | .statusAgain =>
    match (cl.world.peer k.srv).status srv.currSlotNum with
    | none => some (cl.finish c k .failed)
    | some (true, some v) => some (cl.process c k v)
    | some (true, none) => none
    | some (false, _) => some (cl.setCall c { k with pc := .start })
  | .start =>
    if (cl.world.peer k.srv).isLocked then some (cl.finish c k .failed)
    else (cl.startHelper k.srv srv.currSlotNum k.paxosOp).map fun cl' =>
      { cl' with startOf := Function.update cl.startOf c cl.world.runs.length }.setCall c
        { k with pc := .inStart, tried := true }
  | .inStart =>
    match cl.world.runs[cl.startOf c]? with
    | some r => if r.pc = .returned then some (cl.setCall c { k with pc := .statusAgain }) else none
    | none => none
  | .returned | .failed => none

def act (cl : Cluster H) : ClusterLbl H → Option (Cluster H)
  | .invoke i req now =>
    if cl.fresh (req.op now) then
      some { cl with calls := cl.calls ++ [.new i (req.op now) cl.clock] }
    else none
  | .resume c =>
    match cl.calls[c]? with
    | some k => cl.addPaxosLogAndUpdateState c k
    | none => none
  | .sync i slot =>
    if (cl.world.slot i slot).isDecided then none else cl.startHelper i slot noOpValue
  | .paxos (.start _ _ _) => none
  | .paxos l => (cl.world.step l).map fun w => { cl with world := w }

def step (cl : Cluster H) (l : ClusterLbl H) : Option (Cluster H) := (cl.act l).map tick

/-- Calls go to the processes of `L`, and an arriving `Decide` finds a peer that
has seen the deciding number. -/
def admits (L : List H) (cl : Cluster H) : ClusterLbl H → Bool
  | .invoke i _ _ => decide (i ∈ L)
  | .resume _ => true
  | .sync i _ => decide (i ∈ L)
  | .paxos l => cl.world.seesDecider l

/-- The service whose log is `log`. -/
def onLog (cl : Cluster H) (log : Log H) : Service H :=
  ⟨log, fun _ => false, cl.server, cl.calls, cl.clock⟩

end Cluster

/-- The processes of `L`. -/
def cluster (L : List H) : LTS (Cluster H) (ClusterLbl H) :=
  .ofFn (· = Cluster.init L) (LTS.guarded (Cluster.admits L) Cluster.step)

/-! ## Calls over the log -/

/-- The cluster and the service on the log its peers keep. -/
structure Implements (L : List H) (cl : Cluster H) (log : Log H) : Prop where
  reach : (learned L).Reachable cl.world
  backs : Backs cl.world log
  inv : Inv (cl.onLog log)
  unlocked : Unlocked (cl.onLog log)
  members : ∀ k ∈ cl.calls, k.srv ∈ L
  /-- A call inside `Start` has a run on its slot. -/
  starting : ∀ c k, cl.calls[c]? = some k → k.pc = .inStart →
    ∃ r, cl.world.runs[cl.startOf c]? = some r ∧ r.slotNum = k.slot

variable {L : List H} {cl cl' : Cluster H} {log log' : Log H}

theorem over_process (cl : Cluster H) (log : Log H) (c : Nat) (k : Call H) (v : PaxosValue) :
    (cl.onLog log).process c k v = (cl.process c k v).onLog log := by
  unfold Service.process Cluster.process
  simp only [Cluster.onLog]
  split <;> rfl

/-- The service takes step `a`; what is left to show is about the peers. -/
theorem Implements.follow (h : Implements L cl log) {a : SvcLbl H} (hq : a.quiet = true)
    (ha : (cl.onLog log).step a = some (cl'.onLog log')) (hreach : (learned L).Reachable cl'.world)
    (hbacks : Backs cl'.world log') (hmembers : ∀ k ∈ cl'.calls, k.srv ∈ L)
    (hstarting : ∀ c k, cl'.calls[c]? = some k → k.pc = .inStart →
      ∃ r, cl'.world.runs[cl'.startOf c]? = some r ∧ r.slotNum = k.slot) :
    ∃ a log', a.quiet = true ∧ (cl.onLog log).step a = some (cl'.onLog log') ∧
      Implements L cl' log' :=
  ⟨a, log', hq, ha, hreach, hbacks, h.inv.step a ha, h.unlocked.step hq ha, hmembers, hstarting⟩

theorem Implements.members_set (h : Implements L cl log) {c : Nat} {k k' : Call H}
    (hk : cl.calls[c]? = some k) (hsrv : k'.srv = k.srv) :
    ∀ k₁ ∈ cl.calls.set c k', k₁.srv ∈ L := by
  intro k₁ hk₁
  rcases List.mem_or_eq_of_mem_set hk₁ with hk₁ | rfl
  · exact h.members k₁ hk₁
  · rw [hsrv]
    exact h.members k (List.mem_of_getElem? hk)

/-- A call that is not inside `Start` moves. -/
theorem Implements.starting_set (h : Implements L cl log) {c : Nat} {k' : Call H}
    (hpc : k'.pc ≠ .inStart) {c₁ : Nat} {k₁ : Call H} (hk₁ : (cl.calls.set c k')[c₁]? = some k₁)
    (hin : k₁.pc = .inStart) :
    ∃ r, cl.world.runs[cl.startOf c₁]? = some r ∧ r.slotNum = k₁.slot := by
  rcases getElem?_moved hk₁ with ⟨-, hk₁⟩ | ⟨-, rfl⟩
  · exact h.starting c₁ k₁ hk₁ hin
  · exact absurd hin hpc

/-- Call `c` goes from `k` to `k'` without touching its peer. -/
theorem Implements.local (h : Implements L cl log) {c : Nat} {k k' : Call H}
    (hk : cl.calls[c]? = some k) (hworld : cl'.world = cl.world)
    (hstart : cl'.startOf = cl.startOf) (hcalls : cl'.calls = cl.calls.set c k')
    (hsrv : k'.srv = k.srv) (hpc : k'.pc ≠ .inStart)
    (ha : (cl.onLog log).step (.resume c) = some (cl'.onLog log)) :
    ∃ a log', a.quiet = true ∧ (cl.onLog log).step a = some (cl'.onLog log') ∧
      Implements L cl' log' := by
  refine h.follow rfl ha ?_ ?_ ?_ ?_
  · rw [hworld]
    exact h.reach
  · rw [hworld]
    exact h.backs
  · rw [hcalls]
    exact h.members_set hk hsrv
  · rw [hcalls, hworld, hstart]
    exact fun c₁ k₁ => h.starting_set hpc

theorem over_resume {c : Nat} {k : Call H} (hk : cl.calls[c]? = some k)
    (ha : (cl.onLog log).addPaxosLogAndUpdateState c k = some (cl'.onLog log')) :
    (cl.onLog log).step (.resume c) = some (cl'.tick.onLog log') := by
  have hk' : (cl.onLog log).calls[c]? = some k := hk
  simp only [Service.step, Service.act, hk', ha]
  rfl

theorem process_frame (cl : Cluster H) (c : Nat) (k : Call H) (v : PaxosValue) :
    (cl.process c k v).world = cl.world ∧ (cl.process c k v).startOf = cl.startOf ∧
    ∃ k' : Call H, (cl.process c k v).calls = cl.calls.set c k' ∧ k'.srv = k.srv ∧
      k'.pc ≠ .inStart := by
  unfold Cluster.process
  simp only
  split
  · exact ⟨rfl, rfl, _, rfl, rfl, by simp⟩
  · exact ⟨rfl, rfl, _, rfl, rfl, by simp⟩

/-- Both calls of `Status`: the peer shows what the log knows on this server. -/
theorem Implements.status (hL : L.Nodup) (h : Implements L cl log) {c : Nat} {k : Call H}
    (hk : cl.calls[c]? = some k) (hpc : k.pc = .status ∨ k.pc = .statusAgain)
    (hs : cl.addPaxosLogAndUpdateState c k = some cl') :
    ∃ a log', a.quiet = true ∧ (cl.onLog log).step a = some (cl'.tick.onLog log') ∧
      Implements L cl'.tick log' := by
  obtain ⟨v, hst, hv⟩ := h.backs.status hL h.reach k.srv (cl.server k.srv).currSlotNum
  cases hknown : log.known k.srv (cl.server k.srv).currSlotNum with
  | true =>
    obtain ⟨hdec, hsome⟩ := hv hknown
    obtain ⟨u, hu⟩ := Option.isSome_iff_exists.mp hsome
    rw [hknown, hdec, hu] at hst
    have hcl : cl' = cl.process c k u := by
      rcases hpc with hpc | hpc <;>
        simp only [Cluster.addPaxosLogAndUpdateState, hpc, hst, Option.some.injEq] at hs <;>
        exact hs.symm
    have ha : (cl.onLog log).addPaxosLogAndUpdateState c k = some (cl'.onLog log) := by
      rw [hcl, ← over_process]
      rcases hpc with hpc | hpc <;>
        simp [Service.addPaxosLogAndUpdateState, hpc, Log.status, Cluster.onLog, hknown, hu]
    obtain ⟨hworld, hstart, k', hcalls, hsrv, hpc'⟩ := process_frame cl c k u
    rw [← hcl] at hworld hstart hcalls
    exact h.local hk hworld hstart hcalls hsrv hpc' (over_resume hk ha)
  | false =>
    rw [hknown] at hst
    have hcl : cl' = cl.setCall c { k with pc := .start } := by
      rcases hpc with hpc | hpc <;>
        simp only [Cluster.addPaxosLogAndUpdateState, hpc, hst, Option.some.injEq] at hs <;>
        exact hs.symm
    subst hcl
    have ha : (cl.onLog log).addPaxosLogAndUpdateState c k =
        some ((cl.setCall c { k with pc := .start }).onLog log) := by
      rcases hpc with hpc | hpc <;>
        simp [Service.addPaxosLogAndUpdateState, hpc, Log.status, Cluster.onLog, hknown,
          Service.setCall, Cluster.setCall]
    exact h.local hk rfl rfl rfl rfl (by simp) (over_resume hk ha)

/-- A run is started on a process of the cluster. -/
theorem learned_start (i : H) (s : Nat) (v : PaxosValue) (hi : i ∈ L) {w : World H PaxosValue}
    (hs : cl.world.step (.start i s (some v)) = some w) (h : (learned L).Reachable cl.world) :
    (learned L).Reachable w := by
  refine h.step (l := .start i s (some v)) (LTS.guarded_eq_some.mpr ⟨rfl, ?_⟩)
  exact LTS.guarded_eq_some.mpr ⟨decide_eq_true hi, hs⟩

theorem Implements.resume (hL : L.Nodup) (h : Implements L cl log) {c : Nat} {k : Call H}
    (hk : cl.calls[c]? = some k) (hs : cl.addPaxosLogAndUpdateState c k = some cl') :
    ∃ a log', a.quiet = true ∧ (cl.onLog log).step a = some (cl'.tick.onLog log') ∧
      Implements L cl'.tick log' := by
  cases hpc : k.pc with
  | status => exact h.status hL hk (.inl hpc) hs
  | statusAgain => exact h.status hL hk (.inr hpc) hs
  | returned | failed =>
    simp only [Cluster.addPaxosLogAndUpdateState, hpc] at hs
    cases hs
  | waiting =>
    simp only [Cluster.addPaxosLogAndUpdateState, hpc] at hs
    split at hs
    · rename_i hfree
      cases hs
      refine h.local hk rfl rfl rfl rfl (by simp) (over_resume hk ?_)
      simp only [Service.addPaxosLogAndUpdateState, hpc]
      exact if_pos hfree
    · cases hs
  | start =>
    simp only [Cluster.addPaxosLogAndUpdateState, hpc, Cluster.startHelper,
      learned_unlocked hL h.reach k.srv, Bool.false_eq_true, if_false] at hs
    obtain ⟨cl₁, hcl₁, rfl⟩ := Option.map_eq_some_iff.mp hs
    obtain ⟨w, hw, rfl⟩ := Option.map_eq_some_iff.mp hcl₁
    have hi : k.srv ∈ L := h.members k (List.mem_of_getElem? hk)
    refine h.follow (a := .resume c) rfl (over_resume hk ?_) (learned_start _ _ _ hi hw h.reach)
      (h.backs.start hw) (h.members_set hk rfl) ?_
    · simp only [Service.addPaxosLogAndUpdateState, hpc]
      rfl
    · intro c₁ k₁ hk₁ hin
      rcases getElem?_moved hk₁ with ⟨hne, hk₁⟩ | ⟨rfl, rfl⟩
      · obtain ⟨r, hr, hslot⟩ := h.starting c₁ k₁ hk₁ hin
        obtain ⟨r', hr', hslot'⟩ := Paxos.slotNum_kept hw hr
        refine ⟨r', ?_, hslot'.trans hslot⟩
        simpa only [Cluster.setCall, Cluster.tick, Function.update_of_ne hne] using hr'
      · have hcur := ((h.inv.call c₁ k hk).holds (by rw [hpc]; rfl)).2
        obtain ⟨r, hr, hslot⟩ := Paxos.start_last hw
        refine ⟨r, ?_, hslot.trans (congrArg Int.ofNat hcur)⟩
        simpa only [Cluster.setCall, Cluster.tick, Function.update_self] using hr
  | inStart =>
    simp only [Cluster.addPaxosLogAndUpdateState, hpc] at hs
    split at hs
    · rename_i r hr
      split at hs
      · rename_i hret
        cases hs
        obtain ⟨r', hr', hslot⟩ := h.starting c k hk hpc
        rw [hr] at hr'
        cases hr'
        have hcur := ((h.inv.call c k hk).holds (by rw [hpc]; rfl)).2
        have hdec := (h.backs.decides r (List.mem_of_getElem? hr) (.inr hret) k.slot hslot).1
        refine h.local hk rfl rfl rfl rfl (by simp) (over_resume hk ?_)
        simp only [Service.addPaxosLogAndUpdateState, hpc]
        refine if_pos ?_
        rw [hcur]
        exact hdec
      · cases hs
    · cases hs

/-! ## Steps of the peers -/

theorem nonempty_of_step {w w' : World H PaxosValue} {l : Lbl H PaxosValue}
    (hs : w.step l = some w') : Nonempty H := by
  cases Paxos.step_takes hs with
  | start p => exact ⟨p⟩
  | handled hh => cases hh <;> exact ⟨‹H›⟩
  | moved j r => exact ⟨r.px⟩

/-- Each step of the log is one of the service; without one, the service lets
time pass. -/
theorem over_next (cl : Cluster H) (w : World H PaxosValue) (i : H) (hn : log.Next log') :
    ∃ a : SvcLbl H, a.quiet = true ∧
      (cl.onLog log).step a = some ({ cl with world := w }.tick.onLog log') := by
  cases hn with
  | same =>
    refine ⟨.setLock i false, rfl, ?_⟩
    simp only [Service.step, Service.act, Cluster.onLog, Option.map_some]
    have hlock : Function.update (fun _ : H => false) i false = fun _ => false :=
      Function.update_eq_self i (fun _ => false)
    rw [hlock]
    rfl
  | decide s v hnone hv =>
    exact ⟨.decide s v, rfl, congrArg (Option.map Service.tick) (if_pos ⟨hnone, hv⟩)⟩
  | learn j s hdec =>
    exact ⟨.learn j s, rfl, congrArg (Option.map Service.tick) (if_pos hdec)⟩

theorem Implements.paxos (hL : L.Nodup) (h : Implements L cl log) {l : Lbl H PaxosValue}
    {w : World H PaxosValue} (hl : ∀ p s v, l ≠ .start p s v)
    (hsees : cl.world.seesDecider l = true) (hs : cl.world.step l = some w) :
    ∃ a log', a.quiet = true ∧
      (cl.onLog log).step a = some ({ cl with world := w }.tick.onLog log') ∧
      Implements L { cl with world := w }.tick log' := by
  have hon : l.on L = true := by
    cases l with
    | start p s v => exact absurd rfl (hl p s v)
    | _ => rfl
  have hstep : learnedStep L cl.world l = some w :=
    LTS.guarded_eq_some.mpr ⟨hsees, LTS.guarded_eq_some.mpr ⟨hon, hs⟩⟩
  obtain ⟨log', hnext, hbacks⟩ := backs_step hL h.reach hstep hl h.backs
  obtain ⟨i⟩ := nonempty_of_step hs
  obtain ⟨a, hq, ha⟩ := over_next cl w i hnext
  refine h.follow hq ha (h.reach.step hstep) hbacks h.members fun c k hk hin => ?_
  obtain ⟨r, hr, hslot⟩ := h.starting c k hk hin
  obtain ⟨r', hr', hslot'⟩ := Paxos.slotNum_kept hs hr
  exact ⟨r', hr', hslot'.trans hslot⟩

/-- Every step of the cluster is one step of the service over the log of its
peers. -/
theorem implements_step (hL : L.Nodup) (h : Implements L cl log) {l : ClusterLbl H}
    (hs : LTS.guarded (Cluster.admits L) Cluster.step cl l = some cl') :
    ∃ a log', a.quiet = true ∧ (cl.onLog log).step a = some (cl'.onLog log') ∧
      Implements L cl' log' := by
  obtain ⟨hadm, hs⟩ := LTS.guarded_eq_some.mp hs
  obtain ⟨cl₀, hact, rfl⟩ := Option.map_eq_some_iff.mp hs
  cases l with
  | invoke i req now =>
    simp only [Cluster.act] at hact
    split at hact
    · rename_i hfresh
      cases hact
      refine h.follow (a := .invoke i req now) rfl ?_ h.reach h.backs ?_ ?_
      · simp only [Service.step, Service.act]
        rw [if_pos (show (cl.onLog log).fresh (req.op now) = true from hfresh)]
        rfl
      · intro k hk
        rcases List.mem_append.mp hk with hk | hk
        · exact h.members k hk
        · rw [List.mem_singleton] at hk
          subst hk
          exact of_decide_eq_true hadm
      · intro c k hk hin
        rcases getElem?_started hk with hk | ⟨-, rfl⟩
        · exact h.starting c k hk hin
        · cases hin
    · cases hact
  | resume c =>
    simp only [Cluster.act] at hact
    split at hact
    · rename_i k hk
      exact h.resume hL hk hact
    · cases hact
  | sync i slot =>
    simp only [Cluster.act] at hact
    split at hact
    · cases hact
    · obtain ⟨w, hw, rfl⟩ := Option.map_eq_some_iff.mp hact
      refine h.follow (a := .noOp slot) rfl rfl
        (learned_start _ _ _ (of_decide_eq_true hadm) hw h.reach) (h.backs.start hw) h.members ?_
      intro c k hk hin
      obtain ⟨r, hr, hslot⟩ := h.starting c k hk hin
      obtain ⟨r', hr', hslot'⟩ := Paxos.slotNum_kept hw hr
      exact ⟨r', hr', hslot'.trans hslot⟩
  | paxos l =>
    have hsees : cl.world.seesDecider l = true := hadm
    cases l with
    | start => cases hact
    | _ =>
      obtain ⟨w, hw, rfl⟩ := Option.map_eq_some_iff.mp hact
      exact h.paxos hL (by simp) hsees hw

theorem implements_init (L : List H) :
    Implements L (Cluster.init L) ⟨fun _ => [], fun _ => none, fun _ _ => false⟩ := by
  refine ⟨⟨_, [], rfl, .nil _⟩, backs_init L, Inv.init, ⟨fun _ => rfl, ?_⟩, ?_, ?_⟩
  · exact fun c k hk => by cases hk
  · exact fun k hk => by cases hk
  · exact fun c k hk => by cases hk

theorem cluster_simulates (L : List H) (hL : L.Nodup) :
    LTS.Simulation (cluster L) unlockedService
      fun cl m => ∃ log, m = cl.onLog log ∧ Implements L cl log where
  init := by
    rintro cl rfl
    exact ⟨_, rfl, _, rfl, implements_init L⟩
  step := by
    rintro cl m l cl' ⟨log, rfl, h⟩ hs
    obtain ⟨a, log', hq, ha, h'⟩ := implements_step hL h hs
    exact ⟨[a], _, .single (LTS.guarded_eq_some.mpr ⟨hq, ha⟩), log', rfl, h'⟩

/-- Any number of flight servers on their Paxos peers, in any interleaving of
calls, rounds and message deliveries without quiesce locks, if distinct calls
build distinct values and `==` on them survives the transfer: what `Status` shows of
the slots is one log, its decided values operations (so no type assertion
panics); the servers and the calls, with the values they returned and the times
they took, are in a state the service over that log can reach; and servers that
have executed equally many slots hold equal maps. -/
theorem replicas_refine_service (L : List H) (hL : L.Nodup) (cl : Cluster H)
    (hr : (cluster L).Reachable cl) :
    ∃ m : Service H, unlockedService.Reachable m ∧ m.server = cl.server ∧ m.calls = cl.calls ∧
      (∀ (i : H) (s : Nat), ∃ v, (cl.world.peer i).status s = some (m.log.known i s, v) ∧
        (m.log.known i s = true → v = m.log.decided s ∧ (m.log.decided s).isSome)) ∧
      (∀ r ∈ cl.world.runs, r.Decides → ∃ s : Nat, r.slotNum = s ∧
        m.log.decided s = r.proposeValue) ∧
      ∀ i j, (cl.server i).currSlotNum = (cl.server j).currSlotNum →
        (cl.server i).state = (cl.server j).state := by
  obtain ⟨m, hm, log, rfl, h⟩ := (cluster_simulates L hL).reachable cl hr
  refine ⟨cl.onLog log, hm, rfl, rfl, h.backs.status hL h.reach, fun r hr hd => ?_, ?_⟩
  · obtain ⟨s, -, hs, -⟩ := h.backs.proposed r hr
    exact ⟨s, hs, (h.backs.decides r hr hd s hs).2⟩
  · intro i j hij
    have hi := (h.inv.servers i).state
    have hj := (h.inv.servers j).state
    simp only [Cluster.onLog] at hi hj
    rw [hi, hj, hij]

/-! The flight and the reservation of `race` on three processes: process `0` takes
slot 0 with process `1`, which then finds the slot decided and takes slot 1 with
process `0`. -/

/-- Run `j` on `p` takes number `n` through its round on `slot` with the help of
`q`, for an operation nobody competes with. -/
def soloRound (j : Nat) (p q : Nat) (slot n : Int) (op : PaxosValue) : List (ClusterLbl Nat) :=
  [.top j n, .go j, .go j, .go j, .go j, .deliver (.prepare j 0 q slot n),
   .recvPrepare j p ⟨.ok, 0, none, 0⟩, .recvPrepare j q ⟨.ok, 0, none, 0⟩, .go j,
   .go j, .go j, .go j, .go j, .deliver (.accept j 0 q slot n (some op)),
   .recvAccept j p ⟨.ok, 0⟩, .recvAccept j q ⟨.ok, 0⟩, .go j,
   .go j, .go j, .go j, .go j].map .paxos

def clusterRace : List (ClusterLbl Nat) :=
  [.invoke 0 raceAdd ⟨1, 0⟩, .invoke 1 raceReserve ⟨2, 0⟩, .resume 0, .resume 0, .resume 0] ++
  soloRound 0 0 1 0 3 (raceAdd.op ⟨1, 0⟩) ++
  [.resume 0, .resume 0, .paxos (.deliver (.decide 1 0 (some (raceAdd.op ⟨1, 0⟩)))),
   .resume 1, .resume 1, .resume 1, .resume 1] ++
  soloRound 1 1 0 1 4 (raceReserve.op ⟨2, 0⟩) ++ [.resume 1, .resume 1]

def clusterRaced : Cluster Nat :=
  LTS.execD (LTS.guarded (Cluster.admits [0, 1, 2]) Cluster.step) (Cluster.init [0, 1, 2])
    clusterRace

set_option maxRecDepth 8000 in
theorem clusterRace_refines :
    clusterRaced.calls.map (·.retVal) = [.bool true, .bool true] ∧
    (clusterRaced.server 1).currSlotNum = 2 ∧
    ∃ m : Service Nat, unlockedService.Reachable m ∧ m.server = clusterRaced.server ∧
      m.calls = clusterRaced.calls := by
  refine ⟨by decide +kernel, by decide +kernel, ?_⟩
  obtain ⟨m, hm, hserver, hcalls, -⟩ := replicas_refine_service [0, 1, 2] (by decide) clusterRaced
    ⟨_, clusterRace, rfl, LTS.run_execD (by decide +kernel)⟩
  exact ⟨m, hm, hserver, hcalls⟩

end Cmu440.Airline
