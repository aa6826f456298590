import Cmu440.Core.Conduct
import Cmu440.Paxos.Reconfig
import Cmu440.Paxos.Slots
import Mathlib.Logic.Relation

/-!
# The administrator's calls from beginning to end

`Reconfig` follows the administrator call by call. Here a whole program of it
is run in one go: `host` says what can become of each call while the rounds go
on, and `Conducts (host …) w p w' out` is a run of `p` that begins in `w` and
returns `out` in `w'`. The calls end as in `Reconfig`: handled and answered,
handled with the answer lost, or never handled; a call to a peer that was killed
remotely is never handled. `SyncPaxosValue` on an undecided slot has the peer
run `startHelper`, during which the rest of the world goes on, and the
connection may break meanwhile. `conducts_of_administered` says that nothing is
lost: a command followed to its end there is a run here.

A `Guard` restricts the steps of the world, the calls that may be handled and
the answers the program may see; results that hold under a condition are stated
for the host with the guard that says it.

Everything the proofs need of a call is in two relations. `Later`: decided slots
stay decided, the cached numbers of the peers stay good, and a peer that does
not listen does not listen again. `Calm` adds that no peer's list has changed,
which is so for everything but a handled `UpdatePeers`.
-/
namespace Cmu440.Paxos

variable {H V : Type}

structure Guard (H V : Type) where
  step : World H V → Lbl H V → Bool
  handle : World H V → Ask H V → Bool
  answer : World H V → (q : Ask H V) → Ans q → Bool

def Guard.free : Guard H V := ⟨fun _ _ => true, fun _ _ => true, fun _ _ _ => true⟩

section
variable [DecidableEq H] [DecidableEq V]

/-- A step of the world; `Start` refuses while the peer is locked. -/
def Guard.Moves (G : Guard H V) (w w' : World H V) : Prop :=
  ∃ l, G.step w l = true ∧ w.unlocked l = true ∧ w.step l = some w'

/-- What can become of a call. -/
inductive Answered (noOp : Option V) (G : Guard H V) (w : World H V) :
    (q : Ask H V) → Ans q → World H V → Prop
  | reach (q : Ask H V) (hl : q.listening w = true) (hr : q.ready w = true)
      (hg : G.handle w q = true) : Answered noOp G w q (q.reply w) (q.effect w)
  | lost (q : Ask H V) (hl : q.listening w = true) (hr : q.ready w = true)
      (hg : G.handle w q = true) : Answered noOp G w q q.failed (q.effect w)
  | miss (q : Ask H V) (h : q.srv.isSome = true) : Answered noOp G w q q.failed w
  | order (l keys : List H) (h : keys.isPerm l = true) : Answered noOp G w (.range l) keys w
  | sync (p : H) (s : Int) {w₁ w₂ : World H V} (hl : (w.peer p).deaf = false)
      (hd : (w.slot p s).isDecided = false) (hstart : w.step (.start p s noOp) = some w₁)
      (hrun : Relation.ReflTransGen G.Moves w₁ w₂)
      (hret : w₂.runs[w.runs.length]?.map (·.pc) = some .returned) :
      Answered noOp G w (.syncPaxosValue p s) ((w₂.peer p).syncPaxosValue s) w₂
  | broken (p : H) (s : Int) {w₁ w₂ : World H V} (hl : (w.peer p).deaf = false)
      (hd : (w.slot p s).isDecided = false) (hstart : w.step (.start p s noOp) = some w₁)
      (hrun : Relation.ReflTransGen G.Moves w₁ w₂) :
      Answered noOp G w (.syncPaxosValue p s) none w₂

def host (noOp : Option V) (G : Guard H V) : Host (World H V) (Ask H V) Ans where
  env := G.Moves
  ans w q r w' := G.answer w q r = true ∧ Answered noOp G w q r w'

/-- No call is left waiting: one to a peer can always fail. -/
theorem host_responsive (noOp : Option V) : (host noOp (.free : Guard H V)).Responsive := by
  intro w q
  cases q with
  | range l => exact ⟨l, w, rfl, .order l l (List.isPerm_iff.mpr (.refl l))⟩
  | _ => exact ⟨_, w, rfl, .miss _ rfl⟩

end

/-! ## Runs that can be evaluated -/

/-- What happens next: a step of the world, or what becomes of the call the
program makes. -/
inductive Act (H V : Type)
  | world (l : Lbl H V)
  | reach
  | miss
  | order (keys : List H)
  | sync (ls : List (Lbl H V))
  deriving DecidableEq, Repr

section
variable [DecidableEq H] [DecidableEq V] (noOp : Option V) (G : Guard H V)

def Guard.move : World H V → Lbl H V → Option (World H V) :=
  LTS.guarded (fun w l => G.step w l && w.unlocked l) World.step

/-- The world in which the run of a `SyncPaxosValue` on an undecided slot has
returned, after the steps `ls`. -/
def synced (w : World H V) (p : H) (s : Int) (ls : List (Lbl H V)) : Option (World H V) :=
  if !(w.peer p).deaf && !(w.slot p s).isDecided then
    ((w.step (.start p s noOp)).bind fun w₁ => LTS.exec G.move w₁ ls).filter fun w₂ =>
      decide (w₂.runs[w.runs.length]?.map (·.pc) = some .returned)
  else none

/-- What an act makes of a call. -/
def Act.answer (w : World H V) : Act H V → (q : Ask H V) → Option (World H V × Ans q)
  | .reach, q =>
    if q.listening w && q.ready w && G.handle w q then some (q.effect w, q.reply w) else none
  | .miss, q => if q.srv.isSome then some (w, q.failed) else none
  | .order keys, .range l => if keys.isPerm l then some (w, keys) else none
  | .sync ls, .syncPaxosValue p s =>
    (synced noOp G w p s ls).map fun w₂ => (w₂, (w₂.peer p).syncPaxosValue s)
  | _, _ => none

/-- What is left of the program after an act. -/
def Act.next {α : Type} (w : World H V) :
    Act H V → Admin H V α → Option (World H V × Admin H V α)
  | .world l, p => (G.move w l).map fun w' => (w', p)
  | act, .call q k =>
    match act.answer noOp G w q with
    | some (w', r) => if G.answer w q r then some (w', k r) else none
    | none => none
  | _, .ret _ => none

/-- The run of a program in which the acts happen one after the other. -/
def conduct {α : Type} : List (Act H V) → World H V → Admin H V α → Option (World H V × α)
  | [], w, .ret a => some (w, a)
  | [], _, .call _ _ => none
  | act :: acts, w, p => (act.next noOp G w p).bind fun c => conduct acts c.1 c.2

/-- Where the acts lead; `w` itself if one of them cannot happen. -/
def conductD {α : Type} (acts : List (Act H V)) (w : World H V) (p : Admin H V α) : World H V :=
  ((conduct noOp G acts w p).map (·.1)).getD w

variable {noOp G}

theorem Guard.moves_of_move {w w' : World H V} {l : Lbl H V} (h : G.move w l = some w') :
    G.Moves w w' := by
  obtain ⟨hg, hs⟩ := LTS.guarded_eq_some.mp h
  obtain ⟨h₁, h₂⟩ := Bool.and_eq_true_iff.mp hg
  exact ⟨l, h₁, h₂, hs⟩

theorem Guard.moves_of_exec {w w' : World H V} {ls : List (Lbl H V)}
    (h : LTS.exec G.move w ls = some w') : Relation.ReflTransGen G.Moves w w' := by
  induction ls generalizing w with
  | nil => cases h; exact .refl
  | cons l ls ih =>
    obtain ⟨w₁, h₁, h₂⟩ := Option.bind_eq_some_iff.mp h
    exact .head (G.moves_of_move h₁) (ih h₂)

theorem answered_of_synced {w w₂ : World H V} {p : H} {s : Int} {ls : List (Lbl H V)}
    (h : synced noOp G w p s ls = some w₂) :
    Answered noOp G w (.syncPaxosValue p s) ((w₂.peer p).syncPaxosValue s) w₂ := by
  unfold synced at h
  split at h
  · rename_i hc
    simp only [Bool.and_eq_true, Bool.not_eq_true'] at hc
    obtain ⟨hbind, hret⟩ := Option.filter_eq_some_iff.mp h
    obtain ⟨w₁, hstart, hexec⟩ := Option.bind_eq_some_iff.mp hbind
    exact .sync p s hc.1 hc.2 hstart (G.moves_of_exec hexec) (of_decide_eq_true hret)
  · cases h

theorem answered_of_answer {w w' : World H V} {act : Act H V} {q : Ask H V} {r : Ans q}
    (h : act.answer noOp G w q = some (w', r)) : Answered noOp G w q r w' := by
  unfold Act.answer at h
  split at h
  · split at h <;> cases h
    rename_i hc
    simp only [Bool.and_eq_true] at hc
    exact .reach q hc.1.1 hc.1.2 hc.2
  · split at h <;> cases h
    rename_i hc
    exact .miss q hc
  · split at h <;> cases h
    rename_i hc
    exact .order _ _ hc
  · obtain ⟨w₂, hs, he⟩ := Option.map_eq_some_iff.mp h
    cases he
    exact answered_of_synced hs
  · cases h

theorem Act.next_conducts {α : Type} {act : Act H V} {w w₁ w' : World H V} {p p₁ : Admin H V α}
    {a : α} (h : act.next noOp G w p = some (w₁, p₁)) (hr : Conducts (host noOp G) w₁ p₁ w' a) :
    Conducts (host noOp G) w p w' a := by
  unfold Act.next at h
  split at h
  · obtain ⟨w₂, hm, he⟩ := Option.map_eq_some_iff.mp h
    cases he
    exact .env (G.moves_of_move hm) hr
  · split at h
    · rename_i w₂ r hans
      split at h
      · rename_i hg
        cases h
        exact .call ⟨hg, answered_of_answer hans⟩ hr
      · cases h
    · cases h
  · cases h

/-- What `conduct` computes is a run. -/
theorem conducts_of_conduct {α : Type} {acts : List (Act H V)} {w w' : World H V}
    {p : Admin H V α} {a : α} (h : conduct noOp G acts w p = some (w', a)) :
    Conducts (host noOp G) w p w' a := by
  induction acts generalizing w p with
  | nil =>
    cases p with
    | ret b => cases h; exact .ret _ _
    | call q k => cases h
  | cons act acts ih =>
    rw [conduct] at h
    obtain ⟨⟨w₁, p₁⟩, h₁, h₂⟩ := Option.bind_eq_some_iff.mp h
    exact Act.next_conducts h₁ (ih h₂)

theorem conducts_conductD {α : Type} (acts : List (Act H V)) {w : World H V} {p : Admin H V α}
    {a : α} (h : (conduct noOp G acts w p).map (·.2) = some a) :
    Conducts (host noOp G) w p (conductD noOp G acts w p) a := by
  obtain ⟨⟨w', b⟩, hc, rfl⟩ := Option.map_eq_some_iff.mp h
  rw [conductD, hc]
  exact conducts_of_conduct hc

end

/-! ## The same calls one by one -/

section
variable [LinearOrder H] [ToString H] [DecidableEq V] {noOp : Option V} {w' : World H V}
  {out : Outcome Unit}

/-- From here the command of a `Site` returns `out` in `w'`. -/
def Site.Finishes (noOp : Option V) (w' : World H V) (out : Outcome Unit) (c : Site H V) : Prop :=
  match c.phase with
  | .run p => Conducts (host noOp .free) c.world p w' out
  | .sync p s j k => ∃ w₂ r, Relation.ReflTransGen Guard.free.Moves c.world w₂ ∧
      (r = none ∨ w₂.runs[j]?.map (·.pc) = some .returned ∧ r = (w₂.peer p).syncPaxosValue s) ∧
      Conducts (host noOp .free) w₂ (k r) w' out
  | .idle | .stopped => True

theorem Site.finishes_step {c c' : Site H V} {l : SiteLbl H V} (hs : c.step noOp l = some c')
    (hl : l ≠ .finish) (h : c'.Finishes noOp w' out) : c.Finishes noOp w' out := by
  cases Site.moves_of_step hs with
  | world ph hu hw =>
    have hm : Guard.free.Moves _ _ := ⟨_, rfl, hu, hw⟩
    cases ph with
    | idle | stopped => trivial
    | run p => exact .env hm h
    | sync p s j k =>
      obtain ⟨w₂, r, hrun, hr, hk⟩ := h
      exact ⟨w₂, r, .head hm hrun, hr, hk⟩
  | addPeer | removePeer => trivial
  | reach k h₁ h₂ => exact .call ⟨rfl, .reach _ h₁ h₂ rfl⟩ h
  | lost k h₁ h₂ => exact .call ⟨rfl, .lost _ h₁ h₂ rfl⟩ h
  | miss _ q k hq => exact .call ⟨rfl, .miss q hq⟩ h
  | broken w => exact ⟨w, none, .refl, .inl rfl, h⟩
  | order _ k hk => exact .call ⟨rfl, .order _ _ hk⟩ h
  | spawn k hdeaf hd hw =>
    obtain ⟨w₂, r, hrun, rfl | ⟨hret, rfl⟩, hk⟩ := h
    · exact .call ⟨rfl, .broken _ _ hdeaf hd hw hrun⟩ hk
    · exact .call ⟨rfl, .sync _ _ hdeaf hd hw hrun hret⟩ hk
  | synced p s k hret => exact ⟨_, _, .refl, .inr ⟨hret, rfl⟩, h⟩
  | done | failed => exact absurd rfl hl

/-- A command that `Reconfig` has followed call by call to its end is a run of
its program. -/
theorem conducts_of_administered {L : List H} {w : World H V} {p : Admin H V (Outcome Unit)}
    {ls : List (SiteLbl H V)}
    (hrun : (administered noOp L).Run ⟨w, .run p⟩ ls ⟨w', .run (.ret out)⟩)
    (hls : .finish ∉ ls) : Conducts (host noOp .free) w p w' out := by
  have hgoal : Site.Finishes noOp w' out ⟨w, .run p⟩ := by
    generalize hc : (⟨w, .run p⟩ : Site H V) = c at hrun
    generalize hc' : (⟨w', .run (.ret out)⟩ : Site H V) = c' at hrun
    clear hc
    induction hrun with
    | nil c =>
      subst hc'
      exact Conducts.ret w' out
    | cons hs _ ih =>
      exact Site.finishes_step hs (fun he => hls (he ▸ List.mem_cons_self))
        (ih (fun hm => hls (List.mem_cons_of_mem _ hm)) hc')
  exact hgoal

end

/-! ## What a call leaves as it is -/

/-- What any handler may do to the slots and the listener of its peer. -/
structure Peer.Later (px px' : Peer H V) : Prop where
  grows : px.Grows px'
  deaf : px.deaf = true → px'.deaf = true

structure Peer.Calm (px px' : Peer H V) : Prop extends px.Later px' where
  list : px.SameList px'

namespace Peer

theorem Later.refl (px : Peer H V) : px.Later px := ⟨.refl px, fun h => h⟩

theorem Later.trans {px px₁ px₂ : Peer H V} (h₁ : px.Later px₁) (h₂ : px₁.Later px₂) :
    px.Later px₂ :=
  ⟨h₁.grows.trans h₂.grows, fun h => h₂.deaf (h₁.deaf h)⟩

theorem Calm.refl (px : Peer H V) : px.Calm px := ⟨.refl px, rfl, rfl⟩

theorem Calm.trans {px px₁ px₂ : Peer H V} (h₁ : px.Calm px₁) (h₂ : px₁.Calm px₂) :
    px.Calm px₂ :=
  ⟨h₁.toLater.trans h₂.toLater, h₂.list.1.trans h₁.list.1, h₂.list.2.trans h₁.list.2⟩

theorem prepare_calm (px : Peer H V) (s n : Int) : px.Calm (px.prepare s n).1 := by
  refine ⟨⟨px.prepare_grows s n, fun h => ?_⟩, (px.prepare_frame s n).list⟩
  simp only [prepare]
  split <;> exact h

theorem accept_calm (px : Peer H V) (s n : Int) (x : Option V) : px.Calm (px.accept s n x).1 := by
  refine ⟨⟨px.accept_grows s n x, fun h => ?_⟩, (px.accept_frame s n x).list⟩
  simp only [accept]
  split <;> exact h

theorem decide_calm (px : Peer H V) (s : Int) (x : Option V) : px.Calm (px.decide s x) :=
  ⟨⟨px.decide_grows s x, fun h => h⟩, (px.decide_frame s x).list⟩

theorem put_calm (px : Peer H V) (s : Int) (x : Option V) (na nh : Int) :
    px.Calm (px.put s x na nh).1 := by
  refine ⟨⟨px.put_grows s x na nh, fun h => ?_⟩, (px.put_frame s x na nh).list⟩
  unfold put
  split <;> exact h

theorem minUndecided_calm (px : Peer H V) : px.Calm px.minUndecided.1 :=
  ⟨⟨px.minUndecided_grows, fun h => h⟩, rfl, rfl⟩

/-- The slots are as they were. -/
theorem Grows.of_timeSlot {px px' : Peer H V} (ht : px'.timeSlot = px.timeSlot)
    (hmax : px'.maxDecidedSlot = px.maxDecidedSlot)
    (hmin : px'.minUndecidedSlot = px.minUndecidedSlot) : px.Grows px' := by
  refine .of_same (fun s => ?_) hmax hmin
  unfold Decided getTimeSlotValue
  rw [ht]

end Peer

def World.Later (w w' : World H V) : Prop := ∀ p, (w.peer p).Later (w'.peer p)

def World.Calm (w w' : World H V) : Prop := ∀ p, (w.peer p).Calm (w'.peer p)

namespace World

theorem Later.trans {w w₁ w₂ : World H V} (h₁ : w.Later w₁) (h₂ : w₁.Later w₂) : w.Later w₂ :=
  fun p => (h₁ p).trans (h₂ p)

theorem Calm.refl (w : World H V) : w.Calm w := fun _ => .refl _

theorem Calm.trans {w w₁ w₂ : World H V} (h₁ : w.Calm w₁) (h₂ : w₁.Calm w₂) : w.Calm w₂ :=
  fun p => (h₁ p).trans (h₂ p)

theorem Calm.later {w w' : World H V} (h : w.Calm w') : w.Later w' := fun p => (h p).toLater

theorem Later.decided {w w' : World H V} (h : w.Later w') {p : H} {s : Int}
    (hd : (w.peer p).Decided s) : (w'.peer p).Decided s :=
  (h p).grows.decided s hd

theorem Later.bookkept {w w' : World H V} (h : w.Later w') {p : H} (hb : (w.peer p).Bookkept) :
    (w'.peer p).Bookkept :=
  hb.grows (h p).grows

variable [DecidableEq H]

theorem later_update {w w' : World H V} {p : H} {px : Peer H V}
    (hw : w'.peer = Function.update w.peer p px) (h : (w.peer p).Later px) : w.Later w' := by
  unfold World.Later
  rw [hw]
  exact (Function.forall_update_iff w.peer fun p' px' => (w.peer p').Later px').mpr
    ⟨h, fun _ _ => .refl _⟩

theorem calm_update {w w' : World H V} {p : H} {px : Peer H V}
    (hw : w'.peer = Function.update w.peer p px) (h : (w.peer p).Calm px) : w.Calm w' := by
  unfold World.Calm
  rw [hw]
  exact (Function.forall_update_iff w.peer fun p' px' => (w.peer p').Calm px').mpr
    ⟨h, fun _ _ => .refl _⟩

end World

/-- The call is to change a list. -/
def Ask.updates : Ask H V → Bool
  | .updatePeers .. => true
  | _ => false

section
variable [DecidableEq H]

theorem Effect.calm {w w₁ : World H V} {l : Lbl H V} (h : Effect w l w₁) : w.Calm w₁ := by
  cases h with
  | idle | send => exact .refl w
  | prepare j c p s n => exact World.calm_update rfl ((w.peer p).prepare_calm s n)
  | accept j c p s n x => exact World.calm_update rfl ((w.peer p).accept_calm s n x)
  | decide p s x => exact World.calm_update rfl ((w.peer p).decide_calm s x)

theorem effect_calm (w : World H V) (q : Ask H V) (hq : q.updates = false) :
    w.Calm (q.effect w) := by
  cases q with
  | updatePeers p l me => cases hq
  | setLock p b => exact World.calm_update rfl ⟨⟨.of_timeSlot rfl rfl rfl, fun h => h⟩, rfl, rfl⟩
  | remoteKill p => exact World.calm_update rfl ⟨⟨.of_timeSlot rfl rfl rfl, fun _ => rfl⟩, rfl, rfl⟩
  | put p s x na nh => exact World.calm_update rfl ((w.peer p).put_calm s x na nh)
  | minUndecidedSlot p => exact World.calm_update rfl (w.peer p).minUndecided_calm
  | checkStatus p | maxDecidedSlot p | syncPaxosValue p s | range l => exact .refl w

theorem effect_later (w : World H V) (q : Ask H V) : w.Later (q.effect w) := by
  cases q with
  | updatePeers p l me => exact World.later_update rfl ⟨.of_timeSlot rfl rfl rfl, fun h => h⟩
  | _ => exact (effect_calm w _ rfl).later

variable [DecidableEq V]

theorem step_calm {w w' : World H V} {l : Lbl H V} (h : w.step l = some w') : w.Calm w' := by
  rcases step_cases h with ⟨_, _, _, _, -, rfl⟩ | ⟨w₁, he, rfl | ⟨_, _, _, rfl, -⟩⟩
  · exact .refl w
  · exact he.calm
  · exact he.calm

variable {noOp : Option V} {G : Guard H V} {w w' : World H V}

theorem Guard.Moves.calm (h : G.Moves w w') : w.Calm w' := by
  obtain ⟨l, -, -, hs⟩ := h
  exact step_calm hs

theorem moves_calm (h : Relation.ReflTransGen G.Moves w w') : w.Calm w' := by
  induction h with
  | refl => exact .refl w
  | tail _ hs ih => exact ih.trans hs.calm

theorem Answered.calm {q : Ask H V} {r : Ans q} (h : Answered noOp G w q r w')
    (hq : q.updates = false) : w.Calm w' := by
  cases h with
  | reach | lost => exact effect_calm w q hq
  | miss | order => exact .refl w
  | sync p s _ _ hstart hrun | broken p s _ _ hstart hrun =>
    exact (step_calm hstart).trans (moves_calm hrun)

theorem Answered.later {q : Ask H V} {r : Ans q} (h : Answered noOp G w q r w') : w.Later w' := by
  cases h with
  | reach | lost => exact effect_later w q
  | miss | order => exact (World.Calm.refl w).later
  | sync p s _ _ hstart hrun | broken p s _ _ hstart hrun =>
    exact ((step_calm hstart).trans (moves_calm hrun)).later

/-- Whatever a program asks, what it leaves behind is later. -/
theorem conducts_later {α : Type} {p : Admin H V α} {a : α}
    (h : Conducts (host noOp G) w p w' a) : w.Later w' := by
  refine Conducts.invariant (J := w.Later) ?_ ?_ h (World.Calm.refl w).later
  · intro w₁ w₂ h₁ hs
    exact h₁.trans (Guard.Moves.calm hs).later
  · intro w₁ q r w₂ h₁ hs
    exact h₁.trans hs.2.later

/-- A program that changes no list leaves the lists alone. -/
theorem conducts_calm {α : Type} {p : Admin H V α} {a : α} (hp : Within calm p)
    (h : Conducts (host noOp G) w p w' a) : w.Calm w' := by
  obtain ⟨g, hc, -⟩ : ∃ g' : Heard V, w.Calm w' ∧ True := by
    refine h.of_wp (J := fun _ => w.Calm) ?_ ?_ (hp fun _ _ => False) (World.Calm.refl w)
    · intro g w₁ w₂ h₁ hs
      exact h₁.trans (Guard.Moves.calm hs)
    · intro g w₁ q r w₂ h₁ hq hs
      refine h₁.trans (hs.2.calm ?_)
      cases q with
      | updatePeers => exact hq.elim
      | _ => rfl
  exact hc

end

/-! ## Assertions about a program that leaves the lists alone -/

/-- An assertion that survives everything but a change of the lists. -/
def Steady (P : World H V → Prop) : Prop := ∀ w w', w.Calm w' → P w → P w'

section
variable [DecidableEq H] [DecidableEq V] {noOp : Option V} {G : Guard H V} {P : World H V → Prop}

theorem Steady.stable (h : Steady P) : Stable (host noOp G) P :=
  fun w w' hw hs => h w w' (Guard.Moves.calm hs) hw

theorem Steady.ret {α : Type} {a : α} {S : α → World H V → Prop} (hP : Steady P)
    (h : ∀ w, P w → S a w) : Triple (host noOp G) P (pure a) S :=
  .ret hP.stable h

theorem Steady.call {q : Ask H V} {S : Ans q → World H V → Prop} (hP : Steady P)
    (hS : ∀ r, Steady (S r))
    (h : ∀ w r w', P w → G.answer w q r = true → Answered noOp G w q r w' → S r w') :
    Triple (host noOp G) P (paxosAdminCall q) S :=
  .ask hP.stable (fun r => (hS r).stable) fun w r w' hw ha => h w r w' hw ha.1 ha.2

end

/-! ## Single calls -/

section
variable [DecidableEq H] [DecidableEq V] {noOp : Option V} {G : Guard H V} {w w' : World H V} {p : H}

theorem answered_minUndecidedSlot {st : Status} {n : Int}
    (h : Answered noOp G w (.minUndecidedSlot p) (some (st, n)) w') :
    n = (w'.peer p).minUndecidedSlot := by
  generalize hr : (some (st, n) : Option (Status × Int)) = r at h
  cases h with
  | reach =>
    cases hr
    simp [Ask.effect, Peer.minUndecided]
  | lost => cases hr
  | miss => cases hr

theorem answered_maxDecidedSlot {st : Status} {n : Int}
    (h : Answered noOp G w (.maxDecidedSlot p) (some (st, n)) w') :
    n = (w'.peer p).maxDecidedSlot := by
  generalize hr : (some (st, n) : Option (Status × Int)) = r at h
  cases h with
  | reach => cases hr; rfl
  | lost => cases hr
  | miss => cases hr

omit [DecidableEq H] [DecidableEq V] in
theorem Peer.decided_of_sync {px : Peer H V} {s : Int} {rep : SyncPaxosValueReply V}
    (h : px.syncPaxosValue s = some rep) : px.Decided s := by
  simp only [Peer.syncPaxosValue] at h
  split at h
  · assumption
  · cases h

theorem answered_sync {s : Int} {rep : SyncPaxosValueReply V}
    (h : Answered noOp G w (.syncPaxosValue p s) (some rep) w') : (w'.peer p).Decided s := by
  generalize hr : (some rep : Option (SyncPaxosValueReply V)) = r at h
  cases h with
  | reach => exact Peer.decided_of_sync hr.symm
  | sync => exact Peer.decided_of_sync hr.symm
  | lost => cases hr
  | miss => cases hr
  | broken => cases hr

theorem answered_checkStatus {l : List H} (h : Answered noOp G w (.checkStatus p) (some l) w') :
    l = (w'.peer p).peers := by
  generalize hr : (some l : Option (List H)) = r at h
  cases h with
  | reach => cases hr; rfl
  | lost => cases hr
  | miss => cases hr

theorem answered_updatePeers {l : List H} {me : Nat}
    (h : Answered noOp G w (.updatePeers p l me) (some .ok) w') :
    w' = Ask.effect w (.updatePeers p l me) := by
  generalize hr : (some .ok : Option Status) = r at h
  cases h with
  | reach => rfl
  | lost => cases hr
  | miss => cases hr

/-- `Put` replies `OK` only on a slot it fills. -/
theorem answered_put {s : Int} {x : Option V} {na nh : Int}
    (h : Answered noOp G w (.put p s x na nh) (some .ok) w') :
    ¬ (w.peer p).Decided s ∧ (w'.peer p).Decided s := by
  generalize hr : (some .ok : Option Status) = r at h
  cases h with
  | reach =>
    have hput : ((w.peer p).put s x na nh).2 = .ok := (Option.some.inj hr).symm
    simp only [Ask.effect, Function.update_self]
    unfold Peer.put at hput ⊢
    split at hput
    · cases hput
    · rename_i hd
      refine ⟨hd, ?_⟩
      rw [if_neg hd]
      exact ((w.peer p).decided_set_true rfl s).mpr (.inr rfl)
  | lost => cases hr
  | miss => cases hr

end

/-! ## An administrator at work -/

/-- A command of the administrator. -/
inductive Op (H : Type)
  | addPeer (peers : List H) (p : H)
  | removePeer (peers : List H) (p : H)
  | changePeer (peers : List H) (peerme : H)
  deriving DecidableEq, Repr

inductive Event (H V : Type)
  | world (l : Lbl H V)
  | call (op : Op H)
  deriving DecidableEq, Repr

section
variable [LinearOrder H] [ToString H]

def Op.prog : Op H → Admin H V (Outcome Unit)
  | .addPeer peers p => Paxos.addPeer peers p
  | .removePeer peers p => Paxos.removePeer peers p
  | .changePeer peers peerme => Paxos.changePeer peers peerme

variable [DecidableEq V]

/-- A cluster that was made with any list, on which commands are run one after
another from beginning to end, those that `accept` admits with their results. -/
def administration (noOp : Option V) (G : Guard H V) (accept : Op H → Outcome Unit → Prop) :
    LTS (World H V) (Event H V) where
  init w := ∃ L : List H, L.Nodup ∧ w = World.launch L
  step w e w' :=
    match e with
    | .world l => G.move w l = some w'
    | .call op => ∃ out, accept op out ∧ Conducts (host noOp G) w op.prog w' out

end

end Cmu440.Paxos
