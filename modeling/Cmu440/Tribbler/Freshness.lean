import Cmu440.Tribbler.Coherence

/-!
# A `Get` after a `Put` sees it

When `Put` has returned without an error, its value has a place in the history
of the key (`PutsDone`). A `Get` invoked later reads the clock after every value
up to that place was stored. A cached value it may use has not expired by then,
so no value of that time overwrites it (`Leases.Ok.fresh`); and the server only
answers with the newest value. `Fresh` says this of each `Get` on its way.
-/
namespace Cmu440.Tribbler

/-! ## The history of a key -/

theorem getElem?_of_grown {α : Type} {l l' : List α} (h : l <+: l') {i : Nat} {x : α}
    (hx : l[i]? = some x) : l'[i]? = some x := by
  obtain ⟨rest, rfl⟩ := h
  exact (List.getElem?_append_left (List.getElem?_eq_some_iff.mp hx).1).trans hx

theorem Event.versions {s s' : Cluster} (hev : Event s s') (key : Key) :
    s.versions key <+: s'.versions key := by
  cases hev with
  | install hp hrpc =>
    rename_i p call
    simp only [Cluster.installPut, Cluster.setPut, Function.update_apply]
    split
    · rename_i hk
      rw [hk]
      exact List.prefix_append _ _
    · exact List.prefix_refl _
  | _ => exact List.prefix_refl _

/-- The value of a `Put` that is done is in the history, and a `Put` that has
returned is done. -/
structure PutsDone (s : Cluster) : Prop where
  done : ∀ (p : Nat) (call : PutCall) (i : Nat), s.puts[p]? = some call → call.rpc = .done i →
    ∃ t, (s.versions call.key)[i]? = some (call.value, t)
  returned : ∀ (p : Nat) (call : PutCall), s.puts[p]? = some call → call.pc = .returned →
    ∃ i, call.rpc = .done i

section Puts

variable {s s' : Cluster}

theorem PutsDone.frame (h : PutsDone s) (hputs : s'.puts = s.puts)
    (hversions : ∀ key, s.versions key <+: s'.versions key) : PutsDone s' where
  done p call i hp hrpc := by
    obtain ⟨t, ht⟩ := h.done p call i (hputs ▸ hp) hrpc
    exact ⟨t, getElem?_of_grown (hversions _) ht⟩
  returned p call hp := h.returned p call (hputs ▸ hp)

theorem PutsDone.move (h : PutsDone s) {p : Nat} {call : PutCall}
    (hputs : s'.puts = s.puts.set p call) (hversions : ∀ key, s.versions key <+: s'.versions key)
    (hdone : ∀ i, call.rpc = .done i → ∃ t, (s'.versions call.key)[i]? = some (call.value, t))
    (hreturned : call.pc = .returned → ∃ i, call.rpc = .done i) : PutsDone s' where
  done p' call' i hp' hrpc := by
    rw [hputs] at hp'
    rcases getElem?_moved hp' with ⟨-, hp'⟩ | ⟨-, rfl⟩
    · obtain ⟨t, ht⟩ := h.done p' call' i hp' hrpc
      exact ⟨t, getElem?_of_grown (hversions _) ht⟩
    · exact hdone i hrpc
  returned p' call' hp' hpc := by
    rw [hputs] at hp'
    rcases getElem?_moved hp' with ⟨-, hp'⟩ | ⟨-, rfl⟩
    · exact h.returned p' call' hp' hpc
    · exact hreturned hpc

/-- A request that is being handled is of a `Put` that has not returned. -/
theorem PutsDone.not_returned (h : PutsDone s) {p : Nat} {call : PutCall}
    (hp : s.puts[p]? = some call) (hbusy : call.rpc = .sent ∨ call.rpc.busy = true) :
    call.pc ≠ .returned := by
  intro hpc
  obtain ⟨i, hi⟩ := h.returned p call hp hpc
  rw [hi] at hbusy
  rcases hbusy with hb | hb <;> cases hb

theorem PutsDone.step (h : PutsDone s) (hev : Event s s') : PutsDone s' := by
  have hversions := hev.versions
  cases hev with
  | tick | newGet | lib | readClock | hit | miss | giveUp | serve | receive | failGet =>
    exact h.frame rfl hversions
  | newPut host key value =>
    refine ⟨fun p call i hp hrpc => ?_, fun p call hp hpc => ?_⟩ <;>
      rcases getElem?_started hp with hp | ⟨-, rfl⟩
    · exact h.done p call i hp hrpc
    · cases hrpc
    · exact h.returned p call hp hpc
    · cases hpc
  | enterPut hp hpc hpc' hrpc hls =>
    rename_i p call ls pc rpc
    refine h.move rfl hversions (fun i hi => ?_) fun hpc => absurd hpc hpc'
    rcases hrpc with rfl | rfl
    · cases hi
    · exact h.done p call i hp hi
  | putPc hp hpc hdone =>
    rename_i p call pc
    exact h.move rfl hversions (fun i hi => h.done p call i hp hi) hdone
  | lockPut hp hrpc hfree hstore =>
    exact h.move rfl hversions (fun _ hi => by cases hi) fun hpc =>
      (h.not_returned hp (.inl hrpc) hpc).elim
  | install hp hrpc =>
    rename_i p call
    refine h.move rfl hversions (fun i hi => ?_) fun _ => ⟨_, rfl⟩
    cases hi
    refine ⟨s.clock, ?_⟩
    simp only [Cluster.installPut, Cluster.setPut, Function.update_self,
      List.getElem?_concat_length]
  | goOn hp hgo hstore hmutex =>
    refine h.move rfl hversions (fun i hi => ?_) fun hpc =>
      (h.not_returned hp (.inr hgo.busy) hpc).elim
    simp only at hi
    subst hi
    cases hgo.busy'
  | dialFailed hp hbusy =>
    exact h.move rfl hversions (fun _ hi => by cases hi) fun hpc =>
      (h.not_returned hp (.inr hbusy) hpc).elim
  | revoked hp hrpc hfree =>
    exact h.move rfl hversions (fun _ hi => by cases hi) fun hpc =>
      (h.not_returned hp (.inr (by rw [hrpc]; rfl)) hpc).elim

end Puts

/-! ## The cluster -/

/-- What holds in every state: the locks are kept, and every key has its leases. -/
structure Coherent (s : Cluster) : Prop where
  gets : GetsOk s
  cache : CacheOk s
  puts : PutsOk s
  done : PutsDone s
  leases : ∀ key, ∃ a : Leases HostPort String, a.Ok ∧ Tracks s key a

theorem Coherent.init (clock : Int) (mode : HostPort → LeaseMode) (connected : HostPort → Bool) :
    Coherent (.init clock mode connected) where
  gets := by
    constructor <;> intro _ _ _ hg <;> cases hg
  cache _ _ _ hv := nomatch hv
  puts := by
    constructor
    · intro _ _ _ _ hvs
      cases hvs
    all_goals
      intro _ _ hp
      cases hp
  done := by
    constructor
    · intro _ _ _ hp
      cases hp
    · intro _ _ hp
      cases hp
  leases key := by
    refine ⟨.start clock, .start clock, ⟨rfl, rfl, ?_, ?_, ?_⟩⟩
    · intro vs hvs
      cases hvs
    · rintro host value now (⟨v, hv, -⟩ | ⟨g, call, reply, hg, -⟩)
      · cases hv
      · cases hg
    · intro c hc
      cases hc

theorem Coherent.step {s s' : Cluster} (h : Coherent s) (hev : Event s s') : Coherent s' where
  gets := h.gets.step hev
  cache := h.cache.step h.gets hev
  puts := h.puts.step hev
  done := h.done.step hev
  leases key := by
    obtain ⟨a, hok, htracks⟩ := h.leases key
    obtain ⟨ls, a', hrun, htracks'⟩ := htracks.step hok h.gets h.puts hev
    exact ⟨a', hok.run hrun, htracks'⟩

theorem coherent_reachable {s : Cluster} (hr : cluster.Reachable s) : Coherent s := by
  refine LTS.Inductive.reachable ⟨?_, ?_⟩ s hr
  · rintro s ⟨clock, mode, connected, rfl⟩
    exact .init clock mode connected
  · intro s l s' h hst
    exact h.step (event_of_step hst)

/-! ## One `Get` -/

/-- `value` has a place in the history that is not before the last of `n`
values. -/
def NotOlder (s : Cluster) (key : Key) (n : Nat) (value : String) : Prop :=
  ∃ j t, n ≤ j + 1 ∧ (s.versions key)[j]? = some (value, t)

/-- A `Get` that was invoked when `n` values had been stored. -/
structure Fresh (s : Cluster) (n : Nat) (call : GetCall) : Prop where
  late : ∀ now, call.pc = .locking now → ∀ i v, i < n → (s.versions call.key)[i]? = some v →
    v.2 ≤ now
  reply : ∀ reply, call.rpc = .replied reply → reply.status = .ok →
    NotOlder s call.key n reply.value
  returned : ∀ value, call.pc = .returned value → NotOlder s call.key n value

/-- All `Get`s of the key from the number `g₀` on were invoked when `n` values had
been stored. -/
structure Sees (s : Cluster) (key : Key) (g₀ n : Nat) : Prop where
  stored : n ≤ (s.versions key).length
  fresh : ∀ (g : Nat) (call : GetCall), g₀ ≤ g → s.gets[g]? = some call → call.key = key →
    Fresh s n call

section Gets

variable {s s' : Cluster} {key : Key} {g₀ n : Nat}

theorem NotOlder.grown {value : String} (h : NotOlder s key n value)
    (hversions : s.versions key <+: s'.versions key) : NotOlder s' key n value := by
  obtain ⟨j, t, hj, ht⟩ := h
  exact ⟨j, t, hj, getElem?_of_grown hversions ht⟩

theorem Fresh.grown {call : GetCall} (h : Fresh s n call)
    (hn : n ≤ (s.versions call.key).length)
    (hversions : s.versions call.key <+: s'.versions call.key) : Fresh s' n call where
  late now hpc i v hi hv := by
    have hlt : i < (s.versions call.key).length := by omega
    refine h.late now hpc i v hi ?_
    rw [List.getElem?_eq_getElem hlt, ← hv]
    exact (getElem?_of_grown hversions (List.getElem?_eq_getElem hlt)).symm
  reply reply hrpc hok := (h.reply reply hrpc hok).grown hversions
  returned value hpc := (h.returned value hpc).grown hversions

theorem Sees.frame (h : Sees s key g₀ n) (hgets : s'.gets = s.gets)
    (hversions : s.versions key <+: s'.versions key) : Sees s' key g₀ n where
  stored := le_trans h.stored hversions.length_le
  fresh g call hle hg hk := by
    subst hk
    exact (h.fresh g call hle (hgets ▸ hg) rfl).grown h.stored hversions

theorem Sees.move (h : Sees s key g₀ n) {g : Nat} {call call' : GetCall}
    (hg : s.gets[g]? = some call) (hgets : s'.gets = s.gets.set g call')
    (hkey : call'.key = call.key) (hversions : s'.versions = s.versions)
    (hfresh : call.key = key → Fresh s n call → Fresh s' n call') : Sees s' key g₀ n where
  stored := by
    rw [hversions]
    exact h.stored
  fresh g' call'' hle hg' hk := by
    rw [hgets] at hg'
    rcases getElem?_moved hg' with ⟨-, hg'⟩ | ⟨rfl, rfl⟩
    · subst hk
      exact (h.fresh g' call'' hle hg' rfl).grown h.stored
        (hversions ▸ List.prefix_refl _)
    · rw [hkey] at hk
      exact hfresh hk (h.fresh g' call hle hg hk)

/-- The `Get` reads the clock: everything has been stored before. -/
theorem Fresh.readClock {call : GetCall} (h : Fresh s n call) (hcoh : Coherent s) (g : Nat) :
    Fresh (s.setGet g { call with pc := .locking s.clock }) n
      { call with pc := .locking s.clock } where
  late now hpc i v _ hv := by
    cases hpc
    obtain ⟨a, hok, htracks⟩ := hcoh.leases call.key
    rw [← htracks.clock]
    exact hok.installed_le (htracks.versions ▸ hv)
  reply := h.reply
  returned := nofun

/-- The `Get` uses the cache: the value had not been overwritten when it read the
clock. -/
theorem Fresh.hit {call : GetCall} {now : Int} {value : ValueLib} (h : Fresh s n call)
    (hcoh : Coherent s) (hn : n ≤ (s.versions call.key).length) (hpc : call.pc = .locking now)
    (hvalue : (s.libstores call.host).keyValue call.key = some value)
    (hlive : now ≤ value.lease.validUntil) : NotOlder s call.key n value.value := by
  obtain ⟨a, hok, htracks⟩ := hcoh.leases call.key
  obtain ⟨c, hc, -, hexp, t, ht⟩ :=
    htracks.copies call.host value.value _ (.inl ⟨value, hvalue, rfl, rfl⟩)
  refine ⟨c.version, t, ?_, ht⟩
  by_contra hlt
  -- the last of the `n` values was stored when the clock was read
  obtain ⟨v, hlast⟩ : ∃ v, (s.versions call.key)[n - 1]? = some v :=
    ⟨_, List.getElem?_eq_getElem (by omega)⟩
  have hnow := h.late now hpc (n - 1) v (by omega) hlast
  have hlive' : now ≤ c.expires := by
    rw [hexp, expiry, ← hcoh.cache _ _ _ hvalue]
    exact hlive
  rw [← htracks.versions] at hlast
  have := hok.fresh hc hlast hnow hlive'
  omega

/-- The server answers with the newest value. -/
theorem Coherent.newest (hcoh : Coherent s) {now : Int} {wantLease : Bool} {host : HostPort}
    (hn : n ≤ (s.versions key).length)
    (hok : (s.server.get now key wantLease host).2.status = .ok) :
    NotOlder s key n (s.server.get now key wantLease host).2.value := by
  obtain ⟨vs, hvs, hvalue⟩ := get_ok hok
  obtain ⟨a, -, htracks⟩ := hcoh.leases key
  obtain ⟨t, ht⟩ := htracks.current vs hvs
  rw [List.getLast?_eq_getElem?] at ht
  rw [hvalue]
  exact ⟨_, t, by omega, ht⟩

theorem receive_returns {ls : Libstore} {now : Int} {reply : GetReply} {value : String}
    (h : (ls.receive key now reply).2 = some value) : reply.status = .ok ∧ reply.value = value := by
  unfold Libstore.receive at h
  split at h
  · rename_i hok
    exact ⟨hok, Option.some.inj h⟩
  · cases h

theorem Sees.step (h : Sees s key g₀ n) (hcoh : Coherent s) (hev : Event s s') :
    Sees s' key g₀ n := by
  have hversions := hev.versions key
  cases hev with
  | tick | newPut | lib | enterPut | putPc | lockPut | install | goOn | dialFailed | revoked =>
    exact h.frame rfl hversions
  | newGet host k =>
    refine ⟨h.stored, fun g call hle hg hk => ?_⟩
    rcases getElem?_started hg with hg | ⟨-, rfl⟩
    · subst hk
      exact (h.fresh g call hle hg rfl).grown h.stored hversions
    · exact ⟨nofun, nofun, nofun⟩
  | readClock hg hpc => exact h.move hg rfl rfl rfl fun _ hf => hf.readClock hcoh _
  | hit hg hpc hls hvalue hlive =>
    refine h.move hg rfl rfl rfl fun hk hf => ⟨nofun, hf.reply, fun value hv => ?_⟩
    cases hv
    exact hf.hit hcoh (hk ▸ h.stored) hpc hvalue hlive
  | miss hg hpc hfree hls => exact h.move hg rfl rfl rfl fun _ _ => ⟨nofun, nofun, nofun⟩
  | giveUp hg hpc hls => exact h.move hg rfl rfl rfl fun _ hf => ⟨nofun, hf.reply, nofun⟩
  | serve hg hrpc hfree =>
    refine h.move hg rfl rfl rfl fun hk hf => ⟨hf.late, fun reply hr hok => ?_, hf.returned⟩
    cases hr
    exact hcoh.newest (hk ▸ h.stored) hok
  | receive hg hpc hrpc =>
    rename_i g call now reply
    refine h.move hg rfl rfl rfl fun hk hf => ⟨fun now' hc => ?_, hf.reply, fun value hc => ?_⟩
    · simp only at hc
      split at hc <;> cases hc
    · simp only at hc
      split at hc
      · rename_i hv
        cases hc
        obtain ⟨hok, rfl⟩ := receive_returns hv
        exact hf.reply reply hrpc hok
      · cases hc
  | failGet hg hpc => exact h.move hg rfl rfl rfl fun _ hf => ⟨nofun, hf.reply, nofun⟩

theorem Sees.run {ls : List ClusterLbl} (h : Sees s key g₀ n) (hcoh : Coherent s)
    (hrun : cluster.Run s ls s') : Sees s' key g₀ n :=
  (hrun.invariant (I := fun s => Coherent s ∧ Sees s key g₀ n)
    (fun _ _ _ hi hst => ⟨hi.1.step (event_of_step hst), hi.2.step hi.1 (event_of_step hst)⟩)
    ⟨hcoh, h⟩).2

/-- All `Get`s that are invoked from now on see what has been stored. -/
theorem sees_new (s : Cluster) (key : Key) (hn : n ≤ (s.versions key).length) :
    Sees s key s.gets.length n := by
  refine ⟨hn, fun g call hle hg _ => ?_⟩
  rw [List.getElem?_eq_none hle] at hg
  cases hg

theorem versions_run {ls : List ClusterLbl} (hrun : cluster.Run s ls s') (key : Key) :
    s.versions key <+: s'.versions key :=
  hrun.invariant (I := fun s' => s.versions key <+: s'.versions key)
    (fun _ _ _ hi hst => hi.trans ((event_of_step hst).versions key)) (List.prefix_refl _)

end Gets

/-- A `Get` invoked after a `Put` of the key has returned without an error never
returns an older value: `i` is the place of the value of the `Put` in the history
of the key and `j` that of the value the `Get` returns. -/
theorem get_never_older {s₁ s₂ : Cluster} {ls : List ClusterLbl} (hr : cluster.Reachable s₁)
    (hrun : cluster.Run s₁ ls s₂) {p g : Nat} {put : PutCall} {get : GetCall} {value : String}
    (hput : s₁.puts[p]? = some put) (hreturned : put.pc = .returned)
    (hafter : s₁.gets.length ≤ g) (hget : s₂.gets[g]? = some get) (hkey : get.key = put.key)
    (hvalue : get.pc = .returned value) :
    ∃ i j t t', put.rpc = .done i ∧ i ≤ j ∧ (s₁.versions put.key)[i]? = some (put.value, t) ∧
      (s₂.versions put.key)[i]? = some (put.value, t) ∧
      (s₂.versions put.key)[j]? = some (value, t') := by
  have hcoh := coherent_reachable hr
  obtain ⟨i, hi⟩ := hcoh.done.returned p put hput hreturned
  obtain ⟨t, ht⟩ := hcoh.done.done p put i hput hi
  have hstored : i + 1 ≤ (s₁.versions put.key).length := (List.getElem?_eq_some_iff.mp ht).1
  have hsees := (sees_new s₁ put.key hstored).run hcoh hrun
  obtain ⟨j, t', hj, hv⟩ := (hsees.fresh g get hafter hget hkey).returned value hvalue
  rw [hkey] at hv
  exact ⟨i, j, t, t', hi, by omega, ht, getElem?_of_grown (versions_run hrun _) ht, hv⟩

/-- Two values are stored; `b` has the first one cached when the second comes. -/
def twoPuts : List ClusterLbl :=
  [.put "a" "k" "1", .enterPut 0 true, .servePut 0, .receivePut 0, .get "b" "k", .readClock 0,
    .enterGet 0 true, .serveGet 0, .receiveGet 0, .tick 1, .put "a" "k" "2", .enterPut 1 true,
    .servePut 1, .nextLease 1 "b", .dialLease 1 true, .revokeLease 1, .wakePut 1, .installPut 1,
    .receivePut 1]

def getAgain : List ClusterLbl :=
  [.get "b" "k", .readClock 1, .enterGet 1 true, .serveGet 1, .receiveGet 1]

def bothStored : Cluster :=
  LTS.execD Cluster.step (.init 0 (fun _ => .always) fun _ => false) twoPuts

def fetched : Cluster := LTS.execD Cluster.step bothStored getAgain

theorem get_after_two_puts :
    fetched.gets[1]? = some ⟨"b", "k", .returned "2", .replied ⟨.ok, "2", ⟨true, 10⟩⟩⟩ ∧
      ∃ i j t t', PutRpc.done 1 = .done i ∧ i ≤ j ∧
        (bothStored.versions "k")[i]? = some ("2", t) ∧
        (fetched.versions "k")[i]? = some ("2", t) ∧ (fetched.versions "k")[j]? = some ("2", t') := by
  have hr : cluster.Reachable bothStored :=
    ⟨_, twoPuts, ⟨0, _, _, rfl⟩, LTS.run_execD (by decide +kernel)⟩
  have hrun : cluster.Run bothStored getAgain fetched := LTS.run_execD (by decide +kernel)
  have hput : bothStored.puts[1]? = some ⟨"a", "k", "2", .returned, .done 1⟩ := rfl
  exact ⟨rfl, get_never_older hr hrun hput rfl (by decide +kernel : _ ≤ 1) rfl rfl rfl⟩

end Cmu440.Tribbler
