import Cmu440.Tribbler.Tribserver

/-!
# Creating a user

`CreateUser` looks whether the user is there and, if not, puts it there: two calls,
and the tribservers share nothing but the storage. Two requests that both look
before either has put are both told that they created the user
(`user_created_twice`), even on one tribserver.

With the storage as it is, no order of the calls can do better than to keep the two
of one request together: as long as nobody looks for a user between another
request's `Get` and its `Put` for the same user, one request at most is answered OK
and every other one Exists (`user_created_once`). The argument is a count. A request
has a claim to the user from the moment it found nothing (`claims`); when another
one then finds nothing, there is no claim, for a claim that has been put would be found.
-/
namespace Cmu440.Tribbler

open Prog

abbrev TribThread : Type := TribRequest × Trib (Except String TribReply)

/-- No call fails. -/
def neverFails : TribLbl → Bool
  | .act _ c => !c.fails
  | .start _ => true

/-- A `CreateUser` for `u` that found no such user and has not put it yet. -/
def betweenCalls (u : String) : TribThread → Bool
  | (.createUser v, .call (.put _ _) _) => v = u
  | _ => false

/-- Nothing fails, and nobody looks for a user that someone else is about to put. -/
def undisturbed (p : TribPool) (l : TribLbl) : Bool :=
  neverFails l && match l with
    | .act i _ => match p.threads[i]? with
      | some (.createUser u, .call (.get _) _) => !p.threads.any (betweenCalls u)
      | _ => true
    | .start _ => true

def createAnswer (u : String) : TribThread → Option (Except String TribReply)
  | (.createUser v, .ret answer) => if v = u then some answer else none
  | _ => none

/-- How the `CreateUser`s for `u` were answered that have been answered. -/
def createAnswers (p : TribPool) (u : String) : List (Except String TribReply) :=
  p.threads.filterMap (createAnswer u)

/-! ## The two calls -/

/-- `CreateUser` after it found nothing. -/
def putUser (u : String) : Trib (Except String TribReply) :=
  .call (.put (userKey u) (userKey u)) fun _ => .ret (statusReply .ok)

theorem createUser_eq (u : String) :
    createUser u = .call (.get (userKey u)) fun found : String × Option String =>
      if found.2.isSome then putUser u else .ret (statusReply .alreadyExists) := rfl

/-- Where a `CreateUser` for `u` can be. -/
def CreateStage (u : String) (prog : Trib (Except String TribReply)) : Prop :=
  prog = createUser u ∨ prog = putUser u ∨ prog = .ret (statusReply .ok) ∨
    prog = .ret (statusReply .alreadyExists)

/-- The `CreateUser`s for `u` that found no such user. -/
def claims (u : String) : TribThread → Bool
  | (.createUser v, .call (.put _ _) _) => v = u
  | (.createUser v, .ret answer) => v = u ∧ answer = statusReply .ok
  | _ => false

structure Claimed (p : TribPool) : Prop where
  stage : ∀ u prog, (.createUser u, prog) ∈ p.threads → CreateStage u prog
  once : ∀ u, p.threads.countP (claims u) ≤ 1
  stored : ∀ u, (.createUser u, .ret (statusReply .ok)) ∈ p.threads →
    (p.world.contents.values (userKey u)).isSome

/-- Of a thread with another request nothing counts. -/
theorem claims_other {u : String} {req : TribRequest} (h : ∀ v, req ≠ .createUser v)
    (prog : Trib (Except String TribReply)) : claims u (req, prog) = false := by
  cases req with
  | createUser v => exact absurd rfl (h v)
  | _ => rfl

/-- A thread moves from `x` to `y`. -/
theorem Claimed.moved {p : TribPool} {w : Backend} {i : Nat} {req : TribRequest}
    {x y : Trib (Except String TribReply)} (h : Claimed p) (hx : p.threads[i]? = some (req, x))
    (hvalues : ∀ key, (p.world.contents.values key).isSome → (w.contents.values key).isSome)
    (hstage : ∀ u, req = .createUser u → CreateStage u y)
    (hclaim : ∀ u, claims u (req, y) = true → claims u (req, x) = true ∨
      p.threads.countP (claims u) = 0)
    (hstored : ∀ u, req = .createUser u → y = .ret (statusReply .ok) →
      (w.contents.values (userKey u)).isSome) :
    Claimed ⟨w, p.threads.set i (req, y)⟩ where
  stage u prog hm := by
    rcases List.mem_or_eq_of_mem_set hm with hm | heq
    · exact h.stage u prog hm
    · cases heq
      exact hstage u rfl
  once u := by
    show (p.threads.set i (req, y)).countP (claims u) ≤ 1
    have hcount := countP_moved (y := (req, y)) hx (claims u)
    have honce := h.once u
    by_cases hy : claims u (req, y) = true
    · rw [if_pos hy] at hcount
      rcases hclaim u hy with hx | hzero
      · rw [if_pos hx] at hcount
        omega
      · omega
    · rw [if_neg hy] at hcount
      omega
  stored u hm := by
    rcases List.mem_or_eq_of_mem_set hm with hm | heq
    · exact hvalues _ (h.stored u hm)
    · cases heq
      exact hstored u rfl rfl

/-- Where nobody is between the calls and the user is not there, nobody has a claim. -/
theorem Claimed.unclaimed {p : TribPool} (h : Claimed p) {u : String}
    (hbetween : p.threads.any (betweenCalls u) = false)
    (habsent : p.world.contents.values (userKey u) = none) : p.threads.countP (claims u) = 0 := by
  refine List.countP_eq_zero.mpr fun t ht hclaim => ?_
  have hnot := List.any_eq_false.mp hbetween t ht
  unfold claims at hclaim
  split at hclaim
  · exact hnot hclaim
  · obtain ⟨rfl, rfl⟩ := of_decide_eq_true hclaim
    have := h.stored _ ht
    rw [habsent] at this
    cases this
  · cases hclaim

/-- A request that has just begun has no claim. -/
theorem Claimed.started {lib : GoLib} {p : TribPool} (h : Claimed p) (req : TribRequest) :
    Claimed ⟨p.world, p.threads ++ [(req, serve lib req)]⟩ where
  stage u prog hm := by
    rcases List.mem_append.mp hm with hm | hm
    · exact h.stage u prog hm
    · cases List.mem_singleton.mp hm
      exact .inl rfl
  once u := by
    have hnone : claims u (req, serve lib req) = false := by
      cases req <;> rfl
    rw [List.countP_append, List.countP_singleton, hnone]
    exact h.once u
  stored u hm := by
    rcases List.mem_append.mp hm with hm | hm
    · exact h.stored u hm
    · cases List.mem_singleton.mp hm

/-- The calls of a `CreateUser`. -/
theorem Claimed.creates {p : TribPool} (h : Claimed p) {i : Nat} {v : String} {q : Ask}
    {k : q.Reply → Trib (Except String TribReply)} {c : Choice} {r : q.Reply} {w : Backend}
    (hthread : p.threads[i]? = some (.createUser v, .call q k))
    (hg : undisturbed p (.act i c) = true)
    (hop : p.world.op (.createUser v) c q = some (r, w)) :
    Claimed ⟨w, p.threads.set i (.createUser v, k r)⟩ := by
  have hvalues : ∀ key, (p.world.contents.values key).isSome → (w.contents.values key).isSome :=
    fun _ => Backend.op_values_isSome hop
  have hother : ∀ u prog, claims u (.createUser v, prog) = true → u = v := by
    intro u prog hc
    unfold claims at hc
    split at hc
    · rename_i heq
      cases heq
      exact (of_decide_eq_true hc).symm
    · rename_i heq
      cases heq
      exact (of_decide_eq_true hc).1.symm
    · cases hc
  rcases h.stage v _ (List.mem_of_getElem? hthread) with heq | heq | heq | heq
  · rw [createUser_eq] at heq
    cases heq
    simp only [undisturbed, hthread, Bool.and_eq_true, Bool.not_eq_true'] at hg
    obtain ⟨rfl, ⟨rfl, rfl⟩ | ⟨err, rfl | rfl, -⟩⟩ := Backend.op_get hop
    · cases hfound : p.world.contents.values (userKey v) with
      | some value =>
        rw [Backend.read, hfound]
        refine h.moved hthread hvalues (fun u hu => ?_) (fun u hc => ?_) fun u _ heq => ?_
        · cases hu
          exact .inr (.inr (.inr rfl))
        · cases hother u _ hc
          cases (of_decide_eq_true hc).2
        · cases heq
      | none =>
        rw [Backend.read, hfound]
        refine h.moved hthread hvalues (fun u hu => ?_) (fun u hc => .inr ?_) fun u _ heq => ?_
        · cases hu
          exact .inr (.inl rfl)
        · cases hother u _ hc
          exact h.unclaimed hg.2 hfound
        · cases heq
    · cases hg.1
    · cases hg.1
  · cases heq
    refine h.moved hthread hvalues (fun u hu => ?_) (fun u hc => .inl ?_) (fun u hu _ => ?_)
    · cases hu
      exact .inr (.inr (.inl rfl))
    · cases hother u _ hc
      exact decide_eq_true rfl
    · cases hu
      rcases Backend.op_put hop with ⟨-, -, rfl⟩ | ⟨err, -, ⟨rfl, -⟩ | ⟨rfl, -⟩⟩
      · simp [Backend.write, Contents.setValue]
      · cases hg
      · cases hg
  · cases heq
  · cases heq

theorem claimed_inductive (lib : GoLib) : (tribbler lib undisturbed).Inductive Claimed where
  init p hp := by
    subst hp
    exact ⟨by simp, by simp, by simp⟩
  step p l p' h hstep := by
    obtain ⟨hg, hstep⟩ := LTS.guarded_eq_some.mp hstep
    cases l with
    | start req =>
      cases hstep
      exact h.started req
    | act i c =>
      obtain ⟨req, q, k, r, w, hthread, hop, rfl⟩ := Pool.step_act hstep
      have hvalues : ∀ key, (p.world.contents.values key).isSome →
          (w.contents.values key).isSome := fun _ => Backend.op_values_isSome hop
      by_cases hreq : ∀ v, req ≠ .createUser v
      · refine h.moved hthread hvalues (fun u heq => absurd heq (hreq u)) (fun u hc => ?_)
          fun u heq => absurd heq (hreq u)
        rw [claims_other hreq] at hc
        cases hc
      · push Not at hreq
        obtain ⟨v, rfl⟩ := hreq
        exact h.creates hthread hg hop

/-! ## One answer is OK -/

theorem createAnswer_eq_some {u : String} {t : TribThread} {answer : Except String TribReply}
    (h : createAnswer u t = some answer) : t = (.createUser u, .ret answer) := by
  unfold createAnswer at h
  split at h
  · split at h
    · rename_i hv
      cases h
      rw [hv]
    · cases h
  · cases h

/-- Among the answers of the requests to create one user, at most one is OK and every
other one is Exists. -/
theorem user_created_once (lib : GoLib) {p : TribPool} (hr : (tribbler lib undisturbed).Reachable p)
    (u : String) :
    (createAnswers p u).countP (· = statusReply .ok) ≤ 1 ∧
    ∀ answer ∈ createAnswers p u,
      answer = statusReply .ok ∨ answer = statusReply .alreadyExists := by
  have h := (claimed_inductive lib).reachable p hr
  refine ⟨?_, fun answer ha => ?_⟩
  · refine le_trans ?_ (h.once u)
    unfold createAnswers
    rw [List.countP_filterMap]
    refine List.countP_mono_left fun t _ ht => ?_
    cases hanswer : createAnswer u t with
    | none =>
      rw [hanswer] at ht
      cases ht
    | some answer =>
      rw [hanswer] at ht
      rw [createAnswer_eq_some hanswer]
      exact decide_eq_true ⟨rfl, of_decide_eq_true ht⟩
  · obtain ⟨t, ht, heq⟩ := List.mem_filterMap.mp ha
    rw [createAnswer_eq_some heq] at ht
    rcases h.stage u _ ht with heq | heq | heq | heq
    · cases heq
    · cases heq
    · cases heq
      exact .inl rfl
    · cases heq
      exact .inr rfl

/-- Where a schedule leads. -/
def scheduled (g : TribPool → TribLbl → Bool) (ls : List TribLbl) : TribPool :=
  LTS.execD (LTS.guarded g (Pool.step (serve plainLib) Backend.op)) ⟨.init, []⟩ ls

/-- Two requests for one user, one after the other. -/
def createTwice : List TribLbl :=
  [.start (.createUser "ann"), .start (.createUser "ann"), .act 0 .done, .act 0 .done, .act 1 .done]

theorem createTwice_once :
    ∃ p, (tribbler plainLib undisturbed).Reachable p ∧
      createAnswers p "ann" = [statusReply .ok, statusReply .alreadyExists] ∧
      (createAnswers p "ann").countP (· = statusReply .ok) ≤ 1 := by
  have hr : (tribbler plainLib undisturbed).Reachable (scheduled undisturbed createTwice) :=
    ⟨_, createTwice, rfl, LTS.run_execD rfl⟩
  exact ⟨_, hr, rfl, (user_created_once plainLib hr "ann").1⟩

/-- The same requests, but both look before either puts. -/
def createTogether : List TribLbl :=
  [.start (.createUser "ann"), .start (.createUser "ann"), .act 0 .done, .act 1 .done, .act 0 .done,
    .act 1 .done]

theorem user_created_twice :
    ∃ p, (tribbler plainLib fun _ l => neverFails l).Reachable p ∧
      createAnswers p "ann" = [statusReply .ok, statusReply .ok] :=
  ⟨scheduled _ createTogether, ⟨_, createTogether, rfl, LTS.run_execD rfl⟩, rfl⟩

end Cmu440.Tribbler
