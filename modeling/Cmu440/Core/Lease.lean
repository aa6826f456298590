import Cmu440.Core.LTS
import Mathlib.Data.Set.Insert

/-!
# Copies under leases

One object of a store and the copies of it that are held elsewhere. `versions`
are the values the object has had, each with the time it was installed; a copy
belongs to a holder, is of one version and expires. Holders may drop copies at
any time. The store installs a new value only when every copy of the current
one has expired.

`Leases.Ok` is what this keeps: a copy of an overwritten version expired before
the version that overwrote it was installed. So a holder that looks at a copy
which has not expired sees at least every version installed up to that time
(`Ok.fresh`).
-/
namespace Cmu440

/-- `holder` has a copy of the version number `version`. -/
structure LeaseCopy (H : Type) where
  holder : H
  version : Nat
  expires : Int

structure Leases (H V : Type) where
  clock : Int
  versions : List (V × Int)
  copies : Set (LeaseCopy H)

inductive LeaseLbl (H V : Type)
  | tick (d : Int)
  | grant (c : LeaseCopy H)
  | drop (kept : Set (LeaseCopy H))
  | install (v : V)

namespace Leases

variable {H V : Type}

def start (clock : Int) : Leases H V := ⟨clock, [], ∅⟩

inductive Step : Leases H V → LeaseLbl H V → Leases H V → Prop
  | tick (s : Leases H V) (d : Int) (hd : 0 ≤ d) : Step s (.tick d) { s with clock := s.clock + d }
  | grant (s : Leases H V) (c : LeaseCopy H) (hc : c.version + 1 = s.versions.length) :
      Step s (.grant c) { s with copies := insert c s.copies }
  | drop (s : Leases H V) (kept : Set (LeaseCopy H)) (hk : kept ⊆ s.copies) :
      Step s (.drop kept) { s with copies := kept }
  | install (s : Leases H V) (v : V)
      (hexp : ∀ c ∈ s.copies, c.version + 1 = s.versions.length → c.expires < s.clock) :
      Step s (.install v) { s with versions := s.versions ++ [(v, s.clock)] }

def system : LTS (Leases H V) (LeaseLbl H V) := ⟨fun s => ∃ clock, s = start clock, Step⟩

structure Ok (s : Leases H V) : Prop where
  ordered : s.versions.Pairwise fun v w => v.2 ≤ w.2
  past : ∀ v ∈ s.versions, v.2 ≤ s.clock
  known : ∀ c ∈ s.copies, c.version < s.versions.length
  overwritten : ∀ c ∈ s.copies, ∀ v, s.versions[c.version + 1]? = some v → c.expires < v.2

theorem Ok.start (clock : Int) : (Leases.start clock : Leases H V).Ok :=
  ⟨List.Pairwise.nil, nofun, nofun, nofun⟩

theorem Ok.step {s s' : Leases H V} {l : LeaseLbl H V} (h : s.Ok) (hst : Step s l s') : s'.Ok := by
  cases hst with
  | tick d hd =>
    refine ⟨h.ordered, fun v hv => ?_, h.known, h.overwritten⟩
    have := h.past v hv
    simp only
    omega
  | grant c hc =>
    refine ⟨h.ordered, h.past, ?_, ?_⟩
    · rintro x (rfl | hx)
      · simp only
        omega
      · exact h.known x hx
    · rintro x (rfl | hx) v hv
      · rw [hc, List.getElem?_eq_none (le_refl _)] at hv
        cases hv
      · exact h.overwritten x hx v hv
  | drop kept hk =>
    exact ⟨h.ordered, h.past, fun c hc => h.known c (hk hc), fun c hc => h.overwritten c (hk hc)⟩
  | install v hexp =>
    refine ⟨?_, ?_, ?_, ?_⟩
    · refine List.pairwise_append.mpr ⟨h.ordered, List.pairwise_singleton _ _, fun x hx y hy => ?_⟩
      rw [List.mem_singleton.mp hy]
      exact h.past x hx
    · intro x hx
      rcases List.mem_append.mp hx with hx | hx
      · exact h.past x hx
      · rw [List.mem_singleton.mp hx]
    · intro c hc
      rw [List.length_append]
      exact Nat.lt_add_right _ (h.known c hc)
    · intro c hc w hw
      by_cases hcur : c.version + 1 = s.versions.length
      · -- the version that is overwritten now
        simp only [hcur, List.getElem?_append_right (le_refl _), Nat.sub_self,
          List.getElem?_cons_zero, Option.some.injEq] at hw
        rw [← hw]
        exact hexp c hc hcur
      · have hlt := h.known c hc
        rw [List.getElem?_append_left (by omega)] at hw
        exact h.overwritten c hc w hw

theorem Ok.run {s s' : Leases H V} {ls : List (LeaseLbl H V)} (h : s.Ok)
    (hr : system.Run s ls s') : s'.Ok :=
  hr.invariant (fun _ _ _ hi hst => hi.step hst) h

/-- A copy that has not expired at time `t` is at least as new as everything
installed by then. -/
theorem Ok.fresh {s : Leases H V} (h : s.Ok) {c : LeaseCopy H} (hc : c ∈ s.copies) {i : Nat}
    {v : V × Int} (hv : s.versions[i]? = some v) {t : Int} (ht : v.2 ≤ t) (hlive : t ≤ c.expires) :
    i ≤ c.version := by
  by_contra hlt
  have hi : i < s.versions.length := (List.getElem?_eq_some_iff.mp hv).1
  -- the next version was installed after the copy expired
  have hnext : s.versions[c.version + 1]? = some s.versions[c.version + 1] :=
    List.getElem?_eq_getElem (by omega)
  have hexp := h.overwritten c hc _ hnext
  have hle : (s.versions[c.version + 1]).2 ≤ v.2 := by
    rw [← (List.getElem?_eq_some_iff.mp hv).2]
    rcases Nat.lt_or_eq_of_le (not_le.mp hlt : c.version + 1 ≤ i) with hlt' | heq
    · exact List.pairwise_iff_getElem.mp h.ordered _ _ (by omega) hi hlt'
    · subst heq
      exact le_refl _
  omega

theorem Ok.installed_le {s : Leases H V} (h : s.Ok) {i : Nat} {v : V × Int}
    (hv : s.versions[i]? = some v) : v.2 ≤ s.clock :=
  h.past v (List.mem_of_getElem? hv)

end Leases

end Cmu440
