import Cmu440.Tribbler.Lists
import Mathlib.Data.List.Induction

/-!
# When a key is hot

In Normal mode the libstore asks for a lease on its own account: `Get` notes the
time of each query of a key in `keyValudhistory`, drops what is older than
`QueryCacheSeconds` or more than the `QueryCacheThresh` it needs, and wants a
lease when `QueryCacheThresh` times are left. `deletelist` drops in the background.

What is dropped never matters. A time goes because it is old, and then it stays
old, or because there are enough behind it (`trim_spec`); so the list is as long
as the threshold exactly when that many of the queries it has been told of are
recent (`want_iff_recorded`). But it is not told of all of them: `Get` only adds to
a list that is there, and the list is made by `Put`. A libstore that reads a key
it never wrote never asks for a lease, however often it reads
(`hot_key_without_put`). The decision is the right one exactly if a hot key has
enough recent reads since the first `Put` (`want_iff_hot`).

Times are those of the clock, which does not go back.
-/
namespace Cmu440.Tribbler

/-- What happens on a libstore, as far as its values go. `get` comes with what the
server answers should it be called, or nothing if the call fails. -/
inductive LibCall
  | get (key : Key) (now : Int) (reply : Option GetReply)
  | put (key : Key)
  | deletelist (now : Int) (key : Key)
  | deleteinvalid (now : Int) (key : Key) (value : ValueLib)
  | revokeLease (key : Key)
  deriving DecidableEq, Repr

namespace LibCall

/-- mirrors libstore_impl.go:246-336 for `get` -/
def apply (ls : Libstore) : LibCall → Libstore
  | get key now reply =>
    match ls.get key now, reply with
    | (ls, .server _), some reply => (ls.receive key now reply).1
    | (ls, _), _ => ls
  | put key => ls.startHistory key
  | deletelist now key => ls.deletelist now key
  | deleteinvalid now key value => ls.deleteinvalid now key value
  | revokeLease key => (ls.revokeLease key).1

def time : LibCall → Option Int
  | get _ now _ | deletelist now _ | deleteinvalid now _ _ => some now
  | put _ | revokeLease _ => none

/-- The time of a query of `key`. -/
def query (key : Key) : LibCall → Option Int
  | get k now _ => if k = key then some now else none
  | _ => none

/-- What a call does to the history of `key`. -/
def record (key : Key) (history : Option (List Int)) : LibCall → Option (List Int)
  | get k now _ =>
    if k = key then history.map fun list => Libstore.trim now list ++ [now] else history
  | put k => if k = key then some (history.getD []) else history
  | deletelist now k => if k = key then history.map (Libstore.trim now) else history
  | deleteinvalid .. | revokeLease _ => history

end LibCall

/-- The times of the queries of `key`. -/
def queries (key : Key) (cs : List LibCall) : List Int :=
  cs.filterMap (LibCall.query key)

/-- What happened before the first `Put` of `key`. -/
def untilPut (key : Key) (cs : List LibCall) : List LibCall :=
  cs.takeWhile fun c => c ≠ .put key

/-- What happened from the first `Put` of `key` on. -/
def sincePut (key : Key) (cs : List LibCall) : List LibCall :=
  cs.dropWhile fun c => c ≠ .put key

/-- A query at `t` is `QueryCacheSeconds` old or older. -/
def Expired (now t : Int) : Prop :=
  addSeconds t queryCacheSeconds ≤ now

instance (now t : Int) : Decidable (Expired now t) :=
  inferInstanceAs (Decidable (_ ≤ _))

/-- The queries less than `QueryCacheSeconds` old. -/
def recent (now : Int) (times : List Int) : List Int :=
  times.filter fun t => ¬ Expired now t

theorem Expired.mono {now now' t t' : Int} (h : Expired now t) (hnow : now ≤ now') (ht : t' ≤ t) :
    Expired now' t' := by
  unfold Expired addSeconds at *
  omega

/-! ## The list that is kept -/

/-- What goes is old, or there is enough without it; what stays is recent. -/
theorem trim_spec {now : Int} {list : List Int} (hs : list.Pairwise (· ≤ ·)) :
    ∃ dropped, list = dropped ++ Libstore.trim now list ∧
      ((∀ t ∈ dropped, Expired now t) ∨ queryCacheThresh ≤ (Libstore.trim now list).length) ∧
      ∀ t ∈ Libstore.trim now list, ¬ Expired now t := by
  induction list with
  | nil => exact ⟨[], rfl, .inl (by simp), by simp [Libstore.trim]⟩
  | cons e list ih =>
    obtain ⟨hle, hs⟩ := List.pairwise_cons.mp hs
    unfold Libstore.trim
    split <;> rename_i hkeep
    · refine ⟨[], rfl, .inl (by simp), fun t ht hexp => ?_⟩
      have het : e ≤ t := by
        rcases List.mem_cons.mp ht with rfl | ht
        · exact le_rfl
        · exact hle t ht
      have := hexp.mono (le_refl now) het
      unfold Expired at this
      omega
    · obtain ⟨dropped, heq, hdrop, hkept⟩ := ih hs
      refine ⟨e :: dropped, by rw [List.cons_append, ← heq], ?_, hkept⟩
      by_cases hlen : queryCacheThresh ≤ (Libstore.trim now list).length
      · exact .inr hlen
      have hdrop := hdrop.resolve_right hlen
      refine .inl fun t ht => ?_
      rcases List.mem_cons.mp ht with rfl | ht
      · by_cases hfit : (t :: list).length ≤ queryCacheThresh
        · unfold Expired
          have := fun h => hkeep ⟨h, hfit⟩
          omega
        · -- the list was too long and now is too short, so something behind `t` went for its age
          have hpos : 0 < dropped.length := by
            have := congrArg List.length heq
            rw [List.length_append] at this
            rw [List.length_cons] at hfit
            omega
          obtain ⟨u, hu⟩ := List.exists_mem_of_length_pos hpos
          have hul : u ∈ list := heq ▸ List.mem_append_left _ hu
          exact (hdrop u hu).mono (le_refl now) (hle u hul)
      · exact hdrop t ht

/-- At time `now`, the list is what is left of the queries since the first `Put`,
and what is gone is old or not needed. -/
def Remembers (now : Int) (key : Key) (cs : List LibCall) : Option (List Int) → Prop
  | none => sincePut key cs = []
  | some list => sincePut key cs ≠ [] ∧ ∃ dropped, queries key (sincePut key cs) = dropped ++ list ∧
      ((∀ t ∈ dropped, Expired now t) ∨ queryCacheThresh ≤ list.length)

theorem sincePut_concat (key : Key) (cs : List LibCall) (c : LibCall) :
    sincePut key (cs ++ [c])
      = if sincePut key cs = [] then (if c = .put key then [c] else [])
        else sincePut key cs ++ [c] := by
  unfold sincePut
  rw [List.dropWhile_append]
  by_cases h : cs.dropWhile (fun c => decide (c ≠ .put key)) = []
  · rw [if_pos h, if_pos (by rw [h]; rfl)]
    by_cases hc : c = .put key
    · simp [hc]
    · simp [hc]
  · rw [if_neg h, if_neg (by simpa using h)]

theorem queries_concat (key : Key) (cs : List LibCall) (c : LibCall) :
    queries key (cs ++ [c]) = queries key cs ++ (c.query key).toList := by
  unfold queries
  rw [List.filterMap_append]
  cases h : c.query key <;> simp [h]

theorem Remembers.mono {now now' : Int} {key : Key} {cs : List LibCall}
    {history : Option (List Int)} (h : Remembers now key cs history) (hnow : now ≤ now') :
    Remembers now' key cs history := by
  cases history with
  | none => exact h
  | some list =>
    obtain ⟨hput, dropped, heq, hdrop⟩ := h
    exact ⟨hput, dropped, heq, hdrop.imp_left fun hall t ht => (hall t ht).mono hnow le_rfl⟩

section

variable {now : Int} {key : Key} {cs : List LibCall} {c : LibCall}

/-- Neither a `Put` nor a query of the key. -/
theorem Remembers.skip {history : Option (List Int)} (h : Remembers now key cs history)
    (hput : c ≠ .put key) (hquery : c.query key = none) :
    Remembers now key (cs ++ [c]) history := by
  cases history with
  | none =>
    show sincePut key (cs ++ [c]) = []
    rw [sincePut_concat, if_pos (show sincePut key cs = [] from h), if_neg hput]
  | some list =>
    obtain ⟨hsince, dropped, heq, hdrop⟩ := h
    show sincePut key (cs ++ [c]) ≠ [] ∧ _
    rw [sincePut_concat, if_neg hsince, queries_concat, hquery]
    exact ⟨by simp, dropped, by simpa using heq, hdrop⟩

theorem Remembers.put {history : Option (List Int)} (h : Remembers now key cs history) :
    Remembers now key (cs ++ [.put key]) (some (history.getD [])) := by
  cases history with
  | none =>
    show sincePut key (cs ++ [.put key]) ≠ [] ∧ _
    rw [sincePut_concat, if_pos (show sincePut key cs = [] from h), if_pos rfl]
    exact ⟨by simp, [], rfl, .inl (by simp)⟩
  | some list =>
    obtain ⟨hsince, dropped, heq, hdrop⟩ := h
    show sincePut key (cs ++ [.put key]) ≠ [] ∧ _
    rw [sincePut_concat, if_neg hsince, queries_concat]
    exact ⟨by simp, dropped, by simpa [LibCall.query] using heq, hdrop⟩

/-- If the trimmed list is too short, the last that went is old, and so is all before it. -/
theorem Remembers.trim {list : List Int} (h : Remembers now key cs (some list))
    (hs : (queries key (sincePut key cs)).Pairwise (· ≤ ·)) :
    Remembers now key cs (some (Libstore.trim now list)) := by
  obtain ⟨hsince, gone, heq, hgone⟩ := h
  rw [heq] at hs
  obtain ⟨-, hlist, hle⟩ := List.pairwise_append.mp hs
  obtain ⟨dropped, hsplit, hdrop, -⟩ := trim_spec hlist
  refine ⟨hsince, gone ++ dropped, by rw [heq, List.append_assoc, ← hsplit], ?_⟩
  by_cases hlen : queryCacheThresh ≤ (Libstore.trim now list).length
  · exact .inr hlen
  have hdrop := hdrop.resolve_right hlen
  refine .inl fun t ht => ?_
  rcases List.mem_append.mp ht with ht | ht
  · rcases hgone with hgone | hmany
    · exact hgone t ht
    · have hpos : 0 < dropped.length := by
        have := congrArg List.length hsplit
        rw [List.length_append] at this
        omega
      obtain ⟨u, hu⟩ := List.exists_mem_of_length_pos hpos
      have hul : u ∈ list := hsplit ▸ List.mem_append_left _ hu
      exact (hdrop u hu).mono le_rfl (hle t ht u hul)
  · exact hdrop t ht

theorem Remembers.query {list : List Int} (h : Remembers now key cs (some list))
    (hs : (queries key (sincePut key cs)).Pairwise (· ≤ ·)) (reply : Option GetReply) :
    Remembers now key (cs ++ [.get key now reply]) (some (Libstore.trim now list ++ [now])) := by
  obtain ⟨hsince, dropped, heq, hdrop⟩ := h.trim hs
  show sincePut key (cs ++ [_]) ≠ [] ∧ _
  rw [sincePut_concat, if_neg hsince, queries_concat, heq]
  refine ⟨by simp, dropped, by simp [LibCall.query], hdrop.imp_right fun hlen => ?_⟩
  rw [List.length_append]
  exact Nat.le_add_right_of_le hlen

/-- One call, at the time it reads from the clock. -/
theorem Remembers.record {history : Option (List Int)} (h : Remembers now key cs history)
    (hs : (queries key (sincePut key cs)).Pairwise (· ≤ ·)) (hc : ∀ t ∈ c.time, t = now) :
    Remembers now key (cs ++ [c]) (c.record key history) := by
  cases c with
  | get k t reply =>
    cases hc t rfl
    simp only [LibCall.record]
    split <;> rename_i hk
    · rw [hk]
      cases history with
      | none =>
        show sincePut key (cs ++ [_]) = []
        rw [sincePut_concat, if_pos (show sincePut key cs = [] from h), if_neg (by simp)]
      | some list => exact h.query hs reply
    · exact h.skip (by simp) (if_neg hk)
  | put k =>
    simp only [LibCall.record]
    split <;> rename_i hk
    · rw [hk]
      exact h.put
    · exact h.skip (by simpa using hk) rfl
  | deletelist t k =>
    cases hc t rfl
    simp only [LibCall.record]
    split
    · cases history with
      | none => exact h.skip (by simp) rfl
      | some list => exact (h.trim hs).skip (by simp) rfl
    · exact h.skip (by simp) rfl
  | deleteinvalid t k value => exact h.skip (by simp) rfl
  | revokeLease k => exact h.skip (by simp) rfl

end

/-! ## A history of calls -/

/-- The libstore after the calls of `cs`. -/
def Libstore.after (ls : Libstore) (cs : List LibCall) : Libstore :=
  cs.foldl LibCall.apply ls

theorem Libstore.get_fst (ls : Libstore) (key : Key) (now : Int) :
    (ls.get key now).1 = ls.lookup key now := by
  unfold Libstore.get
  split <;> rfl

theorem Libstore.receive_history (ls : Libstore) (key : Key) (now : Int) (reply : GetReply) :
    (ls.receive key now reply).1.keyValudhistory = ls.keyValudhistory := by
  unfold Libstore.receive
  split
  · split <;> rfl
  · rfl

theorem Libstore.receive_mode (ls : Libstore) (key : Key) (now : Int) (reply : GetReply) :
    (ls.receive key now reply).1.mode = ls.mode := by
  unfold Libstore.receive
  split
  · split <;> rfl
  · rfl

/-- `Get` looks, and may have an answer to take in. -/
theorem LibCall.apply_get (ls : Libstore) (key : Key) (now : Int) (reply : Option GetReply) :
    LibCall.apply ls (.get key now reply) = ls.lookup key now ∨
    ∃ reply', LibCall.apply ls (.get key now reply)
      = ((ls.lookup key now).receive key now reply').1 := by
  rw [← Libstore.get_fst]
  cases hget : ls.get key now with
  | mk ls' source =>
    cases source with
    | cache value => exact .inl (by simp [apply, hget])
    | server want =>
      cases reply with
      | none => exact .inl (by simp [apply, hget])
      | some reply => exact .inr ⟨reply, by simp [apply, hget]⟩

theorem LibCall.apply_history (ls : Libstore) (c : LibCall) (key : Key) :
    (c.apply ls).keyValudhistory key = c.record key (ls.keyValudhistory key) := by
  cases c with
  | get k now reply =>
    have hlookup : (LibCall.apply ls (.get k now reply)).keyValudhistory
        = (ls.lookup k now).keyValudhistory := by
      rcases apply_get ls k now reply with heq | ⟨reply, heq⟩ <;> rw [heq]
      exact Libstore.receive_history ..
    rw [hlookup]
    by_cases hk : key = k
    · simp [Libstore.lookup, record, hk]
    · simp [Libstore.lookup, record, hk, Ne.symm hk]
  | put k =>
    by_cases hk : key = k
    · simp [apply, Libstore.startHistory, record, hk]
    · simp [apply, Libstore.startHistory, record, hk, Ne.symm hk]
  | deletelist now k =>
    by_cases hk : key = k
    · simp [apply, Libstore.deletelist, record, hk]
    · simp [apply, Libstore.deletelist, record, hk, Ne.symm hk]
  | deleteinvalid now k value =>
    simp only [apply, Libstore.deleteinvalid]
    split <;> rfl
  | revokeLease k =>
    simp only [apply, Libstore.revokeLease]
    split
    · rfl
    · split <;> rfl

theorem LibCall.apply_mode (ls : Libstore) (c : LibCall) : (c.apply ls).mode = ls.mode := by
  cases c with
  | get k now reply =>
    rcases apply_get ls k now reply with heq | ⟨reply, heq⟩ <;> rw [heq]
    · rfl
    · exact Libstore.receive_mode ..
  | put k => rfl
  | deletelist now k => rfl
  | deleteinvalid now k value =>
    simp only [apply, Libstore.deleteinvalid]
    split <;> rfl
  | revokeLease k =>
    simp only [apply, Libstore.revokeLease]
    split
    · rfl
    · split <;> rfl

theorem Libstore.after_concat (ls : Libstore) (cs : List LibCall) (c : LibCall) :
    ls.after (cs ++ [c]) = c.apply (ls.after cs) := by
  simp [after]

theorem Libstore.after_mode (ls : Libstore) (cs : List LibCall) :
    (ls.after cs).mode = ls.mode := by
  induction cs using List.reverseRecOn with
  | nil => rfl
  | append_singleton cs c ih => rw [after_concat, LibCall.apply_mode, ih]

/-- The clock does not go back, and shows `now` at last. -/
def Timely (now : Int) (cs : List LibCall) : Prop :=
  (cs.filterMap LibCall.time ++ [now]).Pairwise (· ≤ ·)

instance (now : Int) (cs : List LibCall) : Decidable (Timely now cs) :=
  inferInstanceAs (Decidable (List.Pairwise _ _))

theorem Timely.queries_sorted {now : Int} {cs : List LibCall} (h : Timely now cs) (key : Key) :
    (queries key (sincePut key cs) ++ [now]).Pairwise (· ≤ ·) := by
  have hsub : (queries key cs).Sublist (cs.filterMap LibCall.time) := by
    unfold queries
    clear h
    induction cs with
    | nil => exact .slnil
    | cons c cs ih =>
      cases c with
      | get k t reply =>
        by_cases hk : k = key
        · simpa [LibCall.query, LibCall.time, hk] using ih
        · simpa [LibCall.query, LibCall.time, hk] using ih.cons t
      | put k => exact ih
      | deletelist t k => exact ih.cons t
      | deleteinvalid t k value => exact ih.cons t
      | revokeLease k => exact ih
  have hsince : (queries key (sincePut key cs)).Sublist (queries key cs) :=
    (List.dropWhile_sublist _).filterMap _
  exact h.sublist ((hsince.trans hsub).append (List.Sublist.refl _))

/-- A history of calls leaves what `Remembers` says. -/
theorem remembers_after {now : Int} {cs : List LibCall} (h : Timely now cs) (mode : LeaseMode)
    (connected : Bool) (key : Key) :
    Remembers now key cs (((Libstore.newLibstore mode connected).after cs).keyValudhistory key) := by
  induction cs using List.reverseRecOn generalizing now with
  | nil => exact (rfl : sincePut key [] = [])
  | append_singleton cs c ih =>
    rw [Libstore.after_concat, LibCall.apply_history]
    unfold Timely at h
    rw [List.filterMap_append] at h
    cases htime : c.time with
    | none =>
      simp only [List.filterMap_cons, htime, List.filterMap_nil, List.append_nil] at h
      have hsorted := (Timely.queries_sorted h key).sublist (List.sublist_append_left ..)
      exact (ih h).record hsorted fun t ht => by rw [htime] at ht; cases ht
    | some t =>
      simp only [List.filterMap_cons, htime, List.filterMap_nil] at h
      have ht : Timely t cs := h.sublist (List.sublist_append_left ..)
      have hle : t ≤ now := (List.pairwise_append.mp h).2.2 t (by simp) now (by simp)
      have hsorted := (ht.queries_sorted key).sublist (List.sublist_append_left ..)
      refine ((ih ht).record hsorted fun u hu => ?_).mono hle
      rw [htime] at hu
      exact (Option.some.inj hu).symm

/-! ## Asking for a lease -/

theorem get_server_want {ls : Libstore} {key : Key} {now : Int} {want : Bool}
    (h : (ls.get key now).2 = .server want) : want = (ls.lookup key now).wantLease key := by
  unfold Libstore.get at h
  split at h
  · cases h
  · exact (Source.server.inj h).symm

theorem wantLease_lookup {ls : Libstore} (hmode : ls.mode = .normal) (key : Key) (now : Int) :
    (ls.lookup key now).wantLease key = (ls.keyValudhistory key).any fun list =>
      decide (queryCacheThresh ≤ (Libstore.trim now list ++ [now]).length) := by
  unfold Libstore.wantLease
  rw [show (ls.lookup key now).mode = .normal from hmode]
  cases hhist : ls.keyValudhistory key <;> simp [Libstore.lookup, hhist]

theorem recent_append (now : Int) (xs ys : List Int) :
    recent now (xs ++ ys) = recent now xs ++ recent now ys :=
  List.filter_append ..

theorem recent_eq_nil {now : Int} {times : List Int} (h : ∀ t ∈ times, Expired now t) :
    recent now times = [] :=
  List.filter_eq_nil_iff.mpr fun t ht => by simpa using h t ht

theorem recent_eq_self {now : Int} {times : List Int} (h : ∀ t ∈ times, ¬ Expired now t) :
    recent now times = times :=
  List.filter_eq_self.mpr fun t ht => by simpa using h t ht

theorem not_expired_self (now : Int) : ¬ Expired now now := by
  unfold Expired addSeconds queryCacheSeconds
  omega

/-- A lease is wanted exactly if enough of the queries since the first `Put` are
recent, this one among them. -/
theorem want_iff_recorded {now : Int} {cs : List LibCall} (h : Timely now cs) (connected : Bool)
    {key : Key} {want : Bool}
    (hget : (((Libstore.newLibstore .normal connected).after cs).get key now).2 = .server want) :
    want = true ↔ sincePut key cs ≠ [] ∧
      queryCacheThresh ≤ (recent now (queries key (sincePut key cs) ++ [now])).length := by
  have hrem := remembers_after h .normal connected key
  have hmode := (Libstore.newLibstore .normal connected).after_mode cs
  rw [get_server_want hget]
  generalize (Libstore.newLibstore .normal connected).after cs = ls at hrem hmode
  rw [wantLease_lookup (hmode.trans rfl)]
  cases hhist : ls.keyValudhistory key with
  | none =>
    rw [hhist] at hrem
    exact ⟨fun hfalse => (Bool.false_ne_true hfalse).elim, fun hput => absurd hrem hput.1⟩
  | some list =>
    rw [hhist] at hrem
    have hsorted := (h.queries_sorted key).sublist (List.sublist_append_left ..)
    have hkept : ∀ t ∈ Libstore.trim now list, ¬ Expired now t := by
      obtain ⟨-, gone, heq, -⟩ := hrem
      rw [heq] at hsorted
      obtain ⟨-, -, -, hkept⟩ := trim_spec (List.pairwise_append.mp hsorted).2.1
      exact hkept
    obtain ⟨hsince, dropped, heq, hdrop⟩ := hrem.trim hsorted
    have hself : recent now [now] = [now] := recent_eq_self (by simpa using not_expired_self now)
    rw [heq, recent_append, recent_append, recent_eq_self hkept, hself]
    simp only [Option.any_some, decide_eq_true_eq, List.length_append, List.length_singleton]
    refine ⟨fun hlen => ⟨hsince, by omega⟩, fun ⟨_, hlen⟩ => ?_⟩
    rcases hdrop with hold | hmany
    · rw [recent_eq_nil hold] at hlen
      simpa using hlen
    · omega

/-- A lease is wanted exactly if the key is hot, as long as a hot key has enough
recent queries since the first `Put`, and only then; so when the queries from
before it are old. -/
theorem want_iff_hot {now : Int} {cs : List LibCall} (h : Timely now cs) (connected : Bool)
    {key : Key} {want : Bool}
    (hget : (((Libstore.newLibstore .normal connected).after cs).get key now).2 = .server want) :
    ((want = true ↔ queryCacheThresh ≤ (recent now (queries key cs ++ [now])).length) ↔
      (queryCacheThresh ≤ (recent now (queries key cs ++ [now])).length →
        queryCacheThresh ≤ (recent now (queries key (sincePut key cs) ++ [now])).length)) ∧
    ((∀ t ∈ queries key (untilPut key cs), Expired now t) →
      (want = true ↔ queryCacheThresh ≤ (recent now (queries key cs ++ [now])).length)) := by
  have hsplit : recent now (queries key cs ++ [now]) = recent now (queries key (untilPut key cs)) ++
      recent now (queries key (sincePut key cs) ++ [now]) := by
    unfold queries untilPut sincePut
    rw [← recent_append, ← List.append_assoc, ← List.filterMap_append,
      List.takeWhile_append_dropWhile]
  -- without a `Put` there is this query and no other
  have hput : queryCacheThresh ≤ (recent now (queries key (sincePut key cs) ++ [now])).length →
      sincePut key cs ≠ [] := by
    intro hlen hnil
    rw [hnil] at hlen
    have hle := hlen.trans (List.length_filter_le _ [now])
    unfold queryCacheThresh at hle
    simp at hle
  have hwant := want_iff_recorded h connected hget
  rw [hwant, and_iff_right_of_imp hput, hsplit, List.length_append]
  refine ⟨⟨fun hiff => hiff.mpr, fun himp => ⟨fun hrec => by omega, himp⟩⟩, fun hold => ?_⟩
  rw [recent_eq_nil hold, List.length_nil, Nat.zero_add]

/-- A `Put`, two `Get`s that find nothing, and a third. -/
theorem want_third_get :
    let cs : List LibCall := [.put "k", .get "k" 0 none, .get "k" 1 none]
    let ls := (Libstore.newLibstore .normal true).after cs
    (ls.get "k" 2).2 = .server true ∧
    queryCacheThresh ≤ (recent 2 (queries "k" cs ++ [2])).length :=
  ⟨by decide, ((want_iff_hot (by decide) true (by decide)).2 (by decide)).mp rfl⟩

/-- The same three `Get`s without the `Put`: three queries within two nanoseconds, and
the third does not want a lease. -/
theorem hot_key_without_put :
    let cs : List LibCall := [.get "k" 0 none, .get "k" 1 none]
    let ls := (Libstore.newLibstore .normal true).after cs
    Timely 2 cs ∧ (ls.get "k" 2).2 = .server false ∧
    queryCacheThresh ≤ (recent 2 (queries "k" cs ++ [2])).length := by
  decide

end Cmu440.Tribbler
