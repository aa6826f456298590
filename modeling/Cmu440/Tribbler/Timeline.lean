import Cmu440.Tribbler.Tribserver

/-!
# What a reader gets to see

`GetTribblesOneuser` reads the list of a user's tribbles and then, with a goroutine
for each, the tribbles on it; `GetTribblesBySubscription` does that for every user
on a list, with a goroutine for each of those. The results come out of the channels
in any order, are sorted by time, newest first, and cut at 100.

`oneuser_yields` is about any answers. The values arrive as some permutation of
what was read, and as long as each of them is a tribble the variable they are all
decoded into does not matter (`unmarshalAll_eq`).

When nobody writes and no read fails the answers are what is in the storage
(`Quiet`). The tribbles of a user are then those of `history`, in an order that
depends on the goroutines; sorting removes what the order can do, up to tribbles
with the same time (`feed_is_newest`).
-/
namespace Cmu440.Tribbler

open Prog Trib

/-- What a storage that nobody writes to answers, when no call fails. -/
def Quiet (w : Backend) : Answers Ask Ask.Reply :=
  fun q r => ∃ req c, c.fails = false ∧ w.op req c q = some (r, w)

theorem quiet_get {w : Backend} {key : Key} {r : String × Option String} :
    Quiet w (.get key) r ↔ r = w.read key := by
  constructor
  · rintro ⟨req, c, hc, hop⟩
    obtain ⟨-, ⟨-, hr⟩ | ⟨err, rfl | rfl, -⟩⟩ := Backend.op_get hop
    · exact hr
    · cases hc
    · cases hc
  · rintro rfl
    exact ⟨.getTribbles "", .done, rfl, rfl⟩

theorem quiet_getList {w : Backend} {key : Key} {r : List String × Option String} :
    Quiet w (.getList key) r ↔ r = w.readList key := by
  constructor
  · rintro ⟨req, c, hc, hop⟩
    obtain ⟨-, ⟨-, hr⟩ | ⟨err, rfl | rfl, -⟩⟩ := Backend.op_getList hop
    · exact hr
    · cases hc
    · cases hc
  · rintro rfl
    exact ⟨.getTribbles "", .done, rfl, rfl⟩

/-- Whatever does not write is answered. -/
theorem quiet_answers (w : Backend) {q : Ask} (h : q.writes = false) : ∃ r, Quiet w q r := by
  cases q with
  | get key => exact ⟨_, quiet_get.mpr rfl⟩
  | getList key => exact ⟨_, quiet_getList.mpr rfl⟩
  | now => exact ⟨(0 : Int), .getTribbles "", .time 0, rfl, rfl⟩
  | turn => exact ⟨true, .getTribbles "", .left true, rfl, rfl⟩
  | arrivals n =>
    refine ⟨⟨List.range n, .refl _⟩, .getTribbles "", .order (List.range n), rfl, ?_⟩
    exact dif_pos (List.Perm.refl _)
  | put key value => cases h
  | appendToList key item => cases h
  | removeFromList key item => cases h

/-! ## One user -/

/-- Among values that are all tribbles, the variable is always overwritten. -/
theorem unmarshalAll_eq {lib : GoLib} {values : List String}
    (h : ∀ value ∈ values, ∃ t, value = lib.marshal t) (tribble : Tribble) :
    unmarshalAll lib tribble values = values.map fun value => lib.unmarshal value zeroTribble := by
  induction values generalizing tribble with
  | nil => rfl
  | cons value values ih =>
    obtain ⟨t, rfl⟩ := h value List.mem_cons_self
    simp only [unmarshalAll, List.map_cons, lib.unmarshal_marshal]
    rw [ih (fun v hv => h v (List.mem_cons_of_mem _ hv)) t]

/-- What `GetTribblesOneuser` returns, whatever it was told. -/
theorem oneuser_yields {lib : GoLib} {A : Answers Ask Ask.Reply} {u : String}
    {result : Except String (List Tribble)} (h : Yields A (getTribblesOneuser lib u) result) :
    ∃ l err, A (.getList (tribbleListKey u)) (l, err) ∧
      (l ≠ [] ∧ err.isSome ∧ result = .error "error GetTribbles" ∨
      ∃ sent arrived,
        List.Forall₂ (fun id value => ∃ e, A (.get (tribbleKey u id)) (value, e)) l sent ∧
        arrived.Perm sent ∧ result = .ok (unmarshalAll lib zeroTribble arrived)) := by
  simp only [getTribblesOneuser, yields_bind, yields_getList, yields_ite, yields_pure] at h
  obtain ⟨⟨l, err⟩, hl, ⟨⟨hlen, herr⟩, rfl⟩ | ⟨-, arrived, harrived, rfl⟩⟩ := h
  · refine ⟨l, err, hl, .inl ⟨?_, herr, rfl⟩⟩
    rintro rfl
    exact hlen rfl
  · obtain ⟨sent, hsent, hperm⟩ := yields_fanOut harrived
    refine ⟨l, err, hl, .inr ⟨sent, arrived, ?_, hperm, rfl⟩⟩
    refine (List.forall₂_map_left_iff.mp hsent).imp fun id value hv => ?_
    simp only [getTribbleFromId, yields_bind, yields_get, yields_pure] at hv
    obtain ⟨⟨value', e⟩, hget, rfl⟩ := hv
    exact ⟨e, hget⟩

/-- The tribbles on the list of `u`, in the order of the list. -/
def history (lib : GoLib) (w : Backend) (u : String) : List Tribble :=
  (w.readList (tribbleListKey u)).1.map fun id =>
    lib.unmarshal (w.read (tribbleKey u id)).1 zeroTribble

/-- What is on the list of `u` is there, and is a tribble. -/
def Filed (lib : GoLib) (w : Backend) (u : String) : Prop :=
  ∀ id ∈ (w.readList (tribbleListKey u)).1,
    ∃ t, w.contents.values (tribbleKey u id) = some (lib.marshal t)

theorem Filed.read {lib : GoLib} {w : Backend} {u : String} (h : Filed lib w u) {id : String}
    (hid : id ∈ (w.readList (tribbleListKey u)).1) :
    ∃ t, w.read (tribbleKey u id) = (lib.marshal t, none) := by
  obtain ⟨t, ht⟩ := h id hid
  refine ⟨t, ?_⟩
  rw [Backend.read, ht]

theorem readList_snd (w : Backend) (key : Key) : (w.readList key).2 = none := by
  unfold Backend.readList
  split <;> rfl

/-- Undisturbed, it returns the user's tribbles in some order. -/
theorem oneuser_quiet {lib : GoLib} {w : Backend} {u : String} (hf : Filed lib w u)
    {result : Except String (List Tribble)}
    (h : Yields (Quiet w) (getTribblesOneuser lib u) result) :
    ∃ tribbles, result = .ok tribbles ∧ tribbles.Perm (history lib w u) := by
  obtain ⟨l, err, hl, hres⟩ := oneuser_yields h
  have hlist : (l, err) = w.readList (tribbleListKey u) := quiet_getList.mp hl
  have herr : err = none := (congrArg Prod.snd hlist).trans (readList_snd w _)
  rcases hres with ⟨-, hsome, -⟩ | ⟨sent, arrived, hsent, hperm, rfl⟩
  · rw [herr] at hsome
    cases hsome
  · have hl : (w.readList (tribbleListKey u)).1 = l := congrArg Prod.fst hlist.symm
    have hread : l.map (fun id => (w.read (tribbleKey u id)).1) = sent := by
      have := List.forall₂_map_left_iff.mpr (hsent.imp fun id value ⟨e, hv⟩ =>
        show (w.read (tribbleKey u id)).1 = value from (congrArg Prod.fst (quiet_get.mp hv)).symm)
      rwa [List.forall₂_eq_eq_eq] at this
    have hvalid : ∀ value ∈ arrived, ∃ t, value = lib.marshal t := by
      intro value hv
      rw [hperm.mem_iff, ← hread] at hv
      obtain ⟨id, hid, rfl⟩ := List.mem_map.mp hv
      obtain ⟨t, ht⟩ := hf.read (hl ▸ hid)
      exact ⟨t, congrArg Prod.fst ht⟩
    refine ⟨_, rfl, ?_⟩
    rw [unmarshalAll_eq hvalid, history, hl]
    refine (hperm.map _).trans ?_
    rw [← hread, List.map_map]
    rfl

theorem read_found {w : Backend} {key : Key} (h : (w.contents.values key).isSome) :
    (w.read key).2 = none := by
  obtain ⟨value, hv⟩ := Option.isSome_iff_exists.mp h
  rw [Backend.read, hv]

/-- And so does the reply, sorted and cut. -/
theorem getTribbles_quiet {lib : GoLib} {w : Backend} {u : String}
    (huser : (w.contents.values (userKey u)).isSome) (hf : Filed lib w u)
    {result : Except String TribReply} (h : Yields (Quiet w) (getTribbles lib u) result) :
    ∃ tribbles, result = .ok ⟨.ok, [], newest lib tribbles⟩ ∧
      tribbles.Perm (history lib w u) := by
  simp only [getTribbles, yields_bind, yields_get, yields_ite, yields_pure, quiet_get,
    exists_eq_left, read_found huser, Option.isSome_none, Bool.false_eq_true, false_and,
    not_false_eq_true, true_and, false_or] at h
  obtain ⟨one, hone, rfl⟩ := h
  obtain ⟨tribbles, rfl, hperm⟩ := oneuser_quiet hf hone
  exact ⟨tribbles, rfl, hperm⟩

theorem quiet_turn (w : Backend) (b : Bool) : Quiet w .turn b :=
  ⟨.getTribbles "", .left b, rfl, rfl⟩

theorem quiet_arrivals (w : Backend) {n : Nat} (order : { l : List Nat // l.Perm (List.range n) }) :
    Quiet w (.arrivals n) order :=
  ⟨.getTribbles "", .order order.1, rfl, dif_pos order.2⟩

/-- What `GetTribbles` replies depends on the user, the list and the tribbles on it. -/
theorem getTribbles_congr (lib : GoLib) {w w' : Backend} {u : String}
    (huser : w'.read (userKey u) = w.read (userKey u))
    (hlist : w'.readList (tribbleListKey u) = w.readList (tribbleListKey u))
    (htribbles : ∀ id ∈ (w.readList (tribbleListKey u)).1,
      w'.read (tribbleKey u id) = w.read (tribbleKey u id)) (result : Except String TribReply) :
    Yields (Quiet w') (getTribbles lib u) result ↔ Yields (Quiet w) (getTribbles lib u) result := by
  refine (yields_congr fun q hq r => ?_).symm
  rcases getTribbles_asks hq with rfl | hq
  · exact quiet_get.trans (huser ▸ quiet_get.symm)
  · rcases oneuser_asks hq with rfl | rfl | ⟨n, rfl⟩ | ⟨l, err, hl, id, hid, rfl⟩
    · exact quiet_getList.trans (hlist ▸ quiet_getList.symm)
    · exact iff_of_true (quiet_turn w r) (quiet_turn w' r)
    · exact iff_of_true (quiet_arrivals w r) (quiet_arrivals w' r)
    · have hl : (w.readList (tribbleListKey u)).1 = l := congrArg Prod.fst (quiet_getList.mp hl).symm
      exact quiet_get.trans (htribbles id (hl ▸ hid) ▸ quiet_get.symm)

/-! ## The newest hundred -/

/-- A sorted list of the same tribbles, and where it is cut. -/
theorem newest_spec (lib : GoLib) {tribbles all : List Tribble} (h : tribbles.Perm all) :
    (newest lib tribbles).length = min 100 all.length ∧
    (newest lib tribbles).Pairwise (fun a b => b.posted ≤ a.posted) ∧
    ∃ omitted, (newest lib tribbles ++ omitted).Perm all ∧
      ∀ t ∈ newest lib tribbles, ∀ o ∈ omitted, o.posted ≤ t.posted := by
  have hperm := (lib.sort_perm tribbles).trans h
  have hsorted := lib.sort_sorted tribbles
  have hsplit : newest lib tribbles ++ (lib.sort tribbles).drop 100 = lib.sort tribbles :=
    List.take_append_drop 100 _
  rw [← hsplit] at hsorted
  obtain ⟨hfront, -, hcut⟩ := List.pairwise_append.mp hsorted
  refine ⟨?_, hfront, (lib.sort tribbles).drop 100, ?_, hcut⟩
  · rw [newest, List.length_take, hperm.length_eq]
  · rw [hsplit]
    exact hperm

/-- Without two tribbles of the same time the order they come in does not matter. -/
theorem newest_congr (lib : GoLib) {tribbles tribbles' all : List Tribble} (h : tribbles.Perm all)
    (h' : tribbles'.Perm all) (hdistinct : (all.map Tribble.posted).Nodup) :
    newest lib tribbles = newest lib tribbles' := by
  have hperm := (lib.sort_perm tribbles).trans h
  have hperm' := (lib.sort_perm tribbles').trans h'
  have heq : lib.sort tribbles = lib.sort tribbles' := by
    refine List.Perm.eq_of_pairwise (fun a b ha hb hab hba => ?_) (lib.sort_sorted tribbles)
      (lib.sort_sorted tribbles') (hperm.trans hperm'.symm)
    exact List.inj_on_of_nodup_map hdistinct (hperm.mem_iff.mp ha) (hperm'.mem_iff.mp hb)
      (le_antisymm hba hab)
  rw [newest, newest, heq]

/-! ## Subscriptions -/

/-- All tribbles of the users that `u` has subscribed to. -/
def subscribed (lib : GoLib) (w : Backend) (u : String) : List Tribble :=
  (w.readList (subscribeListKey u)).1.flatMap (history lib w)

theorem bySubscription_quiet {lib : GoLib} {w : Backend} {u : String}
    (huser : (w.contents.values (userKey u)).isSome)
    (hfiled : ∀ v ∈ (w.readList (subscribeListKey u)).1, Filed lib w v)
    {result : Except String TribReply}
    (h : Yields (Quiet w) (getTribblesBySubscription lib u) result) :
    ∃ ans, result = .ok ⟨.ok, [], newest lib ans⟩ ∧ ans.Perm (subscribed lib w u) := by
  simp only [getTribblesBySubscription, yields_bind, yields_get, yields_getList, yields_ite,
    yields_pure, quiet_get, quiet_getList, exists_eq_left, read_found huser, readList_snd,
    Option.isSome_none, Bool.false_eq_true, and_false, false_and, not_false_eq_true, true_and,
    false_or] at h
  obtain ⟨arrived, harrived, rfl⟩ := h
  obtain ⟨sent, hsent, hperm⟩ := yields_fanOut harrived
  refine ⟨arrived.flatten, rfl, hperm.flatten.trans ?_⟩
  have hsent := List.forall₂_map_left_iff.mp hsent
  rw [subscribed, List.flatMap_def]
  refine (List.Perm.flatten_congr (List.forall₂_map_left_iff.mpr ?_)).symm
  refine ((List.forall₂_and_left _ _).mpr ⟨hfiled, hsent⟩).imp fun v tribbles hboth => ?_
  obtain ⟨hv, hone⟩ := hboth
  simp only [sendTribbles, yields_bind, yields_pure] at hone
  obtain ⟨result, hone, rfl⟩ := hone
  obtain ⟨tribbles, rfl, hperm⟩ := oneuser_quiet hv hone
  exact hperm.symm

/-- The feed of a user, with nobody writing and no read failing: whatever the goroutines
do, a reply comes; it has the newest hundred of all tribbles of the users subscribed
to, newest first; and it is the same one every time, if no two of those have the same time. -/
theorem feed_is_newest (lib : GoLib) (w : Backend) (u : String)
    (huser : (w.contents.values (userKey u)).isSome)
    (hfiled : ∀ v ∈ (w.readList (subscribeListKey u)).1, Filed lib w v) :
    (∃ result, Yields (Quiet w) (getTribblesBySubscription lib u) result) ∧
    (∀ result, Yields (Quiet w) (getTribblesBySubscription lib u) result →
      ∃ tribbles, result = .ok ⟨.ok, [], tribbles⟩ ∧
        tribbles.length = min 100 (subscribed lib w u).length ∧
        tribbles.Pairwise (fun a b => b.posted ≤ a.posted) ∧
        ∃ omitted, (tribbles ++ omitted).Perm (subscribed lib w u) ∧
          ∀ t ∈ tribbles, ∀ o ∈ omitted, o.posted ≤ t.posted) ∧
    (((subscribed lib w u).map Tribble.posted).Nodup → ∀ result result',
      Yields (Quiet w) (getTribblesBySubscription lib u) result →
      Yields (Quiet w) (getTribblesBySubscription lib u) result' → result = result') := by
  refine ⟨exists_yields fun q hq => quiet_answers w (bySubscription_reads hq), ?_, ?_⟩
  · intro result h
    obtain ⟨ans, rfl, hperm⟩ := bySubscription_quiet huser hfiled h
    exact ⟨_, rfl, newest_spec lib hperm⟩
  · intro hdistinct result result' h h'
    obtain ⟨ans, rfl, hperm⟩ := bySubscription_quiet huser hfiled h
    obtain ⟨ans', rfl, hperm'⟩ := bySubscription_quiet huser hfiled h'
    rw [newest_congr lib hperm hperm' hdistinct]

/-- A user who has subscribed to one with two tribbles. -/
def twoTribbles : Backend :=
  let c := Contents.empty.setValue (userKey "ann") (userKey "ann")
  let c := c.setValue (tribbleKey "bob" "1") (plainLib.marshal ⟨"bob", 1, "a"⟩)
  let c := c.setValue (tribbleKey "bob" "2") (plainLib.marshal ⟨"bob", 2, "b"⟩)
  let c := (c.append (subscribeListKey "ann") "bob").1
  let c := (c.append (tribbleListKey "bob") "1").1
  ⟨(c.append (tribbleListKey "bob") "2").1, []⟩

theorem feed_is_newest_two :
    subscribed plainLib twoTribbles "ann" = [⟨"bob", 1, "a"⟩, ⟨"bob", 2, "b"⟩] ∧
    (∃ result, Yields (Quiet twoTribbles) (getTribblesBySubscription plainLib "ann") result) ∧
    ∀ result result',
      Yields (Quiet twoTribbles) (getTribblesBySubscription plainLib "ann") result →
      Yields (Quiet twoTribbles) (getTribblesBySubscription plainLib "ann") result' →
      result = result' := by
  have hall : subscribed plainLib twoTribbles "ann" = [⟨"bob", 1, "a"⟩, ⟨"bob", 2, "b"⟩] := by
    decide +kernel
  have h := feed_is_newest plainLib twoTribbles "ann" (by decide +kernel) (by
    intro v hv id hid
    have hv : v = "bob" := List.mem_singleton.mp hv
    subst hv
    have hid : id ∈ ["1", "2"] := hid
    rcases List.mem_cons.mp hid with rfl | hid
    · exact ⟨⟨"bob", 1, "a"⟩, by decide +kernel⟩
    · rw [List.mem_singleton.mp hid]
      exact ⟨⟨"bob", 2, "b"⟩, by decide +kernel⟩)
  exact ⟨hall, h.1, h.2.2 (by rw [hall]; decide)⟩

end Cmu440.Tribbler
