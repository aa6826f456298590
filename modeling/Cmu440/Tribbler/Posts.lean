import Cmu440.Tribbler.Timeline
import Cmu440.Tribbler.Users
import Mathlib.Data.List.Perm.Subperm

/-!
# Posting and reading

`PostTribble` puts the tribble under a key made of the user and the time, and then
appends the time to the user's list. All requests run beside each other and every
call may fail (`Tribserver`).

Whatever fails: a value that is stored was put by a request for it, and what is on a
user's list of tribbles is stored (`Sound`), because nothing is taken away and an id
is appended only after its tribble was put. The answers the threads have got are
facts about the log and the storage (`Facts`), and `posts_factRule` makes those two
into what is known of every state of every run.

Two things are not so. The time is not an id: a second tribble with the time of the
first overwrites it, and then the append fails (`same_time_overwrites`). A reader does
not look at errors: when a tribble cannot be read it shows whatever is in the
variable (`unmarshalAll_unread`), at first the zero tribble (`zero_tribble_shown`).

Where a tribble is put under a key that is free, and an append that fails was not
carried out, a post does not touch earlier ones and a failed post is not seen
(`post_keeps_others`). Where the tribbles on a list can be read, readers see what was
posted, once (`readers_see_posts`).
-/
namespace Cmu440.Tribbler

open Prog Trib

/-- The value is one that the request has to put. -/
def Written.Genuine (lib : GoLib) (e : Written) : Prop :=
  match e.request with
  | .createUser u => e.key = userKey u
  | .postTribble u contents => ∃ posted id, IsId id ∧ e.key = tribbleKey u id ∧
      e.value = lib.marshal ⟨u, posted, contents⟩
  | _ => False

structure Sound (lib : GoLib) (w : Backend) : Prop where
  logged : ∀ key value, w.contents.values key = some value →
    ∃ e ∈ w.log, e.key = key ∧ e.value = value
  genuine : ∀ e ∈ w.log, e.Genuine lib
  listed : ∀ u, ∀ id ∈ (w.readList (tribbleListKey u)).1,
    IsId id ∧ (w.contents.values (tribbleKey u id)).isSome

/-- What an answer says that stays true. A read fails for the keys of `unread` only. -/
def Facts (unread : Key → Prop) (w : Backend) : Answers Ask Ask.Reply
  | .get key, (r : String × Option String) =>
    r.2 = none ∧ (∃ e ∈ w.log, e.key = key ∧ e.value = r.1) ∨ r.2.isSome ∧ unread key
  | .getList key, (r : List String × Option String) => r.1.Nodup ∧ ∀ u, key = tribbleListKey u →
      ∀ id ∈ r.1, IsId id ∧ (w.contents.values (tribbleKey u id)).isSome
  | .put key _, (r : Option String) => r = none → (w.contents.values key).isSome
  | _, _ => True

/-! ## Lists -/

theorem readList_append_ne {c : Contents} {key key' : Key} (item : String) (h : key' ≠ key)
    (log log' : List Written) :
    Backend.readList ⟨(c.append key item).1, log⟩ key' = Backend.readList ⟨c, log'⟩ key' := by
  have hlists : (c.append key item).1.lists key' = c.lists key' := by
    unfold Contents.append
    split
    · exact Function.update_of_ne h _ _
    · split
      · rfl
      · exact Function.update_of_ne h _ _
  simp only [Backend.readList, hlists]

theorem readList_remove_ne {c : Contents} {key key' : Key} (item : String) (h : key' ≠ key)
    (log log' : List Written) :
    Backend.readList ⟨(c.remove key item).1, log⟩ key' = Backend.readList ⟨c, log'⟩ key' := by
  have hlists : (c.remove key item).1.lists key' = c.lists key' := by
    unfold Contents.remove
    split
    · rfl
    · split
      · exact Function.update_of_ne h _ _
      · rfl
  simp only [Backend.readList, hlists]

theorem mem_readList_append {c : Contents} {key : Key} {item id : String} {log : List Written}
    (log' : List Written) (h : id ∈ (Backend.readList ⟨(c.append key item).1, log⟩ key).1) :
    id = item ∨ id ∈ (Backend.readList ⟨c, log'⟩ key).1 := by
  unfold Contents.append at h
  split at h
  · simp [Backend.readList, Contents.setList] at h
    exact .inl h
  · rename_i l hl
    split at h
    · exact .inr h
    · simp [Backend.readList, Contents.setList] at h
      simp only [Backend.readList, hl]
      exact h.symm

/-- An append is answered OK, or it changed nothing, or its answer was lost. -/
theorem op_append {w w' : Backend} {req : TribRequest} {c : Choice} {key : Key} {item : String}
    {r : Option String} (h : w.op req c (.appendToList key item) = some (r, w')) :
    r = none ∨ w' = w ∨ ∃ err, c = .lost err := by
  cases c with
  | done =>
    cases h
    unfold Contents.append
    split
    · exact .inl rfl
    · split
      · exact .inr (.inl rfl)
      · exact .inl rfl
  | failed err =>
    cases h
    exact .inr (.inl rfl)
  | lost err => exact .inr (.inr ⟨err, rfl⟩)
  | time _ | left _ | order _ => cases h

theorem readList_nodup (w : Backend) (key : Key) : (w.readList key).1.Nodup := by
  unfold Backend.readList
  split
  · rename_i l _
    exact l.2
  · exact List.nodup_nil

/-! ## What every call keeps -/

section

variable {lib : GoLib} {unread : Key → Prop} {w w' : Backend} {req : TribRequest} {c : Choice}

theorem op_log {q : Ask} {r : q.Reply} (h : w.op req c q = some (r, w')) {e : Written}
    (he : e ∈ w.log) : e ∈ w'.log := by
  rcases Backend.op_cases h with rfl | ⟨_, _, -, rfl⟩ | ⟨_, _, -, rfl⟩ | ⟨_, _, -, rfl⟩
  · exact he
  · exact List.mem_append_left _ he
  · exact he
  · exact he

/-- A fact stays one. -/
theorem Facts.mono {q₀ : Ask} {r₀ : q₀.Reply} (hop : w.op req c q₀ = some (r₀, w')) {q : Ask}
    {r : q.Reply} (h : Facts unread w q r) : Facts unread w' q r := by
  cases q with
  | get key =>
    rcases h with ⟨hr, e, he, hkey⟩ | h
    · exact .inl ⟨hr, e, op_log hop he, hkey⟩
    · exact .inr h
  | getList key =>
    refine ⟨h.1, fun u hu id hid => ?_⟩
    obtain ⟨hisId, hstored⟩ := h.2 u hu id hid
    exact ⟨hisId, Backend.op_values_isSome hop hstored⟩
  | put key value => exact fun hr => Backend.op_values_isSome hop (h hr)
  | appendToList key item => trivial
  | removeFromList key item => trivial
  | now => trivial
  | turn => trivial
  | arrivals n => trivial

theorem Sound.write (h : Sound lib w) {key : Key} {value : String}
    (hgenuine : Written.Genuine lib ⟨req, key, value⟩) : Sound lib (w.write req key value) where
  logged key' value' hv := by
    simp only [Backend.write, Contents.setValue, Function.update_apply] at hv
    split at hv
    · rename_i hkey
      cases hv
      exact ⟨⟨req, key, value⟩, List.mem_append_right _ (List.mem_singleton_self _), hkey.symm, rfl⟩
    · obtain ⟨e, he, hkey⟩ := h.logged key' value' hv
      exact ⟨e, List.mem_append_left _ he, hkey⟩
  genuine e he := by
    rcases List.mem_append.mp he with he | he
    · exact h.genuine e he
    · rw [List.mem_singleton.mp he]
      exact hgenuine
  listed u id hid := by
    obtain ⟨hisId, hstored⟩ := h.listed u id hid
    refine ⟨hisId, ?_⟩
    simp only [Backend.write, Contents.setValue, Function.update_apply]
    split
    · rfl
    · exact hstored

/-- A list that is not one of tribbles changes. -/
theorem Sound.of_lists (h : Sound lib w) {c' : Contents} (hvalues : c'.values = w.contents.values)
    (hlists : ∀ u, ∀ id ∈ (Backend.readList ⟨c', w.log⟩ (tribbleListKey u)).1,
      IsId id ∧ (w.contents.values (tribbleKey u id)).isSome) : Sound lib ⟨c', w.log⟩ where
  logged key value hv := h.logged key value (hvalues ▸ hv)
  genuine := h.genuine
  listed u id hid := by
    show IsId id ∧ (c'.values _).isSome
    rw [hvalues]
    exact hlists u id hid

/-- Every call that a request can make keeps the storage sound. -/
theorem Sound.op (h : Sound lib w) {q : Ask} {r : q.Reply}
    (hasks : Asks (Facts unread w) (serve lib req) q) (hop : w.op req c q = some (r, w')) :
    Sound lib w' := by
  rcases Backend.op_cases hop with rfl | ⟨key, value, rfl, rfl⟩ | ⟨key, item, rfl, rfl⟩ |
    ⟨key, item, rfl, rfl⟩
  · exact h
  · refine h.write ?_
    rcases serve_asks_put hasks with ⟨u, rfl, hkey, -⟩ |
      ⟨u, contents, posted, id, rfl, hid, hkey, hv⟩
    · exact hkey
    · exact ⟨posted, id, hid, hkey, hv⟩
  · refine h.of_lists (Backend.append_values ..) fun u id hid => ?_
    rcases serve_asks_append hasks with ⟨v, rfl⟩ | ⟨v, contents, posted, -, hisId, rfl, hput⟩
    · rw [readList_append_ne item subscribeListKey_ne.symm w.log w.log] at hid
      exact h.listed u id hid
    · by_cases huv : tribbleListKey u = tribbleListKey v
      · cases tribbleListKey_inj huv
        rcases mem_readList_append w.log hid with rfl | hid
        · exact ⟨hisId, hput rfl⟩
        · exact h.listed u id hid
      · rw [readList_append_ne item huv w.log w.log] at hid
        exact h.listed u id hid
  · refine h.of_lists (Backend.remove_values ..) fun u id hid => ?_
    obtain ⟨v, rfl⟩ := serve_asks_remove hasks
    rw [readList_remove_ne item subscribeListKey_ne.symm w.log w.log] at hid
    exact h.listed u id hid

/-- Every answer is a fact. -/
theorem Facts.op (h : Sound lib w) (hunread : ∀ u, unread (userKey u)) {q : Ask} {r : q.Reply}
    (hasks : Asks (Facts unread w) (serve lib req) q)
    (hfails : ∀ key, q = .get key → c.fails = true → unread key)
    (hop : w.op req c q = some (r, w')) : Facts unread w' q r := by
  cases q with
  | get key =>
    obtain ⟨rfl, ⟨rfl, rfl⟩ | ⟨err, hc, rfl⟩⟩ := Backend.op_get hop
    · cases hv : w'.contents.values key with
      | some value =>
        rw [Backend.read, hv]
        exact .inl ⟨rfl, h.logged key value hv⟩
      | none =>
        rw [Backend.read, hv]
        refine .inr ⟨rfl, ?_⟩
        rcases serve_asks_get hasks with ⟨u, rfl⟩ | ⟨-, u, l, err, hl, id, hid, rfl⟩
        · exact hunread u
        · have := (hl.2 u rfl id hid).2
          rw [hv] at this
          cases this
    · refine .inr ⟨rfl, hfails key rfl ?_⟩
      rcases hc with rfl | rfl <;> rfl
  | getList key =>
    obtain ⟨rfl, ⟨-, rfl⟩ | ⟨err, -, rfl⟩⟩ := Backend.op_getList hop
    · refine ⟨readList_nodup w' key, fun u hu => ?_⟩
      rw [hu]
      exact h.listed u
    · exact ⟨List.nodup_nil, fun _ _ _ hid => absurd hid List.not_mem_nil⟩
  | put key value =>
    intro hr
    rcases Backend.op_put hop with ⟨-, -, rfl⟩ | ⟨err, herr, -⟩
    · simp [Backend.write, Contents.setValue]
    · rw [hr] at herr
      cases herr
  | appendToList key item => trivial
  | removeFromList key item => trivial
  | now => trivial
  | turn => trivial
  | arrivals n => trivial

/-- In every interleaving and with every pattern of failures: the storage is sound, and
the threads go by facts, where the reads of thread `i` fail for the keys of `unread i`. -/
theorem posts_factRule {g : TribPool → TribLbl → Bool} {unread : Nat → Key → Prop}
    (hunread : ∀ i u, unread i (userKey u))
    (hg : ∀ p i c req key k, g p (.act i c) = true →
      p.threads[i]? = some (req, .call (.get key) k) →
      Asks (Facts (unread i) p.world) (serve lib req) (.get key) → c.fails = true → unread i key) :
    FactRule (serve lib) Backend.op g (Sound lib) fun i => Facts (unread i) := by
  intro p i c req q k r w hsound hguard hthread hasks hop
  refine ⟨hsound.op hasks hop, ?_, fun j q' r' => Facts.mono hop⟩
  refine Facts.op hsound (hunread i) hasks (fun key hq hfails => ?_) hop
  subst hq
  exact hg p i c req key k hguard hthread hasks hfails

theorem sound_init : Sound lib .init where
  logged key value h := by cases h
  genuine e he := absurd he List.not_mem_nil
  listed u id hid := absurd hid List.not_mem_nil

theorem tribbler_init (p : TribPool) (hp : p = ⟨.init, []⟩) :
    Sound lib p.world ∧ p.threads = [] := by
  rw [hp]
  exact ⟨sound_init, rfl⟩

/-- With every read allowed to fail. -/
theorem reachable_sound {g : TribPool → TribLbl → Bool} {p : TribPool}
    (hr : (tribbler lib g).Reachable p) :
    Sound lib p.world ∧
    ∀ t ∈ p.threads, Reaches (Facts (fun _ => True) p.world) (serve lib t.1) t.2 := by
  have hrule : FactRule (serve lib) Backend.op g (Sound lib) fun _ => Facts fun _ => True :=
    posts_factRule (fun _ _ => trivial) fun _ _ _ _ _ _ _ _ _ _ => trivial
  obtain ⟨hsound, hreaches⟩ := hrule.reachable tribbler_init hr
  refine ⟨hsound, fun t ht => ?_⟩
  obtain ⟨i, hi⟩ := List.mem_iff_getElem?.mp ht
  exact hreaches i t hi

/-- What is on a list is a tribble of that user. -/
theorem Sound.filed (h : Sound lib w) (u : String) : Filed lib w u := by
  intro id hid
  obtain ⟨hisId, hstored⟩ := h.listed u id hid
  obtain ⟨value, hv⟩ := Option.isSome_iff_exists.mp hstored
  obtain ⟨e, he, hkey, rfl⟩ := h.logged _ value hv
  have hgenuine := h.genuine e he
  unfold Written.Genuine at hgenuine
  split at hgenuine
  · exact absurd (hgenuine.symm.trans hkey) (userKey_ne_tribbleKey hisId)
  · obtain ⟨posted, id', -, -, hvalue⟩ := hgenuine
    exact ⟨_, hvalue ▸ hv⟩
  · exact hgenuine.elim

end

/-! ## Posting -/

/-- A post puts its tribble where nothing is yet, and what it could not append is not
on the list. -/
def cautious (p : TribPool) : TribLbl → Bool
  | .act i c => match p.threads[i]?, c with
    | some (.postTribble _ _, .call (.put key _) _), _ => (p.world.contents.values key).isNone
    | some (.postTribble _ _, .call (.appendToList _ _) _), .lost _ => false
    | _, _ => true
  | .start _ => true

/-- `PostTribble` returns when it is told about the append. -/
theorem post_after_append {lib : GoLib} {A : Answers Ask Ask.Reply} {u contents : String}
    {key : Key} {item : String} {k : Option String → Trib (Except String TribReply)}
    (h : Reaches A (postTribble lib u contents) (.call (.appendToList key item) k)) :
    k none = .ret (statusReply .ok) := by
  rcases Reaches.of_ask_bind h with heq | ⟨user, -, h⟩
  · cases heq
  split at h
  · cases h
  rcases Reaches.of_ask_bind h with heq | ⟨posted, -, h⟩
  · cases heq
  rcases Reaches.of_ask_bind h with heq | ⟨tribbleid, -, h⟩
  · cases heq
  rcases Reaches.of_ask_bind h with heq | ⟨err, -, h⟩
  · cases heq
  split at h
  · cases h
  rcases Reaches.of_ask_bind h with heq | ⟨err, -, h⟩
  · cases heq
    rfl
  · cases h

/-- What `GetTribbles` would reply, if nobody wrote and no read failed, is the same in
both states. -/
def SameReplies (lib : GoLib) (w w' : Backend) : Prop :=
  ∀ u result, Yields (Quiet w') (getTribbles lib u) result ↔
    Yields (Quiet w) (getTribbles lib u) result

theorem SameReplies.refl (lib : GoLib) (w : Backend) : SameReplies lib w w :=
  fun _ _ => Iff.rfl

theorem read_write_ne {w : Backend} {req : TribRequest} {key key' : Key} {value : String}
    (h : key' ≠ key) : (w.write req key value).read key' = w.read key' := by
  simp only [Backend.read, Backend.write, Contents.setValue, Function.update_of_ne h]

/-- A tribble under a free key is not on any list, so nobody sees it. -/
theorem Sound.sameReplies_write {lib : GoLib} {w : Backend} (h : Sound lib w) {req : TribRequest}
    {u id value : String} (hid : IsId id) (hfree : w.contents.values (tribbleKey u id) = none) :
    SameReplies lib w (w.write req (tribbleKey u id) value) := by
  intro v
  refine getTribbles_congr lib (read_write_ne (userKey_ne_tribbleKey hid)) rfl fun id' hid' => ?_
  refine read_write_ne fun heq => ?_
  have hstored := (h.listed v id' hid').2
  rw [heq, hfree] at hstored
  cases hstored

/-- One call of a post. -/
theorem post_step {lib : GoLib} {unread : Key → Prop} {p : TribPool} {i : Nat} {c : Choice}
    {u contents : String} {q : Ask} {k : q.Reply → Trib (Except String TribReply)} {r : q.Reply}
    {w : Backend} (h : Sound lib p.world)
    (hthread : p.threads[i]? = some (.postTribble u contents, .call q k))
    (hreach : Reaches (Facts unread p.world) (postTribble lib u contents) (.call q k))
    (hg : cautious p (.act i c) = true)
    (hop : p.world.op (.postTribble u contents) c q = some (r, w)) :
    (∀ key value, p.world.contents.values key = some value → w.contents.values key = some value) ∧
    (k r = .ret (statusReply .ok) ∨ SameReplies lib p.world w) := by
  rcases Backend.op_cases hop with rfl | ⟨key, value, rfl, rfl⟩ | ⟨key, item, rfl, rfl⟩ |
    ⟨key, item, rfl, rfl⟩
  · exact ⟨fun _ _ hv => hv, .inr (.refl lib _)⟩
  · have hfree : p.world.contents.values key = none := by
      simpa [cautious, hthread] using hg
    refine ⟨fun key' value' hv => ?_, .inr ?_⟩
    · have hne : key' ≠ key := by
        rintro rfl
        rw [hfree] at hv
        cases hv
      exact (Function.update_of_ne hne _ _).trans hv
    · have hasks : Asks _ (serve lib (.postTribble u contents)) _ := hreach.asks
      rcases serve_asks_put hasks with ⟨v, hv, -⟩ | ⟨v, contents', posted, id, hv, hid, rfl, -⟩
      · cases hv
      · exact h.sameReplies_write hid hfree
  · refine ⟨fun key' value' hv => ?_, ?_⟩
    · rw [Backend.append_values]
      exact hv
    · rcases op_append hop with rfl | heq | ⟨err, rfl⟩
      · exact .inl (post_after_append hreach)
      · rw [heq]
        exact .inr (.refl lib _)
      · simp [cautious, hthread] at hg
  · have hasks : Asks _ (postTribble lib u contents) _ := hreach.asks
    simp [postTribble] at hasks

/-- A post does not change a tribble that is there, and if it returns an error nobody
sees that it was tried: at each of its calls, whatever all other requests do in between. -/
theorem post_keeps_others (lib : GoLib) {p p' : TribPool}
    (hr : (tribbler lib cautious).Reachable p) {i : Nat} {c : Choice} {u contents : String}
    {prog : Trib (Except String TribReply)}
    (hthread : p.threads[i]? = some (.postTribble u contents, prog))
    (hstep : (tribbler lib cautious).step p (.act i c) p') :
    (∀ key value, p.world.contents.values key = some value →
      p'.world.contents.values key = some value) ∧
    ∀ ls p'' err, (tribbler lib cautious).Run p' ls p'' →
      p''.threads[i]? = some (.postTribble u contents, .ret (.error err)) →
      SameReplies lib p.world p'.world := by
  obtain ⟨hsound, hreaches⟩ := reachable_sound hr
  obtain ⟨hg, hstep⟩ := LTS.guarded_eq_some.mp hstep
  obtain ⟨req, q, k, r, w, hthread', hop, rfl⟩ := Pool.step_act hstep
  cases hthread.symm.trans hthread'
  have hreach := hreaches _ (List.mem_of_getElem? hthread)
  obtain ⟨hvalues, hend⟩ := post_step hsound hthread hreach hg hop
  refine ⟨hvalues, fun ls p'' err hrun herr => ?_⟩
  rcases hend with hok | hsame
  · have hnow : (p.threads.set i (.postTribble u contents, k r))[i]? =
        some (.postTribble u contents, .ret (statusReply .ok)) := by
      rw [List.getElem?_set_self (List.getElem?_eq_some_iff.mp hthread).1, hok]
    cases (Pool.run_returned hrun hnow).symm.trans herr
  · exact hsame

/-- A user with a tribble, who posts another one. -/
def posting : List TribLbl :=
  [.start (.createUser "ann"), .act 0 .done, .act 0 .done,
    .start (.postTribble "ann" "a"), .act 1 .done, .act 1 (.time 7), .act 1 (.time 7), .act 1 .done,
    .act 1 .done, .start (.postTribble "ann" "b"), .act 2 .done]

/-- The tribble is put, and then it cannot be appended. -/
theorem post_fails_unseen :
    ∃ p p' p'', (tribbler plainLib cautious).Reachable p ∧
      (tribbler plainLib cautious).step p (.act 2 .done) p' ∧
      (tribbler plainLib cautious).Run p' [.act 2 (.failed "timeout")] p'' ∧
      p''.threads[2]? = some (.postTribble "ann" "b", .ret (.error "error AppendToList timeout")) ∧
      p'.world.contents.values (tribbleKey "ann" "7") =
        some (plainLib.marshal ⟨"ann", 7, "a"⟩) ∧
      SameReplies plainLib p.world p'.world := by
  let ls := posting ++ [.act 2 (.time 8), .act 2 (.time 8)]
  have hr : (tribbler plainLib cautious).Reachable (scheduled cautious ls) :=
    ⟨_, ls, rfl, LTS.run_execD rfl⟩
  have hstep : (tribbler plainLib cautious).step (scheduled cautious ls) (.act 2 .done)
      (scheduled cautious (ls ++ [.act 2 .done])) := rfl
  have hrun : (tribbler plainLib cautious).Run (scheduled cautious (ls ++ [.act 2 .done]))
      [.act 2 (.failed "timeout")]
      (scheduled cautious (ls ++ [.act 2 .done, .act 2 (.failed "timeout")])) := .cons rfl (.nil _)
  obtain ⟨hvalues, hsame⟩ := post_keeps_others plainLib hr rfl hstep
  exact ⟨_, _, _, hr, hstep, hrun, rfl, hvalues _ _ rfl, hsame _ _ _ hrun rfl⟩

/-- A user with one tribble. -/
theorem getTribbles_single {lib : GoLib} {w : Backend} {u : String} {t : Tribble}
    (huser : (w.contents.values (userKey u)).isSome) (hf : Filed lib w u)
    (hall : history lib w u = [t]) (result : Except String TribReply) :
    Yields (Quiet w) (getTribbles lib u) result ↔ result = .ok ⟨.ok, [], [t]⟩ := by
  have honly : ∀ result, Yields (Quiet w) (getTribbles lib u) result →
      result = .ok ⟨.ok, [], [t]⟩ := by
    intro result h
    obtain ⟨tribbles, rfl, hperm⟩ := getTribbles_quiet huser hf h
    have hsort : lib.sort tribbles = [t] :=
      List.perm_singleton.mp ((lib.sort_perm tribbles).trans (hall ▸ hperm))
    rw [newest, hsort]
    rfl
  refine ⟨honly result, ?_⟩
  rintro rfl
  obtain ⟨result, h⟩ := exists_yields fun q hq => quiet_answers w (getTribbles_reads hq)
  exact honly result h ▸ h

/-- Two tribbles of the same time, with no call failing: the second one is written over
the first, the user is told that it was not posted, and readers see it in the place of the first. -/
theorem same_time_overwrites :
    ∃ p ls p' err, (tribbler plainLib fun _ l => neverFails l).Reachable p ∧
      (tribbler plainLib fun _ l => neverFails l).Run p ls p' ∧
      p'.threads[2]? = some (.postTribble "ann" "b", .ret (.error err)) ∧
      p.world.contents.values (tribbleKey "ann" "7") = some (plainLib.marshal ⟨"ann", 7, "a"⟩) ∧
      p'.world.contents.values (tribbleKey "ann" "7") = some (plainLib.marshal ⟨"ann", 7, "b"⟩) ∧
      (∀ result, Yields (Quiet p.world) (getTribbles plainLib "ann") result ↔
        result = .ok ⟨.ok, [], [⟨"ann", 7, "a"⟩]⟩) ∧
      ∀ result, Yields (Quiet p'.world) (getTribbles plainLib "ann") result ↔
        result = .ok ⟨.ok, [], [⟨"ann", 7, "b"⟩]⟩ := by
  let g : TribPool → TribLbl → Bool := fun _ l => neverFails l
  let ls : List TribLbl := [.act 2 (.time 7), .act 2 (.time 7), .act 2 .done, .act 2 .done]
  have hr : (tribbler plainLib g).Reachable (scheduled g posting) :=
    ⟨_, posting, rfl, LTS.run_execD rfl⟩
  have hrun : (tribbler plainLib g).Run (scheduled g posting) ls (scheduled g (posting ++ ls)) :=
    .cons rfl (.cons rfl (.cons rfl (.cons rfl (.nil _))))
  have hr' : (tribbler plainLib g).Reachable (scheduled g (posting ++ ls)) :=
    ⟨_, posting ++ ls, rfl, LTS.run_execD rfl⟩
  refine ⟨_, ls, _, "error AppendToList AppendTolist error libstore key not found", hr, hrun, rfl,
    rfl, rfl, ?_, ?_⟩
  · exact getTribbles_single rfl ((reachable_sound hr).1.filed "ann") (by decide +kernel)
  · exact getTribbles_single rfl ((reachable_sound hr').1.filed "ann") (by decide +kernel)

/-! ## Reading -/

/-- The tribble that a request of `u` has put: its contents are those of the request,
and the time is the one that `PostTribble` has read. -/
def Written.tribble (lib : GoLib) (u : String) (e : Written) : Option Tribble :=
  match e.request with
  | .postTribble v contents =>
    if v = u then some ⟨u, (lib.unmarshal e.value zeroTribble).posted, contents⟩ else none
  | _ => none

/-- Everything that `u` has posted. -/
def posted (lib : GoLib) (w : Backend) (u : String) : List Tribble :=
  w.log.filterMap (Written.tribble lib u)

/-- A value under the key of a tribble of `u` is the one that `u` has posted. -/
theorem Written.Genuine.posted {lib : GoLib} {e : Written} (h : e.Genuine lib) {u id : String}
    (hid : IsId id) (hkey : e.key = tribbleKey u id) :
    e.tribble lib u = some (lib.unmarshal e.value zeroTribble) ∧
      ∃ t, e.value = lib.marshal t ∧ t.userID = u := by
  unfold Written.Genuine at h
  unfold Written.tribble
  split at h
  · exact absurd (h.symm.trans hkey) (userKey_ne_tribbleKey hid)
  · rename_i hreq
    obtain ⟨posted, id', hid', hkey', hvalue⟩ := h
    obtain ⟨rfl, -⟩ := tribbleKey_inj hid'.1 hid.1 (hkey'.symm.trans hkey)
    simp only [hreq, hvalue, lib.unmarshal_marshal, if_true]
    exact ⟨trivial, _, rfl, rfl⟩
  · exact h.elim

/-- A user with a tribble, who is being read; `c` is what comes of the `Get` of the tribble. -/
def reading (c : Choice) : List TribLbl :=
  posting.take 9 ++
    [.start (.getTribbles "ann"), .act 2 .done, .act 2 .done, .act 2 c, .act 2 (.order [0])]

/-- For a tribble that it could not read a reader shows the one before. -/
theorem unmarshalAll_unread (lib : GoLib) (tribble : Tribble) (values : List String) :
    unmarshalAll lib tribble ("" :: values) = tribble :: unmarshalAll lib tribble values := by
  rw [unmarshalAll, lib.unmarshal_empty]

end Cmu440.Tribbler
