import Cmu440.Core.Exchange
import Cmu440.Core.Threads
import Cmu440.Tribbler.Store
import Mathlib.Data.List.Induction

/-!
# The tribserver

p2/src/github.com/cmu440/tribbler/tribserver/tribserver_impl.go. A tribserver has
no state of its own: users, tribbles and subscriptions are in the storage, and each
operation is a few calls of the libstore. So an operation is a `Prog` that asks:
the libstore for a value or a list, the clock for the time, and the scheduler which
of its goroutines is next and in which order their results come out of a channel.
A libstore call answers what it returns in Go, a result and an error or nil.

`json.Marshal`, `json.Unmarshal` and `sort.Sort` are parameters (`GoLib`). Decoding
writes over a variable: what is not valid leaves it as it was.

The storage is a `Contents`, which is what the storage servers are meant to be
(`storage_conforms`). The requests of any number of tribservers run on it beside
each other; every call is atomic, may fail, and may fail after it was carried out
(`Choice`). The log of the writes is there for the statements only.
-/
namespace Cmu440.Tribbler

open Prog

/-- mirrors rpc/tribrpc/proto.go, `Status` -/
inductive TribStatus
  | ok
  | noSuchUser
  | noSuchTargetUser
  | alreadyExists
  deriving DecidableEq, Repr

/-- mirrors rpc/tribrpc/proto.go, `Tribble`; a time is in nanoseconds -/
structure Tribble where
  userID : String
  posted : Int
  contents : String
  deriving DecidableEq, Repr

/-- The replies of all operations; each sets the fields its own reply type has. -/
structure TribReply where
  status : TribStatus
  userIDs : List String
  tribbles : List Tribble
  deriving DecidableEq, Repr

/-- `var tribble tribrpc.Tribble`; the zero `time.Time` is the first of January of the year 1. -/
def zeroTribble : Tribble := ⟨"", -62135596800000000000, ""⟩

/-- What the packages encoding/json and sort are used for. `Less` is `Posted.After`. -/
structure GoLib where
  marshal : Tribble → String
  unmarshal : String → Tribble → Tribble
  sort : List Tribble → List Tribble
  unmarshal_marshal : ∀ t previous, unmarshal (marshal t) previous = t
  unmarshal_empty : ∀ previous, unmarshal "" previous = previous
  sort_perm : ∀ l, (sort l).Perm l
  sort_sorted : ∀ l, (sort l).Pairwise fun a b => b.posted ≤ a.posted

/-! ## A codec to run with

Numbers in unary, strings behind their lengths, and the sort of `Core.Exchange`. It
shows that a `GoLib` can be had, and definitions evaluate with it. -/

def unary (n : Nat) : List Char := List.replicate n '1' ++ ['0']

def readUnary (cs : List Char) : Nat × List Char :=
  ((cs.takeWhile (· = '1')).length, (cs.dropWhile (· = '1')).drop 1)

theorem readUnary_unary (n : Nat) (cs : List Char) : readUnary (unary n ++ cs) = (n, cs) := by
  have htake : (unary n ++ cs).takeWhile (· = '1') = List.replicate n '1' := by
    rw [unary, List.append_assoc, List.takeWhile_append_of_pos (by simp)]
    simp
  have hdrop : (unary n ++ cs).dropWhile (· = '1') = '0' :: cs := by
    rw [unary, List.append_assoc, List.dropWhile_append_of_pos (by simp)]
    simp
  rw [readUnary, htake, hdrop, List.length_replicate]
  rfl

def encodeTribble (t : Tribble) : List Char :=
  unary t.posted.toNat ++ (unary (-t.posted).toNat ++ (unary t.userID.toList.length ++
    (t.userID.toList ++ t.contents.toList)))

def decodeTribble (cs : List Char) : Tribble :=
  let (after, cs) := readUnary cs
  let (before, cs) := readUnary cs
  let (n, cs) := readUnary cs
  ⟨.ofList (cs.take n), after - before, .ofList (cs.drop n)⟩

theorem decodeTribble_encodeTribble (t : Tribble) : decodeTribble (encodeTribble t) = t := by
  simp only [decodeTribble, encodeTribble, readUnary_unary, List.take_left, List.drop_left,
    String.ofList_toList, Int.toNat_sub_toNat_neg]

theorem encodeTribble_ne_nil (t : Tribble) : encodeTribble t ≠ [] := by
  simp [encodeTribble, unary]

def plainLib : GoLib where
  marshal t := .ofList (encodeTribble t)
  unmarshal value previous := if value.toList = [] then previous else decodeTribble value.toList
  sort l := Exchange.sort (fun t => -t.posted) l.length l
  unmarshal_marshal t previous := by
    rw [String.toList_ofList, if_neg (encodeTribble_ne_nil t), decodeTribble_encodeTribble]
  unmarshal_empty previous := rfl
  sort_perm l := Exchange.sort_perm _ _ l
  sort_sorted l :=
    (Exchange.sort_sorted (fun t : Tribble => -t.posted) (Nat.le_refl l.length)).imp fun h =>
      Int.neg_le_neg_iff.mp h

/-! ## Questions -/

/-- What an operation asks for. -/
inductive Ask
  | get (key : Key)
  | put (key : Key) (value : String)
  | getList (key : Key)
  | appendToList (key : Key) (newItem : String)
  | removeFromList (key : Key) (removeItem : String)
  | now
  | turn
  | arrivals (n : Nat)
  deriving DecidableEq

/-- What it is told. `arrivals n` is the order in which `n` results are received. -/
def Ask.Reply : Ask → Type
  | get _ => String × Option String
  | put _ _ => Option String
  | getList _ => List String × Option String
  | appendToList _ _ => Option String
  | removeFromList _ _ => Option String
  | now => Int
  | turn => Bool
  | arrivals n => { order : List Nat // order.Perm (List.range n) }

abbrev Trib (α : Type) : Type := Prog Ask Ask.Reply α

namespace Trib

def get (key : Key) : Trib (String × Option String) := ask (Ask.get key)

def put (key : Key) (value : String) : Trib (Option String) := ask (Ask.put key value)

def getList (key : Key) : Trib (List String × Option String) := ask (Ask.getList key)

def appendToList (key : Key) (newItem : String) : Trib (Option String) :=
  ask (Ask.appendToList key newItem)

def removeFromList (key : Key) (removeItem : String) : Trib (Option String) :=
  ask (Ask.removeFromList key removeItem)

def now : Trib Int := ask Ask.now

/-- Goroutines that each send one result to a channel, and a loop that receives
them all. -/
def fanOut {α : Type} (ps : List (Trib α)) : Trib (List α) := do
  let results ← gather Ask.turn id ps
  let order ← (ask (Ask.arrivals results.length) :
    Trib { order : List Nat // order.Perm (List.range results.length) })
  return order.1.filterMap (results[·]?)

theorem filterMap_range {α : Type} (l : List α) :
    (List.range l.length).filterMap (l[·]?) = l := by
  induction l using List.reverseRecOn with
  | nil => rfl
  | append_singleton l a ih =>
    have hfront : (List.range l.length).filterMap ((l ++ [a])[·]?) = l := by
      refine (List.filterMap_congr fun i hi => ?_).trans ih
      exact List.getElem?_append_left (List.mem_range.mp hi)
    rw [List.length_append, List.length_singleton, List.range_succ, List.filterMap_append, hfront]
    simp

section

variable {A : Answers Ask Ask.Reply} {q : Ask} {key : Key}

@[simp] theorem yields_get {r : String × Option String} :
    Yields A (get key) r ↔ A (.get key) r := yields_ask

@[simp] theorem asks_get : Asks A (get key) q ↔ .get key = q := asks_ask

@[simp] theorem yields_put {value : String} {r : Option String} :
    Yields A (put key value) r ↔ A (.put key value) r := yields_ask

@[simp] theorem asks_put {value : String} :
    Asks A (put key value) q ↔ .put key value = q := asks_ask

@[simp] theorem yields_getList {r : List String × Option String} :
    Yields A (getList key) r ↔ A (.getList key) r := yields_ask

@[simp] theorem asks_getList :
    Asks A (getList key) q ↔ .getList key = q := asks_ask

@[simp] theorem asks_appendToList {newItem : String} :
    Asks A (appendToList key newItem) q ↔ .appendToList key newItem = q := asks_ask

@[simp] theorem asks_removeFromList {removeItem : String} :
    Asks A (removeFromList key removeItem) q ↔ .removeFromList key removeItem = q := asks_ask

@[simp] theorem asks_now : Asks A now q ↔ .now = q := asks_ask

/-- The results, in some order. -/
theorem yields_fanOut {α : Type} {ps : List (Trib α)} {results : List α}
    (h : Yields A (fanOut ps) results) :
    ∃ sent, List.Forall₂ (Yields A) ps sent ∧ results.Perm sent := by
  obtain ⟨sent, hsent, h⟩ := yields_bind.mp h
  obtain ⟨order, -, h⟩ := yields_bind.mp h
  cases yields_pure.mp h
  refine ⟨sent, yields_gather hsent, (order.2.filterMap _).trans ?_⟩
  rw [filterMap_range]

theorem asks_fanOut {α : Type} {ps : List (Trib α)} (h : Asks A (fanOut ps) q) :
    q = .turn ∨ (∃ n, q = .arrivals n) ∨ ∃ p ∈ ps, Asks A p q := by
  rcases asks_bind.mp h with h | ⟨sent, -, h⟩
  · rcases asks_gather h with h | h
    · exact .inl h.symm
    · exact .inr (.inr h)
  · rcases asks_bind.mp h with h | ⟨_, _, h⟩
    · exact .inr (.inl ⟨_, (asks_ask.mp h).symm⟩)
    · exact (asks_pure h).elim

end

end Trib

/-! ## Operations -/

def userKey (userID : String) : Key := userID ++ ":" ++ "user"

def subscribeListKey (userID : String) : Key := userID ++ ":" ++ "subscribe_list"

def tribbleListKey (userID : String) : Key := userID ++ ":" ++ "tribble_list"

def tribbleKey (userID tribbleId : String) : Key := userID ++ ":" ++ tribbleId

/-- A reply with a status and nothing else. -/
def statusReply (status : TribStatus) : Except String TribReply := .ok ⟨status, [], []⟩

open Trib

/-- mirrors tribserver_impl.go:89-101 -/
def createUser (userID : String) : Trib (Except String TribReply) := do
  let key := userKey userID
  let found ← get key
  if found.2.isSome then
    let _ ← put key key
    return statusReply .ok
  else return statusReply .alreadyExists

/-- Both users are looked up, then the list of the first is changed. -/
def changeSubscription (change : Key → String → Trib (Option String)) (refused : TribStatus)
    (userID targetUserID : String) : Trib (Except String TribReply) := do
  let user ← get (userKey userID)
  let target ← get (userKey targetUserID)
  if user.2.isSome then return statusReply .noSuchUser
  else if target.2.isSome then return statusReply .noSuchTargetUser
  else
    let err ← change (subscribeListKey userID) targetUserID
    return statusReply (if err.isSome then refused else .ok)

/-- mirrors tribserver_impl.go:103-122 -/
def addSubscription (userID targetUserID : String) : Trib (Except String TribReply) :=
  changeSubscription appendToList .alreadyExists userID targetUserID

/-- mirrors tribserver_impl.go:124-144 -/
def removeSubscription (userID targetUserID : String) : Trib (Except String TribReply) :=
  changeSubscription removeFromList .noSuchTargetUser userID targetUserID

/-- mirrors tribserver_impl.go:146-163 -/
def getSubscriptions (userID : String) : Trib (Except String TribReply) := do
  let user ← get (userKey userID)
  if user.2.isSome then return statusReply .noSuchUser
  else
    let value ← getList (subscribeListKey userID)
    return match value.2 with
      | some err => .error err
      | none => .ok ⟨.ok, value.1, []⟩

section

variable (lib : GoLib)

/-- mirrors tribserver_impl.go:165-191 -/
def postTribble (userID contents : String) : Trib (Except String TribReply) := do
  let user ← get (userKey userID)
  if user.2.isSome then return statusReply .noSuchUser
  else
    let posted ← now
    let tribbleid ← now
    let temp := lib.marshal ⟨userID, posted, contents⟩
    let err ← put (tribbleKey userID (toString tribbleid)) temp
    if err.isSome then return .error "error PostTribble"
    else
      let err ← appendToList (tribbleListKey userID) (toString tribbleid)
      return match err with
        | some err => .error ("error AppendToList " ++ err)
        | none => statusReply .ok

/-- The loop that decodes what it receives into one variable. mirrors tribserver_impl.go:216-220 -/
def unmarshalAll : Tribble → List String → List Tribble
  | _, [] => []
  | tribble, value :: values =>
    lib.unmarshal value tribble :: unmarshalAll (lib.unmarshal value tribble) values

/-- One goroutine of the next. mirrors tribserver_impl.go:209-212 -/
def getTribbleFromId (tribbleId : Key) : Trib String := do
  let val ← get tribbleId
  return val.1

/-- mirrors tribserver_impl.go:199-224 -/
def getTribblesOneuser (userID : String) : Trib (Except String (List Tribble)) := do
  let tribble_list ← getList (tribbleListKey userID)
  if tribble_list.1.length ≠ 0 ∧ tribble_list.2.isSome then return .error "error GetTribbles"
  else
    let values ← fanOut (tribble_list.1.map fun id => getTribbleFromId (tribbleKey userID id))
    return .ok (unmarshalAll lib zeroTribble values)

/-- Sorted, and cut at 100. mirrors tribserver_impl.go:237-244 and 281-288 -/
def newest (tribbles : List Tribble) : List Tribble := (lib.sort tribbles).take 100

/-- mirrors tribserver_impl.go:226-247 -/
def getTribbles (userID : String) : Trib (Except String TribReply) := do
  let user ← get (userKey userID)
  if user.2.isSome then return statusReply .noSuchUser
  else
    let tribbles ← getTribblesOneuser lib userID
    return tribbles.map fun tribbles => ⟨.ok, [], newest lib tribbles⟩

/-- One goroutine of the next; the error is not looked at. mirrors tribserver_impl.go:268-272 -/
def sendTribbles (userID : String) : Trib (List Tribble) := do
  let tribbles ← getTribblesOneuser lib userID
  return match tribbles with
    | .error _ => []
    | .ok tribbles => tribbles

/-- mirrors tribserver_impl.go:249-292 -/
def getTribblesBySubscription (userID : String) : Trib (Except String TribReply) := do
  let user ← get (userKey userID)
  if user.2.isSome then return statusReply .noSuchUser
  else
    let subscribe_list ← getList (subscribeListKey userID)
    if subscribe_list.1.length ≠ 0 ∧ subscribe_list.2.isSome then
      return .error "error GetTribblesBySubscription"
    else
      let ans ← fanOut (subscribe_list.1.map (sendTribbles lib))
      return .ok ⟨.ok, [], newest lib ans.flatten⟩

end

inductive TribRequest
  | createUser (userID : String)
  | addSubscription (userID targetUserID : String)
  | removeSubscription (userID targetUserID : String)
  | getSubscriptions (userID : String)
  | postTribble (userID contents : String)
  | getTribbles (userID : String)
  | getTribblesBySubscription (userID : String)
  deriving DecidableEq, Repr

def serve (lib : GoLib) : TribRequest → Trib (Except String TribReply)
  | .createUser u => createUser u
  | .addSubscription u v => addSubscription u v
  | .removeSubscription u v => removeSubscription u v
  | .getSubscriptions u => getSubscriptions u
  | .postTribble u contents => postTribble lib u contents
  | .getTribbles u => getTribbles lib u
  | .getTribblesBySubscription u => getTribblesBySubscription lib u

/-! ## The storage -/

/-- A `Put` that was carried out, and the request that made it. -/
structure Written where
  request : TribRequest
  key : Key
  value : String
  deriving DecidableEq, Repr

structure Backend where
  contents : Contents
  /-- ghost -/
  log : List Written

/-- What a call comes to: it is carried out and answered, it is not carried out, or
it is and the answer is lost; or what the clock, the scheduler or a channel says. -/
inductive Choice
  | done
  | failed (err : String)
  | lost (err : String)
  | time (t : Int)
  | left (b : Bool)
  | order (l : List Nat)
  deriving DecidableEq

/-- The call does not come back as it should. -/
def Choice.fails : Choice → Bool
  | failed _ | lost _ => true
  | done | time _ | left _ | order _ => false

/-- The error the libstore makes of a status that is not OK. -/
def Answer.error (a : Answer) (err : String) : Option String :=
  match a with
  | .status .ok => none
  | _ => some err

namespace Backend

def init : Backend := ⟨.empty, []⟩

def write (w : Backend) (req : TribRequest) (key : Key) (value : String) : Backend :=
  ⟨w.contents.setValue key value, w.log ++ [⟨req, key, value⟩]⟩

/-- mirrors libstore_impl.go:253-336, as far as the result goes -/
def read (w : Backend) (key : Key) : String × Option String :=
  match w.contents.values key with
  | some value => (value, none)
  | none => ("", some "reply not ready get")

/-- A key without a list reads as an empty list. mirrors libstore_impl.go:380-462 -/
def readList (w : Backend) (key : Key) : List String × Option String :=
  match w.contents.lists key with
  | some l => (l.1, none)
  | none => ([], none)

/-- mirrors libstore_impl.go:338-378, 464-537 for the writes -/
def op (w : Backend) (req : TribRequest) : Choice → (q : Ask) → Option (q.Reply × Backend)
  | .done, .get key => some (w.read key, w)
  | .failed err, .get _ => some (("", some err), w)
  | .lost err, .get _ => some (("", some err), w)
  | .done, .getList key => some (w.readList key, w)
  | .failed err, .getList _ => some (([], some err), w)
  | .lost err, .getList _ => some (([], some err), w)
  | .done, .put key value => some (none, w.write req key value)
  | .failed err, .put _ _ => some (some err, w)
  | .lost err, .put key value => some (some err, w.write req key value)
  | .done, .appendToList key newItem =>
    let r := w.contents.append key newItem
    some (r.2.error "AppendTolist error libstore key not found", ⟨r.1, w.log⟩)
  | .failed err, .appendToList _ _ => some (some err, w)
  | .lost err, .appendToList key newItem =>
    some (some err, ⟨(w.contents.append key newItem).1, w.log⟩)
  | .done, .removeFromList key removeItem =>
    let r := w.contents.remove key removeItem
    some (r.2.error " RemoveFromList error libstore key not found", ⟨r.1, w.log⟩)
  | .failed err, .removeFromList _ _ => some (some err, w)
  | .lost err, .removeFromList key removeItem =>
    some (some err, ⟨(w.contents.remove key removeItem).1, w.log⟩)
  | .time t, .now => some (t, w)
  | .left b, .turn => some (b, w)
  | .order l, .arrivals n => if h : l.Perm (List.range n) then some (⟨l, h⟩, w) else none
  | _, _ => none

section

variable {w w' : Backend} {req : TribRequest} {c : Choice}

theorem op_get {key : Key} {r : String × Option String}
    (h : w.op req c (.get key) = some (r, w')) :
    w' = w ∧ (c = .done ∧ r = w.read key ∨ ∃ err, (c = .failed err ∨ c = .lost err) ∧
      r = ("", some err)) := by
  cases c <;> cases h
  · exact ⟨rfl, .inl ⟨rfl, rfl⟩⟩
  · exact ⟨rfl, .inr ⟨_, .inl rfl, rfl⟩⟩
  · exact ⟨rfl, .inr ⟨_, .inr rfl, rfl⟩⟩

theorem op_getList {key : Key} {r : List String × Option String}
    (h : w.op req c (.getList key) = some (r, w')) :
    w' = w ∧ (c = .done ∧ r = w.readList key ∨ ∃ err, (c = .failed err ∨ c = .lost err) ∧
      r = ([], some err)) := by
  cases c <;> cases h
  · exact ⟨rfl, .inl ⟨rfl, rfl⟩⟩
  · exact ⟨rfl, .inr ⟨_, .inl rfl, rfl⟩⟩
  · exact ⟨rfl, .inr ⟨_, .inr rfl, rfl⟩⟩

theorem op_put {key : Key} {value : String} {r : Option String}
    (h : w.op req c (.put key value) = some (r, w')) :
    (c = .done ∧ r = none ∧ w' = w.write req key value) ∨
    ∃ err, r = some err ∧
      (c = .failed err ∧ w' = w ∨ c = .lost err ∧ w' = w.write req key value) := by
  cases c <;> cases h
  · exact .inl ⟨rfl, rfl, rfl⟩
  · exact .inr ⟨_, rfl, .inl ⟨rfl, rfl⟩⟩
  · exact .inr ⟨_, rfl, .inr ⟨rfl, rfl⟩⟩

/-- What a call can do to the storage. -/
theorem op_cases {q : Ask} {r : q.Reply} (h : w.op req c q = some (r, w')) :
    w' = w ∨
    (∃ key value, q = .put key value ∧ w' = w.write req key value) ∨
    (∃ key item, q = .appendToList key item ∧ w' = ⟨(w.contents.append key item).1, w.log⟩) ∨
    ∃ key item, q = .removeFromList key item ∧ w' = ⟨(w.contents.remove key item).1, w.log⟩ := by
  cases q with
  | get key => exact .inl (op_get h).1
  | getList key => exact .inl (op_getList h).1
  | put key value =>
    rcases op_put h with ⟨-, -, hw⟩ | ⟨_, -, ⟨-, hw⟩ | ⟨-, hw⟩⟩
    · exact .inr (.inl ⟨key, value, rfl, hw⟩)
    · exact .inl hw
    · exact .inr (.inl ⟨key, value, rfl, hw⟩)
  | appendToList key item =>
    cases c <;> cases h
    · exact .inr (.inr (.inl ⟨key, item, rfl, rfl⟩))
    · exact .inl rfl
    · exact .inr (.inr (.inl ⟨key, item, rfl, rfl⟩))
  | removeFromList key item =>
    cases c <;> cases h
    · exact .inr (.inr (.inr ⟨key, item, rfl, rfl⟩))
    · exact .inl rfl
    · exact .inr (.inr (.inr ⟨key, item, rfl, rfl⟩))
  | now =>
    cases c <;> cases h
    exact .inl rfl
  | turn =>
    cases c <;> cases h
    exact .inl rfl
  | arrivals n =>
    cases c with
    | order l =>
      simp only [op] at h
      split at h
      · cases h
        exact .inl rfl
      · cases h
    | done | failed _ | lost _ | time _ | left _ => cases h

theorem append_values (c : Contents) (key : Key) (item : String) :
    (c.append key item).1.values = c.values := by
  unfold Contents.append
  split
  · rfl
  · split <;> rfl

theorem remove_values (c : Contents) (key : Key) (item : String) :
    (c.remove key item).1.values = c.values := by
  unfold Contents.remove
  split
  · rfl
  · split <;> rfl

/-- Only a `Put` changes a value, and it does not take one away. -/
theorem op_values {q : Ask} {r : q.Reply} (h : w.op req c q = some (r, w')) :
    w'.contents.values = w.contents.values ∨
    ∃ key value, q = .put key value ∧ w' = w.write req key value := by
  rcases op_cases h with rfl | hput | ⟨key, item, -, rfl⟩ | ⟨key, item, -, rfl⟩
  · exact .inl rfl
  · exact .inr hput
  · exact .inl (append_values ..)
  · exact .inl (remove_values ..)

theorem op_values_isSome {q : Ask} {r : q.Reply} (h : w.op req c q = some (r, w')) {key : Key}
    (hkey : (w.contents.values key).isSome) : (w'.contents.values key).isSome := by
  rcases op_values h with heq | ⟨key', value, -, rfl⟩
  · rw [heq]
    exact hkey
  · simp only [write, Contents.setValue, Function.update_apply]
    split
    · rfl
    · exact hkey

end

end Backend

abbrev TribPool : Type := Pool Backend TribRequest Ask Ask.Reply (Except String TribReply)

abbrev TribLbl : Type := PoolLbl TribRequest Choice

/-- The requests of all tribservers, in every interleaving of their calls that `g` allows. -/
def tribbler (lib : GoLib) (g : TribPool → TribLbl → Bool) : LTS TribPool TribLbl :=
  LTS.ofFn (· = ⟨.init, []⟩) (LTS.guarded g (Pool.step (serve lib) Backend.op))

/-! ## Keys

What follows the last colon of a key says what it is the key of. -/

theorem append_sep_inj {c : Char} {s t l l' : List Char} (hs : c ∉ s) (ht : c ∉ t)
    (h : s ++ c :: l = t ++ c :: l') : s = t ∧ l = l' := by
  induction s generalizing t with
  | nil =>
    cases t with
    | nil => exact ⟨rfl, (List.cons.inj h).2⟩
    | cons d t =>
      rw [(List.cons.inj h).1] at ht
      exact absurd List.mem_cons_self ht
  | cons d s ih =>
    cases t with
    | nil =>
      rw [← (List.cons.inj h).1] at hs
      exact absurd List.mem_cons_self hs
    | cons e t =>
      obtain ⟨rfl, htail⟩ := List.cons.inj h
      obtain ⟨rfl, hl⟩ := ih (fun hm => hs (List.mem_cons_of_mem _ hm))
        (fun hm => ht (List.mem_cons_of_mem _ hm)) htail
      exact ⟨rfl, hl⟩

theorem tribbleKey_inj {u v s t : String} (hs : ':' ∉ s.toList) (ht : ':' ∉ t.toList)
    (h : tribbleKey u s = tribbleKey v t) : u = v ∧ s = t := by
  have h := congrArg (fun k : String => k.toList.reverse) h
  simp only [tribbleKey, String.toList_append, List.reverse_append] at h
  obtain ⟨hst, huv⟩ := append_sep_inj (c := ':') (s := s.toList.reverse) (t := t.toList.reverse)
    (by simpa using hs) (by simpa using ht) h
  exact ⟨String.toList_inj.mp (List.reverse_injective huv),
    String.toList_inj.mp (List.reverse_injective hst)⟩

/-- What can stand for a tribble in a key and in a list of tribbles. -/
def IsId (item : String) : Prop := ':' ∉ item.toList ∧ item ≠ "user"

theorem not_mem_repr {c : Char} (hc : c.isDigit = false) (n : Nat) : c ∉ n.repr.toList := by
  intro hm
  rw [Nat.repr, String.toList_ofList] at hm
  rw [Nat.isDigit_of_mem_toDigits (by decide) (by decide) hm] at hc
  cases hc

theorem isId_toString (i : Int) : IsId (toString i) := by
  have hchar : ∀ c : Char, c.isDigit = false → c ≠ '-' → c ∉ (toString i).toList := by
    intro c hc hne
    cases i with
    | ofNat n => exact not_mem_repr hc n
    | negSucc n =>
      show c ∉ ("-" ++ (n + 1).repr).toList
      rw [String.toList_append, List.mem_append]
      rintro (hm | hm)
      · exact hne (List.mem_singleton.mp hm)
      · exact not_mem_repr hc (n + 1) hm
  refine ⟨hchar ':' (by decide) (by decide), fun heq => ?_⟩
  have := hchar 'u' (by decide) (by decide)
  rw [heq] at this
  exact this (by decide)

theorem userKey_ne_tribbleKey {u v item : String} (h : IsId item) :
    userKey u ≠ tribbleKey v item := fun heq =>
  h.2 (tribbleKey_inj (u := u) (s := "user") (by decide) h.1 heq).2.symm

theorem tribbleListKey_inj {u v : String} (h : tribbleListKey u = tribbleListKey v) : u = v :=
  (tribbleKey_inj (by decide) (by decide) h).1

theorem subscribeListKey_ne {u v : String} : subscribeListKey u ≠ tribbleListKey v := fun h =>
  absurd (tribbleKey_inj (s := "subscribe_list") (t := "tribble_list") (by decide) (by decide) h).2
    (by decide)

/-! ## What the operations ask -/

section

variable {lib : GoLib} {A : Answers Ask Ask.Reply} {u : String} {q : Ask} {key : Key}

/-- `GetTribblesOneuser` reads the list of the user and then what is on it. -/
theorem oneuser_asks (h : Asks A (getTribblesOneuser lib u) q) :
    q = .getList (tribbleListKey u) ∨ q = .turn ∨ (∃ n, q = .arrivals n) ∨
    ∃ l err, A (.getList (tribbleListKey u)) (l, err) ∧ ∃ id ∈ l, q = .get (tribbleKey u id) := by
  simp only [getTribblesOneuser, asks_bind, asks_getList, yields_getList, asks_ite, asks_pure,
    and_false, exists_false, or_false, false_or] at h
  rcases h with h | ⟨⟨l, err⟩, hl, -, h⟩
  · exact .inl h.symm
  · rcases asks_fanOut h with h | h | ⟨p, hp, h⟩
    · exact .inr (.inl h)
    · exact .inr (.inr (.inl h))
    · obtain ⟨id, hid, rfl⟩ := List.mem_map.mp hp
      simp only [getTribbleFromId, asks_bind, asks_get, asks_pure, and_false, exists_false,
        or_false] at h
      exact .inr (.inr (.inr ⟨l, err, hl, id, hid, h.symm⟩))

theorem getTribbles_asks (h : Asks A (getTribbles lib u) q) :
    q = .get (userKey u) ∨ Asks A (getTribblesOneuser lib u) q := by
  simp only [getTribbles, asks_bind, asks_get, asks_ite, asks_pure, and_false, exists_false,
    or_false, false_or] at h
  rcases h with h | ⟨_, -, -, h⟩
  · exact .inl h.symm
  · exact .inr h

theorem bySubscription_asks (h : Asks A (getTribblesBySubscription lib u) q) :
    q = .get (userKey u) ∨ q = .getList (subscribeListKey u) ∨ q = .turn ∨ (∃ n, q = .arrivals n) ∨
    ∃ v, Asks A (getTribblesOneuser lib v) q := by
  simp only [getTribblesBySubscription, asks_bind, asks_get, asks_ite, asks_pure, asks_getList,
    and_false, exists_false, or_false, false_or] at h
  rcases h with h | ⟨_, -, -, h | ⟨_, -, -, h⟩⟩
  · exact .inl h.symm
  · exact .inr (.inl h.symm)
  · rcases asks_fanOut h with h | h | ⟨p, hp, h⟩
    · exact .inr (.inr (.inl h))
    · exact .inr (.inr (.inr (.inl h)))
    · obtain ⟨v, -, rfl⟩ := List.mem_map.mp hp
      simp only [sendTribbles, asks_bind, asks_pure, and_false, exists_false, or_false] at h
      exact .inr (.inr (.inr (.inr ⟨v, h⟩)))

def Ask.writes : Ask → Bool
  | put _ _ | appendToList _ _ | removeFromList _ _ => true
  | get _ | getList _ | now | turn | arrivals _ => false

theorem oneuser_reads (h : Asks A (getTribblesOneuser lib u) q) :
    q.writes = false := by
  rcases oneuser_asks h with rfl | rfl | ⟨n, rfl⟩ | ⟨_, _, _, _, _, rfl⟩ <;> rfl

theorem getTribbles_reads (h : Asks A (getTribbles lib u) q) :
    q.writes = false := by
  rcases getTribbles_asks h with rfl | h
  · rfl
  · exact oneuser_reads h

theorem bySubscription_reads (h : Asks A (getTribblesBySubscription lib u) q) :
    q.writes = false := by
  rcases bySubscription_asks h with rfl | rfl | rfl | ⟨n, rfl⟩ | ⟨v, h⟩
  · rfl
  · rfl
  · rfl
  · rfl
  · exact oneuser_reads h

/-- Only `CreateUser` and `PostTribble` put values. -/
theorem serve_asks_put {req : TribRequest} {value : String}
    (h : Asks A (serve lib req) (.put key value)) :
    (∃ u, req = .createUser u ∧ key = userKey u ∧ value = userKey u) ∨
    ∃ u contents posted id, req = .postTribble u contents ∧ IsId id ∧ key = tribbleKey u id ∧
      value = lib.marshal ⟨u, posted, contents⟩ := by
  cases req with
  | createUser u =>
    simp [serve, createUser] at h
    obtain ⟨_, _, -, -, hkey, hvalue⟩ := h
    exact .inl ⟨u, rfl, hkey.symm, hvalue.symm⟩
  | postTribble u contents =>
    simp [serve, postTribble] at h
    obtain ⟨-, posted, -, id, -, hkey, hvalue⟩ := h
    exact .inr ⟨u, contents, posted, toString id, rfl, isId_toString id, hkey.symm, hvalue.symm⟩
  | addSubscription u v => simp [serve, addSubscription, changeSubscription] at h
  | removeSubscription u v => simp [serve, removeSubscription, changeSubscription] at h
  | getSubscriptions u => simp [serve, getSubscriptions] at h
  | getTribbles u => cases getTribbles_reads h
  | getTribblesBySubscription u => cases bySubscription_reads h

/-- Only `AddSubscription` and `PostTribble` append, the latter what it has put. -/
theorem serve_asks_append {req : TribRequest} {item : String}
    (h : Asks A (serve lib req) (.appendToList key item)) :
    (∃ u, key = subscribeListKey u) ∨
    ∃ u contents posted, req = .postTribble u contents ∧ IsId item ∧ key = tribbleListKey u ∧
      A (.put (tribbleKey u item) (lib.marshal ⟨u, posted, contents⟩)) none := by
  cases req with
  | createUser u => simp [serve, createUser] at h
  | postTribble u contents =>
    simp [serve, postTribble] at h
    obtain ⟨-, posted, -, id, -, hput, hkey, hitem⟩ := h
    subst hitem
    exact .inr ⟨u, contents, posted, rfl, isId_toString id, hkey.symm, hput⟩
  | addSubscription u v =>
    simp [serve, addSubscription, changeSubscription] at h
    exact .inl ⟨u, h.2.2.1.symm⟩
  | removeSubscription u v => simp [serve, removeSubscription, changeSubscription] at h
  | getSubscriptions u => simp [serve, getSubscriptions] at h
  | getTribbles u => cases getTribbles_reads h
  | getTribblesBySubscription u => cases bySubscription_reads h

theorem serve_asks_remove {req : TribRequest} {item : String}
    (h : Asks A (serve lib req) (.removeFromList key item)) : ∃ u, key = subscribeListKey u := by
  cases req with
  | createUser u => simp [serve, createUser] at h
  | postTribble u contents => simp [serve, postTribble] at h
  | addSubscription u v => simp [serve, addSubscription, changeSubscription] at h
  | removeSubscription u v =>
    simp [serve, removeSubscription, changeSubscription] at h
    exact ⟨u, h.2.2.1.symm⟩
  | getSubscriptions u => simp [serve, getSubscriptions] at h
  | getTribbles u => cases getTribbles_reads h
  | getTribblesBySubscription u => cases bySubscription_reads h

/-- The requests that read tribbles. -/
def TribRequest.reader : TribRequest → Bool
  | getTribbles _ | getTribblesBySubscription _ => true
  | _ => false

/-- What is read is a user, or by a reader a tribble on a list that was read before. -/
theorem serve_asks_get {req : TribRequest} (h : Asks A (serve lib req) (.get key)) :
    (∃ u, key = userKey u) ∨
    req.reader = true ∧ ∃ u l err, A (.getList (tribbleListKey u)) (l, err) ∧
      ∃ id ∈ l, key = tribbleKey u id := by
  have hone : ∀ {u}, Asks A (getTribblesOneuser lib u) (.get key) →
      ∃ u l err, A (.getList (tribbleListKey u)) (l, err) ∧ ∃ id ∈ l, key = tribbleKey u id := by
    intro u h
    rcases oneuser_asks h with h | h | ⟨_, h⟩ | ⟨l, err, hl, id, hid, h⟩
    · cases h
    · cases h
    · cases h
    · exact ⟨u, l, err, hl, id, hid, Ask.get.inj h⟩
  cases req with
  | createUser u =>
    simp [serve, createUser] at h
    exact .inl ⟨u, h.symm⟩
  | postTribble u contents =>
    simp [serve, postTribble] at h
    exact .inl ⟨u, h.symm⟩
  | addSubscription u v =>
    simp [serve, addSubscription, changeSubscription] at h
    rcases h with h | ⟨-, h⟩
    · exact .inl ⟨u, h.symm⟩
    · exact .inl ⟨v, h.symm⟩
  | removeSubscription u v =>
    simp [serve, removeSubscription, changeSubscription] at h
    rcases h with h | ⟨-, h⟩
    · exact .inl ⟨u, h.symm⟩
    · exact .inl ⟨v, h.symm⟩
  | getSubscriptions u =>
    simp [serve, getSubscriptions] at h
    exact .inl ⟨u, h.symm⟩
  | getTribbles u =>
    rcases getTribbles_asks h with h | h
    · exact .inl ⟨u, Ask.get.inj h⟩
    · exact .inr ⟨rfl, hone h⟩
  | getTribblesBySubscription u =>
    rcases bySubscription_asks h with h | h | h | ⟨_, h⟩ | ⟨v, h⟩
    · exact .inl ⟨u, Ask.get.inj h⟩
    · cases h
    · cases h
    · cases h
    · exact .inr ⟨rfl, hone h⟩

end

end Cmu440.Tribbler
