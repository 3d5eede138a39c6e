/-
Rules: what a command on a single key does, told without purging. A rule gets
the live entry of the key, if there is one, and gives the answer and the entry
that the key has afterwards. `Store.obey` lets a rule work on a store, and the
equations `get_eq`, `set_eq` and so on say by which rule each command goes. What
holds of all commands on one key is proved once, about `obey`.
-/
import CacheLayer.Store.Call

namespace CacheLayer

variable {α β : Type}

/-- The answer of a command and the entry of its key after it, by the live entry before it. -/
abbrev Rule (α : Type) := Option Entry → Except Error α × Option Entry

namespace Rule

/-! ## Rules in general -/

/-- The entry is looked at and stays. -/
def look (f : Option Entry → Except Error α) : Rule α := fun e? => (f e?, e?)

/-- The same rule with another answer. -/
def map (f : α → β) (r : Rule α) : Rule β := fun e? => ((r e?).1.map f, (r e?).2)

/-- New bytes with a life of their own are put in the place of the entry if it is as wanted; the
answer tells whether they were. -/
def assign (now : Nat) (b : Bytes) (life : Option Nat) (wanted : Option Entry → Bool) : Rule Bool :=
  fun e? => if wanted e? then (.ok true, some (.born (.bytes b) life now)) else (.ok false, e?)

/-- A container is changed, or a new one is made if `create` is set. The entry goes with the last
item and keeps its deadline otherwise. -/
def container {C : Type} (shape : Store.Shape C) (create : Bool) (now : Nat) (key : String)
    (f : C → α × C) : Rule (Option α)
  | none =>
    if create then
      (.ok (some (f shape.none).1),
        if shape.isNone (f shape.none).2 then none
        else some (.born (shape.keep (f shape.none).2) none now))
    else (.ok none, none)
  | some e =>
    match shape.see? e.value with
    | none => (.error (.wrongType key), some e)
    | some c =>
      (.ok (some (f c).1),
        if shape.isNone (f c).2 then none else some { e with value := shape.keep (f c).2 })

/-! ## The commands on whole values -/

def get (key : String) : Rule (Option Bytes) :=
  look fun
    | none => .ok none
    | some e =>
      match e.value with
      | .bytes b => .ok (some b)
      | _ => .error (.wrongType key)

def set (now : Nat) (b : Bytes) (life : Option Nat) : Rule Unit :=
  fun _ => (.ok (), some (.born (.bytes b) life now))

def setIfAbsent (now : Nat) (b : Bytes) (life : Option Nat) : Rule Bool :=
  assign now b life Option.isNone

def setIfPresent (now : Nat) (b : Bytes) (life : Option Nat) : Rule Bool :=
  assign now b life Option.isSome

/-- The entry holds exactly these bytes. -/
def holds (expected : Bytes) : Option Entry → Bool
  | none => false
  | some e =>
    match e.value with
    | .bytes b => b = expected
    | _ => false

def swap (now : Nat) (expected b : Bytes) (life : Option Nat) : Rule Bool :=
  assign now b life (holds expected)

def delete : Rule Bool := fun e? => (.ok e?.isSome, none)

def has : Rule Bool := look fun e? => .ok e?.isSome

def expire (now life : Nat) : Rule Bool :=
  fun e? => (.ok e?.isSome, e?.map fun e => { e with deadline := some (now + life) })

def remaining (now : Nat) : Rule Remaining :=
  look fun
    | none => .ok .missing
    | some e =>
      match e.deadline with
      | none => .ok .persistent
      | some t => .ok (.expires (t - now))

def add (now : Nat) (key : String) (delta : Int) : Rule Int
  | none => (.ok delta, some (.born (.bytes (Store.counterBytes delta)) none now))
  | some e =>
    match e.value with
    | .bytes b =>
      match Store.counter? b with
      | none => (.error (.backend ("Value at " ++ key ++ " is not an integer")), some e)
      | some current =>
        if Text.fitsInt64 (current + delta) then
          (.ok (current + delta),
            some { e with value := .bytes (Store.counterBytes (current + delta)) })
        else (.error (.backend ("Increment would overflow for " ++ key)), some e)
    | _ => (.error (.wrongType key), some e)

/-! ## The commands on containers -/

/-- The answer of a command on a container, or the one for a key without a container. -/
def orElse (absent : α) (r : Rule (Option α)) : Rule α := r.map (·.getD absent)

def pushFront (now : Nat) (key : String) (values : List Bytes) : Rule Nat :=
  orElse 0 (container Store.listShape true now key fun items =>
    ((values.reverse ++ items).length, values.reverse ++ items))

def pushBack (now : Nat) (key : String) (values : List Bytes) : Rule Nat :=
  orElse 0 (container Store.listShape true now key fun items =>
    ((items ++ values).length, items ++ values))

def range (now : Nat) (key : String) (start stop : Int) : Rule (List Bytes) :=
  orElse [] (container Store.listShape false now key fun items =>
    (Store.slice items start stop, items))

def trim (now : Nat) (key : String) (start stop : Int) : Rule Unit :=
  orElse () (container Store.listShape false now key fun items =>
    ((), Store.slice items start stop))

def length (now : Nat) (key : String) : Rule Nat :=
  orElse 0 (container Store.listShape false now key fun items => (items.length, items))

def popFront (now : Nat) (key : String) : Rule (Option Bytes) :=
  orElse none (container Store.listShape false now key fun items => (items.head?, items.tail))

/-- Adds members one after the other and counts those that were not there yet. -/
def addEach (members : List String) (set : KeySet) : Nat × KeySet :=
  members.foldl (fun (count, set) m =>
    if set.contains m then (count, set) else (count + 1, set.add m)) (0, set)

/-- Removes keys one after the other and counts those that were there. -/
def removeEach (keys : List String) (m : KeyMap α) : Nat × KeyMap α :=
  keys.foldl (fun (count, m) key =>
    if m.contains key then (count + 1, m.erase key) else (count, m)) (0, m)

/-- Without members the entry is not even looked at. -/
def addMembers (now : Nat) (key : String) (members : List String) : Rule Nat :=
  if members.isEmpty then look fun _ => .ok 0
  else orElse 0 (container Store.setShape true now key (addEach members))

def removeMembers (now : Nat) (key : String) (members : List String) : Rule Nat :=
  orElse 0 (container Store.setShape false now key (removeEach members))

def members (now : Nat) (key : String) : Rule (List String) :=
  orElse [] (container Store.setShape false now key fun set => (set.keys, set))

def hasMember (now : Nat) (key member : String) : Rule Bool :=
  orElse false (container Store.setShape false now key fun set => (set.contains member, set))

/-- The whole set at a key. -/
def theSet (now : Nat) (key : String) : Rule (Option KeySet) :=
  container Store.setShape false now key fun set => (set, set)

def setField (now : Nat) (key field : String) (b : Bytes) : Rule Bool :=
  orElse false (container Store.hashShape true now key fun hash =>
    (!hash.contains field, hash.insert field b))

def field (now : Nat) (key name : String) : Rule (Option Bytes) :=
  orElse none (container Store.hashShape false now key fun hash => (hash.get? name, hash))

def fields (now : Nat) (key : String) : Rule (KeyMap Bytes) :=
  orElse KeyMap.empty (container Store.hashShape false now key fun hash => (hash, hash))

def removeFields (now : Nat) (key : String) (names : List String) : Rule Nat :=
  orElse 0 (container Store.hashShape false now key (removeEach names))

end Rule

/-- The rule by which a command of a batch goes. -/
def BatchStep.rule (now : Nat) : BatchStep → Rule BatchReply
  | .set _ b life => (Rule.set now b life).map fun _ => .done
  | .setIfAbsent _ b life => (Rule.setIfAbsent now b life).map .applied
  | .setIfPresent _ b life => (Rule.setIfPresent now b life).map .applied
  | .swap _ expected b life => (Rule.swap now expected b life).map .applied
  | .delete _ => Rule.delete.map .applied
  | .expire _ life => (Rule.expire now life).map .applied
  | .add key delta => (Rule.add now key delta).map .number

namespace Store

/-! ## Rules at work -/

/-- The store in which a key has this entry, or none. -/
def place (s : Store) (key : String) : Option Entry → Store
  | some e => s.put key e
  | none => s.drop key

/-- Lets a rule decide on the live entry of a key. -/
def obey (s : Store) (now : Nat) (key : String) (r : Rule α) : Outcome α :=
  ((r (s.live? now key)).1, s.place key (r (s.live? now key)).2)

theorem ext_entries {s s' : Store} (h : ∀ key, s.entries.get? key = s'.entries.get? key)
    (hc : s.cursors = s'.cursors) (ho : s.opened = s'.opened) : s = s' := by
  obtain ⟨entries, cursors, opened⟩ := s
  obtain ⟨entries', cursors', opened'⟩ := s'
  obtain rfl : entries = entries' := KeyMap.ext_get? h
  obtain rfl : cursors = cursors' := hc
  obtain rfl : opened = opened' := ho
  rfl

@[simp] theorem get?_place_self (s : Store) (key : String) (e? : Option Entry) :
    (s.place key e?).entries.get? key = e? := by
  cases e? with
  | none => exact KeyMap.get?_erase_self _ _
  | some e => exact KeyMap.get?_insert_self _ _ _

theorem get?_place_other (s : Store) {key other : String} (e? : Option Entry) (hne : other ≠ key) :
    (s.place key e?).entries.get? other = s.entries.get? other := by
  cases e? with
  | none => exact KeyMap.get?_erase_other _ hne
  | some e => exact KeyMap.get?_insert_other _ _ hne

@[simp] theorem cursors_place (s : Store) (key : String) (e? : Option Entry) :
    (s.place key e?).cursors = s.cursors := by
  cases e? <;> rfl

@[simp] theorem opened_place (s : Store) (key : String) (e? : Option Entry) :
    (s.place key e?).opened = s.opened := by
  cases e? <;> rfl

@[simp] theorem cursors_purge (s : Store) (now : Nat) (key : String) :
    (s.purge now key).cursors = s.cursors := by
  unfold purge
  split
  · split <;> rfl
  · rfl

@[simp] theorem opened_purge (s : Store) (now : Nat) (key : String) :
    (s.purge now key).opened = s.opened := by
  unfold purge
  split
  · split <;> rfl
  · rfl

/-- What a key held before it is placed anew makes no difference. -/
theorem place_purge (s : Store) (now : Nat) (key : String) (e? : Option Entry) :
    (s.purge now key).place key e? = s.place key e? := by
  refine ext_entries (fun other => ?_) (by simp) (by simp)
  by_cases hne : other = key
  · subst hne; simp
  · rw [get?_place_other _ _ hne, get?_place_other _ _ hne, get?_purge_other _ _ hne]

theorem purge_eq (s : Store) (now : Nat) (key : String) :
    s.purge now key = s.place key (s.live? now key) := by
  refine ext_entries (fun other => ?_) (by simp) (by simp)
  by_cases hne : other = key
  · subst hne; rw [get?_purge_self, get?_place_self]
  · rw [get?_purge_other _ _ hne, get?_place_other _ _ hne]

theorem purge_of_live? {s : Store} {now : Nat} {key : String} {e? : Option Entry}
    (h : s.live? now key = e?) : s.purge now key = s.place key e? := by
  rw [purge_eq, h]

theorem purge_put (s : Store) (now : Nat) (key : String) (e : Entry) :
    (s.purge now key).put key e = s.place key (some e) := s.place_purge now key (some e)

theorem purge_drop (s : Store) (now : Nat) (key : String) :
    (s.purge now key).drop key = s.place key none := s.place_purge now key none

theorem contains_purge (s : Store) (now : Nat) (key : String) :
    (s.purge now key).entries.contains key = (s.live? now key).isSome := by
  rw [KeyMap.contains, get?_purge_self]

theorem orElse_obey (absent : α) (s : Store) (now : Nat) (key : String) (r : Rule (Option α)) :
    orElse absent (s.obey now key r) = s.obey now key (r.orElse absent) := rfl

/-! ## Each command by its rule -/

variable (s : Store) (now : Nat) (key : String)

theorem get_eq : s.get now key = s.obey now key (Rule.get key) := by
  simp only [get, obey, get?_purge_self]
  cases hl : s.live? now key with
  | none => simp [Rule.get, Rule.look, purge_of_live? hl]
  | some e => cases hv : e.value <;> simp [Rule.get, Rule.look, hv, purge_of_live? hl]

theorem set_eq (b : Bytes) (life : Option Nat) :
    (.ok (), s.set now key b life) = s.obey now key (Rule.set now b life) := rfl

theorem setWhen_eq (present : Bool) (b : Bytes) (life : Option Nat) :
    Call.sure (s.setWhen now present key b life) =
      s.obey now key (Rule.assign now b life fun e? => e?.isSome == present) := by
  simp only [Call.sure, setWhen, contains_purge, set, purge_put, obey, Rule.assign, beq_iff_eq]
  split
  · rfl
  · rw [purge_eq s now key]

theorem setIfAbsent_eq (b : Bytes) (life : Option Nat) :
    Call.sure (s.setWhen now false key b life) =
      s.obey now key (Rule.setIfAbsent now b life) := by
  rw [setWhen_eq, Rule.setIfAbsent]
  congr 2
  funext e?
  cases e? <;> rfl

theorem setIfPresent_eq (b : Bytes) (life : Option Nat) :
    Call.sure (s.setWhen now true key b life) =
      s.obey now key (Rule.setIfPresent now b life) := by
  rw [setWhen_eq, Rule.setIfPresent]
  congr 2
  funext e?
  cases e? <;> rfl

theorem swap_eq (expected b : Bytes) (life : Option Nat) :
    Call.sure (s.swap now key expected b life) =
      s.obey now key (Rule.swap now expected b life) := by
  simp only [Call.sure, swap, get?_purge_self, set, purge_put, obey, Rule.swap, Rule.assign]
  cases hl : s.live? now key with
  | none => simp [Rule.holds, purge_of_live? hl]
  | some e =>
    cases hv : e.value with
    | bytes current =>
      by_cases hc : current = expected <;> simp [Rule.holds, hv, hc, purge_of_live? hl]
    | list items => simp [Rule.holds, hv, purge_of_live? hl]
    | set members => simp [Rule.holds, hv, purge_of_live? hl]
    | hash fields => simp [Rule.holds, hv, purge_of_live? hl]

theorem delete_eq : Call.sure (s.delete now key) = s.obey now key Rule.delete := by
  simp only [Call.sure, delete, contains_purge, purge_drop, obey, Rule.delete]

theorem has_eq : Call.sure (s.has now key) = s.obey now key Rule.has := by
  simp only [Call.sure, has, contains_purge, obey, Rule.has, Rule.look]
  rw [purge_eq]

theorem expire_eq (life : Nat) :
    Call.sure (s.expire now key life) = s.obey now key (Rule.expire now life) := by
  simp only [Call.sure, expire, get?_purge_self, purge_put, obey, Rule.expire]
  cases hl : s.live? now key with
  | none => simp [purge_of_live? hl]
  | some e => simp

theorem remaining_eq :
    Call.sure (s.remaining now key) = s.obey now key (Rule.remaining now) := by
  simp only [Call.sure, remaining, get?_purge_self, obey]
  cases hl : s.live? now key with
  | none => simp [Rule.remaining, Rule.look, purge_of_live? hl]
  | some e => cases hd : e.deadline <;> simp [Rule.remaining, Rule.look, hd, purge_of_live? hl]

theorem add_eq (delta : Int) : s.add now key delta = s.obey now key (Rule.add now key delta) := by
  simp only [add, get?_purge_self, purge_put, obey]
  cases hl : s.live? now key with
  | none => rfl
  | some e =>
    have hkept := purge_of_live? hl
    cases hv : e.value with
    | bytes b =>
      cases hc : counter? b with
      | none => simp [Rule.add, hv, hc, hkept]
      | some current =>
        by_cases hfits : Text.fitsInt64 (current + delta) = true <;>
          simp [Rule.add, hv, hc, hfits, hkept]
    | list items => simp [Rule.add, hv, hkept]
    | set members => simp [Rule.add, hv, hkept]
    | hash fields => simp [Rule.add, hv, hkept]

theorem onContainer_eq {C : Type} (shape : Shape C) (create : Bool) (f : C → α × C) :
    onContainer shape create f s now key =
      s.obey now key (Rule.container shape create now key f) := by
  simp only [onContainer, get?_purge_self, purge_put, purge_drop, obey]
  cases hl : s.live? now key with
  | none =>
    have hgone := purge_of_live? hl
    cases create with
    | false => simp [Rule.container, hgone]
    | true =>
      by_cases hnone : shape.isNone (f shape.none).2 = true <;>
        simp [Rule.container, hgone, hnone]
  | some e =>
    have hkept := purge_of_live? hl
    cases hv : shape.see? e.value with
    | none => simp [Rule.container, hv, hkept]
    | some c =>
      by_cases hnone : shape.isNone (f c).2 = true <;> simp [Rule.container, hv, hnone]

theorem step_eq (b : BatchStep) : s.step now b = s.obey now b.key (b.rule now) := by
  cases b with
  | set k b life => rfl
  | setIfAbsent k b life =>
    exact congrArg (fun o => (o.1.map BatchReply.applied, o.2)) (s.setIfAbsent_eq now k b life)
  | setIfPresent k b life =>
    exact congrArg (fun o => (o.1.map BatchReply.applied, o.2)) (s.setIfPresent_eq now k b life)
  | swap k expected b life =>
    exact congrArg (fun o => (o.1.map BatchReply.applied, o.2)) (s.swap_eq now k expected b life)
  | delete k => exact congrArg (fun o => (o.1.map BatchReply.applied, o.2)) (s.delete_eq now k)
  | expire k life => exact congrArg (fun o => (o.1.map BatchReply.applied, o.2)) (s.expire_eq now k life)
  | add k delta => exact congrArg (fun o => (o.1.map BatchReply.number, o.2)) (s.add_eq now k delta)

end Store
end CacheLayer
