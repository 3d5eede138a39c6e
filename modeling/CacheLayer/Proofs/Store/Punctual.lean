/-
The punctual store drops an entry at the very instant of its deadline, so what
it holds is alive. None of its commands purges anything or asks whether an entry
is dead; the clock is read only to give a deadline and to tell how much of one is
left. `Call.plan` is the list of its commands.

A store is seen as the punctual store of its live entries (`Store.punctual`).
-/
import CacheLayer.Proofs.Store.Rule

namespace CacheLayer

/-- Entries that are alive, and the cursors of open walks. -/
@[ext]
structure PunctualStore where
  now : Nat
  entries : KeyMap Entry
  alive : ∀ key e, entries.get? key = some e → e.isDead now = false
  cursors : List (Nat × String)
  /-- How many cursors have been opened. -/
  opened : Nat

namespace PunctualStore

variable {α : Type}

/-! ## Time -/

theorem isDead_next {e : Entry} {now : Nat} (h : e.isDead now = false)
    (hne : (e.deadline != some (now + 1)) = true) : e.isDead (now + 1) = false := by
  cases hd : e.deadline with
  | none => simp [Entry.isDead, hd]
  | some t =>
    have hlater : now < t := by simpa [Entry.isDead, hd] using h
    have hother : t ≠ now + 1 := by simpa [hd] using hne
    simp only [Entry.isDead, hd, decide_eq_false_iff_not]
    omega

/-- A millisecond passes, and the entries go whose deadline is reached. -/
def tick (p : PunctualStore) : PunctualStore where
  now := p.now + 1
  entries := p.entries.filter fun _ e => e.deadline != some (p.now + 1)
  alive key e h := by
    rw [KeyMap.get?_filter, Option.filter_eq_some_iff] at h
    exact isDead_next (p.alive key e h.1) h.2
  cursors := p.cursors
  opened := p.opened

/-- So many milliseconds pass. -/
def wait (p : PunctualStore) : Nat → PunctualStore
  | 0 => p
  | ms + 1 => (p.wait ms).tick

/-! ## One key -/

/-- The entries with another one at a key, or none. -/
def entriesWith (p : PunctualStore) (key : String) : Option Entry → KeyMap Entry
  | some e => p.entries.insert key e
  | none => p.entries.erase key

theorem get?_entriesWith (p : PunctualStore) (key other : String) (e? : Option Entry) :
    (p.entriesWith key e?).get? other = if other = key then e? else p.entries.get? other := by
  by_cases hk : other = key
  · subst hk
    cases e? <;> simp [entriesWith]
  · cases e? with
    | none => simp [entriesWith, hk, KeyMap.get?_erase_other _ hk]
    | some e => simp [entriesWith, hk, KeyMap.get?_insert_other _ _ hk]

/-- The store in which a key has this entry, or none. An entry whose deadline has come already goes
at once. -/
def place (p : PunctualStore) (key : String) (e? : Option Entry) : PunctualStore where
  now := p.now
  entries := p.entriesWith key (e?.filter fun e => !e.isDead p.now)
  alive other e h := by
    rw [get?_entriesWith] at h
    split at h
    · simpa using (Option.filter_eq_some_iff.1 h).2
    · exact p.alive other e h
  cursors := p.cursors
  opened := p.opened

/-- Lets a rule decide on the entry of a key. -/
def obey (p : PunctualStore) (key : String) (r : Rule α) : Except Error α × PunctualStore :=
  ((r (p.entries.get? key)).1, p.place key (r (p.entries.get? key)).2)

/-! ## Many keys -/

/-- Deletes keys and counts those that were there. -/
def deleteMany (p : PunctualStore) : List String → Nat × PunctualStore
  | [] => (0, p)
  | key :: keys =>
    let (count, after) := (p.place key none).deleteMany keys
    ((if p.entries.contains key then 1 else 0) + count, after)

/-- Adds the sets at the keys to what has been gathered; the first key of another type fails. -/
def gather (p : PunctualStore) (got : KeySet) : List String → Except Error KeySet × PunctualStore
  | [] => (.ok got, p)
  | key :: keys =>
    match p.obey key (Rule.theSet p.now key) with
    | (.error e, p) => (.error e, p)
    | (.ok none, p) => p.gather got keys
    | (.ok (some set), p) => p.gather (got.union set) keys

/-- The members of any of the sets at the keys, in increasing order. -/
def union (p : PunctualStore) (keys : List String) : Except Error (List String) × PunctualStore :=
  let (r, p) := p.gather KeyMap.empty keys
  (r.map KeyMap.keys, p)

/-- The commands of a batch one after the other, up to the first that fails. -/
def steps (p : PunctualStore) : List BatchStep → Except Error (List BatchReply) × PunctualStore
  | [] => (.ok [], p)
  | b :: bs =>
    match p.obey b.key (b.rule p.now) with
    | (.error e, p) => (.error e, p)
    | (.ok reply, p) =>
      let (r, p) := p.steps bs
      (r.map (reply :: ·), p)

/-- Runs a batch: all of its commands, or none. -/
def execute (p : PunctualStore) (batch : List BatchStep) :
    Except Error (List BatchReply) × PunctualStore :=
  match p.steps batch with
  | (.error e, _) => (.error e, p)
  | (.ok replies, after) => (.ok replies, after)

/-- The keys that come after a key, or all of them. -/
def keysAfter (p : PunctualStore) (after : Option String) : List String :=
  p.entries.keys.filter fun k => after.all (· < k)

/-- A page that looks at `count` more keys, at least one, and shows those that match. -/
def page (p : PunctualStore) (after : Option String) (pattern : String) (count : Nat) :
    (Nat × List String) × PunctualStore :=
  let rest := p.keysAfter after
  let seen := rest.take (max count 1)
  let shown := seen.filter (Glob.accepts pattern)
  match seen.getLast? with
  | none => ((0, shown), p)
  | some last =>
    if rest.length ≤ seen.length then ((0, shown), p)
    else
      ((p.opened + 1, shown),
        { p with cursors := (p.opened + 1, last) :: p.cursors, opened := p.opened + 1 })

/-- The page at a cursor, which closes the cursor, with the cursor of the next page. -/
def scan (p : PunctualStore) (cursor : Nat) (pattern : String) (count : Nat) :
    (Nat × List String) × PunctualStore :=
  if cursor = 0 then p.page none pattern count
  else
    let closed := { p with cursors := p.cursors.filter (·.1 != cursor) }
    match (p.cursors.find? (·.1 == cursor)).map (·.2) with
    | none => ((0, []), closed)
    | some last => closed.page (some last) pattern count

/-- Drops every entry. Open cursors stay open. -/
def flush (p : PunctualStore) : PunctualStore where
  now := p.now
  entries := KeyMap.empty
  alive key e h := by simp at h
  cursors := p.cursors
  opened := p.opened

end PunctualStore

/-! ## The commands -/

namespace Store

/-- What a command is: a rule for one key, or work on many keys. -/
inductive Plan (α : Type) where
  | onKey (key : String) (r : Rule α)
  | wide (f : PunctualStore → Except Error α × PunctualStore)

/-- Carries a plan out. -/
def Plan.run {α : Type} (p : PunctualStore) : Plan α → Except Error α × PunctualStore
  | .onKey key r => p.obey key r
  | .wide f => f p

/-- An answer that cannot fail. -/
def Plan.surely {α : Type} (f : PunctualStore → α × PunctualStore) : Plan α :=
  .wide fun p => (.ok (f p).1, (f p).2)

/-- What each command does at a time. -/
def Call.plan (now : Nat) : (c : Call) → Plan c.Reply
  | .get key => .onKey key (Rule.get key)
  | .set key b life => .onKey key (Rule.set now b life)
  | .delete key => .onKey key Rule.delete
  | .deleteMany keys => .surely fun p => p.deleteMany keys
  | .has key => .onKey key Rule.has
  | .expire key life => .onKey key (Rule.expire now life)
  | .remaining key => .onKey key (Rule.remaining now)
  | .add key delta => .onKey key (Rule.add now key delta)
  | .pushFront key values => .onKey key (Rule.pushFront now key values)
  | .pushBack key values => .onKey key (Rule.pushBack now key values)
  | .range key start stop => .onKey key (Rule.range now key start stop)
  | .trim key start stop => .onKey key (Rule.trim now key start stop)
  | .length key => .onKey key (Rule.length now key)
  | .popFront key => .onKey key (Rule.popFront now key)
  | .addMembers key ms => .onKey key (Rule.addMembers now key ms)
  | .removeMembers key ms => .onKey key (Rule.removeMembers now key ms)
  | .members key => .onKey key (Rule.members now key)
  | .hasMember key member => .onKey key (Rule.hasMember now key member)
  | .union keys => .wide fun p => p.union keys
  | .setField key name b => .onKey key (Rule.setField now key name b)
  | .field key name => .onKey key (Rule.field now key name)
  | .fields key => .onKey key (Rule.fields now key)
  | .removeFields key names => .onKey key (Rule.removeFields now key names)
  | .scan cursor pattern count => .surely fun p => p.scan cursor pattern count
  | .setIfAbsent key b life => .onKey key (Rule.setIfAbsent now b life)
  | .setIfPresent key b life => .onKey key (Rule.setIfPresent now b life)
  | .swap key expected b life => .onKey key (Rule.swap now expected b life)
  | .execute batch _ => .wide fun p => p.execute batch
  | .flush => .surely fun p => ((), p.flush)

/-! ## A store as a punctual one -/

/-- The store as it would be if every entry went at its deadline. -/
def punctual (s : Store) (now : Nat) : PunctualStore where
  now := now
  entries := s.entries.filter fun _ e => !e.isDead now
  alive key e h := by
    rw [KeyMap.get?_filter, Option.filter_eq_some_iff] at h
    simpa using h.2
  cursors := s.cursors
  opened := s.opened

@[simp] theorem now_punctual (s : Store) (now : Nat) : (s.punctual now).now = now := rfl

@[simp] theorem cursors_punctual (s : Store) (now : Nat) :
    (s.punctual now).cursors = s.cursors := rfl

@[simp] theorem opened_punctual (s : Store) (now : Nat) : (s.punctual now).opened = s.opened := rfl

@[simp] theorem get?_punctual (s : Store) (now : Nat) (key : String) :
    (s.punctual now).entries.get? key = s.live? now key := KeyMap.get?_filter _ _ _

@[simp] theorem keys_punctual (s : Store) (now : Nat) :
    (s.punctual now).entries.keys = s.liveKeys now := rfl

end Store

namespace PunctualStore

variable {p q : PunctualStore} {key other : String}

/-! ## Entries of a punctual store -/

theorem ext_entries (hnow : p.now = q.now) (h : ∀ key, p.entries.get? key = q.entries.get? key)
    (hc : p.cursors = q.cursors) (ho : p.opened = q.opened) : p = q :=
  PunctualStore.ext hnow (KeyMap.ext_get? h) hc ho

theorem get?_place_self (p : PunctualStore) (key : String) (e? : Option Entry) :
    (p.place key e?).entries.get? key = e?.filter fun e => !e.isDead p.now := by
  simp [place, get?_entriesWith]

theorem get?_place_other (p : PunctualStore) (e? : Option Entry) (hne : other ≠ key) :
    (p.place key e?).entries.get? other = p.entries.get? other := by
  simp [place, get?_entriesWith, hne]

theorem filter_alive (p : PunctualStore) (key : String) :
    (p.entries.get? key).filter (fun e => !e.isDead p.now) = p.entries.get? key := by
  cases h : p.entries.get? key with
  | none => rfl
  | some e => simp [Option.filter, p.alive key e h]

/-- Looking at an entry leaves all as it is. -/
theorem place_get? (p : PunctualStore) (key : String) : p.place key (p.entries.get? key) = p := by
  refine ext_entries rfl (fun other => ?_) rfl rfl
  by_cases hk : other = key
  · subst hk; rw [get?_place_self, filter_alive]
  · exact p.get?_place_other _ hk

end PunctualStore
end CacheLayer
