/-
The requests that callers make of the typed client, as data, each with the action
that it is. A still action asks what keys hold and changes none of it; a careful
one has changed none of it if it fails. What is still can come before what is
careful (`isCareful_then`), which is how most requests are made: values are
encoded, and then the store carries out one command or fails (`isCareful_command`).
-/
import CacheLayer.Client
import CacheLayer.Proofs.Program.Serving
import CacheLayer.Proofs.Store.Deletion

namespace CacheLayer

variable {V α β : Type} {s : Scene V} {key : String}

/-! ## Still and careful actions -/

namespace Action

/-- All requests of the action leave every key alone. -/
abbrev IsStill (a : Action V α) : Prop := a.outcome.IsStill

/-- When the action fails, every key holds what it held. -/
def IsCareful (a : Action V α) : Prop :=
  ∀ s : Scene V, s.Serving → ∀ e, (a.outcome.run s).1 = .error e → s.Alike (a.outcome.run s).2

theorem isStill_pure (a : α) : (pure a : Action V α).IsStill := fun _ => trivial

theorem isStill_ofExcept (r : Except Error α) : (ofExcept r : Action V α).IsStill :=
  fun _ => trivial

theorem isStill_memory : (always Program.memory : Action V (Memory V)).IsStill :=
  fun _ => Program.each_always (Program.each_lift trivial)

theorem isStill_command {c : Store.Call} (h : c.asks = true) :
    (command c : Action V c.Reply).IsStill := fun _ => Program.each_lift (.inl h)

theorem isStill_then {a : Action V α} {f : α → Action V β} (ha : a.IsStill)
    (hf : ∀ x, (f x).IsStill) : (a >>= f).IsStill :=
  fun key => Program.each_then (ha key) fun x => hf x key

theorem isStill_mapM {f : α → Action V β} (hf : ∀ a, (f a).IsStill) (as : List α) :
    (as.mapM f).IsStill := by
  induction as with
  | nil =>
    rw [List.mapM_nil]
    exact isStill_pure _
  | cons a as ih =>
    rw [List.mapM_cons]
    exact isStill_then (hf a) fun b => isStill_then ih fun bs => isStill_pure _

theorem IsStill.isCareful {a : Action V α} (h : a.IsStill) : a.IsCareful :=
  fun _ hs _ _ => h.alike hs

/-- A command that fails has changed nothing. -/
theorem isCareful_command (c : Store.Call) : (command c : Action V c.Reply).IsCareful := by
  intro s hs e he
  rw [run_command hs.steady] at he ⊢
  exact ⟨rfl, fun key => Store.live?_failed hs.filled he key⟩

theorem isCareful_then {a : Action V α} {f : α → Action V β} (ha : a.IsStill)
    (hf : ∀ x, (f x).IsCareful) : (a >>= f).IsCareful := by
  intro s hs e he
  have halike : s.Alike (a.outcome.run s).2 := ha.alike hs
  have hserving : (a.outcome.run s).2.Serving := Program.serving_run hs _
  rw [run_bind] at he ⊢
  cases hr : (a.outcome.run s).1 with
  | error e' =>
    rw [andThen_error]
    exact halike
  | ok x =>
    rw [hr, andThen_ok] at he
    rw [andThen_ok]
    exact halike.trans (hf x _ hserving e he)

/-- An action that does not fail is careful. -/
theorem isCareful_of_ok {a : Action V α}
    (h : ∀ s : Scene V, s.Serving → ∃ x, (a.outcome.run s).1 = .ok x) : a.IsCareful := by
  intro s hs e he
  obtain ⟨x, hx⟩ := h s hs
  rw [hx] at he
  cases he

end Action

namespace Client

open CacheLayer.Action

/-! ## Requests -/

/-- A request of a caller. -/
inductive Request (α : Type) where
  | set (key : String) (a : α) (life : Option Nat)
  | get (key : String)
  | delete (key : String)
  | deleteMany (keys : List String)
  | has (key : String)
  | expire (key : String) (life : Nat)
  | remaining (key : String)
  | setIfAbsent (key : String) (a : α) (life : Option Nat)
  | setIfPresent (key : String) (a : α) (life : Option Nat)
  | swap (key : String) (expected a : α) (life : Option Nat)
  | add (key : String) (delta : Int)
  | subtract (key : String) (delta : Int)
  | scanKeys (pattern : String)
  | deletePattern (pattern : String)
  | pushFront (key : String) (as : List α)
  | pushBack (key : String) (as : List α)
  | range (key : String) (start stop : Int)
  | trim (key : String) (start stop : Int)
  | length (key : String)
  | popFront (key : String)
  | addMembers (key : String) (members : List String)
  | removeMembers (key : String) (members : List String)
  | members (key : String)
  | hasMember (key member : String)
  | union (keys : List String)
  | setField (key name : String) (a : α)
  | field (key name : String)
  | fields (key : String)
  | removeFields (key : String) (names : List String)
  /-- Makes a command of a batch ready. -/
  | prepare (entry : Entry α)
  /-- Sends the commands of a batch. -/
  | execute (steps : List BatchStep) (atomic : Bool)
  | batch (entries : List (Entry α)) (atomic : Bool)
  | flush
  | checkHealth

namespace Request

/-- What the caller gets. -/
abbrev Reply : Request α → Type
  | set .. | trim .. | flush => Unit
  | get _ => α
  | delete _ | has _ | expire .. | setIfAbsent .. | setIfPresent .. | swap .. | hasMember ..
  | setField .. | checkHealth => Bool
  | deleteMany _ | deletePattern _ | pushFront .. | pushBack .. | length _ | addMembers ..
  | removeMembers .. | removeFields .. => Nat
  | remaining _ => Remaining
  | add .. | subtract .. => Int
  | scanKeys _ | members _ | union _ => List String
  | range .. => List α
  | popFront _ | field .. => Option α
  | fields _ => List (String × α)
  | prepare _ => BatchStep
  | execute .. | batch .. => List BatchReply

/-- What the client does. -/
def act (f : Format α) : (r : Request α) → Action V r.Reply
  | set key a life => Client.set f key a life
  | get key => Client.get f key
  | delete key => Client.delete key
  | deleteMany keys => Client.deleteMany keys
  | has key => Client.has key
  | expire key life => Client.expire key life
  | remaining key => Client.remaining key
  | setIfAbsent key a life => Client.setIfAbsent f key a life
  | setIfPresent key a life => Client.setIfPresent f key a life
  | swap key expected a life => Client.swap f key expected a life
  | add key delta => Client.add key delta
  | subtract key delta => Client.subtract key delta
  | scanKeys pattern => Client.scanKeys pattern
  | deletePattern pattern => Client.deletePattern pattern
  | pushFront key as => Client.pushFront f key as
  | pushBack key as => Client.pushBack f key as
  | range key start stop => Client.range f key start stop
  | trim key start stop => Client.trim key start stop
  | length key => Client.length key
  | popFront key => Client.popFront f key
  | addMembers key ms => Client.addMembers key ms
  | removeMembers key ms => Client.removeMembers key ms
  | members key => Client.members key
  | hasMember key member => Client.hasMember key member
  | union keys => Client.union keys
  | setField key name a => Client.setField f key name a
  | field key name => Client.field f key name
  | fields key => Client.fields f key
  | removeFields key names => Client.removeFields key names
  | prepare entry => Client.batchStep f entry
  | execute steps atomic => Client.execute steps atomic
  | batch entries atomic => Client.batch f entries atomic
  | flush => Client.flush
  | checkHealth => Action.checkHealth

end Request

/-! ## Parts of requests -/

variable {f : Format α}

theorem isStill_encode (key : String) (a : α) : (encode f key a : Action V Bytes).IsStill := by
  unfold encode
  refine isStill_then isStill_memory fun m => isStill_then (isStill_ofExcept _) fun b => ?_
  refine isStill_then (fun _ => Program.each_always (Program.each_lift trivial)) fun fresh => ?_
  exact isStill_then (isStill_ofExcept _) fun x => isStill_ofExcept _

theorem isStill_decode (key : String) (b : Bytes) : (decode f key b : Action V α).IsStill :=
  isStill_then isStill_memory fun _ => isStill_ofExcept _

theorem isStill_encodeItem (a : α) : (encodeItem f a : Action V Bytes).IsStill :=
  isStill_then isStill_memory fun _ => isStill_ofExcept _

theorem isStill_decodeItem (b : Bytes) : (decodeItem f b : Action V α).IsStill :=
  isStill_then isStill_memory fun _ => isStill_ofExcept _

theorem isStill_batchStep (entry : Entry α) :
    (batchStep f entry : Action V BatchStep).IsStill := by
  cases entry with
  | plain step => exact isStill_pure _
  | _ => exact isStill_then (isStill_encode _ _) fun b => isStill_pure _

theorem isStill_get (key : String) : (get f key : Action V α).IsStill := by
  refine isStill_then (isStill_command rfl) fun found => ?_
  cases found with
  | none => exact fun _ => trivial
  | some b => exact isStill_decode key b

theorem isStill_field (key name : String) : (field f key name : Action V (Option α)).IsStill := by
  refine isStill_then (isStill_command rfl) fun found => ?_
  cases found with
  | none => exact isStill_pure _
  | some b => exact isStill_then (isStill_decodeItem b) fun a => isStill_pure _

theorem isStill_fields (key : String) :
    (fields f key : Action V (List (String × α))).IsStill :=
  isStill_then (isStill_command rfl) fun _ =>
    isStill_mapM (fun _ => isStill_then (isStill_decodeItem _) fun _ => isStill_pure _) _

/-- A scan asks how many entries there are, and then for page after page. -/
theorem each_scanKeys {Q : Ask V → Prop} {pattern : String} (hextent : Q .extent)
    (hscan : ∀ cursor, Q (.command (.scan cursor pattern pageSize))) :
    (scanKeys pattern : Action V (List String)).outcome.Each Q := by
  have hpages (pages cursor : Nat) :
      (pagesFrom pattern pages cursor : Action V (List String)).outcome.Each Q := by
    induction pages generalizing cursor with
    | zero => exact Program.each_pure _
    | succ pages ih =>
      refine Program.each_then (Program.each_lift (hscan cursor)) fun page => ?_
      change (if page.1 = 0 then _ else _ : Action V (List String)).outcome.Each Q
      split
      · exact Program.each_pure _
      · exact Program.each_then (ih page.1) fun rest => Program.each_pure _
  exact Program.each_then (Program.each_always (Program.each_lift hextent)) fun _ =>
    Program.each_then (hpages _ _) fun _ => Program.each_pure _

theorem isStill_scanKeys (pattern : String) :
    (scanKeys pattern : Action V (List String)).IsStill :=
  fun _ => each_scanKeys trivial fun _ => .inl rfl

theorem isCareful_execute (steps : List BatchStep) (atomic : Bool) :
    (execute steps atomic : Action V (List BatchReply)).IsCareful := by
  unfold execute
  split
  · exact (isStill_pure _).isCareful
  · exact isCareful_command _

theorem isCareful_swap (key : String) (expected a : α) (life : Option Nat) :
    (swap f key expected a life : Action V Bool).IsCareful := by
  refine isCareful_then (isStill_command rfl) fun found => ?_
  cases found with
  | none => exact (isStill_pure _).isCareful
  | some kept =>
    refine isCareful_then (isStill_decode key kept) fun current => ?_
    refine isCareful_then (isStill_encodeItem current) fun b => ?_
    refine isCareful_then (isStill_encodeItem expected) fun b' => ?_
    split
    · exact isCareful_then (isStill_encode key a) fun _ => isCareful_command _
    · exact (isStill_pure _).isCareful

theorem run_deleteMany (hs : s.world.Steady) (keys : List String) :
    (deleteMany keys : Action V Nat).outcome.run s =
      (.ok (s.world.store.deleteMany s.world.now keys).1,
        s.withStore (s.world.store.deleteMany s.world.now keys).2) :=
  run_command hs _

/-- Deleting chunk by chunk comes to deleting all at once. -/
theorem run_deleteChunks (hs : s.world.Steady) (parts : List (List String)) :
    (deleteChunks parts : Action V Nat).outcome.run s =
      (.ok (s.world.store.deleteMany s.world.now parts.flatten).1,
        s.withStore (s.world.store.deleteMany s.world.now parts.flatten).2) := by
  induction parts generalizing s with
  | nil => rfl
  | cons chunk rest ih =>
    have hchunk := run_deleteMany hs chunk
    have hrest := ih (s := s.withStore (s.world.store.deleteMany s.world.now chunk).2) hs
    rw [deleteChunks, Action.run_bind_ok hchunk, Action.run_bind_ok hrest, List.flatten_cons,
      Store.deleteMany_append]
    rfl

end Client
end CacheLayer
