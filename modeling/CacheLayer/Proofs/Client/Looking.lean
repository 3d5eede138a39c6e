/-
The typed client and the memory of its engine. To encode and to decode, the client looks at the
memory; no request of a caller changes it, and none ever waits (`looks_act`).
-/
import CacheLayer.Proofs.Client.Coding
import CacheLayer.Proofs.Client.Request

namespace CacheLayer.Client

open CacheLayer.Program

variable {V α β : Type} {f : Format α}

/-! ## Parts of requests -/

theorem looks_encode (key : String) (a : α) :
    (encode f key a : Action V Bytes).outcome.Looks :=
  each_encode (Q := Ask.Looks) (fun _ => rfl) (fun _ => trivial) f key a

theorem looks_decode (key : String) (b : Bytes) :
    (decode f key b : Action V α).outcome.Looks :=
  each_then (each_always looks_memory) fun _ => each_pure _

theorem looks_encodeItem (a : α) : (encodeItem f a : Action V Bytes).outcome.Looks :=
  each_then (each_always looks_memory) fun _ => each_pure _

theorem looks_decodeItem (b : Bytes) : (decodeItem f b : Action V α).outcome.Looks :=
  each_then (each_always looks_memory) fun _ => each_pure _

theorem looks_command (c : Store.Call) : (Action.command c : Action V c.Reply).outcome.Looks :=
  each_lift trivial

theorem looks_set (key : String) (a : α) (life : Option Nat) :
    (set f key a life : Action V Unit).outcome.Looks :=
  each_set (Q := Ask.Looks) (fun _ => rfl) (fun _ => trivial) (fun _ _ => trivial) f a life

theorem looks_get (key : String) : (get f key : Action V α).outcome.Looks :=
  each_get (Q := Ask.Looks) (fun _ => rfl) trivial f

theorem looks_swap (key : String) (expected a : α) (life : Option Nat) :
    (swap f key expected a life : Action V Bool).outcome.Looks := by
  refine each_then (looks_command _) fun found => ?_
  cases found with
  | none => exact each_pure _
  | some kept =>
    refine each_then (looks_decode key kept) fun current => ?_
    refine each_then (looks_encodeItem current) fun b => ?_
    refine each_then (looks_encodeItem expected) fun b' => ?_
    split
    · exact each_then (looks_encode key a) fun _ => looks_command _
    · exact each_pure _

theorem looks_scanKeys (pattern : String) :
    (scanKeys pattern : Action V (List String)).outcome.Looks :=
  each_scanKeys (Q := Ask.Looks) trivial fun _ => trivial

theorem looks_deleteChunks (parts : List (List String)) :
    (deleteChunks parts : Action V Nat).outcome.Looks := by
  induction parts with
  | nil => exact each_pure _
  | cons part parts ih =>
    exact each_then (looks_command _) fun _ => each_then ih fun _ => each_pure _

theorem looks_popFront (key : String) : (popFront f key : Action V (Option α)).outcome.Looks := by
  refine each_then (looks_command _) fun found => ?_
  cases found with
  | none => exact each_pure _
  | some b => exact each_then (looks_decodeItem b) fun _ => each_pure _

theorem looks_field (key name : String) :
    (field f key name : Action V (Option α)).outcome.Looks := by
  refine each_then (looks_command _) fun found => ?_
  cases found with
  | none => exact each_pure _
  | some b => exact each_then (looks_decodeItem b) fun _ => each_pure _

theorem looks_fields (key : String) :
    (fields f key : Action V (List (String × α))).outcome.Looks :=
  each_then (looks_command _) fun _ =>
    each_mapM (fun _ => each_then (looks_decodeItem _) fun _ => each_pure _) _

theorem looks_batchStep (entry : Entry α) :
    (batchStep f entry : Action V BatchStep).outcome.Looks := by
  cases entry with
  | plain step => exact each_pure _
  | _ => exact each_then (looks_encode _ _) fun _ => each_pure _

theorem looks_execute (steps : List BatchStep) (atomic : Bool) :
    (execute steps atomic : Action V (List BatchReply)).outcome.Looks := by
  unfold execute
  split
  · exact each_pure _
  · exact looks_command _

/-! ## Requests -/

/-- No request of a caller changes the memory of the engine or waits. -/
theorem looks_act (f : Format α) (r : Request α) :
    (r.act f : Action V r.Reply).outcome.Looks := by
  cases r with
  | set key a life => exact looks_set key a life
  | get key => exact looks_get key
  | setIfAbsent key a life => exact each_then (looks_encode key a) fun _ => looks_command _
  | setIfPresent key a life => exact each_then (looks_encode key a) fun _ => looks_command _
  | swap key expected a life => exact looks_swap key expected a life
  | subtract key delta =>
    exact each_then (each_always (each_word trivial _ _)) fun _ => looks_command _
  | scanKeys pattern => exact looks_scanKeys pattern
  | deletePattern pattern =>
    exact each_then (looks_scanKeys pattern) fun _ => looks_deleteChunks _
  | pushFront key as => exact each_then (each_mapM looks_encodeItem as) fun _ => looks_command _
  | pushBack key as => exact each_then (each_mapM looks_encodeItem as) fun _ => looks_command _
  | range key start stop =>
    exact each_then (looks_command _) fun bs => each_mapM looks_decodeItem bs
  | popFront key => exact looks_popFront key
  | setField key name a => exact each_then (looks_encodeItem a) fun _ => looks_command _
  | field key name => exact looks_field key name
  | fields key => exact looks_fields key
  | prepare entry => exact looks_batchStep entry
  | execute steps atomic => exact looks_execute steps atomic
  | batch entries atomic =>
    exact each_then (each_mapM looks_batchStep entries) fun _ => looks_execute _ atomic
  | checkHealth => exact each_lift trivial
  | _ => exact looks_command _

end CacheLayer.Client
