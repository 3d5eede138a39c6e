/-
The commands of the store as data, so that they can be asked for, counted and
made to fail. `Call.Reply` is the type of a command's answer and `Call.run`
what the command does.
-/
import CacheLayer.Store.Batch
import CacheLayer.Store.Containers
import CacheLayer.Store.Walk

namespace CacheLayer.Store

inductive Method where
  | get | set | delete | deleteMany | has | expire | remaining | add
  | pushFront | pushBack | range | trim | length | popFront
  | addMembers | removeMembers | members | hasMember | union
  | setField | field | fields | removeFields
  | scan | setIfAbsent | setIfPresent | swap | execute | flush
  deriving DecidableEq, Repr

namespace Method

def all : List Method :=
  [.get, .set, .delete, .deleteMany, .has, .expire, .remaining, .add, .pushFront, .pushBack, .range,
    .trim, .length, .popFront, .addMembers, .removeMembers, .members, .hasMember, .union, .setField,
    .field, .fields, .removeFields, .scan, .setIfAbsent, .setIfPresent, .swap, .execute, .flush]

/-- The name of the command on the wire. -/
def name : Method → String
  | .get => "get"
  | .set => "set"
  | .delete => "delete"
  | .deleteMany => "delete_many"
  | .has => "exists"
  | .expire => "expire"
  | .remaining => "ttl"
  | .add => "incr_by"
  | .pushFront => "lpush"
  | .pushBack => "rpush"
  | .range => "lrange"
  | .trim => "ltrim"
  | .length => "llen"
  | .popFront => "lpop"
  | .addMembers => "sadd"
  | .removeMembers => "srem"
  | .members => "smembers"
  | .hasMember => "sismember"
  | .union => "sunion"
  | .setField => "hset"
  | .field => "hget"
  | .fields => "hgetall"
  | .removeFields => "hdel"
  | .scan => "scan"
  | .setIfAbsent => "set_nx"
  | .setIfPresent => "set_xx"
  | .swap => "compare_and_swap"
  | .execute => "execute"
  | .flush => "flush_db"

def ofName? (name : String) : Option Method := all.find? fun m => m.name == name

end Method

inductive Call where
  | get (key : String)
  | set (key : String) (b : Bytes) (life : Option Nat)
  | delete (key : String)
  | deleteMany (keys : List String)
  | has (key : String)
  | expire (key : String) (life : Nat)
  | remaining (key : String)
  | add (key : String) (delta : Int)
  | pushFront (key : String) (values : List Bytes)
  | pushBack (key : String) (values : List Bytes)
  | range (key : String) (start stop : Int)
  | trim (key : String) (start stop : Int)
  | length (key : String)
  | popFront (key : String)
  | addMembers (key : String) (members : List String)
  | removeMembers (key : String) (members : List String)
  | members (key : String)
  | hasMember (key member : String)
  | union (keys : List String)
  | setField (key field : String) (b : Bytes)
  | field (key field : String)
  | fields (key : String)
  | removeFields (key : String) (names : List String)
  | scan (cursor : Nat) (pattern : String) (count : Nat)
  | setIfAbsent (key : String) (b : Bytes) (life : Option Nat)
  | setIfPresent (key : String) (b : Bytes) (life : Option Nat)
  | swap (key : String) (expected b : Bytes) (life : Option Nat)
  | execute (batch : List BatchStep) (atomic : Bool)
  | flush

namespace Call

def method : Call → Method
  | .get .. => .get
  | .set .. => .set
  | .delete .. => .delete
  | .deleteMany .. => .deleteMany
  | .has .. => .has
  | .expire .. => .expire
  | .remaining .. => .remaining
  | .add .. => .add
  | .pushFront .. => .pushFront
  | .pushBack .. => .pushBack
  | .range .. => .range
  | .trim .. => .trim
  | .length .. => .length
  | .popFront .. => .popFront
  | .addMembers .. => .addMembers
  | .removeMembers .. => .removeMembers
  | .members .. => .members
  | .hasMember .. => .hasMember
  | .union .. => .union
  | .setField .. => .setField
  | .field .. => .field
  | .fields .. => .fields
  | .removeFields .. => .removeFields
  | .scan .. => .scan
  | .setIfAbsent .. => .setIfAbsent
  | .setIfPresent .. => .setIfPresent
  | .swap .. => .swap
  | .execute .. => .execute
  | .flush => .flush

/-- What a command answers when it does not fail. -/
abbrev Reply : Call → Type
  | .get .. => Option Bytes
  | .set .. => Unit
  | .delete .. => Bool
  | .deleteMany .. => Nat
  | .has .. => Bool
  | .expire .. => Bool
  | .remaining .. => Remaining
  | .add .. => Int
  | .pushFront .. => Nat
  | .pushBack .. => Nat
  | .range .. => List Bytes
  | .trim .. => Unit
  | .length .. => Nat
  | .popFront .. => Option Bytes
  | .addMembers .. => Nat
  | .removeMembers .. => Nat
  | .members .. => List String
  | .hasMember .. => Bool
  | .union .. => List String
  | .setField .. => Bool
  | .field .. => Option Bytes
  | .fields .. => KeyMap Bytes
  | .removeFields .. => Nat
  | .scan .. => Nat × List String
  | .setIfAbsent .. => Bool
  | .setIfPresent .. => Bool
  | .swap .. => Bool
  | .execute .. => List BatchReply
  | .flush => Unit

/-- An answer that cannot fail, as an outcome. -/
def sure {α : Type} (r : α × Store) : Outcome α := (.ok r.1, r.2)

/-- Carries out a command. Whether a batch is atomic makes no difference to a store that serves
one command at a time. -/
def run (now : Nat) (s : Store) : (c : Call) → Outcome c.Reply
  | .get key => s.get now key
  | .set key b life => (.ok (), s.set now key b life)
  | .delete key => sure (s.delete now key)
  | .deleteMany keys => sure (s.deleteMany now keys)
  | .has key => sure (s.has now key)
  | .expire key life => sure (s.expire now key life)
  | .remaining key => sure (s.remaining now key)
  | .add key delta => s.add now key delta
  | .pushFront key values => s.pushFront now key values
  | .pushBack key values => s.pushBack now key values
  | .range key start stop => s.range now key start stop
  | .trim key start stop => s.trim now key start stop
  | .length key => s.length now key
  | .popFront key => s.popFront now key
  | .addMembers key ms => s.addMembers now key ms
  | .removeMembers key ms => s.removeMembers now key ms
  | .members key => s.members now key
  | .hasMember key member => s.hasMember now key member
  | .union keys => s.union now keys
  | .setField key name b => s.setField now key name b
  | .field key name => s.field now key name
  | .fields key => s.fields now key
  | .removeFields key names => s.removeFields now key names
  | .scan cursor pattern count => sure (s.scan now cursor pattern count)
  | .setIfAbsent key b life => sure (s.setWhen now false key b life)
  | .setIfPresent key b life => sure (s.setWhen now true key b life)
  | .swap key expected b life => sure (s.swap now key expected b life)
  | .execute batch _ => s.execute now batch
  | .flush => (.ok (), s.flush)

end Call
end CacheLayer.Store
