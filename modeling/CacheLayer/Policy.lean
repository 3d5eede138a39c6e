/-
The four policies by which reads, writes and deletes go to the cache and to the
source. All of them read the cache first and load from the source on a miss;
they differ in where a write goes, and in which order.
-/
import CacheLayer.Error
import CacheLayer.Text.Blank

namespace CacheLayer

/-- A read and write policy. -/
inductive Policy where
  /-- A write goes to the cache, then to the source. -/
  | readThrough
  /-- A write goes to the cache, then to the source; if the source fails, the cache forgets it. -/
  | writeThrough
  /-- A write goes to the cache at once and to the source later. -/
  | writeBehind
  /-- A write goes to the source first, then to the cache. -/
  | cacheAside
  deriving DecidableEq, Repr, Inhabited

namespace Policy

def name : Policy → String
  | .readThrough => "read_through"
  | .writeThrough => "write_through"
  | .writeBehind => "write_behind"
  | .cacheAside => "cache_aside"

/-- The name without hyphens, underscores and blanks, in small letters. -/
def squeeze (s : String) : String :=
  Text.lower (String.ofList (s.toList.filter fun c => c != '_' && c != '-' && !Text.isBlank c))

/-- The policy of a name, in any of its spellings. -/
def parse (s : String) : Except Error Policy :=
  match squeeze s with
  | "readthrough" => .ok .readThrough
  | "writethrough" => .ok .writeThrough
  | "writebehind" => .ok .writeBehind
  | "cacheaside" => .ok .cacheAside
  | _ => .error (.config ("unknown cache strategy: " ++ s))

end Policy
end CacheLayer
