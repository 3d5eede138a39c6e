/-
The stored form of events. An event whose texts and numbers are of the sizes that
the fields of its record have, and whose time is an instant, is read back as it
was written, with either codec.

Main statement: `InvalidationEvent.rereads`.
-/
import CacheLayer.Invalidation.Event
import CacheLayer.Proofs.Datum.Reread
import CacheLayer.Proofs.Text.Timestamp

namespace CacheLayer

namespace Text

/-- A character takes four bytes at most. -/
theorem length_utf8_le (s : String) : (utf8 s).length ≤ 4 * s.toList.length := by
  have hchars (cs : List Char) : (cs.flatMap String.utf8EncodeChar).length ≤ 4 * cs.length := by
    induction cs with
    | nil => exact Nat.le_refl 0
    | cons c cs ih =>
      have hc := Char.utf8Size_le_four c
      simp only [List.flatMap_cons, List.length_append, String.length_utf8EncodeChar,
        List.length_cons]
      omega
  have hbytes := hchars s.toList
  rwa [← Json.utf8_ofList, String.ofList_toList] at hbytes

end Text

namespace InvalidationEvent

/-- The sizes of the event are those that the fields of its record have. -/
structure Fits (e : InvalidationEvent) : Prop where
  target : Width.w64.holdsNat (Text.utf8 e.target).length = true
  kind : Width.w64.holdsNat (Text.utf8 e.kind).length = true
  time : Width.w64.holdsNat (Text.utf8 e.time).length = true
  isInstant : Text.Timestamp.isInstant e.time = true
  removed : Width.w64.holdsNat e.removed = true
  duration : Width.w64.holdsNat e.duration = true

variable {e : InvalidationEvent}

/-- **An event is read back as it was written.** -/
theorem rereads (h : e.Fits) (c : Codec) :
    ∃ b, format.encode c e = .ok b ∧ format.decode c b = .ok e := by
  have hjson : Datum.RereadsJson Json.maxDepth schema e.toDatum :=
    .record (.field (Datum.rereadsJson_text _ _) (.field (Datum.rereadsJson_text _ _)
      (.field (Datum.rereadsJson_text _ _) (.field (Datum.rereadsJson_unsigned _ h.removed)
        (.field (Datum.rereadsJson_unsigned _ h.duration) .none))))) (by decide)
  have hpostcard : Datum.Postcard.Rereads schema e.toDatum :=
    .record (.field (Datum.Postcard.rereads_text h.target)
      (.field (Datum.Postcard.rereads_text h.kind) (.field (Datum.Postcard.rereads_text h.time)
        (.field (Datum.Postcard.rereads_unsigned h.removed)
          (.field (Datum.Postcard.rereads_unsigned h.duration) .none)))))
  obtain ⟨b, hencode, hdecode⟩ := Format.decode_ofSchema hjson hpostcard c
  have hofDatum : ofDatum? e.toDatum = some e := if_pos h.isInstant
  refine ⟨b, hencode, ?_⟩
  simp only [format, hdecode, bind, Except.bind, hofDatum]
  rfl

end InvalidationEvent
end CacheLayer
