/-! Text as bytes in UTF-8. -/

namespace StreamOperator

abbrev Bytes := List UInt8

namespace Text

def utf8 (s : String) : Bytes := s.toUTF8.data.toList

def ofUtf8? (bytes : Bytes) : Option String := String.fromUTF8? ⟨bytes.toArray⟩

theorem ofUtf8?_utf8 (s : String) : ofUtf8? (utf8 s) = some s := by
  show String.fromUTF8? ⟨s.toUTF8.data.toList.toArray⟩ = some s
  rw [Array.toArray_toList]
  unfold String.fromUTF8?
  rw [String.toUTF8_eq_toByteArray]
  exact dif_pos s.isValidUTF8

theorem utf8_injective {s t : String} (h : utf8 s = utf8 t) : s = t := by
  simpa [ofUtf8?_utf8] using congrArg ofUtf8? h

end Text

end StreamOperator
