/-!
# The bytes of a text

Texts are compared by their bytes in UTF-8. The first byte that differs decides, and a text comes
before its continuations.
-/

namespace ReactiveScript

namespace Text

/-- The bytes of a text in UTF-8. -/
def bytes (s : String) : List UInt8 := s.toByteArray.data.toList

/-- Which of two texts comes first by its bytes. -/
def compareBytes (a b : String) : Ordering := compare (bytes a) (bytes b)

end Text

end ReactiveScript
