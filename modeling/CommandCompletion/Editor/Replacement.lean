/-
The part of a line that a candidate replaces.

Suggestions count the characters they replace from the end of the line. An
editor works with byte offsets, so the place where the replaced part begins has
to be found in the line, and the line cut there.
-/
import CommandCompletion.Text.Bytes

set_option autoImplicit false

namespace CommandCompletion.Editor

/-- The line without its last `count` characters, and those characters. A line
that is too short is replaced as a whole. -/
def splitEnd (line : String) (count : Nat) : String × String :=
  let cs := line.toList
  let kept := cs.length - count
  (String.ofList (cs.take kept), String.ofList (cs.drop kept))

/-- Byte offset at which the last `count` characters begin; it is always between two characters. -/
def replaceStart (line : String) (count : Nat) : Nat :=
  Text.byteLength (splitEnd line count).1.toList

/-- The two parts make up the line, whatever the number of characters is. -/
theorem splitEnd_append (line : String) (count : Nat) :
    (splitEnd line count).1 ++ (splitEnd line count).2 = line := by
  apply String.toList_injective
  simp [splitEnd]

/-- The same for the characters of the line, which offsets are counted in. -/
theorem toList_splitEnd_append (line : String) (count : Nat) :
    line.toList = (splitEnd line count).1.toList ++ (splitEnd line count).2.toList := by
  rw [← String.toList_append, splitEnd_append]

/-! ## Cutting at byte offsets -/

/-- The text left of a byte offset, `none` if that is not between two characters. -/
def leftOf? (text : String) (offset : Nat) : Option String :=
  (Text.splitAtByte? offset text.toList).map fun (left, _) => String.ofList left

/-- The text right of a byte offset, `none` if that is not between two characters. -/
def rightOf? (text : String) (offset : Nat) : Option String :=
  (Text.splitAtByte? offset text.toList).map fun (_, right) => String.ofList right

end CommandCompletion.Editor
