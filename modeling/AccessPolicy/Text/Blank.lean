import AccessPolicy.Text.Range

/-!
# Blank characters

The characters with the property *White_Space*. They are what `\s` matches in a pattern and
what is trimmed from the ends of a setting.
-/

namespace AccessPolicy.Text

/-- The ranges of the blank characters. -/
def blankRanges : List (Nat × Nat) := [
  (0x09, 0x0D), (0x20, 0x20), (0x85, 0x85), (0xA0, 0xA0), (0x1680, 0x1680), (0x2000, 0x200A),
  (0x2028, 0x2029), (0x202F, 0x202F), (0x205F, 0x205F), (0x3000, 0x3000)]

/-- Whether a character is blank. -/
def isBlank (c : Char) : Bool := inRanges blankRanges c.toNat

/-- A text without the blanks at its ends. -/
def trim (s : String) : String :=
  String.ofList (((s.toList.dropWhile isBlank).reverse.dropWhile isBlank).reverse)

/-- A text with the letters of the basic alphabet in lower case. -/
def lowercase (s : String) : String := String.ofList (s.toList.map Char.toLower)

end AccessPolicy.Text
