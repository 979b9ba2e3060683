/-!
# Octets of characters

A character is written as one to four octets. The characters from one code point to another are
therefore rows of octet ranges, which `octetRows` gives in ascending order. A row takes in every
combination of its octets, so the code points are cut where the number of octets changes and
where a part of a block of continuation octets is left out.
-/

namespace AccessPolicy.Text

/-- The octets of a code point. -/
def octets (n : Nat) : List Nat :=
  if n < 0x80 then [n]
  else if n < 0x800 then [0xC0 + n / 0x40, 0x80 + n % 0x40]
  else if n < 0x10000 then [0xE0 + n / 0x1000, 0x80 + n / 0x40 % 0x40, 0x80 + n % 0x40]
  else
    [0xF0 + n / 0x40000, 0x80 + n / 0x1000 % 0x40, 0x80 + n / 0x40 % 0x40, 0x80 + n % 0x40]

/-- How many octets a code point has. -/
def octetCount (n : Nat) : Nat := (octets n).length

/-- The code points with the same number of octets. Surrogates have none. -/
def octetBlocks : List (Nat × Nat) :=
  [(0, 0x7F), (0x80, 0x7FF), (0x800, 0xD7FF), (0xE000, 0xFFFF), (0x10000, 0x10FFFF)]

/-- How many code points the continuation octets after an octet stand for: one, two or three of
them. -/
def blockSizes : List Nat := [0x40, 0x1000, 0x40000]

/-- Cuts a range of code points where it leaves out a part of a block. What is left between its
ends are whole blocks of the smallest size, which are cut by the next one. -/
def cutBlocks : List Nat → (low high : Nat) → List (Nat × Nat)
  | [], low, high => [(low, high)]
  | size :: sizes, low, high =>
    if low / size = high / size then [(low, high)]
    else
      let start := (low + (size - 1)) / size * size
      let stop := (high + 1) / size * size
      (if low < start then [(low, start - 1)] else [])
        ++ (if start < stop then cutBlocks sizes start (stop - 1) else [])
        ++ (if stop ≤ high then [(stop, high)] else [])

/-- The rows of octet ranges of the characters from one code point to another. -/
def octetRows (low high : Nat) : List (List (Nat × Nat)) :=
  octetBlocks.flatMap fun (first, last) =>
    let low := max low first
    let high := min high last
    if high < low then []
    else
      let pieces := if last ≤ 0x7F then [(low, high)] else cutBlocks blockSizes low high
      pieces.map fun (a, b) => (octets a).zip (octets b)

end AccessPolicy.Text
