/-!
# Edit distance

The least number of insertions, deletions and replacements of single characters that turn one text
into another, computed row by row.
-/

namespace CloudTemplate
namespace Text

/-- One row of the distance table from the row above it.

`corner` is the entry diagonally above the next one, `left` the entry before it. -/
def distanceRow (c : Char) (corner left : Nat) : List Char → List Nat → List Nat
  | d :: ds, above :: row =>
    let entry := min (min (left + 1) (above + 1)) (corner + if c = d then 0 else 1)
    entry :: distanceRow c above entry ds row
  | _, _ => []

/-- The table rows below `row`, which belongs to a start of length `count`; the last entry of the
last row. -/
def distanceBelow (bs : List Char) (count : Nat) (row : List Nat) : List Char → Nat
  | [] => row.getLastD count
  | c :: cs => distanceBelow bs (count + 1) (distanceRow c count (count + 1) bs row) cs

/-- The edit distance of two character lists. -/
def charDistance (as bs : List Char) : Nat :=
  distanceBelow bs 0 ((List.range bs.length).map (· + 1)) as

/-- The edit distance of two texts, in characters. -/
def distance (a b : String) : Nat :=
  charDistance a.toList b.toList

end Text
end CloudTemplate
