/-!
# Edit distance

The number of single-character insertions, deletions and substitutions between two texts, kept
one row of the usual table at a time, and the candidate nearest to a text.
-/

namespace StateGuard.Text

/-- The cells of the next row after its first one. `left` is the cell just written, `diag` the
cell above it, and `above` the rest of the row above. -/
def fillRow (c : Char) (left diag : Nat) : List Char → List Nat → List Nat
  | d :: ds, up :: above =>
    let cell := min (min (up + 1) (left + 1)) (diag + if c = d then 0 else 1)
    cell :: fillRow c cell up ds above
  | _, _ => []

/-- The row for one more character of the first text. -/
def nextRow (other : List Char) : List Nat → Char → List Nat
  | [], _ => []
  | corner :: above, c => (corner + 1) :: fillRow c (corner + 1) corner other above

/-- The edit distance of two character sequences. -/
def editDistance (a b : List Char) : Nat :=
  (a.foldl (nextRow b) (List.range (b.length + 1))).getLastD 0

/-- The first of the candidates at the least distance from `target`. -/
def nearest (target : String) : List String → Option String
  | [] => none
  | candidate :: rest =>
    match nearest target rest with
    | none => some candidate
    | some other =>
      if editDistance target.toList candidate.toList ≤ editDistance target.toList other.toList
      then some candidate
      else some other

end StateGuard.Text
