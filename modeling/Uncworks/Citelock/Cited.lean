import Uncworks.Specs.Sections

/-!
# References to citations

Prose refers to a record of `citations.lock` as `[cite: id]`.  `citedIDs` is the scanner of
`internal/citelock`, and `rubricIDs` what the rubric finds with the regular expression `citeRE`.  Both
read one reference at most up to each closing bracket, the scanner only after a blank.
-/

namespace Uncworks.Citelock

open List Specutil Option

/-- A search that reads a text where it can, and goes on behind what it has read. -/
def scan (read : List Char → Option (List String × ℕ)) : ℕ → List Char → List String
  | _, [] => []
  | skip + 1, _ :: s => scan read skip s
  | 0, c :: s =>
    match read (c :: s) with
    | some (ids, length) => ids ++ scan read (length - 1) s
    | none => scan read 0 s

/-- The pieces of a text that end with a closing bracket. -/
def pieces (text : String) : List (List Char) := (text.toList.splitOn ']').dropLast

section Pieces

variable {opening : List Char} {read : List Char → Option (List String)} {s piece : List Char}

end Pieces

end Uncworks.Citelock
