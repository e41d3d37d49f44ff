import CritterScript.Text.Blank

/-!
# Text as characters

Scripts, literals and settings are read as lists of characters, while places
inside a line are counted in UTF-8 bytes (`byteSize`). `words` cuts a line at
its blank characters and gives each word the byte column at which it starts;
`trim` removes the blank ends of a text.
-/

namespace CritterScript.Text

/-- The number of bytes of a text in UTF-8. -/
def byteSize (cs : List Char) : Nat :=
  cs.foldr (fun c n => c.utf8Size + n) 0

@[simp] theorem byteSize_nil : byteSize [] = 0 := rfl

@[simp] theorem byteSize_cons (c : Char) (cs : List Char) :
    byteSize (c :: cs) = c.utf8Size + byteSize cs := rfl

@[simp] theorem byteSize_append (xs ys : List Char) :
    byteSize (xs ++ ys) = byteSize xs + byteSize ys := by
  induction xs with
  | nil => rw [List.nil_append, byteSize_nil, Nat.zero_add]
  | cons c xs ih => rw [List.cons_append, byteSize_cons, byteSize_cons, ih, Nat.add_assoc]

/-- What `dropWhile` keeps is no longer than the list. -/
theorem length_dropWhile_le (p : Char → Bool) (cs : List Char) :
    (cs.dropWhile p).length ≤ cs.length :=
  (List.dropWhile_sublist p).length_le

/-- The words of a text, each with the byte column of its first character
when the text itself starts at `column`. A word is a maximal run of
characters that are not blank. -/
def words (column : Nat) (cs : List Char) : List (Nat × List Char) :=
  match h : cs.dropWhile isBlank with
  | [] => []
  | c :: rest =>
    have shorter : rest.length < cs.length := by
      have := length_dropWhile_le isBlank cs
      simp only [h, List.length_cons] at this
      omega
    let start := column + byteSize (cs.takeWhile isBlank)
    let word := c :: rest.takeWhile fun d => !isBlank d
    (start, word) :: words (start + byteSize word) (rest.dropWhile fun d => !isBlank d)
termination_by cs.length
decreasing_by exact Nat.lt_of_le_of_lt (length_dropWhile_le _ rest) shorter

/-- What follows the first `n` bytes of a text, if a character ends there. -/
def dropBytes? : (n : Nat) → List Char → Option (List Char)
  | 0, cs => some cs
  | _ + 1, [] => none
  | n + 1, c :: cs => if c.utf8Size ≤ n + 1 then dropBytes? (n + 1 - c.utf8Size) cs else none

/-- A text without the blank characters at its two ends. -/
def trim (cs : List Char) : List Char :=
  ((cs.dropWhile isBlank).reverse.dropWhile isBlank).reverse

/-- The text with blank ends removed, as a string. -/
def trimmed (s : String) : String :=
  String.ofList (trim s.toList)

/-- Whether `needle` occurs in a text. -/
def occursIn (needle : List Char) : List Char → Bool
  | [] => needle.isEmpty
  | c :: cs => needle.isPrefixOf (c :: cs) || occursIn needle cs

/-- The text filled up with spaces on the right to `width` characters. -/
def padRight (width : Nat) (s : String) : String :=
  s ++ String.ofList (List.replicate (width - s.length) ' ')

/-- The text filled up with spaces on the left to `width` characters. -/
def padLeft (width : Nat) (s : String) : String :=
  String.ofList (List.replicate (width - s.length) ' ') ++ s

end CritterScript.Text
