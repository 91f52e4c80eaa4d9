/-!
# Blank characters

The characters that count as blank, and cutting text at them or trimming them away.
-/

set_option autoImplicit false
set_option relaxedAutoImplicit false

namespace LiveDoc.Text

def blankRanges : List (Nat × Nat) :=
  [(0x09, 0x0D), (0x20, 0x20), (0x85, 0x85), (0xA0, 0xA0), (0x1680, 0x1680), (0x2000, 0x200A),
    (0x2028, 0x2029), (0x202F, 0x202F), (0x205F, 0x205F), (0x3000, 0x3000)]

/-- A character is blank if its code point has the property `White_Space`. -/
def isBlank (c : Char) : Bool :=
  blankRanges.any fun range => range.1 ≤ c.toNat && c.toNat ≤ range.2

def trimChars (cs : List Char) : List Char :=
  ((cs.dropWhile isBlank).reverse.dropWhile isBlank).reverse

def trim (s : String) : String :=
  String.ofList (trimChars s.toList)

/-- Text that holds nothing but blanks, in particular the empty text. -/
def isAllBlank (s : String) : Bool :=
  s.toList.all isBlank

/-- The pieces between separators, empty ones included: one more than there are separators. -/
def pieces (separates : Char → Bool) : List Char → List (List Char)
  | [] => [[]]
  | c :: rest =>
    match pieces separates rest with
    | [] => [[c]]
    | piece :: more => if separates c then [] :: piece :: more else (c :: piece) :: more

/-- The words of a text: its longest runs of characters that are not blank. -/
def words (s : String) : List String :=
  ((pieces isBlank s.toList).filter (!·.isEmpty)).map String.ofList

/-- The trimmed pieces of a text between its commas. -/
def commaParts (s : String) : List String :=
  (pieces (· == ',') s.toList).map fun piece => String.ofList (trimChars piece)

theorem pieces_ne_nil (separates : Char → Bool) (cs : List Char) : pieces separates cs ≠ [] := by
  cases cs with
  | nil => simp [pieces]
  | cons c rest =>
    simp only [pieces]
    split
    · simp
    · split <;> simp

end LiveDoc.Text
