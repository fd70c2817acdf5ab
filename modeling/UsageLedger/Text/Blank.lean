/-!
White space in the sense of the Unicode property `White_Space`, and the cutting of text at it.
-/

namespace UsageLedger.Text

/-- The characters with the property, as ranges of code points. -/
def blankRanges : List (Nat × Nat) :=
  [(0x09, 0x0D), (0x20, 0x20), (0x85, 0x85), (0xA0, 0xA0), (0x1680, 0x1680), (0x2000, 0x200A),
    (0x2028, 0x2029), (0x202F, 0x202F), (0x205F, 0x205F), (0x3000, 0x3000)]

def IsBlank (c : Char) : Prop := ∃ range ∈ blankRanges, range.1 ≤ c.toNat ∧ c.toNat ≤ range.2

instance (c : Char) : Decidable (IsBlank c) :=
  inferInstanceAs (Decidable (∃ range ∈ blankRanges, _))

/-- The text without blanks at its start. -/
def trimStart (text : List Char) : List Char := text.dropWhile fun c => IsBlank c

/-- The text without blanks at either end. -/
def trim (text : List Char) : List Char := (trimStart (trimStart text).reverse).reverse

/-- The maximal runs without blanks, in order. -/
def words : List Char → List (List Char)
  | [] => []
  | c :: rest =>
    if IsBlank c then words rest
    else
      match rest, words rest with
      | d :: _, word :: others =>
        if IsBlank d then [c] :: word :: others else (c :: word) :: others
      | _, others => [c] :: others

/-- The pieces between line feeds. Text that ends with a line feed has an empty last piece. -/
def lines : List Char → List (List Char)
  | [] => [[]]
  | c :: rest =>
    match lines rest with
    | [] => [[c]]
    | line :: others => if c = '\n' then [] :: line :: others else (c :: line) :: others

end UsageLedger.Text
