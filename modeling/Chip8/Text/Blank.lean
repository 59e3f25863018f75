/-
# Chip8.Text.Blank -- blank characters and the text between them

`isBlank` lists the characters that may surround an option's value, a key name or a
numeral: the ASCII blanks, the Unicode space separators, the two line and paragraph
separators and the byte order mark.  `trim` takes them off both ends; a text that starts
and ends with other characters stays as it is (`trim_eq_self`).
-/
set_option autoImplicit false

namespace Chip8

/-- Code points of the blank characters. -/
def blankCodes : List Nat :=
  [0x9, 0xa, 0xb, 0xc, 0xd, 0x20, 0xa0, 0x1680,
   0x2000, 0x2001, 0x2002, 0x2003, 0x2004, 0x2005, 0x2006, 0x2007, 0x2008, 0x2009, 0x200a,
   0x2028, 0x2029, 0x202f, 0x205f, 0x3000, 0xfeff]

def isBlank (c : Char) : Bool := blankCodes.contains c.toNat

/-- The characters that end a line. -/
def isLineEnd (c : Char) : Bool := [0xa, 0xd, 0x2028, 0x2029].contains c.toNat

/-- The text without the blanks at its two ends. -/
def trim (text : List Char) : List Char :=
  ((text.dropWhile isBlank).reverse.dropWhile isBlank).reverse

/-- `text` with copies of `c` in front, up to `width` characters. -/
def padLeft (width : Nat) (c : Char) (text : String) : String :=
  String.ofList (List.leftpad width c text.toList)

/-- `text` with spaces after it, up to `width` characters. -/
def padRight (width : Nat) (text : String) : String :=
  String.ofList (List.rightpad width ' ' text.toList)

theorem padLeft_eq (width : Nat) (c : Char) (text : String) :
    padLeft width c text = String.ofList (List.replicate (width - text.length) c) ++ text := by
  simp [padLeft, List.leftpad, String.ofList_append, String.length_toList]

theorem padRight_eq (width : Nat) (text : String) :
    padRight width text = text ++ String.ofList (List.replicate (width - text.length) ' ') := by
  simp [padRight, List.rightpad, String.ofList_append, String.length_toList]

theorem dropWhile_eq_self {α : Type} {p : α → Bool} {l : List α}
    (h : ∀ a, l.head? = some a → p a = false) : l.dropWhile p = l := by
  cases l with
  | nil => rfl
  | cons a t => simp [h a rfl]

/-- A text whose first and last characters are not blank has nothing to lose. -/
theorem trim_eq_self {text : List Char} (first : ∀ c, text.head? = some c → isBlank c = false)
    (last : ∀ c, text.getLast? = some c → isBlank c = false) : trim text = text := by
  rw [trim, dropWhile_eq_self first, dropWhile_eq_self, List.reverse_reverse]
  intro c h
  exact last c (by simpa using h)

end Chip8
