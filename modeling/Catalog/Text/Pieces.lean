/-!
# Pieces of text

Joining, cutting and searching of texts. All searches are exact: a character is found only as
itself. A blank is a character with the Unicode property `White_Space`, and a word is a maximal run
of characters that are not blank.

* `joinWith` puts a separator between texts, and `splitAt` cuts at a character;
* `occursIn` looks for a text inside another, `replaceAll` exchanges every occurrence from the left;
* `replaceChar` exchanges one character for another;
* `splitBlank` cuts a text at every blank, and `words` keeps the pieces that are not empty;
* `trim` drops the blanks at both ends, `trimEnd` those at the end only.
-/

namespace Catalog.Text

/-! ### Pieces of text -/

/-- Texts in their order with a separator between neighbours. -/
def joinWith (separator : String) : List String → String
  | [] => ""
  | [s] => s
  | s :: t :: rest => s ++ separator ++ joinWith separator (t :: rest)

/-- The pieces of a text between the occurrences of a character, empty ones included. -/
def splitChars (separator : Char) : List Char → List (List Char)
  | [] => [[]]
  | c :: cs =>
    if c == separator then [] :: splitChars separator cs
    else
      match splitChars separator cs with
      | [] => [[c]]
      | piece :: rest => (c :: piece) :: rest

/-- The pieces of a string between the occurrences of a character, empty ones included. -/
def splitAt (separator : Char) (s : String) : List String :=
  (splitChars separator s.toList).map String.ofList

/-- Whether a word occurs somewhere in a text, as the empty word always does. -/
def occursIn (word : List Char) : List Char → Bool
  | [] => word.isEmpty
  | c :: cs => word.isPrefixOf (c :: cs) || occursIn word cs

/-- Whether a string occurs somewhere in another. -/
def contains (text word : String) : Bool := occursIn word.toList text.toList

/-- Exchanges every occurrence of a word, from the left and without overlaps, where `skip`
characters still belong to the last occurrence. -/
def replaceFrom (old new : List Char) : Nat → List Char → List Char
  | _, [] => []
  | skip + 1, _ :: cs => replaceFrom old new skip cs
  | 0, c :: cs =>
    if old.isPrefixOf (c :: cs) then new ++ replaceFrom old new (old.length - 1) cs
    else c :: replaceFrom old new 0 cs

/-- A string with every occurrence of a word that is not empty exchanged for another. -/
def replaceAll (old new s : String) : String :=
  String.ofList (replaceFrom old.toList new.toList 0 s.toList)

/-- A string with every occurrence of one character exchanged for another. -/
def replaceChar (old new : Char) (s : String) : String :=
  String.ofList (s.toList.map fun c => if c = old then new else c)

/-- What follows a leading character, if the string starts with it. -/
def afterLeading (c : Char) (s : String) : Option String :=
  match s.toList with
  | d :: rest => if d = c then some (String.ofList rest) else none
  | [] => none

/-- Whether a string starts with a character. -/
def startsWith (c : Char) (s : String) : Bool := s.toList.head? == some c

/-- A string without the leading run of a character. -/
def dropLeading (c : Char) (s : String) : String :=
  String.ofList (s.toList.dropWhile (· == c))

/-- A string filled up with spaces on the left to a width. -/
def padLeft (width : Nat) (s : String) : String :=
  String.ofList (List.replicate (width - s.length) ' ') ++ s

/-- The number of bytes of a string in UTF-8. -/
def byteLength (s : String) : Nat := s.toList.foldl (fun n c => n + c.utf8Size) 0

/-! ### Blanks and words -/

/-- Whether a character is white space, which U+0085 and U+00A0 are and U+200B is not. -/
def isBlank (c : Char) : Bool :=
  let n := c.toNat
  (9 ≤ n && n ≤ 13) || n == 0x20 || n == 0x85 || n == 0xA0 || n == 0x1680 ||
    (0x2000 ≤ n && n ≤ 0x200A) || n == 0x2028 || n == 0x2029 || n == 0x202F || n == 0x205F ||
    n == 0x3000

/-- Puts a character in front of the first piece. -/
def consPiece (c : Char) : List (List Char) → List (List Char)
  | [] => [[c]]
  | piece :: rest => (c :: piece) :: rest

/-- The pieces of a text between its blanks, empty ones included. -/
def splitBlank : List Char → List (List Char)
  | [] => [[]]
  | c :: cs => if isBlank c then [] :: splitBlank cs else consPiece c (splitBlank cs)

/-- The words of a text in their order. -/
def words (s : String) : List String :=
  ((splitBlank s.toList).filter fun piece => !piece.isEmpty).map String.ofList

/-- A text without the blanks at its end. -/
def trimEnd (s : String) : String :=
  String.ofList (s.toList.reverse.dropWhile isBlank).reverse

/-- A text without the blanks at its ends. -/
def trim (s : String) : String :=
  String.ofList ((s.toList.dropWhile isBlank).reverse.dropWhile isBlank).reverse

end Catalog.Text
