/-!
# Blank characters

A character is blank when Unicode gives it the property White_Space. Words are the maximal
runs of characters that are not blank, and trimming removes blanks from both ends of a text.
-/

namespace Endpoints.Text

/-- The characters with the property White_Space. -/
def isBlank (c : Char) : Bool :=
  let n := c.toNat
  (0x9 ≤ n && n ≤ 0xD) || n == 0x20 || n == 0x85 || n == 0xA0 || n == 0x1680 ||
    (0x2000 ≤ n && n ≤ 0x200A) || n == 0x2028 || n == 0x2029 || n == 0x202F ||
    n == 0x205F || n == 0x3000

/-- Whether a list of characters is empty or starts with a blank. -/
def startsBlank : List Char → Bool
  | [] => true
  | c :: _ => isBlank c

def wordsOf : List Char → List (List Char)
  | [] => []
  | c :: rest =>
      if isBlank c then wordsOf rest
      else
        match wordsOf rest with
        | [] => [[c]]
        | word :: more => if startsBlank rest then [c] :: word :: more else (c :: word) :: more

def words (s : String) : List String :=
  (wordsOf s.toList).map String.ofList

def trimChars (cs : List Char) : List Char :=
  ((cs.dropWhile isBlank).reverse.dropWhile isBlank).reverse

def trim (s : String) : String :=
  String.ofList (trimChars s.toList)

/-- The pieces of a list between the occurrences of a separator; there is one more piece than
there are separators. -/
def splitAtChar (separator : Char) : List Char → List (List Char)
  | [] => [[]]
  | c :: rest =>
      if c = separator then [] :: splitAtChar separator rest
      else
        match splitAtChar separator rest with
        | [] => [[c]]
        | piece :: pieces => (c :: piece) :: pieces

def split (separator : Char) (s : String) : List String :=
  (splitAtChar separator s.toList).map String.ofList

theorem splitAtChar_ne_nil (separator : Char) (cs : List Char) :
    splitAtChar separator cs ≠ [] := by
  cases cs with
  | nil => simp [splitAtChar]
  | cons c rest =>
    simp only [splitAtChar]
    split
    · simp
    · split <;> simp

end Endpoints.Text
