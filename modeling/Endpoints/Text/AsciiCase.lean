/-!
# Letter case of ASCII letters

Names that a route table may write in either case are compared after their ASCII letters are
put in lower case. All other characters stand for themselves.
-/

namespace Endpoints.Text

def lowerChar (c : Char) : Char :=
  if 'A' ≤ c ∧ c ≤ 'Z' then Char.ofNat (c.toNat + 32) else c

def lower (s : String) : String :=
  String.ofList (s.toList.map lowerChar)

def sameLetters (a b : List Char) : Bool :=
  a.map lowerChar == b.map lowerChar

end Endpoints.Text
