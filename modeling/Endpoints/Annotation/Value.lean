import Endpoints.Decimal.Notation

/-!
# Values of annotations

A route table attaches values to keys. A value is a truth value, a whole number of 64 bits, a
binary number or a text. It acts through its text, except where a key asks for a switch.
-/

namespace Endpoints

inductive AnnotationValue where
  | bool (b : Bool)
  | int (n : Int64)
  | float (x : Float)
  | text (s : String)

namespace AnnotationValue

instance : Inhabited AnnotationValue := ⟨.text ""⟩

/-- Numbers act through their shortest digits, written positionally however long they are. -/
def layout : Decimal.Layout where
  positional := none
  pointZero := false
  tie := .up
  notANumber := "NaN"
  infinity := "inf"
  negativeInfinity := "-inf"

def display : AnnotationValue → String
  | .bool true => "true"
  | .bool false => "false"
  | .int n => toString n.toInt
  | .float x => layout.write x
  | .text s => s

/-- Whether a value turns a switch on: only `true`, the number one and the texts `1` and
`true` do. -/
def isTruthy : AnnotationValue → Bool
  | .bool b => b
  | .int n => n = 1
  | .float _ => false
  | .text s => s = "1" ∨ s = "true"

def kind : AnnotationValue → String
  | .bool _ => "bool"
  | .int _ => "int"
  | .float _ => "float"
  | .text _ => "text"

end AnnotationValue

end Endpoints
