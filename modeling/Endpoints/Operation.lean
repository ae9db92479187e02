import Endpoints.HttpMethod
import Endpoints.Overlay

/-!
# Operations

An operation is what a request with one method to one path does, described by names, texts and
parameters. A model holds the operations of a table of routes by path and method.
-/

namespace Endpoints

structure Operation where
  method : HttpMethod
  path : String
  className : Option String := none
  function : Option String := none
  summary : Option String := none
  description : Option String := none
  operationId : Option String := none
  deprecated : Bool := false
  tags : OrderedSet String := Overlay.empty
  consumes : OrderedSet String := Overlay.empty
  produces : OrderedSet String := Overlay.empty
  schemes : OrderedSet String := Overlay.empty
  parameters : List Parameter := []
  deriving DecidableEq

/-- The parameter of a name: the first one that has it. -/
def Operation.parameter? (o : Operation) (name : String) : Option Parameter :=
  o.parameters.find? fun p => p.name = name

abbrev Model := Table String (Table HttpMethod Operation)

namespace Model

/-- Register an operation under a path and its method. It takes the place of an operation
registered there before. -/
def register (m : Model) (path : String) (o : Operation) : Model :=
  m.set path (((m.get? path).getD Overlay.empty).set o.method o)

def operationCount (m : Model) : Nat :=
  (m.values.map fun methods => methods.toList.length).foldr (· + ·) 0

end Model

end Endpoints
