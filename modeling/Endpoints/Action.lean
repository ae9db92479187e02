import Endpoints.Annotation.Value
import Endpoints.Overlay
import Endpoints.Target

/-!
# Actions

An action is a target with the routes that lead to it and the values attached to it. Values of
one key are collected under the first occurrence of the key; keys are compared as they are
written.
-/

namespace Endpoints

structure Action where
  target : Target
  routes : List String := []
  /-- The values of each key, in the order in which they were attached. -/
  annotations : Table String (List AnnotationValue) := Overlay.empty

namespace Action

def addRoute (a : Action) (route : String) : Action :=
  { a with routes := a.routes ++ [route] }

def annotate (a : Action) (key : String) (value : AnnotationValue) : Action :=
  { a with annotations :=
      a.annotations.set key ((a.annotations.get? key).getD [] ++ [value]) }

/-- The pairs of a key and one of its values, in the order in which they take effect. -/
def attached (a : Action) : List (String × AnnotationValue) :=
  a.annotations.toList.flatMap fun (key, values) => values.map fun value => (key, value)

end Action

end Endpoints
