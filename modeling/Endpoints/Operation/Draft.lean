import Endpoints.Annotation.Key
import Endpoints.Operation

/-!
# Drafts of operations

A draft collects what annotations say about an operation. Its parameters are laid over each
other by name, and its lists grow without repetition. Finishing a draft settles the location of
every parameter and changes nothing else.
-/

namespace Endpoints

abbrev ParameterOverlay := Overlay Parameter.name

/-- An operation that is not finished. A draft without a method carries parameters only. -/
structure Draft where
  method : Option HttpMethod := none
  className : Option String := none
  function : Option String := none
  summary : Option String := none
  description : Option String := none
  operationId : Option String := none
  deprecated : Bool := false
  tags : OrderedSet String := Overlay.empty
  consumes : OrderedSet String := Overlay.empty
  produces : OrderedSet String := Overlay.empty
  schemes : OrderedSet String := Overlay.empty
  parameters : ParameterOverlay := Overlay.empty
  deriving DecidableEq

namespace Draft

def start (method : HttpMethod) (className function : String) : Draft where
  method := some method
  className := some className
  function := some function

def blank : Draft := {}

def addParameter (d : Draft) (p : Parameter) : Draft :=
  { d with parameters := d.parameters.put p }

def addParameters (d : Draft) (ps : List Parameter) : Draft :=
  { d with parameters := d.parameters.putAll ps }

def parameter? (d : Draft) (name : String) : Option Parameter :=
  d.parameters.find? name

def list (d : Draft) : ListField → OrderedSet String
  | .tags => d.tags
  | .consumes => d.consumes
  | .produces => d.produces
  | .schemes => d.schemes

/-- Add values to a list field; a value that is there already stays where it is. -/
def extend (d : Draft) (field : ListField) (values : List String) : Draft :=
  match field with
  | .tags => { d with tags := d.tags.putAll values }
  | .consumes => { d with consumes := d.consumes.putAll values }
  | .produces => { d with produces := d.produces.putAll values }
  | .schemes => { d with schemes := d.schemes.putAll values }

/-- The method of the finished operation: a draft without one becomes a `get`. -/
def finalMethod (d : Draft) : HttpMethod :=
  d.method.getD .get

/-- Finish a draft at a path. A parameter of open location goes where it was suggested, or
else to the default location of the method. -/
def finish (d : Draft) (path : String) : Operation where
  method := d.finalMethod
  path := path
  className := d.className
  function := d.function
  summary := d.summary
  description := d.description
  operationId := d.operationId
  deprecated := d.deprecated
  tags := d.tags
  consumes := d.consumes
  produces := d.produces
  schemes := d.schemes
  parameters := d.parameters.toList.map (Parameter.settle d.finalMethod.defaultLocation)

end Draft

end Endpoints
