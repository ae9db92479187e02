import Endpoints.Action
import Endpoints.Source.Site

/-!
# What annotations do

A pair of a key and a value stands for a change of a draft. Finding the change may need named
sources and may fail; making it never does, so a pair that fails leaves the draft as it was.
-/

namespace Endpoints

inductive Change where
  | nothing
  | summary (text : String)
  | description (text : String)
  | operationId (text : String)
  | deprecated (flag : Bool)
  | extend (field : ListField) (values : List String)
  | parameters (ps : List Parameter)

def Draft.change (d : Draft) : Change → Draft
  | .nothing => d
  | .summary text => { d with summary := some text }
  | .description text => { d with description := some text }
  | .operationId text => { d with operationId := some text }
  | .deprecated flag => { d with deprecated := flag }
  | .extend field values => d.extend field values
  | .parameters ps => d.addParameters ps

/-- The names that a value lists: its pieces between commas, without blanks at their ends. -/
def AnnotationValue.listed (value : AnnotationValue) : List String :=
  (Text.split ',' value.display).map Text.trim

namespace Site

def declaredParameter (hint : Location) (line : String) : Lookup Parameter := do
  Lookup.note (Parameter.declarationNotices line)
  match Parameter.ofDeclaration line hint with
  | .ok p => return p
  | .error fault => Lookup.ofExcept (.error (.malformed line fault))

def changeOfKey (site : Site) (hint : Location) (value : AnnotationValue) :
    AnnotationKey → Lookup Change
  | .summary => pure (.summary value.display)
  | .description => pure (.description value.display)
  | .operationId => pure (.operationId value.display)
  | .deprecated => pure (.deprecated value.isTruthy)
  | .list field => pure (.extend field value.listed)
  | .parameter => do
      let p ← declaredParameter hint value.display
      return .parameters [p]
  | .schema => do
      let ps ← site.schemaParameters hint value.display
      return .parameters ps
  | .fragment => do
      let draft ← site.fragment hint value.display
      return .parameters draft.parameters.toList

/-- The change for which a key with a value stands; a key that is not known changes nothing. -/
def change (site : Site) (hint : Location) (key : String) (value : AnnotationValue) :
    Lookup Change :=
  match AnnotationKey.ofText? key with
  | some known => site.changeOfKey hint value known
  | none => pure .nothing

def apply (site : Site) (hint : Location) (draft : Draft) (key : String)
    (value : AnnotationValue) : Lookup Draft := do
  let change ← site.change hint key value
  return draft.change change

def applyAll (site : Site) (hint : Location) :
    Draft → List (String × AnnotationValue) → Lookup Draft
  | draft, [] => pure draft
  | draft, (key, value) :: rest => do
      let next ← site.apply hint draft key value
      applyAll site hint next rest

end Site

end Endpoints
