import Endpoints.Annotation.Effect

/-!
# Annotations in place

An operation under construction is edited where it stands: one field, one list value or one
parameter at a time. An edit may look up named sources in between and may fail, and what was
edited before the failure stays edited.
-/

namespace Endpoints

/-- What an edit leaves behind: the draft as it stands when the edit ends or fails, besides what
its lookups leave. -/
structure Edited (α : Type) extends Outcome α where
  draft : Draft

def Edit (α : Type) : Type := Draft → SchemaCache → Edited α

namespace Edit

protected def pure {α : Type} (a : α) : Edit α :=
  fun draft cache => ⟨⟨.ok a, cache, []⟩, draft⟩

protected def bind {α β : Type} (x : Edit α) (f : α → Edit β) : Edit β :=
  fun draft cache =>
    match x draft cache with
    | ⟨⟨.error e, cache, log⟩, draft⟩ => ⟨⟨.error e, cache, log⟩, draft⟩
    | ⟨⟨.ok a, cache, log⟩, draft⟩ =>
        let next := f a draft cache
        ⟨⟨next.result, next.cache, log ++ next.log⟩, next.draft⟩

instance : Monad Edit where
  pure := Edit.pure
  bind := Edit.bind

def lookup {α : Type} (x : Lookup α) : Edit α :=
  fun draft cache => ⟨x cache, draft⟩

def modify (f : Draft → Draft) : Edit Unit :=
  fun draft cache => ⟨⟨.ok (), cache, []⟩, f draft⟩

def extend (field : ListField) : List String → Edit Unit
  | [] => pure ()
  | value :: rest => do
      modify (·.extend field [value])
      extend field rest

def addParameters : List Parameter → Edit Unit
  | [] => pure ()
  | p :: rest => do
      modify (·.addParameter p)
      addParameters rest

end Edit

namespace Site

def editOfKey (site : Site) (hint : Location) (value : AnnotationValue) :
    AnnotationKey → Edit Unit
  | .summary => Edit.modify fun d => { d with summary := some value.display }
  | .description => Edit.modify fun d => { d with description := some value.display }
  | .operationId => Edit.modify fun d => { d with operationId := some value.display }
  | .deprecated => Edit.modify fun d => { d with deprecated := value.isTruthy }
  | .list field => Edit.extend field value.listed
  | .parameter => do
      let p ← Edit.lookup (declaredParameter hint value.display)
      Edit.modify (·.addParameter p)
  | .schema => do
      let ps ← Edit.lookup (site.schemaParameters hint value.display)
      Edit.addParameters ps
  | .fragment => do
      let fragment ← Edit.lookup (site.fragment hint value.display)
      Edit.addParameters fragment.parameters.toList

/-- The edit for which a key with a value stands; a key that is not known edits nothing. -/
def edit (site : Site) (hint : Location) (key : String) (value : AnnotationValue) : Edit Unit :=
  match AnnotationKey.ofText? key with
  | some known => site.editOfKey hint value known
  | none => pure ()

end Site

end Endpoints
