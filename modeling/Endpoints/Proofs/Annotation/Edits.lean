import Endpoints.Annotation.Editing
import Endpoints.Proofs.Schema.Growth

/-!
# Annotations that fail in place

Every known key looks up what it needs before it edits anything, and the editing itself cannot
fail. So an edit is the lookup of a change followed by that change, and one that fails has changed
nothing but the cache of the schemas that were read on the way.
-/

namespace Endpoints

namespace Edit

variable {α β : Type}

theorem bind_modify (f g : Draft → Draft) :
    (modify f >>= fun _ => modify g) = modify fun d => g (f d) := rfl

theorem extend_eq (field : ListField) (values : List String) :
    extend field values = modify fun d => d.extend field values := by
  induction values with
  | nil => cases field <;> rfl
  | cons value rest ih =>
    rw [extend, ih, bind_modify]
    cases field <;> rfl

theorem addParameters_eq (ps : List Parameter) :
    addParameters ps = modify fun d => d.addParameters ps := by
  induction ps with
  | nil => rfl
  | cons p rest ih =>
    rw [addParameters, ih, bind_modify]
    rfl

theorem lookup_map_bind (x : Lookup α) (g : α → β) (f : β → Edit Unit) :
    (lookup (x >>= fun a => pure (g a)) >>= f) = (lookup x >>= fun a => f (g a)) := by
  funext draft cache
  simp only [bind, Edit.bind, Lookup.bind, lookup]
  cases x cache with
  | mk result after log => cases result <;> simp [pure, Lookup.pure]

/-- Looking up a change and making it: a success leaves the draft changed, and a failure the
draft that was given. -/
theorem lookup_modify_apply (x : Lookup α) (f : α → Draft → Draft) (draft : Draft)
    (cache : SchemaCache) :
    (lookup x >>= fun a => modify (f a)) draft cache =
      ⟨⟨(x cache).result.map fun _ => (), (x cache).cache, (x cache).log⟩,
        (((x cache).result.map fun a => f a draft).toOption).getD draft⟩ := by
  simp only [bind, Edit.bind, lookup]
  cases x cache with
  | mk result after log =>
    cases result with
    | error e => rfl
    | ok a => simp [modify, Except.map, Except.toOption]

end Edit

namespace Site

/-- Every known key is edited in two steps: what it needs is looked up, and then the draft is
changed. -/
theorem editOfKey_eq (site : Site) (hint : Location) (value : AnnotationValue)
    (known : AnnotationKey) :
    site.editOfKey hint value known =
      (Edit.lookup (site.changeOfKey hint value known) >>= fun change =>
        Edit.modify fun d => d.change change) := by
  cases known with
  | summary | description | operationId | deprecated => rfl
  | list field => exact Edit.extend_eq field value.listed
  | parameter =>
    refine .trans ?_ (Edit.lookup_map_bind _ _ _).symm
    rfl
  | schema =>
    refine .trans ?_ (Edit.lookup_map_bind _ _ _).symm
    exact congrArg (_ >>= ·) (funext Edit.addParameters_eq)
  | fragment =>
    refine .trans ?_ (Edit.lookup_map_bind _ _ _).symm
    exact congrArg (_ >>= ·) (funext fun found => Edit.addParameters_eq found.parameters.toList)

theorem edit_eq (site : Site) (hint : Location) (key : String) (value : AnnotationValue) :
    site.edit hint key value =
      (Edit.lookup (site.change hint key value) >>= fun change =>
        Edit.modify fun d => d.change change) := by
  unfold edit change
  cases AnnotationKey.ofText? key with
  | none => rfl
  | some known => exact site.editOfKey_eq hint value known

/-- Editing in place does what applying does: it gives and leaves the same, and the draft becomes
the one that applying returns, if there is one. -/
theorem edit_eq_apply (site : Site) (hint : Location) (key : String) (value : AnnotationValue)
    (draft : Draft) (cache : SchemaCache) :
    site.edit hint key value draft cache =
      let applied := site.apply hint draft key value cache
      ⟨⟨applied.result.map fun _ => (), applied.cache, applied.log⟩,
        applied.result.toOption.getD draft⟩ := by
  rw [edit_eq, Edit.lookup_modify_apply]
  simp only [apply, Lookup.result_map, Lookup.cache_map, Lookup.log_map, map_map_result]

/-- An annotation that fails leaves the operation under construction as it was, in every field.
Besides, schemas may have been read for the first time before the failure: these are kept, each as
a fresh load gives it, behind those that were known. -/
theorem edit_failure_leaves_draft (site : Site) (hint : Location) (key : String)
    (value : AnnotationValue) (draft : Draft) (cache : SchemaCache) {e : Error}
    (h : (site.edit hint key value draft cache).result = .error e) :
    (site.edit hint key value draft cache).draft = draft ∧
      site.Extends cache (site.edit hint key value draft cache).cache := by
  simp only [edit_eq_apply] at h ⊢
  have hcache := site.extends_apply hint draft key value cache
  cases hr : (site.apply hint draft key value cache).result with
  | error _ => exact ⟨by simp [Except.toOption], hcache⟩
  | ok next =>
    rw [hr] at h
    cases h

def halfInclude : Site where
  files :=
    (FileTree.empty.plant "schemas/user.yml" "fields: \x7bage: \x7btype: uuid\x7d\x7d".toUTF8).plant
      "includes/both.yml" ("parameters: [\x7bname: id\x7d, \x7bx-include-schema: user\x7d, " ++
        "\x7bx-include-schema: ghost\x7d]").toUTF8

/-- The fragment brings in a parameter and a schema before it fails. The parameter of the draft
that has the same name stays, and the schema is kept behind one whose file is gone. -/
theorem edit_failure_leaves_draft_half :
    let draft := (Draft.start .get "Users" "list").addParameter
      (Parameter.guessed "id" TypeSpec.text .header)
    let known : SchemaCache := Table.set Overlay.empty "page" {}
    let edited := halfInclude.edit .query "include" (.text "both") draft known
    edited.result = .error (.unresolved .schema "ghost" "schemas/ghost.yml") ∧
      edited.draft = draft ∧ edited.cache.keys = ["page", "user"] ∧
      edited.cache.get? "page" = some {} ∧
      ∀ schema, edited.cache.get? "user" = some schema →
        (halfInclude.schema "user" Overlay.empty).result = .ok schema := by
  intro draft known edited
  have hrun : edited.result = .error (.unresolved .schema "ghost" "schemas/ghost.yml") ∧
      edited.cache.keys = ["page", "user"] := by
    decide +kernel
  have hleft : edited.draft = draft ∧ halfInclude.Extends known edited.cache :=
    halfInclude.edit_failure_leaves_draft .query "include" (.text "both") draft known hrun.1
  obtain ⟨hdraft, hextends⟩ := hleft
  exact ⟨hrun.1, hdraft, hrun.2, hextends.get?_of_known rfl,
    fun schema hfound => hextends.fresh_of_gained hfound rfl⟩

end Site

end Endpoints
