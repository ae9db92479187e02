import Endpoints.Annotation.Effect
import Endpoints.Proofs.Schema.Answers

/-!
# A resolver whose files change

A resolver is asked for schemas directly, by annotations and by entries of fragments, and its
files are edited in between. Every step is shown to be the questions that it asks, one after the
other, so what holds of answers to questions holds of all steps.
-/

namespace Endpoints

namespace Site

open Lookup Answer

/-- The questions of the entries of a fragment. The entries end at the first one that fails. -/
def entryInquiries (site : Site) (hint : Location) :
    SchemaCache → List FragmentEntry → List Inquiry
  | _, [] => []
  | cache, .schema name :: rest =>
      let q : Inquiry := ⟨site, hint, name⟩
      match (q.ask cache).result with
      | .ok _ => q :: entryInquiries site hint (q.ask cache).cache rest
      | .error _ => [q]
  | cache, .parameter p :: rest =>
      if p.name = "" then [] else entryInquiries site hint cache rest

def fragmentInquiries (site : Site) (hint : Location) (name : String) (cache : SchemaCache) :
    List Inquiry :=
  (site.readFragment name).toOption.elim [] fun (_, fragment) =>
    site.entryInquiries hint cache fragment.entries

def inquiries (site : Site) (hint : Location) (key : String) (value : AnnotationValue)
    (cache : SchemaCache) : List Inquiry :=
  match AnnotationKey.ofText? key with
  | some .schema => [⟨site, hint, value.display⟩]
  | some .fragment => site.fragmentInquiries hint value.display cache
  | _ => []

def assemble (hint : Location) (path : String) :
    Draft → List FragmentEntry → List (Except Error (List Parameter)) → Except Error Draft
  | draft, .schema _ :: rest, .ok ps :: results =>
      assemble hint path (draft.addParameters ps) rest results
  | _, .schema _ :: _, .error e :: _ => .error e
  | draft, .parameter p :: rest, results =>
      if p.name = "" then .error (.invalidSource path .unnamedEntry)
      else assemble hint path (draft.addParameters [withHint hint p]) rest results
  | draft, _, _ => .ok draft

/-- What the entries of a fragment give, leave and note is what their questions do. -/
theorem addEntries_eq (site : Site) (hint : Location) (path : String) (draft : Draft)
    (entries : List FragmentEntry) (cache : SchemaCache) :
    site.addEntries hint path draft entries cache =
      ⟨assemble hint path draft entries
          ((all cache (site.entryInquiries hint cache entries)).map Answer.result),
        cacheAfter cache (site.entryInquiries hint cache entries),
        (all cache (site.entryInquiries hint cache entries)).flatMap Answer.log⟩ := by
  induction entries generalizing draft cache with
  | nil => rfl
  | cons entry rest ih =>
    cases entry with
    | schema name =>
      let q : Inquiry := ⟨site, hint, name⟩
      have hask : site.entryParameters hint path (.schema name) cache = q.ask cache := rfl
      cases hr : (q.ask cache).result with
      | error e =>
        have hstop : site.entryInquiries hint cache (.schema name :: rest) = [q] := by
          simp only [entryInquiries]
          rw [hr]
        rw [addEntries, bind_of_error (hask ▸ hr), hask, hstop]
        simp [all, cacheAfter, Inquiry.answer, hr, assemble]
      | ok ps =>
        have hgo : site.entryInquiries hint cache (.schema name :: rest) =
            q :: site.entryInquiries hint (q.ask cache).cache rest := by
          simp only [entryInquiries]
          rw [hr]
        rw [addEntries, bind_of_ok (hask ▸ hr), hask, ih, hgo]
        simp [all, cacheAfter, Inquiry.answer, hr, assemble]
    | parameter p =>
      by_cases hp : p.name = ""
      · have hr : (site.entryParameters hint path (.parameter p) cache) =
            ⟨.error (.invalidSource path .unnamedEntry), cache, []⟩ := by
          simp [entryParameters, hp]
        rw [addEntries, bind_of_error (congrArg Outcome.result hr), hr]
        simp [entryInquiries, all, cacheAfter, assemble, hp]
      · have hr : (site.entryParameters hint path (.parameter p) cache) =
            ⟨.ok [withHint hint p], cache, []⟩ := by
          simp [entryParameters, hp]
        rw [addEntries, bind_of_ok (congrArg Outcome.result hr), hr, ih]
        simp [entryInquiries, assemble, hp]

theorem fragment_eq {site : Site} {hint : Location} {name path : String} {fragment : Fragment}
    (h : site.readFragment name = .ok (path, fragment)) (cache : SchemaCache) :
    site.fragment hint name cache =
      ⟨assemble hint path Draft.blank fragment.entries
          ((all cache (site.fragmentInquiries hint name cache)).map Answer.result),
        cacheAfter cache (site.fragmentInquiries hint name cache),
        (all cache (site.fragmentInquiries hint name cache)).flatMap Answer.log⟩ := by
  have hfound : (ofExcept (site.readFragment name) cache).result = .ok (path, fragment) := h
  have hasked : site.fragmentInquiries hint name cache =
      site.entryInquiries hint cache fragment.entries := by
    rw [fragmentInquiries, h]
    rfl
  rw [Site.fragment, bind_of_ok hfound, hasked]
  simp only [ofExcept_apply, addEntries_eq, List.nil_append]

theorem cache_fragment (site : Site) (hint : Location) (name : String) (cache : SchemaCache) :
    (site.fragment hint name cache).cache =
      cacheAfter cache (site.fragmentInquiries hint name cache) := by
  cases hr : site.readFragment name with
  | error e =>
    have hfailed : (ofExcept (site.readFragment name) cache).result = .error e := hr
    rw [Site.fragment, bind_of_error hfailed, fragmentInquiries, hr]
    rfl
  | ok found => rw [fragment_eq hr]

theorem cache_apply (site : Site) (hint : Location) (draft : Draft) (key : String)
    (value : AnnotationValue) (cache : SchemaCache) :
    (site.apply hint draft key value cache).cache =
      cacheAfter cache (site.inquiries hint key value cache) := by
  rw [apply, cache_map]
  unfold change inquiries
  cases AnnotationKey.ofText? key with
  | none => rfl
  | some known =>
    cases known with
    | parameter =>
      refine (cache_map (declaredParameter hint value.display) _ cache).trans ?_
      unfold declaredParameter
      cases Parameter.ofDeclaration value.display hint <;> rfl
    | schema => exact cache_map (site.schemaParameters hint value.display) _ cache
    | fragment =>
      refine (cache_map (site.fragment hint value.display) _ cache).trans ?_
      exact site.cache_fragment hint value.display cache
    | _ => rfl

end Site

/-- The files that a resolver sees and the schemas that it has read. -/
structure Resolver where
  site : Site := {}
  cache : SchemaCache := Overlay.empty

namespace Resolver

open Answer

inductive Step where
  /-- Files are made, overwritten or removed. -/
  | edit (change : FileTree → FileTree)
  /-- A schema is asked for directly. -/
  | schema (hint : Location) (name : String)
  | apply (hint : Location) (draft : Draft) (key : String) (value : AnnotationValue)
  | fragment (hint : Location) (name : String)

def next (r : Resolver) : Step → Resolver
  | .edit change => { r with site := { r.site with files := change r.site.files } }
  | .schema hint name => { r with cache := (r.site.schemaParameters hint name r.cache).cache }
  | .apply hint draft key value =>
      { r with cache := (r.site.apply hint draft key value r.cache).cache }
  | .fragment hint name => { r with cache := (r.site.fragment hint name r.cache).cache }

def inquiries (r : Resolver) : Step → List Inquiry
  | .edit _ => []
  | .schema hint name => [⟨r.site, hint, name⟩]
  | .apply hint _ key value => r.site.inquiries hint key value r.cache
  | .fragment hint name => r.site.fragmentInquiries hint name r.cache

theorem cache_next (r : Resolver) (step : Step) :
    (r.next step).cache = cacheAfter r.cache (r.inquiries step) := by
  cases step with
  | edit change => rfl
  | schema hint name => rfl
  | apply hint draft key value => exact r.site.cache_apply hint draft key value r.cache
  | fragment hint name => exact r.site.cache_fragment hint name r.cache

/-- The answers that a resolver gives in the course of some steps. -/
def history : Resolver → List Step → List Answer
  | _, [] => []
  | r, step :: rest => all r.cache (r.inquiries step) ++ history (r.next step) rest

/-- A history is questions asked one after the other. -/
theorem exists_history_eq_all (r : Resolver) (steps : List Step) :
    ∃ qs, r.history steps = all r.cache qs := by
  induction steps generalizing r with
  | nil => exact ⟨[], rfl⟩
  | cons step rest ih =>
    obtain ⟨qs, hqs⟩ := ih (r.next step)
    refine ⟨r.inquiries step ++ qs, ?_⟩
    rw [history, hqs, cache_next, all_append]

/-- A file that cannot be read is mended, read, and broken again. -/
example :
    let good := "fields: \x7bage: \x7btype: uuid\x7d\x7d".toUTF8
    let bad := "fields: [".toUTF8
    (history {}
      [.edit (·.plant "schemas/user.yaml" good), .edit (·.plant "schemas/user.yml" bad),
        .schema .query "user", .edit (·.plant "schemas/user.yml" good),
        .apply .body Draft.blank "params" (.text "user"),
        .edit (·.plant "schemas/user.yml" bad), .schema .header "user"]).map
      (·.result.isOk) = [false, true, true] := by
  decide +kernel

end Resolver

end Endpoints
