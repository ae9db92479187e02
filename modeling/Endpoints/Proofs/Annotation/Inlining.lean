import Endpoints.Annotation.Effect
import Endpoints.Proofs.Lookup.Settling

/-!
# Fragments are the entries that they list

The parameters of a fragment are laid over each other before they are laid over a draft. This
changes neither a value nor a position: a draft that takes over a fragment becomes what it becomes
when the entries are applied to it where they stand, one after the other.
-/

namespace Endpoints

/-- What is laid over one draft before it is taken over by another may be laid over the other. -/
theorem Draft.addParameters_addParameters (draft collected : Draft) (ps : List Parameter) :
    draft.addParameters (collected.addParameters ps).parameters.toList =
      (draft.addParameters collected.parameters.toList).addParameters ps := by
  have h := Overlay.putAll_toList_putAll draft.parameters collected.parameters ps
  exact congrArg (fun parameters => { draft with parameters }) h

theorem Lookup.map_bind {α β γ : Type} (x : Lookup α) (f : α → β) (g : β → Lookup γ) :
    ((x >>= fun a => pure (f a)) >>= g) = x >>= fun a => g (f a) := by
  funext cache
  cases h : (x cache).result with
  | error e => rw [bind_of_error (congrArg Outcome.result (bind_of_error h)), bind_of_error h,
      bind_of_error h]
  | ok a =>
    rw [bind_of_ok (congrArg Outcome.result (bind_of_ok h)), bind_of_ok h, bind_of_ok h]
    simp

namespace Site

open Lookup

/-- Apply the entries of a fragment to a draft where they stand: a reference to a schema as an
annotation that names the schema, and a parameter as it is, with the hint if its location is
open. -/
def applyEntries (site : Site) (hint : Location) : Draft → List FragmentEntry → Lookup Draft
  | draft, [] => pure draft
  | draft, .schema name :: rest => do
      let next ← site.apply hint draft "params" (.text name)
      applyEntries site hint next rest
  | draft, .parameter p :: rest =>
      applyEntries site hint (draft.addParameter (withHint hint p)) rest

variable {site : Site} {hint : Location} {cache : SchemaCache}

theorem apply_of_schema (site : Site) (hint : Location) (draft : Draft) {key : String}
    (h : AnnotationKey.ofText? key = some .schema) (value : AnnotationValue) :
    site.apply hint draft key value =
      (site.schemaParameters hint value.display >>= fun ps => pure (draft.addParameters ps)) := by
  simp only [apply, change, h, changeOfKey]
  exact map_bind _ Change.parameters _

theorem apply_of_fragment (site : Site) (hint : Location) (draft : Draft) {key : String}
    (h : AnnotationKey.ofText? key = some .fragment) (value : AnnotationValue) :
    site.apply hint draft key value =
      (site.fragment hint value.display >>= fun found =>
        pure (draft.addParameters found.parameters.toList)) := by
  simp only [apply, change, h, changeOfKey]
  exact map_bind _ (fun found : Draft => Change.parameters found.parameters.toList) _

theorem applyEntries_cons {path : String} {entry : FragmentEntry} {ps : List Parameter}
    (h : (site.entryParameters hint path entry cache).result = .ok ps) (draft : Draft)
    (rest : List FragmentEntry) :
    site.applyEntries hint draft (entry :: rest) cache =
      (site.entryParameters hint path entry >>= fun ps =>
        site.applyEntries hint (draft.addParameters ps) rest) cache := by
  cases entry with
  | schema name => rw [applyEntries, apply_of_schema site hint draft rfl, map_bind]; rfl
  | parameter p =>
    by_cases hp : p.name = ""
    · simp [entryParameters, hp] at h
    · simp only [entryParameters, hp, if_false]
      rfl

/-- Entries that are collected in one draft do to another what they do where they stand. -/
theorem applyEntries_of_addEntries {path : String} {collected final : Draft}
    {entries : List FragmentEntry}
    (h : (site.addEntries hint path collected entries cache).result = .ok final) (draft : Draft) :
    site.applyEntries hint (draft.addParameters collected.parameters.toList) entries cache =
      ⟨.ok (draft.addParameters final.parameters.toList),
        (site.addEntries hint path collected entries cache).cache,
        (site.addEntries hint path collected entries cache).log⟩ := by
  induction entries generalizing collected cache with
  | nil =>
    cases h
    rfl
  | cons entry rest ih =>
    obtain ⟨ps, hps, hrest⟩ := bind_ok h
    have hnext := ih hrest
    rw [Draft.addParameters_addParameters] at hnext
    rw [applyEntries_cons hps, bind_of_ok hps, hnext, addEntries, bind_of_ok hps]

theorem fragment_of_read {name path : String} {fragment : Fragment}
    (h : site.readFragment name = .ok (path, fragment)) (hint : Location) :
    site.fragment hint name = site.addEntries hint path Draft.blank fragment.entries := by
  funext cache
  have hread : (ofExcept (site.readFragment name) cache).result = .ok (path, fragment) := h
  rw [Site.fragment, bind_of_ok hread]
  simp

/-- Taking over a fragment that is found does to a draft, to what has been read and to the log what
its entries do where they stand, if nothing fails. This holds whatever names the entries repeat and
whatever names the draft has. A fragment that only refers to a schema is as good as the schema. -/
theorem apply_fragment_eq_applyEntries (hint : Location) {key : String}
    (hkey : AnnotationKey.ofText? key = some .fragment) (value : AnnotationValue) {path : String}
    {fragment : Fragment} (hread : site.readFragment value.display = .ok (path, fragment))
    (draft : Draft) (cache : SchemaCache) :
    (∀ found, (site.fragment hint value.display cache).result = .ok found →
      ∃ final, (site.apply hint draft key value cache).result = .ok final ∧
        site.apply hint draft key value cache =
          site.applyEntries hint draft fragment.entries cache) ∧
    ∀ schema, fragment.entries = [.schema schema] →
      site.apply hint draft key value cache =
        site.apply hint draft "params" (.text schema) cache := by
  have happly := apply_of_fragment site hint draft hkey value
  rw [fragment_of_read hread] at happly ⊢
  constructor
  · intro found h
    have hinline := applyEntries_of_addEntries h draft
    have hblank : draft.addParameters Draft.blank.parameters.toList = draft := rfl
    rw [hblank] at hinline
    rw [happly, bind_of_ok h, hinline]
    exact ⟨_, rfl, by simp⟩
  · intro schema hs
    have hentry : site.addEntries hint path Draft.blank [.schema schema] =
        (site.schemaParameters hint schema >>= fun ps => pure (Draft.blank.addParameters ps)) := rfl
    rw [happly, hs, hentry, map_bind, apply_of_schema site hint draft rfl]
    simp only [Draft.addParameters_addParameters]
    rfl

def repeating : Site where
  files :=
    ((FileTree.empty.plant "schemas/user.yml"
        "fields: \x7bage: \x7btype: uuid\x7d, id: \x7b\x7d\x7d".toUTF8).plant
      "includes/list.yml" ("parameters: [\x7bname: id, in: query\x7d, \x7bname: age\x7d, " ++
        "\x7bx-include-schema: user\x7d, \x7bname: age, in: header\x7d]").toUTF8).plant
      "includes/only.yml" "parameters: [\x7bx-include-schema: user\x7d]".toUTF8

theorem apply_fragment_eq_applyEntries_repeating :
    let draft := (Draft.start .get "Users" "list").addParameter
      (Parameter.guessed "age" TypeSpec.text .body)
    (∃ path fragment final, repeating.readFragment "list" = .ok (path, fragment) ∧
      (repeating.apply .query draft "Include" (.text "list") Overlay.empty).result = .ok final ∧
      repeating.apply .query draft "Include" (.text "list") Overlay.empty =
        repeating.applyEntries .query draft fragment.entries Overlay.empty) ∧
    repeating.apply .query draft "Include" (.text "only") Overlay.empty =
      repeating.apply .query draft "params" (.text "user") Overlay.empty := by
  intro draft
  have hkey : AnnotationKey.ofText? "Include" = some .fragment := by decide
  constructor
  · obtain ⟨⟨path, fragment⟩, hread⟩ := ok_of_isOk (r := repeating.readFragment "list")
      (by decide +kernel)
    obtain ⟨found, hfound⟩ := ok_of_isOk
      (r := (repeating.fragment .query "list" Overlay.empty).result) (by decide +kernel)
    have hinline :=
      apply_fragment_eq_applyEntries .query hkey (.text "list") hread draft Overlay.empty
    obtain ⟨final, hfinal, hsame⟩ := hinline.1 found hfound
    exact ⟨path, fragment, final, hread, hfinal, hsame⟩
  · have hread : repeating.readFragment "only" =
        .ok ("includes/only.yml", { entries := [.schema "user"] }) := by
      decide +kernel
    have hinline := apply_fragment_eq_applyEntries .query hkey (.text "only") hread draft
      Overlay.empty
    exact hinline.2 "user" rfl

end Site

end Endpoints
