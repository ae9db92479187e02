import Endpoints.Proofs.Resolution.Drafts
import Endpoints.Proofs.Route.Framing

/-!
# Canonical routes

The method of a route in lower case, followed by its path, is a route again. It has the same method
and the same path, and its segments are those of the path. No segment of a path holds a placeholder,
because a name in braces has no angle bracket; so nothing is left to be replaced.
-/

namespace Endpoints

namespace Route

theorem isName_of_findPlaceholder {cs type name : List Char}
    (h : findPlaceholder cs = some (type, name)) :
    name ≠ [] ∧ ∀ c ∈ name, isNameChar c = true := by
  obtain ⟨f, hf, -, rfl⟩ := findPlaceholder_eq_some_iff.1 h
  exact ⟨hf.name_ne, hf.name_chars⟩

theorem isName_of_ofSegment? {segment : String} {p : Placeholder}
    (h : Placeholder.ofSegment? segment = some p) :
    p.name.toList ≠ [] ∧ ∀ c ∈ p.name.toList, isNameChar c = true := by
  obtain ⟨⟨type, name⟩, hfound, rfl⟩ := Option.map_eq_some_iff.1 h
  rw [String.toList_ofList]
  exact isName_of_findPlaceholder hfound

theorem not_mem_name_of_ofSegment? {segment : String} {p : Placeholder}
    (h : Placeholder.ofSegment? segment = some p) {c : Char} (hc : isNameChar c = false) :
    c ∉ p.name.toList := by
  intro hmem
  have hname := (isName_of_ofSegment? h).2 c hmem
  rw [hc] at hname
  cases hname

theorem toList_segment (p : Placeholder) :
    p.segment.toList = '\x7b' :: (p.name.toList ++ ['\x7d']) := by
  simp [Placeholder.segment, String.toList_append]

/-- A name in braces holds no placeholder, and other segments stay only if they hold none. -/
theorem ofSegment?_pathSegment (segment : String) :
    Placeholder.ofSegment? (pathSegment segment) = none := by
  rw [pathSegment]
  cases h : Placeholder.ofSegment? segment with
  | none => exact h
  | some p =>
    have hname : '<' ∉ p.name.toList := not_mem_name_of_ofSegment? h (by decide)
    have hopen : '<' ∉ p.segment.toList := by simp [toList_segment, hname]
    rw [Placeholder.ofSegment?, findPlaceholder_of_not_mem hopen]
    rfl

theorem pathSegment_of_none {segment : String} (h : Placeholder.ofSegment? segment = none) :
    pathSegment segment = segment := by
  rw [pathSegment, h]

def pathToken (token : List Char) : List Char := (pathSegment (String.ofList token)).toList

theorem pathToken_eq (token : List Char) : pathToken token = token ∨
    ∃ name, pathToken token = '\x7b' :: (name ++ ['\x7d']) ∧ '/' ∉ name := by
  rw [pathToken, pathSegment]
  cases h : Placeholder.ofSegment? (String.ofList token) with
  | none => exact .inl String.toList_ofList
  | some p =>
    exact .inr ⟨p.name.toList, toList_segment p, not_mem_name_of_ofSegment? h (by decide)⟩

section PathToken

variable {before : Option Char} {token : List Char}

theorem KeepsSlashes.pathToken (h : KeepsSlashes before token) :
    KeepsSlashes before (pathToken token) := by
  rcases pathToken_eq token with he | ⟨name, he, hname⟩
  · rwa [he]
  · rw [he]
    exact keepsSlashes_of_not_mem (by simp [hname])

theorem getLast?_pathToken (h : token.getLast?.or before ≠ some '<') :
    (pathToken token).getLast?.or before ≠ some '<' := by
  rcases pathToken_eq token with he | ⟨name, he, -⟩
  · rwa [he]
  · rw [he, List.getLast?_cons, List.getLast?_append]
    simp

theorem head?_pathToken (h : token.head? ≠ some '>') : (pathToken token).head? ≠ some '>' := by
  rcases pathToken_eq token with he | ⟨name, he, -⟩
  · rwa [he]
  · simp [he]

/-- Tokens whose placeholders are replaced are tokens again. A brace stands at both ends of a name,
so the slashes around it go on separating. -/
theorem AreTokens.pathTokens {ts : List (List Char)} (h : AreTokens before ts) :
    AreTokens before (ts.map pathToken) := by
  induction h with
  | last keeps => exact .last keeps.pathToken
  | cons keeps ends starts _ ih =>
    exact .cons keeps.pathToken (getLast?_pathToken ends) (head?_pathToken starts) ih

end PathToken

/-- The segments of a path; a path always has one, which may be empty. -/
def pathSegments (r : Route) : List String :=
  if r.segments = [] then [""] else r.segments.map pathSegment

/-- The route that the method and the path of a route state. -/
def canonical (r : Route) : Route where
  method := r.method
  segments := r.pathSegments

theorem ofSegment?_of_mem_pathSegments {r : Route} {segment : String}
    (h : segment ∈ r.pathSegments) : Placeholder.ofSegment? segment = none := by
  rw [pathSegments] at h
  split at h
  · obtain rfl := List.mem_singleton.1 h
    rfl
  · obtain ⟨other, -, rfl⟩ := List.mem_map.1 h
    exact ofSegment?_pathSegment other

theorem placeholders_canonical (r : Route) : r.canonical.placeholders = [] := by
  rw [placeholders, List.filterMap_eq_nil_iff]
  exact fun _ => ofSegment?_of_mem_pathSegments

theorem path_eq_intercalate (r : Route) :
    r.path = "/" ++ String.intercalate "/" r.pathSegments := by
  rw [path, pathSegments]
  split
  · rename_i h
    rw [h]
    rfl
  · rfl

theorem path_canonical (r : Route) : r.canonical.path = r.path := by
  have hsame : r.pathSegments.map pathSegment = r.pathSegments :=
    (List.map_congr_left fun _ h =>
      pathSegment_of_none (ofSegment?_of_mem_pathSegments h)).trans (List.map_id _)
  rw [path_eq_intercalate r, path, canonical, hsame]

theorem pathSegments_ne_nil (r : Route) : r.pathSegments ≠ [] := by
  rw [pathSegments]
  split
  · simp
  · rename_i h
    simpa using h

theorem areTokens_pathSegments {text : String} {route : Route} (h : ofText? text = some route) :
    AreTokens none ((route.method.name :: route.pathSegments).map String.toList) := by
  obtain ⟨token, htokens, -⟩ := ofText?_eq_some_iff.1 h
  have hname := method?_name route.method
  have keeps : KeepsSlashes none route.method.name.toList :=
    keepsSlashes_of_not_mem (slash_not_mem_of_method? hname)
  have ends : route.method.name.toList.getLast?.or none ≠ some '<' := by
    simpa using getLast?_ne_of_method? hname
  rw [List.map_cons, pathSegments]
  split
  · exact .cons keeps ends (by simp) (.last (keepsSlashes_of_not_mem (by simp)))
  · rename_i hne
    obtain ⟨first, rest, hs⟩ := List.exists_cons_of_ne_nil hne
    have htext := areTokens_tokens text
    rw [htokens, hs] at htext
    cases htext with
    | cons _ _ starts tail =>
      have hpath : (route.segments.map pathSegment).map String.toList =
          ((first :: rest).map String.toList).map pathToken := by
        simp [hs, pathToken, Function.comp_def]
      rw [hpath]
      exact .cons keeps ends (head?_pathToken starts) tail.pathTokens

/-- The method in lower case followed by the path states the canonical route. -/
theorem ofText?_canonical {text : String} {route : Route} (h : ofText? text = some route) :
    ofText? (route.method.name ++ route.path) = some route.canonical := by
  refine ofText?_eq_some_iff.2 ⟨route.method.name, ?_, method?_name route.method⟩
  refine tokens_of_areTokens ?_ (areTokens_pathSegments h)
  obtain ⟨first, rest, hs⟩ := List.exists_cons_of_ne_nil route.pathSegments_ne_nil
  rw [path_eq_intercalate, canonical, hs]
  simp [String.toList_append, String.toList_intercalate, List.intercalate_cons_cons]

theorem segments_eq_nil_iff {text : String} {route : Route} (h : ofText? text = some route) :
    route.segments = [] ↔ '/' ∉ text.toList := by
  obtain ⟨token, htokens, hm⟩ := ofText?_eq_some_iff.1 h
  constructor
  · intro hs
    have hjoin := intercalate_tokensAfter none text.toList
    rw [hs] at htokens
    obtain ⟨cs, hcs, rfl⟩ := List.map_eq_singleton_iff.1 htokens
    rw [hcs, List.intercalate_singleton] at hjoin
    rw [← hjoin]
    simpa using slash_not_mem_of_method? hm
  · intro hslash
    have hone : tokensAfter none text.toList = [text.toList] :=
      tokensAfter_of_keeps (keepsSlashes_of_not_mem hslash)
    rw [tokens, hone] at htokens
    exact (List.cons.inj htokens).2.symm

/-- The method of a route in lower case, followed by its path, states a route with the same method
and the same path. Its segments are those of the path, none of them holds a placeholder, and its
operation has only the parameters of the annotations. -/
theorem ofText?_name_append_path {text : String} {route : Route}
    (h : Route.ofText? text = some route) :
    ∃ canonical, Route.ofText? (route.method.name ++ route.path) = some canonical ∧
      canonical.method = route.method ∧ canonical.path = route.path ∧
      canonical.segments =
        (if '/' ∈ text.toList then route.segments.map Route.pathSegment else [""]) ∧
      (∀ segment ∈ canonical.segments, Placeholder.ofSegment? segment = none) ∧
      ∀ (site : Site) (action : Action) (cache : SchemaCache),
        (site.resolve [action.withOnly (route.method.name ++ route.path)] cache).result =
          (site.drafted action route.method cache).result.map fun draft =>
            Model.single route.path (draft.finish route.path) := by
  have hcanonical := ofText?_canonical h
  refine ⟨route.canonical, hcanonical, rfl, route.path_canonical, ?_,
    fun _ => ofSegment?_of_mem_pathSegments, ?_⟩
  · simp only [canonical, pathSegments, segments_eq_nil_iff h, ite_not]
  · intro site action cache
    rw [site.result_resolve_of_no_placeholders hcanonical route.placeholders_canonical,
      route.path_canonical]
    rfl

/-- Placeholders, a slash inside a type, slashes side by side and brackets that open nothing. -/
theorem ofText?_name_append_path_escaped :
    let text := " PaTcH/a//</x/>id/<int>n rest/b</c/"
    let route : Route :=
      { method := .patch, segments := ["a", "", "</x/>id", "<int>n rest", "b</c", ""] }
    Route.ofText? text = some route ∧
    ∃ canonical, Route.ofText? (route.method.name ++ route.path) = some canonical ∧
      canonical.method = route.method ∧ canonical.path = route.path ∧
      canonical.segments =
        (if '/' ∈ text.toList then route.segments.map Route.pathSegment else [""]) ∧
      (∀ segment ∈ canonical.segments, Placeholder.ofSegment? segment = none) ∧
      ∀ (site : Site) (action : Action) (cache : SchemaCache),
        (site.resolve [action.withOnly (route.method.name ++ route.path)] cache).result =
          (site.drafted action route.method cache).result.map fun draft =>
            Model.single route.path (draft.finish route.path) := by
  intro text route
  have h : Route.ofText? text = some route := by decide +kernel
  exact ⟨h, ofText?_name_append_path h⟩

end Route

end Endpoints
