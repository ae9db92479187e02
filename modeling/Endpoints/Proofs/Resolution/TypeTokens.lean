import Endpoints.Proofs.Parameter.Declarations
import Endpoints.Proofs.Route.Normalization
import Endpoints.Proofs.Schema.Fields

/-!
# One type, stated in three ways

A type token stands between angle brackets in a route, in front of a name in a declaration, or at a
field of a schema. The route is the narrowest of the three: it must not be split inside the token,
and the token must not end early. A token that gets through is read alike in all of them.
-/

namespace Endpoints

/-- A token that can be written in a route, in a declaration and in a schema. -/
structure TypeSpec.IsPortable (token : String) : Prop where
  isWord : Text.IsWord token.toList
  unsigned : token.toList.head? ≠ some '$'
  slashes_outside : ∀ u v, token.toList = u ++ '/' :: v → u = [] ∨ v = []
  open_ended : ∀ u v, token.toList = u ++ '>' :: v → ¬ Route.StartsName v

/-- A name that can be written behind a placeholder: word characters, at least one. -/
structure Placeholder.IsName (name : String) : Prop where
  ne_nil : name.toList ≠ []
  chars : ∀ c ∈ name.toList, Route.isNameChar c = true

theorem Parameter.type_settle (fallback : Location) (p : Parameter) :
    (p.settle fallback).type = p.type := by
  unfold settle
  split <;> rfl

/-- A run that gives one operation with one parameter, which has this name and the type of this
token, and that warns of the token if it must. -/
structure Outcome.StatesType (run : Outcome Model) (path token name : String) : Prop where
  single : ∃ o p, run.result = .ok (Model.single path o) ∧ o.parameters = [p] ∧ p.name = name ∧
    p.type = TypeSpec.ofToken token
  warnings_eq : run.log.warnings = (TypeSpec.notices token).warnings

theorem TypeSpec.ofToken_of_slashes {token body : String} (h : token = "/" ++ body ++ "/") :
    ofToken token = { name := "string", pattern := some body } ∧ notices token = [] := by
  have hchars : token.toList = '/' :: (body.toList ++ ['/']) := by
    rw [h]
    simp [String.toList_append]
  have hpattern : pattern? token = some body := by
    rw [pattern?, hchars]
    simp
  have hnamed : named? token = none := by
    unfold named?
    split
    case h_8 => rfl
    all_goals simp at hchars
  rw [ofToken, notices, hnamed, hpattern]
  exact ⟨rfl, rfl⟩

namespace Route

open TypeSpec Placeholder

variable {token name : String}

theorem isBlank_of_isNameChar {c : Char} (h : isNameChar c = true) : Text.isBlank c = false := by
  have hbounds : 48 ≤ c.toNat ∧ c.toNat ≤ 122 := by
    simp only [isNameChar, Bool.or_eq_true, Bool.and_eq_true, decide_eq_true_eq, beq_iff_eq,
      Char.le_def, UInt32.le_iff_toNat_le] at h
    rcases h with ((⟨hl, hu⟩ | ⟨hl, hu⟩) | ⟨hl, hu⟩) | rfl
    · exact ⟨Nat.le_trans (by decide) hl, hu⟩
    · exact ⟨Nat.le_trans (by decide) hl, Nat.le_trans hu (by decide)⟩
    · exact ⟨hl, Nat.le_trans hu (by decide)⟩
    · decide
  simp only [Text.isBlank, Bool.or_eq_false_iff, Bool.and_eq_false_iff, decide_eq_false_iff_not,
    beq_eq_false_iff_ne]
  omega

theorem not_mem_of_isName (hn : IsName name) {c : Char} (hc : isNameChar c = false) :
    c ∉ name.toList := by
  intro hmem
  have hname := hn.chars c hmem
  rw [hc] at hname
  cases hname

/-- The slashes of the token stand at its ends, so each touches a bracket. -/
theorem keepsSlashes_placeholder (ht : IsPortable token) (hn : IsName name) (before : Option Char) :
    KeepsSlashes before ('<' :: (token.toList ++ '>' :: name.toList)) := by
  rw [keepsSlashes_cons_iff]
  refine ⟨fun h => absurd h (by decide), fun u v hsplit => ?_⟩
  have hname : '/' ∉ '>' :: name.toList := by
    simp [not_mem_of_isName hn (c := '/') (by decide)]
  rcases List.append_eq_append_iff.1 hsplit with ⟨w, rfl, hw⟩ | ⟨w, hw, hv⟩
  · exact absurd (by simp [hw]) hname
  · cases w with
    | nil => simp at hv
    | cons c w =>
      obtain ⟨rfl, rfl⟩ := List.cons.inj hv
      rcases ht.slashes_outside u w hw with rfl | rfl
      · exact .inl rfl
      · exact .inr rfl

/-- No `>` inside the token ends it, since none is followed by a name. -/
theorem findPlaceholder_placeholder (ht : IsPortable token) (hn : IsName name) :
    findPlaceholder ('<' :: (token.toList ++ '>' :: name.toList)) =
      some (token.toList, name.toList) := by
  refine findPlaceholder_eq_some_iff.2 ⟨⟨[], token.toList, name.toList, []⟩, ?_, rfl, rfl⟩
  exact {
    split := by simp
    leftmost := by simp
    type_ne := ht.isWord.ne_nil
    shortest := fun u v h _ => ht.open_ended u v h
    name_ne := hn.ne_nil
    name_chars := hn.chars
    longest := by simp [StartsName] }

theorem toList_placeholder (token name : String) :
    ("<" ++ token ++ ">" ++ name).toList = '<' :: (token.toList ++ '>' :: name.toList) := by
  simp [String.toList_append]

theorem ofSegment?_placeholder (ht : IsPortable token) (hn : IsName name) :
    Placeholder.ofSegment? ("<" ++ token ++ ">" ++ name) = some ⟨token, name⟩ := by
  rw [Placeholder.ofSegment?, toList_placeholder, findPlaceholder_placeholder ht hn]
  simp

theorem ofText?_placeholder (ht : IsPortable token) (hn : IsName name) :
    ofText? ("GET/<" ++ token ++ ">" ++ name) =
      some { method := .get, segments := ["<" ++ token ++ ">" ++ name] } := by
  have htext : "GET/<" ++ token ++ ">" ++ name =
      "GET" ++ "/" ++ ("<" ++ token ++ ">" ++ name) := by
    rw [← String.toList_inj]
    simp [String.toList_append]
  have hget : method? "GET" = some .get := by decide
  have hrest : ("<" ++ token ++ ">" ++ name).toList.head? ≠ some '>' := by
    simp
  have hkeeps : KeepsSlashes (some '/') ("<" ++ token ++ ">" ++ name).toList :=
    toList_placeholder token name ▸ keepsSlashes_placeholder ht hn _
  rw [htext, ofText?_append hget, if_neg hrest, tokensAfter_of_keeps hkeeps, List.map_singleton,
    String.ofList_toList]

theorem placeholders_placeholder (ht : IsPortable token) (hn : IsName name) (m : HttpMethod) :
    placeholders { method := m, segments := ["<" ++ token ++ ">" ++ name] } = [⟨token, name⟩] := by
  simp [placeholders, ofSegment?_placeholder ht hn]

theorem path_placeholder (ht : IsPortable token) (hn : IsName name) (m : HttpMethod) :
    path { method := m, segments := ["<" ++ token ++ ">" ++ name] } =
      "/\x7b" ++ name ++ "\x7d" := by
  have hsegment : pathSegment ("<" ++ token ++ ">" ++ name) = "\x7b" ++ name ++ "\x7d" := by
    rw [pathSegment, ofSegment?_placeholder ht hn]
    rfl
  rw [path, List.map_singleton, hsegment, ← String.toList_inj]
  simp [String.toList_append]

end Route

theorem Parameter.ofDeclaration_portable {token name : String} (ht : TypeSpec.IsPortable token)
    (hn : Placeholder.IsName name) (location : Location) :
    (∃ p, ofDeclaration (token ++ " $" ++ name) location = .ok p ∧ p.name = name ∧
      p.type = TypeSpec.ofToken token) ∧
    declarationNotices (token ++ " $" ++ name) = TypeSpec.notices token := by
  let d : Declaration := ⟨some token, name, none, []⟩
  have hunsigned : ∀ t ∈ some token, hasSigil t = false := by
    simpa [hasSigil] using ht.unsigned
  have hne : name ≠ "" := by
    rintro rfl
    exact hn.ne_nil rfl
  have hd : d.IsLawful := ⟨hunsigned, hne, by simp [d], by simp [d]⟩
  have hsolid : ∀ c ∈ ("$" ++ name).toList, Text.isBlank c = false := by
    intro c hc
    rw [String.toList_append, List.mem_append] at hc
    rcases hc with hc | hc
    · obtain rfl := List.mem_singleton.1 hc
      decide
    · exact Route.isBlank_of_isNameChar (hn.chars c hc)
  have hwords : Text.words (token ++ " $" ++ name) = d.words := by
    have hline : token ++ " $" ++ name = String.intercalate " " d.words := by
      rw [← String.toList_inj]
      simp [d, Declaration.words, String.toList_append]
    rw [hline]
    apply Text.words_intercalate
    intro word hword
    simp only [d, Declaration.words, Option.toList_some, Option.toList_none, List.nil_append,
      List.singleton_append, List.mem_cons, List.not_mem_nil, or_false] at hword
    rcases hword with rfl | rfl
    · exact ht.isWord
    · exact ⟨by simp [String.toList_append], hsolid⟩
  refine ⟨⟨d.parameter location, ?_, rfl, rfl⟩, ?_⟩
  · rw [ofDeclaration, hwords, ofWords_words hd]
  · rw [declarationNotices, hwords, Declaration.words, splitType_append hd.token_unsigned]

namespace Site

open Lookup

variable {site : Site} {cache : SchemaCache} {token name text : String} {route : Route}

theorem log_operation_of_drafted {action : Action} {draft : Draft}
    (h : (site.drafted action route.method cache).result = .ok draft) :
    (site.operation action route cache).log =
      (site.drafted action route.method cache).log ++
        route.placeholders.flatMap fun p => TypeSpec.notices p.type := by
  rw [operation_eq_drafted, bind_of_ok h, log_map]
  rfl

/-- The run of one route, by the draft that its annotations make. -/
theorem statesType_of_drafted {action : Action} {draft : Draft} {p : Parameter}
    (hr : Route.ofText? text = some route)
    (hd : (site.drafted action route.method cache).result = .ok draft)
    (hp : (draft.addParameters (route.placeholders.map Placeholder.parameter)).parameters.toList =
      [p])
    (hname : p.name = name) (htype : p.type = TypeSpec.ofToken token)
    (hlog : (site.drafted action route.method cache).log ++
      (route.placeholders.flatMap fun p => TypeSpec.notices p.type) = TypeSpec.notices token) :
    (site.resolve [action.withOnly text] cache).StatesType route.path token name := by
  obtain ⟨hresult, hwarnings⟩ := resolve_withOnly hr site action cache
  rw [result_operation, hd, map_map_result] at hresult
  refine ⟨⟨_, p.settle draft.finalMethod.defaultLocation, hresult, ?_, ?_, ?_⟩, ?_⟩
  · rw [Draft.parameters_finish, hp]
    rfl
  · rw [Parameter.name_settle, hname]
  · rw [Parameter.type_settle, htype]
  · rw [hwarnings, log_operation_of_drafted hd, hlog]

theorem statesType_of_change {action : Action} {key : String} {value : AnnotationValue}
    {p : Parameter} (hr : Route.ofText? text = some route) (hnone : route.placeholders = [])
    (ha : action.attached = [(key, value)])
    (hc : (site.change route.method.defaultLocation key value cache).result =
      .ok (.parameters [p]))
    (hname : p.name = name) (htype : p.type = TypeSpec.ofToken token)
    (hlog : (site.change route.method.defaultLocation key value cache).log =
      TypeSpec.notices token) :
    (site.resolve [action.withOnly text] cache).StatesType route.path token name := by
  let start := Draft.start route.method action.target.shortClass action.target.function
  have hdrafted : site.drafted action route.method =
      (site.change route.method.defaultLocation key value >>= fun c => pure (start.change c)) >>=
        fun next => pure next := by
    rw [drafted, ha]
    rfl
  have hdraft : (site.drafted action route.method cache).result =
      .ok (start.addParameters [p]) := by
    rw [hdrafted, result_map, result_map, hc]
    rfl
  have hdraftLog : (site.drafted action route.method cache).log = TypeSpec.notices token := by
    rw [hdrafted, log_map, log_map, hlog]
  refine statesType_of_drafted hr hdraft ?_ hname htype ?_
  · rw [hnone]
    rfl
  · rw [hnone, hdraftLog]
    exact List.append_nil _

theorem statesType_of_placeholder (ht : TypeSpec.IsPortable token) (hn : Placeholder.IsName name)
    (site : Site) (cache : SchemaCache) (target : Target) :
    (site.resolve [Action.withOnly { target } ("GET/<" ++ token ++ ">" ++ name)] cache).StatesType
      ("/\x7b" ++ name ++ "\x7d") token name := by
  have hplaceholders := Route.placeholders_placeholder ht hn .get
  rw [← Route.path_placeholder ht hn .get]
  refine statesType_of_drafted (p := Placeholder.parameter ⟨token, name⟩)
    (Route.ofText?_placeholder ht hn) rfl ?_ rfl rfl ?_
  · rw [hplaceholders]
    rfl
  · rw [hplaceholders]
    exact List.append_nil _

theorem statesType_of_line (ht : TypeSpec.IsPortable token) (hn : Placeholder.IsName name)
    (hr : Route.ofText? text = some route) (hnone : route.placeholders = []) {key : String}
    (hkey : AnnotationKey.ofText? key = some .parameter) {action : Action}
    (ha : action.attached = [(key, .text (token ++ " $" ++ name))]) :
    (site.resolve [action.withOnly text] cache).StatesType route.path token name := by
  let line := token ++ " $" ++ name
  obtain ⟨⟨p, hp, hname, htype⟩, hnotices⟩ :=
    Parameter.ofDeclaration_portable ht hn route.method.defaultLocation
  have hchange : site.change route.method.defaultLocation key (.text line) =
      declaredParameter route.method.defaultLocation line >>= fun p => pure (.parameters [p]) := by
    rw [change, hkey]
    rfl
  refine statesType_of_change hr hnone ha ?_ hname htype ?_
  · rw [hchange, result_map, declaredParameter_eq, hp]
    rfl
  · rw [hchange, log_map, declaredParameter_eq, hnotices]

theorem statesType_of_schema (hc : site.Agrees cache) (hr : Route.ofText? text = some route)
    (hnone : route.placeholders = []) {key source : String}
    (hkey : AnnotationKey.ofText? key = some .schema) {s : Schema} {d : FieldDefinition}
    (hs : site.readSchema source = .ok s) (hfields : s.fields.toList = [(name, d)])
    (htoken : d.typeToken = some token) (hkept : ∀ other, ¬ s.Renames name other) {action : Action}
    (ha : action.attached = [(key, .text source)]) :
    (site.resolve [action.withOnly text] cache).StatesType route.path token name := by
  let hint := route.method.defaultLocation
  have hchange : site.change hint key (.text source) =
      site.schemaParameters hint source >>= fun ps => pure (.parameters ps) := by
    rw [change, hkey]
    rfl
  have hpresents := s.presents_parameter hint name d
  have hunnamed : (s.parameter hint name d).aliasOf = none := by
    by_contra halias
    obtain ⟨other, hother⟩ := hpresents.alias_iff.1 halias
    exact hkept other hother
  have hname : (s.parameter hint name d).name = name := by
    have hrecovers := hpresents.recovers
    rwa [hunnamed] at hrecovers
  have htype : (s.parameter hint name d).type = TypeSpec.ofToken token := by
    have hstated := hpresents.type_eq
    rwa [htoken] at hstated
  refine statesType_of_change hr hnone ha ?_ hname htype ?_
  · rw [hchange, result_map, (site.settles_schemaParameters hint source).result_eq hc, hs]
    change Except.ok (Change.parameters (s.parameters hint)) = _
    rw [Schema.parameters, hfields]
    rfl
  · rw [hchange, log_map, log_schemaParameters_of_read hc hs, Schema.notices, Table.values, hfields]
    simp [Schema.FieldDefinition.token, htoken]

/-- A portable token in the brackets of a placeholder, in front of a declared name or at the one
field of a schema gives a parameter of the same name and type, with the same warnings. The
placeholder is the whole path of its route, and a token between two slashes is a pattern. -/
theorem resolve_statesType_alike (ht : TypeSpec.IsPortable token) (hn : Placeholder.IsName name)
    (hc : site.Agrees cache) (target : Target) :
    (site.resolve [Action.withOnly { target } ("GET/<" ++ token ++ ">" ++ name)] cache).StatesType
      ("/\x7b" ++ name ++ "\x7d") token name ∧
    (∀ text route key, Route.ofText? text = some route → route.placeholders = [] →
      AnnotationKey.ofText? key = some .parameter →
      let action := Action.annotate { target } key (.text (token ++ " $" ++ name))
      (site.resolve [action.withOnly text] cache).StatesType route.path token name) ∧
    (∀ text route key, Route.ofText? text = some route → route.placeholders = [] →
      AnnotationKey.ofText? key = some .schema →
      ∀ source s required, site.readSchema source = .ok s →
      s.fields.toList = [(name, { typeToken := some token, required := required })] →
      (∀ other, ¬ s.Renames name other) →
      let action := Action.annotate { target } key (.text source)
      (site.resolve [action.withOnly text] cache).StatesType route.path token name) ∧
    ∀ body, token = "/" ++ body ++ "/" →
      TypeSpec.ofToken token = { name := "string", pattern := some body } ∧
        TypeSpec.notices token = [] := by
  refine ⟨statesType_of_placeholder ht hn site cache target, ?_, ?_, ?_⟩
  · intro text route key hr hnone hkey
    exact statesType_of_line ht hn hr hnone hkey rfl
  · intro text route key hr hnone hkey source s required hs hfields hkept
    exact statesType_of_schema hc hr hnone hkey hs hfields rfl hkept rfl
  · exact fun body => TypeSpec.ofToken_of_slashes

def bracketPattern : String := "/<é>\x7d€/"

theorem isPortable_bracketPattern : TypeSpec.IsPortable bracketPattern := by
  have hchars : bracketPattern.toList = ['/', '<', 'é', '>', '\x7d', '€', '/'] := rfl
  constructor
  · exact ⟨by simp [hchars], by simp [hchars, Text.isBlank]⟩
  · simp [hchars]
  · intro u v h
    have hends : u = [] ∧ v = ['<', 'é', '>', '\x7d', '€', '/'] ∨
        u = ['/', '<', 'é', '>', '\x7d', '€'] ∧ v = [] := by
      simpa [hchars, List.cons_eq_append_iff] using h
    exact hends.imp And.left And.right
  · intro u v h
    obtain ⟨-, rfl⟩ : u = ['/', '<', 'é'] ∧ v = ['\x7d', '€', '/'] := by
      simpa [hchars, List.cons_eq_append_iff] using h
    rintro ⟨c, hc, hname⟩
    obtain rfl : '\x7d' = c := by simpa using hc
    exact absurd hname (by decide)

def patternSchema : Site where
  files := FileTree.empty.plant "schemas/user.yml"
    ("fields: \x7bid: \x7btype: '" ++ bracketPattern ++ "'\x7d\x7d").toUTF8

theorem resolve_statesType_alike_pattern :
    let target : Target := { className := "UsersController", function := "show" }
    let line := Action.annotate { target } "parameter" (.text (bracketPattern ++ " $id"))
    let schema := Action.annotate { target } "params" (.text "user")
    (patternSchema.resolve [Action.withOnly { target } ("GET/<" ++ bracketPattern ++ ">id")]
      Overlay.empty).StatesType "/\x7bid\x7d" bracketPattern "id" ∧
    (patternSchema.resolve [line.withOnly "PUT/users"] Overlay.empty).StatesType "/users"
      bracketPattern "id" ∧
    (patternSchema.resolve [schema.withOnly "PUT/users"] Overlay.empty).StatesType "/users"
      bracketPattern "id" ∧
    TypeSpec.ofToken bracketPattern = { name := "string", pattern := some "<é>\x7d€" } := by
  intro target line schema
  have hname : Placeholder.IsName "id" := ⟨by decide, by simp [Route.isNameChar]⟩
  have hroute : Route.ofText? "PUT/users" = some { method := .put, segments := ["users"] } := by
    decide +kernel
  have hrun : (patternSchema.readSchema "user").toOption.any (fun s =>
      s.fields.toList = [("id", { typeToken := some bracketPattern, required := none })] ∧
        s.aliases.toList = []) = true := by
    decide +kernel
  obtain ⟨s, hs, hchecked⟩ := (Option.any_eq_true _ _).1 hrun
  obtain ⟨hfields, haliases⟩ := of_decide_eq_true hchecked
  have hkept : ∀ other, ¬ s.Renames "id" other := by
    intro other hother
    rw [Schema.renames_iff, Table.get?, Overlay.find?, haliases] at hother
    cases hother
  obtain ⟨hplaceholder, hline, hschema, hpattern⟩ := resolve_statesType_alike
    isPortable_bracketPattern hname patternSchema.agrees_empty target
  refine ⟨hplaceholder, hline _ _ "parameter" hroute rfl (by decide), ?_, ?_⟩
  · exact hschema _ _ "params" hroute rfl (by decide) "user" s none (ok_of_toOption hs) hfields
      hkept
  · exact (hpattern "<é>\x7d€" rfl).1

end Site

end Endpoints
