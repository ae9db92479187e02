import Endpoints.CommandLine.Run
import Endpoints.Json.Reader
import Endpoints.Proofs.Document.Records
import Endpoints.Proofs.Json.RoundTrip
import Endpoints.Proofs.Resolution.Placement

/-!
# Models in documents are read back

What a document shows of a parameter is all but a suggested location, and reading it gives the rest
back. So an operation without suggestions is read back from what a document shows of it, and a
model of such operations with its paths and methods in their order.
-/

namespace Endpoints

theorem Location.ofName?_name (l : Location) : ofName? l.name = some l := by
  cases l <;> rfl

theorem HttpMethod.ofName?_name (m : HttpMethod) : ofName? m.name = some m := by
  cases m <;> rfl

theorem Content.bind_choice?_name {α : Type} {all : List α} {name : α → String}
    {ofName? : String → Option α} (hall : ∀ a, a ∈ all) (hname : ∀ a, ofName? (name a) = some a)
    (a : α) : ((Content.text (name a)).choice? (all.map name)).bind ofName? = some a := by
  have hmem : name a ∈ all.map name := List.mem_map_of_mem (hall a)
  rw [choice?, if_pos hmem]
  exact hname a

namespace Parameter

def slots (p : Parameter) : List (String × Option Content) :=
  [("name", some (.text p.name)), ("in", some (.text p.location.name)),
    ("required", some (.bool p.required)), ("type", some (.text p.typeName)),
    ("format", p.format.map .text), ("pattern", p.pattern.map .text),
    ("description", p.description.map .text), ("alias", p.aliasOf.map .text)]

theorem content_eq_shown (p : Parameter) : p.content = .record (shown p.slots) := by
  simp [content, slots]

theorem read_location (l : Location) :
    ((Content.text l.name).choice? locationNames).bind Location.ofName? = some l :=
  Content.bind_choice?_name (fun l => by cases l <;> decide) Location.ofName?_name l

theorem ofContent?_content (p : Parameter) :
    ofContent? p.content = some { p with hint := none } := by
  have hnodup : (p.slots.map Prod.fst).Nodup := (by decide : fieldNames.Nodup)
  have hfields : p.content.fields? fieldNames = some (shown p.slots) := by
    rw [content_eq_shown]
    exact fields?_record_shown rfl hnodup
  have hname := field_shown hnodup "name" rfl Content.text?
  have hin := fieldOr_shown hnodup "in" rfl .guess fun c =>
    (c.choice? locationNames).bind Location.ofName?
  have hrequired := fieldOr_shown hnodup "required" rfl false Content.bool?
  have htype := fieldOr_shown hnodup "type" rfl "string" Content.text?
  have hformat := fieldOr_shown_text hnodup "format" p.format rfl
  have hpattern := fieldOr_shown_text hnodup "pattern" p.pattern rfl
  have hdescription := fieldOr_shown_text hnodup "description" p.description rfl
  have halias := fieldOr_shown_text hnodup "alias" p.aliasOf rfl
  rw [read_location] at hin
  refine bind_eq_some hfields (bind_eq_some hname (bind_eq_some hin ?_))
  refine bind_eq_some hrequired (bind_eq_some htype (bind_eq_some hformat ?_))
  exact bind_eq_some hpattern (bind_eq_some hdescription (bind_eq_some halias rfl))

end Parameter

namespace Operation

def slots (o : Operation) : List (String × Option Content) :=
  [("method", some (.text o.method.name)), ("path", some (.text o.path)),
    ("class", o.className.map .text), ("function", o.function.map .text),
    ("summary", o.summary.map .text), ("description", o.description.map .text),
    ("operationId", o.operationId.map .text), ("deprecated", some (.bool o.deprecated)),
    ("tags", setContent? o.tags), ("consumes", setContent? o.consumes),
    ("produces", setContent? o.produces), ("schemes", setContent? o.schemes),
    ("parameters", some (.list (o.parameters.map Parameter.content)))]

theorem content_eq_shown (o : Operation) : o.content = .record (shown o.slots) := by
  simp [content, slots]

theorem read_method (m : HttpMethod) :
    ((Content.text m.name).choice? HttpMethod.names).bind HttpMethod.ofName? = some m :=
  Content.bind_choice?_name (fun m => by cases m <;> decide) HttpMethod.ofName?_name m

/-- An empty set is not shown, and it is what stands for a field that is not there. -/
theorem fieldOr_shown_set {slots : List (String × Option Content)}
    (h : (slots.map Prod.fst).Nodup) (name : String) (values : OrderedSet String)
    (hslot : slots.lookup name = some (setContent? values)) :
    fieldOr (shown slots) name Overlay.empty readSet? = some values := by
  cases hempty : values.toList.isEmpty with
  | true =>
    have hvalues : values = Overlay.empty := Overlay.ext_toList (List.isEmpty_iff.1 hempty)
    rw [fieldOr, lookup_shown h, hslot, setContent?, hempty, hvalues]
    rfl
  | false =>
    rw [setContent?, hempty] at hslot
    rw [fieldOr_shown h name hslot, readSet?, Content.texts?_texts, Option.map_some,
      Overlay.ofList_toList]

theorem hint_of_ofContent? {c : Content} {o : Operation} (h : ofContent? c = some o) :
    ∀ p ∈ o.parameters, p.hint = none := by
  unfold ofContent? at h
  split at h
  · -- The parameters are read after the form and the twelve other fields.
    iterate 13 obtain ⟨_, _, h⟩ := Option.bind_eq_some_iff.1 h
    obtain ⟨ps, hps, h⟩ := Option.bind_eq_some_iff.1 h
    cases h
    rw [fieldOr] at hps
    split at hps
    · cases hps
      simp
    · obtain ⟨items, _, hitems⟩ := Option.bind_eq_some_iff.1 hps
      exact forall_of_mapM (fun _ _ => Parameter.hint_of_ofContent?) hitems
  · cases h

theorem read_parameters (ps : List Parameter) (h : ∀ p ∈ ps, p.hint = none) :
    ((Content.list (ps.map Parameter.content)).list?.bind fun items =>
      items.mapM Parameter.ofContent?) = some ps := by
  apply mapM_map_eq_some ps
  intro p hp
  rw [Parameter.ofContent?_content, ← h p hp]

theorem ofContent?_content {o : Operation} (h : ∀ p ∈ o.parameters, p.hint = none) :
    ofContent? o.content = some o := by
  have hnodup : (o.slots.map Prod.fst).Nodup := (by decide : fieldNames.Nodup)
  have hlong : isLongEnough o.content = true := rfl
  have hfields : o.content.fields? fieldNames = some (shown o.slots) := by
    rw [content_eq_shown]
    exact fields?_record_shown rfl hnodup
  have hmethod := field_shown hnodup "method" rfl fun c =>
    (c.choice? HttpMethod.names).bind HttpMethod.ofName?
  have hpath := field_shown hnodup "path" rfl Content.text?
  have hclass := fieldOr_shown_text hnodup "class" o.className rfl
  have hfunction := fieldOr_shown_text hnodup "function" o.function rfl
  have hsummary := fieldOr_shown_text hnodup "summary" o.summary rfl
  have hdescription := fieldOr_shown_text hnodup "description" o.description rfl
  have hid := fieldOr_shown_text hnodup "operationId" o.operationId rfl
  have hdeprecated := fieldOr_shown hnodup "deprecated" rfl false Content.bool?
  have htags := fieldOr_shown_set hnodup "tags" o.tags rfl
  have hconsumes := fieldOr_shown_set hnodup "consumes" o.consumes rfl
  have hproduces := fieldOr_shown_set hnodup "produces" o.produces rfl
  have hschemes := fieldOr_shown_set hnodup "schemes" o.schemes rfl
  have hparameters := fieldOr_shown hnodup "parameters" rfl [] fun c =>
    c.list?.bind fun items => items.mapM Parameter.ofContent?
  rw [read_method] at hmethod
  rw [read_parameters o.parameters h] at hparameters
  rw [ofContent?, if_pos hlong]
  refine bind_eq_some hfields (bind_eq_some hmethod (bind_eq_some hpath ?_))
  refine bind_eq_some hclass (bind_eq_some hfunction (bind_eq_some hsummary ?_))
  refine bind_eq_some hdescription (bind_eq_some hid (bind_eq_some hdeprecated ?_))
  refine bind_eq_some htags (bind_eq_some hconsumes (bind_eq_some hproduces ?_))
  exact bind_eq_some hschemes (bind_eq_some hparameters rfl)

end Operation

namespace Model

def IsSettled (m : Model) : Prop :=
  ∀ path method o, m.operation? path method = some o → ∀ p ∈ o.parameters, p.hint = none

theorem readTable?_record {κ α : Type} [DecidableEq κ] {key? : Content → Option κ}
    {value? : Content → Option α} (name : κ → String) (content : α → Content) {t : Table κ α}
    (hkey : ∀ k, key? (.text (name k)) = some k)
    (hvalue : ∀ e ∈ t.toList, value? (content e.2) = some e.2) :
    readTable? key? value? (.record (t.toList.map fun e => (name e.1, content e.2))) = some t := by
  have hentries := mapM_map_eq_some t.toList
    (f := fun e => do
      let key ← key? e.1
      let value ← value? e.2
      return (key, value))
    (g := fun e => (Content.text (name e.1), content e.2)) (by
      intro e he
      simp [hkey, hvalue e he])
  rw [Content.record, readTable?, List.map_map]
  exact (congrArg (Option.map Overlay.ofList) hentries).trans (congrArg some t.ofList_toList)

theorem operation?_of_mem {m : Model} {path : String} {methods : Table HttpMethod Operation}
    (hpath : (path, methods) ∈ m.toList) {method : HttpMethod} {o : Operation}
    (hmethod : (method, o) ∈ methods.toList) : m.operation? path method = some o := by
  rw [operation?, Table.get?_of_mem hpath, Option.bind_some, Table.get?_of_mem hmethod]

theorem ofContent?_content {m : Model} (h : m.IsSettled) : ofContent? m.content = some m := by
  have hmethods : ∀ e ∈ m.toList, readMethods? (methodsContent e.2) = some e.2 := by
    intro e he
    refine readTable?_record HttpMethod.name Operation.content HttpMethod.ofName?_name
      fun f hf => ?_
    exact Operation.ofContent?_content (h e.1 f.1 f.2 (operation?_of_mem he hf))
  exact readTable?_record id methodsContent (fun _ => rfl) hmethods

def readJson? (text : String) : Option Model := (Json.read? text).bind ofContent?

theorem forall_of_readTable? {κ α : Type} [DecidableEq κ] {P : α → Prop}
    {key? : Content → Option κ} {value? : Content → Option α}
    (h : ∀ c a, value? c = some a → P a) {c : Content} {t : Table κ α}
    (ht : readTable? key? value? c = some t) : ∀ e ∈ t.toList, P e.2 := by
  cases c with
  | map entries =>
    obtain ⟨pairs, hpairs, rfl⟩ := Option.map_eq_some_iff.1 ht
    intro e he
    refine forall_of_mapM (P := fun e => P e.2) ?_ hpairs e (Overlay.mem_of_mem_ofList he)
    intro entry pair hpair
    simp only [Option.bind_eq_bind, Option.bind_eq_some_iff] at hpair
    obtain ⟨key, _, value, hvalue, hpair⟩ := hpair
    cases hpair
    exact h entry.2 value hvalue
  | _ => cases ht

/-- A document says nothing about suggestions, so a model that is read from one has none. -/
theorem isSettled_of_ofContent? {c : Content} {m : Model} (h : ofContent? c = some m) :
    m.IsSettled := by
  intro path method o ho
  obtain ⟨methods, hpath, hmethod⟩ := Option.bind_eq_some_iff.1 ho
  have hmethods := forall_of_readTable?
    (P := fun methods => ∀ e ∈ methods.toList, ∀ p ∈ e.2.parameters, p.hint = none)
    (fun _ _ h => forall_of_readTable? (fun _ _ h => Operation.hint_of_ofContent? h) h) h
  exact hmethods (path, methods) (Table.mem_of_get? hpath) (method, o) (Table.mem_of_get? hmethod)

theorem isSettled_of_resolve {site : Site} {cache : SchemaCache} (hc : site.Agrees cache)
    {actions : List Action} {m : Model} (h : (site.resolve actions cache).result = .ok m) :
    m.IsSettled := by
  intro path method o ho p hp
  obtain ⟨action, route, _, _, hoperation⟩ := Site.operation_of_resolve hc h ho
  obtain ⟨_, _, _, hplaced⟩ := Site.isPlaced_of_operation site.agrees_empty hoperation
  exact (hplaced p hp).hint_eq

theorem readJson?_text_eq_some_iff (m : Model) :
    readJson? (m.text .json) = some m ↔ m.IsSettled := by
  have htext : Json.read? (m.text .json) = some m.content := Json.read?_pretty m.isPlain_content
  rw [readJson?, htext, Option.bind_some]
  exact ⟨isSettled_of_ofContent?, ofContent?_content⟩

/-- A model is read back from its text exactly when no parameter of it carries a suggestion. So
are the models that are read from any text and those that any run gives. -/
theorem readJson?_text (m : Model) :
    (readJson? (m.text .json) = some m ↔ m.IsSettled) ∧
      (∀ text, readJson? text = some m → readJson? (m.text .json) = some m) ∧
      ∀ (site : Site) (cache : SchemaCache) (actions : List Action), site.Reached cache →
        (site.resolve actions cache).result = .ok m → readJson? (m.text .json) = some m := by
  refine ⟨m.readJson?_text_eq_some_iff, fun text h => ?_, fun site cache actions hc h => ?_⟩
  · obtain ⟨c, _, hm⟩ := Option.bind_eq_some_iff.1 h
    exact m.readJson?_text_eq_some_iff.2 (isSettled_of_ofContent? hm)
  · exact m.readJson?_text_eq_some_iff.2 (isSettled_of_resolve hc.agrees h)

theorem readJson?_text_update :
    ∃ m : Model, (Site.oneSchema.resolve [Site.updateAction] Overlay.empty).result = .ok m ∧
      (m.operation? "/users/\x7bid\x7d" .put).isSome ∧ m.IsSettled ∧
      readJson? (m.text .json) = some m := by
  have hrun : (((Site.oneSchema.resolve [Site.updateAction] Overlay.empty).result.toOption.bind
      fun m => m.operation? "/users/\x7bid\x7d" .put).isSome) = true := by
    decide +kernel
  obtain ⟨m, o, h, ho⟩ := Site.exists_operation_of_isSome hrun
  obtain ⟨hiff, hread, hresolved⟩ := readJson?_text m
  have htext := hresolved Site.oneSchema Overlay.empty [Site.updateAction] .fresh h
  exact ⟨m, h, Option.isSome_iff_exists.2 ⟨o, ho⟩, hiff.1 htext, hread _ htext⟩

end Model

end Endpoints
