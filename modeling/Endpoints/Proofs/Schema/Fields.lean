import Endpoints.Proofs.Resolution.WellFormed
import Endpoints.Proofs.Schema.Answers

/-!
# The fields of a schema as parameters

A schema gives one parameter for each of its fields. A parameter that takes another name keeps the
name of its field besides, so the fields can be read off the parameters again, whatever the new
names are and however they collide. The one thing that a schema may not do is to leave a parameter
without a name.
-/

namespace Endpoints

namespace Content

/-- The truth value `true`, under any number of tags. -/
inductive IsTruth : Content → Prop where
  | bool : IsTruth (.bool true)
  | tagged {tag value} (truth : IsTruth value) : IsTruth (.tagged tag value)

theorem isTrue_tagged (tag : String) (value : Content) :
    (Content.tagged tag value).isTrue = value.isTrue := by
  simp only [isTrue, untag]

theorem isTruth_of_isTrue (c : Content) (h : c.isTrue = true) : c.IsTruth := by
  match c with
  | .bool true => exact .bool
  | .tagged tag value =>
    rw [isTrue_tagged] at h
    exact .tagged (isTruth_of_isTrue value h)
  | .bool false | .null | .int _ | .minusZero | .float _ | .text _ | .list _ | .map _
  | .unreadable => cases h

theorem isTrue_iff {c : Content} : c.isTrue = true ↔ c.IsTruth := by
  constructor
  · exact isTruth_of_isTrue c
  · intro h
    induction h with
    | bool => rfl
    | tagged _ ih => rw [isTrue_tagged, ih]

end Content

theorem FieldDefinition.isRequired_iff {d : FieldDefinition} :
    d.isRequired = true ↔ ∃ c, d.required = some c ∧ c.IsTruth := by
  unfold isRequired
  cases d.required with
  | none => simp
  | some c => simp [Content.isTrue_iff]

def Parameter.type (p : Parameter) : TypeSpec where
  name := p.typeName
  format := p.format
  pattern := p.pattern

namespace Schema

variable {s : Schema} {hint : Location}

/-- The alias of a field is a name, or a list that starts with it. -/
def Renames (s : Schema) (field name : String) : Prop :=
  s.aliases.get? field = some (.name name) ∨
    ∃ rest, s.aliases.get? field = some (.names (name :: rest))

/-- A schema with a field that has no name, or with an alias that is none, whether its field is
declared or not. -/
def IsNameless (s : Schema) : Prop :=
  "" ∈ s.fields.keys ∨ ∃ field, s.Renames field ""

/-- What a parameter takes over from a field of a schema. -/
structure Presents (s : Schema) (hint : Location) (field : String × FieldDefinition)
    (p : Parameter) : Prop where
  alias_iff : p.aliasOf ≠ none ↔ ∃ name, s.Renames field.1 name
  renamed : ∀ name, s.Renames field.1 name → p.name = name
  recovers : p.aliasOf.getD p.name = field.1
  required_iff : p.required = true ↔ ∃ c, field.2.required = some c ∧ c.IsTruth
  type_eq : p.type = TypeSpec.ofToken (field.2.typeToken.getD "string")
  location_eq : p.location = .guess
  hint_eq : p.hint = some hint
  description_eq : p.description = none

/-- Parameters that are the fields of a schema, no more and no less. -/
structure IsFaithful (s : Schema) (hint : Location) (ps : List Parameter) : Prop where
  presents : List.Forall₂ (s.Presents hint) s.fields.toList ps
  recovers : ps.map (fun p => p.aliasOf.getD p.name) = s.fields.keys
  distinct : s.fields.keys.Nodup
  named : ∀ p ∈ ps, p.name ≠ ""

theorem renames_iff {field name : String} :
    s.Renames field name ↔ (s.aliases.get? field).bind AliasTarget.replacement? = some name := by
  unfold Renames
  cases s.aliases.get? field with
  | none => simp
  | some target =>
    cases target with
    | name other => simp [AliasTarget.replacement?]
    | names list => cases list <;> simp [AliasTarget.replacement?]

theorem isNameless_iff_fault? : s.IsNameless ↔ s.fault? ≠ none := by
  have haliases : (∃ field, s.Renames field "") ↔
      ∃ e ∈ s.aliases.toList, e.2.replacement? = some "" := by
    constructor
    · rintro ⟨field, hfield⟩
      obtain ⟨target, htarget, hname⟩ := Option.bind_eq_some_iff.1 (renames_iff.1 hfield)
      exact ⟨(field, target), Table.mem_of_get? htarget, hname⟩
    · rintro ⟨⟨field, target⟩, hmem, hname⟩
      refine ⟨field, renames_iff.2 ?_⟩
      rw [Table.get?_of_mem hmem, Option.bind_some, hname]
  rw [ne_eq, fault?_eq_none_iff, IsNameless, haliases]
  simp only [not_and_or, not_not, not_forall, exists_prop]

/-- A fault tells of a field or of an alias that has no name. -/
theorem nameless_of_fault? {fault : SourceFault} (h : s.fault? = some fault) :
    fault = .unnamedField ∧ "" ∈ s.fields.keys ∨
      ∃ field, fault = .emptyAlias field ∧ s.Renames field "" := by
  unfold fault? at h
  split at h
  · rename_i hfield
    cases h
    exact .inl ⟨rfl, hfield⟩
  · obtain ⟨⟨field, target⟩, hfound, rfl⟩ := Option.map_eq_some_iff.1 h
    have hname : target.replacement? = some "" := by simpa using List.find?_some hfound
    refine .inr ⟨field, rfl, renames_iff.2 ?_⟩
    rw [Table.get?_of_mem (List.mem_of_find?_eq_some hfound), Option.bind_some, hname]

theorem presents_parameter (s : Schema) (hint : Location) (field : String)
    (d : FieldDefinition) : s.Presents hint (field, d) (s.parameter hint field d) := by
  have hnone : (∀ name, ¬ s.Renames field name) ↔
      (s.aliases.get? field).bind AliasTarget.replacement? = none := by
    simp only [renames_iff, Option.eq_none_iff_forall_ne_some]
  unfold parameter
  cases hr : (s.aliases.get? field).bind AliasTarget.replacement? with
  | none =>
    have hkept := hnone.2 hr
    constructor
    · simp [Parameter.guessed, Parameter.make, hkept]
    · exact fun name hname => absurd hname (hkept name)
    · rfl
    · exact FieldDefinition.isRequired_iff
    all_goals rfl
  | some name =>
    have hrenames : s.Renames field name := renames_iff.2 hr
    constructor
    · exact iff_of_true (by simp) ⟨name, hrenames⟩
    · intro other hother
      rw [renames_iff, hr] at hother
      exact Option.some.inj hother
    · rfl
    · exact FieldDefinition.isRequired_iff
    all_goals rfl

theorem forall₂_presents (s : Schema) (hint : Location) :
    List.Forall₂ (s.Presents hint) s.fields.toList (s.parameters hint) := by
  rw [parameters, List.forall₂_map_right_iff, List.forall₂_same]
  exact fun field _ => s.presents_parameter hint field.1 field.2

/-- The name of the field stands in a parameter either way. -/
theorem recovers_parameters (s : Schema) (hint : Location) :
    (s.parameters hint).map (fun p => p.aliasOf.getD p.name) = s.fields.keys := by
  rw [parameters, List.map_map, Table.keys]
  exact List.map_congr_left fun field _ => (s.presents_parameter hint field.1 field.2).recovers

theorem isFaithful_parameters (h : ¬ s.IsNameless) : s.IsFaithful hint (s.parameters hint) := by
  rw [isNameless_iff_fault?, not_not] at h
  exact ⟨s.forall₂_presents hint, s.recovers_parameters hint, s.fields.nodup,
    fun p hp => name_ne_of_mem_parameters h hp⟩

end Schema

namespace Site

variable {site : Site} {cache : SchemaCache} {name path : String} {s : Schema}

theorem readSchema_of_read
    (hfile : site.locate .schema site.schemaDirectory schemaEndings name = .ok path)
    (hread : RouteTable.readSource site.files path Schema.read = .ok s) :
    site.readSchema name =
      match s.fault? with
      | some fault => .error (.invalidSource path fault)
      | none => .ok s := by
  rw [readSchema, hfile]
  change (RouteTable.readSource site.files path Schema.read >>= _) = _
  rw [hread]
  cases hf : s.fault? <;> simp [bind, Except.bind, hf] <;> rfl

theorem result_schemaParameters_of_read (hc : site.Agrees cache)
    (hfile : site.locate .schema site.schemaDirectory schemaEndings name = .ok path)
    (hread : RouteTable.readSource site.files path Schema.read = .ok s) (hint : Location) :
    (site.schemaParameters hint name cache).result =
      match s.fault? with
      | some fault => .error (.invalidSource path fault)
      | none => .ok (s.parameters hint) := by
  rw [(site.settles_schemaParameters hint name).result_eq hc, readSchema_of_read hfile hread]
  cases s.fault? <;> rfl

theorem log_schemaParameters_of_read (hc : site.Agrees cache) (hs : site.readSchema name = .ok s)
    (hint : Location) : (site.schemaParameters hint name cache).log = s.notices := by
  have hfresh := (site.settles_schemaParameters hint name).log_eq hc
  have hnew : Table.get? (Overlay.empty : SchemaCache) name = none := Table.get?_empty name
  have hask := (Inquiry.mk site hint name).ask_of_read hnew hs
  exact hfresh.trans (congrArg Outcome.log hask)

/-- A schema that is read is refused for its names exactly when a field has none or an alias, of
whatever field, is none, and the error tells which. Otherwise it gives its fields, with the warnings
of their types: each field one parameter, which takes the name that the schema gives to the field
and keeps the field as its alias, so that the parameters tell which fields the schema has. -/
theorem schemaParameters_isFaithful (hc : site.Agrees cache)
    (hfile : site.locate .schema site.schemaDirectory schemaEndings name = .ok path)
    (hread : RouteTable.readSource site.files path Schema.read = .ok s) (hint : Location) :
    let asked := site.schemaParameters hint name cache
    ((∃ e, asked.result = .error e) ↔ s.IsNameless) ∧
    (∀ e, asked.result = .error e →
      e = .invalidSource path .unnamedField ∧ "" ∈ s.fields.keys ∨
        ∃ field, e = .invalidSource path (.emptyAlias field) ∧ s.Renames field "") ∧
    (¬ s.IsNameless → ∃ ps, asked.result = .ok ps ∧ s.IsFaithful hint ps ∧
      asked.log =
        s.fields.values.flatMap fun d => TypeSpec.notices (d.typeToken.getD "string")) := by
  intro asked
  have hresult : asked.result = _ := result_schemaParameters_of_read hc hfile hread hint
  have hread' := readSchema_of_read hfile hread
  rw [Schema.isNameless_iff_fault?]
  cases hf : s.fault? with
  | some fault =>
    rw [hf] at hresult
    refine ⟨iff_of_true ⟨_, hresult⟩ (by simp), fun e he => ?_, fun h => absurd (by simp) h⟩
    obtain rfl := Except.error.inj (he.symm.trans hresult)
    rcases Schema.nameless_of_fault? hf with ⟨rfl, hfield⟩ | ⟨field, rfl, hfield⟩
    · exact .inl ⟨rfl, hfield⟩
    · exact .inr ⟨field, rfl, hfield⟩
  | none =>
    rw [hf] at hresult hread'
    have hnamed : ¬ s.IsNameless := by simp [Schema.isNameless_iff_fault?, hf]
    refine ⟨iff_of_false ?_ (by simp), fun e he => ?_, fun _ => ⟨_, hresult, ?_, ?_⟩⟩
    · rintro ⟨e, he⟩
      cases hresult.symm.trans he
    · cases hresult.symm.trans he
    · exact Schema.isFaithful_parameters hnamed
    · exact log_schemaParameters_of_read hc hread' hint

def swappingSchema : Site where
  files := FileTree.empty.plant "schemas/user.yml"
    ("fields: \x7ba: \x7btype: int, required: !x true\x7d, b: \x7brequired: 'true'\x7d, " ++
      "c: \x7btype: uuid, required: true\x7d, d: \x7b\x7d\x7d\n" ++
      "aliases: \x7ba: b, b: [a, z], c: a, d: [], ghost: zed\x7d").toUTF8

theorem schemaParameters_isFaithful_swapping :
    ∃ s ps, RouteTable.readSource swappingSchema.files "schemas/user.yml" Schema.read = .ok s ∧
      (swappingSchema.schemaParameters .query "user" Overlay.empty).result = .ok ps ∧
      s.IsFaithful .query ps ∧ ps.map Parameter.name = ["b", "a", "a", "d"] ∧
      ps.map Parameter.required = [true, false, true, false] := by
  have hrun : (RouteTable.readSource swappingSchema.files "schemas/user.yml"
      Schema.read).toOption.any (fun s => s.fault? = none ∧
        (s.parameters .query).map Parameter.name = ["b", "a", "a", "d"] ∧
        (s.parameters .query).map Parameter.required = [true, false, true, false]) = true := by
    decide +kernel
  obtain ⟨s, hs, hchecked⟩ := (Option.any_eq_true _ _).1 hrun
  obtain ⟨hfault, hnames, hrequired⟩ := of_decide_eq_true hchecked
  have hread := ok_of_toOption hs
  have hfile : swappingSchema.locate .schema swappingSchema.schemaDirectory schemaEndings "user" =
      .ok "schemas/user.yml" := by
    decide +kernel
  have hresult := result_schemaParameters_of_read swappingSchema.agrees_empty hfile hread .query
  rw [hfault] at hresult
  have hnamed : ¬ s.IsNameless := by simp [Schema.isNameless_iff_fault?, hfault]
  obtain ⟨-, -, hfaithful⟩ :=
    schemaParameters_isFaithful swappingSchema.agrees_empty hfile hread .query
  obtain ⟨ps, hps, hfields, -⟩ := hfaithful hnamed
  obtain rfl := Except.ok.inj (hps.symm.trans hresult)
  exact ⟨s, _, hread, hps, hfields, hnames, hrequired⟩

end Site

end Endpoints
