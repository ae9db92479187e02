import Endpoints.Proofs.Lookup.Settling

/-!
# Asking for schemas while files change

Every question for a schema comes with the files of its moment, so nothing is assumed about what
happens to them between two questions. What a resolver has read is described by the answers that
it has given: for each name the schema that was read at the first success, if there was one.
-/

namespace Endpoints

/-- A question for the parameters of a schema, with the files of the moment. -/
structure Inquiry where
  site : Site
  hint : Location
  name : String

structure Answer where
  inquiry : Inquiry
  result : Except Error (List Parameter)
  log : Log

namespace Inquiry

def ask (q : Inquiry) : Lookup (List Parameter) := q.site.schemaParameters q.hint q.name

def answer (q : Inquiry) (cache : SchemaCache) : Answer :=
  ⟨q, (q.ask cache).result, (q.ask cache).log⟩

/-- What the files of the moment say: the first of the three files that is there decides, whatever
stands in the others. -/
def decided (q : Inquiry) : Except Error (List Parameter) :=
  match (schemaEndings.map (candidate q.site.schemaDirectory q.name)).find? q.site.files.isFile with
  | none =>
      .error (.unresolved .schema q.name (candidate q.site.schemaDirectory q.name "yml"))
  | some path =>
      match RouteTable.readSource q.site.files path Schema.read with
      | .error e => .error e
      | .ok schema =>
          match schema.fault? with
          | some fault => .error (.invalidSource path fault)
          | none => .ok (schema.parameters q.hint)

variable (q : Inquiry) {cache : SchemaCache} {schema : Schema}

theorem ask_of_known (h : cache.get? q.name = some schema) :
    q.ask cache = ⟨.ok (schema.parameters q.hint), cache, schema.notices⟩ := by
  have hs : q.site.schema q.name cache = ⟨.ok schema, cache, []⟩ := by
    simp only [Site.schema, h]
  simp [ask, Site.schemaParameters, Lookup.bind_apply, hs]

theorem ask_of_read (h : cache.get? q.name = none) (hr : q.site.readSchema q.name = .ok schema) :
    q.ask cache = ⟨.ok (schema.parameters q.hint), cache.set q.name schema, schema.notices⟩ := by
  have hs : q.site.schema q.name cache = ⟨.ok schema, cache.set q.name schema, []⟩ := by
    simp only [Site.schema, h, hr]
  simp [ask, Site.schemaParameters, Lookup.bind_apply, hs]

theorem ask_of_unreadable {e : Error} (h : cache.get? q.name = none)
    (hr : q.site.readSchema q.name = .error e) : q.ask cache = ⟨.error e, cache, []⟩ := by
  have hs : q.site.schema q.name cache = ⟨.error e, cache, []⟩ := by
    simp only [Site.schema, h, hr]
  simp [ask, Site.schemaParameters, Lookup.bind_apply, hs]

theorem answer_congr {a b : SchemaCache} (h : a.get? q.name = b.get? q.name) :
    q.answer a = q.answer b ∧
      (q.ask a).cache.get? q.name = (q.ask b).cache.get? q.name := by
  unfold answer
  cases ha : a.get? q.name with
  | some schema =>
    rw [q.ask_of_known ha, q.ask_of_known (h ▸ ha)]
    exact ⟨rfl, h⟩
  | none =>
    cases hr : q.site.readSchema q.name with
    | error e =>
      rw [q.ask_of_unreadable ha hr, q.ask_of_unreadable (h ▸ ha) hr]
      exact ⟨rfl, h⟩
    | ok schema =>
      rw [q.ask_of_read ha hr, q.ask_of_read (h ▸ ha) hr]
      simp [Table.get?_set]

theorem get?_ask_of_ne {name : String} (h : q.name ≠ name) :
    (q.ask cache).cache.get? name = cache.get? name := by
  cases hk : cache.get? q.name with
  | some schema => rw [q.ask_of_known hk]
  | none =>
    cases hr : q.site.readSchema q.name with
    | error e => rw [q.ask_of_unreadable hk hr]
    | ok schema =>
      rw [q.ask_of_read hk hr]
      simp [Table.get?_set, h]

theorem answer_empty : (q.answer Overlay.empty).result = q.decided := by
  have hr : q.decided = (q.site.readSchema q.name).map fun schema => schema.parameters q.hint := by
    unfold decided Site.readSchema Site.locate
    cases (schemaEndings.map (candidate q.site.schemaDirectory q.name)).find?
        q.site.files.isFile with
    | none => rfl
    | some path =>
      cases hs : RouteTable.readSource q.site.files path Schema.read with
      | error e =>
        simp only [hs, bind, Except.bind]
        rfl
      | ok schema =>
        cases hf : schema.fault? <;>
        · simp only [hs, hf, bind, Except.bind]
          rfl
  rw [hr]
  exact (q.site.settles_schemaParameters q.hint q.name).result_eq q.site.agrees_empty

end Inquiry

namespace Answer

def all : SchemaCache → List Inquiry → List Answer
  | _, [] => []
  | cache, q :: rest => q.answer cache :: all (q.ask cache).cache rest

def cacheAfter : SchemaCache → List Inquiry → SchemaCache
  | cache, [] => cache
  | cache, q :: rest => cacheAfter (q.ask cache).cache rest

theorem all_append (cache : SchemaCache) (ps qs : List Inquiry) :
    all cache (ps ++ qs) = all cache ps ++ all (cacheAfter cache ps) qs := by
  induction ps generalizing cache with
  | nil => rfl
  | cons p rest ih =>
    rw [List.cons_append, all, ih]
    rfl

/-- The answers before one are those of a resolver that was asked their questions, and the one is
what this resolver gives next. -/
theorem eq_of_all_eq_append {cache : SchemaCache} {qs : List Inquiry} {before after : List Answer}
    {a : Answer} (h : all cache qs = before ++ a :: after) :
    before = all cache (before.map Answer.inquiry) ∧
      a = a.inquiry.answer (cacheAfter cache (before.map Answer.inquiry)) := by
  induction before generalizing cache qs with
  | nil =>
    cases qs with
    | nil => cases h
    | cons q rest =>
      cases h
      exact ⟨rfl, rfl⟩
  | cons b before ih =>
    cases qs with
    | nil => cases h
    | cons q rest =>
      obtain ⟨rfl, hrest⟩ := List.cons.inj h
      obtain ⟨hbefore, ha⟩ := ih hrest
      exact ⟨congrArg (q.answer cache :: ·) hbefore, ha⟩

/-- The answers for a name are those of a resolver that is asked for this name only. -/
theorem filter_all {name : String} {a b : SchemaCache} (h : a.get? name = b.get? name)
    (qs : List Inquiry) :
    (all a qs).filter (fun x => x.inquiry.name = name) =
      all b (qs.filter fun q => q.name = name) := by
  induction qs generalizing a b with
  | nil => rfl
  | cons q rest ih =>
    by_cases hq : q.name = name
    · subst hq
      obtain ⟨hanswer, hnext⟩ := q.answer_congr h
      have hrest := ih hnext
      simp only [all, List.filter_cons, Inquiry.answer, decide_true, if_true] at hanswer ⊢
      rw [hanswer, hrest]
    · have hrest := ih ((q.get?_ask_of_ne hq).trans h)
      simpa [all, List.filter_cons, Inquiry.answer, hq] using hrest

def success? (name : String) (as : List Answer) : Option Answer :=
  as.find? fun a => a.inquiry.name = name ∧ a.result.isOk

theorem success?_append_singleton (name : String) (as : List Answer) (a : Answer) :
    success? name (as ++ [a]) = (success? name as).or
      (if a.inquiry.name = name ∧ a.result.isOk then some a else none) := by
  rw [success?, success?, List.find?_append, List.find?_singleton]
  simp

/-- A resolver knows for each name the schema that was read at the first success, and no others. -/
structure Remembered (cache : SchemaCache) (as : List Answer) : Prop where
  unknown : ∀ name, success? name as = none → cache.get? name = none
  known : ∀ name a, success? name as = some a → ∃ schema,
    a.inquiry.site.readSchema name = .ok schema ∧
      a.result = .ok (schema.parameters a.inquiry.hint) ∧ cache.get? name = some schema

theorem remembered_nil : Remembered Overlay.empty [] :=
  ⟨fun _ _ => rfl, fun _ _ h => nomatch h⟩

section Remembered

variable {cache : SchemaCache} {as : List Answer}

/-- An answer that changes neither what is known nor the first successes. -/
theorem Remembered.append_of_same (h : Remembered cache as) {q : Inquiry}
    (hc : (q.ask cache).cache = cache)
    (hs : success? q.name as = none → (q.answer cache).result.isOk = false) :
    Remembered (q.ask cache).cache (as ++ [q.answer cache]) := by
  have hsame : ∀ name, success? name (as ++ [q.answer cache]) = success? name as := by
    intro name
    rw [success?_append_singleton]
    cases hn : success? name as with
    | some a => rfl
    | none =>
      by_cases hq : q.name = name
      · have hfailed := hs (hq ▸ hn)
        simp [hfailed]
      · simp [Inquiry.answer, hq]
  constructor
  · intro name hn
    rw [hsame] at hn
    rw [hc]
    exact h.unknown name hn
  · intro name a hn
    rw [hsame] at hn
    rw [hc]
    exact h.known name a hn

/-- What is remembered after one more question: a failure adds nothing, and a success adds its
schema if it is the first one for the name. -/
theorem Remembered.ask (h : Remembered cache as) (q : Inquiry) :
    Remembered (q.ask cache).cache (as ++ [q.answer cache]) := by
  cases hk : cache.get? q.name with
  | some schema =>
    refine h.append_of_same (by rw [q.ask_of_known hk]) fun hs => ?_
    rw [h.unknown q.name hs] at hk
    cases hk
  | none =>
    cases hr : q.site.readSchema q.name with
    | error e =>
      have hask := q.ask_of_unreadable hk hr
      exact h.append_of_same (by rw [hask]) fun _ => by rw [Inquiry.answer, hask]; rfl
    | ok schema =>
      have hask := q.ask_of_read hk hr
      have hresult : (q.answer cache).result = .ok (schema.parameters q.hint) := by
        rw [Inquiry.answer, hask]
      have hfirst : success? q.name as = none := by
        cases hs : success? q.name as with
        | none => rfl
        | some a =>
          obtain ⟨_, _, _, hknown⟩ := h.known q.name a hs
          rw [hk] at hknown
          cases hknown
      have hnew : success? q.name (as ++ [q.answer cache]) = some (q.answer cache) := by
        rw [success?_append_singleton, hfirst, hresult]
        simp [Inquiry.answer, Except.isOk, Except.toBool]
      have hother : ∀ name, q.name ≠ name →
          success? name (as ++ [q.answer cache]) = success? name as := by
        intro name hn
        rw [success?_append_singleton]
        simp [Inquiry.answer, hn]
      rw [hask]
      constructor
      · intro name hs
        by_cases hq : q.name = name
        · subst hq
          rw [hnew] at hs
          cases hs
        · rw [hother name hq] at hs
          simpa [Table.get?_set, hq] using h.unknown name hs
      · intro name a hs
        by_cases hq : q.name = name
        · subst hq
          rw [hnew] at hs
          cases hs
          exact ⟨schema, hr, hresult, by simp [Table.get?_set]⟩
        · rw [hother name hq] at hs
          simpa [Table.get?_set, hq] using h.known name a hs

theorem Remembered.askAll (h : Remembered cache as) (qs : List Inquiry) :
    Remembered (cacheAfter cache qs) (as ++ all cache qs) := by
  induction qs generalizing cache as with
  | nil => simpa [all, cacheAfter] using h
  | cons q rest ih => simpa [all, cacheAfter] using ih (h.ask q)

end Remembered

/-- Answers in which each name is fixed by its first success. Before it, an answer is that of a new
resolver, and so what the files of the moment say. After it, an answer is made from the schema that
was read at the first success. Answers for other names never matter. -/
structure AreSnapshots (as : List Answer) : Prop where
  fresh : ∀ before a after, as = before ++ a :: after → success? a.inquiry.name before = none →
    a = a.inquiry.answer Overlay.empty ∧ a.result = a.inquiry.decided
  kept : ∀ before a after first, as = before ++ a :: after →
    success? a.inquiry.name before = some first →
    ∃ schema, first.inquiry.site.readSchema a.inquiry.name = .ok schema ∧
      first.result = .ok (schema.parameters first.inquiry.hint) ∧
      a.result = .ok (schema.parameters a.inquiry.hint) ∧ a.log = schema.notices
  apart : ∀ name, as.filter (fun a => a.inquiry.name = name) =
    all Overlay.empty ((as.filter fun a => a.inquiry.name = name).map Answer.inquiry)

theorem map_inquiry_all (cache : SchemaCache) (qs : List Inquiry) :
    (all cache qs).map Answer.inquiry = qs := by
  induction qs generalizing cache with
  | nil => rfl
  | cons q rest ih => exact congrArg (q :: ·) (ih _)

theorem areSnapshots_all (qs : List Inquiry) : AreSnapshots (all Overlay.empty qs) := by
  constructor
  · intro before a after h hnone
    obtain ⟨hbefore, ha⟩ := eq_of_all_eq_append h
    have hknown := remembered_nil.askAll (before.map Answer.inquiry)
    rw [List.nil_append, ← hbefore] at hknown
    have hsame := (a.inquiry.answer_congr (b := Overlay.empty) (hknown.unknown _ hnone)).1
    have hfresh : a = a.inquiry.answer Overlay.empty := ha.trans hsame
    have hdecided := a.inquiry.answer_empty
    rw [← hfresh] at hdecided
    exact ⟨hfresh, hdecided⟩
  · intro before a after first h hsome
    obtain ⟨hbefore, ha⟩ := eq_of_all_eq_append h
    have hknown := remembered_nil.askAll (before.map Answer.inquiry)
    rw [List.nil_append, ← hbefore] at hknown
    obtain ⟨schema, hr, hfirst, hcache⟩ := hknown.known _ first hsome
    have hask := a.inquiry.ask_of_known hcache
    refine ⟨schema, hr, hfirst, ?_, ?_⟩
    · rw [ha]
      exact congrArg Outcome.result hask
    · rw [ha]
      exact congrArg Outcome.log hask
  · intro name
    rw [filter_all rfl, map_inquiry_all]

end Answer

end Endpoints
