import Endpoints.Proofs.Schema.Snapshots

/-!
# How a cache grows

Whatever an annotation looks up, and wherever it fails, the schemas that were known before stay
known as they were, in their order. Behind them stand the schemas that were read for the first
time, each as a resolver that knows nothing would read it from the same files.
-/

namespace Endpoints

/-- A cache after lookups of a site: what was there before, and behind it schemas that are what a
fresh load of their names gives. -/
def Site.Extends (site : Site) (before after : SchemaCache) : Prop :=
  ∃ gained : List (String × Schema), after.toList = before.toList ++ gained ∧
    ∀ name schema, (name, schema) ∈ gained →
      (site.schema name Overlay.empty).result = .ok schema

namespace Site

variable {site : Site} {a b c : SchemaCache}

theorem extends_refl (site : Site) (cache : SchemaCache) : site.Extends cache cache :=
  ⟨[], by simp⟩

theorem Extends.trans (hab : site.Extends a b) (hbc : site.Extends b c) : site.Extends a c := by
  obtain ⟨first, hfirst, hreadFirst⟩ := hab
  obtain ⟨second, hsecond, hreadSecond⟩ := hbc
  refine ⟨first ++ second, by rw [hsecond, hfirst, List.append_assoc], fun name schema h => ?_⟩
  cases List.mem_append.1 h with
  | inl h => exact hreadFirst name schema h
  | inr h => exact hreadSecond name schema h

theorem Extends.get?_of_known (h : site.Extends a b) {name : String} {schema : Schema}
    (hk : a.get? name = some schema) : b.get? name = some schema := by
  obtain ⟨gained, hgained, _⟩ := h
  apply Table.get?_of_mem
  rw [hgained]
  exact List.mem_append_left gained (Table.mem_of_get? hk)

/-- A name that was not known becomes known only with what a fresh load of it gives. -/
theorem Extends.fresh_of_gained (h : site.Extends a b) {name : String} {schema : Schema}
    (hb : b.get? name = some schema) (ha : a.get? name = none) :
    (site.schema name Overlay.empty).result = .ok schema := by
  obtain ⟨gained, hgained, hread⟩ := h
  have hmem := Table.mem_of_get? hb
  rw [hgained] at hmem
  cases List.mem_append.1 hmem with
  | inl hold =>
    rw [Table.get?_of_mem hold] at ha
    cases ha
  | inr hnew => exact hread name schema hnew

theorem extends_set {name : String} {schema : Schema} (hn : a.get? name = none)
    (hr : site.readSchema name = .ok schema) : site.Extends a (a.set name schema) := by
  refine ⟨[(name, schema)], Table.toList_set_of_unknown hn schema, fun other found h => ?_⟩
  cases List.mem_singleton.1 h
  exact (site.settles_schema name).result_eq site.agrees_empty |>.trans hr

/-- One question adds nothing, or the schema that it reads. -/
theorem extends_ask (q : Inquiry) (cache : SchemaCache) :
    q.site.Extends cache (q.ask cache).cache := by
  cases hk : cache.get? q.name with
  | some schema =>
    rw [q.ask_of_known hk]
    exact extends_refl q.site cache
  | none =>
    cases hr : q.site.readSchema q.name with
    | error e =>
      rw [q.ask_of_unreadable hk hr]
      exact extends_refl q.site cache
    | ok schema =>
      rw [q.ask_of_read hk hr]
      exact extends_set hk hr

theorem extends_cacheAfter {qs : List Inquiry} (h : ∀ q ∈ qs, q.site = site)
    (cache : SchemaCache) : site.Extends cache (Answer.cacheAfter cache qs) := by
  induction qs generalizing cache with
  | nil => exact extends_refl site cache
  | cons q rest ih =>
    obtain ⟨rfl, hrest⟩ := List.forall_mem_cons.1 h
    exact (extends_ask q cache).trans (ih hrest (q.ask cache).cache)

theorem site_of_mem_entryInquiries {hint : Location} {cache : SchemaCache}
    {entries : List FragmentEntry} {q : Inquiry}
    (h : q ∈ site.entryInquiries hint cache entries) : q.site = site := by
  induction entries generalizing cache with
  | nil => cases h
  | cons entry rest ih =>
    cases entry with
    | schema name =>
      simp only [entryInquiries] at h
      split at h
      · cases List.mem_cons.1 h with
        | inl hq => exact congrArg Inquiry.site hq
        | inr hrest => exact ih hrest
      · exact congrArg Inquiry.site (List.mem_singleton.1 h)
    | parameter p =>
      simp only [entryInquiries] at h
      split at h
      · cases h
      · exact ih h

theorem site_of_mem_inquiries {hint : Location} {key : String} {value : AnnotationValue}
    {cache : SchemaCache} {q : Inquiry} (h : q ∈ site.inquiries hint key value cache) :
    q.site = site := by
  unfold inquiries at h
  split at h
  · exact congrArg Inquiry.site (List.mem_singleton.1 h)
  · unfold fragmentInquiries at h
    cases hr : (site.readFragment value.display).toOption with
    | none =>
      rw [hr] at h
      cases h
    | some found =>
      rw [hr] at h
      exact site_of_mem_entryInquiries h
  · cases h

theorem extends_apply (site : Site) (hint : Location) (draft : Draft) (key : String)
    (value : AnnotationValue) (cache : SchemaCache) :
    site.Extends cache (site.apply hint draft key value cache).cache := by
  rw [cache_apply]
  exact extends_cacheAfter (fun q h => site_of_mem_inquiries h) cache

end Site

end Endpoints
