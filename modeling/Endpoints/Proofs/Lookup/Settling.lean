import Endpoints.Proofs.Overlay.Layers
import Endpoints.Source.Site

/-!
# Lookups that do not depend on what was read before

A schema that an earlier lookup read from the same files is the one that reading it again would
give. A lookup settles on a result when it gives this result and one log over every cache of such
schemas, and leaves a cache of the same kind. What settles can be computed from the empty cache.
-/

namespace Endpoints

section Results

variable {α β γ : Type}

theorem ok_of_map_ok {r : Except Error α} {f : α → β} {b : β} (h : r.map f = .ok b) :
    ∃ a, r = .ok a ∧ f a = b := by
  cases r with
  | error e => cases h
  | ok a =>
    cases h
    exact ⟨a, rfl, rfl⟩

theorem ok_of_bind_ok {r : Except Error α} {f : α → Except Error β} {b : β}
    (h : (r >>= f) = .ok b) : ∃ a, r = .ok a ∧ f a = .ok b := by
  cases r with
  | error e => cases h
  | ok a => exact ⟨a, rfl, h⟩

theorem ok_of_isOk {r : Except Error α} (h : r.isOk = true) : ∃ a, r = .ok a := by
  cases r with
  | error e => cases h
  | ok a => exact ⟨a, rfl⟩

theorem ok_of_toOption {r : Except Error α} {a : α} (h : r.toOption = some a) : r = .ok a := by
  cases r with
  | error e => cases h
  | ok b =>
    cases h
    rfl

theorem map_map_result (r : Except Error α) (f : α → β) (g : β → γ) :
    (r.map f).map g = r.map fun a => g (f a) := by
  cases r <;> rfl

end Results

/-- Every schema of a cache is what reading it from the files of the site gives. -/
def Site.Agrees (site : Site) (cache : SchemaCache) : Prop :=
  ∀ name schema, cache.get? name = some schema → site.readSchema name = .ok schema

theorem Site.agrees_empty (site : Site) : site.Agrees Overlay.empty := by
  intro name schema h
  cases h

theorem Site.Agrees.set {site : Site} {cache : SchemaCache} (hc : site.Agrees cache)
    {name : String} {schema : Schema} (h : site.readSchema name = .ok schema) :
    site.Agrees (cache.set name schema) := by
  intro other found hf
  rw [Table.get?_set] at hf
  split at hf
  · rename_i he
    cases hf
    exact he ▸ h
  · exact hc other found hf

namespace Lookup

variable {α β : Type} {x : Lookup α} {f : α → Lookup β} {cache : SchemaCache}

theorem bind_of_error {e : Error} (h : (x cache).result = .error e) :
    (x >>= f) cache = ⟨.error e, (x cache).cache, (x cache).log⟩ := by
  rw [bind_apply]
  cases hx : x cache with
  | mk result after log =>
    rw [hx] at h
    cases h
    rfl

theorem bind_of_ok {a : α} (h : (x cache).result = .ok a) :
    (x >>= f) cache = ⟨(f a (x cache).cache).result, (f a (x cache).cache).cache,
      (x cache).log ++ (f a (x cache).cache).log⟩ := by
  rw [bind_apply]
  cases hx : x cache with
  | mk result after log =>
    rw [hx] at h
    cases h
    rfl

theorem bind_ok {b : β} (h : ((x >>= f) cache).result = .ok b) :
    ∃ a, (x cache).result = .ok a ∧ (f a (x cache).cache).result = .ok b := by
  cases hx : (x cache).result with
  | error e =>
    rw [bind_of_error hx] at h
    cases h
  | ok a =>
    rw [bind_of_ok hx] at h
    exact ⟨a, rfl, h⟩

theorem cache_map (x : Lookup α) (g : α → β) (cache : SchemaCache) :
    ((x >>= fun a => pure (g a)) cache).cache = (x cache).cache := by
  cases hx : (x cache).result with
  | error e => rw [bind_of_error hx]
  | ok a => rw [bind_of_ok hx]; rfl

theorem result_map (x : Lookup α) (g : α → β) (cache : SchemaCache) :
    ((x >>= fun a => pure (g a)) cache).result = (x cache).result.map g := by
  cases hx : (x cache).result with
  | error e =>
    rw [bind_of_error hx]
    rfl
  | ok a =>
    rw [bind_of_ok hx]
    rfl

theorem log_map (x : Lookup α) (g : α → β) (cache : SchemaCache) :
    ((x >>= fun a => pure (g a)) cache).log = (x cache).log := by
  cases hx : (x cache).result with
  | error e => rw [bind_of_error hx]
  | ok a =>
    rw [bind_of_ok hx]
    exact List.append_nil _

/-- Over caches that agree with a site, a lookup gives one result and one log, and leaves a cache
that agrees. -/
def Settles (site : Site) (x : Lookup α) (result : Except Error α) : Prop :=
  ∃ log, ∀ cache, site.Agrees cache →
    (x cache).result = result ∧ (x cache).log = log ∧ site.Agrees (x cache).cache

variable {site : Site} {result : Except Error α}

theorem settles_pure (site : Site) (a : α) : Settles site (pure a) (.ok a) :=
  ⟨[], fun _ hc => ⟨rfl, rfl, hc⟩⟩

theorem settles_note (site : Site) (lines : Log) : Settles site (note lines) (.ok ()) :=
  ⟨lines, fun _ hc => ⟨rfl, rfl, hc⟩⟩

theorem settles_ofExcept (site : Site) (result : Except Error α) :
    Settles site (ofExcept result) result :=
  ⟨[], fun _ hc => ⟨rfl, rfl, hc⟩⟩

theorem Settles.result_eq (h : Settles site x result) (hc : site.Agrees cache) :
    (x cache).result = result := by
  obtain ⟨_, hx⟩ := h
  exact (hx cache hc).1

theorem Settles.agrees (h : Settles site x result) (hc : site.Agrees cache) :
    site.Agrees (x cache).cache := by
  obtain ⟨_, hx⟩ := h
  exact (hx cache hc).2.2

theorem Settles.log_eq (h : Settles site x result) (hc : site.Agrees cache) :
    (x cache).log = (x Overlay.empty).log := by
  obtain ⟨_, hx⟩ := h
  rw [(hx cache hc).2.1, (hx _ site.agrees_empty).2.1]

theorem Settles.fresh (h : Settles site x result) : Settles site x (x Overlay.empty).result := by
  have he := h.result_eq site.agrees_empty
  rwa [he]

theorem Settles.bind_error {e : Error} (hx : Settles site x (.error e)) :
    Settles site (x >>= f) (.error e) := by
  obtain ⟨log, hx⟩ := hx
  refine ⟨log, fun cache hc => ?_⟩
  obtain ⟨hr, hl, ha⟩ := hx cache hc
  rw [bind_of_error hr]
  exact ⟨rfl, hl, ha⟩

theorem Settles.bind_ok {a : α} {r : Except Error β} (hx : Settles site x (.ok a))
    (hf : Settles site (f a) r) : Settles site (x >>= f) r := by
  obtain ⟨log, hx⟩ := hx
  obtain ⟨log', hf⟩ := hf
  refine ⟨log ++ log', fun cache hc => ?_⟩
  obtain ⟨hr, hl, ha⟩ := hx cache hc
  obtain ⟨hr', hl', ha'⟩ := hf _ ha
  rw [bind_of_ok hr]
  exact ⟨hr', by rw [hl, hl'], ha'⟩

theorem Settles.bind (hx : Settles site x result)
    (hf : ∀ a, Settles site (f a) (f a Overlay.empty).result) :
    Settles site (x >>= f) ((x >>= f) Overlay.empty).result := by
  cases result with
  | error e => exact hx.bind_error.fresh
  | ok a => exact (hx.bind_ok (hf a)).fresh

theorem Settles.map {g : α → β} (hx : Settles site x result) :
    Settles site (x >>= fun a => pure (g a)) (result.map g) := by
  cases result with
  | error e => exact hx.bind_error
  | ok a => exact hx.bind_ok (settles_pure site (g a))

end Lookup

namespace Site

open Lookup

/-- A schema is the one that reading it gives, whether it was read before or not. -/
theorem settles_schema (site : Site) (name : String) :
    Settles site (site.schema name) (site.readSchema name) := by
  refine ⟨[], fun cache hc => ?_⟩
  unfold schema
  cases hk : cache.get? name with
  | some known => exact ⟨(hc name known hk).symm, rfl, hc⟩
  | none =>
    cases hr : site.readSchema name with
    | error e => exact ⟨rfl, rfl, hc⟩
    | ok read => exact ⟨rfl, rfl, hc.set hr⟩

theorem settles_schemaParameters (site : Site) (hint : Location) (name : String) :
    Settles site (site.schemaParameters hint name)
      ((site.readSchema name).map fun schema => schema.parameters hint) := by
  have h := site.settles_schema name
  cases hr : site.readSchema name with
  | error e =>
    rw [hr] at h
    exact h.bind_error
  | ok schema =>
    rw [hr] at h
    exact h.bind_ok ((settles_note site schema.notices).bind_ok (settles_pure site _))

end Site

end Endpoints
