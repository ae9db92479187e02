import Endpoints.Proofs.Lookup.Settling

/-!
# What lookups ensure

A schema with a fault is never kept, whatever happens to the files. Over caches without faults, a
property of what a lookup gives is followed through its parts, and the cache that it leaves is
again one without faults.
-/

namespace Endpoints

/-- Every schema that is known was read without a fault, from whatever files. -/
def SchemaCache.IsFaultless (cache : SchemaCache) : Prop :=
  ∀ name schema, cache.get? name = some schema → schema.fault? = none

theorem SchemaCache.isFaultless_empty : SchemaCache.IsFaultless Overlay.empty := by
  intro name schema h
  cases h

theorem SchemaCache.IsFaultless.set {cache : SchemaCache} (hc : cache.IsFaultless) {name : String}
    {schema : Schema} (h : schema.fault? = none) :
    SchemaCache.IsFaultless (cache.set name schema) := by
  intro other found hf
  rw [Table.get?_set] at hf
  split at hf
  · cases hf
    exact h
  · exact hc other found hf

namespace Lookup

variable {α β : Type} {P P' : α → Prop} {Q : β → Prop} {x : Lookup α} {f : α → Lookup β}

/-- Over caches without faults, a lookup leaves such a cache, and what it gives has a property. -/
def Ensures (x : Lookup α) (P : α → Prop) : Prop :=
  ∀ cache : SchemaCache, cache.IsFaultless →
    (x cache).cache.IsFaultless ∧ ∀ a, (x cache).result = .ok a → P a

theorem ensures_pure {a : α} (h : P a) : Ensures (pure a) P := by
  intro cache hc
  refine ⟨hc, fun b hb => ?_⟩
  cases hb
  exact h

theorem ensures_note (lines : Log) : Ensures (note lines) fun _ => True :=
  fun _ hc => ⟨hc, fun _ _ => trivial⟩

theorem ensures_ofExcept {result : Except Error α} (h : ∀ a, result = .ok a → P a) :
    Ensures (ofExcept result) P :=
  fun _ hc => ⟨hc, h⟩

theorem ensures_error (P : α → Prop) (e : Error) : Ensures (ofExcept (.error e)) P := by
  refine ensures_ofExcept fun a h => ?_
  cases h

theorem Ensures.mono (hx : Ensures x P) (h : ∀ a, P a → P' a) : Ensures x P' := by
  intro cache hc
  obtain ⟨hleft, hgiven⟩ := hx cache hc
  exact ⟨hleft, fun a ha => h a (hgiven a ha)⟩

theorem Ensures.bind (hx : Ensures x P) (hf : ∀ a, P a → Ensures (f a) Q) :
    Ensures (x >>= f) Q := by
  intro cache hc
  obtain ⟨hleft, hgiven⟩ := hx cache hc
  cases hr : (x cache).result with
  | error e =>
    rw [bind_of_error hr]
    refine ⟨hleft, fun b hb => ?_⟩
    cases hb
  | ok a =>
    have hnext := hf a (hgiven a hr) (x cache).cache hleft
    rw [bind_of_ok hr]
    exact hnext

end Lookup

end Endpoints
