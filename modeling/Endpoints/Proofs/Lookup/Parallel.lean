import Endpoints.Proofs.Lookup.Settling

/-!
# Lookups that run in parallel

Two lookups run in parallel when, from any one cache, they leave the same cache and the same log,
and either fail with the same error or give values that are related. Parts that run in parallel can
be put together, so that a change which only values carry along is followed through a whole run.
-/

namespace Endpoints

inductive Alike {α β : Type} (R : α → β → Prop) : Except Error α → Except Error β → Prop where
  | error (e : Error) : Alike R (.error e) (.error e)
  | ok {a b} (h : R a b) : Alike R (.ok a) (.ok b)

section Alike

variable {α β γ δ : Type} {R : α → β → Prop} {S : γ → δ → Prop} {x : Except Error α}
  {y : Except Error β}

theorem Alike.map {f : α → γ} {g : β → δ} (h : Alike R x y)
    (hfg : ∀ a b, R a b → S (f a) (g b)) : Alike S (x.map f) (y.map g) := by
  cases h with
  | error e => exact .error e
  | ok hab => exact .ok (hfg _ _ hab)

theorem Alike.error_iff (h : Alike R x y) (e : Error) : x = .error e ↔ y = .error e := by
  cases h <;> simp

theorem Alike.exists_ok (h : Alike R x y) {a : α} (hx : x = .ok a) : ∃ b, y = .ok b ∧ R a b := by
  cases h with
  | error e => cases hx
  | ok hab =>
    cases hx
    exact ⟨_, rfl, hab⟩

end Alike

namespace Lookup

def Parallel {α β : Type} (R : α → β → Prop) (x : Lookup α) (y : Lookup β) : Prop :=
  ∀ cache, Alike R (x cache).result (y cache).result ∧ (x cache).cache = (y cache).cache ∧
    (x cache).log = (y cache).log

variable {α β γ δ : Type} {R : α → β → Prop} {S : γ → δ → Prop} {x : Lookup α} {y : Lookup β}

theorem parallel_self (x : Lookup α) : Parallel Eq x x := by
  intro cache
  refine ⟨?_, rfl, rfl⟩
  cases (x cache).result with
  | error e => exact .error e
  | ok a => exact .ok rfl

theorem parallel_pure {a : α} {b : β} (h : R a b) : Parallel R (pure a) (pure b) :=
  fun _ => ⟨.ok h, rfl, rfl⟩

theorem parallel_error (R : α → β → Prop) (e : Error) :
    Parallel R (ofExcept (.error e)) (ofExcept (.error e)) :=
  fun _ => ⟨.error e, rfl, rfl⟩

theorem Parallel.bind {f : α → Lookup γ} {g : β → Lookup δ} (hxy : Parallel R x y)
    (hfg : ∀ a b, R a b → Parallel S (f a) (g b)) : Parallel S (x >>= f) (y >>= g) := by
  intro cache
  obtain ⟨hresult, hcache, hlog⟩ := hxy cache
  cases hx : (x cache).result with
  | error e =>
    have hy := (hresult.error_iff e).1 hx
    rw [bind_of_error hx, bind_of_error hy]
    exact ⟨.error e, hcache, hlog⟩
  | ok a =>
    obtain ⟨b, hy, hab⟩ := hresult.exists_ok hx
    obtain ⟨hnext, hafter, hadded⟩ := hfg a b hab (x cache).cache
    rw [bind_of_ok hx, bind_of_ok hy, ← hcache, ← hlog]
    exact ⟨hnext, hafter, congrArg _ hadded⟩

theorem Parallel.map {f : α → γ} {g : β → δ} (hxy : Parallel R x y)
    (hfg : ∀ a b, R a b → S (f a) (g b)) :
    Parallel S (x >>= fun a => pure (f a)) (y >>= fun b => pure (g b)) :=
  hxy.bind fun _ _ hab => parallel_pure (hfg _ _ hab)

theorem parallel_bind_self {f : α → Lookup γ} {g : α → Lookup δ} (x : Lookup α)
    (hfg : ∀ a, Parallel S (f a) (g a)) : Parallel S (x >>= f) (x >>= g) := by
  refine (parallel_self x).bind fun a b hab => ?_
  cases hab
  exact hfg a

end Lookup

end Endpoints
