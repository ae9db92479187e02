import Endpoints.Yaml.Located

/-!
# Readings and the references that they follow

A reading may follow a limited number of references. A steady reading does not look at the limit:
whenever it gives a value, it follows a fixed number of references on the way and gives the same
value under every limit that is at least as large. So steady readings can be taken apart and put
together in another order, as long as the number of references in all stays the same.
-/

namespace Endpoints.Yaml

variable {α β γ : Type}

namespace Budgeted

theorem pure_apply (a : α) (budget : Nat) : (pure a : Budgeted α) budget = some (a, budget) := rfl

theorem liftM_apply (o : Option α) (budget : Nat) :
    (liftM o : Budgeted α) budget = o.map fun a => (a, budget) := by
  cases o <;> rfl

theorem bind_apply (x : Budgeted α) (f : α → Budgeted β) (budget : Nat) :
    (x >>= f) budget = (x budget).bind fun r => f r.1 r.2 := rfl

end Budgeted

/-- A reading gives a value and follows a number of references on the way, however many may be
followed after it. -/
def Reads (x : Budgeted α) (a : α) (cost : Nat) : Prop :=
  ∀ left, x (left + cost) = some (a, left)

/-- What a reading gives and how many references it follows do not depend on the limit. -/
def Steady (x : Budgeted α) : Prop :=
  ∀ before a after, x before = some (a, after) → ∃ cost, before = after + cost ∧ Reads x a cost

section Reads

variable {x : Budgeted α} {f : α → Budgeted β} {a : α} {b : β} {c d : Nat}

theorem reads_pure (a : α) : Reads (pure a) a 0 := fun _ => rfl

theorem Reads.bind (hx : Reads x a c) (hf : Reads (f a) b d) : Reads (x >>= f) b (c + d) := by
  intro left
  have hlimit : left + (c + d) = left + d + c := by omega
  rw [hlimit, Budgeted.bind_apply, hx, Option.bind_some, hf]

theorem Reads.map (hx : Reads x a c) (g : α → β) : Reads (x >>= fun a => pure (g a)) (g a) c :=
  hx.bind (d := 0) (reads_pure (g a))

theorem Reads.bind_liftM (hx : Reads x a c) {decode : α → Option β} (h : decode a = some b) :
    Reads (x >>= fun a => liftM (decode a)) b c := by
  refine hx.bind (d := 0) fun left => ?_
  rw [Budgeted.liftM_apply, h]
  rfl

theorem steady_pure (a : α) : Steady (pure a : Budgeted α) := by
  intro before _ after h
  cases h
  exact ⟨0, rfl, reads_pure a⟩

theorem steady_failure : Steady (failure : Budgeted α) := by
  intro before _ after h
  cases h

theorem Steady.bind (hx : Steady x) (hf : ∀ a, Steady (f a)) : Steady (x >>= f) := by
  intro before b after h
  obtain ⟨⟨a, between⟩, ha, hb⟩ := Option.bind_eq_some_iff.1 h
  obtain ⟨c, hc, hreads⟩ := hx before a between ha
  obtain ⟨d, hd, hnext⟩ := hf a between b after hb
  exact ⟨c + d, by omega, hreads.bind hnext⟩

theorem Reads.exists_of_bind (h : Reads (x >>= f) b c) (hx : Steady x)
    (hf : ∀ a, Steady (f a)) :
    ∃ a c₁ c₂, c = c₁ + c₂ ∧ Reads x a c₁ ∧ Reads (f a) b c₂ := by
  obtain ⟨⟨a, between⟩, ha, hb⟩ := Option.bind_eq_some_iff.1 (h 0)
  obtain ⟨c₁, hc₁, hreads⟩ := hx _ a between ha
  obtain ⟨c₂, hc₂, hnext⟩ := hf a between b 0 hb
  exact ⟨a, c₁, c₂, by omega, hreads, hnext⟩

theorem Reads.of_pure {a' : α} (h : Reads (pure a) a' c) : a' = a ∧ c = 0 := by
  obtain ⟨ha, hc⟩ := Prod.mk.inj (Option.some.inj (h 0))
  exact ⟨ha.symm, by omega⟩

end Reads

section Items

variable {ι : Type} {read : ι → Budgeted α}

theorem Steady.mapM (h : ∀ i, Steady (read i)) (xs : List ι) : Steady (xs.mapM read) := by
  induction xs with
  | nil => exact steady_pure []
  | cons i rest ih =>
    rw [List.mapM_cons]
    exact (h i).bind fun _ => ih.bind fun _ => steady_pure _

theorem Reads.exists_of_mapM_cons (h : ∀ i, Steady (read i)) {i : ι} {rest : List ι}
    {as : List α} {cost : Nat} (hread : Reads ((i :: rest).mapM read) as cost) :
    ∃ a others c₁ c₂, as = a :: others ∧ cost = c₁ + c₂ ∧ Reads (read i) a c₁ ∧
      Reads (rest.mapM read) others c₂ := by
  rw [List.mapM_cons] at hread
  obtain ⟨a, c₁, d, hcost, ha, hread⟩ :=
    hread.exists_of_bind (h i) fun _ => (Steady.mapM h rest).bind fun _ => steady_pure _
  obtain ⟨others, c₂, c₃, hd, hothers, hread⟩ :=
    hread.exists_of_bind (Steady.mapM h rest) fun _ => steady_pure _
  obtain ⟨has, hc₃⟩ := hread.of_pure
  exact ⟨a, others, c₁, c₂, has, by omega, ha, hothers⟩

theorem Reads.mapM_of {other : ι → Budgeted β} {shown : β → α} (h : ∀ i, Steady (read i))
    {xs : List ι} {bs : List β} {cost : Nat} (hread : Reads (xs.mapM read) (bs.map shown) cost)
    (hother : ∀ i, ∀ b ∈ bs, ∀ c, Reads (read i) (shown b) c → Reads (other i) b c) :
    Reads (xs.mapM other) bs cost := by
  induction xs generalizing bs cost with
  | nil =>
    obtain ⟨hbs, hcost⟩ := hread.of_pure
    obtain rfl := List.map_eq_nil_iff.1 hbs
    exact hcost ▸ reads_pure []
  | cons i rest ih =>
    obtain ⟨a, others, c₁, c₂, hbs, rfl, ha, hothers⟩ := Reads.exists_of_mapM_cons h hread
    obtain ⟨b, bs, rfl, rfl, rfl⟩ := List.map_eq_cons_iff.1 hbs
    obtain ⟨hb, hbs⟩ := List.forall_mem_cons.1 (fun b hb i => hother i b hb)
    rw [List.mapM_cons]
    have hrest := ih hothers fun i b hb => hbs b hb i
    exact (hb i c₁ ha).bind (hrest.map (b :: ·))

end Items

end Endpoints.Yaml
