import Endpoints.Overlay
import Mathlib.Data.List.Forall2
import Mathlib.Data.List.Nodup

/-!
# Sequences of layers

What is left of a sequence of items laid over each other is described without the overlay: the
keys in the order of their first occurrence, each with the last item that has it. An overlay is
determined by its keys in order and by the item of each key, so both are followed separately.
-/

namespace Endpoints

universe u v

section EraseDups

variable {κ : Type u} [BEq κ] [LawfulBEq κ]

theorem eraseDups_of_nodup {ks : List κ} (h : ks.Nodup) : ks.eraseDups = ks := by
  induction ks with
  | nil => rfl
  | cons k rest ih =>
    obtain ⟨hk, hrest⟩ := List.nodup_cons.1 h
    have hf : rest.filter (fun b => !b == k) = rest := by
      apply List.filter_eq_self.2
      intro b hb
      have hne : b ≠ k := fun e => hk (e ▸ hb)
      simpa using hne
    rw [List.eraseDups_cons, hf, ih hrest]

omit [BEq κ] [LawfulBEq κ] in
private theorem length_filter_lt_cons (p : κ → Bool) (k : κ) (rest : List κ) :
    (rest.filter p).length < (k :: rest).length := by
  have hle := List.length_filter_le p rest
  simp only [List.length_cons]
  omega

theorem nodup_eraseDups (ks : List κ) : ks.eraseDups.Nodup := by
  cases ks with
  | nil => exact List.nodup_nil
  | cons k rest =>
    rw [List.eraseDups_cons]
    exact List.nodup_cons.2 ⟨by simp, nodup_eraseDups _⟩
termination_by ks.length
decreasing_by exact length_filter_lt_cons _ k rest

theorem filter_eraseDups (p : κ → Bool) (ks : List κ) :
    (ks.filter p).eraseDups = ks.eraseDups.filter p := by
  cases ks with
  | nil => rfl
  | cons k rest =>
    have ih := filter_eraseDups p (rest.filter fun b => !b == k)
    rw [List.eraseDups_cons, List.filter_cons, List.filter_cons, ← ih]
    have hcomm : (rest.filter fun b => !b == k).filter p =
        (rest.filter p).filter fun b => !b == k := by
      simp [List.filter_filter, Bool.and_comm]
    cases hk : p k with
    | true => simp [List.eraseDups_cons, hcomm]
    | false =>
      have hsame : (rest.filter fun b => !b == k).filter p = rest.filter p := by
        rw [hcomm]
        apply List.filter_eq_self.2
        intro b hb
        have hne : b ≠ k := fun e => by simp [e, hk] at hb
        simpa using hne
      simp [hsame]
termination_by ks.length
decreasing_by exact length_filter_lt_cons _ k rest

theorem eraseDups_append_left (as bs : List κ) :
    (as.eraseDups ++ bs).eraseDups = (as ++ bs).eraseDups := by
  rw [List.eraseDups_append, List.eraseDups_append, eraseDups_of_nodup (nodup_eraseDups as)]
  congr 2
  apply List.filter_congr
  intro b _
  simp

theorem eraseDups_append_right (as bs : List κ) :
    (as ++ bs.eraseDups).eraseDups = (as ++ bs).eraseDups := by
  rw [List.eraseDups_append, List.eraseDups_append]
  simp only [List.removeAll]
  rw [filter_eraseDups, filter_eraseDups, eraseDups_of_nodup (nodup_eraseDups bs)]

end EraseDups

section LastOf

variable {α : Type u} {κ : Type v} [DecidableEq κ] (key : α → κ)

def lastOf? (k : κ) (xs : List α) : Option α :=
  (xs.filter fun x => key x = k).getLast?

/-- What is left of a sequence of layers: the keys in the order in which they first occur, each
with the last item that has it. -/
def layered (xs : List α) : List α :=
  (xs.map key).eraseDups.filterMap fun k => lastOf? key k xs

@[simp] theorem lastOf?_nil (k : κ) : lastOf? key k [] = none := rfl

theorem lastOf?_append (k : κ) (xs ys : List α) :
    lastOf? key k (xs ++ ys) = (lastOf? key k ys).or (lastOf? key k xs) := by
  simp [lastOf?, List.getLast?_append]

theorem lastOf?_cons (k : κ) (x : α) (xs : List α) :
    lastOf? key k (x :: xs) = (lastOf? key k xs).or (if key x = k then some x else none) := by
  rw [← List.singleton_append, lastOf?_append]
  by_cases h : key x = k <;> simp [lastOf?, h]

theorem lastOf?_some_spec {k : κ} {xs : List α} {x : α} (h : lastOf? key k xs = some x) :
    x ∈ xs ∧ key x = k := by
  have hx := List.mem_of_getLast? h
  simpa using hx

theorem lastOf?_map {β : Type u} (f : β → α) (k : κ) (ys : List β) :
    lastOf? key k (ys.map f) = (lastOf? (fun y => key (f y)) k ys).map f := by
  simp [lastOf?, List.filter_map, Function.comp_def]

theorem lastOf?_none_iff (k : κ) (xs : List α) :
    lastOf? key k xs = none ↔ k ∉ xs.map key := by
  simp [lastOf?]

theorem lastOf?_eq_find?_of_nodup {xs : List α} (h : (xs.map key).Nodup) (k : κ) :
    lastOf? key k xs = xs.find? fun x => key x = k := by
  induction xs with
  | nil => rfl
  | cons x rest ih =>
    obtain ⟨hx, hrest⟩ := List.nodup_cons.1 h
    by_cases hk : key x = k
    · have hnone := (lastOf?_none_iff key k rest).2 (hk ▸ hx)
      simp [lastOf?_cons, hk, hnone]
    · simp [lastOf?_cons, hk, ih hrest]

theorem filterMap_find?_of_nodup {xs : List α} (h : (xs.map key).Nodup) :
    ((xs.map key).filterMap fun k => xs.find? fun x => key x = k) = xs := by
  induction xs with
  | nil => rfl
  | cons x rest ih =>
    obtain ⟨hx, hrest⟩ := List.nodup_cons.1 h
    have hsame : ∀ k ∈ rest.map key,
        ((x :: rest).find? fun y => key y = k) = rest.find? fun y => key y = k := by
      intro k hk
      have hne : key x ≠ k := fun e => hx (e ▸ hk)
      simp [hne]
    rw [List.map_cons, List.filterMap_cons_some (b := x) (by simp),
      List.filterMap_congr hsame, ih hrest]

end LastOf

namespace Overlay

variable {α : Type u} {κ : Type v} [DecidableEq κ] {key : α → κ}

theorem overlayPut_of_forall_ne {x : α} {items : List α} (h : ∀ y ∈ items, key y ≠ key x) :
    overlayPut key x items = items ++ [x] := by
  induction items with
  | nil => rfl
  | cons y rest ih =>
    obtain ⟨hy, hrest⟩ := List.forall_mem_cons.1 h
    rw [overlayPut, if_neg hy, ih hrest, List.cons_append]

/-- An overlay is determined by its keys in order and by the item of each key. -/
theorem ext_keys {a b : Overlay key} (hk : a.toList.map key = b.toList.map key)
    (hf : ∀ k, a.find? k = b.find? k) : a = b := by
  apply ext_toList
  rw [← filterMap_find?_of_nodup key a.nodup, ← filterMap_find?_of_nodup key b.nodup, hk]
  exact List.filterMap_congr fun k _ => hf k

theorem find?_eq_lastOf? (o : Overlay key) (k : κ) : o.find? k = lastOf? key k o.toList :=
  (lastOf?_eq_find?_of_nodup key o.nodup k).symm

theorem find?_of_mem {o : Overlay key} {x : α} (h : x ∈ o.toList) : o.find? (key x) = some x := by
  cases hf : o.find? (key x) with
  | none =>
    have hn := List.find?_eq_none.1 hf x h
    simp at hn
  | some y =>
    have hy := List.mem_of_find?_eq_some hf
    have hk : key y = key x := by simpa using List.find?_some hf
    rw [List.inj_on_of_nodup_map o.nodup hy h hk]

theorem keys_put (o : Overlay key) (x : α) :
    (o.put x).toList.map key = (o.toList.map key ++ [key x]).eraseDups := by
  rw [toList_put, map_overlayPut, List.eraseDups_append, eraseDups_of_nodup o.nodup]
  by_cases h : key x ∈ o.toList.map key
  · have hnone : [key x].removeAll (o.toList.map key) = [] := by
      rw [List.removeAll, List.filter_cons_of_neg (by simpa using h), List.filter_nil]
    rw [if_pos h, hnone, List.eraseDups_nil, List.append_nil]
  · have hsome : [key x].removeAll (o.toList.map key) = [key x] := by
      rw [List.removeAll, List.filter_cons_of_pos (by simpa using h), List.filter_nil]
    rw [if_neg h, hsome]
    rfl

theorem keys_putAll (o : Overlay key) (xs : List α) :
    (o.putAll xs).toList.map key = (o.toList.map key ++ xs.map key).eraseDups := by
  induction xs generalizing o with
  | nil => simp [eraseDups_of_nodup o.nodup]
  | cons x rest ih =>
    rw [putAll_cons, ih, keys_put, eraseDups_append_left, List.append_assoc]
    rfl

theorem find?_putAll (o : Overlay key) (xs : List α) (k : κ) :
    (o.putAll xs).find? k = (lastOf? key k xs).or (o.find? k) := by
  induction xs generalizing o with
  | nil => simp
  | cons x rest ih =>
    rw [putAll_cons, ih, find?_put, lastOf?_cons, Option.or_assoc]
    by_cases h : key x = k <;> simp [h]

/-- Laying items over an overlay leaves what is left of its items followed by them. -/
theorem toList_putAll (o : Overlay key) (xs : List α) :
    (o.putAll xs).toList = layered key (o.toList ++ xs) := by
  rw [← filterMap_find?_of_nodup key (o.putAll xs).nodup, keys_putAll, layered, List.map_append]
  apply List.filterMap_congr
  intro k _
  rw [lastOf?_append, ← find?_eq_lastOf?]
  exact find?_putAll o xs k

theorem find?_ofList (xs : List α) (k : κ) :
    (ofList xs : Overlay key).find? k = lastOf? key k xs := by
  rw [ofList, find?_putAll]
  exact Option.or_none

theorem mem_of_mem_putAll {o : Overlay key} {xs : List α} {x : α}
    (h : x ∈ (o.putAll xs).toList) : x ∈ o.toList ∨ x ∈ xs := by
  have hf := find?_of_mem h
  rw [find?_putAll, Option.or_eq_some_iff] at hf
  rcases hf with hnew | ⟨_, hold⟩
  · exact .inr (lastOf?_some_spec key hnew).1
  · exact .inl (List.mem_of_find?_eq_some hold)

theorem mem_of_mem_ofList {xs : List α} {x : α} (h : x ∈ (ofList xs : Overlay key).toList) :
    x ∈ xs :=
  (mem_of_mem_putAll h).resolve_left List.not_mem_nil

theorem ofList_toList (o : Overlay key) : ofList o.toList = o := by
  apply ext_keys
  · have hkeys := keys_putAll (empty : Overlay key) o.toList
    exact hkeys.trans (eraseDups_of_nodup o.nodup)
  · intro k
    rw [find?_ofList, find?_eq_lastOf?]

theorem putAll_toList_ofList (o : Overlay key) (xs : List α) :
    o.putAll (ofList xs : Overlay key).toList = o.putAll xs := by
  apply ext_keys
  · have hkeys : (ofList xs : Overlay key).toList.map key = (xs.map key).eraseDups :=
      keys_putAll empty xs
    rw [keys_putAll, keys_putAll, hkeys, eraseDups_append_right]
  · intro k
    rw [find?_putAll, find?_putAll, ← find?_eq_lastOf?, find?_ofList]

/-- What is laid over an overlay before the overlay is laid over another may as well be laid over
the other one after it. -/
theorem putAll_toList_putAll (o p : Overlay key) (xs : List α) :
    o.putAll (p.putAll xs).toList = (o.putAll p.toList).putAll xs := by
  have hall : p.putAll xs = ofList (p.toList ++ xs) := by
    rw [ofList, putAll_append]
    exact congrArg (fun q => putAll q xs) p.ofList_toList.symm
  rw [hall, putAll_toList_ofList, putAll_append]

/-- The keys that are new come after the others, in the order of their first occurrence. -/
theorem keys_putAll_eq_append (o : Overlay key) (xs : List α) :
    (o.putAll xs).toList.map key =
      o.toList.map key ++ (xs.map key).eraseDups.filter fun k => k ∉ o.toList.map key := by
  rw [keys_putAll, List.eraseDups_append, eraseDups_of_nodup o.nodup, List.removeAll,
    filter_eraseDups]
  simp only [List.elem_eq_mem, decide_not]

/-- Laying an item over others leaves the items of the other keys, in their order. -/
theorem filter_put {P : κ → Bool} (o : Overlay key) {x : α} (hx : P (key x) = false) :
    ((o.put x).toList.filter fun y => P (key y)) = o.toList.filter fun y => P (key y) := by
  rw [toList_put]
  induction o.toList with
  | nil => simp [overlayPut, hx]
  | cons y rest ih =>
    rw [overlayPut]
    split
    · rename_i hy
      have hpy : P (key y) = false := hy ▸ hx
      simp [hx, hpy]
    · rw [List.filter_cons, List.filter_cons, ih]

theorem filter_putAll {P : κ → Bool} (o : Overlay key) {xs : List α}
    (hxs : ∀ x ∈ xs, P (key x) = false) :
    ((o.putAll xs).toList.filter fun y => P (key y)) = o.toList.filter fun y => P (key y) := by
  induction xs generalizing o with
  | nil => rfl
  | cons x rest ih =>
    rw [List.forall_mem_cons] at hxs
    rw [putAll_cons, ih _ hxs.2, filter_put o hxs.1]

section Related

variable {α : Type u} {κ : Type v} [DecidableEq κ] {key : α → κ} {R : α → α → Prop}

/-- Items of one key each take the same place. -/
theorem forall₂_overlayPut (hR : ∀ a b, R a b → key a = key b) {x y : α} (hxy : R x y)
    {xs ys : List α} (h : List.Forall₂ R xs ys) :
    List.Forall₂ R (overlayPut key x xs) (overlayPut key y ys) := by
  induction h with
  | nil => exact .cons hxy .nil
  | @cons a b as bs hab hrest ih =>
    rw [overlayPut, overlayPut, hR a b hab, hR x y hxy]
    split
    · exact .cons hxy hrest
    · exact .cons hab ih

theorem forall₂_putAll (hR : ∀ a b, R a b → key a = key b) {o o' : Overlay key} {xs ys : List α}
    (ho : List.Forall₂ R o.toList o'.toList) (h : List.Forall₂ R xs ys) :
    List.Forall₂ R (o.putAll xs).toList (o'.putAll ys).toList := by
  induction h generalizing o o' with
  | nil => exact ho
  | cons hab _ ih =>
    rw [putAll_cons, putAll_cons]
    exact ih (forall₂_overlayPut hR hab ho)

end Related

end Overlay

theorem OrderedSet.toList_putAll {α : Type u} [DecidableEq α] (s : OrderedSet α) (xs : List α) :
    (s.putAll xs).toList = (s.toList ++ xs).eraseDups := by
  simpa using Overlay.keys_putAll s xs

namespace Table

variable {κ : Type u} {α : Type v} [DecidableEq κ]

@[simp] theorem get?_empty (k : κ) : get? (Overlay.empty : Table κ α) k = none := rfl

theorem get?_set (t : Table κ α) (k : κ) (v : α) (k' : κ) :
    (t.set k v).get? k' = if k = k' then some v else t.get? k' := by
  simp only [get?, set, Overlay.find?_put]
  split <;> rfl

theorem get?_of_mem {t : Table κ α} {k : κ} {v : α} (h : (k, v) ∈ t.toList) :
    t.get? k = some v := by
  rw [get?, Overlay.find?_of_mem h]
  rfl

theorem mem_of_get? {t : Table κ α} {k : κ} {v : α} (h : t.get? k = some v) :
    (k, v) ∈ t.toList := by
  obtain ⟨e, he, rfl⟩ := Option.map_eq_some_iff.1 h
  have hk : e.1 = k := by simpa using List.find?_some he
  exact hk ▸ List.mem_of_find?_eq_some he

theorem toList_eq_map_keys (t : Table κ α) (missing : α) :
    t.toList = t.keys.map fun k => (k, (t.get? k).getD missing) := by
  rw [keys, List.map_map]
  conv_lhs => rw [← List.map_id t.toList]
  apply List.map_congr_left
  intro e he
  rw [Function.comp_apply, get?_of_mem he]
  rfl

/-- A key that has no value yet goes to the end with its value. -/
theorem toList_set_of_unknown {t : Table κ α} {k : κ} (h : t.get? k = none) (v : α) :
    (t.set k v).toList = t.toList ++ [(k, v)] := by
  apply Overlay.overlayPut_of_forall_ne
  rintro ⟨key, value⟩ he rfl
  rw [get?_of_mem he] at h
  cases h

theorem keys_set (t : Table κ α) (k : κ) (v : α) :
    (t.set k v).keys = (t.keys ++ [k]).eraseDups :=
  Overlay.keys_put t (k, v)

end Table

end Endpoints
