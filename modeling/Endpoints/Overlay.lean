/-!
# Overlays

An overlay is a finite sequence of items in which every key occurs once. An item whose key is
new goes to the end; an item whose key is present takes the place of the earlier one. So the
order is that of the first occurrence of each key and the items are those of the last.
-/

namespace Endpoints

universe u v

/-- Put an item over a sequence: in the place of the first item of the same key, else at the
end. -/
def overlayPut {α : Type u} {κ : Type v} [DecidableEq κ] (key : α → κ) (x : α) :
    List α → List α
  | [] => [x]
  | y :: rest => if key y = key x then x :: rest else y :: overlayPut key x rest

section Put

variable {α : Type u} {κ : Type v} [DecidableEq κ] (key : α → κ)

theorem map_overlayPut (x : α) (items : List α) :
    (overlayPut key x items).map key =
      if key x ∈ items.map key then items.map key else items.map key ++ [key x] := by
  induction items with
  | nil => simp [overlayPut]
  | cons y rest ih =>
    by_cases h : key y = key x
    · simp [overlayPut, h]
    · have h' : ¬ key x = key y := fun e => h e.symm
      simp only [overlayPut, h, if_false, List.map_cons, ih, List.mem_cons, h', false_or]
      split <;> simp

theorem nodup_overlayPut (x : α) (items : List α) (h : (items.map key).Nodup) :
    ((overlayPut key x items).map key).Nodup := by
  rw [map_overlayPut]
  split
  · exact h
  · rename_i hx
    refine List.nodup_append.2 ⟨h, by simp, ?_⟩
    intro a ha b hb
    obtain rfl := List.mem_singleton.1 hb
    exact fun e => hx (e ▸ ha)

theorem find?_overlayPut (x : α) (items : List α) (k : κ) :
    (overlayPut key x items).find? (fun y => key y = k) =
      if key x = k then some x else items.find? fun y => key y = k := by
  induction items with
  | nil => by_cases h : key x = k <;> simp [overlayPut, h]
  | cons y rest ih =>
    by_cases hy : key y = key x
    · by_cases h : key x = k <;> simp [overlayPut, hy, h]
    · simp only [overlayPut, hy, if_false, List.find?_cons, ih]
      by_cases h : key x = k
      · have hk : ¬ key y = k := fun e => hy (e.trans h.symm)
        simp [hk]
      · by_cases hk : key y = k <;> simp [hk, h]

end Put

/-- A finite sequence of items with pairwise distinct keys. -/
structure Overlay {α : Type u} {κ : Type v} (key : α → κ) where
  /-- The items, in the order in which their keys first came in. -/
  toList : List α
  nodup : (toList.map key).Nodup

namespace Overlay

variable {α : Type u} {κ : Type v} {key : α → κ}

def empty : Overlay key := ⟨[], by simp⟩

instance : Inhabited (Overlay key) := ⟨empty⟩

instance : EmptyCollection (Overlay key) := ⟨empty⟩

theorem ext_toList {a b : Overlay key} (h : a.toList = b.toList) : a = b := by
  cases a; cases b; simp_all

instance [DecidableEq α] : DecidableEq (Overlay key) := fun a b =>
  if h : a.toList = b.toList then isTrue (ext_toList h)
  else isFalse fun e => h (e ▸ rfl)

@[simp] theorem toList_empty : (empty : Overlay key).toList = [] := rfl

variable [DecidableEq κ]

def put (o : Overlay key) (x : α) : Overlay key :=
  ⟨overlayPut key x o.toList, nodup_overlayPut key x o.toList o.nodup⟩

def putAll (o : Overlay key) (xs : List α) : Overlay key :=
  xs.foldl put o

def ofList (xs : List α) : Overlay key :=
  putAll empty xs

def find? (o : Overlay key) (k : κ) : Option α :=
  o.toList.find? fun x => key x = k

def remove (o : Overlay key) (k : κ) : Overlay key :=
  ⟨o.toList.filter fun x => key x ≠ k,
    List.Nodup.sublist (List.Sublist.map key List.filter_sublist) o.nodup⟩

@[simp] theorem toList_put (o : Overlay key) (x : α) :
    (o.put x).toList = overlayPut key x o.toList := rfl

theorem find?_put (o : Overlay key) (x : α) (k : κ) :
    (o.put x).find? k = if key x = k then some x else o.find? k :=
  find?_overlayPut key x o.toList k

@[simp] theorem putAll_nil (o : Overlay key) : o.putAll [] = o := rfl

@[simp] theorem putAll_cons (o : Overlay key) (x : α) (xs : List α) :
    o.putAll (x :: xs) = (o.put x).putAll xs := rfl

theorem putAll_append (o : Overlay key) (xs ys : List α) :
    o.putAll (xs ++ ys) = (o.putAll xs).putAll ys := by
  simp [putAll]

end Overlay

abbrev Table (κ : Type u) (α : Type v) := Overlay (Prod.fst : κ × α → κ)

namespace Table

variable {κ : Type u} {α : Type v} [DecidableEq κ]

def get? (t : Table κ α) (k : κ) : Option α :=
  (t.find? k).map Prod.snd

/-- Set the value of a key; a new key goes to the end. -/
def set (t : Table κ α) (k : κ) (v : α) : Table κ α :=
  t.put (k, v)

def keys (t : Table κ α) : List κ :=
  t.toList.map Prod.fst

def values (t : Table κ α) : List α :=
  t.toList.map Prod.snd

end Table

/-- A set that remembers the order in which its members first came in. -/
abbrev OrderedSet (α : Type u) := Overlay (id : α → α)

end Endpoints
