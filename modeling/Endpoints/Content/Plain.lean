import Endpoints.Content

/-!
# Plain content

What models are shown as: truth values, texts, lists and records, without nulls, numbers and tags.
-/

namespace Endpoints.Content

inductive IsPlain : Content → Prop where
  | bool (b : Bool) : IsPlain (.bool b)
  | text (s : String) : IsPlain (.text s)
  | list {items : List Content} (h : ∀ item ∈ items, IsPlain item) : IsPlain (.list items)
  | record {entries : List (String × Content)} (h : ∀ entry ∈ entries, IsPlain entry.2) :
      IsPlain (.record entries)

attribute [simp] IsPlain.bool IsPlain.text

def ArePlain (entries : List (String × Content)) : Prop := ∀ entry ∈ entries, entry.2.IsPlain

@[simp] theorem arePlain_nil : ArePlain [] := List.forall_mem_nil _

@[simp] theorem arePlain_cons_iff {entry : String × Content} {rest : List (String × Content)} :
    ArePlain (entry :: rest) ↔ entry.2.IsPlain ∧ ArePlain rest :=
  List.forall_mem_cons

@[simp] theorem arePlain_append_iff {first rest : List (String × Content)} :
    ArePlain (first ++ rest) ↔ ArePlain first ∧ ArePlain rest :=
  List.forall_mem_append

theorem isPlain_record {entries : List (String × Content)} (h : ArePlain entries) :
    (record entries).IsPlain := .record h

theorem isPlain_record_map {α : Type} {f : α → String × Content} (h : ∀ a, (f a).2.IsPlain)
    (as : List α) : (record (as.map f)).IsPlain :=
  .record (List.forall_mem_map.2 fun a _ => h a)

theorem isPlain_list_map {α : Type} {f : α → Content} (h : ∀ a, (f a).IsPlain) (as : List α) :
    IsPlain (.list (as.map f)) :=
  .list (List.forall_mem_map.2 fun a _ => h a)

@[simp] theorem isPlain_texts (items : List String) : (texts items).IsPlain :=
  isPlain_list_map .text items

end Endpoints.Content
