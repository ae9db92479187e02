import Endpoints.Operation.Document
import Mathlib.Data.List.Nodup

/-!
# Records of fields that may be unset

A record shows the fields that are set, each under a name of its own. Reading it finds each of
them, and finds nothing for a field that is not set, so such a field gets its default back.
-/

namespace Endpoints

/-- The entries that a record shows for fields with values that may be unset. -/
def shown (slots : List (String × Option Content)) : List (String × Content) :=
  slots.filterMap fun (name, value) => value.map (name, ·)

def setContent? (values : OrderedSet String) : Option Content :=
  if values.toList.isEmpty then none else some (.texts values.toList)

section Shown

variable (name : String) (rest : List (String × Option Content))

@[simp] theorem shown_nil : shown [] = [] := rfl

@[simp] theorem shown_cons_some (c : Content) :
    shown ((name, some c) :: rest) = (name, c) :: shown rest := rfl

@[simp] theorem shown_cons_text (value : Option String) :
    shown ((name, value.map Content.text) :: rest) = entryIfSet name value ++ shown rest := by
  cases value <;> rfl

@[simp] theorem shown_cons_set (values : OrderedSet String) :
    shown ((name, setContent? values) :: rest) = entryIfAny name values ++ shown rest := by
  unfold entryIfAny setContent?
  split <;> rfl

end Shown

theorem Content.fieldsOfEntries?_of_nodup {names : List String}
    {entries : List (String × Content)} (hnames : ∀ e ∈ entries, e.1 ∈ names)
    (h : (entries.map Prod.fst).Nodup) :
    fieldsOfEntries? names (entries.map fun (key, value) => (.text key, value)) =
      some entries := by
  induction entries with
  | nil => rfl
  | cons entry rest ih =>
    obtain ⟨hname, hrest⟩ := List.forall_mem_cons.1 hnames
    obtain ⟨hnew, hnodup⟩ := List.nodup_cons.1 h
    have hfirst : rest.any (fun e => decide (e.1 = entry.1)) = false := by
      rw [List.any_eq_false]
      intro e he heq
      exact hnew (List.mem_map.2 ⟨e, he, by simpa using heq⟩)
    simp only [List.map_cons, fieldsOfEntries?, nameAmong?, if_pos hname, ih hrest hnodup, hfirst]
    rfl

section Slots

variable {slots : List (String × Option Content)}

theorem sublist_map_fst_shown (slots : List (String × Option Content)) :
    ((shown slots).map Prod.fst).Sublist (slots.map Prod.fst) := by
  induction slots with
  | nil => exact .slnil
  | cons slot rest ih =>
    obtain ⟨name, value⟩ := slot
    cases value with
    | none => exact ih.cons name
    | some c => exact ih.cons_cons name

theorem lookup_shown (h : (slots.map Prod.fst).Nodup) (name : String) :
    (shown slots).lookup name = (slots.lookup name).join := by
  induction slots with
  | nil => rfl
  | cons slot rest ih =>
    obtain ⟨other, value⟩ := slot
    obtain ⟨hnew, hnodup⟩ := List.nodup_cons.1 h
    by_cases hname : name = other
    · subst hname
      cases value with
      | some c => simp [shown]
      | none =>
        have hout : (shown rest).lookup name = none := by
          rw [List.lookup_eq_none_iff]
          intro e he
          have hmem := (sublist_map_fst_shown rest).subset (List.mem_map_of_mem he)
          simpa using fun heq : name = e.1 => hnew (heq ▸ hmem)
        simpa [shown] using hout
    · have hne : (name == other) = false := by simpa using hname
      have hrest := ih hnodup
      cases value <;> simpa [shown, List.lookup_cons, hne] using hrest

theorem fields?_record_shown {names : List String} (hnames : slots.map Prod.fst = names)
    (h : names.Nodup) : (Content.record (shown slots)).fields? names = some (shown slots) := by
  have hsub := hnames ▸ sublist_map_fst_shown slots
  apply Content.fieldsOfEntries?_of_nodup
  · exact fun e he => hsub.subset (List.mem_map_of_mem he)
  · exact hsub.nodup h

variable {α : Type} (h : (slots.map Prod.fst).Nodup) (name : String)

include h

theorem field_shown {c : Content} (hslot : slots.lookup name = some (some c))
    (read : Content → Option α) : field (shown slots) name read = read c := by
  rw [field, lookup_shown h, hslot]
  rfl

theorem fieldOr_shown {c : Content} (hslot : slots.lookup name = some (some c)) (missing : α)
    (read : Content → Option α) : fieldOr (shown slots) name missing read = read c := by
  rw [fieldOr, lookup_shown h, hslot]
  rfl

theorem fieldOr_shown_text (value : Option String)
    (hslot : slots.lookup name = some (value.map Content.text)) :
    fieldOr (shown slots) name none Content.optionalText? = some value := by
  rw [fieldOr, lookup_shown h, hslot]
  cases value <;> rfl

end Slots

theorem bind_eq_some {α β : Type} {x : Option α} {f : α → Option β} {a : α} {b : β}
    (hx : x = some a) (hf : f a = some b) : (x >>= f) = some b :=
  Option.bind_eq_some_iff.2 ⟨a, hx, hf⟩

theorem mapM_map_eq_some_map {α β γ : Type} {f : β → Option γ} {g : α → β} {k : α → γ}
    {as : List α} (h : ∀ a ∈ as, f (g a) = some (k a)) : (as.map g).mapM f = some (as.map k) := by
  induction as with
  | nil => rfl
  | cons a rest ih =>
    obtain ⟨ha, hrest⟩ := List.forall_mem_cons.1 h
    simp [List.mapM_cons, ha, ih hrest]

theorem mapM_map_eq_some {α β : Type} {f : β → Option α} {g : α → β} (as : List α)
    (h : ∀ a ∈ as, f (g a) = some a) : (as.map g).mapM f = some as := by
  rw [mapM_map_eq_some_map (k := id) h, List.map_id]

theorem forall_of_mapM {α β : Type} {f : α → Option β} {P : β → Prop}
    (h : ∀ a b, f a = some b → P b) {as : List α} {bs : List β} (hm : as.mapM f = some bs) :
    ∀ b ∈ bs, P b := by
  induction as generalizing bs with
  | nil =>
    cases hm
    simp
  | cons a rest ih =>
    rw [List.mapM_cons] at hm
    obtain ⟨b, hb, hm⟩ := Option.bind_eq_some_iff.1 hm
    obtain ⟨others, hothers, hm⟩ := Option.bind_eq_some_iff.1 hm
    cases hm
    exact List.forall_mem_cons.2 ⟨h a b hb, ih hothers⟩

theorem Content.texts?_texts (items : List String) : (Content.texts items).texts? = some items :=
  mapM_map_eq_some items fun _ _ => rfl

end Endpoints
