import Endpoints.Proofs.Operation.Documents
import Endpoints.Proofs.Yaml.Readings
import Endpoints.Source.Fragment

/-!
# Fragments as plain data

A fragment is read in two steps: its entries are read as plain data, whatever they are, and then
each of them is decoded. What a document shows of a parameter is no reference to a schema, so it
is decoded as the parameter.
-/

namespace Endpoints

namespace Yaml

/-- Reading items and decoding each of them is reading all of them and decoding them all. -/
theorem mapM_bind_liftM {α β : Type} (read : Located → Budgeted α) (decode : α → Option β)
    (xs : List Located) :
    (xs.mapM fun x => read x >>= fun a => (liftM (decode a) : Budgeted β)) =
      (xs.mapM read >>= fun as => liftM (as.mapM decode)) := by
  induction xs with
  | nil => rfl
  | cons x rest ih =>
    funext budget
    simp only [List.mapM_cons, ih, Budgeted.bind_apply, Budgeted.liftM_apply, Budgeted.pure_apply]
    cases read x budget with
    | none => rfl
    | some first =>
      obtain ⟨a, left⟩ := first
      simp only [Option.bind_some]
      cases hd : decode a with
      | none => cases hrest : rest.mapM read left <;> simp [hd]
      | some b =>
        cases hrest : rest.mapM read left with
        | none => simp [hrest]
        | some others => cases hothers : others.1.mapM decode <;> simp [hd, hrest, hothers]

theorem Located.list_bind_liftM {α β : Type} (read : Located → Budgeted α)
    (decode : α → Option β) (x : Located) :
    (x.list fun x => read x >>= fun a => (liftM (decode a) : Budgeted β)) =
      (x.list read >>= fun as => liftM (as.mapM decode)) := by
  simp only [list, mapM_bind_liftM, bind_assoc]

end Yaml

theorem Content.fieldsOfEntries?_of_not_mem {names : List String}
    {entries : List (String × Content)} (h : ∀ e ∈ entries, e.1 ∉ names) :
    fieldsOfEntries? names (entries.map fun (key, value) => (.text key, value)) = some [] := by
  induction entries with
  | nil => rfl
  | cons entry rest ih =>
    obtain ⟨hname, hrest⟩ := List.forall_mem_cons.1 h
    simp only [List.map_cons, fieldsOfEntries?, nameAmong?, if_neg hname, ih hrest]

theorem Content.allFormless_iff (items : List Content) :
    allFormless items = true ↔ ∀ c ∈ items, c.isFormless = true := by
  induction items with
  | nil => simp [allFormless]
  | cons c rest ih => simp [allFormless, ih]

theorem Content.allEntriesFormless_iff (entries : List (Content × Content)) :
    allEntriesFormless entries = true ↔
      ∀ e ∈ entries, e.1.isFormless = true ∧ e.2.isFormless = true := by
  induction entries with
  | nil => simp [allEntriesFormless]
  | cons e rest ih => simp [allEntriesFormless, ih, and_assoc]

/-- What is made of truth values and texts can be read where no form is asked for. -/
theorem Content.isFormless_of_isPlain {c : Content} (h : c.IsPlain) : c.isFormless = true := by
  induction h with
  | bool | text => rfl
  | list _ ih => exact (allFormless_iff _).2 ih
  | record _ ih =>
    refine (allEntriesFormless_iff _).2 fun e he => ?_
    obtain ⟨entry, hentry, rfl⟩ := List.mem_map.1 he
    exact ⟨rfl, ih entry hentry⟩

namespace FragmentEntry

/-- No field of a parameter has the name that makes an entry refer to a schema. -/
theorem schemaName?_content (p : Parameter) : schemaName? p.content = none := by
  have hnone : Content.fieldsOfEntries? [schemaKey]
      ((shown p.slots).map fun (key, value) => (.text key, value)) = some [] := by
    apply Content.fieldsOfEntries?_of_not_mem
    intro e he hkey
    have hfield : e.1 ∈ Parameter.fieldNames :=
      (sublist_map_fst_shown p.slots).subset (List.mem_map_of_mem he)
    rw [List.mem_singleton.1 hkey] at hfield
    exact absurd hfield (by decide)
  rw [p.content_eq_shown, Content.record, schemaName?, hnone]
  rfl

theorem ofContent?_content (p : Parameter) :
    ofContent? p.content = some (.parameter { p with hint := none }) := by
  rw [ofContent?, schemaName?_content, Parameter.ofContent?_content]
  rfl

def ofData? (c : Content) : Option FragmentEntry :=
  if c.isFormless then ofContent? c else none

theorem ofData?_content (p : Parameter) :
    ofData? p.content = some (.parameter { p with hint := none }) := by
  rw [ofData?, if_pos (Content.isFormless_of_isPlain p.isPlain_content), ofContent?_content]

end FragmentEntry

namespace Fragment

def contents (x : Yaml.Located) : Yaml.Budgeted (List Content) := do
  let parts ← x.fields ["parameters"]
  fieldOr parts "parameters" [] (Yaml.Located.list fun x => x.content entryDepth)

theorem readEntry_eq (x : Yaml.Located) :
    readEntry x = x.content entryDepth >>= fun c => liftM (FragmentEntry.ofData? c) := by
  unfold readEntry FragmentEntry.ofData?
  congr 1
  funext c
  split <;> rfl

theorem read_eq (x : Yaml.Located) :
    read x = contents x >>= fun cs =>
      liftM ((cs.mapM FragmentEntry.ofData?).map Fragment.mk) := by
  simp only [read, contents, bind_assoc]
  congr 1
  funext parts
  unfold fieldOr
  cases parts.lookup "parameters" with
  | none => rfl
  | some value =>
    simp only [funext readEntry_eq, Yaml.Located.list_bind_liftM, bind_assoc]
    congr 1
    funext cs
    cases cs.mapM FragmentEntry.ofData? <;> rfl

theorem read_of_contents {x : Yaml.Located} {cs : List Content} {es : List FragmentEntry}
    (hcs : cs.mapM FragmentEntry.ofData? = some es) {before after : Nat}
    (h : contents x before = some (cs, after)) :
    read x before = some (⟨es⟩, after) := by
  rw [read_eq, Yaml.Budgeted.bind_apply, h, Option.bind_some, hcs]
  rfl

end Fragment

end Endpoints
