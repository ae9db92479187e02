import Endpoints.Proofs.Lookup.Settling

/-!
# Entries of fragments as they are read

What a reading gives satisfies a property when all its parts do. A document does not say where a
parameter of open location is to go, so a parameter of a fragment comes without a suggestion.
-/

namespace Endpoints

namespace Yaml

def Yields {α : Type} (x : Budgeted α) (P : α → Prop) : Prop :=
  ∀ before a after, x before = some (a, after) → P a

section Yields

variable {α β : Type} {P : α → Prop} {Q : β → Prop}

theorem yields_pure {a : α} (h : P a) : Yields (pure a) P := by
  intro before b after hb
  cases hb
  exact h

theorem yields_failure (P : α → Prop) : Yields failure P := by
  intro before a after h
  cases h

theorem yields_true (x : Budgeted α) : Yields x fun _ => True := fun _ _ _ _ => trivial

theorem Yields.bind {x : Budgeted α} {f : α → Budgeted β} (hx : Yields x P)
    (hf : ∀ a, P a → Yields (f a) Q) : Yields (x >>= f) Q := by
  intro before b after h
  obtain ⟨⟨a, between⟩, ha, hb⟩ := Option.bind_eq_some_iff.1 h
  exact hf a (hx before a between ha) between b after hb

theorem yields_lift {o : Option α} (h : ∀ a, o = some a → P a) :
    Yields (liftM o : Budgeted α) P := by
  intro before a after ha
  cases o with
  | none => cases ha
  | some found =>
    cases ha
    exact h a rfl

theorem Yields.mapM {item : Located → Budgeted α} (h : ∀ x, Yields (item x) P)
    (xs : List Located) : Yields (xs.mapM item) fun as => ∀ a ∈ as, P a := by
  induction xs with
  | nil => exact yields_pure (by simp)
  | cons x rest ih =>
    rw [List.mapM_cons]
    refine (h x).bind fun a ha => ?_
    refine ih.bind fun as has => ?_
    exact yields_pure (List.forall_mem_cons.2 ⟨ha, has⟩)

theorem Yields.list {item : Located → Budgeted α} (h : ∀ x, Yields (item x) P) (x : Located) :
    Yields (x.list item) fun as => ∀ a ∈ as, P a :=
  (yields_true x.items).bind fun xs _ => Yields.mapM h xs

theorem Yields.fieldOr {fields : List (String × Located)} {name : String} {missing : α}
    {read : Located → Budgeted α} (hm : P missing) (h : ∀ x, Yields (read x) P) :
    Yields (fieldOr fields name missing read) P := by
  unfold Endpoints.fieldOr
  cases fields.lookup name with
  | none => exact yields_pure hm
  | some value => exact h value

theorem Yields.field {fields : List (String × Located)} {name : String}
    {read : Located → Budgeted α} (h : ∀ x, Yields (read x) P) :
    Yields (field fields name read) P := by
  unfold Endpoints.field
  cases fields.lookup name with
  | none => exact yields_failure P
  | some value => exact h value

end Yields

theorem Yields.of_read? {α : Type} {P : α → Prop} {read : Located → Budgeted α}
    (h : ∀ x, Yields (read x) P) {d : Document} {a : α} (ha : d.read? read = some a) : P a := by
  rw [Document.read?] at ha
  obtain ⟨⟨b, after⟩, hb, rfl⟩ := Option.map_eq_some_iff.1 ha
  exact h _ _ b after hb

end Yaml

namespace RouteTable

variable {α β : Type} {files : FileTree} {path : String}

theorem readSource_eq_ok_iff {read : Yaml.Located → Yaml.Budgeted α} {a : α} :
    readSource files path read = .ok a ↔
      ∃ text d, files.readText path = .ok text ∧ Yaml.Document.ofText? text = some d ∧
        d.read? read = some a := by
  unfold readSource
  cases files.readText path with
  | error cause => simp
  | ok text =>
    cases hd : Yaml.Document.ofText? text with
    | none => simp [hd]
    | some d => cases hread : d.read? read <;> simp [hd, hread]

theorem readSource_ok {P : α → Prop} {read : Yaml.Located → Yaml.Budgeted α}
    (h : ∀ x, Yaml.Yields (read x) P) {a : α} (ha : readSource files path read = .ok a) : P a := by
  obtain ⟨_, d, _, _, hread⟩ := readSource_eq_ok_iff.1 ha
  exact Yaml.Yields.of_read? h hread

/-- A source is read in another way when whatever is read of a node in the one way is read of it
in the other. -/
theorem readSource_of_readSource {read : Yaml.Located → Yaml.Budgeted α}
    {other : Yaml.Located → Yaml.Budgeted β} {a : α} {b : β}
    (h : ∀ x before after, read x before = some (a, after) →
      ∃ after', other x before = some (b, after'))
    (ha : readSource files path read = .ok a) : readSource files path other = .ok b := by
  obtain ⟨text, d, htext, hd, hread⟩ := readSource_eq_ok_iff.1 ha
  obtain ⟨⟨_, after⟩, hroot, rfl⟩ := Option.map_eq_some_iff.1 hread
  obtain ⟨after', hother⟩ := h _ _ after hroot
  exact readSource_eq_ok_iff.2 ⟨text, d, htext, hd, Option.map_eq_some_iff.2 ⟨_, hother, rfl⟩⟩

end RouteTable

theorem Parameter.hint_of_ofContent? {c : Content} {p : Parameter}
    (h : Parameter.ofContent? c = some p) : p.hint = none := by
  simp only [ofContent?, Option.bind_eq_bind, Option.bind_eq_some_iff] at h
  obtain ⟨_, _, _, _, _, _, _, _, _, _, _, _, _, _, _, _, _, _, hp⟩ := h
  cases hp
  rfl

namespace FragmentEntry

def IsPlain : FragmentEntry → Prop
  | .schema _ => True
  | .parameter p => p.hint = none

theorem isPlain_of_ofContent? {c : Content} {entry : FragmentEntry}
    (h : ofContent? c = some entry) : entry.IsPlain := by
  rw [ofContent?] at h
  split at h
  · cases h
    trivial
  · obtain ⟨p, hp, rfl⟩ := Option.map_eq_some_iff.1 h
    exact Parameter.hint_of_ofContent? hp

end FragmentEntry

namespace Fragment

theorem yields_readEntry (x : Yaml.Located) : Yaml.Yields (readEntry x) FragmentEntry.IsPlain := by
  refine (Yaml.yields_true (x.content entryDepth)).bind fun c _ => ?_
  split
  · exact Yaml.yields_lift fun entry h => FragmentEntry.isPlain_of_ofContent? h
  · exact Yaml.yields_failure _

theorem yields_read (x : Yaml.Located) :
    Yaml.Yields (read x) fun fragment => ∀ entry ∈ fragment.entries, entry.IsPlain := by
  refine (Yaml.yields_true (x.fields ["parameters"])).bind fun parts _ => ?_
  refine (Yaml.Yields.fieldOr (by simp) fun x => Yaml.Yields.list yields_readEntry x).bind
    fun entries h => ?_
  exact Yaml.yields_pure h

end Fragment

theorem Site.isPlain_of_readFragment {site : Site} {name path : String} {fragment : Fragment}
    (h : site.readFragment name = .ok (path, fragment)) :
    ∀ entry ∈ fragment.entries, entry.IsPlain := by
  obtain ⟨found, _, hread⟩ := ok_of_bind_ok h
  obtain ⟨read, hr, hpair⟩ := ok_of_bind_ok hread
  cases hpair
  exact RouteTable.readSource_ok Fragment.yields_read hr

end Endpoints
