import Endpoints.Proofs.Route.Tokens

/-!
# Where the placeholder of a segment stands

The type of a placeholder starts behind the first `<` of a segment and is as short as it can be:
it ends at the first `>`, not right behind its start, that a name follows. A segment in which no
`>` ends a type behind the first `<` has none behind a later `<` either.
-/

namespace Endpoints

namespace Route

/-- Whether a name starts at the front of a text. -/
def StartsName (cs : List Char) : Prop := ∃ c ∈ cs.head?, isNameChar c = true

theorem takeWhile_isNameChar_ne_nil_iff {cs : List Char} :
    cs.takeWhile isNameChar ≠ [] ↔ StartsName cs := by
  cases cs with
  | nil => simp [StartsName]
  | cons c rest => cases h : isNameChar c <;> simp [StartsName, h]

theorem takeWhile_isNameChar_append {name post : List Char}
    (hname : ∀ c ∈ name, isNameChar c = true) (hpost : ¬ StartsName post) :
    (name ++ post).takeWhile isNameChar = name := by
  have hnone : post.takeWhile isNameChar = [] := by
    simpa using mt takeWhile_isNameChar_ne_nil_iff.1 hpost
  rw [List.takeWhile_append_of_pos hname, hnone, List.append_nil]

/-- A `>` ends the type that stands before it, given whether the type has started before that. -/
def EndsType (started : Bool) (u v : List Char) : Prop :=
  (started = true ∨ u ≠ []) ∧ StartsName v

section Closing

variable {started : Bool} {c : Char} {cs rest type name v : List Char}

theorem closePlaceholder_of_endsType (h : EndsType started [] v) :
    closePlaceholder started ('>' :: v) = some ([], v.takeWhile isNameChar) := by
  have hstarted : started = true := by simpa using h.1
  rw [closePlaceholder, if_pos ⟨rfl, hstarted, takeWhile_isNameChar_ne_nil_iff.2 h.2⟩]

theorem closePlaceholder_cons (h : c = '>' → ¬ EndsType started [] rest) :
    closePlaceholder started (c :: rest) =
      (closePlaceholder true rest).map fun (type, name) => (c :: type, name) := by
  have hgo : ¬ (c = '>' ∧ started = true ∧ rest.takeWhile isNameChar ≠ []) := by
    rintro ⟨hc, hstarted, hname⟩
    exact h hc ⟨.inl hstarted, takeWhile_isNameChar_ne_nil_iff.1 hname⟩
  rw [closePlaceholder, if_neg hgo]

/-- There is no placeholder exactly when no `>` ends the type. -/
theorem closePlaceholder_eq_none_iff : closePlaceholder started cs = none ↔
    ∀ u v, cs = u ++ '>' :: v → ¬ EndsType started u v := by
  induction cs generalizing started with
  | nil => simp [closePlaceholder]
  | cons c rest ih =>
    by_cases hend : c = '>' ∧ EndsType started [] rest
    · obtain ⟨rfl, hend⟩ := hend
      rw [closePlaceholder_of_endsType hend]
      exact iff_of_false (by simp) fun h => h [] rest rfl hend
    · rw [not_and] at hend
      rw [closePlaceholder_cons hend, Option.map_eq_none_iff, ih]
      constructor
      · intro h u v hsplit
        cases u with
        | nil =>
          cases hsplit
          exact hend rfl
        | cons d u =>
          cases hsplit
          exact fun hends => h u v rfl ⟨.inl rfl, hends.2⟩
      · rintro h u v rfl hends
        exact h (c :: u) v rfl ⟨.inr (by simp), hends.2⟩

/-- The type of a placeholder ends at the first `>` that can end it, and a run of characters
behind that is the name. -/
theorem closePlaceholder_eq_some_iff : closePlaceholder started cs = some (type, name) ↔
    ∃ v, cs = type ++ '>' :: v ∧ EndsType started type v ∧ name = v.takeWhile isNameChar ∧
      ∀ u w, type = u ++ '>' :: w → ¬ EndsType started u (w ++ '>' :: v) := by
  induction cs generalizing started type with
  | nil => simp [closePlaceholder]
  | cons c rest ih =>
    by_cases hend : c = '>' ∧ EndsType started [] rest
    · obtain ⟨rfl, hend⟩ := hend
      rw [closePlaceholder_of_endsType hend]
      constructor
      · intro h
        cases h
        exact ⟨rest, rfl, hend, rfl, by simp⟩
      · rintro ⟨v, hsplit, -, rfl, hfirst⟩
        cases type with
        | nil =>
          cases hsplit
          rfl
        | cons d type =>
          cases hsplit
          exact absurd hend (hfirst [] type rfl)
    · rw [not_and] at hend
      rw [closePlaceholder_cons hend, Option.map_eq_some_iff]
      constructor
      · rintro ⟨⟨type', name'⟩, hrest, hpair⟩
        cases hpair
        obtain ⟨v, rfl, hends, hname, hfirst⟩ := ih.1 hrest
        refine ⟨v, rfl, ⟨.inr (by simp), hends.2⟩, hname, fun u w htype => ?_⟩
        cases u with
        | nil =>
          cases htype
          exact hend rfl
        | cons d u =>
          cases htype
          exact fun h => hfirst u w rfl ⟨.inl rfl, h.2⟩
      · rintro ⟨v, hsplit, hends, rfl, hfirst⟩
        cases type with
        | nil =>
          cases hsplit
          exact absurd hends (hend rfl)
        | cons d type =>
          cases hsplit
          refine ⟨(type, _), ih.2 ⟨v, rfl, ⟨.inl rfl, hends.2⟩, rfl, fun u w htype h => ?_⟩, rfl⟩
          exact hfirst (c :: u) w (by rw [htype, List.cons_append]) ⟨.inr (by simp), h.2⟩

end Closing

section Finding

variable {cs pre rest : List Char}

/-- Where the first `<` opens no placeholder, no later one does. -/
theorem findPlaceholder_of_closePlaceholder (h : closePlaceholder false cs = none) :
    findPlaceholder cs = none := by
  induction cs with
  | nil => rfl
  | cons c rest ih =>
    rw [closePlaceholder_eq_none_iff] at h
    have hrest : closePlaceholder false rest = none := by
      rw [closePlaceholder_eq_none_iff]
      rintro u v rfl hends
      exact h (c :: u) v rfl ⟨.inr (by simp), hends.2⟩
    rw [findPlaceholder, hrest, ih hrest, ite_self]

theorem findPlaceholder_open (rest : List Char) :
    findPlaceholder ('<' :: rest) = closePlaceholder false rest := by
  rw [findPlaceholder, if_pos rfl]
  cases h : closePlaceholder false rest with
  | none => exact findPlaceholder_of_closePlaceholder h
  | some found => rfl

theorem findPlaceholder_append (h : '<' ∉ pre) (cs : List Char) :
    findPlaceholder (pre ++ cs) = findPlaceholder cs := by
  induction pre with
  | nil => rfl
  | cons c rest ih =>
    rw [List.mem_cons, not_or] at h
    rw [List.cons_append, findPlaceholder, if_neg (Ne.symm h.1), ih h.2]

theorem findPlaceholder_of_not_mem (h : '<' ∉ cs) : findPlaceholder cs = none := by
  have happend := findPlaceholder_append h []
  rwa [List.append_nil] at happend

/-- Characters of which an `<` and a later `>` enclose some others, with a name behind the `>`. -/
def HoldsPlaceholder (cs : List Char) : Prop :=
  ∃ i j c, i + 1 < j ∧ cs[i]? = some '<' ∧ cs[j]? = some '>' ∧ cs[j + 1]? = some c ∧
    isNameChar c = true

private theorem exists_append_of_getElem? {i : Nat} {c : Char} (h : cs[i]? = some c) :
    ∃ u v, cs = u ++ c :: v ∧ u.length = i := by
  obtain ⟨hi, rfl⟩ := List.getElem?_eq_some_iff.1 h
  refine ⟨cs.take i, cs.drop (i + 1), ?_, List.length_take_of_le (Nat.le_of_lt hi)⟩
  rw [List.getElem_cons_drop, List.take_append_drop]

/-- Of all `<` of a text, the first one has the most characters behind it. -/
theorem holdsPlaceholder_iff (hpre : '<' ∉ pre) : HoldsPlaceholder (pre ++ '<' :: rest) ↔
    ∃ u v, rest = u ++ '>' :: v ∧ EndsType false u v := by
  have hshift (n : Nat) : (pre ++ '<' :: rest)[pre.length + (n + 1)]? = rest[n]? := by
    simp [List.getElem?_append_right]
  constructor
  · rintro ⟨i, j, c, hij, hi, hj, hc, hname⟩
    have hle : pre.length ≤ i := by
      by_contra hlt
      rw [List.getElem?_append_left (by omega)] at hi
      exact hpre (List.mem_of_getElem? hi)
    obtain ⟨k, rfl⟩ : ∃ k, j = pre.length + (k + 2) := ⟨j - pre.length - 2, by omega⟩
    rw [hshift] at hj
    rw [Nat.add_assoc, hshift] at hc
    obtain ⟨u, v, rfl, hu⟩ := exists_append_of_getElem? hj
    refine ⟨u, v, rfl, .inr (List.ne_nil_of_length_eq_add_one hu), c, ?_, hname⟩
    have hbehind : k + 2 = u.length + 1 := by omega
    rw [hbehind] at hc
    rw [List.head?_eq_getElem?]
    simpa [List.getElem?_append_right] using hc
  · rintro ⟨u, v, rfl, hu, c, hc, hname⟩
    have hlength : 0 < u.length := List.length_pos_iff.2 (by simpa using hu)
    refine ⟨pre.length, pre.length + (u.length + 1), c, by omega, by simp, ?_, ?_, hname⟩
    · rw [hshift]
      simp
    · rw [Nat.add_assoc, hshift]
      rw [Option.mem_def, List.head?_eq_getElem?] at hc
      simpa [List.getElem?_append_right] using hc

theorem findPlaceholder_eq_none_iff : findPlaceholder cs = none ↔ ¬ HoldsPlaceholder cs := by
  by_cases hopen : '<' ∈ cs
  · obtain ⟨pre, rest, rfl, hpre⟩ := List.eq_append_cons_of_mem hopen
    rw [findPlaceholder_append hpre, findPlaceholder_open, closePlaceholder_eq_none_iff,
      holdsPlaceholder_iff hpre]
    simp
  · have hnone : ¬ HoldsPlaceholder cs := by
      rintro ⟨i, _, _, _, hi, _⟩
      exact hopen (List.mem_of_getElem? hi)
    exact iff_of_true (findPlaceholder_of_not_mem hopen) hnone

end Finding

/-- A segment in pieces: what stands before the `<` of its placeholder, the type and the name, and
what stands behind the name. -/
structure Frame where
  before : List Char
  type : List Char
  name : List Char
  after : List Char

/-- The pieces of a segment around the leftmost placeholder, with its shortest type and its longest
name. -/
structure Frame.IsOf (f : Frame) (cs : List Char) : Prop where
  split : cs = f.before ++ '<' :: (f.type ++ '>' :: (f.name ++ f.after))
  leftmost : '<' ∉ f.before
  type_ne : f.type ≠ []
  shortest : ∀ u v, f.type = u ++ '>' :: v → u ≠ [] → ¬ StartsName v
  name_ne : f.name ≠ []
  name_chars : ∀ c ∈ f.name, isNameChar c = true
  longest : ¬ StartsName f.after

theorem startsName_append_iff {cs : List Char} (rest : List Char) :
    StartsName (cs ++ '>' :: rest) ↔ StartsName cs := by
  cases cs <;> simp [StartsName]
  decide

theorem not_startsName_dropWhile (cs : List Char) : ¬ StartsName (cs.dropWhile isNameChar) := by
  rintro ⟨c, hc, hname⟩
  have hnot := List.head?_dropWhile_not isNameChar cs
  rw [Option.mem_def] at hc
  simp [hc, hname] at hnot

/-- The search gives the type and the name of a frame, and there is no other frame. -/
theorem findPlaceholder_eq_some_iff {cs type name : List Char} :
    findPlaceholder cs = some (type, name) ↔
      ∃ f : Frame, f.IsOf cs ∧ f.type = type ∧ f.name = name := by
  constructor
  · intro h
    have hopen : '<' ∈ cs := by
      by_contra hnot
      rw [findPlaceholder_of_not_mem hnot] at h
      cases h
    obtain ⟨before, rest, rfl, hbefore⟩ := List.eq_append_cons_of_mem hopen
    rw [findPlaceholder_append hbefore, findPlaceholder_open] at h
    obtain ⟨v, rfl, hends, rfl, hfirst⟩ := closePlaceholder_eq_some_iff.1 h
    refine ⟨⟨before, type, v.takeWhile isNameChar, v.dropWhile isNameChar⟩, ?_, rfl, rfl⟩
    refine ⟨by simp, hbefore, by simpa using hends.1, fun u w htype hu hname => ?_,
      takeWhile_isNameChar_ne_nil_iff.2 hends.2, fun c hc => List.mem_takeWhile_imp hc,
      not_startsName_dropWhile v⟩
    exact hfirst u w htype ⟨.inr hu, (startsName_append_iff v).2 hname⟩
  · rintro ⟨f, hf, rfl, rfl⟩
    rw [hf.split, findPlaceholder_append hf.leftmost, findPlaceholder_open]
    refine closePlaceholder_eq_some_iff.2 ⟨_, rfl, ⟨.inr hf.type_ne, ?_⟩, ?_, ?_⟩
    · obtain ⟨c, name, hname⟩ := List.exists_cons_of_ne_nil hf.name_ne
      exact ⟨c, by simp [hname], hf.name_chars c (by simp [hname])⟩
    · exact (takeWhile_isNameChar_append hf.name_chars hf.longest).symm
    · intro u w htype hends
      exact hf.shortest u w htype (by simpa using hends.1) ((startsName_append_iff _).1 hends.2)

/-- The pieces of a segment are determined by it. -/
theorem Frame.IsOf.unique {f g : Frame} {cs : List Char} (hf : f.IsOf cs) (hg : g.IsOf cs) :
    f = g := by
  have hfound := findPlaceholder_eq_some_iff.2 ⟨f, hf, rfl, rfl⟩
  rw [findPlaceholder_eq_some_iff.2 ⟨g, hg, rfl, rfl⟩] at hfound
  have hsplit := append_cons_inj hf.leftmost hg.leftmost (hf.split.symm.trans hg.split)
  obtain ⟨before, type, name, after⟩ := f
  obtain ⟨before', type', name', after'⟩ := g
  cases hfound
  simp_all

end Route

namespace Placeholder

def ofFrame (f : Route.Frame) : Placeholder where
  type := String.ofList f.type
  name := String.ofList f.name

section Segments

open Route

variable {segment : String} {p : Placeholder}

theorem ofSegment?_eq_none_iff : ofSegment? segment = none ↔ ¬ HoldsPlaceholder segment.toList := by
  rw [ofSegment?, Option.map_eq_none_iff, findPlaceholder_eq_none_iff]

theorem ofSegment?_eq_some_iff :
    ofSegment? segment = some p ↔ ∃ f : Frame, f.IsOf segment.toList ∧ ofFrame f = p := by
  rw [ofSegment?, Option.map_eq_some_iff]
  constructor
  · rintro ⟨⟨type, name⟩, hfound, rfl⟩
    obtain ⟨f, hf, rfl, rfl⟩ := findPlaceholder_eq_some_iff.1 hfound
    exact ⟨f, hf, rfl⟩
  · rintro ⟨f, hf, rfl⟩
    exact ⟨(f.type, f.name), findPlaceholder_eq_some_iff.2 ⟨f, hf, rfl, rfl⟩, rfl⟩

/-- A segment has a placeholder exactly when some `<` and `>` enclose characters and a name
character follows. The placeholder is the one whose `<` is the first of the segment, whose type is
the shortest behind it, and whose name is the longest behind that; no other pieces of the segment
are of this kind. Where the first `<` opens no placeholder, the search behind it finds none. -/
theorem ofSegment?_leftmost_shortest (segment : String) :
    (ofSegment? segment = none ↔ ¬ HoldsPlaceholder segment.toList) ∧
    (∀ p, ofSegment? segment = some p ↔ ∃ f : Frame, f.IsOf segment.toList ∧ ofFrame f = p) ∧
    (∀ f g : Frame, f.IsOf segment.toList → g.IsOf segment.toList → f = g) ∧
    ∀ before rest, segment.toList = before ++ '<' :: rest → '<' ∉ before →
      closePlaceholder false rest = none → findPlaceholder rest = none :=
  ⟨ofSegment?_eq_none_iff, fun _ => ofSegment?_eq_some_iff, fun _ _ => Frame.IsOf.unique,
    fun _ _ _ _ => findPlaceholder_of_closePlaceholder⟩

end Segments

end Placeholder

end Endpoints
