import Endpoints.Content.Plain
import Endpoints.Json.Reader
import Endpoints.Json.Writer
import Mathlib.Algebra.Group.Nat.Defs
import Mathlib.Data.List.TakeWhile

/-!
# Reading what is written

A text is escaped character by character, and reading a string undoes one character after the
other. The parts of a list or a record stand between brackets, each after a line break that no
reader sees. So content without numbers is read back from its JSON text.
-/

namespace Endpoints

namespace Text

theorem digitIn?_hexDigit : ∀ n < 16, digitIn? 16 (hexDigit 'a' n) = some n := by decide

theorem valueIn?_append (base value : Nat) (as bs : List Char) :
    valueIn? base value (as ++ bs) =
      (valueIn? base value as).bind fun v => valueIn? base v bs := by
  induction as generalizing value with
  | nil => rfl
  | cons c rest ih =>
    simp only [List.cons_append, valueIn?]
    cases digitIn? base c with
    | none => rfl
    | some d => exact ih _

theorem valueIn?_hexDigits (count value n : Nat) :
    valueIn? 16 value (hexDigits 'a' count n) = some (value * 16 ^ count + n % 16 ^ count) := by
  induction count generalizing n with
  | zero => simp [hexDigits, valueIn?, Nat.mod_one]
  | succ count ih =>
    have hlast := digitIn?_hexDigit (n % 16) (Nat.mod_lt n (by decide))
    rw [hexDigits, valueIn?_append, ih]
    simp only [Option.bind_some, valueIn?, hlast]
    rw [Nat.pow_succ, Nat.mul_comm (16 ^ count) 16, Nat.mod_mul, Nat.mul_left_comm]
    congr 1
    omega

end Text

namespace Json

/-! ## Strings -/

theorem readUnits_escapeChar (c : Char) (rest : List Char) :
    readUnits (escapeChar c ++ rest) =
      (readUnits rest).map fun (units, rest) => (c.toNat :: units, rest) := by
  unfold escapeChar
  iterate 7
    split
    · subst_vars
      simp [readUnits, escaped?]
  split
  · rename_i hc
    have hunit := Text.valueIn?_hexDigits 4 0 c.toNat
    have hsmall : c.toNat % 16 ^ 4 = c.toNat := Nat.mod_eq_of_lt (by omega)
    simp only [Text.hexDigits, List.nil_append, List.cons_append, hsmall, Nat.zero_mul,
      Nat.zero_add] at hunit ⊢
    rw [readUnits, hunit]
  · rename_i hquote hslash _ _ _ _ _ hc
    rw [List.singleton_append, readUnits.eq_def]
    split <;> simp_all [Nat.not_lt.2]

theorem toNat_lt_or_lt (c : Char) : c.toNat < 0xD800 ∨ 0xDFFF < c.toNat := by
  rcases c.valid with h | ⟨h, -⟩
  · exact .inl h
  · exact .inr h

theorem joinUnits_map_toNat (cs : List Char) : joinUnits (cs.map Char.toNat) = some cs := by
  match cs with
  | [] => rfl
  | [c] =>
    have hc := toNat_lt_or_lt c
    have hunit : ¬(0xD800 ≤ c.toNat ∧ c.toNat < 0xE000) := by omega
    simp only [List.map_cons, List.map_nil, joinUnits, if_neg hunit, Char.ofNat_toNat]
  | c :: d :: rest =>
    have ih := joinUnits_map_toNat (d :: rest)
    have hc := toNat_lt_or_lt c
    have hhigh : ¬(0xD800 ≤ c.toNat ∧ c.toNat < 0xDC00) := by omega
    have hlow : ¬(0xDC00 ≤ c.toNat ∧ c.toNat < 0xE000) := by omega
    simp only [List.map_cons] at ih ⊢
    simp only [joinUnits, if_neg hhigh, if_neg hlow, ih, Option.map_some, Char.ofNat_toNat]

theorem readUnits_flatMap_escapeChar (cs rest : List Char) :
    readUnits (cs.flatMap escapeChar ++ '"' :: rest) = some (cs.map Char.toNat, rest) := by
  induction cs with
  | nil => rfl
  | cons c cs ih =>
    rw [List.flatMap_cons, List.append_assoc, readUnits_escapeChar, ih]
    rfl

theorem readString_escaped (s : String) (rest : List Char) :
    readString (s.toList.flatMap escapeChar ++ '"' :: rest) = some (.text s, rest) := by
  rw [readString, readUnits_flatMap_escapeChar, Option.map_some]
  simp only [joinUnits_map_toNat, String.ofList_toList]

theorem toList_quote (s : String) :
    (quote s).toList = '"' :: (s.toList.flatMap escapeChar ++ ['"']) := by
  simp [quote]

/-! ## Space between parts -/

section Space

variable {as bs : List Char}

theorem skipSpace_newLine (depth : Nat) (cs : List Char) :
    skipSpace ((newLine depth).toList ++ cs) = skipSpace cs := by
  apply List.dropWhile_append_of_pos
  intro c hc
  simp only [newLine, String.toList_append, String.toList_ofList, List.mem_append,
    List.mem_replicate] at hc
  rcases hc with hc | ⟨-, rfl⟩
  · obtain rfl := List.mem_singleton.1 hc
    rfl
  · rfl

theorem skipSpace_space (cs : List Char) : skipSpace (' ' :: cs) = skipSpace cs := rfl

theorem skipSpace_cons {c : Char} (h : isSpace c = false) (cs : List Char) :
    skipSpace (c :: cs) = c :: cs := by
  simp [skipSpace, h]

/-- Readers do not see the space in front of what they read. -/
theorem readValue_congr (h : skipSpace as = skipSpace bs) (fuel : Nat) :
    readValue fuel as = readValue fuel bs := by
  cases fuel with
  | zero => rfl
  | succ fuel => simp only [readValue, h]

theorem readItems_congr (h : skipSpace as = skipSpace bs) (fuel : Nat) :
    readItems fuel as = readItems fuel bs := by
  cases fuel with
  | zero => rfl
  | succ fuel => simp only [readItems, readValue_congr h]

theorem readEntries_congr (h : skipSpace as = skipSpace bs) (fuel : Nat) :
    readEntries fuel as = readEntries fuel bs := by
  cases fuel with
  | zero => rfl
  | succ fuel => simp only [readEntries, h]

end Space

/-! ## Values -/

theorem indentedItems_eq_map (depth : Nat) (items : List Content) :
    indentedItems depth items = items.map (indented depth) := by
  induction items with
  | nil => rfl
  | cons item rest ih => rw [indentedItems, ih, List.map_cons]

def entryText (depth : Nat) (entry : String × Content) : String :=
  quote entry.1 ++ ": " ++ indented depth entry.2

theorem toList_entryText (depth : Nat) (entry : String × Content) :
    (entryText depth entry).toList = '"' :: (entry.1.toList.flatMap escapeChar ++
      '"' :: ':' :: ' ' :: (indented depth entry.2).toList) := by
  simp [entryText, toList_quote]

theorem indentedEntries_record (depth : Nat) (entries : List (String × Content)) :
    indentedEntries depth (entries.map fun (key, value) => (.text key, value)) =
      entries.map (entryText depth) := by
  induction entries with
  | nil => rfl
  | cons entry rest ih => simp only [List.map_cons, indentedEntries, keyText, ih, entryText]

def lines (depth : Nat) (parts : List String) : List Char :=
  List.intercalate [','] (parts.map fun part => (newLine depth).toList ++ part.toList)

theorem lines_cons_cons (depth : Nat) (part next : String) (rest : List String) :
    lines depth (part :: next :: rest) =
      (newLine depth).toList ++ (part.toList ++ ',' :: lines depth (next :: rest)) := by
  simp [lines, List.intercalate_cons_cons]

theorem exists_skipSpace_lines {part : String} {x : Char} {cs : List Char}
    (hpart : part.toList = x :: cs) (hx : isSpace x = false) (depth : Nat) (rest : List String)
    (tail : List Char) : ∃ more, skipSpace (lines depth (part :: rest) ++ tail) = x :: more := by
  cases rest with
  | nil =>
    refine ⟨cs ++ tail, ?_⟩
    rw [lines, List.map_singleton, List.intercalate_singleton, List.append_assoc,
      skipSpace_newLine, hpart, List.cons_append, skipSpace_cons hx]
  | cons next rest =>
    refine ⟨cs ++ ',' :: (lines depth (next :: rest) ++ tail), ?_⟩
    rw [lines_cons_cons, List.append_assoc, skipSpace_newLine, hpart]
    simp [skipSpace_cons hx]

theorem toList_bracket {parts : List String} (h : parts ≠ []) (depth : Nat)
    (opening closing : String) :
    (bracket depth opening closing parts).toList =
      opening.toList ++ (lines (depth + 1) parts ++
        ((newLine depth).toList ++ closing.toList)) := by
  have hempty : parts.isEmpty = false := by simpa using h
  simp [bracket, hempty, lines, String.toList_intercalate, Function.comp_def]

/-- A value that is read back from its text, whatever follows it, by any reader whose calls may go
deeper than the text is long. -/
structure ReadsBack (c : Content) : Prop where
  starts : ∀ depth, ∃ x cs, (indented depth c).toList = x :: cs ∧ isSpace x = false ∧ x ≠ ']'
  reads : ∀ depth fuel rest, (indented depth c).toList.length < fuel →
    readValue fuel ((indented depth c).toList ++ rest) = some (c, rest)

/-- A value with one first character is read back when the reader that this character selects
takes the other ones. -/
theorem readsBack_of_first {c : Content} {first : Char} {others : Nat → List Char}
    (htext : ∀ depth, (indented depth c).toList = first :: others depth)
    (hspace : isSpace first = false) (hbracket : first ≠ ']')
    (hread : ∀ depth fuel rest, (others depth).length < fuel →
      readValue (fuel + 1) (first :: (others depth ++ rest)) = some (c, rest)) :
    ReadsBack c := by
  constructor
  · intro depth
    exact ⟨first, others depth, htext depth, hspace, hbracket⟩
  · intro depth fuel rest hfuel
    obtain ⟨fuel, rfl⟩ := Nat.exists_eq_add_one_of_ne_zero (Nat.ne_zero_of_lt hfuel)
    rw [htext] at hfuel ⊢
    exact hread depth fuel rest (Nat.lt_of_succ_lt_succ hfuel)

theorem readsBack_text (s : String) : ReadsBack (.text s) := by
  refine readsBack_of_first (fun _ => toList_quote s) rfl (by decide) fun _ fuel rest _ => ?_
  simp only [List.append_assoc, List.singleton_append, readValue, skipSpace_cons (c := '"') rfl]
  exact readString_escaped s rest

theorem readsBack_bool (b : Bool) : ReadsBack (.bool b) := by
  cases b with
  | false =>
    have htext : ∀ depth, (indented depth (.bool false)).toList = 'f' :: ['a', 'l', 's', 'e'] := by
      simp [indented, compact]
    refine readsBack_of_first htext rfl (by decide) fun _ fuel rest _ => ?_
    simp [readValue, skipSpace_cons (c := 'f') rfl]
  | true =>
    have htext : ∀ depth, (indented depth (.bool true)).toList = 't' :: ['r', 'u', 'e'] := by
      simp [indented, compact]
    refine readsBack_of_first htext rfl (by decide) fun _ fuel rest _ => ?_
    simp [readValue, skipSpace_cons (c := 't') rfl]

theorem readValue_newLine (depth fuel : Nat) (cs : List Char) :
    readValue fuel ((newLine depth).toList ++ cs) = readValue fuel cs :=
  readValue_congr (skipSpace_newLine depth cs) fuel

theorem length_newLine_pos (depth : Nat) : 0 < (newLine depth).toList.length := by
  simp [newLine]

/-- A reader that takes one part after the other takes all parts of some lines, when it takes each
of them both in front of the closing bracket and in front of a comma. -/
theorem read_lines {α β : Type} {read : Nat → List Char → Option (List β × List Char)}
    {text : α → String} {value : α → β} {depth outer : Nat} {closing : Char} {parts : List α}
    (hne : parts ≠ [])
    (hlast : ∀ a ∈ parts, ∀ fuel rest, (text a).toList.length < fuel →
      read (fuel + 1) ((newLine depth).toList ++ ((text a).toList ++
        ((newLine outer).toList ++ closing :: rest))) = some ([value a], rest))
    (hnext : ∀ a ∈ parts, ∀ fuel rest, (text a).toList.length < fuel →
      read (fuel + 1) ((newLine depth).toList ++ ((text a).toList ++ ',' :: rest)) =
        (read fuel rest).map fun (values, rest) => (value a :: values, rest))
    {fuel : Nat} (hfuel : (lines depth (parts.map text)).length < fuel) (rest : List Char) :
    read fuel (lines depth (parts.map text) ++ ((newLine outer).toList ++ closing :: rest)) =
      some (parts.map value, rest) := by
  induction parts generalizing fuel with
  | nil => exact absurd rfl hne
  | cons a others ih =>
    obtain ⟨hlastA, hlast⟩ := List.forall_mem_cons.1 hlast
    obtain ⟨hnextA, hnext⟩ := List.forall_mem_cons.1 hnext
    obtain ⟨fuel, rfl⟩ := Nat.exists_eq_add_one_of_ne_zero (Nat.ne_zero_of_lt hfuel)
    have hline := length_newLine_pos depth
    cases others with
    | nil =>
      simp only [lines, List.map_cons, List.map_nil, List.intercalate_singleton,
        List.length_append, List.append_assoc] at hfuel ⊢
      exact hlastA fuel rest (by omega)
    | cons next others =>
      simp only [List.map_cons, lines_cons_cons, List.length_append, List.length_cons,
        List.append_assoc, List.cons_append] at hfuel ih ⊢
      rw [hnextA fuel _ (by omega), ih (List.cons_ne_nil next others) hlast hnext (by omega)]
      rfl

theorem readItems_lines {items : List Content} (hne : items ≠ [])
    (h : ∀ item ∈ items, ReadsBack item) (depth outer fuel : Nat)
    (hfuel : (lines depth (items.map (indented depth))).length < fuel) (rest : List Char) :
    readItems fuel (lines depth (items.map (indented depth)) ++
      ((newLine outer).toList ++ ']' :: rest)) = some (items, rest) := by
  rw [← List.map_id items, List.map_map]
  refine read_lines hne (fun item hitem fuel rest hlength => ?_)
    (fun item hitem fuel rest hlength => ?_) hfuel rest
  · simp only [readItems, readValue_newLine, (h item hitem).reads depth fuel _ hlength,
      skipSpace_newLine, skipSpace_cons (c := ']') rfl, id]
  · simp only [readItems, readValue_newLine, (h item hitem).reads depth fuel _ hlength,
      skipSpace_cons (c := ',') rfl, id]

theorem readValue_openList {cs more : List Char} {x : Char} (hcs : skipSpace cs = x :: more)
    (hspace : isSpace x = false) (hx : x ≠ ']') (fuel : Nat) :
    readValue (fuel + 1) ('[' :: cs) =
      (readItems fuel cs).map fun (items, rest) => (.list items, rest) := by
  have hsame : readItems fuel (x :: more) = readItems fuel cs :=
    readItems_congr ((skipSpace_cons hspace more).trans hcs.symm) fuel
  simp [readValue, skipSpace_cons (c := '[') rfl, hcs, hx, hsame]

theorem readsBack_list {items : List Content} (h : ∀ item ∈ items, ReadsBack item) :
    ReadsBack (.list items) := by
  cases items with
  | nil =>
    have htext : ∀ depth, (indented depth (.list [])).toList = '[' :: [']'] := by
      simp [indented, indentedItems, bracket]
    refine readsBack_of_first htext rfl (by decide) fun _ fuel rest _ => ?_
    simp [readValue, skipSpace_cons (c := '[') rfl, skipSpace_cons (c := ']') rfl]
  | cons item others =>
    have htext : ∀ depth, (indented depth (.list (item :: others))).toList =
        '[' :: (lines (depth + 1) ((item :: others).map (indented (depth + 1))) ++
          ((newLine depth).toList ++ [']'])) := by
      intro depth
      rw [indented, indentedItems_eq_map, toList_bracket (by simp)]
      rfl
    refine readsBack_of_first htext rfl (by decide) fun depth fuel rest hfuel => ?_
    rw [List.length_append] at hfuel
    have hitems := readItems_lines (List.cons_ne_nil item others) h (depth + 1) depth fuel
      (by omega) rest
    obtain ⟨x, cs, hx, hspace, hbracket⟩ := (h item (by simp)).starts (depth + 1)
    obtain ⟨more, hmore⟩ := exists_skipSpace_lines hx hspace (depth + 1)
      (others.map (indented (depth + 1))) ((newLine depth).toList ++ ']' :: rest)
    rw [List.append_assoc, List.append_assoc, List.singleton_append]
    exact (readValue_openList hmore hspace hbracket fuel).trans (congrArg (Option.map _) hitems)

theorem readEntries_lines {entries : List (String × Content)} (hne : entries ≠ [])
    (h : ∀ entry ∈ entries, ReadsBack entry.2) (depth outer fuel : Nat)
    (hfuel : (lines depth (entries.map (entryText depth))).length < fuel) (rest : List Char) :
    readEntries fuel (lines depth (entries.map (entryText depth)) ++
      ((newLine outer).toList ++ '\x7d' :: rest)) =
        some (entries.map fun (key, value) => (.text key, value), rest) := by
  have hvalue : ∀ entry ∈ entries, ∀ fuel rest, (entryText depth entry).toList.length < fuel →
      readValue fuel (' ' :: ((indented depth entry.2).toList ++ rest)) =
        some (entry.2, rest) := by
    intro entry hentry fuel rest hlength
    simp only [toList_entryText, List.length_cons, List.length_append] at hlength
    rw [readValue_congr (skipSpace_space _)]
    exact (h entry hentry).reads depth fuel rest (by omega)
  refine read_lines hne (fun entry hentry fuel rest hlength => ?_)
    (fun entry hentry fuel rest hlength => ?_) hfuel rest
  · simp only [readEntries, skipSpace_newLine, toList_entryText, List.cons_append,
      List.append_assoc, skipSpace_cons (c := '"') rfl, readString_escaped,
      skipSpace_cons (c := ':') rfl, hvalue entry hentry fuel _ hlength,
      skipSpace_cons (c := '\x7d') rfl]
  · simp only [readEntries, skipSpace_newLine, toList_entryText, List.cons_append,
      List.append_assoc, skipSpace_cons (c := '"') rfl, readString_escaped,
      skipSpace_cons (c := ':') rfl, hvalue entry hentry fuel _ hlength,
      skipSpace_cons (c := ',') rfl]

theorem readValue_openRecord {cs more : List Char} {x : Char} (hcs : skipSpace cs = x :: more)
    (hspace : isSpace x = false) (hx : x ≠ '\x7d') (fuel : Nat) :
    readValue (fuel + 1) ('\x7b' :: cs) =
      (readEntries fuel cs).map fun (entries, rest) => (.map entries, rest) := by
  have hsame : readEntries fuel (x :: more) = readEntries fuel cs :=
    readEntries_congr ((skipSpace_cons hspace more).trans hcs.symm) fuel
  simp [readValue, skipSpace_cons (c := '\x7b') rfl, hcs, hx, hsame]

theorem readsBack_record {entries : List (String × Content)}
    (h : ∀ entry ∈ entries, ReadsBack entry.2) : ReadsBack (.record entries) := by
  cases entries with
  | nil =>
    have htext : ∀ depth, (indented depth (.record [])).toList = '\x7b' :: ['\x7d'] := by
      simp [Content.record, indented, indentedEntries, bracket]
    refine readsBack_of_first htext rfl (by decide) fun _ fuel rest _ => ?_
    simp [Content.record, readValue, skipSpace_cons (c := '\x7b') rfl,
      skipSpace_cons (c := '\x7d') rfl]
  | cons entry others =>
    have htext : ∀ depth, (indented depth (.record (entry :: others))).toList =
        '\x7b' :: (lines (depth + 1) ((entry :: others).map (entryText (depth + 1))) ++
          ((newLine depth).toList ++ ['\x7d'])) := by
      intro depth
      rw [Content.record, indented, indentedEntries_record, toList_bracket (by simp)]
      rfl
    refine readsBack_of_first htext rfl (by decide) fun depth fuel rest hfuel => ?_
    rw [List.length_append] at hfuel
    have hentries := readEntries_lines (List.cons_ne_nil entry others) h (depth + 1) depth fuel
      (by omega) rest
    obtain ⟨more, hmore⟩ := exists_skipSpace_lines (toList_entryText (depth + 1) entry) rfl
      (depth + 1) (others.map (entryText (depth + 1))) ((newLine depth).toList ++ '\x7d' :: rest)
    rw [List.append_assoc, List.append_assoc, List.singleton_append]
    exact (readValue_openRecord hmore rfl (by decide) fuel).trans
      (congrArg (Option.map _) hentries)

theorem readsBack_of_isPlain {c : Content} (h : c.IsPlain) : ReadsBack c := by
  induction h with
  | bool b => exact readsBack_bool b
  | text s => exact readsBack_text s
  | list _ ih => exact readsBack_list ih
  | record _ ih => exact readsBack_record ih

/-- Plain content is read back from its text. -/
theorem read?_pretty {c : Content} (h : c.IsPlain) : read? (pretty c) = some c := by
  have hread := (readsBack_of_isPlain h).reads 0 ((pretty c).toList.length + 1) []
    (Nat.lt_succ_self _)
  rw [List.append_nil] at hread
  simp only [read?, pretty] at hread ⊢
  rw [hread]
  rfl

end Json

end Endpoints
