import Endpoints.Route
import Endpoints.Proofs.Text.Pieces
import Mathlib.Data.List.TakeWhile

/-!
# The tokens of a route

A slash stays inside a token when it stands right after `<` or right before `>`, and separates two
tokens otherwise. Splitting a text gives tokens of this kind, which give the text back when slashes
join them, and joining tokens of this kind gives a text that splits into them again.
-/

namespace Endpoints

/-- An occurrence of a character that stands between two texts is in the first, between them or in
the second. -/
theorem append_cons_eq_iff {c : Char} {as bs u v : List Char} :
    as ++ c :: bs = u ++ c :: v ↔
      (∃ w, as = u ++ c :: w ∧ v = w ++ c :: bs) ∨ (u = as ∧ v = bs) ∨
        ∃ w, u = as ++ c :: w ∧ bs = w ++ c :: v := by
  constructor
  · intro h
    rcases List.append_eq_append_iff.1 h with ⟨w, rfl, hw⟩ | ⟨w, rfl, hw⟩
    · cases w with
      | nil => exact .inr (.inl ⟨by simp, by simpa using hw.symm⟩)
      | cons d w =>
        cases hw
        exact .inr (.inr ⟨w, rfl, rfl⟩)
    · cases w with
      | nil => exact .inr (.inl ⟨by simp, by simpa using hw⟩)
      | cons d w =>
        cases hw
        exact .inl ⟨w, rfl, rfl⟩
  · rintro (⟨w, rfl, rfl⟩ | ⟨rfl, rfl⟩ | ⟨w, rfl, rfl⟩) <;> simp

theorem append_cons_inj {c : Char} {as bs u v : List Char} (has : c ∉ as) (hu : c ∉ u)
    (h : as ++ c :: bs = u ++ c :: v) : as = u ∧ bs = v := by
  rcases append_cons_eq_iff.1 h with ⟨w, rfl, -⟩ | ⟨rfl, rfl⟩ | ⟨w, rfl, -⟩
  · simp at has
  · exact ⟨rfl, rfl⟩
  · simp at hu

namespace Route

/-- Every slash of a token stands right after `<` or right before `>`, given the character before
the token. -/
def KeepsSlashes (before : Option Char) (token : List Char) : Prop :=
  ∀ u v, token = u ++ '/' :: v → u.getLast?.or before = some '<' ∨ v.head? = some '>'

/-- A sequence of tokens, given the character before it: they keep their slashes, and the slashes
between them separate. -/
inductive AreTokens : Option Char → List (List Char) → Prop where
  | last {before token} (keeps : KeepsSlashes before token) : AreTokens before [token]
  | cons {before token next rest} (keeps : KeepsSlashes before token)
      (ends : token.getLast?.or before ≠ some '<') (starts : next.head? ≠ some '>')
      (tail : AreTokens (some '/') (next :: rest)) : AreTokens before (token :: next :: rest)

section KeepsSlashes

variable {before : Option Char} {c : Char} {token : List Char}

theorem keepsSlashes_of_not_mem (h : '/' ∉ token) : KeepsSlashes before token := by
  intro u v htoken
  simp [htoken] at h

private theorem getLast?_cons_or (c : Char) (u : List Char) (before : Option Char) :
    (c :: u).getLast?.or before = u.getLast?.or (some c) := by
  rw [List.getLast?_cons]
  cases u.getLast? <;> rfl

theorem keepsSlashes_cons_iff : KeepsSlashes before (c :: token) ↔
    (c = '/' → before = some '<' ∨ token.head? = some '>') ∧ KeepsSlashes (some c) token := by
  constructor
  · intro h
    refine ⟨?_, ?_⟩
    · rintro rfl
      exact h [] token rfl
    · rintro u v rfl
      have huv := h (c :: u) v rfl
      rwa [getLast?_cons_or] at huv
  · rintro ⟨hc, htoken⟩ u v huv
    cases u with
    | nil =>
      cases huv
      exact hc rfl
    | cons d u =>
      cases huv
      rw [getLast?_cons_or]
      exact htoken u v rfl

end KeepsSlashes

section Splitting

variable {before : Option Char}

theorem tokensAfter_cons_of_keeps {c : Char} {rest : List Char}
    (h : c = '/' → before = some '<' ∨ rest.head? = some '>') :
    tokensAfter before (c :: rest) = consToken c (tokensAfter (some c) rest) := by
  have hkept : ¬(c = '/' ∧ before ≠ some '<' ∧ rest.head? ≠ some '>') := by
    rintro ⟨hc, hb, hr⟩
    exact (h hc).elim hb hr
  rw [tokensAfter, if_neg hkept]

/-- A token that keeps its slashes is not split. -/
theorem tokensAfter_of_keeps {token : List Char} (h : KeepsSlashes before token) :
    tokensAfter before token = [token] := by
  induction token generalizing before with
  | nil => rfl
  | cons c rest ih =>
    obtain ⟨hc, hrest⟩ := keepsSlashes_cons_iff.1 h
    rw [tokensAfter_cons_of_keeps hc, ih hrest, consToken]

/-- The slash after a token separates it from what follows. -/
theorem tokensAfter_append {token rest : List Char} (keeps : KeepsSlashes before token)
    (ends : token.getLast?.or before ≠ some '<') (starts : rest.head? ≠ some '>') :
    tokensAfter before (token ++ '/' :: rest) = token :: tokensAfter (some '/') rest := by
  induction token generalizing before with
  | nil => rw [List.nil_append, tokensAfter, if_pos ⟨rfl, ends, starts⟩]
  | cons c token ih =>
    obtain ⟨hc, htoken⟩ := keepsSlashes_cons_iff.1 keeps
    have hkept : c = '/' → before = some '<' ∨ (token ++ '/' :: rest).head? = some '>' := by
      intro h
      refine (hc h).imp id fun hhead => ?_
      rw [List.head?_append, hhead]
      rfl
    rw [List.cons_append, tokensAfter_cons_of_keeps hkept, ih htoken (by rwa [← getLast?_cons_or]),
      consToken]

theorem head?_intercalate_ne_iff {next : List Char} {rest : List (List Char)} :
    (List.intercalate ['/'] (next :: rest)).head? ≠ some '>' ↔ next.head? ≠ some '>' := by
  cases rest with
  | nil => rw [List.intercalate_singleton]
  | cons other rest =>
    rw [List.intercalate_cons_cons]
    cases next <;> simp

theorem tokensAfter_intercalate {ts : List (List Char)} (h : AreTokens before ts) :
    tokensAfter before (List.intercalate ['/'] ts) = ts := by
  induction h with
  | last keeps => rw [List.intercalate_singleton, tokensAfter_of_keeps keeps]
  | @cons before token next rest keeps ends starts _ ih =>
    have hhead : (List.intercalate ['/'] (next :: rest)).head? ≠ some '>' :=
      head?_intercalate_ne_iff.2 starts
    rw [List.intercalate_cons_cons, List.append_assoc, List.singleton_append,
      tokensAfter_append keeps ends hhead, ih]

theorem intercalate_consToken (c : Char) {ts : List (List Char)} (h : ts ≠ []) :
    List.intercalate ['/'] (consToken c ts) = c :: List.intercalate ['/'] ts := by
  match ts, h with
  | [token], _ => simp [consToken]
  | token :: next :: rest, _ => simp [consToken, List.intercalate_cons_cons]

theorem tokensAfter_ne_nil (before : Option Char) (cs : List Char) :
    tokensAfter before cs ≠ [] := by
  cases cs with
  | nil => simp [tokensAfter]
  | cons c rest =>
    rw [tokensAfter]
    split
    · simp
    · cases tokensAfter (some c) rest <;> simp [consToken]

theorem intercalate_tokensAfter (before : Option Char) (cs : List Char) :
    List.intercalate ['/'] (tokensAfter before cs) = cs := by
  induction cs generalizing before with
  | nil => rfl
  | cons c rest ih =>
    have hne := tokensAfter_ne_nil (some c) rest
    rw [tokensAfter]
    split
    · rename_i hc
      obtain ⟨token, ts, hts⟩ := List.exists_cons_of_ne_nil hne
      have hrest := ih (some c)
      rw [hts] at hrest ⊢
      rw [List.intercalate_cons_cons, hrest, hc.1]
      rfl
    · rw [intercalate_consToken c hne, ih]

theorem head?_of_tokensAfter {cs token : List Char} {ts : List (List Char)}
    (h : tokensAfter before cs = token :: ts) {c : Char} (hc : c ≠ '/') :
    token.head? = some c ↔ cs.head? = some c := by
  cases cs with
  | nil =>
    cases h
    rfl
  | cons d rest =>
    rw [tokensAfter] at h
    split at h
    · rename_i hd
      cases h
      simp [hd.1, Ne.symm hc]
    · cases hts : tokensAfter (some d) rest with
      | nil => exact absurd hts (tokensAfter_ne_nil _ _)
      | cons first others =>
        rw [hts, consToken] at h
        cases h
        simp

theorem AreTokens.consToken {c : Char} {token : List Char} {ts : List (List Char)}
    (h : AreTokens (some c) (token :: ts))
    (hc : c = '/' → before = some '<' ∨ token.head? = some '>') :
    AreTokens before ((c :: token) :: ts) := by
  cases h with
  | last keeps => exact .last (keepsSlashes_cons_iff.2 ⟨hc, keeps⟩)
  | cons keeps ends starts tail =>
    exact .cons (keepsSlashes_cons_iff.2 ⟨hc, keeps⟩) (by rwa [getLast?_cons_or]) starts tail

theorem areTokens_tokensAfter (before : Option Char) (cs : List Char) :
    AreTokens before (tokensAfter before cs) := by
  induction cs generalizing before with
  | nil => exact .last (keepsSlashes_of_not_mem (by simp))
  | cons c rest ih =>
    obtain ⟨token, ts, hts⟩ := List.exists_cons_of_ne_nil (tokensAfter_ne_nil (some c) rest)
    have htail := ih (some c)
    have hhead := head?_of_tokensAfter hts (c := '>') (by decide)
    rw [tokensAfter, hts]
    rw [hts] at htail
    split
    · -- The character is a separating slash: an empty token ends before it.
      rename_i hsep
      obtain ⟨rfl, hb, hr⟩ := hsep
      exact .cons (keepsSlashes_of_not_mem (by simp)) hb (mt hhead.1 hr) htail
    · -- It goes to the front of the next token, which starts like the rest of the text.
      rename_i hkept
      refine htail.consToken fun hslash => ?_
      by_contra hout
      rw [not_or, hhead] at hout
      exact hkept ⟨hslash, hout⟩

theorem map_toList_tokens (text : String) :
    (tokens text).map String.toList = tokensAfter none text.toList := by
  simp [tokens, Function.comp_def]

theorem areTokens_tokens (text : String) : AreTokens none ((tokens text).map String.toList) := by
  rw [map_toList_tokens]
  exact areTokens_tokensAfter none text.toList

theorem tokens_of_areTokens {text : String} {ts : List String}
    (htext : text.toList = List.intercalate ['/'] (ts.map String.toList))
    (h : AreTokens none (ts.map String.toList)) : tokens text = ts := by
  rw [tokens, htext, tokensAfter_intercalate h]
  simp [Function.comp_def]

end Splitting

end Route

theorem HttpMethod.ofName?_eq_some_iff {s : String} {m : HttpMethod} :
    ofName? s = some m ↔ m.name = s := by
  constructor
  · intro h
    simpa using List.find?_some h
  · rintro rfl
    cases m <;> decide

namespace Route

theorem method?_name (m : HttpMethod) : method? m.name = some m := by
  cases m <;> decide

section MethodToken

variable {token : String} {m : HttpMethod}

/-- A token that states a method consists of blanks and of letters of its name. -/
theorem not_mem_of_method? (h : method? token = some m) {c : Char}
    (hblank : Text.isBlank c = false) (hletter : Text.lowerChar c ∉ m.name.toList) :
    c ∉ token.toList := by
  intro hc
  apply hletter
  rw [HttpMethod.ofName?_eq_some_iff.1 h, Text.lower, Text.trim, String.toList_ofList,
    String.toList_ofList]
  exact List.mem_map_of_mem (Text.mem_trimChars hc hblank)

theorem slash_not_mem_of_method? (h : method? token = some m) : '/' ∉ token.toList :=
  not_mem_of_method? h (by decide) (by cases m <;> decide)

theorem getLast?_ne_of_method? (h : method? token = some m) :
    token.toList.getLast? ≠ some '<' := by
  intro hlast
  have hmem := List.mem_of_getLast? hlast
  exact not_mem_of_method? h (by decide) (by cases m <;> decide) hmem

theorem ofText?_eq_some_iff {text : String} {route : Route} : ofText? text = some route ↔
    ∃ token, tokens text = token :: route.segments ∧ method? token = some route.method := by
  rw [ofText?]
  cases tokens text with
  | nil => simp
  | cons token segments =>
    constructor
    · intro h
      obtain ⟨m, hm, rfl⟩ := Option.map_eq_some_iff.1 h
      exact ⟨token, rfl, hm⟩
    · rintro ⟨other, htokens, hm⟩
      cases htokens
      simp [hm]

/-- A slash right before `>` belongs to the token before it. -/
theorem slash_mem_of_tokensAfter {before : Option Char} {cs rest first : List Char}
    {ts : List (List Char)} (hcs : '/' ∉ cs) (hr : rest.head? = some '>')
    (h : tokensAfter before (cs ++ '/' :: rest) = first :: ts) : '/' ∈ first := by
  induction cs generalizing before first ts with
  | nil =>
    rw [List.nil_append, tokensAfter_cons_of_keeps fun _ => .inr hr] at h
    cases hts : tokensAfter (some '/') rest with
    | nil => exact absurd hts (tokensAfter_ne_nil _ _)
    | cons token others =>
      rw [hts] at h
      cases h
      simp
  | cons c cs ih =>
    rw [List.mem_cons, not_or] at hcs
    obtain ⟨hc, hcs⟩ := hcs
    rw [List.cons_append, tokensAfter_cons_of_keeps fun e => absurd e.symm hc] at h
    cases hts : tokensAfter (some c) (cs ++ '/' :: rest) with
    | nil => exact absurd hts (tokensAfter_ne_nil _ _)
    | cons token others =>
      have hmem := ih hcs hts
      rw [hts] at h
      cases h
      exact List.mem_cons_of_mem c hmem

/-- What follows a method and a slash is split into the segments, unless it starts with `>`, which
takes the slash into the token of the method. -/
theorem ofText?_append (h : method? token = some m) (rest : String) :
    ofText? (token ++ "/" ++ rest) =
      if rest.toList.head? = some '>' then none
      else some
        { method := m, segments := (tokensAfter (some '/') rest.toList).map String.ofList } := by
  have hchars : (token ++ "/" ++ rest).toList = token.toList ++ '/' :: rest.toList := by
    simp [String.toList_append]
  split
  · rename_i hr
    cases hroute : ofText? (token ++ "/" ++ rest) with
    | none => rfl
    | some route =>
      obtain ⟨first, htokens, hm⟩ := ofText?_eq_some_iff.1 hroute
      rw [tokens, hchars] at htokens
      obtain ⟨cs, ts, hts, rfl, -⟩ := List.map_eq_cons_iff.1 htokens
      have hslash := slash_mem_of_tokensAfter (slash_not_mem_of_method? h) hr hts
      exact absurd (by simpa using hslash) (slash_not_mem_of_method? hm)
  · rename_i hr
    refine ofText?_eq_some_iff.2 ⟨token, ?_, h⟩
    have hkeeps : KeepsSlashes none token.toList :=
      keepsSlashes_of_not_mem (slash_not_mem_of_method? h)
    rw [tokens, hchars, tokensAfter_append hkeeps (by simpa using getLast?_ne_of_method? h) hr]
    simp

end MethodToken

end Route

end Endpoints
