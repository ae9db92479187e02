import Endpoints.Proofs.Route.Tokens

/-!
# The slashes between tokens

Joining tokens puts a slash between each of them and the next. For the tokens of a route these are
the slashes of the route that stand neither right after `<` nor right before `>`, and no other list
of tokens is joined at these slashes to the same text.
-/

namespace Endpoints

namespace Route

/-- Joining the tokens puts a slash between these two texts. -/
def IsJoint (ts : List (List Char)) (u v : List Char) : Prop :=
  ∃ front back, ts = front ++ back ∧ front ≠ [] ∧ back ≠ [] ∧
    List.intercalate ['/'] front = u ∧ List.intercalate ['/'] back = v

/-- A slash between these two texts is not escaped, given the character before the first one. -/
def IsUnescaped (before : Option Char) (u v : List Char) : Prop :=
  u.getLast?.or before ≠ some '<' ∧ v.head? ≠ some '>'

/-- Tokens that give a text when they are joined, and of which the joints are the slashes of the
text that are not escaped. -/
structure AreCutFrom (before : Option Char) (cs : List Char) (ts : List (List Char)) : Prop where
  ne_nil : ts ≠ []
  joined : List.intercalate ['/'] ts = cs
  isJoint_iff : ∀ u v, cs = u ++ '/' :: v → (IsJoint ts u v ↔ IsUnescaped before u v)

section IsJoint

variable {token next u v : List Char} {rest : List (List Char)}

theorem not_isJoint_singleton : ¬ IsJoint [token] u v := by
  rintro ⟨front, back, hts, hfront, hback, -, -⟩
  rcases List.singleton_eq_append_iff.1 hts with ⟨rfl, -⟩ | ⟨-, rfl⟩
  · exact hfront rfl
  · exact hback rfl

/-- The first joint of some tokens is the one after the first of them. -/
theorem isJoint_cons_iff : IsJoint (token :: next :: rest) u v ↔
    (u = token ∧ v = List.intercalate ['/'] (next :: rest)) ∨
      ∃ w, u = token ++ '/' :: w ∧ IsJoint (next :: rest) w v := by
  constructor
  · rintro ⟨front, back, hts, hfront, hback, rfl, rfl⟩
    obtain ⟨first, front, rfl⟩ := List.exists_cons_of_ne_nil hfront
    obtain ⟨rfl, hrest⟩ := List.cons.inj hts
    cases front with
    | nil => exact .inl ⟨List.intercalate_singleton, congrArg _ hrest.symm⟩
    | cons second front =>
      refine .inr ⟨_, ?_, second :: front, back, hrest, by simp, hback, rfl, rfl⟩
      rw [List.intercalate_cons_cons, List.append_assoc, List.singleton_append]
  · rintro (⟨rfl, rfl⟩ | ⟨w, rfl, front, back, hrest, hfront, hback, rfl, rfl⟩)
    · exact ⟨[u], next :: rest, rfl, by simp, by simp, List.intercalate_singleton, rfl⟩
    · obtain ⟨second, front, rfl⟩ := List.exists_cons_of_ne_nil hfront
      refine ⟨token :: second :: front, back, congrArg _ hrest, by simp, hback, ?_, rfl⟩
      rw [List.intercalate_cons_cons, List.append_assoc, List.singleton_append]

theorem not_isJoint_of_eq_append {w : List Char} (h : token = u ++ '/' :: w) :
    ¬ IsJoint (token :: next :: rest) u v := by
  rw [isJoint_cons_iff]
  rintro (⟨rfl, -⟩ | ⟨x, rfl, -⟩)
  · simp at h
  · simp at h

end IsJoint

section AreTokens

variable {before : Option Char} {token next u v : List Char} {rest : List (List Char)}

theorem keepsSlashes_iff : KeepsSlashes before token ↔
    ∀ u v, token = u ++ '/' :: v → ¬ IsUnescaped before u v := by
  simp only [KeepsSlashes, IsUnescaped, not_and_or, not_not]

/-- What follows the next slash does not escape this one. -/
theorem isUnescaped_append_iff {w : List Char} :
    IsUnescaped before u (v ++ '/' :: w) ↔ IsUnescaped before u v := by
  cases v <;> simp [IsUnescaped]

theorem isUnescaped_after_iff (token : List Char) :
    IsUnescaped before (token ++ '/' :: u) v ↔ IsUnescaped (some '/') u v := by
  cases u <;> simp [IsUnescaped, List.getLast?_cons]

theorem areCutFrom_singleton_iff : AreCutFrom before token [token] ↔ KeepsSlashes before token := by
  rw [keepsSlashes_iff]
  constructor
  · intro h u v htoken hcut
    exact not_isJoint_singleton ((h.isJoint_iff u v htoken).2 hcut)
  · intro h
    refine ⟨by simp, List.intercalate_singleton, fun u v htoken => ?_⟩
    exact iff_of_false not_isJoint_singleton (h u v htoken)

/-- The slash between two tokens separates them and what each of them keeps is escaped. -/
theorem areCutFrom_cons_iff {text : List Char} :
    AreCutFrom before (token ++ '/' :: text) (token :: next :: rest) ↔
      KeepsSlashes before token ∧ IsUnescaped before token text ∧
        AreCutFrom (some '/') text (next :: rest) := by
  rw [keepsSlashes_iff]
  constructor
  · intro h
    have htext : List.intercalate ['/'] (next :: rest) = text := by
      have hjoined := h.joined
      rw [List.intercalate_cons_cons, List.append_assoc] at hjoined
      exact (List.cons.inj (List.append_cancel_left hjoined)).2
    refine ⟨fun u v htoken hcut => ?_, ?_, by simp, htext, fun u v hsplit => ?_⟩
    · have hjoint := (h.isJoint_iff u (v ++ '/' :: text) (by simp [htoken])).2
      exact not_isJoint_of_eq_append htoken (hjoint (isUnescaped_append_iff.2 hcut))
    · exact (h.isJoint_iff token text rfl).1 (isJoint_cons_iff.2 (.inl ⟨rfl, htext.symm⟩))
    · rw [← isUnescaped_after_iff token, ← h.isJoint_iff _ v (by simp [hsplit]),
        isJoint_cons_iff]
      simp
  · rintro ⟨hkeeps, hends, htail⟩
    have hjoined : List.intercalate ['/'] (token :: next :: rest) = token ++ '/' :: text := by
      rw [List.intercalate_cons_cons, htail.joined, List.append_assoc, List.singleton_append]
    refine ⟨by simp, hjoined, fun u v hsplit => ?_⟩
    rcases append_cons_eq_iff.1 hsplit with ⟨w, htoken, rfl⟩ | ⟨rfl, rfl⟩ | ⟨w, rfl, htext⟩
    · rw [isUnescaped_append_iff]
      exact iff_of_false (not_isJoint_of_eq_append htoken) (hkeeps u w htoken)
    · exact iff_of_true (isJoint_cons_iff.2 (.inl ⟨rfl, htail.joined.symm⟩)) hends
    · rw [isUnescaped_after_iff, ← htail.isJoint_iff w v htext, isJoint_cons_iff]
      simp

theorem areTokens_cons_iff : AreTokens before (token :: next :: rest) ↔
    KeepsSlashes before token ∧ IsUnescaped before token next ∧
      AreTokens (some '/') (next :: rest) := by
  constructor
  · intro h
    cases h with
    | cons keeps ends starts tail => exact ⟨keeps, ⟨ends, starts⟩, tail⟩
  · rintro ⟨keeps, ⟨ends, starts⟩, tail⟩
    exact .cons keeps ends starts tail

/-- Tokens are what a text is cut into at the slashes that are not escaped. -/
theorem areTokens_iff_areCutFrom {ts : List (List Char)} :
    AreTokens before ts ↔ AreCutFrom before (List.intercalate ['/'] ts) ts := by
  induction ts generalizing before with
  | nil => exact iff_of_false (fun h => nomatch h) fun h => h.ne_nil rfl
  | cons token rest ih =>
    cases rest with
    | nil =>
      rw [List.intercalate_singleton, areCutFrom_singleton_iff]
      constructor
      · intro h
        cases h with
        | last keeps => exact keeps
      · exact .last
    | cons next rest =>
      rw [areTokens_cons_iff, ih, List.intercalate_cons_cons, List.append_assoc,
        List.singleton_append, areCutFrom_cons_iff, IsUnescaped, IsUnescaped,
        head?_intercalate_ne_iff]

theorem KeepsSlashes.of_ne (h : KeepsSlashes before token) (hb : before ≠ some '<') :
    KeepsSlashes none token := by
  intro u v htoken
  have hslash := h u v htoken
  cases hu : u.getLast? with
  | none => simpa [hu, hb] using hslash
  | some c => simpa [hu] using hslash

theorem AreTokens.keepsSlashes {ts : List (List Char)} (h : AreTokens before ts)
    (hb : before ≠ some '<') : ∀ token ∈ ts, KeepsSlashes none token := by
  induction h with
  | last keeps => simpa using keeps.of_ne hb
  | cons keeps _ _ _ ih => exact List.forall_mem_cons.2 ⟨keeps.of_ne hb, ih (by decide)⟩

end AreTokens

theorem tokens_eq_iff {text : String} {ts : List String} :
    tokens text = ts ↔ AreCutFrom none text.toList (ts.map String.toList) := by
  constructor
  · rintro rfl
    have hcut := areTokens_iff_areCutFrom.1 (areTokens_tokens text)
    rwa [map_toList_tokens, intercalate_tokensAfter, ← map_toList_tokens] at hcut
  · intro hcut
    refine tokens_of_areTokens hcut.joined.symm (areTokens_iff_areCutFrom.2 ?_)
    rwa [hcut.joined]

/-- A route is cut into its tokens at exactly the slashes that stand neither right after `<` nor
right before `>`. There is at least one token, the tokens give the route back, a slash inside a
token is escaped there, and no other list of tokens is cut from the route in this way. -/
theorem tokens_cut_at_unescaped_slashes (route : String) :
    (∃ token segments, tokens route = token :: segments ∧
      ofText? route = (method? token).map fun method => { method, segments }) ∧
    String.intercalate "/" (tokens route) = route ∧
    AreCutFrom none route.toList ((tokens route).map String.toList) ∧
    (∀ token ∈ tokens route, KeepsSlashes none token.toList) ∧
    ∀ ts : List String, AreCutFrom none route.toList (ts.map String.toList) →
      ts = tokens route := by
  have hcut := tokens_eq_iff.1 (Eq.refl (tokens route))
  refine ⟨?_, ?_, hcut, ?_, fun ts hts => (tokens_eq_iff.2 hts).symm⟩
  · have hne : tokens route ≠ [] := by simpa [tokens] using tokensAfter_ne_nil none route.toList
    obtain ⟨token, segments, h⟩ := List.exists_cons_of_ne_nil hne
    exact ⟨token, segments, h, by rw [ofText?, h]⟩
  · rw [← String.toList_inj, String.toList_intercalate]
    exact hcut.joined
  · intro token htoken
    exact (areTokens_tokens route).keepsSlashes (by simp) token.toList
      (List.mem_map_of_mem htoken)

/-- Slashes side by side, at both ends, and escaped on either side or on both. -/
example : tokens "/</>a//</b/>/c/" = ["", "</>a", "", "</b/>", "c", ""] := by
  decide +kernel

end Route

end Endpoints
