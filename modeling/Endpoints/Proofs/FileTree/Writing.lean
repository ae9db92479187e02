import Endpoints.FileTree
import Endpoints.Proofs.Overlay.Layers

/-!
# What writing leaves in a tree

Making directories changes nothing that is there: where there was nothing, there can be a directory
afterwards. A file that is written is found under its path again, because a path never leads
through the place of a file, and every other place stays as it was.
-/

namespace Endpoints.FileTree

variable {t : FileTree} {p q : Place} {path : String}

theorem entryAt?_setAt (t : FileTree) (p : Place) (entry : FileEntry) (q : Place) :
    (t.setAt p entry).entryAt? q =
      if q.isFixed then some .directory else if p = q then some entry else t.entryAt? q := by
  unfold entryAt? setAt
  split
  · rfl
  · rw [Table.get?_set]

theorem entryAt?_setAt_of_ne (entry : FileEntry) (h : p ≠ q) :
    (t.setAt p entry).entryAt? q = t.entryAt? q := by
  rw [entryAt?_setAt, if_neg h]
  unfold entryAt?
  split <;> rfl

/-- A place without a directory is no fixed one, so what is put there is found there. -/
theorem entryAt?_setAt_self (entry : FileEntry) (h : t.entryAt? p ≠ some .directory) :
    (t.setAt p entry).entryAt? p = some entry := by
  have hfree : ¬p.isFixed = true := fun hfixed => h (if_pos hfixed)
  rw [entryAt?_setAt, if_neg hfree, if_pos rfl]

/-- What is at a place is still there, or there was nothing and is a directory now. -/
def KeepsOrMakes (before after : FileTree) (p : Place) : Prop :=
  after.entryAt? p = before.entryAt? p ∨
    before.entryAt? p = none ∧ after.entryAt? p = some .directory

/-- The second tree is the first one with directories where there was nothing. -/
def AddsDirectories (before after : FileTree) : Prop :=
  ∀ p, before.KeepsOrMakes after p

theorem addsDirectories_refl (t : FileTree) : t.AddsDirectories t := fun _ => .inl rfl

theorem AddsDirectories.trans {a b c : FileTree} (hab : a.AddsDirectories b)
    (hbc : b.AddsDirectories c) : a.AddsDirectories c := by
  intro p
  rcases hab p with hab | ⟨hnone, hmade⟩ <;> rcases hbc p with hbc | ⟨hnone', hmade'⟩
  · exact .inl (hbc.trans hab)
  · exact .inr ⟨hab ▸ hnone', hmade'⟩
  · exact .inr ⟨hnone, hbc.trans hmade⟩
  · rw [hmade] at hnone'
    cases hnone'

theorem addsDirectories_setAt (h : t.entryAt? p = none) :
    t.AddsDirectories (t.setAt p .directory) := by
  intro q
  by_cases hpq : p = q
  · subst hpq
    exact .inr ⟨h, entryAt?_setAt_self .directory (by simp [h])⟩
  · exact .inl (entryAt?_setAt_of_ne .directory hpq)

theorem addsDirectories_makeDirectory {made : FileTree} (h : t.makeDirectory path = .ok made) :
    t.AddsDirectories made := by
  unfold makeDirectory at h
  split at h
  · cases h
  · split at h
    · cases h
    · rename_i hnone
      cases h
      exact addsDirectories_setAt hnone

theorem addsDirectories_makeDirectoriesFuel (fuel : Nat) (t : FileTree) (path : String) :
    t.AddsDirectories (makeDirectoriesFuel fuel t path).1 := by
  induction fuel generalizing path with
  | zero => exact t.addsDirectories_refl
  | succ fuel ih =>
    unfold makeDirectoriesFuel
    split
    · exact t.addsDirectories_refl
    · split
      · rename_i made hmade
        exact addsDirectories_makeDirectory hmade
      · split
        · exact t.addsDirectories_refl
        · rename_i parent _
          have habove := ih parent
          split
          · rename_i made _ hfailed
            rw [hfailed] at habove
            exact habove
          · rename_i made habove'
            rw [habove'] at habove
            split
            · rename_i both hboth
              exact habove.trans (addsDirectories_makeDirectory hboth)
            · split <;> exact habove
      · split <;> exact t.addsDirectories_refl

/-- Making directories adds directories and nothing else, also when it fails half way. -/
theorem addsDirectories_makeDirectories (t : FileTree) (path : String) :
    t.AddsDirectories (t.makeDirectories path).1 :=
  addsDirectories_makeDirectoriesFuel _ t path

section Write

variable {entry : FileEntry} (h : t.entryAt? p ≠ some .directory)

include h

/-- A step starts at a directory, so it does not depend on what is at another place. -/
theorem step_setAt {part : String} {r : Place} (hr : t.step q part = .ok r) :
    (t.setAt p entry).step q part = .ok r := by
  have hq : t.entryAt? q = some .directory := by
    unfold step at hr
    split at hr
    · cases hr
    · cases hr
    · assumption
  have hpq : p ≠ q := fun he => h (he ▸ hq)
  unfold step at hr ⊢
  rw [entryAt?_setAt_of_ne entry hpq]
  exact hr

theorem follow_setAt {parts : List String} {r : Place} (hr : t.follow q parts = .ok r) :
    (t.setAt p entry).follow q parts = .ok r := by
  induction parts generalizing q with
  | nil => exact hr
  | cons part rest ih =>
    unfold follow at hr ⊢
    cases hs : t.step q part with
    | error e =>
      rw [hs] at hr
      cases hr
    | ok next =>
      rw [hs] at hr
      rw [step_setAt h hs]
      exact ih hr

theorem locate_setAt {r : Place} (hr : t.locate path = .ok r) :
    (t.setAt p entry).locate path = .ok r := by
  unfold locate locateParts at hr ⊢
  split at hr
  · cases hr
  · rename_i hnul
    split at hr
    · cases hr
    · rename_i hempty
      split at hr
      · cases hr
      · rename_i hlong
        rw [if_neg hnul, if_neg hempty, if_neg hlong]
        split at hr
        · rename_i habsolute
          rw [if_pos habsolute]
          exact follow_setAt h hr
        · rename_i hrelative
          rw [if_neg hrelative]
          exact follow_setAt h hr

end Write

/-- A file is written at the place to which its path leads. -/
theorem exists_of_writeFile {bytes : ByteArray} {written : FileTree}
    (h : t.writeFile path bytes = .ok written) :
    ∃ p, t.locate path = .ok p ∧ t.entryAt? p ≠ some .directory ∧
      written = t.setAt p (.file bytes) := by
  unfold writeFile at h
  dsimp only at h
  split at h
  · split at h <;> cases h
  · split at h
    · cases h
    · rename_i p hlocate
      split at h
      · cases h
      · rename_i hentry
        cases h
        exact ⟨p, hlocate, hentry, rfl⟩

/-- The second tree is the first one with a text in the file at a path, and with directories where
there was nothing. -/
structure Holds (before after : FileTree) (path text : String) : Prop where
  text_eq : after.readText path = .ok text
  others : ∃ place, after.locate path = .ok place ∧ before.entryAt? place ≠ some .directory ∧
    ∀ p, p ≠ place → before.KeepsOrMakes after p

/-- A text that is written after some directories were made is found under its path. -/
theorem holds_of_writeFile {ready written : FileTree} {text : String}
    (hready : t.AddsDirectories ready) (h : ready.writeFile path text.toUTF8 = .ok written) :
    t.Holds written path text := by
  obtain ⟨p, hlocate, hentry, rfl⟩ := exists_of_writeFile h
  have hfound : (ready.setAt p (.file text.toUTF8)).locate path = .ok p :=
    locate_setAt hentry hlocate
  constructor
  · have hlookup : (ready.setAt p (.file text.toUTF8)).lookup path = .ok (.file text.toUTF8) := by
      rw [lookup, hfound]
      simp only [entryAt?_setAt_self _ hentry]
    have hbytes : String.fromUTF8? text.toUTF8 = some text := dif_pos text.isValidUTF8
    rw [readText, hlookup]
    simp only [hbytes]
  · refine ⟨p, hfound, fun hbefore => ?_, fun q hq => ?_⟩
    · rcases hready p with hkept | ⟨hnone, _⟩
      · exact hentry (hkept.trans hbefore)
      · rw [hbefore] at hnone
        cases hnone
    · unfold KeepsOrMakes
      rw [entryAt?_setAt_of_ne _ hq.symm]
      exact hready q

end Endpoints.FileTree
