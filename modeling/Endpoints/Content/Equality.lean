import Endpoints.Content

/-!
# Equality of content

Two values are equal when they are the same tree, with entries in the same order. This is finer
than being the same value of a document, and it can be decided.
-/

namespace Endpoints.Content

mutual

def isEqual : Content → Content → Bool
  | .null, .null => true
  | .bool a, .bool b => a = b
  | .int a, .int b => a = b
  | .minusZero, .minusZero => true
  | .float a, .float b => a = b
  | .text a, .text b => a = b
  | .list as, .list bs => areEqual as bs
  | .map as, .map bs => entriesAreEqual as bs
  | .tagged s a, .tagged t b => s = t && isEqual a b
  | .unreadable, .unreadable => true
  | _, _ => false

def areEqual : List Content → List Content → Bool
  | [], [] => true
  | a :: as, b :: bs => isEqual a b && areEqual as bs
  | _, _ => false

def entriesAreEqual : List (Content × Content) → List (Content × Content) → Bool
  | [], [] => true
  | (key, value) :: as, (k, v) :: bs => isEqual key k && isEqual value v && entriesAreEqual as bs
  | _, _ => false

end

mutual

theorem isEqual_iff (a b : Content) : isEqual a b = true ↔ a = b := by
  match a with
  | .list as => cases b <;> simp [isEqual, areEqual_iff as]
  | .map as => cases b <;> simp [isEqual, entriesAreEqual_iff as]
  | .tagged tag value => cases b <;> simp [isEqual, isEqual_iff value]
  | .null | .bool _ | .int _ | .minusZero | .float _ | .text _ | .unreadable =>
    cases b <;> simp [isEqual]

theorem areEqual_iff (as bs : List Content) : areEqual as bs = true ↔ as = bs := by
  match as with
  | [] => cases bs <;> simp [areEqual]
  | a :: as => cases bs <;> simp [areEqual, isEqual_iff a, areEqual_iff as]

theorem entriesAreEqual_iff (as bs : List (Content × Content)) :
    entriesAreEqual as bs = true ↔ as = bs := by
  match as with
  | [] => cases bs <;> simp [entriesAreEqual]
  | (key, value) :: as =>
    cases bs <;>
      simp [entriesAreEqual, isEqual_iff key, isEqual_iff value, entriesAreEqual_iff as,
        Prod.ext_iff]

end

instance : DecidableEq Content := fun a b => decidable_of_iff _ (isEqual_iff a b)

end Endpoints.Content
