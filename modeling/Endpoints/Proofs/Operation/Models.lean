import Endpoints.Operation
import Endpoints.Proofs.Overlay.Layers

/-!
# Models as overlays of registrations

A model is seen through its paths in order, the methods of each path in order, and the operation
of each path and method. Registering an operation sets one operation and adds its path and its
method at the end where they are new.
-/

namespace Endpoints.Model

def operation? (m : Model) (path : String) (method : HttpMethod) : Option Operation :=
  (m.get? path).bind fun methods => methods.get? method

def methods (m : Model) (path : String) : List HttpMethod :=
  ((m.get? path).getD Overlay.empty).keys

def single (path : String) (o : Operation) : Model := register Overlay.empty path o

/-- A model is the ordered overlay of others: it has the operations that one of them has, each
time that of the last one, with paths and methods in the order in which they first occur. -/
structure IsOverlayOf (m : Model) (parts : List Model) : Prop where
  isSome_iff : ∀ path method, (m.operation? path method).isSome ↔
    ∃ part ∈ parts, (part.operation? path method).isSome
  last_wins : ∀ path method, m.operation? path method =
    (parts.filterMap fun part => part.operation? path method).getLast?
  keys_eq : m.keys = (parts.flatMap fun part => part.keys).eraseDups
  methods_eq : ∀ path, m.methods path = (parts.flatMap fun part => part.methods path).eraseDups

@[simp] theorem operation?_empty (path : String) (method : HttpMethod) :
    operation? Overlay.empty path method = none := rfl

@[simp] theorem methods_empty (path : String) : methods Overlay.empty path = [] := rfl

theorem nodup_keys (m : Model) : m.keys.Nodup := m.nodup

theorem nodup_methods (m : Model) (path : String) : (m.methods path).Nodup :=
  ((m.get? path).getD Overlay.empty).nodup

theorem operation?_register (m : Model) (path : String) (o : Operation) (path' : String)
    (method : HttpMethod) :
    (m.register path o).operation? path' method =
      if path = path' ∧ o.method = method then some o else m.operation? path' method := by
  simp only [operation?, register, Table.get?_set]
  by_cases hp : path = path'
  · subst hp
    cases hg : m.get? path with
    | none => simp [Table.get?_set]
    | some found => simp [Table.get?_set]
  · simp [hp]

theorem keys_register (m : Model) (path : String) (o : Operation) :
    (m.register path o).keys = (m.keys ++ [path]).eraseDups :=
  Table.keys_set m path _

theorem methods_register (m : Model) (path : String) (o : Operation) (path' : String) :
    (m.register path o).methods path' =
      if path = path' then (m.methods path' ++ [o.method]).eraseDups else m.methods path' := by
  simp only [methods, register, Table.get?_set]
  by_cases hp : path = path'
  · subst hp
    simp [Table.keys_set]
  · simp [hp]

theorem operation?_single (path : String) (o : Operation) (path' : String) (method : HttpMethod) :
    (single path o).operation? path' method =
      if path = path' ∧ o.method = method then some o else none := by
  rw [single, operation?_register, operation?_empty]

theorem keys_single (path : String) (o : Operation) : (single path o).keys = [path] := by
  rw [single, keys_register]
  rfl

theorem methods_single (path : String) (o : Operation) (path' : String) :
    (single path o).methods path' = if path = path' then [o.method] else [] := by
  rw [single, methods_register, methods_empty]
  rfl

section Registrations

variable {ι : Type} (path : ι → String) (operation : ι → Operation)

def registerAll (m : Model) (xs : List ι) : Model :=
  xs.foldl (fun m x => m.register (path x) (operation x)) m

theorem operation?_registerAll (m : Model) (xs : List ι) (p : String) (method : HttpMethod) :
    (registerAll path operation m xs).operation? p method =
      ((xs.filterMap fun x => (single (path x) (operation x)).operation? p method).getLast?).or
        (m.operation? p method) := by
  induction xs generalizing m with
  | nil => simp [registerAll]
  | cons x rest ih =>
    have hx := ih (m.register (path x) (operation x))
    rw [operation?_register] at hx
    simp only [registerAll, List.foldl_cons] at hx ⊢
    rw [hx, List.filterMap_cons, operation?_single]
    split
    · rw [List.getLast?_cons]
      cases (rest.filterMap fun x =>
        (single (path x) (operation x)).operation? p method).getLast? <;> rfl
    · rfl

theorem keys_registerAll (m : Model) (xs : List ι) :
    (registerAll path operation m xs).keys =
      (m.keys ++ xs.flatMap fun x => (single (path x) (operation x)).keys).eraseDups := by
  induction xs generalizing m with
  | nil => simp [registerAll, eraseDups_of_nodup m.nodup_keys]
  | cons x rest ih =>
    have hx := ih (m.register (path x) (operation x))
    simp only [registerAll, List.foldl_cons] at hx ⊢
    rw [hx, keys_register, eraseDups_append_left, List.flatMap_cons, keys_single,
      List.append_assoc]

theorem methods_registerAll (m : Model) (xs : List ι) (p : String) :
    (registerAll path operation m xs).methods p =
      (m.methods p ++
        xs.flatMap fun x => (single (path x) (operation x)).methods p).eraseDups := by
  induction xs generalizing m with
  | nil => simp [registerAll, eraseDups_of_nodup (m.nodup_methods p)]
  | cons x rest ih =>
    have hx := ih (m.register (path x) (operation x))
    simp only [registerAll, List.foldl_cons] at hx ⊢
    rw [hx, methods_register, List.flatMap_cons, methods_single]
    split
    · rw [eraseDups_append_left, List.append_assoc]
    · rfl

/-- Registering operations one after the other is overlaying the models of one registration. -/
theorem isOverlayOf_registerAll (xs : List ι) :
    (registerAll path operation Overlay.empty xs).IsOverlayOf
      (xs.map fun x => single (path x) (operation x)) := by
  have hlast : ∀ p method, (registerAll path operation Overlay.empty xs).operation? p method =
      ((xs.map fun x => single (path x) (operation x)).filterMap
        fun part => part.operation? p method).getLast? := by
    intro p method
    rw [operation?_registerAll, operation?_empty, Option.or_none, List.filterMap_map]
    rfl
  constructor
  · intro p method
    rw [hlast]
    simp [Option.isSome_iff_ne_none]
  · exact hlast
  · rw [keys_registerAll, List.flatMap_map]
    rfl
  · intro p
    rw [methods_registerAll, List.flatMap_map]
    rfl

end Registrations

end Endpoints.Model
