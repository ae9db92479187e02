import Endpoints.Proofs.Operation.Models
import Mathlib.Data.List.Nodup

/-!
# Counting the operations of a model

A model counts one operation for each pair of a path and a method that it knows. So after some
registrations it counts as many paths as differ among them, and as many operations as pairs of a
path and a method differ.
-/

namespace Endpoints.Model

def pairs (m : Model) : List (String × HttpMethod) :=
  m.toList.flatMap fun (path, methods) => methods.keys.map fun method => (path, method)

theorem length_pairs (m : Model) : m.pairs.length = m.operationCount := by
  have hlengths : m.values.map (fun methods => methods.toList.length) =
      m.toList.map fun (_, methods) => (methods.keys).length := by
    rw [Table.values, List.map_map]
    exact List.map_congr_left fun e _ => (List.length_map _).symm
  rw [operationCount, hlengths, pairs, List.length_flatMap]
  simp only [List.length_map]
  rfl

theorem mem_pairs_iff (m : Model) (path : String) (method : HttpMethod) :
    (path, method) ∈ m.pairs ↔ (m.operation? path method).isSome := by
  constructor
  · intro h
    obtain ⟨⟨_, methods⟩, hpath, hmethod⟩ := List.mem_flatMap.1 h
    obtain ⟨_, hkey, hpair⟩ := List.mem_map.1 hmethod
    cases hpair
    obtain ⟨⟨_, o⟩, ho, rfl⟩ := List.mem_map.1 hkey
    rw [operation?, Table.get?_of_mem hpath, Option.bind_some, Table.get?_of_mem ho]
    rfl
  · intro h
    obtain ⟨o, ho⟩ := Option.isSome_iff_exists.1 h
    obtain ⟨methods, hpath, hmethod⟩ := Option.bind_eq_some_iff.1 ho
    refine List.mem_flatMap.2 ⟨(path, methods), Table.mem_of_get? hpath, ?_⟩
    exact List.mem_map.2 ⟨method, List.mem_map_of_mem (Table.mem_of_get? hmethod), rfl⟩

theorem nodup_pairs (m : Model) : m.pairs.Nodup := by
  refine List.nodup_flatMap.2 ⟨fun e _ => ?_, ?_⟩
  · exact List.Nodup.map (fun _ _ h => (Prod.mk.inj h).2) e.2.nodup
  · -- Pairs of different paths differ.
    have hpaths : m.toList.Pairwise fun e f => e.1 ≠ f.1 := List.pairwise_map.1 m.nodup
    refine hpaths.imp fun hne pair he hf => ?_
    obtain ⟨_, _, rfl⟩ := List.mem_map.1 he
    obtain ⟨_, _, hpair⟩ := List.mem_map.1 hf
    exact hne (Prod.mk.inj hpair).1.symm

section Registrations

variable {ι : Type} (path : ι → String) (operation : ι → Operation)

theorem isSome_operation?_registerAll (xs : List ι) (p : String) (method : HttpMethod) :
    ((registerAll path operation Overlay.empty xs).operation? p method).isSome ↔
      (p, method) ∈ xs.map fun x => (path x, (operation x).method) := by
  rw [(isOverlayOf_registerAll path operation xs).isSome_iff]
  simp [operation?_single, Option.isSome_iff_exists]

/-- After some registrations there are as many operations as different pairs of a path and a
method. -/
theorem operationCount_registerAll (xs : List ι) :
    (registerAll path operation Overlay.empty xs).operationCount =
      (xs.map fun x => (path x, (operation x).method)).eraseDups.length := by
  rw [← length_pairs]
  apply List.Perm.length_eq
  rw [List.perm_ext_iff_of_nodup (nodup_pairs _) (nodup_eraseDups _)]
  rintro ⟨p, method⟩
  rw [mem_pairs_iff, isSome_operation?_registerAll, List.mem_eraseDups]

theorem length_registerAll (xs : List ι) :
    (registerAll path operation Overlay.empty xs).toList.length =
      (xs.map path).eraseDups.length := by
  have hkeys := (isOverlayOf_registerAll path operation xs).keys_eq
  have hsingle : (xs.map fun x => single (path x) (operation x)).flatMap Table.keys =
      xs.map path := by
    rw [List.flatMap_map, List.map_eq_flatMap]
    exact List.flatMap_congr fun x _ => keys_single (path x) (operation x)
  rw [hsingle] at hkeys
  rw [← hkeys, Table.keys, List.length_map]

end Registrations

end Endpoints.Model
