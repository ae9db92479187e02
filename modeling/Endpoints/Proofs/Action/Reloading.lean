import Endpoints.Content.Equality
import Endpoints.Json.Writer
import Endpoints.Proofs.Action.Targets
import Endpoints.Proofs.Source.Fragments
import Endpoints.Proofs.Yaml.PlainReading

/-!
# Route tables are loaded again

What a document shows of the actions of a route table is loaded as the same actions. The values are
of four kinds that no document confuses, the keys of an action are distinct, and a target that was
loaded holds no dot but the one that is written between its parts.
-/

namespace Endpoints

open Yaml (Reads Yields Located)
open Yaml.Located

theorem AnnotationValue.ofContent?_content (v : AnnotationValue) :
    ofContent? v.content = some v := by
  cases v with
  | bool | float | text => rfl
  | int n =>
    have hrange : isInRange n.toInt = true := by
      rw [isInRange, Bool.and_eq_true, decide_eq_true_iff, decide_eq_true_iff]
      exact ⟨n.minValue_le_toInt, n.toInt_le⟩
    rw [content, ofContent?, if_pos hrange, Int64.ofInt_toInt]

namespace Action

variable {x : Located} {cost : Nat}

theorem reads_value {v : AnnotationValue} (h : Reads (x.content valueDepth) v.content cost) :
    Reads (readValue x) v cost :=
  h.bind_liftM v.ofContent?_content

def valuesContent (values : List AnnotationValue) : Content :=
  .list (values.map AnnotationValue.content)

theorem reads_annotations {annotations : Table String (List AnnotationValue)}
    (h : Reads (x.content 2)
      (.record (annotations.toList.map fun (key, values) => (key, valuesContent values))) cost) :
    Reads (readAnnotations x) annotations cost := by
  rw [← Overlay.ofList_toList annotations]
  refine reads_table h fun y e _ c hy => ?_
  exact reads_list hy fun z v _ d hz => reads_value hz

theorem reads_target {t : Target} (ht : t.IsDotFree) {above : Nat}
    (h : Reads (x.content above) (.text t.text) cost) : Reads (readTarget x) t cost :=
  (reads_text h).bind_liftM (t.ofText?_text_iff.2 ht)

theorem reads_action {a : Action} (ht : a.target.IsDotFree)
    (h : Reads (x.content 1) a.content cost) : Reads (Action.read x) a cost := by
  have hfields : ∃ values c₁ c₂, cost = c₁ + c₂ ∧ Reads (x.fields fieldNames) values c₁ ∧
      HaveContents 2 values _ c₂ := exists_fields (by simp [fieldNames]) (by simp) h
  obtain ⟨values, c₁, c₂, rfl, hfields, hhave⟩ := hfields
  obtain _ | ⟨htarget, _ | ⟨hroutes, _ | ⟨hannotations, _ | _⟩⟩⟩ := hhave
  refine hfields.bind ((reads_target ht htarget).bind ?_)
  have hlist : Reads (Yaml.Located.list Yaml.Located.text _) a.routes _ :=
    reads_list hroutes fun _ _ _ _ hy => reads_text hy
  exact hlist.bind ((reads_annotations hannotations).bind (Yaml.reads_pure a))

theorem yields_readTarget (x : Located) : Yields (readTarget x) Target.IsDotFree :=
  (Yaml.yields_true x.text).bind fun _ _ =>
    Yaml.yields_lift fun _ h => Target.isDotFree_of_ofText? h

theorem yields_read (x : Located) : Yields (Action.read x) fun a => a.target.IsDotFree := by
  refine (Yaml.yields_true (x.fields fieldNames)).bind fun fields _ => ?_
  refine Yields.bind (Yields.field yields_readTarget) fun target ht => ?_
  refine (Yaml.yields_true _).bind fun routes _ => ?_
  refine (Yaml.yields_true _).bind fun annotations _ => ?_
  exact Yaml.yields_pure ht

end Action

namespace RouteTable

theorem isDotFree_of_load {files : FileTree} {path : String} {actions : List Action}
    (h : load files path = .ok actions) : ∀ a ∈ actions, a.target.IsDotFree :=
  readSource_ok (fun x => Yields.list Action.yields_read x) h

theorem reads_actions {x : Located} {cost : Nat} {actions : List Action}
    (ht : ∀ a ∈ actions, a.target.IsDotFree)
    (h : Reads (x.content 0) (content actions) cost) : Reads (read x) actions cost :=
  reads_list h fun _ a ha _ hy => Action.reads_action (ht a ha) hy

/-- The actions of a route table are loaded again from every file that holds what a document shows
of them: the same targets, whatever stood behind their functions, the same routes and keys in
order, and each value with its kind. -/
theorem load_of_shown {files : FileTree} {path : String} {actions : List Action}
    (h : load files path = .ok actions) {files' : FileTree} {path' : String}
    (hshown : readSource files' path' (Located.content 0) = .ok (content actions)) :
    load files' path' = .ok actions := by
  refine readSource_of_readSource (fun x before after hx => ?_) hshown
  obtain ⟨cost, rfl, hreads⟩ := steady_content 0 x before _ after hx
  exact ⟨after, reads_actions (isDotFree_of_load h) hreads after⟩

def kindsTable : FileTree :=
  FileTree.empty.plant "routes.yml" ("- action: Users.show.all\n  routes: [GET/users]\n" ++
    "  annotations: \x7btags: [true, 3, 1.5, '3']\x7d").toUTF8

def dumped (actions : List Action) : FileTree :=
  FileTree.empty.plant "dump.json" (Json.compact (content actions)).toUTF8

theorem load_of_shown_kinds :
    ∃ actions, load kindsTable "routes.yml" = .ok actions ∧
      (actions.flatMap Action.attached).map (fun pair => pair.2.kind) =
        ["bool", "int", "float", "text"] ∧
      readSource (dumped actions) "dump.json" (Located.content 0) = .ok (content actions) ∧
      load (dumped actions) "dump.json" = .ok actions := by
  have hrun : ((load kindsTable "routes.yml").toOption.any fun actions =>
      (actions.flatMap Action.attached).map (fun pair => pair.2.kind) =
          ["bool", "int", "float", "text"] ∧
        readSource (dumped actions) "dump.json" (Located.content 0) = .ok (content actions)) =
      true := by
    decide +kernel
  obtain ⟨actions, hloaded, hchecked⟩ := (Option.any_eq_true _ _).1 hrun
  obtain ⟨hkinds, hshown⟩ := of_decide_eq_true hchecked
  have h := ok_of_toOption hloaded
  exact ⟨actions, h, hkinds, hshown, load_of_shown h hshown⟩

end RouteTable

end Endpoints
