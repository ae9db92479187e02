import Endpoints.Proofs.Yaml.Readings

/-!
# From plain data to forms

A node that is read as plain data is read in the form that the data has: as a text if it is one,
as a list or a table of what its items are read as, and as a record of fields. In each form as many
references are followed as for the plain data.
-/

namespace Endpoints.Yaml

variable {anchored : Nat → Option Node}

namespace Node

def entryWithin (anchored : Nat → Option Node) (depth : Nat) (entry : Node × Node) :
    Budgeted (Content × Content) := do
  let key ← contentWithin anchored depth entry.1
  let value ← contentWithin anchored depth entry.2
  pure (key, value)

def targetContent (anchored : Nat → Option Node) : Nat → Node → Budgeted Content
  | _, .scalar s => pure s.content
  | depth + 1, .sequence tag items => do
      let contents ← items.mapM (contentWithin anchored depth)
      pure (tagContent tag (.list contents))
  | depth + 1, .mapping tag entries => do
      let contents ← entries.mapM (entryWithin anchored depth)
      pure (tagContent tag (.map contents))
  | _, _ => failure

theorem contentWithin_eq (depth : Nat) (node : Node) :
    node.contentWithin anchored depth = node.follow anchored >>= targetContent anchored depth := by
  cases depth with
  | zero =>
    rw [contentWithin]
    congr 1
    funext target
    cases target <;> rfl
  | succ depth =>
    rw [contentWithin]
    congr 1
    funext target
    cases target <;> rfl

theorem steady_follow (node : Node) : Steady (node.follow anchored) := by
  cases node with
  | reference n =>
    intro before target after h
    cases before with
    | zero => cases h
    | succ before =>
      obtain ⟨found, hfound, hpair⟩ := Option.map_eq_some_iff.1 h
      cases hpair
      refine ⟨1, rfl, fun left => ?_⟩
      simp [follow, hfound]
  | scalar | sequence | mapping => exact steady_pure _

theorem steady_targetContent {depth : Nat}
    (h : ∀ d, depth = d + 1 → ∀ node : Node, Steady (node.contentWithin anchored d))
    (target : Node) : Steady (target.targetContent anchored depth) := by
  cases depth with
  | zero => cases target <;> first | exact steady_pure _ | exact steady_failure
  | succ d =>
    have hd := h d rfl
    cases target with
    | reference => exact steady_failure
    | scalar => exact steady_pure _
    | sequence tag items => exact (Steady.mapM hd items).bind fun _ => steady_pure _
    | mapping tag entries =>
      refine (Steady.mapM (fun e => ?_) entries).bind fun _ => steady_pure _
      exact (hd e.1).bind fun _ => (hd e.2).bind fun _ => steady_pure _

theorem steady_contentWithin (depth : Nat) (node : Node) :
    Steady (node.contentWithin anchored depth) := by
  induction depth generalizing node with
  | zero =>
    rw [contentWithin_eq]
    exact (steady_follow node).bind (steady_targetContent fun _ h => nomatch h)
  | succ depth ih =>
    rw [contentWithin_eq]
    exact (steady_follow node).bind (steady_targetContent fun _ h => Nat.succ.inj h ▸ ih)

theorem steady_entryWithin (depth : Nat) (entry : Node × Node) :
    Steady (entryWithin anchored depth entry) :=
  (steady_contentWithin depth entry.1).bind fun _ =>
    (steady_contentWithin depth entry.2).bind fun _ => steady_pure _

/-- A node with some content leads to a scalar that stands for it, or to a collection whose items
have the contents in it. -/
theorem exists_target {depth : Nat} {node : Node} {c : Content} {cost : Nat}
    (h : Reads (node.contentWithin anchored depth) c cost) :
    ∃ target c₁ c₂, cost = c₁ + c₂ ∧ Reads (node.follow anchored) target c₁ ∧
      ((∃ s, target = .scalar s ∧ c = s.content ∧ c₂ = 0) ∨
        (∃ d tag items cs, depth = d + 1 ∧ target = .sequence tag items ∧
          c = tagContent tag (.list cs) ∧ Reads (items.mapM (contentWithin anchored d)) cs c₂) ∨
        (∃ d tag entries es, depth = d + 1 ∧ target = .mapping tag entries ∧
          c = tagContent tag (.map es) ∧ Reads (entries.mapM (entryWithin anchored d)) es c₂)) := by
  rw [contentWithin_eq] at h
  obtain ⟨target, c₁, c₂, hcost, hfollow, hcontent⟩ := h.exists_of_bind (steady_follow node)
    (steady_targetContent fun d _ => steady_contentWithin d)
  refine ⟨target, c₁, c₂, hcost, hfollow, ?_⟩
  cases target with
  | reference => cases depth <;> cases hcontent 0
  | scalar s =>
    have hs : Reads (pure s.content) c c₂ := by cases depth <;> exact hcontent
    obtain ⟨rfl, rfl⟩ := hs.of_pure
    exact .inl ⟨s, rfl, rfl, rfl⟩
  | sequence tag items =>
    cases depth with
    | zero => cases hcontent 0
    | succ d =>
      obtain ⟨cs, a, b, rfl, hitems, hc⟩ := hcontent.exists_of_bind
        (Steady.mapM (steady_contentWithin d) items) fun _ => steady_pure _
      obtain ⟨rfl, rfl⟩ := hc.of_pure
      exact .inr (.inl ⟨d, tag, items, cs, rfl, rfl, rfl, hitems⟩)
  | mapping tag entries =>
    cases depth with
    | zero => cases hcontent 0
    | succ d =>
      obtain ⟨es, a, b, rfl, hentries, hc⟩ := hcontent.exists_of_bind
        (Steady.mapM (steady_entryWithin d) entries) fun _ => steady_pure _
      obtain ⟨rfl, rfl⟩ := hc.of_pure
      exact .inr (.inr ⟨d, tag, entries, es, rfl, rfl, rfl, hentries⟩)

theorem exists_scalar {depth : Nat} {node : Node} {t : String} {cost : Nat}
    (h : Reads (node.contentWithin anchored depth) (.text t) cost) :
    ∃ s : Scalar, s.text = t ∧ Reads (node.follow anchored) (.scalar s) cost := by
  obtain ⟨target, c₁, c₂, rfl, hfollow, hcontent⟩ := exists_target h
  rcases hcontent with ⟨s, rfl, hs, rfl⟩ | ⟨_, tag, _, _, _, _, hc, _⟩ | ⟨_, tag, _, _, _, _, hc, _⟩
  · have hspelled := s.spelled
    rw [← hs] at hspelled
    exact ⟨s, by simpa [isSpelledBy, eq_comm] using hspelled, hfollow⟩
  · cases tag <;> cases hc
  · cases tag <;> cases hc

theorem exists_sequence {depth : Nat} {node : Node} {cs : List Content} {cost : Nat}
    (h : Reads (node.contentWithin anchored depth) (.list cs) cost) :
    ∃ d tag items c₁ c₂, depth = d + 1 ∧ cost = c₁ + c₂ ∧
      Reads (node.follow anchored) (.sequence tag items) c₁ ∧
      Reads (items.mapM (contentWithin anchored d)) cs c₂ := by
  obtain ⟨target, c₁, c₂, hcost, hfollow, hcontent⟩ := exists_target h
  rcases hcontent with ⟨s, rfl, hs, rfl⟩ | ⟨d, tag, items, cs', hd, rfl, hc, hitems⟩ |
    ⟨_, tag, _, _, _, _, hc, _⟩
  · have hspelled := s.spelled
    rw [← hs] at hspelled
    cases hspelled
  · cases tag <;> cases hc
    exact ⟨d, none, items, c₁, c₂, hd, hcost, hfollow, hitems⟩
  · cases tag <;> cases hc

theorem exists_mapping {depth : Nat} {node : Node} {es : List (Content × Content)} {cost : Nat}
    (h : Reads (node.contentWithin anchored depth) (.map es) cost) :
    ∃ d tag entries c₁ c₂, depth = d + 1 ∧ cost = c₁ + c₂ ∧
      Reads (node.follow anchored) (.mapping tag entries) c₁ ∧
      Reads (entries.mapM (entryWithin anchored d)) es c₂ := by
  obtain ⟨target, c₁, c₂, hcost, hfollow, hcontent⟩ := exists_target h
  rcases hcontent with ⟨s, rfl, hs, rfl⟩ | ⟨_, tag, _, _, _, _, hc, _⟩ |
    ⟨d, tag, entries, es', hd, rfl, hc, hentries⟩
  · have hspelled := s.spelled
    rw [← hs] at hspelled
    cases hspelled
  · cases tag <;> cases hc
  · cases tag <;> cases hc
    exact ⟨d, none, entries, c₁, c₂, hd, hcost, hfollow, hentries⟩

end Node

namespace Located

variable {α : Type} {x : Located} {above cost : Nat}

theorem steady_content (above : Nat) (x : Located) : Steady (x.content above) :=
  Node.steady_contentWithin _ _

theorem reads_follow {target : Node} (h : Reads (x.node.follow x.document.anchored?) target cost) :
    Reads x.follow { x with node := target } cost :=
  h.map _

theorem reads_text {t : String} (h : Reads (x.content above) (.text t) cost) :
    Reads x.text t cost := by
  obtain ⟨s, rfl, hfollow⟩ := Node.exists_scalar h
  have hscalar : Reads x.scalar s cost := (reads_follow hfollow).bind (d := 0) (reads_pure s)
  exact hscalar.map Scalar.text

def entryContent (above : Nat) (entry : Located × Located) : Budgeted (Content × Content) := do
  let key ← entry.1.content above
  let value ← entry.2.content above
  pure (key, value)

theorem steady_entryContent (above : Nat) (entry : Located × Located) :
    Steady (entryContent above entry) :=
  (steady_content above entry.1).bind fun _ =>
    (steady_content above entry.2).bind fun _ => steady_pure _

theorem exists_items {cs : List Content} (h : Reads (x.content above) (.list cs) cost) :
    ∃ nodes c₁ c₂, cost = c₁ + c₂ ∧ Reads x.items nodes c₁ ∧
      Reads (nodes.mapM (content (above + 1))) cs c₂ := by
  obtain ⟨d, tag, items, c₁, c₂, hd, hcost, hfollow, hitems⟩ := Node.exists_sequence h
  obtain rfl : d = depthLimit - (above + 1) := by omega
  refine ⟨items.map fun node => { x with node }, c₁, c₂, hcost, ?_, ?_⟩
  · exact (reads_follow hfollow).bind (d := 0) (reads_pure _)
  · rw [List.mapM_map]
    exact hitems

theorem exists_entries {es : List (Content × Content)}
    (h : Reads (x.content above) (.map es) cost) :
    ∃ nodes c₁ c₂, cost = c₁ + c₂ ∧ Reads x.entries nodes c₁ ∧
      Reads (nodes.mapM (entryContent (above + 1))) es c₂ := by
  obtain ⟨d, tag, entries, c₁, c₂, hd, hcost, hfollow, hentries⟩ := Node.exists_mapping h
  obtain rfl : d = depthLimit - (above + 1) := by omega
  refine ⟨entries.map fun e => ({ x with node := e.1 }, { x with node := e.2 }), c₁, c₂, hcost,
    ?_, ?_⟩
  · exact (reads_follow hfollow).bind (d := 0) (reads_pure _)
  · rw [List.mapM_map]
    exact hentries

theorem reads_list {read : Located → Budgeted α} {shown : α → Content} {as : List α}
    (h : Reads (x.content above) (.list (as.map shown)) cost)
    (hread : ∀ y, ∀ a ∈ as, ∀ c, Reads (y.content (above + 1)) (shown a) c → Reads (read y) a c) :
    Reads (x.list read) as cost := by
  obtain ⟨nodes, c₁, c₂, rfl, hitems, hcontents⟩ := exists_items h
  exact hitems.bind (Reads.mapM_of (steady_content (above + 1)) hcontents hread)

theorem exists_of_entryContent {entry : Located × Located} {key value : Content}
    (h : Reads (entryContent above entry) (key, value) cost) :
    ∃ c₁ c₂, cost = c₁ + c₂ ∧ Reads (entry.1.content above) key c₁ ∧
      Reads (entry.2.content above) value c₂ := by
  obtain ⟨k, c₁, d, hcost, hkey, h⟩ := h.exists_of_bind (steady_content above entry.1) fun _ =>
    (steady_content above entry.2).bind fun _ => steady_pure _
  obtain ⟨v, c₂, c₃, hd, hvalue, h⟩ :=
    h.exists_of_bind (steady_content above entry.2) fun _ => steady_pure _
  obtain ⟨hpair, hc₃⟩ := h.of_pure
  cases hpair
  exact ⟨c₁, c₂, by omega, hkey, hvalue⟩

theorem reads_table {read : Located → Budgeted α} {shown : α → Content}
    {entries : List (String × α)}
    (h : Reads (x.content above) (.record (entries.map fun (key, a) => (key, shown a))) cost)
    (hread : ∀ y, ∀ e ∈ entries, ∀ c, Reads (y.content (above + 1)) (shown e.2) c →
      Reads (read y) e.2 c) : Reads (x.table read) (Overlay.ofList entries) cost := by
  rw [Content.record, List.map_map] at h
  obtain ⟨nodes, c₁, c₂, rfl, hentries, hcontents⟩ := exists_entries h
  have hpairs : Reads (nodes.mapM fun entry => do
      let key ← entry.1.text
      return (key, ← read entry.2)) entries c₂ := by
    refine Reads.mapM_of (steady_entryContent (above + 1)) hcontents fun entry e he c hentry => ?_
    obtain ⟨a, b, rfl, hkey, hvalue⟩ := exists_of_entryContent hentry
    exact (reads_text hkey).bind ((hread entry.2 e he b hvalue).map (e.1, ·))
  exact hentries.bind (hpairs.map Overlay.ofList)

/-- Nodes under names have the contents of fields, in their order, with a number of references in
all. -/
inductive HaveContents (above : Nat) :
    List (String × Located) → List (String × Content) → Nat → Prop where
  | nil : HaveContents above [] [] 0
  | cons {name : String} {y : Located} {c : Content} {values : List (String × Located)}
      {fields : List (String × Content)} {a b : Nat} (h : Reads (y.content above) c a)
      (rest : HaveContents above values fields b) :
      HaveContents above ((name, y) :: values) ((name, c) :: fields) (a + b)

theorem HaveContents.names_eq {values : List (String × Located)}
    {fields : List (String × Content)} (h : HaveContents above values fields cost) :
    values.map Prod.fst = fields.map Prod.fst := by
  induction h with
  | nil => rfl
  | cons _ _ ih => exact congrArg (_ :: ·) ih

theorem exists_fieldsOfEntries {names : List String} {nodes : List (Located × Located)}
    {fields : List (String × Content)} (hnames : ∀ f ∈ fields, f.1 ∈ names)
    (hnodup : (fields.map Prod.fst).Nodup)
    (h : Reads (nodes.mapM (entryContent above))
      (fields.map fun (key, value) => (.text key, value)) cost) :
    ∃ values c₁ c₂, cost = c₁ + c₂ ∧ Reads (fieldsOfEntries names nodes) values c₁ ∧
      HaveContents above values fields c₂ := by
  induction nodes generalizing fields cost with
  | nil =>
    obtain ⟨hfields, rfl⟩ := h.of_pure
    obtain rfl := List.map_eq_nil_iff.1 hfields
    exact ⟨[], 0, 0, rfl, reads_pure [], .nil⟩
  | cons node rest ih =>
    obtain ⟨key, value⟩ := node
    obtain ⟨_, _, c₁, c₂, hfields, rfl, hentry, hrest⟩ :=
      Reads.exists_of_mapM_cons (steady_entryContent above) h
    obtain ⟨⟨name, c⟩, others, rfl, rfl, rfl⟩ := List.map_eq_cons_iff.1 hfields
    obtain ⟨a, b, rfl, hkey, hvalue⟩ := exists_of_entryContent hentry
    obtain ⟨hname, hothers⟩ := List.forall_mem_cons.1 hnames
    obtain ⟨hnew, hdistinct⟩ := List.nodup_cons.1 hnodup
    obtain ⟨values, d, e, rfl, hread, hhave⟩ := ih hothers hdistinct hrest
    have hfirst : values.any (fun v => decide (v.1 = name)) = false := by
      rw [List.any_eq_false]
      intro v hv heq
      have hmem : v.1 ∈ values.map Prod.fst := List.mem_map_of_mem hv
      rw [hhave.names_eq, of_decide_eq_true heq] at hmem
      exact hnew hmem
    refine ⟨(name, value) :: values, a + d, b + e, by omega, ?_, .cons hvalue hhave⟩
    refine (reads_text hkey).bind (hread.bind (d := 0) ?_)
    rw [if_neg (not_not_intro hname), hfirst]
    exact reads_pure _

theorem exists_fields {names : List String} {fields : List (String × Content)}
    (hnames : ∀ f ∈ fields, f.1 ∈ names) (hnodup : (fields.map Prod.fst).Nodup)
    (h : Reads (x.content above) (.record fields) cost) :
    ∃ values c₁ c₂, cost = c₁ + c₂ ∧ Reads (x.fields names) values c₁ ∧
      HaveContents (above + 1) values fields c₂ := by
  obtain ⟨nodes, a, b, rfl, hentries, hcontents⟩ := exists_entries h
  obtain ⟨values, c, d, rfl, hread, hhave⟩ := exists_fieldsOfEntries hnames hnodup hcontents
  exact ⟨values, a + c, d, by omega, hentries.bind hread, hhave⟩

end Located

end Endpoints.Yaml
