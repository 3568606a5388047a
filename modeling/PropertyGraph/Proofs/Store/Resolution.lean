import PropertyGraph.Proofs.Store.Selection
import PropertyGraph.Proofs.Store.Uniform

namespace PropertyGraph

namespace NodeValues

variable {values : NodeValues} {parts : List LabelPart} {n : Nat}

-- What is read of a node: a whole number and a floating-point number, if there are any.
def read (values : NodeValues) (v : Nat) : Except Fault (Option Int) × Except Fault (Option Float) :=
  (values.long? v, values.double? v)

-- What is read where a node has no value.
def absent : Except Fault (Option Int) × Except Fault (Option Float) := (.ok none, .ok none)

theorem read_ofParts (h : ofParts n parts = .ok values) (v : Nat) :
    values.read v = ((parts.find? (·.has v)).map (·.values.read v)).getD absent := by
  cases parts with
  | nil => cases h
  | cons first rest =>
    simp only [ofParts] at h
    split at h
    case h_1 => cases h
    case h_2 =>
      rw [← Except.ok.inj h]
      simp only [read, partFor?]
      cases (first :: rest).find? (·.has v) <;> rfl

theorem read_through (values : NodeValues) {sub : Subset} {v root : Nat} (h : sub.toRoot v = .ok root) :
    (values.through sub).read v = values.read root := by
  simp only [read, through, h, Outcome.ok_bind]

end NodeValues

-- Labels are listed by their names, each once.
theorem Catalog.labelsStoring_ascending (c : Catalog) (key : String) :
    (c.labelsStoring key).Pairwise (·.name < ·.name) :=
  List.pairwise_map.mpr (c.nodeProperties.sorted.filter _)

theorem Catalog.labelsStoring_eq_singleton {c : Catalog} {l : Label} {key : String}
    (h : ∀ l', (∃ p, c.nodeProperty? l' key = some p) ↔ l' = l) : c.labelsStoring key = [l] := by
  have hn : (c.labelsStoring key).Nodup :=
    (c.labelsStoring_ascending key).imp fun hlt => ne_of_apply_ne Label.name (String.ne_of_lt hlt)
  refine List.perm_singleton.mp ((List.perm_ext_iff_of_nodup hn (List.nodup_singleton l)).mpr fun l' => ?_)
  rw [mem_labelsStoring, List.mem_singleton]
  exact h l'

namespace Store

variable {s s' : Store} {ls : List Label} {l : Label} {key : String} {p : NodeProperty} {values roots : NodeValues}
  {view : View} {choices : List Choice} {subset : Option Subset}

-- The labels of a list that store a key, as often as they are listed.
def storing (s : Store) (ls : List Label) (key : String) : List Label :=
  ls.filter fun l => (s.catalog.nodeProperty? l key).isSome

-- The first label of a list that both stores a key and has a node.
def holder? (s : Store) (ls : List Label) (key : String) (v : Nat) : Option Label :=
  ls.find? fun l => (s.catalog.nodeProperty? l key).isSome && decide (l ∈ s.nodes.labelsOf v)

-- Values that are read of the nodes of a store under a key over some labels.
structure Resolves (s : Store) (ls : List Label) (key : String) (values : NodeValues) : Prop where
  held : ∀ v l, s.holder? ls key v = some l →
    ∃ p, s.catalog.nodeProperty? l key = some p ∧ values.read v = p.values.read v
  several : 2 ≤ (s.storing ls key).length → ∀ v, s.holder? ls key v = none → values.read v = NodeValues.absent
  alone : ∀ l, s.storing ls key = [l] → ∃ p, s.catalog.nodeProperty? l key = some p ∧ values = p.values

section Parts

-- What a label contributes, if it stores the key.
def partOfLabel? (s : Store) (key : String) (l : Label) : Option NodeValues.LabelPart :=
  (s.catalog.nodeProperty? l key).map fun p => ⟨l, (s.nodes.members l).contains, p.values⟩

theorem resolveNodeProperty_eq_some (h : s.resolveNodeProperty ls key = .ok (some values)) :
    (∃ part, ls.filterMap (s.partOfLabel? key) = [part] ∧ values = part.values) ∨
      2 ≤ (ls.filterMap (s.partOfLabel? key)).length ∧
        NodeValues.ofParts s.nodeCount (ls.filterMap (s.partOfLabel? key)) = .ok values := by
  rw [resolveNodeProperty] at h
  generalize hparts : ls.filterMap _ = parts at h
  change ls.filterMap (s.partOfLabel? key) = parts at hparts
  rw [hparts]
  cases parts with
  | nil => cases h
  | cons part rest =>
    cases rest with
    | nil => exact .inl ⟨part, rfl, (Option.some.inj (Except.ok.inj h)).symm⟩
    | cons part' rest =>
      refine .inr ⟨Nat.le_add_left 2 _, ?_⟩
      cases hr : NodeValues.ofParts s.nodeCount (part :: part' :: rest)
      case error => simp [hr, Except.map] at h
      case ok => simpa [hr, Except.map] using h

theorem find?_filterMap_partOfLabel? (s : Store) (ls : List Label) (key : String) (v : Nat) :
    (ls.filterMap (s.partOfLabel? key)).find? (·.has v) = (s.holder? ls key v).bind (s.partOfLabel? key) := by
  rw [List.find?_filterMap, holder?]
  congr 2
  funext l
  rw [partOfLabel?]
  cases s.catalog.nodeProperty? l key
  case none => rfl
  case some => simp [IdMap.mem_labelsOf]

theorem filterMap_partOfLabel? (s : Store) (ls : List Label) (key : String) :
    ls.filterMap (s.partOfLabel? key) = (s.storing ls key).filterMap (s.partOfLabel? key) := by
  rw [storing, List.filterMap_filter]
  refine List.filterMap_congr fun l _ => ?_
  rw [partOfLabel?]
  cases s.catalog.nodeProperty? l key <;> rfl

theorem length_filterMap_partOfLabel? (s : Store) (ls : List Label) (key : String) :
    (ls.filterMap (s.partOfLabel? key)).length = (s.storing ls key).length := by
  rw [filterMap_partOfLabel?, List.filterMap_length_eq_length]
  intro l hl
  rw [partOfLabel?, Option.isSome_map]
  exact (List.mem_filter.mp hl).right

theorem exists_of_partOfLabel? {part : NodeValues.LabelPart} (h : s.partOfLabel? key l = some part) :
    ∃ p, s.catalog.nodeProperty? l key = some p ∧ part.values = p.values := by
  have ⟨p, hp, he⟩ := Option.map_eq_some_iff.mp h
  exact ⟨p, hp, he ▸ rfl⟩

theorem exists_partOfLabel?_of_holder? {v : Nat} (h : s.holder? ls key v = some l) :
    ∃ part, s.partOfLabel? key l = some part := by
  have hs := List.find?_some h
  rw [Bool.and_eq_true] at hs
  have ⟨p, hp⟩ := Option.isSome_iff_exists.mp hs.left
  exact ⟨_, Option.map_eq_some_iff.mpr ⟨p, hp, rfl⟩⟩

end Parts

theorem resolves_of_resolveNodeProperty (h : s.resolveNodeProperty ls key = .ok (some values)) :
    s.Resolves ls key values := by
  have hcases := resolveNodeProperty_eq_some h
  refine ⟨fun v l hl => ?held, fun hlen v hnone => ?several, fun l hl => ?alone⟩
  case held =>
    have ⟨part, hpart⟩ := exists_partOfLabel?_of_holder? hl
    have hfind : (ls.filterMap (s.partOfLabel? key)).find? (·.has v) = some part := by
      rw [find?_filterMap_partOfLabel?, hl, Option.bind_some, hpart]
    have ⟨p, hp, hv⟩ := exists_of_partOfLabel? hpart
    refine ⟨p, hp, hv ▸ ?_⟩
    cases hcases
    case inl hone =>
      have ⟨part', hparts, he⟩ := hone
      rw [hparts] at hfind
      exact he ▸ List.mem_singleton.mp (List.mem_of_find?_eq_some hfind) ▸ rfl
    case inr hmany => rw [NodeValues.read_ofParts hmany.right, hfind]; rfl
  case several =>
    rw [← length_filterMap_partOfLabel?] at hlen
    cases hcases
    case inl hone =>
      have ⟨part, hparts, _⟩ := hone
      simp [hparts] at hlen
    case inr hmany => rw [NodeValues.read_ofParts hmany.right, find?_filterMap_partOfLabel?, hnone]; rfl
  case alone =>
    cases hcases
    case inl hone =>
      have ⟨part, hparts, he⟩ := hone
      have hpart : part ∈ ls.filterMap (s.partOfLabel? key) := hparts ▸ List.mem_singleton_self part
      rw [filterMap_partOfLabel?, hl, List.mem_filterMap] at hpart
      have ⟨l', hl', hpart⟩ := hpart
      have ⟨p, hp, hv⟩ := exists_of_partOfLabel? hpart
      exact ⟨p, List.mem_singleton.mp hl' ▸ hp, he.trans hv⟩
    case inr hmany =>
      have hlen := hmany.left
      rw [length_filterMap_partOfLabel?, hl] at hlen
      simp at hlen

theorem exists_resolves (h : Uniform s.catalog) (hl : l ∈ ls) (hp : s.catalog.nodeProperty? l key = some p) :
    ∃ values, s.resolveNodeProperty ls key = .ok (some values) := by
  have ⟨values?, hr⟩ := exists_resolveNodeProperty h ls key
  cases values?
  case none => exact absurd hr (resolveNodeProperty_ne_none hl hp)
  case some values => exact ⟨values, hr⟩

-- A key that a label stores can be taken from it.
theorem mutate_removeNodeProperty (hl : s.nodes.hasLabel l = true) (hp : s.catalog.nodeProperty? l key = some p) :
    s.mutate (.removeNodeProperty l key) = s.commit .removeNodeProperty (s.catalog.removeNodeProperty l key) := by
  rw [mutate, answer, removeNodeProperty_of_stored hl hp]

section Views

variable {views views' : NameMap String NodeValues}

-- Adds what is read under one more key.
def addView (s : Store) (ls : List Label) (views : NameMap String NodeValues) (key : String) :
    Except Fault (NameMap String NodeValues) := do
  match ← s.resolveNodeProperty ls key with
  | some values => return views.insert key values
  | none => return views

theorem find?_foldlM_addView (hr : s.resolveNodeProperty ls key = .ok (some values)) {keys : List String}
    (h : keys.foldlM (s.addView ls) views = .ok views') :
    views'.find? key = if key ∈ keys then some values else views.find? key := by
  induction keys generalizing views
  case nil => exact Except.ok.inj h ▸ rfl
  case cons key' keys hi =>
    have ⟨views₁, h₁, h⟩ := Outcome.bind_eq_ok.mp h
    rw [hi h]
    by_cases hk : key = key'
    case pos =>
      rw [addView, ← hk, hr] at h₁
      have h₁ : views.insert key values = views₁ := Except.ok.inj h₁
      rw [← h₁, NameMap.find?_insert_self, ite_self, if_pos (hk ▸ List.mem_cons_self)]
    case neg =>
      have hsame : views₁.find? key = views.find? key := by
        have ⟨values?, _, h₁⟩ := Outcome.bind_eq_ok.mp h₁
        cases values? <;> have h₁ := Except.ok.inj h₁
        case none => rw [h₁]
        case some => rw [← h₁, NameMap.find?_insert_of_ne _ _ hk]
      simp only [hsame, List.mem_cons, hk, false_or]

theorem find?_nodePropertyViews (h : s.nodePropertyViews ls = .ok views) (hl : l ∈ ls)
    (hp : s.catalog.nodeProperty? l key = some p) (hr : s.resolveNodeProperty ls key = .ok (some values)) :
    views.find? key = some values := by
  have hkey : key ∈ NameMap.nameSet (ls.flatMap fun l => (s.catalog.nodePropertiesOf l).keys) :=
    NameMap.mem_nameSet.mpr (List.mem_flatMap.mpr ⟨l, hl, NameMap.mem_keys_iff.mpr ⟨p, hp⟩⟩)
  exact (find?_foldlM_addView hr h).trans (if_pos hkey)

-- What a view of some labels shows under a key is what is read over these labels. The nodes of the view are the
-- members in their order.
def Presents (s : Store) (ls : List Label) (key : String) (view : View) : Prop :=
  view.nodeCount = (s.membersOf ls).length ∧
  ∃ values roots, view.nodeValues? key = some values ∧ s.Resolves ls key roots ∧
    ∀ v root : Nat, (s.membersOf ls)[v]? = some root →
      view.toExternal v = s.nodes.toExternal root ∧ values.read v = roots.read root

theorem Chooses.exists_nodeValues? (h : s.Chooses ls subset) (hn : s.nodes.Sound)
    (hsize : s.options.filterChunkSize ≤ Word64.greatest) {p : Projection}
    (hp : p.nodeProperties.find? key = some roots) :
    ∃ values, (partOf p subset).nodeValues? key = some values ∧
      ∀ v root : Nat, (s.membersOf ls)[v]? = some root → values.read v = roots.read root := by
  cases subset
  case none =>
    refine ⟨roots, hp, fun v root hv => ?_⟩
    rw [membersOf_eq_range h hn] at hv
    have ⟨_, hv⟩ := List.getElem?_eq_some_iff.mp hv
    rw [← hv, List.getElem_range]
  case some sub =>
    have hroots : sub.roots.toList = s.membersOf ls := (h.selects hn hsize rfl).roots
    refine ⟨roots.through sub, by simp [partOf, Part.nodeValues?, hp], fun v root hv => ?_⟩
    exact NodeValues.read_through roots (Subset.toRoot_eq_ok.mpr (hroots ▸ hv))

theorem presents_of_materialize (hn : s.nodes.Sound) (hsize : s.options.filterChunkSize ≤ Word64.greatest)
    (hu : Uniform s.catalog) {concurrency : Nat} (h : s.materialize ls choices concurrency = (.ok view, s'))
    (hl : l ∈ ls) (hp : s.catalog.nodeProperty? l key = some p) : s.Presents ls key view := by
  have ⟨nodeProperties, subset, hviews, hc, hparts, _⟩ := materialize_eq_ok h
  have ⟨roots, hr⟩ := exists_resolves hu hl hp
  have ⟨c, _, hproject⟩ := Outcome.exists_of_forall₂_right hparts (b := view.head) List.mem_cons_self
  have ⟨topology, _, he⟩ := project_eq_ok.mp hproject
  have hfind := find?_nodePropertyViews hviews hl hp hr
  have ⟨values, hvalues, hread⟩ := hc.exists_nodeValues? hn hsize (p := s.projectionOf nodeProperties c topology) hfind
  have ⟨hcount, hnumbers⟩ := hc.numbers hn hsize (p := s.projectionOf nodeProperties c topology) rfl
  refine ⟨(congrArg Part.nodeCount he).trans hcount, values, roots,
    (congrArg (Part.nodeValues? · key) he).trans hvalues,
    resolves_of_resolveNodeProperty hr, fun v root hv => ⟨?_, hread v root hv⟩⟩
  exact (congrArg (Part.toExternal · v) he).trans (hnumbers v root hv).left

end Views

end Store

end PropertyGraph
