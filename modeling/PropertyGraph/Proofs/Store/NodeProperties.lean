import PropertyGraph.Proofs.NameMap
import PropertyGraph.Store.Select

namespace PropertyGraph.Store

variable {nodes : IdMap} {columns : NameMap Label (NameMap String Column)} {cs : NameMap String Column}
  {ps : NodeProperties}

-- Properties whose values are columns of these.
def Holds (cs : NameMap String Column) (ps : NodeProperties) : Prop :=
  ∀ key p, ps.find? key = some p → ∃ column, cs.find? key = some column ∧ p.values = .ofColumn column

theorem addIfAbsent_holds (h : Holds cs ps) {key : String} {column : Column}
    (hc : cs.find? key = some column) (state : PropertyState) :
    Holds cs (ps.addIfAbsent ⟨key, state, .ofColumn column⟩) := by
  rw [NodeProperties.addIfAbsent]
  split
  case isTrue => exact h
  case isFalse =>
    intro key' p hp
    by_cases hk : key' = key
    case pos =>
      rw [hk, NameMap.find?_insert_self] at hp
      exact ⟨column, hk ▸ hc, Option.some.inj hp ▸ rfl⟩
    case neg => exact h key' p (NameMap.find?_insert_of_ne _ _ hk ▸ hp)

def fitNodeColumn (nodes : IdMap) (l : Label) (ps : NodeProperties) (e : String × Column) :
    Except Fault NodeProperties := do
  if e.2.size ≠ nodes.nodeCount then throw (.nodeColumnSize l e.1 e.2.size nodes.nodeCount)
  return ps.addIfAbsent ⟨e.1, .persistent, .ofColumn e.2⟩

theorem exists_fitNodeColumns
    (h : ∀ l cs, columns.find? l = some cs → nodes.hasLabel l = true ∧
      ∀ key column, cs.find? key = some column → column.size = nodes.nodeCount) :
    ∃ byLabel, fitNodeColumns nodes columns = .ok byLabel ∧
      ∀ l ps, byLabel.find? l = some ps → ∃ cs, columns.find? l = some cs ∧ Holds cs ps := by
  refine Outcome.exists_foldlM (fun byLabel hb e he => ?step) ∅ fun l ps hf => nomatch hf
  case step =>
    have hcs : columns.find? e.1 = some e.2 := NameMap.find?_eq_some.mpr he
    have ⟨hl, hsize⟩ := h e.1 e.2 hcs
    have ⟨ps, hps, hh⟩ := @Outcome.exists_foldlM _ _ _ e.2.entries (fitNodeColumn nodes e.1) (Holds e.2)
      (fun ps hh x hx => by
        have hx : e.2.find? x.1 = some x.2 := NameMap.find?_eq_some.mpr hx
        refine ⟨_, if_neg (not_not.mpr (hsize x.1 x.2 hx)), addIfAbsent_holds hh hx .persistent⟩)
      ∅ fun key p hf => nomatch hf
    have hknown : ¬(!nodes.hasLabel e.1) = true := by simp [hl]
    refine ⟨_, (if_neg hknown).trans (Outcome.bind_eq_ok.mpr ⟨ps, hps, rfl⟩), fun l ps' hf => ?_⟩
    split at hf
    case isTrue => exact hb l ps' hf
    case isFalse =>
      by_cases he' : l = e.1
      case pos =>
        rw [he', NameMap.find?_insert_self] at hf
        exact ⟨e.2, he' ▸ hcs, Option.some.inj hf ▸ hh⟩
      case neg => exact hb l ps' (NameMap.find?_insert_of_ne _ _ he' ▸ hf)

-- Labels that store a key have it of one type.
def Uniform (c : Catalog) : Prop :=
  ∀ key l l' p p', c.nodeProperty? l key = some p → c.nodeProperty? l' key = some p' →
    p.values.type = p'.values.type

variable {s : Store}

theorem exists_resolveNodeProperty (h : Uniform s.catalog) (ls : List Label) (key : String) :
    ∃ values?, s.resolveNodeProperty ls key = .ok values? := by
  rw [resolveNodeProperty]
  have hparts : ∀ part ∈ ls.filterMap (fun l => (s.catalog.nodeProperty? l key).map fun p =>
      (⟨l, (s.nodes.members l).contains, p.values⟩ : NodeValues.LabelPart)),
      ∃ l p, s.catalog.nodeProperty? l key = some p ∧ part.values.type = p.values.type := by
    intro part hp
    have ⟨l, _, hl⟩ := List.mem_filterMap.mp hp
    have ⟨p, hp, he⟩ := Option.map_eq_some_iff.mp hl
    exact ⟨l, p, hp, by rw [← he]⟩
  generalize ls.filterMap _ = parts at hparts
  split
  case h_1 => exact ⟨_, rfl⟩
  case h_2 => exact ⟨_, rfl⟩
  case h_3 hnil _ =>
    cases parts with
    | nil => exact absurd rfl hnil
    | cons first rest =>
      have ⟨l, p, hp, ht⟩ := hparts first List.mem_cons_self
      have hnone : (first :: rest).find? (·.values.type ≠ first.values.type) = none := by
        rw [List.find?_eq_none]
        intro part hm
        have ⟨l', p', hp', ht'⟩ := hparts part hm
        simp [ht, ht', h key l' l p' p hp' hp]
      exact ⟨_, by simp only [NodeValues.ofParts, hnone]; rfl⟩

theorem exists_nodePropertyViews (h : Uniform s.catalog) (ls : List Label) :
    ∃ views, s.nodePropertyViews ls = .ok views := by
  rw [nodePropertyViews]
  refine Exists.imp (fun _ => And.left) (Outcome.exists_foldlM (P := fun _ => True)
    (fun views _ key _ => ?_) ∅ trivial)
  have ⟨values?, hr⟩ := exists_resolveNodeProperty h ls key
  rw [hr]
  cases values? <;> exact ⟨_, rfl, trivial⟩

end PropertyGraph.Store
