import PropertyGraph.Proofs.Store.NodeProperties
import PropertyGraph.Proofs.Store.Properties

namespace PropertyGraph

namespace NameMap

variable {κ ι : Type} [Named κ] [Named ι] {α : Type}

-- What is found under one name and then under another.
def findNested? (m : NameMap κ (NameMap ι α)) (k : κ) (i : ι) : Option α :=
  (m.find? k).bind (·.find? i)

theorem find?_eq_find?_entries [DecidableEq κ] (m : NameMap κ α) (k : κ) :
    m.find? k = (m.entries.find? (·.1 = k)).map (·.2) := by
  rw [find?]
  induction m.entries
  case nil => rfl
  case cons e es hi =>
    rw [findIn, List.find?_cons]
    by_cases he : e.1 = k
    case pos => simp [he]
    case neg =>
      have hname : Named.name k ≠ Named.name e.1 := fun hn => he (Named.name_injective hn).symm
      simp [he, hi, hname]

theorem find?_entries_of_distinct [DecidableEq κ] {e : κ × α} {es : List (κ × α)} (h : Distinct (e :: es)) :
    es.find? (·.1 = e.1) = none := by
  rw [List.find?_eq_none]
  intro e' he' hk
  exact (List.pairwise_cons.mp h).left e' he' (congrArg Named.name (of_decide_eq_true hk)).symm

end NameMap

theorem Catalog.nodeProperty?_eq_findNested? (c : Catalog) (l : Label) (key : String) :
    c.nodeProperty? l key = c.nodeProperties.findNested? l key := by
  rw [nodeProperty?, nodePropertiesOf, NameMap.findNested?]
  cases c.nodeProperties.find? l <;> rfl

namespace Store

variable {nodes : IdMap} {l : Label} {key : String}

-- A column as the property that was loaded.
def loaded (key : String) (column : Column) : NodeProperty :=
  ⟨key, .persistent, .ofColumn column⟩

theorem find?_foldlM_fitNodeColumn {es : List (String × Column)} {ps ps' : NodeProperties}
    (h : es.foldlM (fitNodeColumn nodes l) ps = .ok ps') (key : String) :
    ps'.find? key = (ps.find? key).or ((es.find? (·.1 = key)).map fun e => loaded key e.2) := by
  induction es generalizing ps
  case nil => exact Except.ok.inj h ▸ (Option.or_none).symm
  case cons e es hi =>
    have ⟨ps₁, he, h⟩ := Outcome.bind_eq_ok.mp h
    rw [fitNodeColumn] at he
    split at he
    case isTrue => cases he
    case isFalse =>
      have he : ps.addIfAbsent (loaded e.1 e.2) = ps₁ := Except.ok.inj he
      rw [hi h, ← he, NodeProperties.find?_addIfAbsent, Option.or_assoc, List.find?_cons]
      by_cases hk : key = e.1
      case pos => simp [hk, loaded]
      case neg => simp [hk, Ne.symm hk, loaded]

-- What the columns of one label are stored as.
def fitLabel (nodes : IdMap) (byLabel : NameMap Label NodeProperties) (e : Label × NameMap String Column) :
    Except Fault (NameMap Label NodeProperties) := do
  if !nodes.hasLabel e.1 then throw (.propertiesOfUnknownLabel e.1 nodes.availableLabels)
  let ps ← e.2.entries.foldlM (fitNodeColumn nodes e.1) ∅
  return if ps.isEmpty then byLabel else byLabel.insert e.1 ps

theorem findNested?_fitLabel {byLabel byLabel' : NameMap Label NodeProperties} {e : Label × NameMap String Column}
    (h : fitLabel nodes byLabel e = .ok byLabel') (hn : byLabel.find? e.1 = none) :
    (∀ key, byLabel'.findNested? e.1 key = (e.2.find? key).map (loaded key)) ∧
      ∀ l ≠ e.1, byLabel'.find? l = byLabel.find? l := by
  rw [fitLabel] at h
  split at h
  case isTrue => cases h
  case isFalse =>
    have ⟨ps, hps, h⟩ := Outcome.bind_eq_ok.mp h
    have hfind : ∀ key, ps.find? key = (e.2.find? key).map (loaded key) := fun key => by
      rw [find?_foldlM_fitNodeColumn hps, NameMap.find?_eq_find?_entries e.2, Option.map_map]
      rfl
    have h := Except.ok.inj h
    subst h
    split
    case isTrue he =>
      refine ⟨fun key => ?_, fun _ _ => rfl⟩
      rw [NameMap.findNested?, hn, ← hfind, NameMap.isEmpty_iff.mp he]
      rfl
    case isFalse =>
      refine ⟨fun key => ?_, fun l hl => NameMap.find?_insert_of_ne _ _ hl⟩
      rw [NameMap.findNested?, NameMap.find?_insert_self, Option.bind_some, hfind]

theorem findNested?_foldlM_fitLabel {es : List (Label × NameMap String Column)}
    {byLabel byLabel' : NameMap Label NodeProperties} (h : es.foldlM (fitLabel nodes) byLabel = .ok byLabel')
    (hd : NameMap.Distinct es) (hn : ∀ e ∈ es, byLabel.find? e.1 = none) (l : Label) (key : String) :
    byLabel'.findNested? l key =
      ((es.find? (·.1 = l)).bind fun e => (e.2.find? key).map (loaded key)).or (byLabel.findNested? l key) := by
  induction es generalizing byLabel
  case nil => exact Except.ok.inj h ▸ (Option.none_or).symm
  case cons e es hi =>
    have ⟨byLabel₁, he, h⟩ := Outcome.bind_eq_ok.mp h
    have ⟨hne, hns⟩ := List.forall_mem_cons.mp hn
    have ⟨hself, hothers⟩ := findNested?_fitLabel he hne
    have hdistinct : ∀ e' ∈ es, e'.1 ≠ e.1 := fun e' hm hk =>
      (List.pairwise_cons.mp hd).left e' hm (congrArg Named.name hk).symm
    rw [hi h (List.pairwise_cons.mp hd).right fun e' hm => hothers e'.1 (hdistinct e' hm) ▸ hns e' hm,
      List.find?_cons]
    by_cases hl : e.1 = l
    case pos =>
      subst hl
      have hold : byLabel.findNested? e.1 key = none := by rw [NameMap.findNested?, hne]; rfl
      simp [NameMap.find?_entries_of_distinct hd, hself, hold]
    case neg => simp [hl, NameMap.findNested?, hothers l (Ne.symm hl)]

theorem findNested?_fitNodeColumns {columns : NameMap Label (NameMap String Column)}
    {byLabel : NameMap Label NodeProperties} (h : fitNodeColumns nodes columns = .ok byLabel) (l : Label)
    (key : String) : byLabel.findNested? l key = (columns.findNested? l key).map (loaded key) := by
  have hcolumns : columns.findNested? l key = (columns.entries.find? (·.1 = l)).bind (·.2.find? key) := by
    rw [NameMap.findNested?, NameMap.find?_eq_find?_entries, Option.bind_map]
    rfl
  rw [findNested?_foldlM_fitLabel h columns.distinct_entries (fun _ _ => rfl), hcolumns, Option.map_bind]
  exact Option.or_none

end Store

end PropertyGraph
