import PropertyGraph.Proofs.Store.Catalog
import PropertyGraph.Proofs.View.View
import PropertyGraph.Store.Select

namespace PropertyGraph.Store

variable {s : Store} {nodeProperties : NameMap String NodeValues} {subset : Option Subset} {c : Choice}
  {topology : Topology} {part : Part}

def projectionOf (s : Store) (nodeProperties : NameMap String NodeValues) (c : Choice)
    (topology : Topology) : Projection where
  nodes := s.nodes
  type := c.type
  topology
  values := c.key.bind fun key => (s.catalog.relationshipProperty? c.type key).map (·.values)
  nodeProperties
  isOwned := false

theorem values_projectionOf {t : RelType} {key : String} {p : RelationshipProperty}
    (nodeProperties : NameMap String NodeValues) (topology : Topology)
    (h : s.catalog.relationshipProperty? t key = some p) :
    (s.projectionOf nodeProperties ⟨t, some key⟩ topology).values = some p.values := by
  rw [projectionOf, Option.bind_some, h, Option.map_some]

def partOf (p : Projection) : Option Subset → Part
  | some subset => .restricted p subset
  | none => .whole p

theorem project_eq_ok :
    s.project nodeProperties subset c = .ok part ↔
      ∃ topology, s.catalog.topologies.find? c.type = some topology ∧
        part = partOf (s.projectionOf nodeProperties c topology) subset := by
  rw [project, Outcome.bind_eq_ok]
  simp only [Catalog.topology_eq_ok]
  constructor
  case mp =>
    intro ⟨topology, ht, h⟩
    refine ⟨topology, ht, (Except.ok.inj h).symm.trans ?_⟩
    cases subset <;> rfl
  case mpr =>
    intro ⟨topology, ht, h⟩
    refine ⟨topology, ht, congrArg Except.ok (.trans ?_ h.symm)⟩
    cases subset <;> rfl

variable {view : View} {s' : Store} {ls : List Label} {ts : List RelType} {choices : List Choice}
  {key : Option String} {concurrency : Nat}

theorem foldl_distinct (seen ts : List RelType) :
    ts.foldl (fun seen t => if seen.contains t then seen else seen ++ [t]) seen =
      seen ++ (ts.filter (!seen.contains ·)).eraseDups := by
  induction ts generalizing seen
  case nil => simp
  case cons t ts hi =>
    rw [List.foldl_cons, hi]
    by_cases ht : seen.contains t = true
    case pos => simp only [ht, if_true, List.filter_cons, Bool.not_true, Bool.false_eq_true, if_false]
    case neg =>
      have hf : ts.filter (fun t' => !(seen ++ [t]).contains t') =
          (ts.filter (!seen.contains ·)).filter (fun t' => !t' == t) := by
        rw [List.filter_filter]
        refine List.filter_congr fun t' _ => ?_
        rw [Bool.eq_iff_iff]
        simp [and_comm]
      rw [if_neg ht, hf, List.filter_cons, if_pos (by simpa using ht), List.eraseDups_cons,
        List.append_assoc]
      rfl

theorem distinct_eq_eraseDups (ts : List RelType) : distinct ts = ts.eraseDups := by
  rw [distinct, foldl_distinct]
  simp

theorem mem_distinct {t : RelType} : t ∈ distinct ts ↔ t ∈ ts := by
  rw [distinct_eq_eraseDups, List.mem_eraseDups]

-- The subset that a view of some labels has. It has none if the labels cover all nodes.
def Chooses (s : Store) (ls : List Label) : Option Subset → Prop
  | none => s.nodes.coversAll ls = .ok true
  | some sub => s.nodes.coversAll ls = .ok false ∧
    ∃ workers, Subset.ofLabels s.nodes ls workers s.options.filterChunkSize = .ok sub

theorem materialize_eq_ok_iff : s.materialize ls choices concurrency = (.ok view, s') ↔
    ∃ filtered, s.assemble ls choices concurrency = .ok (view, filtered) ∧
      s' = { s with metrics := s.metrics.map (·.materialized choices.length filtered) } := by
  rw [materialize]
  cases s.assemble ls choices concurrency
  case error => simp
  case ok r => simp [Prod.ext_iff, and_assoc, eq_comm]

theorem assemble_eq_ok {filtered : Bool} (h : s.assemble ls choices concurrency = .ok (view, filtered)) :
    ls ≠ [] ∧ choices ≠ [] ∧ s.nodes.coversAll ls = .ok !filtered ∧
      ∃ nodeProperties subset, s.nodePropertyViews ls = .ok nodeProperties ∧ s.Chooses ls subset ∧
        ∃ parts, choices.mapM (s.project nodeProperties subset) = .ok parts ∧
          View.unionOf (parts.map .single) = .ok view := by
  rw [assemble] at h
  split at h
  case isTrue => cases h
  case isFalse hl =>
    dsimp only at h
    split at h
    case isTrue => cases h
    case isFalse hne =>
      have ⟨covers, hc, h⟩ := Outcome.bind_eq_ok.mp h
      have ⟨nodeProperties, hviews, h⟩ := Outcome.bind_eq_ok.mp h
      have hunion : ∀ {f : Choice → Except Fault Part}, (do
          let parts ← choices.mapM f
          return (← View.unionOf (parts.map .single), !covers) : Except Fault (View × Bool)) = .ok (view, filtered) →
          filtered = !covers ∧ ∃ parts, choices.mapM f = .ok parts ∧
            View.unionOf (parts.map .single) = .ok view := fun h => by
        have ⟨parts, hp, h⟩ := Outcome.bind_eq_ok.mp h
        have ⟨view', hv, h⟩ := Outcome.bind_eq_ok.mp h
        cases h
        exact ⟨rfl, parts, hp, hv⟩
      refine ⟨mt List.isEmpty_iff.mpr hl, mt List.isEmpty_iff.mpr hne, ?_⟩
      cases covers
      case true =>
        have ⟨subset, hs, h⟩ := Outcome.bind_eq_ok.mp h
        cases hs
        have ⟨hf, h⟩ := hunion h
        exact ⟨hf ▸ hc, nodeProperties, none, hviews, hc, h⟩
      case false =>
        have ⟨subset, hs, h⟩ := Outcome.bind_eq_ok.mp h
        have ⟨sub, hsub, he⟩ := Outcome.bind_eq_ok.mp hs
        cases he
        have ⟨hf, h⟩ := hunion h
        exact ⟨hf ▸ hc, nodeProperties, some sub, hviews, ⟨hc, _, hsub⟩, h⟩

-- A view changes nothing but the counters of views.
theorem store_of_materialize (h : s.materialize ls choices concurrency = (.ok view, s')) :
    ls ≠ [] ∧ choices ≠ [] ∧ ∃ covers, s.nodes.coversAll ls = .ok covers ∧
      s' = { s with metrics := s.metrics.map (·.materialized choices.length !covers) } := by
  have ⟨filtered, ha, hs⟩ := materialize_eq_ok_iff.mp h
  have ⟨hl, hne, hc, _⟩ := assemble_eq_ok ha
  exact ⟨hl, hne, _, hc, by rw [Bool.not_not, hs]⟩

theorem materialize_eq_ok (h : s.materialize ls choices concurrency = (.ok view, s')) :
    ∃ nodeProperties subset, s.nodePropertyViews ls = .ok nodeProperties ∧ s.Chooses ls subset ∧
      List.Forall₂ (fun c p => s.project nodeProperties subset c = .ok p) choices view.parts ∧
      ∀ p ∈ view.parts, p.nodeCount = view.nodeCount := by
  have ⟨_, ha, _⟩ := materialize_eq_ok_iff.mp h
  have ⟨_, _, _, nodeProperties, subset, hviews, hs, parts, hp, hv⟩ := assemble_eq_ok ha
  have ⟨he, hn⟩ := View.parts_of_unionOf hv
  exact ⟨nodeProperties, subset, hviews, hs, he ▸ Outcome.mapM_eq_ok.mp hp, he ▸ hn⟩

-- Whether a type is loaded and stores the key, if one is given.
def Offers (s : Store) (key : Option String) (t : RelType) : Prop :=
  (∃ topology, s.catalog.topologies.find? t = some topology) ∧
    ∀ k, key = some k → ∃ p, s.catalog.relationshipProperty? t k = some p

theorem choose_eq_ok {t : RelType} : s.choose key t = .ok c ↔ s.Offers key t ∧ c = ⟨t, key⟩ := by
  rw [choose, Outcome.bind_eq_ok, Offers]
  simp only [Catalog.topology_eq_ok, exists_and_right]
  rw [and_assoc]
  refine and_congr_right fun _ => ?_
  cases key
  case none => simp [eq_comm]
  case some k =>
    cases hp : s.catalog.relationshipProperty? t k
    case none => simp [hp]
    case some p => simp [hp, eq_comm]

theorem getGraph_of_choices (h : (distinct ts).mapM (s.choose key) = .ok choices) :
    s.getGraph ls ts key concurrency = s.materialize ls choices concurrency := by
  rw [getGraph, h]

theorem getGraph_eq_ok (h : s.getGraph ls ts key concurrency = (.ok view, s')) :
    s.materialize ls (ts.eraseDups.map (⟨·, key⟩)) concurrency = (.ok view, s') ∧
      ∀ t ∈ ts, s.Offers key t := by
  rw [getGraph] at h
  split at h
  case h_1 => cases h
  case h_2 choices hc =>
    have hf := Outcome.mapM_eq_ok.mp hc
    simp only [choose_eq_ok] at hf
    have hm : choices = (distinct ts).map (⟨·, key⟩) := by
      clear h hc
      generalize distinct ts = us at hf
      induction hf
      case nil => rfl
      case cons hc _ hi => rw [List.map_cons, hc.right, hi]
    rw [← distinct_eq_eraseDups, ← hm]
    refine ⟨h, fun t ht => ?_⟩
    have ⟨c, _, hc⟩ := Outcome.exists_of_forall₂_left hf (mem_distinct.mpr ht)
    exact hc.left

theorem materialize_of_parts (concurrency : Nat) {parts : List Part} (hl : ls ≠ []) (hne : choices ≠ [])
    (hc : s.nodes.coversAll ls = .ok subset.isNone) (hn : s.nodePropertyViews ls = .ok nodeProperties)
    (hs : ∀ sub, subset = some sub → Subset.ofLabels s.nodes ls
      (effectiveConcurrency (if concurrency = 0 then s.options.defaultConcurrency else concurrency))
      s.options.filterChunkSize = .ok sub)
    (hp : choices.mapM (s.project nodeProperties subset) = .ok parts)
    (hv : View.unionOf (parts.map .single) = .ok view) :
    ∃ s', s.materialize ls choices concurrency = (.ok view, s') := by
  refine ⟨_, materialize_eq_ok_iff.mpr ⟨subset.isSome, ?_, rfl⟩⟩
  cases subset
  case none => simp [assemble, hl, hne, hc, hn, hp, hv]
  case some sub => simp [assemble, hl, hne, hc, hn, hs sub rfl, hp, hv]

-- A type can be viewed by itself over all nodes.
theorem exists_getGraph_of_covers {t : RelType} (hc : s.nodes.coversAll ls = .ok true) (hl : ls ≠ [])
    (hn : s.nodePropertyViews ls = .ok nodeProperties) (ho : s.Offers key t)
    (ht : s.catalog.topologies.find? t = some topology) (concurrency : Nat) :
    ∃ s', s.getGraph ls [t] key concurrency =
      (.ok (.single (.whole (s.projectionOf nodeProperties ⟨t, key⟩ topology))), s') := by
  have hchoices : (distinct [t]).mapM (s.choose key) = .ok [⟨t, key⟩] :=
    Outcome.mapM_eq_ok.mpr (.cons (choose_eq_ok.mpr ⟨ho, rfl⟩) .nil)
  have hparts : [⟨t, key⟩].mapM (s.project nodeProperties none) =
      .ok [.whole (s.projectionOf nodeProperties ⟨t, key⟩ topology)] :=
    Outcome.mapM_eq_ok.mpr (.cons (project_eq_ok.mpr ⟨topology, ht, rfl⟩) .nil)
  have hc : s.nodes.coversAll ls = .ok (none : Option Subset).isNone := hc
  rw [getGraph_of_choices hchoices]
  exact materialize_of_parts concurrency hl (List.cons_ne_nil _ _) hc hn (fun _ h => nomatch h) hparts rfl

theorem nodeCount_partOf {p : Projection} (hp : p.nodes = s.nodes) :
    (partOf p subset).nodeCount = (subset.map (·.nodeCount)).getD s.nodeCount := by
  cases subset
  case none => exact congrArg IdMap.nodeCount hp
  case some => rfl

theorem exists_parts (h : ∀ c ∈ choices, ∃ topology, s.catalog.topologies.find? c.type = some topology)
    (hne : choices ≠ []) (nodeProperties : NameMap String NodeValues) (subset : Option Subset) :
    ∃ parts view, choices.mapM (s.project nodeProperties subset) = .ok parts ∧
      View.unionOf (parts.map .single) = .ok view := by
  have hproject : ∀ c ∈ choices, ∃ part, s.project nodeProperties subset c = .ok part := fun c hc =>
    have ⟨topology, ht⟩ := h c hc
    ⟨_, project_eq_ok.mpr ⟨topology, ht, rfl⟩⟩
  have ⟨parts, hp⟩ := Outcome.exists_mapM hproject
  have hf := Outcome.mapM_eq_ok.mp hp
  have hcount : ∀ p ∈ parts, p.nodeCount = (subset.map (·.nodeCount)).getD s.nodeCount := by
    intro p hm
    have ⟨c, _, hc⟩ := Outcome.exists_of_forall₂_right hf hm
    have ⟨topology, _, he⟩ := project_eq_ok.mp hc
    exact he ▸ nodeCount_partOf rfl
  have hlen : parts ≠ [] := fun he => hne (List.length_eq_zero_iff.mp (by rw [hf.length_eq, he]; rfl))
  have ⟨view, hv⟩ := View.exists_unionOf hlen hcount
  exact ⟨parts, view, hp, hv⟩

-- A view can be had of any known labels and any types that offer the key.
theorem exists_getGraph (hsound : s.nodes.Sound) (hsize : s.options.filterChunkSize ≤ Word64.greatest)
    (hl : ls ≠ []) (hknown : ∀ l ∈ ls, l ∈ s.nodeLabels) (hne : ts ≠ []) (ho : ∀ t ∈ ts, s.Offers key t)
    (hn : s.nodePropertyViews ls = .ok nodeProperties) (concurrency : Nat) :
    ∃ view s', s.getGraph ls ts key concurrency = (.ok view, s') := by
  obtain ⟨union, hu⟩ := IdMap.unionOf_of_known fun l hm => NameMap.mem_keys_iff.mp (hknown l hm)
  have hchoose : ∀ t ∈ distinct ts, ∃ c, s.choose key t = .ok c := fun t ht =>
    ⟨_, choose_eq_ok.mpr ⟨ho t (mem_distinct.mp ht), rfl⟩⟩
  obtain ⟨choices, hchoices⟩ := Outcome.exists_mapM hchoose
  have hf := Outcome.mapM_eq_ok.mp hchoices
  have hloaded : ∀ c ∈ choices, ∃ topology, s.catalog.topologies.find? c.type = some topology := by
    intro c hc
    obtain ⟨t, ht, hct⟩ := Outcome.exists_of_forall₂_right hf hc
    exact (choose_eq_ok.mp hct).right ▸ (ho t (mem_distinct.mp ht)).left
  have hcne : choices ≠ [] := by
    obtain ⟨t, ht⟩ := List.exists_mem_of_ne_nil ts hne
    obtain ⟨c, hc, _⟩ := Outcome.exists_of_forall₂_left hf (mem_distinct.mpr ht)
    exact List.ne_nil_of_mem hc
  obtain ⟨subset, hc, hs⟩ : ∃ subset : Option Subset, s.nodes.coversAll ls = .ok subset.isNone ∧
      ∀ sub, subset = some sub → Subset.ofLabels s.nodes ls
        (effectiveConcurrency (if concurrency = 0 then s.options.defaultConcurrency else concurrency))
        s.options.filterChunkSize = .ok sub := by
    obtain ⟨sub, hsub, _⟩ := Subset.ofLabels_selects hsound hsize
      (effectiveConcurrency (if concurrency = 0 then s.options.defaultConcurrency else concurrency)) hu
    by_cases he : union.size = s.nodes.nodeCount
    case pos => exact ⟨none, by simp [IdMap.coversAll, hu, he], fun _ h => nomatch h⟩
    case neg => exact ⟨some sub, by simp [IdMap.coversAll, hu, he], fun _ h => Option.some.inj h ▸ hsub⟩
  obtain ⟨parts, view, hp, hv⟩ := exists_parts hloaded hcne nodeProperties subset
  obtain ⟨s', hm⟩ := materialize_of_parts concurrency hl hcne hc hn hs hp hv
  exact ⟨view, s', (getGraph_of_choices hchoices).trans hm⟩

end PropertyGraph.Store
