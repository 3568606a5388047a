import PropertyGraph.Proofs.Loader.Build

namespace PropertyGraph.Loader

-- No node has more relationships of a type than fit into one run, however parallel ones are merged.
def Short (calls : List Call) : Prop :=
  ∀ t layout, layoutOf t calls = some layout → ∀ x,
    ((givenOf t calls).flatMap fun g => layout.orientation.ways g.source g.target).countP (·.1 = x) ≤
      Fault.maxRunLength

variable {l : Loader} {calls : List Call} {concurrency : Nat} {metrics : Metrics}

theorem length_flatMap_ways_le (o : Orientation) (gs : List Given) :
    (gs.flatMap fun g => o.ways g.source g.target).length ≤ 2 * gs.length := by
  induction gs
  case nil => exact Nat.le_refl 0
  case cons g gs hi =>
    have hw : (o.ways g.source g.target).length ≤ 2 := by cases o <;> simp [Orientation.ways]
    rw [List.flatMap_cons, List.length_append, List.length_cons]
    omega

theorem short_of_length_le (h : 2 * calls.length ≤ Fault.maxRunLength) : Short calls := by
  intro t layout _ x
  have hw := length_flatMap_ways_le layout.orientation (givenOf t calls)
  have hg : (givenOf t calls).length ≤ calls.length := List.length_filterMap_le ..
  exact Nat.le_trans List.countP_le_length (by omega)

section Accepts

variable {t : RelType}

theorem foldlM_call_addNode {nodes : List (Nat × List Label)} {b : IdMap.Builder}
    (hb : l.nodes.addNodes nodes = .ok b) :
    (nodes.map fun node => Call.addNode node.1 node.2 []).foldlM call l = .ok { l with nodes := b } := by
  induction nodes generalizing l
  case nil =>
    have hb : l.nodes = b := Except.ok.inj hb
    exact hb ▸ rfl
  case cons node nodes hi =>
    have ⟨b₁, h₁, hb⟩ := Outcome.bind_eq_ok.mp hb
    have ⟨v, ha⟩ := Outcome.after_eq_ok.mp h₁
    have hc : l.call (.addNode node.1 node.2 []) = .ok { l with nodes := b₁ } :=
      (call_addNode ..).trans (Outcome.after_eq_ok.mpr ⟨v, addNode_eq_ok.mpr ⟨b₁, ha, rfl⟩⟩)
    exact Outcome.bind_eq_ok.mpr ⟨_, hc, hi hb⟩

-- Distinct nodes can be loaded with their labels.
theorem exists_load_nodes {nodes : List (Nat × List Label)} (hd : (nodes.map (·.1)).Nodup)
    (hn : nodes.length ≤ Fault.maxNodeCount) :
    ∃ b, load (nodes.map fun node => .addNode node.1 node.2 []) = .ok { nodes := b } ∧
      b.nodeCount = nodes.length ∧
      ∀ (i : Nat) node, nodes[i]? = some node → ∀ label ∈ node.2, (b.members label).contains i = true := by
  have ⟨b, hb, hids, _, hlabels⟩ := @IdMap.Builder.exists_addNodes nodes {} hd ((Nat.zero_add _).symm ▸ hn)
  have hlen : b.nodeCount = (nodes.map (·.1)).length := congrArg List.length hids
  refine ⟨b, foldlM_call_addNode hb, hlen.trans (List.length_map ..), fun i node hi label hl => ?_⟩
  have hc := hlabels i node hi label hl
  rwa [show ({} : IdMap.Builder).nodeCount = 0 from rfl, Nat.zero_add] at hc

theorem exists_endpoint (hi : l.implicitNodes = true) (hn : l.nodes.nodeCount < Fault.maxNodeCount)
    (external : Nat) :
    ∃ v l', l.endpoint external = (.ok v, l') ∧ l'.nodes.nodeCount ≤ l.nodes.nodeCount + 1 := by
  rw [endpoint]
  cases hf : l.nodes.get? external
  case some v => exact ⟨v, l, rfl, Nat.le_succ _⟩
  case none =>
    simp only [hi, if_true, addNode, IdMap.Builder.addNode_of_fresh hf hn]
    exact ⟨_, _, rfl, Nat.le_of_eq (IdMap.Builder.nodeCount_pushId hf)⟩

theorem exists_addRelationship (hi : l.implicitNodes = true) (ht : l.types.contains t = true)
    (hn : l.nodes.nodeCount + 1 < Fault.maxNodeCount) (source target : Nat) (values : List (String × Float)) :
    ∃ l', l.call (.addRelationship t source target values) = .ok l' ∧ l'.implicitNodes = true ∧
      l'.types.contains t = true ∧ l'.nodes.nodeCount ≤ l.nodes.nodeCount + 2 := by
  have ⟨s, l₁, hs, hn₁⟩ := exists_endpoint hi (Nat.lt_of_succ_lt hn) source
  have hi₁ := (endpoint_enters hs).implicitNodes.trans hi
  have ⟨d, l₂, hd, hn₂⟩ := exists_endpoint hi₁ (Nat.lt_of_le_of_lt hn₁ hn) target
  have hi₂ := (endpoint_enters hd).implicitNodes.trans hi₁
  have ha : l.addRelationship t source target values = (.ok (), _) :=
    addRelationship_eq_ok.mpr ⟨ht, s, l₁, d, l₂, hs, hd, rfl⟩
  have hc := (call_addRelationship ..).trans (Outcome.after_eq_ok.mpr ⟨(), ha⟩)
  refine ⟨_, hc, hi₂, ?contains, Nat.le_trans hn₂ (Nat.succ_le_succ hn₁)⟩
  case contains =>
    rw [NameMap.alter_eq]
    exact NameMap.contains_iff.mpr ⟨_, NameMap.find?_insert_self ..⟩

theorem exists_foldlM_addRelationship (hi : l.implicitNodes = true) (ht : l.types.contains t = true)
    (gs : List Given) (hn : l.nodes.nodeCount + 2 * gs.length ≤ Fault.maxNodeCount) :
    ∃ l', (gs.map fun g => Call.addRelationship t g.source g.target g.values).foldlM call l = .ok l' := by
  induction gs generalizing l
  case nil => exact ⟨l, rfl⟩
  case cons g gs hgs =>
    rw [List.length_cons] at hn
    have ⟨l₁, h₁, hi₁, ht₁, hn₁⟩ := exists_addRelationship hi ht (by omega) g.source g.target g.values
    have ⟨l', h'⟩ := hgs hi₁ ht₁ (by omega)
    exact ⟨l', Outcome.bind_eq_ok.mpr ⟨l₁, h₁, h'⟩⟩

-- A list of relationships can be loaded without naming the nodes first.
theorem exists_load (t : RelType) (layout : Layout) (gs : List Given)
    (hn : 2 * gs.length ≤ Fault.maxNodeCount) :
    ∃ l, load (.implicitNodes true :: .declare t layout ::
      gs.map fun g => .addRelationship t g.source g.target g.values) = .ok l := by
  have ht : (declare { implicitNodes := true } t layout).types.contains t = true := by
    simp only [declare, NameMap.alter_eq]
    exact NameMap.contains_iff.mpr ⟨_, NameMap.find?_insert_self ..⟩
  exact exists_foldlM_addRelationship rfl ht gs ((Nat.zero_add _).symm ▸ hn)

end Accepts

namespace PendingType

variable {b : IdMap.Builder} {t : PendingType} {gs : List Given}

theorem length_filter_rows_le (h : Records b t gs) (v : Nat) :
    (t.rows.filter (·.source = v)).length ≤
      (gs.flatMap fun g => t.layout.orientation.ways g.source g.target).countP
        (·.1 = externalOf b v) := by
  rw [← rows_ends h, List.countP_map, ← List.countP_eq_length_filter]
  refine List.countP_mono_left fun r _ hr => ?_
  have hr : r.source = v := of_decide_eq_true hr
  exact decide_eq_true (congrArg (externalOf b) hr)

theorem exists_compress (h : Records b t gs) (hn : b.nodeCount ≤ Fault.maxNodeCount)
    (hs : ∀ x, (gs.flatMap fun g => t.layout.orientation.ways g.source g.target).countP (·.1 = x) ≤
      Fault.maxRunLength) (concurrency : Nat) :
    ∃ batch rs, t.batch b.nodeCount = .ok batch ∧ batch.compress concurrency = .ok rs := by
  have ⟨calls, hb, hrows⟩ := batch_of_records h
  have ⟨hcount, _, _, hl⟩ := Batch.collect_empty b.nodeCount t.layout t.columns calls
  rw [hrows] at hl
  have hroom := Nat.lt_of_le_of_lt (hcount ▸ hn) (show Fault.maxNodeCount < Word64.maxVector by decide)
  have ⟨rs, hc, _⟩ := Batch.compress_tells hl hroom concurrency fun v _ =>
    Nat.le_trans Relationships.length_finish_le (Nat.le_trans (length_filter_rows_le h v) (hs _))
  exact ⟨_, rs, hb, hc⟩

end PendingType

theorem Compresses.exists_stores {types : List (RelType × Relationships)}
    (h : l.Compresses concurrency types) (hf : l.Follows calls) (metrics : Metrics) :
    ∃ s, Store.of l.nodes.build (l.nodeColumns l.nodes.build)
      (.ofList (types.map fun x => (x.1, x.2.topology)))
      (.ofList ((types.filter fun x => !x.2.properties.isEmpty).map fun x => (x.1, x.2.properties)))
      l.options metrics = .ok s := by
  have ⟨_, hn, _⟩ := exists_nodeProperties l l.nodes.build
  refine Store.exists_of hn (fun t topology ht => ?sizes) (fun t cs hcs => ?columns) _ _
  case sizes =>
    have ⟨rs, hx, he⟩ := (find?_topologies h.distinct).mp ht
    exact he ▸ h.nodeCount hf hx
  case columns =>
    have ⟨rs, hx, _, he⟩ := (find?_columns h.distinct).mp hcs
    refine ⟨rs.topology, (find?_topologies h.distinct).mpr ⟨rs, hx, rfl⟩, fun key runs hk => ?_⟩
    have ⟨_, hs⟩ := (h.built hf hx).stores
    exact hs.fit key runs (he ▸ hk)

theorem exists_build (hf : l.Follows calls) (hs : Short calls) :
    ∃ s, l.build concurrency metrics = .ok s := by
  have ⟨types, ht⟩ : ∃ types, l.types.entries.mapM (l.compressType concurrency) = .ok types := by
    refine Outcome.exists_mapM fun e he => ?_
    have hp : l.types.find? e.1 = some e.2 := NameMap.find?_eq_some.mpr he
    have hl : layoutOf e.1 calls = some e.2.layout := by rw [← hf.declared, hp]; rfl
    have ⟨batch, rs, hb, hc⟩ := PendingType.exists_compress (hf.records e.1 e.2 hp) hf.sound.bounded
      (hs e.1 e.2.layout hl) concurrency
    exact ⟨(e.1, rs), compressType_eq_ok.mpr ⟨rfl, batch, hb, hc⟩⟩
  have hc : l.Compresses concurrency types := by
    have hm := Outcome.mapM_eq_ok.mp ht
    simp only [compressType_eq_ok] at hm
    exact hm
  have ⟨s, ho⟩ := hc.exists_stores hf metrics
  exact ⟨s, Outcome.bind_eq_ok.mpr ⟨types, ht, ho⟩⟩

end PropertyGraph.Loader
