import PropertyGraph.Node.IdMap
import PropertyGraph.Proofs.NameMap
import PropertyGraph.Proofs.Node.NodeSet
import PropertyGraph.Proofs.Node.Numbering
import PropertyGraph.Proofs.Outcome

namespace PropertyGraph.IdMap

-- Whether a node has one of the labels.
def carries (m : IdMap) (ls : List Label) (v : Nat) : Bool :=
  ls.any ((m.labelsOf v).contains ·)

structure Sound (m : IdMap) : Prop where
  bounded : m.nodeCount ≤ Fault.maxNodeCount
  members : ∀ l v, (m.members l).contains v = true → v < m.nodeCount
  labeled : ∀ v < m.nodeCount, ∃ l, (m.members l).contains v = true
  known : m.availableLabels ≠ []

variable {m : IdMap} {ls : List Label} {s : NodeSet} {v : Nat} {l : Label}

-- The nodes of a graph have 32 bits.
theorem truncate_of_lt {n : Nat} (h : v < n) (hb : n ≤ Fault.maxNodeCount) : Word32.truncate v = v :=
  Word32.truncate_of_lt (Nat.lt_of_lt_of_le h hb)

theorem mem_labelsOf : l ∈ m.labelsOf v ↔ (m.members l).contains v = true := by
  rw [labelsOf, List.mem_map, members, members?]
  constructor
  case mp =>
    intro ⟨e, he, hl⟩
    have ⟨he, hc⟩ := List.mem_filter.mp he
    have hf : m.labels.find? l = some e.2 := NameMap.find?_eq_some.mpr (hl ▸ he)
    rw [hf]
    exact hc
  case mpr =>
    intro hc
    cases hf : m.labels.find? l
    case none => simp [hf] at hc
    case some s =>
      rw [hf] at hc
      exact ⟨(l, s), List.mem_filter.mpr ⟨NameMap.find?_eq_some.mp hf, hc⟩, rfl⟩

theorem carries_iff : m.carries ls v = true ↔ ∃ l ∈ ls, (m.members l).contains v = true := by
  simp [carries, mem_labelsOf]

theorem known_of_contains (h : (m.members l).contains v = true) : l ∈ m.availableLabels := by
  cases hf : m.labels.find? l
  case none => simp [members, members?, hf] at h
  case some s => exact NameMap.mem_keys_iff.mpr ⟨s, hf⟩

theorem contains_foldlM {f : Fault} {s₀ : NodeSet}
    (h : ls.foldlM (fun s l =>
      match m.members? l with
      | some members => Except.ok (s ∪ members)
      | none => Except.error f) s₀ = Except.ok s) (v : Nat) :
    s.contains v = (s₀.contains v || ls.any fun l => (m.members l).contains v) := by
  induction ls generalizing s₀
  case nil =>
    have hs : s₀ = s := by simpa using h
    simp [hs]
  case cons l ls hi =>
    have ⟨s₁, h₁, h⟩ := Outcome.bind_eq_ok.mp h
    cases hm : m.members? l
    case none => simp [hm] at h₁
    case some members =>
      have hs : s₀ ∪ members = s₁ := by simpa [hm] using h₁
      rw [hi h, ← hs, NodeSet.contains_union, List.any_cons, Bool.or_assoc]
      congr 2
      simp [IdMap.members, hm]

theorem contains_unionOf (h : m.unionOf ls = .ok s) (v : Nat) : s.contains v = m.carries ls v := by
  rw [contains_foldlM h v, Bool.eq_iff_iff, carries_iff]
  simp

theorem Sound.lt_of_unionOf (hm : m.Sound) (h : m.unionOf ls = .ok s) (hv : s.contains v = true) :
    v < m.nodeCount := by
  rw [contains_unionOf h, carries_iff] at hv
  have ⟨l, _, hv⟩ := hv
  exact hm.members l v hv

theorem Sound.coversAll_iff (hm : m.Sound) {b : Bool} (h : m.coversAll ls = .ok b) :
    b = true ↔ ∀ v < m.nodeCount, m.carries ls v = true := by
  have ⟨s, hs, hb⟩ := Outcome.bind_eq_ok.mp h
  have hb : decide (s.size = m.nodeCount) = b := by simpa using hb
  rw [← hb, decide_eq_true_eq, NodeSet.size_eq_iff fun v => hm.lt_of_unionOf hs]
  simp only [contains_unionOf hs]

theorem unionOf_of_known (h : ∀ l ∈ ls, ∃ s, m.members? l = some s) : ∃ s, m.unionOf ls = .ok s := by
  rw [unionOf]
  generalize Fault.unknownLabels ls m.availableLabels = f
  generalize (∅ : NodeSet) = s₀
  induction ls generalizing s₀
  case nil => exact ⟨s₀, rfl⟩
  case cons l ls hi =>
    have ⟨hl, hls⟩ := List.forall_mem_cons.mp h
    have ⟨s, hs⟩ := hl
    have ⟨s', hs'⟩ := hi hls (s₀ ∪ s)
    exact ⟨s', by simp only [List.foldlM_cons, hs, Outcome.ok_bind, hs']⟩

theorem known_of_coversAll {b : Bool} (h : m.coversAll ls = .ok b) (hl : l ∈ ls) : l ∈ m.availableLabels := by
  have ⟨_, hs, _⟩ := Outcome.bind_eq_ok.mp h
  have ⟨_, _, hstep⟩ := Outcome.forall_of_foldlM_eq_ok hs l hl
  cases hm : m.members? l
  case none => simp [hm] at hstep
  case some s => exact NameMap.mem_keys_iff.mpr ⟨s, hm⟩

theorem Sound.coversAll_of_carries (hm : m.Sound) (hk : ∀ l ∈ ls, l ∈ m.availableLabels)
    (h : ∀ v < m.nodeCount, m.carries ls v = true) : m.coversAll ls = .ok true := by
  have ⟨s, hs⟩ := unionOf_of_known fun l hl => NameMap.mem_keys_iff.mp (hk l hl)
  have hc : m.coversAll ls = .ok (decide (s.size = m.nodeCount)) := by
    simp [coversAll, hs]
  rw [hc]
  congr 1
  exact (hm.coversAll_iff hc).mpr h

-- All labels together have all nodes.
theorem Sound.coversAll_of_all (hm : m.Sound) (h : ∀ l, l ∈ ls ↔ l ∈ m.availableLabels) :
    m.coversAll ls = .ok true := by
  refine hm.coversAll_of_carries (fun l hl => (h l).mp hl) fun v hv => ?_
  have ⟨l, hl⟩ := hm.labeled v hv
  exact carries_iff.mpr ⟨l, (h l).mpr (known_of_contains hl), hl⟩

namespace Builder

def members (b : Builder) (l : Label) : NodeSet := (b.labels.find? l).getD ∅

structure Sound (b : Builder) : Prop where
  bounded : b.nodeCount ≤ Fault.maxNodeCount
  members : ∀ l v, (b.members l).contains v = true → v < b.nodeCount
  unlabeled : ∀ v, b.unlabeled.contains v = true → v < b.nodeCount
  labeled : ∀ v < b.nodeCount, b.unlabeled.contains v = true ∨ ∃ l, (b.members l).contains v = true

-- What holds while a node is being added.
structure SoundBut (b : Builder) (node : Nat) : Prop where
  bounded : b.nodeCount ≤ Fault.maxNodeCount
  members : ∀ l v, (b.members l).contains v = true → v < b.nodeCount
  unlabeled : ∀ v, b.unlabeled.contains v = true → v < b.nodeCount
  labeled : ∀ v < b.nodeCount, v ≠ node →
    b.unlabeled.contains v = true ∨ ∃ l, (b.members l).contains v = true

variable {b b' : Builder} {labels : List Label} {external node : Nat}

theorem Sound.soundBut (h : b.Sound) (node : Nat) : b.SoundBut node :=
  ⟨h.bounded, h.members, h.unlabeled, fun v hv _ => h.labeled v hv⟩

theorem members_addLabels (ht : Word32.truncate node = node) (b : Builder) (labels : List Label) (l : Label)
    (v : Nat) :
    ((b.addLabels node labels).members l).contains v =
      ((decide (v = node) && decide (l ∈ labels)) || (b.members l).contains v) := by
  simp only [addLabels, members]
  generalize b.labels = m
  induction labels generalizing m
  case nil => simp
  case cons l' labels hi =>
    rw [List.foldl_cons, hi, NameMap.alter_eq]
    by_cases hl : l = l'
    case pos =>
      subst hl
      rw [NameMap.find?_insert_self, Option.getD_some, NodeSet.contains_insert, ht]
      by_cases hv : v = node <;> simp [hv]
    case neg => simp [NameMap.find?_insert_of_ne _ _ hl, hl]

theorem empty_sound : Sound {} where
  bounded := Nat.zero_le _
  members := by simp [members]
  unlabeled := by simp
  labeled v hv := absurd hv (Nat.not_lt_zero v)

-- It does not matter whether the node had a label before.
theorem addLabels_sound (h : b.SoundBut node) (hv : node < b.nodeCount) (hl : labels ≠ []) :
    (b.addLabels node labels).Sound := by
  have ht := truncate_of_lt hv h.bounded
  refine ⟨h.bounded, fun l v => ?members, fun v => ?unlabeled, fun v hlt => ?labeled⟩
  case members =>
    rw [members_addLabels ht, Bool.or_eq_true, Bool.and_eq_true, decide_eq_true_eq]
    intro hc
    cases hc
    case inl hc => exact hc.left ▸ hv
    case inr hc => exact h.members l v hc
  case unlabeled =>
    simp only [addLabels, NodeSet.contains_erase, Bool.and_eq_true]
    exact fun hc => h.unlabeled v hc.right
  case labeled =>
    by_cases hn : v = node
    case pos =>
      have ⟨l, hm⟩ := List.exists_mem_of_ne_nil labels hl
      exact .inr ⟨l, by simp [members_addLabels ht, hn, hm]⟩
    case neg =>
      refine (h.labeled v hlt hn).imp (fun hc => ?_) fun ⟨l, hc⟩ => ⟨l, by simp [members_addLabels ht, hc]⟩
      simp [addLabels, NodeSet.contains_erase, ht, hn, hc]

-- Numbers a node that has no label yet.
def pushId (b : Builder) (external : Nat) (fresh : b.externals.number? external = none) : Builder :=
  { b with externals := b.externals.push external fresh }

theorem nodeCount_pushId (hf : b.externals.number? external = none) :
    (b.pushId external hf).nodeCount = b.nodeCount + 1 :=
  Numbering.size_push hf

theorem pushId_sound (h : b.Sound) (hb : b.nodeCount < Fault.maxNodeCount)
    (hf : b.externals.number? external = none) : (b.pushId external hf).SoundBut b.nodeCount := by
  have hn := nodeCount_pushId hf
  refine ⟨?bounded, fun l v hc => ?members, fun v hc => ?unlabeled, fun v hv hne => ?labeled⟩
  all_goals rw [hn] at *
  case bounded => exact hb
  case members => exact Nat.lt_succ_of_lt (h.members l v hc)
  case unlabeled => exact Nat.lt_succ_of_lt (h.unlabeled v hc)
  case labeled => exact h.labeled v (Nat.lt_of_le_of_ne (Nat.le_of_lt_succ hv) hne)

theorem insert_unlabeled_sound (h : b.SoundBut node) (hv : node < b.nodeCount) :
    Sound { b with unlabeled := b.unlabeled.insert node } where
  bounded := h.bounded
  members := h.members
  unlabeled v := by
    rw [NodeSet.contains_insert, truncate_of_lt hv h.bounded, Bool.or_eq_true, decide_eq_true_eq]
    intro hc
    cases hc
    case inl hc => exact hc ▸ hv
    case inr hc => exact h.unlabeled v hc
  labeled v hlt := by
    rw [NodeSet.contains_insert, truncate_of_lt hv h.bounded]
    by_cases hn : v = node
    case pos => exact .inl (by simp [hn])
    case neg => exact (h.labeled v hlt hn).imp (fun hc => by simp [hc]) id

theorem addNode_of_known {i : Nat} (h : b.externals.number? external = some i) (labels : List Label) :
    b.addNode external labels = (.ok i, if labels.isEmpty then b else b.addLabels i labels) := by
  simp only [addNode, get?, h]

theorem addNode_of_fresh (hf : b.externals.number? external = none)
    (hb : b.nodeCount < Fault.maxNodeCount) (labels : List Label) :
    b.addNode external labels = (.ok b.nodeCount,
      if labels.isEmpty then
        { b.pushId external hf with unlabeled := b.unlabeled.insert b.nodeCount }
      else (b.pushId external hf).addLabels b.nodeCount labels) := by
  simp only [addNode, get?, hf, if_neg (Nat.not_le.mpr hb), Numbering.add_of_fresh hf, pushId]

-- A node is refused only if it is one too many, and then nothing changes.
theorem addNode_eq_error {f : Fault} :
    b.addNode external labels = (.error f, b') ↔ b.externals.number? external = none ∧
      Fault.maxNodeCount ≤ b.nodeCount ∧ f = .tooManyNodes ∧ b' = b := by
  rw [addNode, get?]
  cases b.externals.number? external
  case some i => simp
  case none =>
    dsimp only
    split
    case isTrue hb =>
      constructor
      case mp =>
        intro h
        cases h
        exact ⟨rfl, hb, rfl, rfl⟩
      case mpr =>
        intro ⟨_, _, hf, hb⟩
        rw [hf, hb]
    case isFalse hb => exact ⟨(nomatch ·), fun ⟨_, hge, _⟩ => absurd hge hb⟩

theorem lt_of_addNode (hf : b.externals.number? external = none)
    (ha : b.addNode external labels = (.ok node, b')) : b.nodeCount < Fault.maxNodeCount := by
  by_contra hb
  simp [addNode, get?, hf, Nat.not_lt.mp hb] at ha

-- How a builder grows.
structure Grows (b b' : Builder) : Prop where
  size : b.nodeCount ≤ b'.nodeCount
  ids : ∀ v x, b.externals.id? v = some x → b'.externals.id? v = some x

theorem Grows.refl (b : Builder) : b.Grows b :=
  ⟨Nat.le_refl _, fun _ _ => id⟩

theorem Grows.trans {b'' : Builder} (h : b.Grows b') (h' : b'.Grows b'') : b.Grows b'' :=
  ⟨Nat.le_trans h.size h'.size, fun v x hx => h'.ids v x (h.ids v x hx)⟩

theorem pushId_grows (hf : b.externals.number? external = none) :
    b.Grows (b.pushId external hf) ∧
      (b.pushId external hf).externals.id? b.nodeCount = some external := by
  refine ⟨⟨?size, fun v x hx => ?ids⟩, ?id⟩
  case size => exact nodeCount_pushId hf ▸ Nat.le_succ _
  case ids =>
    have hv := Numbering.lt_size_of_id? hx
    exact (Numbering.id?_push hf v).trans ((if_neg (Nat.ne_of_lt hv)).trans hx)
  case id => exact (Numbering.id?_push hf b.nodeCount).trans (if_pos rfl)

theorem addNode_sound (h : b.Sound) (ha : b.addNode external labels = (.ok node, b')) :
    b'.Sound ∧ b.Grows b' ∧ b'.externals.id? node = some external := by
  cases hg : b.externals.number? external
  case some i =>
    have hid : b.externals.id? i = some external := Numbering.number?_eq_some.mp hg
    rw [addNode_of_known hg] at ha
    split at ha
    case isTrue =>
      cases ha
      exact ⟨h, .refl b, hid⟩
    case isFalse hl =>
      have hs := addLabels_sound (h.soundBut i) (Numbering.lt_size_of_id? hid) (by simpa using hl)
      cases ha
      exact ⟨hs, ⟨Nat.le_refl _, fun _ _ => id⟩, hid⟩
  case none =>
    have hb := lt_of_addNode hg ha
    have hs := pushId_sound h hb hg
    have ⟨hx, hid⟩ := pushId_grows hg
    have hlt : b.nodeCount < (b.pushId external hg).nodeCount := nodeCount_pushId hg ▸ Nat.lt_succ_self _
    rw [addNode_of_fresh hg hb] at ha
    split at ha
    case isTrue =>
      cases ha
      exact ⟨insert_unlabeled_sound hs hlt, ⟨hx.size, hx.ids⟩, hid⟩
    case isFalse hl =>
      cases ha
      exact ⟨addLabels_sound hs hlt (by simpa using hl), ⟨hx.size, hx.ids⟩, hid⟩

theorem members_build (hb : b.nodeCount ≤ Fault.maxNodeCount) (l : Label) (v : Nat) :
    (b.build.members l).contains v =
      if b.labels.isEmpty then decide (l = .allNodes ∧ v < b.nodeCount)
      else (b.members l).contains v || (decide (l = .allNodes) && b.unlabeled.contains v) := by
  rw [IdMap.members, members?, build]
  split
  case isTrue he =>
    by_cases hl : l = .allNodes
    case neg => simp [NameMap.find?_insert_of_ne _ _ hl, NameMap.isEmpty_iff.mp he, hl]
    case pos =>
      rw [hl, NameMap.find?_insert_self, Option.getD_some]
      split
      case isTrue h₀ => simp [h₀]
      case isFalse h₀ =>
        rw [NodeSet.contains_upTo, truncate_of_lt (Nat.sub_one_lt h₀) hb, decide_eq_decide]
        simp
        omega
  case isFalse he =>
    simp only [Bool.not_eq_true] at he
    split
    case isTrue hu => simp [members, NodeSet.contains_of_isEmpty hu]
    case isFalse hu =>
      rw [NameMap.alter_eq]
      by_cases hl : l = .allNodes
      case pos => simp [hl, NameMap.find?_insert_self, NodeSet.contains_union, members]
      case neg => simp [NameMap.find?_insert_of_ne _ _ hl, members, hl]

-- What has a label keeps it.
theorem contains_build (hb : b.nodeCount ≤ Fault.maxNodeCount) {l : Label} {v : Nat}
    (h : (b.members l).contains v = true) : (b.build.members l).contains v = true := by
  rw [members_build hb]
  split
  case isTrue he =>
    rw [members, NameMap.isEmpty_iff.mp he] at h
    cases h
  case isFalse => rw [h, Bool.true_or]

theorem build_sound (h : b.Sound) : b.build.Sound where
  bounded := h.bounded
  members l v := by
    rw [members_build h.bounded]
    split
    case isTrue => exact fun hc => (of_decide_eq_true hc).right
    case isFalse =>
      rw [Bool.or_eq_true, Bool.and_eq_true]
      intro hc
      cases hc
      case inl hc => exact h.members l v hc
      case inr hc => exact h.unlabeled v hc.right
  labeled v hv := by
    simp only [members_build h.bounded]
    split
    case isTrue => exact ⟨.allNodes, decide_eq_true ⟨rfl, hv⟩⟩
    case isFalse =>
      cases h.labeled v hv
      case inl hu => exact ⟨.allNodes, by simp [hu]⟩
      case inr hm =>
        have ⟨l, hl⟩ := hm
        exact ⟨l, by simp [hl]⟩
  known := by
    have hk : ∃ l s, b.build.labels.find? l = some s := by
      rw [build]
      split
      case isTrue => exact ⟨_, _, NameMap.find?_insert_self ..⟩
      case isFalse he =>
        split
        case isTrue =>
          by_contra hn
          exact he (NameMap.isEmpty_iff.mpr fun l => by
            cases hf : b.labels.find? l
            case none => rfl
            case some s => exact absurd ⟨l, s, hf⟩ hn)
        case isFalse =>
          rw [NameMap.alter_eq]
          exact ⟨_, _, NameMap.find?_insert_self ..⟩
    have ⟨l, s, hf⟩ := hk
    exact List.ne_nil_of_mem (NameMap.mem_keys_iff.mpr ⟨s, hf⟩)

end Builder

namespace Builder

variable {nodes : List (Nat × List Label)} {b b' : Builder}

-- Adds nodes with their labels one after the other.
def addNodes (b : Builder) (nodes : List (Nat × List Label)) : Except Fault Builder :=
  nodes.foldlM (fun (b : Builder) (external, labels) => Outcome.after (b.addNode external labels)) b

theorem addNodes_sound (h : b.Sound) (hb : b.addNodes nodes = .ok b') : b'.Sound ∧ b.Grows b' := by
  induction nodes generalizing b
  case nil =>
    have hb : b = b' := by simpa [addNodes] using hb
    exact hb ▸ ⟨h, .refl b⟩
  case cons node nodes hi =>
    have ⟨b₁, h₁, hb⟩ := Outcome.bind_eq_ok.mp hb
    have ⟨v, ha⟩ := Outcome.after_eq_ok.mp h₁
    have ⟨hs, hg, _⟩ := addNode_sound h ha
    have ⟨hs', hg'⟩ := hi hs hb
    exact ⟨hs', hg.trans hg'⟩

-- A fresh id is numbered next and filed under its labels.
theorem exists_addNode {external : Nat} (hf : b.externals.number? external = none)
    (hb : b.nodeCount < Fault.maxNodeCount) (labels : List Label) :
    ∃ b', b.addNode external labels = (.ok b.nodeCount, b') ∧
      b'.externals.ids.toList = b.externals.ids.toList ++ [external] ∧
      ∀ l v, (b'.members l).contains v =
        ((decide (v = b.nodeCount) && decide (l ∈ labels)) || (b.members l).contains v) := by
  refine ⟨_, addNode_of_fresh hf hb labels, ?_⟩
  have hp : (b.externals.push external hf).ids.toList = b.externals.ids.toList ++ [external] :=
    Array.toList_push
  split
  case isTrue hl => exact ⟨hp, fun l v => by simp [members, pushId, List.isEmpty_iff.mp hl]⟩
  case isFalse => exact ⟨hp, fun l v => members_addLabels (Word32.truncate_of_lt hb) (b.pushId external hf) ..⟩

-- Nodes that were added one after the other lead from one builder to the other.
def Gains (b b' : Builder) : Prop := ∃ nodes, b.addNodes nodes = .ok b'

theorem Gains.sound (h : b.Gains b') (hb : b.Sound) : b'.Sound ∧ b.Grows b' :=
  h.elim fun _ hn => addNodes_sound hb hn

theorem Gains.refl (b : Builder) : b.Gains b :=
  ⟨[], rfl⟩

theorem Gains.trans {b'' : Builder} (h : b.Gains b') (h' : b'.Gains b'') : b.Gains b'' := by
  obtain ⟨nodes, hn⟩ := h
  obtain ⟨nodes', hn'⟩ := h'
  rw [addNodes] at hn hn'
  exact ⟨nodes ++ nodes', by rw [addNodes, List.foldlM_append, hn, Outcome.ok_bind, hn']⟩

theorem Gains.of_addNode {external node : Nat} {labels : List Label}
    (h : b.addNode external labels = (.ok node, b')) : b.Gains b' :=
  ⟨[(external, labels)], by simp [addNodes, h]⟩

-- Distinct nodes are numbered in order, each with its labels.
theorem exists_addNodes (hd : (b.externals.ids.toList ++ nodes.map (·.1)).Nodup)
    (hb : b.nodeCount + nodes.length ≤ Fault.maxNodeCount) :
    ∃ b', b.addNodes nodes = .ok b' ∧
      b'.externals.ids.toList = b.externals.ids.toList ++ nodes.map (·.1) ∧
      (∀ l v, (b.members l).contains v = true → (b'.members l).contains v = true) ∧
      ∀ (i : Nat) node, nodes[i]? = some node → ∀ l ∈ node.2,
        (b'.members l).contains (b.nodeCount + i) = true := by
  induction nodes generalizing b
  case nil => exact ⟨b, rfl, by simp, fun _ _ => id, by simp⟩
  case cons node nodes hi =>
    have hnew : node.1 ∉ b.externals.ids.toList := fun hm =>
      (List.nodup_append.mp hd).2.2 _ hm _ List.mem_cons_self rfl
    have hf : b.externals.number? node.1 = none :=
      (Numbering.number?_eq_idxOf? ..).trans (List.idxOf?_eq_none_iff.mpr hnew)
    rw [List.length_cons] at hb
    have ⟨b₁, ha, hids, hm⟩ := exists_addNode hf (by omega) node.2
    have hcount : b₁.nodeCount = b.nodeCount + 1 := by
      have hlen := congrArg List.length hids
      rwa [List.length_append, Array.length_toList, Array.length_toList] at hlen
    have ⟨b', hadd, hids', hkept, hlabels⟩ := @hi b₁ (by simpa [hids] using hd) (by omega)
    refine ⟨b', ?add, by simp [hids', hids], fun l v hc => hkept l v (by simp [hm, hc]), ?labels⟩
    case add => exact Outcome.bind_eq_ok.mpr ⟨b₁, Outcome.after_eq_ok.mpr ⟨_, ha⟩, hadd⟩
    case labels =>
      intro i node' hnode l hl
      cases i
      case zero =>
        have he : node = node' := by simpa using hnode
        exact hkept l _ (by simp [hm, he, hl])
      case succ i =>
        have hc := hlabels i node' (by simpa using hnode) l hl
        rwa [hcount, Nat.add_right_comm] at hc

end Builder

theorem ofNodes_sound {nodes : List (Nat × List Label)} (h : ofNodes nodes = .ok m) : m.Sound := by
  have ⟨b, hb, hm⟩ := Outcome.bind_eq_ok.mp h
  have hm : b.build = m := by simpa using hm
  exact hm ▸ Builder.build_sound (Builder.addNodes_sound Builder.empty_sound hb).left

theorem exists_ofNodes_labeled {nodes : List (Nat × List Label)} (hd : (nodes.map (·.1)).Nodup)
    (hn : nodes.length ≤ Fault.maxNodeCount) :
    ∃ m, ofNodes nodes = .ok m ∧ m.nodeCount = nodes.length ∧
      ∀ (i : Nat) node, nodes[i]? = some node → ∀ l ∈ node.2, (m.members l).contains i = true := by
  have ⟨b, hb, hids, _, hlabels⟩ := @Builder.exists_addNodes nodes {} hd ((Nat.zero_add _).symm ▸ hn)
  have hbounded := (Builder.addNodes_sound Builder.empty_sound hb).left.bounded
  refine ⟨b.build, Outcome.bind_eq_ok.mpr ⟨b, hb, rfl⟩, ?count, fun i node hi l hl =>
    Builder.contains_build hbounded ?label⟩
  case count =>
    have hlen : b.nodeCount = (nodes.map (·.1)).length := congrArg List.length hids
    rw [List.length_map] at hlen
    exact hlen
  case label => exact Nat.zero_add i ▸ hlabels i node hi l hl

theorem exists_ofNodes {nodes : List (Nat × List Label)} (hd : (nodes.map (·.1)).Nodup)
    (hn : nodes.length ≤ Fault.maxNodeCount) :
    ∃ m, ofNodes nodes = .ok m ∧ m.nodeCount = nodes.length :=
  have ⟨m, hm, hcount, _⟩ := exists_ofNodes_labeled hd hn
  ⟨m, hm, hcount⟩

end PropertyGraph.IdMap
