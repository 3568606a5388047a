import Mathlib.Data.List.Induction
import Mathlib.Data.List.Nodup
import PropertyGraph.Proofs.Node.IdMap

namespace PropertyGraph.IdMap

variable {calls before : List (Nat × List Label)} {x y v : Nat} {l : Label} {ls : List Label}

-- The external ids of the calls, each where it came first.
def named (calls : List (Nat × List Label)) : List Nat :=
  (calls.map (·.1)).eraseDups

-- All labels that the calls gave an external id.
def givenTo (calls : List (Nat × List Label)) (external : Nat) : List Label :=
  (calls.filter (·.1 = external)).flatMap (·.2)

-- A map that has what the calls added, and nothing else.
structure Reflects (m : IdMap) (calls : List (Nat × List Label)) : Prop where
  nodeCount : m.nodeCount = (named calls).length
  ids : ∀ v x, m.toExternal v = .ok x ↔ (named calls)[v]? = some x
  inverse : ∀ v x, m.toInternal? x = some v ↔ m.toExternal v = .ok x
  dense : ∀ v < m.nodeCount, ∃ x ∈ calls.map (·.1), m.toInternal? x = some v
  known : ∀ x ∈ calls.map (·.1), ∃ v < m.nodeCount, m.toInternal? x = some v
  labels : ∀ v x, m.toExternal v = .ok x → ∀ l,
    l ∈ m.labelsOf v ↔ l ∈ givenTo calls x ∨ givenTo calls x = [] ∧ l = .allNodes
  labelsInOrder : ∀ v, (m.labelsOf v).Pairwise (·.name < ·.name)
  labeled : ∀ v < m.nodeCount, m.labelsOf v ≠ []
  members : ∀ l ∈ m.availableLabels, (∀ v, (m.members l).contains v = true → v < m.nodeCount) ∧
    (m.nodeCount ≠ 0 → ∃ v, (m.members l).contains v = true)
  coversAll : ∀ ls, (∀ l ∈ ls, l ∈ m.availableLabels) → ∃ covers, m.coversAll ls = .ok covers ∧
    (covers = true ↔ ∀ v < m.nodeCount, ∃ l ∈ ls, l ∈ m.labelsOf v)

theorem toExternal_eq_ok {m : IdMap} : m.toExternal v = .ok x ↔ m.externals.id? v = some x := by
  rw [toExternal]
  cases m.externals.id? v <;> simp

theorem toInternal?_eq_some {m : IdMap} : m.toInternal? x = some v ↔ m.externals.id? v = some x :=
  Numbering.number?_eq_some

theorem mem_named : x ∈ named calls ↔ x ∈ calls.map (·.1) :=
  List.mem_eraseDups

theorem named_append (before calls : List (Nat × List Label)) :
    named (before ++ calls) = named before ++ ((calls.map (·.1)).removeAll (before.map (·.1))).eraseDups := by
  rw [named, List.map_append, List.eraseDups_append, named]

theorem named_concat (calls : List (Nat × List Label)) (x : Nat) (ls : List Label) :
    named (calls ++ [(x, ls)]) = if x ∈ named calls then named calls else named calls ++ [x] := by
  have hr : [x].removeAll (calls.map (·.1)) = if x ∈ named calls then [] else [x] := by
    simp only [mem_named, List.removeAll, List.filter_cons, List.filter_nil]
    split <;> simp_all
  rw [named_append, List.map_singleton, hr]
  split
  case isTrue => exact List.append_nil _
  case isFalse => rfl

theorem nodup_named (calls : List (Nat × List Label)) : (named calls).Nodup := by
  induction calls using List.reverseRecOn
  case nil => exact .nil
  case append_singleton calls c hi =>
    rw [named_concat]
    split
    case isTrue => exact hi
    case isFalse hnew => exact List.concat_eq_append ▸ hi.concat hnew

theorem givenTo_concat (calls : List (Nat × List Label)) (x : Nat) (ls : List Label) (y : Nat) :
    givenTo (calls ++ [(x, ls)]) y = givenTo calls y ++ if y = x then ls else [] := by
  rw [givenTo, List.filter_append, List.flatMap_append, givenTo]
  by_cases h : y = x
  case pos => simp [h]
  case neg => simp [h, Ne.symm h]

theorem givenTo_concat_nil (calls : List (Nat × List Label)) (x y : Nat) :
    givenTo (calls ++ [(x, [])]) y = givenTo calls y := by
  rw [givenTo_concat, ite_self, List.append_nil]

-- An id that no call named was given nothing.
theorem givenTo_of_not_named (h : x ∉ named calls) : givenTo calls x = [] := by
  rw [givenTo, List.filter_eq_nil_iff.mpr fun c hc he => ?_, List.flatMap_nil]
  exact h (mem_named.mpr (List.mem_map.mpr ⟨c, hc, of_decide_eq_true he⟩))

namespace Builder

variable {b b' : Builder} {node : Nat}

-- Adds nodes one after the other, and tells what each call answered.
def addAll (b : Builder) : List (Nat × List Label) → Except Fault (List Nat × Builder)
  | [] => .ok ([], b)
  | (external, labels) :: calls => do
    let (answer, b) := b.addNode external labels
    let node ← answer
    let (nodes, b) ← b.addAll calls
    return (node :: nodes, b)

-- Which labels the nodes of a builder have. Pending nodes may still be without any.
structure Files (b : Builder) (calls : List (Nat × List Label)) (pending : Nat → Prop) : Prop where
  members : ∀ v x, b.externals.id? v = some x → ∀ l, (b.members l).contains v = decide (l ∈ givenTo calls x)
  unlabeled : ∀ v x, b.externals.id? v = some x → ¬pending v →
    b.unlabeled.contains v = (givenTo calls x).isEmpty
  filled : ∀ l s, b.labels.find? l = some s → ∃ v, s.contains v = true

-- A builder that calls have led to.
structure Tracks (b : Builder) (calls : List (Nat × List Label)) : Prop where
  sound : b.Sound
  ids : b.externals.ids.toList = named calls
  files : b.Files calls fun _ => False

theorem Files.mono {pending pending' : Nat → Prop} (h : b.Files calls pending) (hp : ∀ v, pending v → pending' v) :
    b.Files calls pending' :=
  ⟨h.members, fun v x hx hv => h.unlabeled v x hx (mt (hp v) hv), h.filled⟩

theorem find?_addLabels_of_not_mem (h : l ∉ ls) (b : Builder) (node : Nat) :
    (b.addLabels node ls).labels.find? l = b.labels.find? l := by
  simp only [addLabels]
  generalize b.labels = m
  induction ls generalizing m
  case nil => rfl
  case cons l' ls hi =>
    rw [List.mem_cons, not_or] at h
    rw [List.foldl_cons, hi h.right, NameMap.alter_eq, NameMap.find?_insert_of_ne _ _ h.left]

theorem filled_addLabels (h : ∀ l s, b.labels.find? l = some s → ∃ v, s.contains v = true)
    (ht : Word32.truncate node = node) (ls : List Label) :
    ∀ l s, (b.addLabels node ls).labels.find? l = some s → ∃ v, s.contains v = true := by
  intro l s hs
  by_cases hl : l ∈ ls
  case neg => exact h l s (find?_addLabels_of_not_mem hl b node ▸ hs)
  case pos =>
    have hc := members_addLabels ht b ls l node
    rw [members, hs, Option.getD_some] at hc
    exact ⟨node, by simp [hc, hl]⟩

-- The labels of a call are filed under the node of the call and no other.
theorem addLabels_files (ht : Word32.truncate node = node) (h : b.Files calls (· = node))
    (hx : b.externals.id? node = some x) (hl : ls ≠ []) :
    (b.addLabels node ls).Files (calls ++ [(x, ls)]) fun _ => False := by
  have hsame : ∀ v y, b.externals.id? v = some y → (v = node ↔ y = x) := fun v y hy =>
    ⟨fun he => Option.some.inj ((he ▸ hy).symm.trans hx), fun he => Numbering.id?_injective hy (he ▸ hx)⟩
  refine ⟨fun v y hy l => ?members, fun v y hy _ => ?unlabeled, filled_addLabels h.filled ht ls⟩
  case members =>
    have hy : b.externals.id? v = some y := hy
    rw [members_addLabels ht, h.members v y hy, givenTo_concat]
    by_cases he : y = x
    case pos => simp [he, (hsame v y hy).mpr he, Bool.or_comm]
    case neg => simp [he, mt (hsame v y hy).mp he]
  case unlabeled =>
    have hy : b.externals.id? v = some y := hy
    simp only [addLabels, NodeSet.contains_erase, ht]
    rw [givenTo_concat]
    by_cases he : y = x
    case pos => simp [he, (hsame v y hy).mpr he, hl]
    case neg =>
      have hv := mt (hsame v y hy).mp he
      simp [he, hv, h.unlabeled v y hy hv]

theorem Tracks.id?_iff (h : b.Tracks calls) : b.externals.id? v = some x ↔ (named calls)[v]? = some x := by
  rw [← h.ids, Array.getElem?_toList, Numbering.id?]

theorem Tracks.named_of_id? (h : b.Tracks calls) (hx : b.externals.id? v = some x) : x ∈ named calls :=
  List.mem_of_getElem? (h.id?_iff.mp hx)

theorem Tracks.not_named (h : b.Tracks calls) (hf : b.externals.number? x = none) : x ∉ named calls := by
  rw [← h.ids]
  exact List.idxOf?_eq_none_iff.mp ((Numbering.number?_eq_idxOf? ..).symm.trans hf)

theorem Tracks.nodeCount_eq (h : b.Tracks calls) : b.nodeCount = (named calls).length :=
  h.ids ▸ (Array.length_toList ..).symm

-- A node that is named for the first time was given nothing so far.
theorem Tracks.pushId_files (h : b.Tracks calls) (hf : b.externals.number? x = none) :
    (b.pushId x hf).Files calls (· = b.nodeCount) := by
  have hnew := h.not_named hf
  have hid : ∀ v y, (b.pushId x hf).externals.id? v = some y →
      v = b.nodeCount ∧ y = x ∨ v ≠ b.nodeCount ∧ b.externals.id? v = some y := by
    intro v y hy
    rw [pushId, Numbering.id?_push hf v] at hy
    by_cases hv : v = b.externals.size
    case pos => exact .inl ⟨hv, by simpa [hv, eq_comm] using hy⟩
    case neg => exact .inr ⟨hv, by simpa [hv] using hy⟩
  refine ⟨fun v y hy l => ?members, fun v y hy hv => ?unlabeled, h.files.filled⟩
  case members =>
    cases hid v y hy
    case inr hold => exact h.files.members v y hold.right l
    case inl hself =>
      obtain ⟨rfl, rfl⟩ := hself
      have hno : (b.members l).contains b.nodeCount = false :=
        Bool.eq_false_iff.mpr fun hc => Nat.lt_irrefl _ (h.sound.members l _ hc)
      exact hno.trans (by simp [givenTo_of_not_named hnew])
  case unlabeled =>
    cases hid v y hy
    case inr hold => exact h.files.unlabeled v y hold.right id
    case inl hself => exact absurd hself.left hv

theorem insert_unlabeled_files (ht : Word32.truncate node = node) (h : b.Files calls (· = node))
    (hx : b.externals.id? node = some x) (hg : givenTo calls x = []) :
    Files { b with unlabeled := b.unlabeled.insert node } (calls ++ [(x, [])]) fun _ => False := by
  refine ⟨fun v y hy l => givenTo_concat_nil calls x y ▸ h.members v y hy l, fun v y hy _ => ?unlabeled, h.filled⟩
  case unlabeled =>
    have hy : b.externals.id? v = some y := hy
    simp only [NodeSet.contains_insert, ht]
    rw [givenTo_concat_nil]
    by_cases hv : v = node
    case pos =>
      obtain rfl : x = y := Option.some.inj (hx.symm.trans (hv ▸ hy))
      simp [hv, hg]
    case neg => simp [hv, h.unlabeled v y hy hv]

theorem addNode_tracks (h : b.Tracks calls) (ha : b.addNode x ls = (.ok node, b')) :
    b'.Tracks (calls ++ [(x, ls)]) := by
  have ⟨hs, _, _⟩ := addNode_sound h.sound ha
  cases hg : b.externals.number? x
  case some i =>
    have hid : b.externals.id? i = some x := Numbering.number?_eq_some.mp hg
    have hnamed : named (calls ++ [(x, ls)]) = named calls := by rw [named_concat, if_pos (h.named_of_id? hid)]
    rw [addNode_of_known hg] at ha
    split at ha
    case isTrue hl =>
      cases ha
      cases List.isEmpty_iff.mp hl
      refine ⟨hs, h.ids.trans hnamed.symm, fun v y hy l => ?members, fun v y hy hv => ?unlabeled, h.files.filled⟩
      case members => exact givenTo_concat_nil calls x y ▸ h.files.members v y hy l
      case unlabeled => exact givenTo_concat_nil calls x y ▸ h.files.unlabeled v y hy hv
    case isFalse hl =>
      cases ha
      have ht := truncate_of_lt (Numbering.lt_size_of_id? hid) h.sound.bounded
      exact ⟨hs, h.ids.trans hnamed.symm, addLabels_files ht (h.files.mono fun _ => False.elim) hid (by simpa using hl)⟩
  case none =>
    have hnew := h.not_named hg
    have hnamed : named (calls ++ [(x, ls)]) = named calls ++ [x] := by rw [named_concat, if_neg hnew]
    have hids : (b.externals.push x hg).ids.toList = named (calls ++ [(x, ls)]) := by
      rw [hnamed, ← h.ids]
      exact Array.toList_push
    have hf := h.pushId_files hg
    have ⟨_, hid⟩ := pushId_grows hg
    have ht := Word32.truncate_of_lt (lt_of_addNode hg ha)
    rw [addNode_of_fresh hg (lt_of_addNode hg ha)] at ha
    split at ha
    case isTrue hl =>
      cases ha
      exact ⟨hs, hids, List.isEmpty_iff.mp hl ▸ insert_unlabeled_files ht hf hid (givenTo_of_not_named hnew)⟩
    case isFalse hl =>
      cases ha
      exact ⟨hs, hids, addLabels_files ht hf hid (by simpa using hl)⟩

theorem empty_tracks : Tracks {} [] where
  sound := empty_sound
  ids := rfl
  files := ⟨fun _ _ hx => (by cases hx), fun _ _ hx => (by cases hx), fun _ _ hs => (by cases hs)⟩

-- A call fails only where one node more is too many.
theorem Tracks.exists_addNode (h : b.Tracks before)
    (hn : (named (before ++ [(x, ls)])).length ≤ Fault.maxNodeCount) :
    ∃ v b', b.addNode x ls = (.ok v, b') := by
  cases hg : b.externals.number? x
  case some i => exact ⟨i, _, addNode_of_known hg ls⟩
  case none =>
    rw [named_concat, if_neg (h.not_named hg), List.length_append, ← h.nodeCount_eq] at hn
    exact ⟨_, _, addNode_of_fresh hg hn ls⟩

-- Every call answers the number that its id has in the end.
theorem addAll_tracks (h : b.Tracks before) (hn : (named (before ++ calls)).length ≤ Fault.maxNodeCount) :
    ∃ vs b', b.addAll calls = .ok (vs, b') ∧ b'.Tracks (before ++ calls) ∧ b.Grows b' ∧
      List.Forall₂ (fun c v => b'.externals.id? v = some c.1) calls vs := by
  induction calls generalizing b before
  case nil => exact ⟨[], b, rfl, (List.append_nil before).symm ▸ h, .refl b, .nil⟩
  case cons c calls hi =>
    have ⟨x, ls⟩ := c
    have he : before ++ (x, ls) :: calls = before ++ [(x, ls)] ++ calls := by simp
    have hone : (named (before ++ [(x, ls)])).length ≤ Fault.maxNodeCount := by
      rw [he, named_append, List.length_append] at hn
      exact Nat.le_trans (Nat.le_add_right ..) hn
    have ⟨v, b₁, ha⟩ := h.exists_addNode hone
    have ⟨_, hg, hid⟩ := addNode_sound h.sound ha
    have ⟨vs, b', hall, ht, hg', hvs⟩ := hi (addNode_tracks h ha) (he ▸ hn)
    refine ⟨v :: vs, b', ?run, he ▸ ht, hg.trans hg', .cons (hg'.ids v x hid) hvs⟩
    case run => simp only [addAll, ha, hall, Outcome.ok_bind, Outcome.pure_eq_ok]

variable (h : b.Tracks calls)

include h in
-- The two ways of building agree on the labels of a node.
theorem Tracks.mem_labelsOf_build (hx : b.externals.id? v = some x) :
    l ∈ b.build.labelsOf v ↔ l ∈ givenTo calls x ∨ givenTo calls x = [] ∧ l = .allNodes := by
  rw [mem_labelsOf, members_build h.sound.bounded]
  split
  case isTrue he =>
    have hnone : ∀ l, l ∉ givenTo calls x := fun l hl => by
      have hc := h.files.members v x hx l
      rw [members, NameMap.isEmpty_iff.mp he, decide_eq_true hl] at hc
      cases hc
    simp [List.eq_nil_iff_forall_not_mem.mpr hnone, Numbering.lt_size_of_id? hx, nodeCount]
  case isFalse =>
    rw [h.files.members v x hx, h.files.unlabeled v x hx id]
    simp [and_comm]

include h in
theorem Tracks.exists_member (hl : l ∈ b.build.availableLabels) (hn : b.nodeCount ≠ 0) :
    ∃ v, (b.build.members l).contains v = true := by
  have ⟨s, hs⟩ := NameMap.mem_keys_iff.mp hl
  simp only [members_build h.sound.bounded]
  rw [build] at hs
  split at hs
  case isTrue he =>
    simp only [he, if_true, decide_eq_true_eq]
    by_cases ha : l = .allNodes
    case pos => exact ⟨0, ha, Nat.pos_of_ne_zero hn⟩
    case neg => simp [NameMap.find?_insert_of_ne _ _ ha, NameMap.isEmpty_iff.mp he] at hs
  case isFalse he =>
    simp only [he, Bool.false_eq_true, if_false]
    have hfilled : ∀ s, b.labels.find? l = some s → ∃ v, (b.members l).contains v = true := fun s hs =>
      (h.files.filled l s hs).imp fun v hv => by rwa [members, hs]
    split at hs
    case isTrue => exact (hfilled s hs).imp fun v hv => by rw [hv, Bool.true_or]
    case isFalse hu =>
      by_cases ha : l = .allNodes
      case pos => exact (NodeSet.exists_contains hu).imp fun v hv => by simp [ha, hv]
      case neg =>
        rw [NameMap.alter_eq, NameMap.find?_insert_of_ne _ _ ha] at hs
        exact (hfilled s hs).imp fun v hv => by rw [hv, Bool.true_or]

include h in
theorem Tracks.build_reflects : b.build.Reflects calls where
  nodeCount := h.nodeCount_eq
  ids v x := toExternal_eq_ok.trans h.id?_iff
  inverse v x := toInternal?_eq_some.trans toExternal_eq_ok.symm
  dense v hv :=
    have ⟨x, hx⟩ := Numbering.exists_id? hv
    ⟨x, mem_named.mp (h.named_of_id? hx), toInternal?_eq_some.mpr hx⟩
  known x hx :=
    have ⟨_, hv⟩ := List.mem_iff_getElem?.mp (mem_named.mpr hx)
    have hid := h.id?_iff.mpr hv
    ⟨_, Numbering.lt_size_of_id? hid, toInternal?_eq_some.mpr hid⟩
  labels v x hx l := h.mem_labelsOf_build (toExternal_eq_ok.mp hx)
  labelsInOrder v := List.pairwise_map.mpr (b.build.labels.sorted.filter _)
  labeled v hv :=
    have ⟨_, hl⟩ := (build_sound h.sound).labeled v hv
    List.ne_nil_of_mem (mem_labelsOf.mpr hl)
  members l hl := ⟨(build_sound h.sound).members l, h.exists_member hl⟩
  coversAll ls hls := by
    have ⟨s, hs⟩ := unionOf_of_known fun l hl => NameMap.mem_keys_iff.mp (hls l hl)
    have hc : b.build.coversAll ls = .ok (decide (s.size = b.build.nodeCount)) := by simp [IdMap.coversAll, hs]
    refine ⟨_, hc, ((build_sound h.sound).coversAll_iff hc).trans ?_⟩
    simp only [carries_iff, mem_labelsOf]

end Builder

-- As long as there are not too many nodes, every call succeeds, and the map is built to what the calls said.
theorem addAll_reflects (hn : (named calls).length ≤ Fault.maxNodeCount) :
    ∃ vs b, Builder.addAll {} calls = .ok (vs, b) ∧ b.build.Reflects calls ∧
      List.Forall₂ (fun c v => b.build.toInternal? c.1 = some v) calls vs := by
  have ⟨vs, b, hall, ht, _, hvs⟩ := @Builder.addAll_tracks calls [] {} Builder.empty_tracks hn
  exact ⟨vs, b, hall, ht.build_reflects, hvs.imp fun _ _ hid => toInternal?_eq_some.mpr hid⟩

theorem addAll_reflects_of_late_label :
    let calls : List (Nat × List Label) := [(7, []), (9, [⟨"A"⟩, .allNodes]), (7, [⟨"B"⟩]), (5, []), (9, [])]
    named calls = [7, 9, 5] ∧
      ∃ vs b, Builder.addAll {} calls = .ok (vs, b) ∧ b.build.Reflects calls ∧
        List.Forall₂ (fun c v => b.build.toInternal? c.1 = some v) calls vs :=
  ⟨by decide, addAll_reflects (by decide)⟩

end PropertyGraph.IdMap
