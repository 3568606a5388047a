import PropertyGraph.Proofs.Store.Properties

namespace PropertyGraph.Store

inductive Mutation
  | addNodeProperty (ls : List Label) (key : String) (values : NodeValues)
  | removeNodeProperty (l : Label) (key : String)
  | addRelationshipType (t : RelType) (rs : Relationships)
  | deleteRelationships (t : RelType)
  | canRelease (allowed : Bool)
  | release

-- What a change answers that does not fail.
inductive Reply
  | done
  | told (yes : Bool)
  | dropped (d : Deletion)

-- What a change answers, and the store that it leaves behind, also when it fails.
def answer (s : Store) : Mutation → Except Fault Reply × Store
  | .addNodeProperty ls key values =>
    let (answer, s) := s.addNodeProperty ls key values
    (answer.map fun () => .done, s)
  | .removeNodeProperty l key =>
    let (answer, s) := s.removeNodeProperty l key
    (answer.map .told, s)
  | .addRelationshipType t rs =>
    let (answer, s) := s.addRelationshipType t rs
    (answer.map .told, s)
  | .deleteRelationships t =>
    let (answer, s) := s.deleteRelationships t
    (answer.map .dropped, s)
  | .canRelease allowed => (.ok .done, s.canRelease allowed)
  | .release =>
    let (released, s) := s.release
    (.ok (.told released), s)

def mutate (s : Store) (m : Mutation) : Store :=
  (s.answer m).2

def reply (s : Store) (m : Mutation) : Except Fault Reply :=
  (s.answer m).1

def run (s : Store) (ms : List Mutation) : Store :=
  ms.foldl mutate s

-- What a change makes of a store, unless it leaves the store as it is.
inductive Step (s : Store) : Mutation → Store → Prop
  | addNodeProperty {ls key values} : (∀ l ∈ ls, s.nodes.hasLabel l = true) → values.nodeCount = s.nodeCount →
    Step s (.addNodeProperty ls key values)
      (s.commit .addNodeProperty (s.catalog.addNodeProperty ls ⟨key, .transient, values⟩).2)
  | removeNodeProperty {l key} : Step s (.removeNodeProperty l key)
      (s.commit .removeNodeProperty (s.catalog.removeNodeProperty l key))
  | addRelationshipType {t rs ps} : rs.topology.nodeCount = s.nodeCount →
    Catalog.fitColumns t rs.topology rs.properties .transient = .ok ps →
    s.catalog.topologies.contains t = false →
    Step s (.addRelationshipType t rs) (s.commit .addRelationshipType (s.catalog.addType t rs.topology ps))
  | deleteRelationships {t} : Step s (.deleteRelationships t)
      (s.commit .deleteRelationships (s.catalog.deleteType t))
  | canRelease {allowed} : Step s (.canRelease allowed) (s.canRelease allowed)
  | release : s.isReleasable = true → Step s .release {
      s with catalog := {}, generation := s.generation + 1, metrics := s.metrics.map (·.released) }

-- A reply that says that nothing was done.
inductive Negative : Except Fault Reply → Prop
  | failed (f : Fault) : Negative (.error f)
  | told : Negative (.ok (.told false))

def Admits (s : Store) : Mutation → Prop
  | .addNodeProperty ls key values => (∀ l ∈ ls, s.nodes.hasLabel l = true) ∧ values.nodeCount = s.nodeCount ∧
      ∀ type, s.catalog.nodePropertyType? key = some type → type = values.type
  | .removeNodeProperty l _ => s.nodes.hasLabel l = true
  | .addRelationshipType _ rs => rs.topology.nodeCount = s.nodeCount ∧
      ∀ key values, rs.properties.find? key = some values → Catalog.Fits rs.topology values
  | .deleteRelationships t => s.catalog.topologies.contains t = true
  | .canRelease _ | .release => True

-- A change that finds everything as it would leave it, or that is forbidden.
def Vain (s : Store) : Mutation → Prop
  | .addNodeProperty ls key _ => ∀ l ∈ ls, ∃ p, s.catalog.nodeProperty? l key = some p
  | .removeNodeProperty l key => s.catalog.nodeProperty? l key = none
  | .addRelationshipType t _ => s.catalog.topologies.contains t = true
  | .deleteRelationships _ | .canRelease _ => False
  | .release => s.isReleasable = false

-- How a change may go.
inductive Course (s : Store) (m : Mutation) : Except Fault Reply × Store → Prop
  | refused {f} : ¬s.Admits m → Course s m (.error f, s)
  | vain {r} : s.Admits m → s.Vain m → Course s m (.ok r, s)
  | taken {r s'} : s.Admits m → ¬s.Vain m → ¬Negative (.ok r) → Step s m s' → Course s m (.ok r, s')

variable {s : Store} {m : Mutation} {ls : List Label} {l : Label} {key : String} {values : NodeValues}
  {t : RelType} {rs : Relationships}

section Update

variable {α : Type} {edit : Catalog.Edit α} {c : Catalog}

-- Whatever was edited in the copy by then, the store does not get it.
theorem update_of_error {f : Fault} (kind : MutationKind) (h : edit s.catalog = (.error f, c)) :
    s.update kind edit = (.error f, s) := by
  rw [update, h]

theorem update_of_unchanged {answer : α} (kind : MutationKind) (h : edit s.catalog = (.ok (.unchanged answer), c)) :
    s.update kind edit = (.ok answer, s) := by
  rw [update, h]

theorem update_of_committed {answer : α} (kind : MutationKind) (h : edit s.catalog = (.ok (.committed answer), c)) :
    s.update kind edit = (.ok answer, s.commit kind c) := by
  rw [update, h]

end Update

-- A label of the list that stores the key gets an entry of its own in the copy. It is published only with a property
-- that was added under another label.
theorem addNodeProperty_of_admits (h : s.Admits (.addNodeProperty ls key values)) :
    s.addNodeProperty ls key values =
      (.ok (), if (s.catalog.addNodeProperty ls ⟨key, .transient, values⟩).1
        then s.commit .addNodeProperty (s.catalog.addNodeProperty ls ⟨key, .transient, values⟩).2 else s) := by
  have ⟨hl, hn, ht⟩ := h
  have hl : ls.find? (!s.nodes.hasLabel ·) = none := by simpa [List.find?_eq_none] using hl
  have ht : (s.catalog.nodePropertyType? key).filter (· ≠ values.type) = none := by
    simpa [Option.filter_eq_none_iff] using ht
  simp only [addNodeProperty, hl, hn, ne_eq, not_true_eq_false, if_false]
  have hedit : Catalog.Edit.addNodeProperty ls key values s.catalog =
      (.ok (if (s.catalog.addNodeProperty ls ⟨key, .transient, values⟩).1 then .committed () else .unchanged ()),
        (s.catalog.addNodeProperty ls ⟨key, .transient, values⟩).2) := by
    simp only [Catalog.Edit.addNodeProperty, ht]
  split
  case isTrue ha => exact update_of_committed _ (by rw [hedit, if_pos ha])
  case isFalse ha => exact update_of_unchanged _ (by rw [hedit, if_neg ha])

theorem addNodeProperty_of_not_admits (h : ¬s.Admits (.addNodeProperty ls key values)) :
    ∃ f, s.addNodeProperty ls key values = (.error f, s) := by
  rw [addNodeProperty]
  split
  case h_1 => exact ⟨_, rfl⟩
  case h_2 hl =>
    split
    case isTrue => exact ⟨_, rfl⟩
    case isFalse hn =>
      have hl : ∀ l ∈ ls, s.nodes.hasLabel l = true := by simpa [List.find?_eq_none] using hl
      cases ht : (s.catalog.nodePropertyType? key).filter (· ≠ values.type)
      case some stored =>
        have hedit : Catalog.Edit.addNodeProperty ls key values s.catalog =
            (.error (.addOfWrongType ls key stored values.type), s.catalog) := by
          simp only [Catalog.Edit.addNodeProperty, ht]
        exact ⟨_, update_of_error _ hedit⟩
      case none => exact absurd ⟨hl, not_not.mp hn, by simpa [Option.filter_eq_none_iff] using ht⟩ h

theorem removeNodeProperty_of_stored (hl : s.nodes.hasLabel l = true) {p : NodeProperty}
    (h : s.catalog.nodeProperty? l key = some p) :
    s.removeNodeProperty l key =
      (.ok true, s.commit .removeNodeProperty (s.catalog.removeNodeProperty l key)) := by
  have ⟨ps, hf, hk⟩ := Catalog.find?_of_nodeProperty? h
  rw [removeNodeProperty, if_neg (by simp [hl])]
  refine update_of_committed _ ?_
  simp only [Catalog.Edit.removeNodeProperty, hf, NameMap.contains_iff.mpr ⟨p, hk⟩, if_true]

theorem removeNodeProperty_of_not_stored (hl : s.nodes.hasLabel l = true)
    (h : s.catalog.nodeProperty? l key = none) : s.removeNodeProperty l key = (.ok false, s) := by
  rw [removeNodeProperty, if_neg (by simp [hl])]
  have hedit : Catalog.Edit.removeNodeProperty l key s.catalog = (.ok (.unchanged false), s.catalog) := by
    cases hf : s.catalog.nodeProperties.find? l
    case none => simp only [Catalog.Edit.removeNodeProperty, hf]
    case some ps =>
      have hk : ps.contains key = false := by
        rw [NameMap.contains, ← Catalog.nodeProperty?_of_find? hf, h]
        rfl
      simp only [Catalog.Edit.removeNodeProperty, hf, hk, Bool.false_eq_true, if_false]
  exact update_of_unchanged _ hedit

theorem addRelationshipType_of_admits (h : s.Admits (.addRelationshipType t rs)) :
    ∃ ps, Catalog.fitColumns t rs.topology rs.properties .transient = .ok ps ∧
      s.addRelationshipType t rs =
        if s.catalog.topologies.contains t then (.ok false, s)
        else (.ok true, s.commit .addRelationshipType (s.catalog.addType t rs.topology ps)) := by
  have ⟨hn, hf⟩ := h
  have ⟨ps, hps⟩ := Catalog.exists_fitColumns hf t .transient
  refine ⟨ps, hps, ?_⟩
  rw [addRelationshipType, if_neg (not_not.mpr hn), hps]
  dsimp only
  split
  case isTrue hc => exact update_of_unchanged _ (if_pos hc)
  case isFalse hc => exact update_of_committed _ (if_neg hc)

theorem addRelationshipType_of_not_admits (h : ¬s.Admits (.addRelationshipType t rs)) :
    ∃ f, s.addRelationshipType t rs = (.error f, s) := by
  rw [addRelationshipType]
  split
  case isTrue => exact ⟨_, rfl⟩
  case isFalse hn =>
    split
    case h_1 => exact ⟨_, rfl⟩
    case h_2 hps => exact absurd ⟨not_not.mp hn, fun _ _ hv => Catalog.fits_of_fitColumns hps hv⟩ h

theorem deleteRelationships_of_loaded {topology : Topology} (h : s.catalog.topologies.find? t = some topology) :
    s.deleteRelationships t =
      (.ok ⟨topology.relationshipCount, (s.catalog.propertiesOf t).mapValues (·.values.elementCount)⟩,
        s.commit .deleteRelationships (s.catalog.deleteType t)) :=
  update_of_committed _ (by rw [Catalog.Edit.deleteType, Catalog.topology_eq_ok.mpr h])

theorem deleteRelationships_of_not_loaded (h : s.catalog.topologies.find? t = none) :
    s.deleteRelationships t = (.error (.typeNotLoaded t s.catalog.topologies.keys), s) :=
  update_of_error _ (by rw [Catalog.Edit.deleteType, Catalog.topology, h])

theorem course_addNodeProperty (s : Store) (ls : List Label) (key : String) (values : NodeValues) :
    Course s (.addNodeProperty ls key values) (s.answer (.addNodeProperty ls key values)) := by
  rw [answer]
  by_cases ha : s.Admits (.addNodeProperty ls key values)
  case neg =>
    obtain ⟨f, hf⟩ := addNodeProperty_of_not_admits ha
    rw [hf]
    exact .refused ha
  case pos =>
    have hvain : ¬(s.catalog.addNodeProperty ls ⟨key, .transient, values⟩).1 = true ↔
        s.Vain (.addNodeProperty ls key values) := by
      rw [s.catalog.added_addNodeProperty]
      simp [Vain, Option.ne_none_iff_exists']
    rw [addNodeProperty_of_admits ha]
    by_cases hv : (s.catalog.addNodeProperty ls ⟨key, .transient, values⟩).1 = true
    case pos =>
      rw [if_pos hv]
      exact .taken ha (fun h => hvain.mpr h hv) (by rintro ⟨⟩) (.addNodeProperty ha.left ha.right.left)
    case neg =>
      rw [if_neg hv]
      exact .vain ha (hvain.mp hv)

theorem course_removeNodeProperty (s : Store) (l : Label) (key : String) :
    Course s (.removeNodeProperty l key) (s.answer (.removeNodeProperty l key)) := by
  rw [answer]
  by_cases ha : s.nodes.hasLabel l = true
  case neg =>
    rw [removeNodeProperty, if_pos (by simp [ha])]
    exact .refused ha
  case pos =>
    cases hp : s.catalog.nodeProperty? l key
    case none =>
      rw [removeNodeProperty_of_not_stored ha hp]
      exact .vain ha hp
    case some p =>
      rw [removeNodeProperty_of_stored ha hp]
      exact .taken ha (fun hv => nomatch hv.symm.trans hp) (by rintro ⟨⟩) .removeNodeProperty

theorem course_addRelationshipType (s : Store) (t : RelType) (rs : Relationships) :
    Course s (.addRelationshipType t rs) (s.answer (.addRelationshipType t rs)) := by
  rw [answer]
  by_cases ha : s.Admits (.addRelationshipType t rs)
  case neg =>
    obtain ⟨f, hf⟩ := addRelationshipType_of_not_admits ha
    rw [hf]
    exact .refused ha
  case pos =>
    obtain ⟨ps, hps, he⟩ := addRelationshipType_of_admits ha
    rw [he]
    by_cases hv : s.catalog.topologies.contains t = true
    case pos =>
      rw [if_pos hv]
      exact .vain ha hv
    case neg =>
      rw [if_neg hv]
      exact .taken ha hv (by rintro ⟨⟩) (.addRelationshipType ha.left hps (Bool.eq_false_iff.mpr hv))

theorem course_deleteRelationships (s : Store) (t : RelType) :
    Course s (.deleteRelationships t) (s.answer (.deleteRelationships t)) := by
  rw [answer]
  cases ht : s.catalog.topologies.find? t
  case none =>
    rw [deleteRelationships_of_not_loaded ht]
    refine .refused fun ha => ?_
    rw [Admits, NameMap.contains, ht] at ha
    cases ha
  case some topology =>
    rw [deleteRelationships_of_loaded ht]
    exact .taken (NameMap.contains_iff.mpr ⟨topology, ht⟩) id (by rintro ⟨⟩) .deleteRelationships

theorem course_release (s : Store) : Course s .release (s.answer .release) := by
  rw [answer, release]
  by_cases hv : s.isReleasable = true
  case pos =>
    rw [if_pos hv]
    exact .taken trivial (Bool.ne_false_iff.mpr hv) (by rintro ⟨⟩) (.release hv)
  case neg =>
    rw [if_neg hv]
    exact .vain trivial (Bool.eq_false_iff.mpr hv)

theorem course (s : Store) (m : Mutation) : Course s m (s.answer m) := by
  cases m
  case addNodeProperty ls key values => exact course_addNodeProperty s ls key values
  case removeNodeProperty l key => exact course_removeNodeProperty s l key
  case addRelationshipType t rs => exact course_addRelationshipType s t rs
  case deleteRelationships t => exact course_deleteRelationships s t
  case canRelease => exact .taken trivial id (by rintro ⟨⟩) .canRelease
  case release => exact course_release s

theorem mutate_eq_self (h : s.Admits m → s.Vain m) : s.mutate m = s := by
  rw [mutate]
  have hc := course s m
  generalize s.answer m = a at hc
  cases hc
  case refused | vain => rfl
  case taken ha hv _ _ => exact absurd (h ha) hv

theorem mutate_takes (ha : s.Admits m) (hv : ¬s.Vain m) :
    ¬Negative (s.reply m) ∧ Step s m (s.mutate m) := by
  rw [mutate, reply]
  have hc := course s m
  generalize s.answer m = a at hc
  cases hc
  case refused hn => exact absurd ha hn
  case vain hv' => exact absurd hv' hv
  case taken hr hs => exact ⟨hr, hs⟩

theorem mutate_step (s : Store) (m : Mutation) : s.mutate m = s ∨ Step s m (s.mutate m) := by
  by_cases ht : s.Admits m ∧ ¬s.Vain m
  case pos => exact .inr (mutate_takes ht.left ht.right).right
  case neg => exact .inl (mutate_eq_self (not_and_not_right.mp ht))

theorem reply_of_not_admits (h : ¬s.Admits m) : Negative (s.reply m) := by
  rw [reply]
  have hc := course s m
  generalize s.answer m = a at hc
  cases hc
  case refused f _ => exact .failed f
  case vain ha _ | taken ha _ _ _ => exact absurd ha h

-- What every change keeps is kept by all of them.
theorem run_induction {P : Store → Prop} {ms : List Mutation} (h : P s)
    (hstep : ∀ s, P s → ∀ m ∈ ms, P (s.mutate m)) : P (s.run ms) := by
  induction ms generalizing s
  case nil => exact h
  case cons m ms hi =>
    exact hi (hstep s h m List.mem_cons_self) fun s hs m' hm => hstep s hs m' (List.mem_cons_of_mem m hm)

end PropertyGraph.Store
