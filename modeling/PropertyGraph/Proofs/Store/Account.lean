import PropertyGraph.Proofs.Relationship.Built
import PropertyGraph.Proofs.Store.Course
import PropertyGraph.Proofs.Store.Properties
import PropertyGraph.Proofs.Store.Select

namespace PropertyGraph

namespace Metrics

-- What is counted.
inductive Counter
  | graphsMaterialized
  | filteredGraphs
  | typesMaterialized
  | nodePropertiesAdded
  | nodePropertiesRemoved
  | relationshipTypesAdded
  | relationshipTypesDeleted
  | releases
deriving DecidableEq

def count (counts : Metrics) : Counter → Nat
  | .graphsMaterialized => counts.graphsMaterialized
  | .filteredGraphs => counts.filteredGraphs
  | .typesMaterialized => counts.typesMaterialized
  | .nodePropertiesAdded => counts.nodePropertiesAdded
  | .nodePropertiesRemoved => counts.nodePropertiesRemoved
  | .relationshipTypesAdded => counts.relationshipTypesAdded
  | .relationshipTypesDeleted => counts.relationshipTypesDeleted
  | .releases => counts.releases

-- How many mutations and releases were counted.
def changes (counts : Metrics) : Nat :=
  counts.nodePropertiesAdded + counts.nodePropertiesRemoved + counts.relationshipTypesAdded +
    counts.relationshipTypesDeleted + counts.releases

-- One counter is one further, the others stand as before.
def Counted (counts : Metrics) (c : Counter) (counts' : Metrics) : Prop :=
  ∀ c', counts'.count c' = counts.count c' + if c' = c then 1 else 0

end Metrics

def MutationKind.counter : MutationKind → Metrics.Counter
  | addNodeProperty => .nodePropertiesAdded
  | removeNodeProperty => .nodePropertiesRemoved
  | addRelationshipType => .relationshipTypesAdded
  | deleteRelationships => .relationshipTypesDeleted

namespace Store

open Metrics

-- The counter of a kind of change, if changes of this kind are counted.
def Mutation.counter? : Mutation → Option Counter
  | .addNodeProperty .. => some .nodePropertiesAdded
  | .removeNodeProperty .. => some .nodePropertiesRemoved
  | .addRelationshipType .. => some .relationshipTypesAdded
  | .deleteRelationships .. => some .relationshipTypesDeleted
  | .canRelease _ => none
  | .release => some .releases

-- What a store can be asked for.
inductive Act
  | change (m : Mutation)
  | graph (ls : List Label) (ts : List RelType) (key : Option String) (concurrency : Nat)
  | union

def act (s : Store) : Act → Store
  | .change m => s.mutate m
  | .graph ls ts key concurrency => (s.getGraph ls ts key concurrency).2
  | .union => s.getUnion.2

def perform (s : Store) (acts : List Act) : Store :=
  acts.foldl act s

-- A change of which the caller is told that it was not made, or that has nothing to change.
def Idle (s : Store) (m : Mutation) : Prop :=
  Negative (s.reply m) ∨ s.Vain m

structure Books (s : Store) (counts : Metrics) : Prop where
  counting : s.metrics = some counts
  balance : s.generation = counts.changes
  idle : ∀ m, s.Idle m → s.mutate m = s
  counted : ∀ m c, m.counter? = some c → ¬s.Idle m → (s.mutate m).generation = s.generation + 1 ∧
    ∃ counts', (s.mutate m).metrics = some counts' ∧ counts.Counted c counts'
  noticed : ∀ m, m ≠ .release →
    ((s.mutate m).generation ≠ s.generation ↔ (s.mutate m).catalog ≠ s.catalog)

variable {s s' : Store} {m : Mutation} {c : Counter} {counts : Metrics} {nodes : IdMap}
  {nodeColumns : NameMap Label (NameMap String Column)} {topologies : NameMap RelType Topology}
  {columns : NameMap RelType (NameMap String ValueRuns)} {options : StoreOptions}

theorem counted_mutated (counts : Metrics) (kind : MutationKind) :
    counts.Counted kind.counter (counts.mutated kind) := by
  intro c'
  cases kind <;> cases c' <;> rfl

theorem counted_released (counts : Metrics) : counts.Counted .releases counts.released := by
  intro c'
  cases c' <;> rfl

theorem changes_of_counted {counts' : Metrics} (h : counts.Counted c counts') (hm : m.counter? = some c) :
    counts'.changes = counts.changes + 1 := by
  have h₁ := h .nodePropertiesAdded
  have h₂ := h .nodePropertiesRemoved
  have h₃ := h .relationshipTypesAdded
  have h₄ := h .relationshipTypesDeleted
  have h₅ := h .releases
  simp only [count] at h₁ h₂ h₃ h₄ h₅
  unfold Mutation.counter? at hm
  split at hm <;> cases hm
  all_goals
    simp only [reduceCtorEq, if_true, if_false] at h₁ h₂ h₃ h₄ h₅
    simp only [changes, h₁, h₂, h₃, h₄, h₅]
    omega

-- A step that is counted is counted once.
theorem Step.counted (h : Step s m s') (hm : m.counter? = some c) (hs : s.metrics = some counts) :
    s'.generation = s.generation + 1 ∧ ∃ counts', s'.metrics = some counts' ∧ counts.Counted c counts' := by
  cases h <;> cases hm <;> refine ⟨rfl, _, Option.map_eq_some_iff.mpr ⟨counts, hs, rfl⟩, ?_⟩
  case release => exact counted_released counts
  all_goals exact counted_mutated counts _

theorem catalog_ne_of_taken (ha : s.Admits m) (hv : ¬s.Vain m) (h : Step s m s') (hm : m.counter? = some c)
    (hr : m ≠ .release) : s'.catalog ≠ s.catalog := by
  intro he
  cases h
  case addNodeProperty ls key values _ _ =>
    refine hv fun l hl => ?_
    have hp := s.catalog.nodeProperty?_addNodeProperty ls ⟨key, .transient, values⟩ l key
    rw [show (s.catalog.addNodeProperty ls _).2 = s.catalog from he, if_pos ⟨hl, rfl⟩] at hp
    cases hq : s.catalog.nodeProperty? l key
    case none => simp [hq] at hp
    case some p => exact ⟨p, rfl⟩
  case removeNodeProperty l key =>
    have hp := s.catalog.nodeProperty?_removeNodeProperty l key l key
    rw [show s.catalog.removeNodeProperty l key = s.catalog from he, if_pos ⟨rfl, rfl⟩] at hp
    exact hv hp
  case addRelationshipType t rs ps _ _ hnew =>
    have hself : (s.catalog.addType t rs.topology ps).topologies.find? t = some rs.topology :=
      NameMap.find?_insert_self ..
    rw [show s.catalog.addType t rs.topology ps = s.catalog from he] at hself
    exact Bool.eq_false_iff.mp hnew (NameMap.contains_iff.mpr ⟨_, hself⟩)
  case deleteRelationships t =>
    have hself := (s.catalog.find?_deleteType_self t).left
    rw [show s.catalog.deleteType t = s.catalog from he] at hself
    have ⟨_, ht⟩ := NameMap.contains_iff.mp ha
    cases hself.symm.trans ht
  case canRelease => cases hm
  case release => exact hr rfl

theorem mutate_of_idle (h : s.Idle m) : s.mutate m = s := by
  refine mutate_eq_self fun ha => not_not.mp fun hv => ?_
  have hr := (mutate_takes ha hv).left
  exact h.elim hr hv

theorem taken_of_not_idle (h : ¬s.Idle m) : s.Admits m ∧ ¬s.Vain m ∧ Step s m (s.mutate m) := by
  have ⟨hr, hv⟩ := not_or.mp h
  have ha : s.Admits m := not_not.mp (mt reply_of_not_admits hr)
  exact ⟨ha, hv, (mutate_takes ha hv).right⟩

-- Whether a store counts, and its generation is what it counted.
def Balanced (s : Store) : Prop :=
  ∃ counts, s.metrics = some counts ∧ s.generation = counts.changes

theorem Balanced.mutate (h : s.Balanced) (m : Mutation) : (s.mutate m).Balanced := by
  have ⟨counts, hs, hg⟩ := h
  cases hm : m.counter?
  case none =>
    cases m <;> cases hm
    exact ⟨counts, hs, hg⟩
  case some c =>
    by_cases hi : s.Idle m
    case pos => exact (mutate_of_idle hi).symm ▸ h
    case neg =>
      have ⟨_, _, hstep⟩ := taken_of_not_idle hi
      have ⟨hnext, counts', hs', hc⟩ := hstep.counted hm hs
      exact ⟨counts', hs', by rw [hnext, hg, changes_of_counted hc hm]⟩

-- A view is counted, but it is no change.
theorem Balanced.materialize (h : s.Balanced) (ls : List Label) (choices : List Choice) (concurrency : Nat) :
    (s.materialize ls choices concurrency).2.Balanced := by
  have ⟨counts, hs, hg⟩ := h
  rw [Store.materialize]
  split
  case h_1 => exact h
  case h_2 => exact ⟨_, Option.map_eq_some_iff.mpr ⟨counts, hs, rfl⟩, hg⟩

theorem Balanced.act (h : s.Balanced) (a : Act) : (s.act a).Balanced := by
  cases a
  case change m => exact h.mutate m
  case graph ls ts key concurrency =>
    rw [Store.act, getGraph]
    split
    case h_1 => exact h
    case h_2 choices _ => exact h.materialize ls choices concurrency
  case union => exact h.materialize ..

theorem Balanced.perform (h : s.Balanced) (acts : List Act) : (s.perform acts).Balanced := by
  induction acts generalizing s
  case nil => exact h
  case cons a acts hi => exact hi (h.act a)

theorem balanced_of (h : of nodes nodeColumns topologies columns options {} = .ok s) (hm : options.metrics = true) :
    s.Balanced := by
  have ⟨_, _, h⟩ := Outcome.bind_eq_ok.mp h
  have ⟨_, _, h⟩ := Outcome.bind_eq_ok.mp h
  have ⟨_, _, h⟩ := Outcome.bind_eq_ok.mp h
  exact Except.ok.inj h ▸ ⟨{}, if_pos hm, rfl⟩

theorem Balanced.books (h : s.Balanced) : ∃ counts, s.Books counts := by
  have ⟨counts, hs, hg⟩ := h
  refine ⟨counts, hs, hg, fun m => mutate_of_idle, fun m c hm hi => ?counted, fun m hr => ?noticed⟩
  case counted =>
    have ⟨_, _, hstep⟩ := taken_of_not_idle hi
    exact hstep.counted hm hs
  case noticed =>
    by_cases hi : s.Idle m
    case pos => simp [mutate_of_idle hi]
    case neg =>
      have ⟨ha, hv, hstep⟩ := taken_of_not_idle hi
      cases hm : m.counter?
      case none =>
        cases m <;> cases hm
        exact iff_of_false (fun h => h rfl) fun h => h rfl
      case some c =>
        have hne := catalog_ne_of_taken ha hv hstep hm hr
        have ⟨hnext, _⟩ := hstep.counted hm hs
        simp [hnext, hne]

-- Whatever a store was asked for, its books are in order.
theorem perform_books (h : of nodes nodeColumns topologies columns options {} = .ok s)
    (hm : options.metrics = true) (acts : List Act) : ∃ counts, (s.perform acts).Books counts :=
  ((balanced_of h hm).perform acts).books

theorem perform_books_of_repeated_label :
    ∃ nodes rs s, IdMap.ofNodes [(10, [⟨"A"⟩]), (20, [⟨"B"⟩])] = .ok nodes ∧
      ((Batch.empty 2 .natural [("weight", 1.0)]).collect [.add 0 1 [0.5], .addDefault 1 1]).compress 1 = .ok rs ∧
      of nodes ∅ ∅ ∅ { metrics := true } {} = .ok s ∧
      ∃ counts, (s.perform [
        .change (.addNodeProperty [⟨"A"⟩, ⟨"A"⟩] "rank" (.ofColumn (.double #[0.5, 1.5]))),
        .change (.addRelationshipType ⟨"ROADS"⟩ rs), .graph [⟨"A"⟩] [⟨"ROADS"⟩] (some "weight") 1,
        .change (.addRelationshipType ⟨"ROADS"⟩ rs), .change (.deleteRelationships ⟨"LINKS"⟩),
        .change (.canRelease false), .change .release, .union]).Books counts :=
  have ⟨nodes, hnodes, _⟩ := @IdMap.exists_ofNodes [(10, [⟨"A"⟩]), (20, [⟨"B"⟩])] (by decide) (by decide)
  have ⟨rs, hrs, _⟩ := Relationships.exists_built 2 .natural [("weight", 1.0)]
    [.add 0 1 [0.5], .addDefault 1 1] 1 (by decide) (by decide)
  have hs : of nodes ∅ ∅ ∅ { metrics := true } {} =
      .ok ⟨nodes, {}, 0, { metrics := true }, true, some {}⟩ := rfl
  ⟨nodes, rs, _, hnodes, hrs, hs, perform_books hs rfl _⟩

end Store

end PropertyGraph
