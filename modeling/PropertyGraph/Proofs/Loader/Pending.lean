import PropertyGraph.Loader.Loader
import PropertyGraph.Proofs.Node.IdMap
import PropertyGraph.Proofs.Relationship.Collection

namespace PropertyGraph.Loader

-- A relationship as it was given, with values by key.
structure Given where
  source : Nat
  target : Nat
  values : List (String × Float)

-- The value given last under a key, or the default.
def Given.valueOf (g : Given) (key : String) : Float :=
  ((g.values.filter (·.1 = key)).map (·.2)).getLastD doubleDefault

-- Values by the numbers of their keys.
def Numbers (keys : List String) (values : List (Nat × Float)) (given : List (String × Float)) : Prop :=
  List.Forall₂ (fun v g => keys[v.1]? = some g.1 ∧ v.2 = g.2) values given

variable {keys keys' : List String} {values : List (Nat × Float)} {given : List (String × Float)}

theorem getElem?_of_extension {i : Nat} {key : String} (h : keys <+: keys') (hi : keys[i]? = some key) :
    keys'[i]? = some key := by
  have ⟨more, he⟩ := h
  have ⟨hlt, _⟩ := List.getElem?_eq_some_iff.mp hi
  rw [← he, List.getElem?_append_left hlt, hi]

theorem Numbers.extend (h : Numbers keys values given) (hp : keys <+: keys') :
    Numbers keys' values given :=
  h.imp fun _ _ ⟨hk, hx⟩ => ⟨getElem?_of_extension hp hk, hx⟩

theorem getElem?_foldl_set {row : List Float} {j : Nat} {key : String} {x : Float}
    (h : Numbers keys values given) (hn : keys.Nodup) (hj : keys[j]? = some key) (hx : row[j]? = some x) :
    (values.foldl (fun row v => row.set v.1 v.2) row)[j]? =
      some (((given.filter (·.1 = key)).map (·.2)).getLastD x) := by
  induction h generalizing row x
  case nil => simpa using hx
  case cons v g values given hv _ hi =>
    have ⟨hk, he⟩ := hv
    have ⟨hlt, _⟩ := List.getElem?_eq_some_iff.mp hx
    rw [List.foldl_cons, List.filter_cons]
    by_cases hvj : v.1 = j
    case pos =>
      have hg : g.1 = key := Option.some.inj (hk.symm.trans (hvj ▸ hj))
      rw [if_pos (by simpa using hg), List.map_cons, List.getLastD_cons, ← he]
      exact hi (by rw [hvj, List.getElem?_set_self hlt])
    case neg =>
      have hg : g.1 ≠ key := by
        intro hg
        have ⟨hi, hki⟩ := List.getElem?_eq_some_iff.mp hk
        have ⟨hj, hkj⟩ := List.getElem?_eq_some_iff.mp hj
        exact hvj ((List.getElem_inj hn).mp (hki.trans (hg.trans hkj.symm)))
      rw [if_neg (by simpa using hg)]
      exact hi (by rw [List.getElem?_set_ne hvj, hx])

theorem length_foldl_set (row : List Float) :
    (values.foldl (fun row v => row.set v.1 v.2) row).length = row.length := by
  induction values generalizing row
  case nil => rfl
  case cons v values hi => rw [List.foldl_cons, hi, List.length_set]

namespace PendingEdge

-- A row of its own, with a value for each key.
def row (e : PendingEdge) (keyCount : Nat) : List Float :=
  e.fill (List.replicate keyCount doubleDefault)

-- Nothing is left of the edge for which the row was filled before.
theorem fill_eq_row (e : PendingEdge) (old : List Float) : e.fill old = e.row old.length := by
  rw [row, fill, fill, List.map_const', List.map_const', List.length_replicate]

theorem length_row (e : PendingEdge) (keyCount : Nat) : (e.row keyCount).length = keyCount :=
  (length_foldl_set _).trans ((List.length_map _).trans List.length_replicate)

-- Numbers may have been given to keys since the edge was added.
theorem getElem?_row {e : PendingEdge} {g : Given} {j : Nat} {key : String}
    (h : Numbers keys e.values g.values) (hn : keys.Nodup) (hj : keys[j]? = some key) :
    (e.row keys.length)[j]? = some (g.valueOf key) := by
  have ⟨hlt, _⟩ := List.getElem?_eq_some_iff.mp hj
  exact getElem?_foldl_set h hn hj (by simp [hlt])

end PendingEdge

namespace PendingType

variable {t t' : PendingType}

-- How a type grows while keys are numbered.
structure Grows (t t' : PendingType) : Prop where
  layout : t'.layout = t.layout
  edges : t'.edges = t.edges
  keys : t.keys <+: t'.keys
  distinct : t.keys.Nodup → t'.keys.Nodup

theorem Grows.refl (t : PendingType) : t.Grows t :=
  ⟨rfl, rfl, List.prefix_refl _, id⟩

theorem Grows.trans {t'' : PendingType} (h : t.Grows t') (h' : t'.Grows t'') : t.Grows t'' :=
  ⟨h'.layout.trans h.layout, h'.edges.trans h.edges, h.keys.trans h'.keys, h'.distinct ∘ h.distinct⟩

theorem numberOf_grows (t : PendingType) (key : String) :
    t.Grows (t.numberOf key).2 ∧ (t.numberOf key).2.keys[(t.numberOf key).1]? = some key := by
  rw [numberOf]
  cases hk : t.keys.idxOf? key
  case none =>
    have hm : key ∉ t.keys := List.idxOf?_eq_none_iff.mp hk
    refine ⟨⟨rfl, rfl, List.prefix_append .., fun hn => ?_⟩, by simp⟩
    exact List.nodup_append.mpr ⟨hn, List.nodup_singleton key, fun k hk' k' he hkk =>
      hm (List.mem_singleton.mp he ▸ hkk ▸ hk')⟩
  case some i =>
    have ⟨hi, he, _⟩ := List.idxOf?_eq_some_iff.mp hk
    exact ⟨.refl t, List.getElem?_eq_some_iff.mpr ⟨hi, by simpa using he⟩⟩

theorem numberAll_grows (t : PendingType) (given : List (String × Float)) :
    t.Grows (t.numberAll given).2 ∧ Numbers (t.numberAll given).2.keys (t.numberAll given).1 given := by
  induction given generalizing t
  case nil => exact ⟨.refl t, .nil⟩
  case cons g given hi =>
    have ⟨hg, hk⟩ := numberOf_grows t g.1
    have ⟨hg', hn⟩ := hi (t.numberOf g.1).2
    exact ⟨hg.trans hg', .cons ⟨getElem?_of_extension hg'.keys hk, rfl⟩ hn⟩

-- An edge stands for a relationship that was given, by internal ids and numbers of keys.
structure Stands (b : IdMap.Builder) (keys : List String) (e : PendingEdge) (g : Given) : Prop where
  source : b.externals.id? e.source = some g.source
  target : b.externals.id? e.target = some g.target
  values : Numbers keys e.values g.values

structure Records (b : IdMap.Builder) (t : PendingType) (gs : List Given) : Prop where
  distinct : t.keys.Nodup
  edges : List.Forall₂ (Stands b t.keys) t.edges.toList gs

variable {b b' : IdMap.Builder} {gs : List Given}

theorem Stands.extend {e : PendingEdge} {g : Given} (h : Stands b keys e g) (hb : b.Grows b')
    (hp : keys <+: keys') : Stands b' keys' e g :=
  ⟨hb.ids _ _ h.source, hb.ids _ _ h.target, h.values.extend hp⟩

theorem Records.grows (h : Records b t gs) (hb : b.Grows b') : Records b' t gs :=
  ⟨h.distinct, h.edges.imp fun _ _ hs => hs.extend hb (List.prefix_refl _)⟩

theorem add_records (h : Records b t gs) {source target : Nat} {g : Given}
    (hs : b.externals.id? source = some g.source) (ht : b.externals.id? target = some g.target) :
    Records b (t.add source target g.values) (gs ++ [g]) where
  distinct := (numberAll_grows t g.values).left.distinct h.distinct
  edges := by
    have ⟨hg, hn⟩ := numberAll_grows t g.values
    rw [add, Array.toList_push, hg.edges]
    refine List.rel_append (h.edges.imp fun _ _ he => ?_) (.cons ⟨hs, ht, hn⟩ .nil)
    exact he.extend (.refl b) hg.keys

end PendingType

end PropertyGraph.Loader
