import PropertyGraph.Proofs.Node.Renumbering
import PropertyGraph.Proofs.Triangle.Part
import PropertyGraph.Triangle.Stream

namespace PropertyGraph

namespace Part.Made

variable {part : Part} {v w x : Nat}

-- The external ids and the nodes of a part lead to each other.
theorem toInternal?_eq_some (h : part.Made) : part.toInternal? x = some v ↔ part.toExternal v = .ok x := by
  cases h
  case whole => exact IdMap.toInternal?_eq_some.trans IdMap.toExternal_eq_ok.symm
  case restricted hp hsize hsub =>
    have hsel := Subset.selects_of_ofLabels hp.sound.left hsize hsub
    exact hsel.renumbers.externalInverse x v

theorem exists_external (h : part.Made) (hv : v < part.nodeCount) : ∃ x, part.toExternal v = .ok x := by
  cases h
  case whole =>
    have ⟨x, hx⟩ := Numbering.exists_id? hv
    exact ⟨x, IdMap.toExternal_eq_ok.mpr hx⟩
  case restricted hp hsize hsub =>
    have hsel := Subset.selects_of_ofLabels hp.sound.left hsize hsub
    exact hsel.renumbers.external v hv

theorem lt_nodeCount (h : part.Made) (hx : part.toExternal v = .ok x) : v < part.nodeCount := by
  cases h
  case whole => exact Numbering.lt_size_of_id? (IdMap.toExternal_eq_ok.mp hx)
  case restricted hp hsize hsub =>
    have hsel := Subset.selects_of_ofLabels hp.sound.left hsize hsub
    have ⟨root, hr, _⟩ := Subset.toExternal_eq_ok.mp hx
    exact (hsel.renumbers.dense v).mp ⟨root, hr⟩

theorem external_injective (h : part.Made) (hv : part.toExternal v = .ok x) (hw : part.toExternal w = .ok x) :
    v = w :=
  Option.some.inj ((h.toInternal?_eq_some.mpr hv).symm.trans (h.toInternal?_eq_some.mpr hw))

end Part.Made

namespace TriangleStream

variable {part : Part} {view : View} {t t' x : Triangle}

theorem externalTriangle_eq_ok : externalTriangle view t = .ok x ↔
    view.toExternal t.a = .ok x.a ∧ view.toExternal t.b = .ok x.b ∧ view.toExternal t.c = .ok x.c := by
  rw [externalTriangle]
  cases view.toExternal t.a
  case error => simp
  case ok a =>
    cases view.toExternal t.b
    case error => simp
    case ok b =>
      cases view.toExternal t.c
      case error => simp
      case ok c =>
        obtain ⟨a', b', c'⟩ := x
        simp

theorem exists_externalTriangle {maxDegree : Nat} (h : part.Made) (ht : part.IsTriangle maxDegree t) :
    ∃ x, externalTriangle (.single part) t = .ok x := by
  have ⟨a, ha⟩ := h.exists_external (ht.lt_nodeCount (Triangle.mem_toList.mpr (.inl rfl)))
  have ⟨b, hb⟩ := h.exists_external (ht.lt_nodeCount (Triangle.mem_toList.mpr (.inr (.inl rfl))))
  have ⟨c, hc⟩ := h.exists_external (ht.lt_nodeCount (Triangle.mem_toList.mpr (.inr (.inr rfl))))
  exact ⟨⟨a, b, c⟩, externalTriangle_eq_ok.mpr ⟨ha, hb, hc⟩⟩

theorem externalTriangle_injective (h : part.Made) (ht : externalTriangle (.single part) t = .ok x)
    (ht' : externalTriangle (.single part) t' = .ok x) : t = t' := by
  have ⟨ha, hb, hc⟩ := externalTriangle_eq_ok.mp ht
  have ⟨ha', hb', hc'⟩ := externalTriangle_eq_ok.mp ht'
  obtain ⟨a, b, c⟩ := t
  obtain ⟨a', b', c'⟩ := t'
  rw [Triangle.mk.injEq]
  exact ⟨h.external_injective ha ha', h.external_injective hb hb', h.external_injective hc hc'⟩

end TriangleStream

end PropertyGraph
