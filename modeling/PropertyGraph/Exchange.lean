import PropertyGraph.Store.Mutate
import PropertyGraph.Store.SchemaReader
import PropertyGraph.Triangle.Count

namespace PropertyGraph

namespace Label

def toJson (l : Label) : Json := .string l.name

def ofJson? (j : Json) : Option Label := j.string?.map mk

end Label

namespace RelType

def toJson (t : RelType) : Json := .string t.name

def ofJson? (j : Json) : Option RelType := j.string?.map mk

end RelType

def ValueType.toJson (t : ValueType) : Json := .string t.name

def PropertyState.toJson (s : PropertyState) : Json := .string s.name

namespace Triangle

def toJson (t : Triangle) : Json :=
  .object [("a", .number t.a), ("b", .number t.b), ("c", .number t.c)]

def ofJson? (j : Json) : Option Triangle := do
  let [a, b, c] ← j.record? ["a", "b", "c"] | none
  return ⟨← a.nat?, ← b.nat?, ← c.nat?⟩

end Triangle

namespace TriangleCounts

def toJson (t : TriangleCounts) : Json :=
  .object [("global_triangle_count", .number t.global),
    ("local_triangle_counts", .array (t.perNode.toList.map .number))]

def ofJson? (j : Json) : Option TriangleCounts := do
  let [total, perNode] ← j.record? ["global_triangle_count", "local_triangle_counts"] | none
  return ⟨← total.nat?, (← perNode.list? Json.nat?).toArray⟩

end TriangleCounts

namespace Deletion

def toJson (d : Deletion) : Json :=
  .object [("deleted_relationships", .number d.relationships),
    ("deleted_properties", d.values.toJson .number)]

def ofJson? (j : Json) : Option Deletion := do
  let [relationships, values] ← j.record? ["deleted_relationships", "deleted_properties"] | none
  return ⟨← relationships.nat?, ← values.map? Json.nat?⟩

end Deletion

end PropertyGraph
