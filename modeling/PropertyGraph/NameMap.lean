import PropertyGraph.Name

namespace PropertyGraph

-- A finite map in name order. Two maps that hold the same values under the same names are equal, so what a series of
-- insertions and erasures leaves behind does not depend on their order.
@[ext]
structure NameMap (κ : Type) [Named κ] (α : Type) where
  entries : List (κ × α)
  sorted : entries.Pairwise (Named.name ·.1 < Named.name ·.1)

namespace NameMap

open Named

variable {κ : Type} [Named κ] {α β : Type}

def Sorted (es : List (κ × α)) : Prop :=
  es.Pairwise (name ·.1 < name ·.1)

def findIn (k : κ) : List (κ × α) → Option α
  | [] => none
  | (j, a) :: es => if name k = name j then some a else findIn k es

def insertIn (k : κ) (a : α) : List (κ × α) → List (κ × α)
  | [] => [(k, a)]
  | (j, b) :: es =>
    if name k < name j then (k, a) :: (j, b) :: es
    else if name k = name j then (k, a) :: es
    else (j, b) :: insertIn k a es

def eraseIn (k : κ) : List (κ × α) → List (κ × α)
  | [] => []
  | (j, b) :: es => if name k = name j then es else (j, b) :: eraseIn k es

-- Puts in the place of what is found under a name what `f` makes of it.
def alterIn (k : κ) (f : Option α → α) : List (κ × α) → List (κ × α)
  | [] => [(k, f none)]
  | (j, b) :: es =>
    if name k < name j then (k, f none) :: (j, b) :: es
    else if name k = name j then (k, f (some b)) :: es
    else (j, b) :: alterIn k f es

theorem mem_insertIn {k : κ} {a : α} {e : κ × α} {es : List (κ × α)} (h : e ∈ insertIn k a es) :
    e = (k, a) ∨ e ∈ es := by
  induction es with
  | nil => simpa [insertIn] using h
  | cons f es ih =>
    obtain ⟨j, b⟩ := f
    grind [insertIn]

theorem mem_eraseIn {k : κ} {e : κ × α} {es : List (κ × α)} (h : e ∈ eraseIn k es) : e ∈ es := by
  induction es with
  | nil => simp [eraseIn] at h
  | cons f es ih =>
    obtain ⟨j, b⟩ := f
    grind [eraseIn]

theorem lt_of_not_lt_of_ne {s t : String} (h : ¬s < t) (n : s ≠ t) : t < s :=
  String.not_le.mp fun g => n (String.le_antisymm g (String.not_lt.mp h))

theorem Sorted.insertIn {es : List (κ × α)} (h : Sorted es) (k : κ) (a : α) :
    Sorted (insertIn k a es) := by
  induction es with
  | nil => simp [NameMap.insertIn, Sorted]
  | cons f es ih =>
    obtain ⟨j, b⟩ := f
    obtain ⟨lo, rest⟩ := List.pairwise_cons.mp h
    unfold NameMap.insertIn
    split
    case isTrue lt =>
      refine List.pairwise_cons.mpr ⟨fun e he => ?_, h⟩
      rcases List.mem_cons.mp he with rfl | he
      · exact lt
      · exact String.lt_trans lt (lo e he)
    case isFalse nlt =>
      split
      case isTrue eq => exact List.pairwise_cons.mpr ⟨fun e he => eq ▸ lo e he, rest⟩
      case isFalse ne =>
        refine List.pairwise_cons.mpr ⟨fun e he => ?_, ih rest⟩
        rcases mem_insertIn he with rfl | he
        · exact lt_of_not_lt_of_ne nlt ne
        · exact lo e he

theorem findIn_eq_none {k : κ} {es : List (κ × α)} (h : ∀ e ∈ es, name k < name e.1) :
    findIn k es = none := by
  induction es with
  | nil => rfl
  | cons f es ih =>
    have lt := h f List.mem_cons_self
    have ne : name k ≠ name f.1 := fun eq => String.lt_irrefl _ (eq ▸ lt)
    simp only [findIn, if_neg ne]
    exact ih fun e he => h e (List.mem_cons_of_mem _ he)

theorem alterIn_eq {es : List (κ × α)} (h : Sorted es) (k : κ) (f : Option α → α) :
    alterIn k f es = insertIn k (f (findIn k es)) es := by
  induction es with
  | nil => rfl
  | cons e es ih =>
    obtain ⟨j, b⟩ := e
    obtain ⟨lo, rest⟩ := List.pairwise_cons.mp h
    unfold alterIn insertIn
    split
    case isTrue lt =>
      rw [findIn_eq_none fun e he => ?_]
      rcases List.mem_cons.mp he with rfl | he
      · exact lt
      · exact String.lt_trans lt (lo e he)
    case isFalse =>
      split
      case isTrue eq => simp [findIn, eq]
      case isFalse ne => simp [findIn, ne, ih rest]

theorem Sorted.eraseIn {es : List (κ × α)} (h : Sorted es) (k : κ) : Sorted (eraseIn k es) := by
  induction es with
  | nil => exact h
  | cons f es ih =>
    obtain ⟨j, b⟩ := f
    obtain ⟨lo, rest⟩ := List.pairwise_cons.mp h
    unfold NameMap.eraseIn
    split
    case isTrue => exact rest
    case isFalse => exact List.pairwise_cons.mpr ⟨fun e he => lo e (mem_eraseIn he), ih rest⟩

def empty : NameMap κ α := ⟨[], .nil⟩

instance : EmptyCollection (NameMap κ α) := ⟨empty⟩

instance : Inhabited (NameMap κ α) := ⟨∅⟩

def find? (m : NameMap κ α) (k : κ) : Option α :=
  findIn k m.entries

def contains (m : NameMap κ α) (k : κ) : Bool :=
  (m.find? k).isSome

def insert (m : NameMap κ α) (k : κ) (a : α) : NameMap κ α :=
  ⟨insertIn k a m.entries, Sorted.insertIn m.sorted k a⟩

def erase (m : NameMap κ α) (k : κ) : NameMap κ α :=
  ⟨eraseIn k m.entries, Sorted.eraseIn m.sorted k⟩

def alter (m : NameMap κ α) (k : κ) (f : Option α → α) : NameMap κ α :=
  ⟨alterIn k f m.entries, alterIn_eq m.sorted k f ▸ Sorted.insertIn m.sorted k _⟩

def keys (m : NameMap κ α) : List κ := m.entries.map (·.1)

def values (m : NameMap κ α) : List α := m.entries.map (·.2)

def size (m : NameMap κ α) : Nat := m.entries.length

def isEmpty (m : NameMap κ α) : Bool := m.entries.isEmpty

-- Of two entries under one name the later stays.
def ofList (es : List (κ × α)) : NameMap κ α :=
  es.foldl (fun m e => m.insert e.1 e.2) ∅

def mapValues (f : α → β) (m : NameMap κ α) : NameMap κ β where
  entries := m.entries.map fun e => (e.1, f e.2)
  sorted := List.pairwise_map.mpr m.sorted

-- The names alone, in order and each once.
def nameSet (ks : List κ) : List κ :=
  (ofList (ks.map fun k => (k, ()))).keys

@[simp]
theorem find?_empty (k : κ) : (∅ : NameMap κ α).find? k = none := rfl

theorem findIn_insertIn (k j : κ) (a : α) (es : List (κ × α)) :
    findIn j (insertIn k a es) = if name j = name k then some a else findIn j es := by
  induction es with
  | nil => simp [insertIn, findIn]
  | cons f es ih =>
    obtain ⟨i, b⟩ := f
    grind [insertIn, findIn]

theorem find?_insert (m : NameMap κ α) (k j : κ) (a : α) :
    (m.insert k a).find? j = if name j = name k then some a else m.find? j :=
  findIn_insertIn k j a m.entries

theorem alter_eq (m : NameMap κ α) (k : κ) (f : Option α → α) :
    m.alter k f = m.insert k (f (m.find? k)) :=
  NameMap.ext (alterIn_eq m.sorted k f)

theorem findIn_eraseIn {es : List (κ × α)} (h : Sorted es) (k j : κ) :
    findIn j (eraseIn k es) = if name j = name k then none else findIn j es := by
  induction es with
  | nil => simp [eraseIn, findIn]
  | cons f es ih =>
    obtain ⟨i, b⟩ := f
    obtain ⟨lo, rest⟩ := List.pairwise_cons.mp h
    by_cases ki : name k = name i
    · by_cases jk : name j = name k
      · simp only [eraseIn, if_pos ki, if_pos jk]
        exact findIn_eq_none fun e he => by simpa [jk, ki] using lo e he
      · have ji : name j ≠ name i := ki ▸ jk
        simp only [eraseIn, findIn, if_pos ki, if_neg jk, if_neg ji]
    · by_cases ji : name j = name i
      · have jk : name j ≠ name k := fun h => ki (h ▸ ji)
        simp only [eraseIn, findIn, if_neg ki, if_pos ji, if_neg jk]
      · simp only [eraseIn, findIn, if_neg ki, if_neg ji, ih rest]

theorem find?_erase (m : NameMap κ α) (k j : κ) :
    (m.erase k).find? j = if name j = name k then none else m.find? j :=
  findIn_eraseIn m.sorted k j

theorem findIn_eq_some {k : κ} {a : α} {es : List (κ × α)} (h : Sorted es) :
    findIn k es = some a ↔ (k, a) ∈ es := by
  induction es with
  | nil => simp [findIn]
  | cons f es ih =>
    obtain ⟨j, b⟩ := f
    obtain ⟨lo, rest⟩ := List.pairwise_cons.mp h
    by_cases kj : name k = name j
    · obtain rfl := name_injective kj
      have : (k, a) ∉ es := fun m => String.lt_irrefl (name k) (lo (k, a) m)
      simp [findIn, this, eq_comm]
    · have : k ≠ j := fun e => kj (e ▸ rfl)
      simp [findIn, kj, this, ih rest]

theorem find?_eq_some {m : NameMap κ α} {k : κ} {a : α} : m.find? k = some a ↔ (k, a) ∈ m.entries :=
  findIn_eq_some m.sorted

theorem ext_find? {m n : NameMap κ α} (h : ∀ k, m.find? k = n.find? k) : m = n := by
  have mem : ∀ e, e ∈ m.entries ↔ e ∈ n.entries := fun (k, a) => by
    rw [← find?_eq_some, ← find?_eq_some, h]
  have perm : ∀ {es fs : List (κ × α)}, Sorted es → Sorted fs → (∀ e, e ∈ es ↔ e ∈ fs) → es = fs := by
    intro es
    induction es with
    | nil => exact fun _ _ h => (List.eq_nil_iff_forall_not_mem.mpr fun e he => by simpa using (h e).mpr he).symm
    | cons e es ih =>
      intro fs hes hfs h
      obtain ⟨lo, hes'⟩ := List.pairwise_cons.mp hes
      match fs with
      | [] => exact absurd ((h e).mp List.mem_cons_self) List.not_mem_nil
      | f :: fs =>
        obtain ⟨lo', hfs'⟩ := List.pairwise_cons.mp hfs
        have ef : e = f := by
          rcases List.mem_cons.mp ((h e).mp List.mem_cons_self) with eq | he
          · exact eq
          · rcases List.mem_cons.mp ((h f).mpr List.mem_cons_self) with eq | hf
            · exact eq.symm
            · exact absurd (lo' e he) (String.lt_asymm (lo f hf))
        subst ef
        refine congrArg (e :: ·) (ih hes' hfs' fun x => ⟨fun hx => ?_, fun hx => ?_⟩)
        · rcases List.mem_cons.mp ((h x).mp (List.mem_cons_of_mem _ hx)) with rfl | hx'
          · exact absurd (lo x hx) (String.lt_irrefl _)
          · exact hx'
        · rcases List.mem_cons.mp ((h x).mpr (List.mem_cons_of_mem _ hx)) with rfl | hx'
          · exact absurd (lo' x hx) (String.lt_irrefl _)
          · exact hx'
  exact NameMap.ext (perm m.sorted n.sorted mem)

end NameMap

end PropertyGraph
