import PropertyGraph.NameMap
import PropertyGraph.Proofs.Outcome

namespace PropertyGraph.NameMap

open Named

variable {κ : Type} [Named κ] {α β : Type} {m : NameMap κ α} {k : κ} {a : α} {es : List (κ × α)}

def Distinct (es : List (κ × α)) : Prop :=
  es.Pairwise (name ·.1 ≠ name ·.1)

theorem distinct_entries (m : NameMap κ α) : Distinct m.entries := by
  refine List.Pairwise.imp (fun {d e} h he => ?_) m.sorted
  exact String.lt_irrefl (name d.1) (by rwa [← he] at h)

theorem contains_iff : m.contains k = true ↔ ∃ a, m.find? k = some a :=
  Option.isSome_iff_exists

theorem mem_keys_iff : k ∈ m.keys ↔ ∃ a, m.find? k = some a := by
  rw [keys, List.mem_map]
  constructor
  case mp => exact fun ⟨e, he, hk⟩ => ⟨e.2, find?_eq_some.mpr (hk ▸ he)⟩
  case mpr => exact fun ⟨a, ha⟩ => ⟨(k, a), find?_eq_some.mp ha, rfl⟩

theorem isEmpty_iff : m.isEmpty = true ↔ ∀ k, m.find? k = none := by
  rw [isEmpty, List.isEmpty_iff, List.eq_nil_iff_forall_not_mem]
  constructor
  case mp =>
    intro h k
    cases hf : m.find? k
    case none => rfl
    case some a => exact absurd (find?_eq_some.mp hf) (h _)
  case mpr =>
    intro h e he
    have hf : m.find? e.1 = some e.2 := find?_eq_some.mpr he
    simp [h] at hf

theorem find?_insert_self (m : NameMap κ α) (k : κ) (a : α) : (m.insert k a).find? k = some a := by
  rw [find?_insert, if_pos rfl]

theorem find?_insert_of_ne {j : κ} (m : NameMap κ α) (a : α) (h : j ≠ k) :
    (m.insert k a).find? j = m.find? j := by
  rw [find?_insert, if_neg fun hn => h (name_injective hn)]

theorem find?_erase_self (m : NameMap κ α) (k : κ) : (m.erase k).find? k = none := by
  rw [find?_erase, if_pos rfl]

theorem find?_erase_of_ne {j : κ} (m : NameMap κ α) (h : j ≠ k) : (m.erase k).find? j = m.find? j := by
  rw [find?_erase, if_neg fun hn => h (name_injective hn)]

theorem insert_comm {j : κ} (m : NameMap κ α) (a b : α) (h : j ≠ k) :
    (m.insert j a).insert k b = (m.insert k b).insert j a := by
  have hn : name j ≠ name k := fun he => h (name_injective he)
  refine ext_find? fun i => ?_
  simp only [find?_insert]
  by_cases hk : name i = name k
  case pos => rw [if_pos hk, if_neg fun hj => hn (hj.symm.trans hk), if_pos hk]
  case neg => rw [if_neg hk, if_neg hk]

theorem erase_insert_comm {j : κ} (m : NameMap κ α) (a : α) (h : j ≠ k) :
    (m.erase j).insert k a = (m.insert k a).erase j := by
  have hn : name j ≠ name k := fun he => h (name_injective he)
  refine ext_find? fun i => ?_
  simp only [find?_insert, find?_erase]
  by_cases hk : name i = name k
  case pos => rw [if_pos hk, if_neg fun hj => hn (hj.symm.trans hk), if_pos hk]
  case neg => rw [if_neg hk, if_neg hk]

theorem erase_eq_self (h : m.find? k = none) : m.erase k = m := by
  refine ext_find? fun i => ?_
  by_cases hi : i = k
  case pos => rw [hi, find?_erase_self, h]
  case neg => exact find?_erase_of_ne m hi

-- What was put under a free name can be taken away again.
theorem erase_insert (h : m.find? k = none) (a : α) : (m.insert k a).erase k = m := by
  refine ext_find? fun i => ?_
  by_cases hi : i = k
  case pos => rw [hi, find?_erase_self, h]
  case neg => rw [find?_erase_of_ne _ hi, find?_insert_of_ne _ _ hi]

theorem find?_mapValues (f : α → β) (m : NameMap κ α) (k : κ) : (m.mapValues f).find? k = (m.find? k).map f := by
  simp only [find?, mapValues]
  induction m.entries
  case nil => rfl
  case cons e es hi =>
    rw [List.map_cons, findIn, findIn, hi]
    split <;> rfl

-- A sum over all values is the value under one name and the sum of the others.
theorem sum_erase {f : α → Nat} (h : m.find? k = some a) :
    (m.values.map f).sum = ((m.erase k).values.map f).sum + f a := by
  rw [find?] at h
  simp only [values, erase]
  generalize m.entries = es at h
  induction es
  case nil => cases h
  case cons e es hi =>
    rw [findIn] at h
    rw [eraseIn]
    split
    case isTrue he =>
      have ha : e.2 = a := by simpa [he] using h
      simp [ha, Nat.add_comm]
    case isFalse he =>
      rw [if_neg he] at h
      simp only [List.map_cons, List.sum_cons, hi h, Nat.add_assoc]

section Filling

variable {ε : Type} {step : NameMap κ β → κ × α → Except ε (NameMap κ β)} {f : κ × α → Except ε β}
  {m m' : NameMap κ β} {b : β}

-- A map into which each entry brings what `f` makes of it.
theorem find?_foldlM_insert (hs : ∀ m e, step m e = (f e).map (m.insert e.1 ·)) (hd : Distinct es)
    (h : es.foldlM step m = .ok m') :
    m'.find? k = some b ↔
      (∃ a, (k, a) ∈ es ∧ f (k, a) = .ok b) ∨ (∀ e ∈ es, e.1 ≠ k) ∧ m.find? k = some b := by
  induction es generalizing m
  case nil =>
    have h : m = m' := by simpa using h
    simp [h]
  case cons e es hi =>
    have ⟨he, hes⟩ := List.pairwise_cons.mp hd
    have ⟨m₁, h₁, h⟩ := Outcome.bind_eq_ok.mp h
    rw [hs] at h₁
    cases hf : f e
    case error => simp [hf, Except.map] at h₁
    case ok b' =>
      have h₁ : m.insert e.1 b' = m₁ := by simpa [hf, Except.map] using h₁
      subst h₁
      rw [hi hes h, List.forall_mem_cons]
      by_cases hk : k = e.1
      case pos =>
        subst hk
        have hne : ∀ e' ∈ es, e'.1 ≠ e.1 := fun e' hm hk => he e' hm (by rw [hk])
        have hnot : ∀ a, (e.1, a) ∉ es := fun a hm => hne _ hm rfl
        have hself : (∃ a, (e.1, a) ∈ e :: es ∧ f (e.1, a) = .ok b) ↔ b' = b := by
          constructor
          case mp =>
            intro ⟨a, ha, hb⟩
            have hea : (e.1, a) = e := (List.mem_cons.mp ha).resolve_right (hnot a)
            exact Except.ok.inj (hf.symm.trans (hea ▸ hb))
          case mpr => exact fun hb => ⟨e.2, List.mem_cons_self, hb ▸ hf⟩
        rw [find?_insert_self, hself]
        simp only [hnot, false_and, exists_false, false_or, Option.some.injEq, ne_eq, not_true_eq_false,
          or_false]
        exact and_iff_right hne
      case neg =>
        have hcons : ∀ a, (k, a) ∈ e :: es ↔ (k, a) ∈ es := fun a => by
          rw [List.mem_cons, or_iff_right fun h => hk (congrArg Prod.fst h)]
        rw [find?_insert_of_ne m b' hk]
        simp only [hcons, ne_eq, Ne.symm hk, not_false_eq_true, true_and]

theorem exists_foldlM_insert (hs : ∀ m e, step m e = (f e).map (m.insert e.1 ·))
    (h : ∀ e ∈ es, ∃ b, f e = .ok b) (m : NameMap κ β) : ∃ m', es.foldlM step m = .ok m' := by
  have hstep : ∀ m : NameMap κ β, True → ∀ e ∈ es, ∃ m', step m e = .ok m' ∧ True := by
    intro m _ e he
    have ⟨b, hb⟩ := h e he
    exact ⟨m.insert e.1 b, by rw [hs, hb]; rfl, trivial⟩
  exact (Outcome.exists_foldlM hstep m trivial).imp fun _ => And.left

end Filling

theorem find?_foldl_insert (h : Distinct es) (m : NameMap κ α) :
    (es.foldl (fun m e => m.insert e.1 e.2) m).find? k = some a ↔
      (k, a) ∈ es ∨ (∀ e ∈ es, e.1 ≠ k) ∧ m.find? k = some a := by
  have hf : es.foldlM (fun (m : NameMap κ α) e => (Except.ok (m.insert e.1 e.2) : Except Unit _)) m =
      .ok (es.foldl (fun m e => m.insert e.1 e.2) m) := List.foldlM_pure ..
  have := find?_foldlM_insert (f := fun e : κ × α => .ok e.2) (fun _ _ => rfl) h hf (k := k) (b := a)
  simpa using this

theorem find?_foldl_insert_of_forall_ne (m : NameMap κ α) (h : ∀ e ∈ es, e.1 ≠ k) :
    (es.foldl (fun m e => m.insert e.1 e.2) m).find? k = m.find? k := by
  induction es generalizing m
  case nil => rfl
  case cons e es hi =>
    have ⟨he, hes⟩ := List.forall_mem_cons.mp h
    rw [List.foldl_cons, hi _ hes, find?_insert_of_ne _ _ he.symm]

-- What is inserted last under a key stays.
theorem find?_foldl_insert_of_last (m : NameMap κ α) {i : Nat} (hi : es[i]? = some (k, a))
    (h : ∀ j > i, es[j]?.map (·.1) ≠ some k) :
    (es.foldl (fun m e => m.insert e.1 e.2) m).find? k = some a := by
  induction es generalizing m i
  case nil => simp at hi
  case cons e es ih =>
    cases i
    case zero =>
      have he : e = (k, a) := by simpa using hi
      rw [List.foldl_cons, find?_foldl_insert_of_forall_ne, he, find?_insert_self]
      intro e' hm hkey
      have ⟨j, hj⟩ := List.mem_iff_getElem?.mp hm
      exact h (j + 1) (by omega) (by simp [hj, hkey])
    case succ i =>
      refine ih _ (by simpa using hi) fun j hj => ?_
      simpa using h (j + 1) (by omega)

theorem exists_find?_foldl_insert (es : List (κ × α)) (m : NameMap κ α) :
    (∃ a, (es.foldl (fun m e => m.insert e.1 e.2) m).find? k = some a) ↔
      k ∈ es.map (·.1) ∨ ∃ a, m.find? k = some a := by
  induction es generalizing m
  case nil => simp
  case cons e es hi =>
    rw [List.foldl_cons, hi]
    by_cases hk : k = e.1
    case pos => simp [hk, find?_insert_self]
    case neg => simp [hk, find?_insert_of_ne _ _ hk]

theorem mem_nameSet {ks : List κ} : k ∈ nameSet ks ↔ k ∈ ks := by
  rw [nameSet, mem_keys_iff, ofList, exists_find?_foldl_insert, List.map_map]
  simp

theorem find?_ofList (h : Distinct es) : (ofList es).find? k = some a ↔ (k, a) ∈ es := by
  rw [ofList, find?_foldl_insert h]
  simp

theorem find?_ofList_singleton {k' : κ} {a' : α} : (ofList [(k, a)]).find? k' = some a' ↔ k' = k ∧ a' = a := by
  rw [find?_ofList (List.pairwise_singleton ..), List.mem_singleton, Prod.mk.injEq]

theorem find?_ofList_map {b : β} (h : Distinct es) (f : α → β) :
    (ofList (es.map fun e => (e.1, f e.2))).find? k = some b ↔ ∃ a, (k, a) ∈ es ∧ f a = b := by
  have hd : Distinct (es.map fun e => (e.1, f e.2)) := List.pairwise_map.mpr h
  rw [find?_ofList hd, List.mem_map]
  constructor
  case mp =>
    intro ⟨e, he, hb⟩
    cases hb
    exact ⟨e.2, he, rfl⟩
  case mpr => exact fun ⟨a, ha, hb⟩ => ⟨(k, a), ha, hb ▸ rfl⟩

end PropertyGraph.NameMap
