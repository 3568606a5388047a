import Mathlib.Algebra.Order.Ring.Nat
import Mathlib.Data.List.Forall2
import PropertyGraph.Fault

namespace PropertyGraph.Outcome

variable {ε α β : Type}

@[simp]
theorem ok_bind (a : α) (f : α → Except ε β) : (Except.ok a >>= f) = f a :=
  rfl

@[simp]
theorem error_bind (e : ε) (f : α → Except ε β) : (Except.error e >>= f) = .error e :=
  rfl

@[simp]
theorem pure_eq_ok (a : α) : (pure a : Except ε α) = .ok a :=
  rfl

@[simp]
theorem throw_eq_error (e : ε) : (throw e : Except ε α) = .error e :=
  rfl

theorem bind_eq_ok {x : Except ε α} {f : α → Except ε β} {b : β} :
    x >>= f = .ok b ↔ ∃ a, x = .ok a ∧ f a = .ok b := by
  cases x <;> simp

theorem bind_eq_error {x : Except ε α} {f : α → Except ε β} {e : ε} :
    x >>= f = .error e ↔ x = .error e ∨ ∃ a, x = .ok a ∧ f a = .error e := by
  cases x <;> simp

theorem map_eq_ok {x : Except ε α} {f : α → β} {b : β} : x.map f = .ok b ↔ ∃ a, x = .ok a ∧ f a = b := by
  cases x <;> simp [Except.map]

theorem map_eq_error {x : Except ε α} {f : α → β} {e : ε} : x.map f = .error e ↔ x = .error e := by
  cases x <;> simp [Except.map]

section After

variable {σ : Type} {r : Except Fault α × σ} {s : σ} {f : Fault}

@[simp]
theorem after_ok (a : α) (s : σ) : after (.ok a, s) = .ok s :=
  rfl

@[simp]
theorem after_error (f : Fault) (s : σ) : after ((.error f, s) : Except Fault α × σ) = .error f :=
  rfl

theorem after_eq_ok : after r = .ok s ↔ ∃ a, r = (.ok a, s) := by
  obtain ⟨_ | a, s'⟩ := r <;> simp

theorem after_eq_error : after r = .error f ↔ ∃ s, r = (.error f, s) := by
  obtain ⟨_ | a, s'⟩ := r <;> simp

end After

theorem mapM_eq_ok {as : List α} {f : α → Except ε β} {bs : List β} :
    as.mapM f = .ok bs ↔ List.Forall₂ (fun a b => f a = .ok b) as bs := by
  induction as generalizing bs
  case nil => simp [eq_comm]
  case cons a as hi =>
    rw [List.mapM_cons, List.forall₂_cons_left_iff, bind_eq_ok]
    constructor
    case mp =>
      intro ⟨b, hb, h⟩
      have ⟨bs', hbs, he⟩ := bind_eq_ok.mp h
      exact ⟨b, bs', hb, hi.mp hbs, (Except.ok.inj he).symm⟩
    case mpr =>
      intro ⟨b, bs', hb, hbs, he⟩
      exact ⟨b, hb, bind_eq_ok.mpr ⟨bs', hi.mpr hbs, he ▸ rfl⟩⟩

-- A member of a list is reached if `P` holds of everything in front of it.
def Reaches (P : α → Prop) (as : List α) (a : α) : Prop :=
  ∃ before behind, as = before ++ a :: behind ∧ ∀ b ∈ before, P b

theorem not_reaches_nil {P : α → Prop} {a : α} : ¬Reaches P [] a := by
  intro ⟨before, behind, h, _⟩
  exact List.cons_ne_nil _ _ (List.append_eq_nil_iff.mp h.symm).right

theorem reaches_cons {P : α → Prop} {as : List α} {a b : α} :
    Reaches P (b :: as) a ↔ a = b ∨ P b ∧ Reaches P as a := by
  constructor
  case mp =>
    intro ⟨before, behind, h, hP⟩
    cases before
    case nil => exact .inl (List.cons.inj h).left.symm
    case cons c before =>
      have ⟨hc, h⟩ := List.cons.inj h
      have ⟨hb, hP⟩ := List.forall_mem_cons.mp hP
      exact .inr ⟨hc ▸ hb, before, behind, h, hP⟩
  case mpr =>
    intro h
    cases h
    case inl h => exact ⟨[], as, h ▸ rfl, by simp⟩
    case inr h =>
      have ⟨hb, before, behind, has, hP⟩ := h
      exact ⟨b :: before, behind, has ▸ rfl, List.forall_mem_cons.mpr ⟨hb, hP⟩⟩

theorem reaches_append {P : α → Prop} {as bs : List α} {a : α} :
    Reaches P (as ++ bs) a ↔ Reaches P as a ∨ (∀ b ∈ as, P b) ∧ Reaches P bs a := by
  induction as
  case nil => simp [not_reaches_nil]
  case cons b as hi =>
    rw [List.cons_append, reaches_cons, reaches_cons, hi, List.forall_mem_cons]
    tauto

theorem exists_mapM {as : List α} {f : α → Except ε β} (h : ∀ a ∈ as, ∃ b, f a = .ok b) :
    ∃ bs, as.mapM f = .ok bs := by
  simp only [mapM_eq_ok]
  induction as
  case nil => exact ⟨[], .nil⟩
  case cons a as hi =>
    have ⟨⟨b, hb⟩, has⟩ := List.forall_mem_cons.mp h
    have ⟨bs, hbs⟩ := hi has
    exact ⟨b :: bs, .cons hb hbs⟩

theorem exists_map_ok {as : List α} {f : α → Except ε β} (h : ∀ a ∈ as, ∃ b, f a = .ok b) :
    ∃ bs : List β, as.map f = bs.map .ok := by
  have ⟨bs, hbs⟩ := exists_mapM h
  refine ⟨bs, ?_⟩
  rw [← List.forall₂_eq_eq_eq, List.forall₂_map_left_iff, List.forall₂_map_right_iff]
  exact mapM_eq_ok.mp hbs

-- Steps none of which fails as long as `P` holds, which they keep.
theorem exists_foldlM {as : List α} {f : β → α → Except ε β} {P : β → Prop}
    (hs : ∀ b, P b → ∀ a ∈ as, ∃ b', f b a = .ok b' ∧ P b') (b : β) (h : P b) :
    ∃ b', as.foldlM f b = .ok b' ∧ P b' := by
  induction as generalizing b
  case nil => exact ⟨b, rfl, h⟩
  case cons a as hi =>
    have ⟨b₁, hb₁, h₁⟩ := hs b h a List.mem_cons_self
    have ⟨b', hb', h'⟩ := hi (fun b hb a' ha' => hs b hb a' (List.mem_cons_of_mem a ha')) b₁ h₁
    exact ⟨b', by rw [List.foldlM_cons, hb₁]; exact hb', h'⟩

-- What the steps keep that do not fail.
theorem of_foldlM_eq_ok {as : List α} {f : β → α → Except ε β} {P : β → Prop}
    (hs : ∀ b, P b → ∀ a ∈ as, ∀ b', f b a = .ok b' → P b') {b b' : β} (h : P b) (hf : as.foldlM f b = .ok b') :
    P b' := by
  induction as generalizing b
  case nil => exact Except.ok.inj hf ▸ h
  case cons a as hi =>
    have ⟨b₁, hb₁, hf⟩ := bind_eq_ok.mp hf
    exact hi (fun b hb a' ha' => hs b hb a' (List.mem_cons_of_mem a ha')) (hs b h a List.mem_cons_self b₁ hb₁) hf

-- None of the steps failed.
theorem forall_of_foldlM_eq_ok {as : List α} {f : β → α → Except ε β} {b b' : β} (h : as.foldlM f b = .ok b') :
    ∀ a ∈ as, ∃ b₁ b₂, f b₁ a = .ok b₂ := by
  induction as generalizing b
  case nil => exact fun _ ha => nomatch ha
  case cons a as hi =>
    have ⟨b₁, hb₁, h⟩ := bind_eq_ok.mp h
    exact List.forall_mem_cons.mpr ⟨⟨b, b₁, hb₁⟩, hi h⟩

theorem exists_of_forall₂_left {R : α → β → Prop} {as : List α} {bs : List β} (h : List.Forall₂ R as bs)
    {a : α} (ha : a ∈ as) : ∃ b ∈ bs, R a b := by
  have ⟨i, hi, he⟩ := List.mem_iff_getElem.mp ha
  have hr := h.get hi (h.length_eq ▸ hi)
  rw [List.get_eq_getElem, he] at hr
  exact ⟨_, List.get_mem .., hr⟩

theorem exists_of_forall₂_right {R : α → β → Prop} {as : List α} {bs : List β} (h : List.Forall₂ R as bs)
    {b : β} (hb : b ∈ bs) : ∃ a ∈ as, R a b :=
  exists_of_forall₂_left h.flip hb

-- A loop that does nothing but stop at the first item that is not right.
theorem forIn_eq_ok {as : List α} {f : α → Unit → Except ε (ForInStep Unit)} {right : α → Prop}
    [DecidablePred right] {fault : α → ε}
    (hf : ∀ a, f a () = if right a then .ok (.yield ()) else .error (fault a)) :
    forIn as () f = .ok () ↔ ∀ a ∈ as, right a := by
  induction as
  case nil => simp
  case cons a as hi =>
    rw [List.forIn_cons, hf, List.forall_mem_cons, ← hi]
    by_cases ha : right a
    case pos =>
      rw [if_pos ha]
      exact (and_iff_right ha).symm
    case neg => simp [ha]

theorem foldlM_add {as : List α} {f : α → Except ε Nat} {g : α → Nat} (h : ∀ a ∈ as, f a = .ok (g a))
    (n : Nat) :
    as.foldlM (fun n a => do return n + (← f a)) n = .ok (n + (as.map g).sum) := by
  induction as generalizing n
  case nil => rfl
  case cons a as hi =>
    have ⟨ha, has⟩ := List.forall_mem_cons.mp h
    rw [List.foldlM_cons, ha, ok_bind, pure_eq_ok, ok_bind, hi has, List.map_cons, List.sum_cons,
      Nat.add_assoc]

end PropertyGraph.Outcome
