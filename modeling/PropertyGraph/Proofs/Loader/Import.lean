import PropertyGraph.Proofs.Loader.Calls
import PropertyGraph.Proofs.Loader.Reading
import PropertyGraph.Proofs.Loader.Success

namespace PropertyGraph

namespace Table

-- What a row of a table asks for, behind `done` other rows.
inductive Asks (reads : Reading) (done : Nat) : Except Fault (List String) → Except Fault Loader.Call → Prop
  | noText {f} : Asks reads done (.error f) (.error f)
  | row {cells r} : reads (done + 1) cells r → Asks reads done (.ok cells) r

-- All rows can be read, and what they ask for one after the other is accepted.
def Adds (reads : Reading) (done : Nat) (l : Loader) (rows : List (Except Fault (List String))) (l' : Loader) : Prop :=
  ∃ calls, List.Forall₂ (fun row c => Asks reads row.2 row.1 (.ok c)) (rows.zipIdx done) calls ∧
    calls.foldlM Loader.call l = .ok l'

-- What adding rows answers and leaves behind: all of them, or those in front of the first one that cannot be read or is
-- rejected.
inductive Ends (reads : Reading) (done : Nat) (l : Loader) :
    List (Except Fault (List String)) → Except Fault Nat × Loader → Prop
  | all {rows l'} : Adds reads done l rows l' → Ends reads done l rows (.ok (done + rows.length), l')
  | unread {before row behind l' f} : Adds reads done l before l' →
    Asks reads (done + before.length) row (.error f) → Ends reads done l (before ++ row :: behind) (.error f, l')
  | rejected {before row behind l' c f} : Adds reads done l before l' →
    Asks reads (done + before.length) row (.ok c) → l'.call c = .error f →
    Ends reads done l (before ++ row :: behind) (.error f, l')

variable {σ : Type} {read : RowReader σ} {reads : Reading} {l l₁ l' : Loader} {row : Except Fault (List String)}
  {rows : List (Except Fault (List String))} {c : Loader.Call} {done : Nat} {f : Fault} {r : Except Fault Nat × Loader}

theorem adds_cons : Adds reads done l (row :: rows) l' ↔
    ∃ c l₁, Asks reads done row (.ok c) ∧ l.call c = .ok l₁ ∧ Adds reads (done + 1) l₁ rows l' := by
  simp only [Adds, List.zipIdx_cons, List.forall₂_cons_left_iff]
  constructor
  case mp =>
    rintro ⟨_, ⟨c, calls, hc, hcalls, rfl⟩, hl⟩
    have ⟨l₁, hl₁, hl⟩ := Outcome.bind_eq_ok.mp hl
    exact ⟨c, l₁, hc, hl₁, calls, hcalls, hl⟩
  case mpr =>
    rintro ⟨c, l₁, hc, hl₁, calls, hcalls, hl⟩
    exact ⟨c :: calls, ⟨c, calls, hc, hcalls, rfl⟩, Outcome.bind_eq_ok.mpr ⟨l₁, hl₁, hl⟩⟩

theorem add_length_cons (done : Nat) (row : Except Fault (List String)) (rows : List (Except Fault (List String))) :
    done + (row :: rows).length = done + 1 + rows.length := by
  rw [List.length_cons, Nat.add_assoc, Nat.add_comm 1]

theorem Ends.cons (ha : Asks reads done row (.ok c)) (hl : l.call c = .ok l₁) (h : Ends reads (done + 1) l₁ rows r) :
    Ends reads done l (row :: rows) r := by
  have hadds : ∀ {rows l'}, Adds reads (done + 1) l₁ rows l' → Adds reads done l (row :: rows) l' :=
    fun h => adds_cons.mpr ⟨c, l₁, ha, hl, h⟩
  cases h
  case all h =>
    rw [← add_length_cons]
    exact .all (hadds h)
  case unread before row' behind l' f h hf =>
    rw [← add_length_cons] at hf
    exact show Ends reads done l ((row :: before) ++ row' :: behind) _ from .unread (hadds h) hf
  case rejected before row' behind l' c f h hc hf =>
    rw [← add_length_cons] at hc
    exact show Ends reads done l ((row :: before) ++ row' :: behind) _ from .rejected (hadds h) hc hf

end Table

end PropertyGraph
