import Mathlib.Data.List.Basic
import PropertyGraph.Proofs.Run.Reader
import PropertyGraph.View.Part

namespace PropertyGraph

namespace Visitor

variable {σ α β : Type}

-- Shows items to a visitor. The answer tells whether it asked for more after the last one.
def run (visitor : σ → α → σ × Bool) : List α → σ → σ × Bool
  | [], s => (s, true)
  | a :: as, s =>
    match visitor s a with
    | (s', true) => run visitor as s'
    | (s', false) => (s', false)

variable (visitor : σ → α → σ × Bool) (s : σ)

theorem run_append (as bs : List α) :
    run visitor (as ++ bs) s =
      match run visitor as s with
      | (s', true) => run visitor bs s'
      | (s', false) => (s', false) := by
  induction as generalizing s
  case nil => rfl
  case cons a as hi =>
    rw [List.cons_append, run, run]
    cases visitor s a with | mk s' more => ?_
    cases more
    case false => rfl
    case true => exact hi s'

-- To pass over what `f` has no image of is to show the images only.
theorem run_filterMap (f : β → Option α) (bs : List β) :
    run (fun s b => match f b with | some a => visitor s a | none => (s, true)) bs s =
      run visitor (bs.filterMap f) s := by
  induction bs generalizing s
  case nil => rfl
  case cons b bs hi =>
    rw [run, List.filterMap_cons]
    cases f b
    case none => exact hi s
    case some a =>
      simp only [run]
      cases visitor s a with | mk s' more => ?_
      cases more
      case false => rfl
      case true => exact hi s'

theorem run_map (f : β → α) (bs : List β) :
    run (fun s b => visitor s (f b)) bs s = run visitor (bs.map f) s := by
  have h := run_filterMap visitor s (fun b => some (f b)) bs
  rwa [List.filterMap_eq_map'] at h

-- A visitor that always asks for more sees everything.
theorem run_always (f : σ → α → σ) (as : List α) :
    run (fun s a => (f s a, true)) as s = (as.foldl f s, true) := by
  induction as generalizing s
  case nil => rfl
  case cons a as hi => exact hi (f s a)

-- A visitor that looks for the first item of a kind keeps what it makes of it.
theorem run_find (p : α → Bool) (f : α → β) (as : List α) :
    (run (fun (_ : Option β) a => if p a then (some (f a), false) else (none, true)) as none).1 =
      (as.find? p).map f := by
  induction as
  case nil => rfl
  case cons a as hi =>
    rw [run, List.find?_cons]
    cases p a
    case false => exact hi
    case true => rfl

end Visitor

namespace Topology

variable {σ : Type}

-- The cursor is moved over all ids that the visitor sees.
theorem visitFrom_of_shows {a : Arena} {c : Cursor} {current : Option Nat} {rest : List Nat}
    (visit : σ → Nat → Nat → σ × Bool) (i : Nat) (s : σ) (h : a.Shows c ⟨current, rest⟩) :
    visitFrom a visit rest.length i c s =
      .ok (Visitor.run (fun s (x : Nat × Nat) => visit s x.2 x.1) (rest.zipIdx i) s) := by
  induction rest generalizing c current i s
  case nil => rfl
  case cons id rest hi =>
    have ⟨ha, hs⟩ := Arena.nextTarget_agrees h
    rw [List.length_cons, visitFrom, List.zipIdx_cons, Visitor.run]
    split
    case h_1 => simp_all [Reader.nextTarget]
    case h_2 id' c' he =>
      have hid : id' = id := by simpa [he, Reader.nextTarget] using ha
      subst hid
      simp only [he, Reader.nextTarget] at hs
      cases visit s i id' with | mk s' more => ?_
      cases more
      case false => rfl
      case true => exact hi (i + 1) s' hs

end Topology

end PropertyGraph
