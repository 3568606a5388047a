import Mathlib.Data.List.Zip
import PropertyGraph.Fault

namespace PropertyGraph

variable {σ κ α : Type}

-- What each of the calls answers, and what the last of them leaves behind.
def transcript (perform : σ → κ → Except Fault α × σ) (s : σ) : List κ → List (Except Fault α) × σ
  | [] => ([], s)
  | c :: calls =>
    let (answer, s) := perform s c
    let (answers, s) := transcript perform s calls
    (answer :: answers, s)

-- What is left of some calls without some of those that were rejected when they were made.
inductive Strikes (perform : σ → κ → Except Fault α × σ) (Rejects : σ → κ → Prop) : σ → List κ → List κ → Prop
  | nil {s} : Strikes perform Rejects s [] []
  | keep {s c calls kept} : Strikes perform Rejects (perform s c).2 calls kept →
    Strikes perform Rejects s (c :: calls) (c :: kept)
  | strike {s c calls kept} : Rejects s c → Strikes perform Rejects (perform s c).2 calls kept →
    Strikes perform Rejects s (c :: calls) kept

-- The calls that are kept end in the same state, and each of them answers what it answered among all calls.
structure SameWithout (perform : σ → κ → Except Fault α × σ) (s : σ) (calls kept : List κ) : Prop where
  state : (transcript perform s calls).2 = (transcript perform s kept).2
  answers : (kept.zip (transcript perform s kept).1).Sublist (calls.zip (transcript perform s calls).1)

variable {perform : σ → κ → Except Fault α × σ} {Rejects : σ → κ → Prop} {s : σ} {calls kept : List κ} {c : κ}

theorem SameWithout.keep (h : SameWithout perform (perform s c).2 calls kept) :
    SameWithout perform s (c :: calls) (c :: kept) where
  state := h.state
  answers := h.answers.cons_cons _

theorem SameWithout.strike {f : Fault} (hc : perform s c = (.error f, s)) (h : SameWithout perform s calls kept) :
    SameWithout perform s (c :: calls) kept where
  state := by
    rw [transcript, hc]
    exact h.state
  answers := by
    rw [transcript, hc]
    exact h.answers.cons _

theorem Strikes.sameWithout (hr : ∀ s c, Rejects s c → ∃ f, perform s c = (.error f, s))
    (h : Strikes perform Rejects s calls kept) : SameWithout perform s calls kept := by
  induction h
  case nil => exact ⟨rfl, .slnil⟩
  case keep hi => exact hi.keep
  case strike hrejects _ hi =>
    have ⟨f, hc⟩ := hr _ _ hrejects
    rw [hc] at hi
    exact hi.strike hc

end PropertyGraph
