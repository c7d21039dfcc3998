/-!
# Steps that follow one another

`Reaches step s t` says that steps lead from `s` to `t`.  What holds at the
start and is kept by every step holds wherever steps lead
(`Reaches.invariant`).
-/

namespace CloudAccess

/-- A state is reached from another by any number of steps. -/
inductive Reaches {σ : Type} (step : σ → σ → Prop) (s : σ) : σ → Prop
  | refl : Reaches step s s
  | step {t u : σ} : Reaches step s t → step t u → Reaches step s u

namespace Reaches

variable {σ τ : Type} {step : σ → σ → Prop} {s t u : σ}

/-- One step leads to the state after it. -/
theorem single (h : step s t) : Reaches step s t := .step .refl h

theorem trans (h : Reaches step s t) (h' : Reaches step t u) :
    Reaches step s u := by
  induction h' with
  | refl => exact h
  | step _ hs ih => exact .step ih hs

/-- What holds at the start and is kept by every step holds wherever steps
lead. -/
theorem invariant {I : σ → Prop} (h : Reaches step s t) (start : I s)
    (keep : ∀ u v, I u → step u v → I v) : I t := by
  induction h with
  | refl => exact start
  | step _ hs ih => exact keep _ _ ih hs

/-- A view under which each step is some steps of another kind turns a way
into a way of that kind. -/
theorem map {step' : τ → τ → Prop} {f : σ → τ} (h : Reaches step s t)
    (each : ∀ u v, step u v → Reaches step' (f u) (f v)) :
    Reaches step' (f s) (f t) := by
  induction h with
  | refl => exact .refl
  | step _ hs ih => exact ih.trans (each _ _ hs)

end Reaches

end CloudAccess
