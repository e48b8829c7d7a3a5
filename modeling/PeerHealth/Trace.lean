/-! Systems that go on step by step, and what is told of their steps. -/

namespace PeerHealth.Trace

/-- Some steps, and what can be told of them from the first to the last. -/
inductive Run {σ ν : Type} (step : σ → List ν → σ → Prop) (s : σ) : List ν → σ → Prop
  | refl : Run step s [] s
  | tail {trace t notices u} : Run step s trace t → step t notices u →
      Run step s (trace ++ notices) u

namespace Run

variable {σ ν : Type} {step : σ → List ν → σ → Prop} {s t u : σ} {trace trace' notices : List ν}

theorem single (h : step s notices t) : Run step s notices t := refl.tail h

theorem trans (h : Run step s trace t) (h' : Run step t trace' u) :
    Run step s (trace ++ trace') u := by
  induction h' with
  | refl => rwa [List.append_nil]
  | tail _ hstep ih =>
    rw [← List.append_assoc]
    exact ih.tail hstep

/-- What is so of a state at first and stays so with each step is so after every run. What is told
of the steps up to a state may come into it. -/
@[elab_as_elim]
theorem invariant {P : List ν → σ → Prop} (h : Run step s trace t) (hstart : P [] s)
    (hstep : ∀ {trace notices t u}, P trace t → step t notices u → P (trace ++ notices) u) :
    P trace t := by
  induction h with
  | refl => exact hstart
  | tail _ hnext ih => exact hstep ih hnext

end Run
end PeerHealth.Trace
