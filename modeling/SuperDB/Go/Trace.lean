import Mathlib.Data.List.Basic

/-!
# Runs of a labelled machine

A machine is a partial step function: the label says which of the parties moves and how the
surroundings decide what is open, and a label that is not enabled has no step. A run is a list of
labels. Each step may emit something, and what a run has emitted is its history; an invariant may
speak about the state and the history together.
-/

namespace SuperDB.Go.Trace

universe u v w

variable {σ : Type u} {L : Type v} {E : Type w} (step : σ → L → Option σ)

/-- The state that a run ends in, if all of its labels are enabled. -/
def run : σ → List L → Option σ
  | s, [] => some s
  | s, l :: ls => (step s l).bind (run · ls)

/-- What a run emits, in order. -/
def emitted (emit : σ → L → List E) : σ → List L → List E
  | _, [] => []
  | s, l :: ls => emit s l ++ ((step s l).elim [] (emitted emit · ls))

/-- Every step of a run is taken in a state that meets the condition. -/
def Along (cond : σ → L → Prop) : σ → List L → Prop
  | _, [] => True
  | s, l :: ls => cond s l ∧ ∀ s', step s l = some s' → Along cond s' ls

variable {step}

instance Along.decidable {cond : σ → L → Prop} [∀ s l, Decidable (cond s l)] :
    (s : σ) → (ls : List L) → Decidable (Along step cond s ls)
  | _, [] => isTrue trivial
  | s, l :: ls =>
    match h : step s l with
    | none => decidable_of_iff (cond s l) (by simp [Along, h])
    | some s' =>
      have : Decidable (Along step cond s' ls) := Along.decidable s' ls
      decidable_of_iff (cond s l ∧ Along step cond s' ls) (by simp [Along, h])

@[simp] theorem run_nil (s : σ) : run step s [] = some s := rfl

@[simp] theorem run_cons (s : σ) (l : L) (ls : List L) :
    run step s (l :: ls) = (step s l).bind (run step · ls) := rfl

theorem run_one {s s₁ : σ} {l : L} (h : step s l = some s₁) : run step s [l] = some s₁ := by
  simp [h]

theorem run_two {s s₁ s₂ : σ} {l l' : L} (h : step s l = some s₁) (h' : step s₁ l' = some s₂) :
    run step s [l, l'] = some s₂ := by
  simp [h, h']

/-- The invariant rule: what holds with an empty history, and is kept by every step that meets the
condition and adds what it emits to the history, holds at the end of every run whose steps all meet
the condition. -/
theorem run_invariant {emit : σ → L → List E} {cond : σ → L → Prop} {I : σ → List E → Prop}
    (hstep : ∀ s l s' es, I s es → cond s l → step s l = some s' → I s' (es ++ emit s l))
    {s s' : σ} {ls : List L} {es : List E} (h : I s es) (hcond : Along step cond s ls)
    (hrun : run step s ls = some s') : I s' (es ++ emitted step emit s ls) := by
  induction ls generalizing s es with
  | nil =>
    obtain rfl : s = s' := by simpa using hrun
    simpa [emitted] using h
  | cons l ls ih =>
    obtain ⟨s₁, h₁, hrun⟩ := Option.bind_eq_some_iff.1 hrun
    have hnext := ih (hstep s l s₁ es h hcond.1 h₁) (hcond.2 s₁ h₁) hrun
    simpa [emitted, h₁] using hnext

theorem along_true (s : σ) (ls : List L) : Along step (fun _ _ => True) s ls := by
  induction ls generalizing s with
  | nil => trivial
  | cons l ls ih => exact ⟨trivial, fun s' _ => ih s'⟩

theorem run_along {cond : σ → L → Prop} {I : σ → Prop}
    (hstep : ∀ s l s', I s → cond s l → step s l = some s' → I s') {s s' : σ} {ls : List L}
    (h : I s) (hcond : Along step cond s ls) (hrun : run step s ls = some s') : I s' :=
  @run_invariant σ L Unit step (fun _ _ => []) cond (fun s _ => I s)
    (fun s l s' _ hi hc hs => hstep s l s' hi hc hs) s s' ls [] h hcond hrun

theorem run_holds {I : σ → Prop} (hstep : ∀ s l s', I s → step s l = some s' → I s') {s s' : σ}
    {ls : List L} (h : I s) (hrun : run step s ls = some s') : I s' :=
  run_along (fun s l s' hi _ hs => hstep s l s' hi hs) h (along_true s ls) hrun

end SuperDB.Go.Trace
