import Mathlib.Tactic
import Mathlib.Data.List.Infix

/-!
# Runs of a deterministic step function

A system is a step function `step : σ → ε → σ`; a run is the list of its events.

* `run step s es`: the state after the events `es`;
* `Always step P s es`: `P` holds in every state the run passes through, the first and the last
  included;
* `EachStep step C s es`: every event of the run is taken in a state that meets `C`.

`always_of_inv` is the induction rule for invariants, `always_of_eachStep` the rule for those that
steps under a condition keep. `always_iff_eachStep` is its exact form:
when one step keeps a property if and only if it is taken under a condition, a run keeps the
property throughout if and only if each of its steps is taken under the condition;
`always_iff_eachStep_of` is the same for a restricted class of runs.
`eachStep_congr` compares two conditions under an invariant.
-/

namespace Run

variable {σ ε : Type} {step : σ → ε → σ}

/-- The state after the events `es`. -/
def run (step : σ → ε → σ) (s : σ) (es : List ε) : σ := es.foldl step s

@[simp] theorem run_nil (s : σ) : run step s [] = s := rfl

@[simp] theorem run_cons (s : σ) (e : ε) (es : List ε) :
    run step s (e :: es) = run step (step s e) es := rfl

theorem run_append (s : σ) (es fs : List ε) :
    run step s (es ++ fs) = run step (run step s es) fs := List.foldl_append

theorem run_concat (s : σ) (es : List ε) (e : ε) :
    run step s (es ++ [e]) = step (run step s es) e := by
  rw [run_append, run_cons, run_nil]

/-- `P` holds in every state reached along the run. -/
def Always (step : σ → ε → σ) (P : σ → Prop) (s : σ) (es : List ε) : Prop :=
  ∀ p, p <+: es → P (run step s p)

/-- Every event of the run is taken in a state that meets `C`. -/
def EachStep (step : σ → ε → σ) (C : σ → ε → Prop) (s : σ) (es : List ε) : Prop :=
  ∀ p e, p ++ [e] <+: es → C (run step s p) e

theorem Always.last {P : σ → Prop} {s : σ} {es : List ε} (h : Always step P s es) :
    P (run step s es) := h es (List.prefix_refl es)

theorem always_nil {P : σ → Prop} {s : σ} : Always step P s [] ↔ P s := by
  constructor
  · intro h
    exact h [] (List.prefix_refl [])
  · intro h p hp
    rw [List.prefix_nil.1 hp]
    exact h

theorem always_cons {P : σ → Prop} {s : σ} {e : ε} {es : List ε} :
    Always step P s (e :: es) ↔ P s ∧ Always step P (step s e) es := by
  constructor
  · intro h
    refine ⟨h [] List.nil_prefix, fun p hp => ?_⟩
    exact h (e :: p) ((List.prefix_cons_inj e).2 hp)
  · rintro ⟨h0, h⟩ p hp
    rcases p with _ | ⟨e', p⟩
    · exact h0
    · obtain ⟨rfl, hp'⟩ := List.cons_prefix_cons.1 hp
      exact h p hp'

theorem eachStep_nil {C : σ → ε → Prop} {s : σ} : EachStep step C s [] := by
  intro p e hp
  exact absurd (List.prefix_nil.1 hp) (by simp)

theorem eachStep_cons {C : σ → ε → Prop} {s : σ} {e : ε} {es : List ε} :
    EachStep step C s (e :: es) ↔ C s e ∧ EachStep step C (step s e) es := by
  constructor
  · intro h
    refine ⟨h [] e ((List.prefix_cons_inj e).2 List.nil_prefix), fun p e' hp => ?_⟩
    exact h (e :: p) e' ((List.prefix_cons_inj e).2 hp)
  · rintro ⟨h0, h⟩ p e' hp
    rcases p with _ | ⟨e'', p⟩
    · obtain ⟨rfl, -⟩ := List.cons_prefix_cons.1 hp
      exact h0
    · obtain ⟨rfl, hp'⟩ := List.cons_prefix_cons.1 hp
      exact h p e' hp'

/-- A condition that can be decided at every step can be decided along a run. -/
instance decidableEachStep {C : σ → ε → Prop} [∀ s e, Decidable (C s e)] :
    ∀ s es, Decidable (EachStep step C s es)
  | _, [] => .isTrue eachStep_nil
  | s, e :: es =>
      have : Decidable (EachStep step C (step s e) es) := decidableEachStep (step s e) es
      decidable_of_iff (C s e ∧ EachStep step C (step s e) es) eachStep_cons.symm

/-- A property of the first state that every step under a condition keeps holds throughout the runs
whose steps meet the condition. -/
theorem always_of_eachStep {P : σ → Prop} {C : σ → ε → Prop}
    (hs : ∀ s e, P s → C s e → P (step s e)) {s : σ} (h0 : P s) {es : List ε}
    (h : EachStep step C s es) : Always step P s es := by
  induction es generalizing s with
  | nil => exact always_nil.2 h0
  | cons e es ih =>
    obtain ⟨hC, h⟩ := eachStep_cons.1 h
    exact always_cons.2 ⟨h0, ih (hs s e h0 hC) h⟩

/-- A property of the first state that every step keeps holds throughout the run. -/
theorem always_of_inv {P : σ → Prop} (hs : ∀ s e, P s → P (step s e)) {s : σ} (h0 : P s)
    (es : List ε) : Always step P s es :=
  always_of_eachStep (C := fun _ _ => True) (fun s e h _ => hs s e h) h0 fun _ _ _ => trivial

/-- What every step keeps of the state before it, under an invariant, runs keep. -/
theorem rel_run {R : σ → σ → Prop} {I : σ → Prop} (hrefl : ∀ s, R s s)
    (htrans : ∀ s s' s'', R s s' → R s' s'' → R s s'')
    (hstep : ∀ s e, I s → R s (step s e) ∧ I (step s e)) {s : σ} (h : I s) (es : List ε) :
    R s (run step s es) := by
  induction es generalizing s with
  | nil => exact hrefl s
  | cons e es ih =>
    rw [run_cons]
    exact htrans _ _ _ (hstep s e h).1 (ih (hstep s e h).2)

/-- Two conditions on steps that agree under an invariant agree along runs. -/
theorem eachStep_congr {I : σ → Prop} {C D : σ → ε → Prop} (hinv : ∀ s e, I s → I (step s e))
    (h : ∀ s e, I s → (C s e ↔ D s e)) {s : σ} (h0 : I s) (es : List ε) :
    EachStep step C s es ↔ EachStep step D s es := by
  induction es generalizing s with
  | nil => exact ⟨fun _ => eachStep_nil, fun _ => eachStep_nil⟩
  | cons e es ih => rw [eachStep_cons, eachStep_cons, h s e h0, ih (hinv s e h0)]

/-- **The exact invariant rule**, for runs whose steps all meet a condition `A` to begin with. Under
an invariant `I` that good states keep, if one step from a good state leads to a good state exactly
when it meets `C`, then a run stays good exactly when all its steps meet `C`. -/
theorem always_iff_eachStep_of {I G : σ → Prop} {A C : σ → ε → Prop}
    (hinv : ∀ s e, I s → G s → A s e → C s e → I (step s e))
    (hstep : ∀ s e, I s → G s → A s e → (G (step s e) ↔ C s e))
    {s : σ} (h0 : I s) (hg : G s) {es : List ε} (ha : EachStep step A s es) :
    Always step G s es ↔ EachStep step C s es := by
  induction es generalizing s with
  | nil => exact ⟨fun _ => eachStep_nil, fun _ => always_nil.2 hg⟩
  | cons e es ih =>
    obtain ⟨hA, ha⟩ := eachStep_cons.1 ha
    rw [always_cons, eachStep_cons]
    constructor
    · rintro ⟨-, h⟩
      have hg' : G (step s e) := h [] List.nil_prefix
      have hC : C s e := (hstep s e h0 hg hA).1 hg'
      exact ⟨hC, (ih (hinv s e h0 hg hA hC) hg' ha).1 h⟩
    · rintro ⟨hC, h⟩
      have hg' := (hstep s e h0 hg hA).2 hC
      exact ⟨hg, (ih (hinv s e h0 hg hA hC) hg' ha).2 h⟩

/-- The exact invariant rule for all runs. -/
theorem always_iff_eachStep {I G : σ → Prop} {C : σ → ε → Prop}
    (hinv : ∀ s e, I s → G s → C s e → I (step s e))
    (hstep : ∀ s e, I s → G s → (G (step s e) ↔ C s e))
    {s : σ} (h0 : I s) (hg : G s) (es : List ε) :
    Always step G s es ↔ EachStep step C s es :=
  always_iff_eachStep_of (A := fun _ _ => True) (fun s e hi hg _ hc => hinv s e hi hg hc)
    (fun s e hi hg _ => hstep s e hi hg) h0 hg fun _ _ _ => trivial

end Run
