import Mathlib.Tactic
import NanoTwitter.Lib.State

/-!
# Programs that specify programs

A specification can be written as a program too: on states of its own, in terms of its own, and with
an error `none` that stands for nothing being said about what happens. `Meets R V r r'` says that
the result `r` of a program is one that the result `r'` of the specification allows: where the
specification returns, the program returns a value related by `V`, where it raises an error the
program raises the same one, and both end in states related by `R`. The judgement goes through
sequencing (`Meets.bind`).
-/

namespace EStateM

variable {ε σ τ α β γ δ : Type}

/-- Programs that specify programs with errors in `ε`. -/
abbrev Spec (ε τ β : Type) := EStateM (Option ε) τ β

/-- The result is one that the specification allows. -/
inductive Meets (R : σ → τ → Prop) (V : α → β → Prop) :
    EStateM.Result ε σ α → EStateM.Result (Option ε) τ β → Prop
  | ok {a : α} {b : β} {s : σ} {t : τ} (hV : V a b) (hR : R s t) :
      Meets R V (.ok a s) (.ok b t)
  | error {e : ε} {s : σ} {t : τ} (hR : R s t) : Meets R V (.error e s) (.error (some e) t)
  | unsaid {r : EStateM.Result ε σ α} {t : τ} : Meets R V r (.error none t)

variable {R : σ → τ → Prop} {V : α → β → Prop} {W : γ → δ → Prop}

/-- A program in two parts meets a specification in two parts, part by part. -/
theorem Meets.bind {p : EStateM ε σ α} {q : Spec ε τ β} {f : α → EStateM ε σ γ}
    {g : β → Spec ε τ δ} {s : σ} {t : τ} (h : Meets R V (p s) (q t))
    (hf : ∀ a b s' t', V a b → R s' t' → Meets R W (f a s') (g b t')) :
    Meets R W ((p >>= f) s) ((q >>= g) t) := by
  generalize hp : p s = r, hq : q t = r' at h
  cases h with
  | ok hV hR =>
    rw [bind_of_ok hp, bind_of_ok hq]
    exact hf _ _ _ _ hV hR
  | error hR =>
    rw [bind_of_error hp, bind_of_error hq]
    exact .error hR
  | unsaid =>
    rw [bind_of_error hq]
    exact .unsaid

/-- Both branch on the same condition. -/
theorem Meets.ite {c : Prop} [Decidable c] {p p' : EStateM ε σ α} {q q' : Spec ε τ β} {s : σ}
    {t : τ} (hpos : c → Meets R V (p s) (q t)) (hneg : ¬ c → Meets R V (p' s) (q' t)) :
    Meets R V ((if c then p else p') s) ((if c then q else q') t) := by
  split_ifs with h
  · exact hpos h
  · exact hneg h

end EStateM
