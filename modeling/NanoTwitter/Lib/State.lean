import Mathlib.Tactic

/-!
# Code with a state and errors

Reasoning about `EStateM ε σ α`: code that reads and writes a state `σ` and returns an `α` or raises
an `ε`. What was written before an error stays written.

* `exec p s`: the state that `p` leaves behind, whether it returns or raises; `value? p s`: what it
  returns, if it returns;
* `Keeps R p`: `p` leads from every state to a state related to it by `R`. For a preorder `R` the
  judgement goes through sequencing and loops;
* `Agree R V p q`: run from states related by `R`, `p` and `q` both return, values related by `V`,
  or both raise the same error, and end in states related by `R` again.

`Except.mapM_eq_ok` and what follows from it are about loops that can fail but have no state.
-/

namespace EStateM

variable {ε σ α β γ δ : Type}

/-- The state a program leaves behind, whether it returns or raises. -/
def exec (p : EStateM ε σ α) (s : σ) : σ :=
  match p s with
  | .ok _ s' => s'
  | .error _ s' => s'

theorem bind_of_ok {p : EStateM ε σ α} {f : α → EStateM ε σ β} {s s' : σ} {a : α}
    (h : p s = .ok a s') : (p >>= f) s = f a s' := by
  show EStateM.bind p f s = f a s'
  unfold EStateM.bind; rw [h]

theorem bind_of_error {p : EStateM ε σ α} {f : α → EStateM ε σ β} {s s' : σ} {e : ε}
    (h : p s = .error e s') : (p >>= f) s = .error e s' := by
  show EStateM.bind p f s = .error e s'
  unfold EStateM.bind; rw [h]

/-- A sequence returns if and only if its first part returns and then its second one does. -/
theorem bind_eq_ok {p : EStateM ε σ α} {f : α → EStateM ε σ β} {s s' : σ} {b : β} :
    (p >>= f) s = .ok b s' ↔ ∃ a t, p s = .ok a t ∧ f a t = .ok b s' := by
  cases h : p s with
  | ok a t =>
    rw [bind_of_ok h]
    constructor
    · exact fun hf => ⟨a, t, rfl, hf⟩
    · rintro ⟨a', t', hat, hf⟩
      cases hat
      exact hf
  | error e t =>
    rw [bind_of_error h]
    simp

theorem get_ok {s : σ} : (get : EStateM ε σ σ) s = .ok s s := rfl

/-- Two programs that do the same from two states can be continued in the same way. -/
theorem bind_congr_state {p q : EStateM ε σ α} {f : α → EStateM ε σ β} {s s' : σ}
    (h : p s = q s') : (p >>= f) s = (q >>= f) s' := by
  show EStateM.bind p f s = EStateM.bind q f s'
  unfold EStateM.bind; rw [h]

theorem exec_of_ok {p : EStateM ε σ α} {s s' : σ} {a : α} (h : p s = .ok a s') :
    p.exec s = s' := by
  unfold exec; rw [h]

theorem exec_bind_of_ok {p : EStateM ε σ α} {f : α → EStateM ε σ β} {s s' : σ} {a : α}
    (h : p s = .ok a s') : (p >>= f).exec s = (f a).exec s' := by
  unfold exec; rw [bind_of_ok h]

theorem exec_of_error {p : EStateM ε σ α} {s s' : σ} {e : ε} (h : p s = .error e s') :
    p.exec s = s' := by
  unfold exec; rw [h]

/-- What a program returns in the end does not matter to the state. -/
theorem exec_bind_pure (p : EStateM ε σ α) (f : α → β) (s : σ) :
    (p >>= fun a => pure (f a)).exec s = p.exec s := by
  cases h : p s with
  | ok a s' => rw [exec_bind_of_ok h, exec_of_ok h]; rfl
  | error e s' => rw [exec_of_error (bind_of_error h), exec_of_error h]

/-- What a program returns, if it returns. -/
def value? (p : EStateM ε σ α) (s : σ) : Option α :=
  match p s with
  | .ok a _ => some a
  | .error _ _ => none

theorem value?_of_ok {p : EStateM ε σ α} {s s' : σ} {a : α} (h : p s = .ok a s') :
    p.value? s = some a := by
  unfold value?; rw [h]

theorem exists_ok_of_value? {p : EStateM ε σ α} {s : σ} {a : α} (h : p.value? s = some a) :
    ∃ s', p s = .ok a s' := by
  unfold value? at h
  cases hp : p s with
  | ok b s' =>
    rw [hp] at h
    exact ⟨s', by rw [Option.some.inj h]⟩
  | error e s' =>
    rw [hp] at h
    cases h

/-! ### One run -/

/-- `p` leads from every state to one that `R` relates to it, whether it returns or raises. -/
def Keeps (R : σ → σ → Prop) (p : EStateM ε σ α) : Prop := ∀ s, R s (p.exec s)

/-- `p` leaves the state alone. -/
abbrev Reads (p : EStateM ε σ α) : Prop := Keeps Eq p

section Keeps

variable {R : σ → σ → Prop} [IsPreorder σ R]

/-- Continuing with code that keeps `R` stays within `R` of where the first part ended. -/
theorem Keeps.exec_bind (p : EStateM ε σ α) {f : α → EStateM ε σ β} (hf : ∀ a, Keeps R (f a))
    (s : σ) : R (p.exec s) ((p >>= f).exec s) := by
  cases h : p s with
  | ok a s' => rw [exec_bind_of_ok h, exec_of_ok h]; exact hf a s'
  | error e s' => rw [exec_of_error (bind_of_error h), exec_of_error h]; exact refl_of R s'

theorem Keeps.bind {p : EStateM ε σ α} {f : α → EStateM ε σ β} (hp : Keeps R p)
    (hf : ∀ a, Keeps R (f a)) : Keeps R (p >>= f) := fun s =>
  trans_of R (hp s) (Keeps.exec_bind p hf s)

theorem keeps_pure (a : α) : Keeps R (pure a : EStateM ε σ α) := fun s => refl_of R s

theorem keeps_throw (e : ε) : Keeps R (throw e : EStateM ε σ α) := fun s => refl_of R s

theorem keeps_get : Keeps R (get : EStateM ε σ σ) := fun s => refl_of R s

/-- Code that only reads keeps everything. -/
theorem Reads.keeps {p : EStateM ε σ α} (h : Reads p) : Keeps R p := fun s => by
  rw [← h s]; exact refl_of R s

theorem keeps_forM {p : α → EStateM ε σ PUnit} (h : ∀ a, Keeps R (p a)) (l : List α) :
    Keeps R (l.forM p) := by
  induction l with
  | nil => exact keeps_pure _
  | cons a l ih => exact (h a).bind fun _ => ih

theorem keeps_mapM {p : α → EStateM ε σ β} (h : ∀ a, Keeps R (p a)) (l : List α) :
    Keeps R (l.mapM p) := by
  induction l with
  | nil => exact keeps_pure _
  | cons a l ih =>
    rw [List.mapM_cons]
    exact (h a).bind fun _ => ih.bind fun _ => keeps_pure _

end Keeps

/-! ### Two runs -/

/-- Two results with related values or the same error, and related states. -/
inductive Alike (R : σ → σ → Prop) (V : α → β → Prop) : Result ε σ α → Result ε σ β → Prop
  | ok {a b s t} (hv : V a b) (hs : R s t) : Alike R V (.ok a s) (.ok b t)
  | error {e s t} (hs : R s t) : Alike R V (.error e s) (.error e t)

/-- `p` and `q` have alike results when they start from related states. -/
def Agree (R : σ → σ → Prop) (V : α → β → Prop) (p : EStateM ε σ α) (q : EStateM ε σ β) : Prop :=
  ∀ s t, R s t → Alike R V (p s) (q t)

/-- Alike results have the same value. -/
theorem Alike.value? {R : σ → σ → Prop} {p q : EStateM ε σ α} {s t : σ}
    (h : Alike R Eq (p s) (q t)) : p.value? s = q.value? t := by
  unfold EStateM.value?
  generalize p s = x, q t = y at h
  cases h with
  | ok hv _ => exact congrArg some hv
  | error _ => rfl

section Agree

variable {R : σ → σ → Prop} {V : α → β → Prop} {W : γ → δ → Prop}

theorem Agree.bind {p : EStateM ε σ α} {q : EStateM ε σ β} {f : α → EStateM ε σ γ}
    {g : β → EStateM ε σ δ} (hp : Agree R V p q) (hf : ∀ a b, V a b → Agree R W (f a) (g b)) :
    Agree R W (p >>= f) (q >>= g) := by
  intro s t hst
  have h := hp s t hst
  cases hps : p s with
  | ok a s' =>
    cases hqt : q t with
    | ok b t' =>
      rw [hps, hqt] at h
      cases h with
      | ok hv hs => rw [bind_of_ok hps, bind_of_ok hqt]; exact hf a b hv s' t' hs
    | error e t' => rw [hps, hqt] at h; cases h
  | error e s' =>
    cases hqt : q t with
    | ok b t' => rw [hps, hqt] at h; cases h
    | error e' t' =>
      rw [hps, hqt] at h
      cases h with
      | error hs => rw [bind_of_error hps, bind_of_error hqt]; exact .error hs

theorem agree_pure {a : α} {b : β} (h : V a b) :
    Agree R V (pure a : EStateM ε σ α) (pure b) := fun _ _ hst => .ok h hst

theorem agree_throw (e : ε) : Agree R V (throw e : EStateM ε σ α) (throw e) :=
  fun _ _ hst => .error hst

theorem agree_mapM {p q : γ → EStateM ε σ α} (h : ∀ c, Agree R Eq (p c) (q c)) (l : List γ) :
    Agree R Eq (l.mapM p) (l.mapM q) := by
  induction l with
  | nil => exact agree_pure rfl
  | cons c l ih =>
    rw [List.mapM_cons, List.mapM_cons]
    refine (h c).bind fun a b hab => ih.bind fun as bs habs => agree_pure ?_
    rw [hab, habs]

end Agree

end EStateM

/-! ### Loops without a state -/

theorem Except.bind_eq_ok {ε α β : Type} {x : Except ε α} {f : α → Except ε β} {b : β} :
    (x >>= f) = .ok b ↔ ∃ a, x = .ok a ∧ f a = .ok b := by
  cases x with
  | ok a => simp [bind, Except.bind]
  | error e => simp [bind, Except.bind]

/-- **A loop returns the results of its body, element by element.** -/
theorem Except.mapM_eq_ok {ε α β : Type} {f : α → Except ε β} {l : List α} {r : List β} :
    l.mapM f = .ok r ↔ List.Forall₂ (fun a b => f a = .ok b) l r := by
  induction l generalizing r with
  | nil =>
    rw [List.forall₂_nil_left_iff]
    exact ⟨fun h => (Except.ok.inj h).symm, fun h => h ▸ rfl⟩
  | cons a l ih =>
    rw [List.mapM_cons, List.forall₂_cons_left_iff]
    constructor
    · intro h
      obtain ⟨b, hb, h⟩ := Except.bind_eq_ok.1 h
      obtain ⟨r', hr', h⟩ := Except.bind_eq_ok.1 h
      exact ⟨b, r', hb, ih.1 hr', (Except.ok.inj h).symm⟩
    · rintro ⟨b, r', hb, hr', rfl⟩
      rw [hb, ih.2 hr']
      rfl

theorem List.Forall₂.exists_of_mem_left {α β : Type} {R : α → β → Prop} {l : List α} {r : List β}
    (h : List.Forall₂ R l r) {a : α} (ha : a ∈ l) : ∃ b ∈ r, R a b := by
  induction h with
  | nil => exact absurd ha List.not_mem_nil
  | @cons a' b l r hab _ ih =>
    rcases List.mem_cons.1 ha with rfl | ha
    · exact ⟨b, List.mem_cons_self, hab⟩
    · obtain ⟨b', hb', hR⟩ := ih ha
      exact ⟨b', List.mem_cons_of_mem b hb', hR⟩

/-- Every element of a loop has its result. -/
theorem Except.exists_mem_of_mapM {ε α β : Type} {f : α → Except ε β} {l : List α} {r : List β}
    (h : l.mapM f = .ok r) {a : α} (ha : a ∈ l) : ∃ b ∈ r, f a = .ok b :=
  (Except.mapM_eq_ok.1 h).exists_of_mem_left ha

/-- Every result of a loop is that of one of its elements. -/
theorem Except.exists_of_mem_mapM {ε α β : Type} {f : α → Except ε β} {l : List α} {r : List β}
    (h : l.mapM f = .ok r) {b : β} (hb : b ∈ r) : ∃ a ∈ l, f a = .ok b :=
  (Except.mapM_eq_ok.1 h).flip.exists_of_mem_left hb

/-- A loop returns if and only if its body does, at every element. -/
theorem Except.mapM_ok_iff {ε α β : Type} {f : α → Except ε β} {l : List α} :
    (∃ r, l.mapM f = .ok r) ↔ ∀ a ∈ l, ∃ b, f a = .ok b := by
  simp only [Except.mapM_eq_ok]
  induction l with
  | nil => exact ⟨fun _ a ha => absurd ha List.not_mem_nil, fun _ => ⟨[], .nil⟩⟩
  | cons a l ih =>
    rw [List.forall_mem_cons, ← ih]
    constructor
    · rintro ⟨_, h⟩
      obtain ⟨b, r, hab, h, -⟩ := List.forall₂_cons_left_iff.1 h
      exact ⟨⟨b, hab⟩, r, h⟩
    · rintro ⟨⟨b, hab⟩, r, h⟩
      exact ⟨b :: r, .cons hab h⟩

/-- What is read off the results of a loop can be read off its elements. -/
theorem Except.filterMap_mapM {ε α β γ : Type} {f : α → Except ε β} {g : β → Option γ}
    {h : α → Option γ} (hgh : ∀ a b, f a = .ok b → g b = h a) {l : List α} {r : List β}
    (hr : l.mapM f = .ok r) : r.filterMap g = l.filterMap h := by
  rw [Except.mapM_eq_ok] at hr
  induction hr with
  | nil => rfl
  | cons hab _ ih => rw [List.filterMap_cons, List.filterMap_cons, hgh _ _ hab, ih]
