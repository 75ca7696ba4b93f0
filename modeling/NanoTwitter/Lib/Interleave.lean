import Mathlib.Tactic
import Mathlib.Algebra.BigOperators.Group.List.Basic
import NanoTwitter.Lib.Run

/-!
# Interleavings of threads over a shared state

A thread is given by its control points, of a type `A`, and a function `m : A → ι → σ → σ × A`: the
atomic command at each control point, what it does to the shared state and where the thread
continues. An input of type `ι` (a clock reading, say) is supplied by the environment at each
command. A finished thread stutters.

A `Config` is the shared state together with any number of threads. A schedule is a list of pairs
of a thread number and an input; `fire` lets one thread take its next command, so that
`Run.run (fire m)` ranges over all interleavings of all threads. `Ends` says what a thread does with
nothing in between.

`sumThreads f` adds up a contribution `f` of every thread: the ghost counters of the proofs
about interleavings are of this form, and `sumThreads_set` says what one command does to them.
-/

namespace Interleave

variable {σ ι A : Type}

/-- The shared state and the threads. -/
structure Config (σ A : Type) where
  shared : σ
  threads : List A

/-- Thread `e.1` takes its next command. -/
def fire (m : A → ι → σ → σ × A) (c : Config σ A) (e : ℕ × ι) : Config σ A :=
  match c.threads[e.1]? with
  -- a schedule may name a thread that does not exist: nothing happens
  | none => c
  | some l =>
      { shared := (m l e.2 c.shared).1
        threads := c.threads.set e.1 (m l e.2 c.shared).2 }

variable {m : A → ι → σ → σ × A}

theorem fire_of_none {c : Config σ A} {e : ℕ × ι} (h : c.threads[e.1]? = none) :
    fire m c e = c := by
  unfold fire; rw [h]

theorem fire_of_some {c : Config σ A} {e : ℕ × ι} {l : A} (h : c.threads[e.1]? = some l) :
    fire m c e = ⟨(m l e.2 c.shared).1, c.threads.set e.1 (m l e.2 c.shared).2⟩ := by
  unfold fire; rw [h]

/-- A property of all control points that every command keeps is kept by `fire`. -/
theorem forall_threads_fire {P : A → Prop} {c : Config σ A} {e : ℕ × ι}
    (hc : ∀ l ∈ c.threads, P l) (hs : ∀ l ∈ c.threads, P l → P (m l e.2 c.shared).2) :
    ∀ l ∈ (fire m c e).threads, P l := by
  cases h : c.threads[e.1]? with
  | none => rw [fire_of_none h]; exact hc
  | some l =>
    rw [fire_of_some h]
    intro l' hl'
    rcases List.mem_or_eq_of_mem_set hl' with hl' | rfl
    · exact hc l' hl'
    · have hl := List.mem_of_getElem? h
      exact hs l hl (hc l hl)

/-- **The rely-guarantee rule.** `J` is an invariant of the shared state and `K s l` what the thread
at `l` has established about the state `s`. If every command keeps `J`, establishes `K` for its own
thread and changes the state only by `G`, and if no change by `G` takes away what a thread has
established, then `J` and the `K` of all threads are kept. -/
theorem rely_fire {J : σ → Prop} {K : σ → A → Prop} {G : σ → σ → Prop}
    (hstable : ∀ s s' l, G s s' → K s l → K s' l)
    (hstep : ∀ l i s, J s → K s l →
      J (m l i s).1 ∧ G s (m l i s).1 ∧ K (m l i s).1 (m l i s).2)
    {c : Config σ A} (h : J c.shared ∧ ∀ l ∈ c.threads, K c.shared l) (e : ℕ × ι) :
    J (fire m c e).shared ∧ ∀ l ∈ (fire m c e).threads, K (fire m c e).shared l := by
  cases hl : c.threads[e.1]? with
  | none => rw [fire_of_none hl]; exact h
  | some l =>
    obtain ⟨hJ, hG, hK⟩ := hstep l e.2 c.shared h.1 (h.2 l (List.mem_of_getElem? hl))
    rw [fire_of_some hl]
    refine ⟨hJ, fun l' hl' => ?_⟩
    rcases List.mem_or_eq_of_mem_set hl' with hl' | rfl
    · exact hstable _ _ l' hG (h.2 l' hl')
    · exact hK

/-- The exact step rule: a property survives a step when the command of the thread that moves meets
its condition, and only then. -/
theorem fire_iff {G : Config σ A → Prop} {C : A → Prop} {c : Config σ A} {e : ℕ × ι} (hG : G c)
    (h : ∀ l, c.threads[e.1]? = some l →
      (G ⟨(m l e.2 c.shared).1, c.threads.set e.1 (m l e.2 c.shared).2⟩ ↔ C l)) :
    G (fire m c e) ↔ ∀ l ∈ c.threads[e.1]?, C l := by
  cases hl : c.threads[e.1]? with
  | none =>
    rw [fire_of_none hl]
    exact iff_of_true hG (by simp)
  | some l =>
    rw [fire_of_some hl, h l hl]
    simp

/-- The sum of a contribution of every thread. -/
def sumThreads (f : A → ℤ) (L : List A) : ℤ := (L.map f).sum

@[simp] theorem sumThreads_nil (f : A → ℤ) : sumThreads f [] = 0 := rfl

@[simp] theorem sumThreads_cons (f : A → ℤ) (l : A) (L : List A) :
    sumThreads f (l :: L) = f l + sumThreads f L := rfl

/-- Moving one thread to another control point exchanges its contribution. -/
theorem sumThreads_set (f : A → ℤ) {L : List A} {i : ℕ} {l : A} (h : L[i]? = some l)
    (l' : A) : sumThreads f (L.set i l') = sumThreads f L + (f l' - f l) := by
  induction L generalizing i with
  | nil => simp at h
  | cons a L ih =>
    cases i with
    | zero =>
      obtain rfl : a = l := by simpa using h
      simp only [List.set_cons_zero, sumThreads_cons]
      omega
    | succ i =>
      rw [List.getElem?_cons_succ] at h
      simp only [List.set_cons_succ, sumThreads_cons, ih h]
      omega

/-- What the shared state holds and what the threads still have in hand, together: a command changes
the sum by what its thread gains or loses. -/
theorem add_sumThreads_fire {f : A → ℤ} {g : σ → ℤ} {c : Config σ A} {e : ℕ × ι} {l : A} {d : ℤ}
    (h : c.threads[e.1]? = some l)
    (hstep : g (m l e.2 c.shared).1 + f (m l e.2 c.shared).2 = g c.shared + f l + d) :
    g (fire m c e).shared + sumThreads f (fire m c e).threads =
      g c.shared + sumThreads f c.threads + d := by
  rw [fire_of_some h, sumThreads_set f h]
  dsimp only
  omega

theorem sumThreads_nonneg {f : A → ℤ} {L : List A} (h : ∀ l ∈ L, 0 ≤ f l) :
    0 ≤ sumThreads f L := by
  induction L with
  | nil => simp
  | cons a L ih =>
    have h1 := h a List.mem_cons_self
    have h2 := ih fun l hl => h l (List.mem_cons_of_mem a hl)
    simp only [sumThreads_cons]
    omega

theorem sumThreads_eq_zero {f : A → ℤ} {L : List A} (h : ∀ l ∈ L, f l = 0) :
    sumThreads f L = 0 := by
  induction L with
  | nil => rfl
  | cons a L ih =>
    rw [sumThreads_cons, h a List.mem_cons_self, ih fun l hl => h l (List.mem_cons_of_mem a hl),
      add_zero]

theorem sumThreads_congr {f g : A → ℤ} {L : List A} (h : ∀ l ∈ L, f l = g l) :
    sumThreads f L = sumThreads g L := by
  unfold sumThreads
  rw [List.map_congr_left h]

theorem sumThreads_sub (f g : A → ℤ) (L : List A) :
    sumThreads (fun l => f l - g l) L = sumThreads f L - sumThreads g L := by
  induction L with
  | nil => rfl
  | cons a L ih =>
    simp only [sumThreads_cons, ih]
    ring

/-- How often a schedule lets thread `i` move. -/
def turns (i : ℕ) (es : List (ℕ × ι)) : ℕ := es.countP fun e => e.1 = i

/-- **Progress.** If every command of a thread whose measure is positive makes it smaller, then a
thread is down by one for each of its turns, whatever the others do. -/
theorem measure_run_le {J : σ → Prop} {μ : A → ℕ} (hJ : ∀ l i s, J s → J (m l i s).1)
    (hμ : ∀ l i s, J s → μ (m l i s).2 ≤ μ l - 1) {c : Config σ A} (hc : J c.shared) {i : ℕ}
    {l : A} (hl : c.threads[i]? = some l) (es : List (ℕ × ι)) :
    ∃ l', (Run.run (fire m) c es).threads[i]? = some l' ∧ μ l' ≤ μ l - turns i es := by
  induction es generalizing c l with
  | nil => exact ⟨l, hl, Nat.le_refl _⟩
  | cons e es ih =>
    rw [Run.run_cons]
    cases he : c.threads[e.1]? with
    | none =>
      have hne : e.1 ≠ i := by
        rintro rfl
        rw [he] at hl
        exact absurd hl (by simp)
      rw [fire_of_none he, turns, List.countP_cons_of_neg (by simpa using hne)]
      exact ih hc hl
    | some l₀ =>
      have hshared : J (fire m c e).shared := by
        rw [fire_of_some he]
        exact hJ l₀ e.2 c.shared hc
      by_cases hi : e.1 = i
      · subst hi
        obtain rfl := Option.some.inj (he.symm.trans hl)
        have hthread : (fire m c e).threads[e.1]? = some (m l₀ e.2 c.shared).2 := by
          rw [fire_of_some he]
          exact List.getElem?_set_self (List.getElem?_eq_some_iff.1 he).1
        obtain ⟨l', hl', hle⟩ := ih hshared hthread
        have hdown := hμ l₀ e.2 c.shared hc
        refine ⟨l', hl', ?_⟩
        rw [turns, List.countP_cons_of_pos (by simp)]
        unfold turns at hle
        omega
      · have hthread : (fire m c e).threads[i]? = some l := by
          rw [fire_of_some he, List.getElem?_set_ne hi]
          exact hl
        rw [turns, List.countP_cons_of_neg (by simpa using hi)]
        exact ih hshared hthread

/-- `n` commands of one thread with nothing in between. -/
def solo (m : A → ι → σ → σ × A) (i : ι) : ℕ → A → σ → σ × A
  | 0, l, s => (s, l)
  | n + 1, l, s => solo m i n (m l i s).2 (m l i s).1

/-- Run alone from the control point `l` in the state `s`, the thread comes to a control point in
`stop` and leaves the state `s'`. -/
def Ends (m : A → ι → σ → σ × A) (i : ι) (stop : A → Prop) (l : A) (s s' : σ) : Prop :=
  ∃ n l', solo m i n l s = (s', l') ∧ stop l'

theorem ends_of_step {i : ι} {stop : A → Prop} {l : A} {s s' : σ}
    (h : Ends m i stop (m l i s).2 (m l i s).1 s') : Ends m i stop l s s' := by
  obtain ⟨n, l', hn, hl'⟩ := h
  exact ⟨n + 1, l', hn, hl'⟩

/-- A thread that is part of a larger system ends as it does on its own. `Q` are the control points
that it can come to. -/
theorem Ends.map {B : Type} {m' : B → ι → σ → σ × B} {i : ι} {stop : A → Prop} {stop' : B → Prop}
    {l : A} {s s' : σ} (h : Ends m i stop l s s') (f : A → B) {Q : A → Prop} (hl : Q l)
    (hQ : ∀ l s, Q l → Q (m l i s).2)
    (hf : ∀ l s, Q l → m' (f l) i s = ((m l i s).1, f (m l i s).2))
    (hstop : ∀ l, stop l → stop' (f l)) : Ends m' i stop' (f l) s s' := by
  obtain ⟨n, l', hn, hl'⟩ := h
  refine ⟨n, f l', ?_, hstop l' hl'⟩
  induction n generalizing l s with
  | zero =>
    obtain ⟨rfl, rfl⟩ := Prod.mk.inj hn
    rfl
  | succ n ih =>
    rw [solo, hf l s hl]
    exact ih (hQ l s hl) hn

/-- A thread with nothing in between is an interleaving of one thread. -/
theorem run_replicate (i : ι) (n : ℕ) (l : A) (s : σ) :
    Run.run (fire m) ⟨s, [l]⟩ (List.replicate n (0, i)) =
      ⟨(solo m i n l s).1, [(solo m i n l s).2]⟩ := by
  induction n generalizing l s with
  | zero => rfl
  | succ n ih => exact ih _ _

end Interleave
