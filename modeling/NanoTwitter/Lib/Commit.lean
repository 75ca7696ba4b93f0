import Mathlib.Tactic
import Mathlib.Data.List.Range
import NanoTwitter.Lib.Interleave

/-!
# Commit points of threads

Threads that serve one request each and take effect by one of their commands, the commit. Some
requests never commit. `At r b l` is a relation given by the user: a thread that serves the request
`r` can stand at the control point `l`, and `b` says whether it has committed.

`Logged At reqs log L`: the threads `L` serve the requests `reqs`, and `log` has their commits, one
for each thread that has committed. `exists_log` is the induction rule for interleavings: if every
command either is no commit and keeps a property `I` of the log and the configuration, or is the
commit of its thread and makes the property true of the extended log, then the property holds of
the log of every run. When a run is over, the commits and the requests that never
commit are all the requests (`Logged.perm`): the log is an order to serve them in.
-/

namespace Interleave

open scoped List

variable {σ ι A R : Type}

/-- A thread has committed its request, by a command with the input `input`. -/
structure Commit (R ι : Type) where
  thread : ℕ
  request : R
  input : ι

/-- What a sequential execution has to know about a commit. -/
def Commit.effect (k : Commit R ι) : R × ι := (k.request, k.input)

/-- The threads `L` serve the requests `reqs`, and `log` has the commits so far. -/
structure Logged (At : R → Bool → A → Prop) (reqs : List R) (log : List (Commit R ι))
    (L : List A) : Prop where
  length : L.length = reqs.length
  stands : ∀ i r l, reqs[i]? = some r → L[i]? = some l →
    At r (decide (i ∈ log.map Commit.thread)) l
  nodup : (log.map Commit.thread).Nodup
  request : ∀ k ∈ log, reqs[k.thread]? = some k.request

variable {At : R → Bool → A → Prop} {reqs : List R} {log : List (Commit R ι)} {L : List A}

/-- Before their first commands the threads have not committed. -/
theorem logged_start {f : R → A} (h : ∀ r, At r false (f r)) :
    Logged At reqs ([] : List (Commit R ι)) (reqs.map f) where
  length := List.length_map f
  stands i r l hr hl := by
    rw [List.getElem?_map, hr, Option.map_some] at hl
    obtain rfl := Option.some.inj hl
    exact h r
  nodup := List.nodup_nil
  request := by simp

namespace Logged

/-- Every thread serves a request. -/
theorem exists_request (h : Logged At reqs log L) {i : ℕ} {l : A} (hl : L[i]? = some l) :
    ∃ r, reqs[i]? = some r := by
  obtain ⟨hi, -⟩ := List.getElem?_eq_some_iff.1 hl
  have hi' : i < reqs.length := h.length ▸ hi
  exact ⟨reqs[i], List.getElem?_eq_getElem hi'⟩

/-- A command that is no commit. -/
theorem stay (h : Logged At reqs log L) {i : ℕ} {r : R} {l' : A} (hr : reqs[i]? = some r)
    (hl' : At r (decide (i ∈ log.map Commit.thread)) l') : Logged At reqs log (L.set i l') where
  length := by rw [List.length_set, h.length]
  nodup := h.nodup
  request := h.request
  stands j r' l hr' hl := by
    rw [List.getElem?_set] at hl
    split_ifs at hl with hij hi
    · subst hij
      obtain rfl := Option.some.inj hl
      obtain rfl := Option.some.inj (hr.symm.trans hr')
      exact hl'
    · exact h.stands j r' l hr' hl

/-- A commit. -/
theorem commit (h : Logged At reqs log L) {i : ℕ} {r : R} {l' : A} (hr : reqs[i]? = some r)
    (hi : i ∉ log.map Commit.thread) (hl' : At r true l') (x : ι) :
    Logged At reqs (log ++ [⟨i, r, x⟩]) (L.set i l') where
  length := by rw [List.length_set, h.length]
  nodup := by
    rw [List.map_append, List.map_singleton]
    refine List.nodup_append.2 ⟨h.nodup, List.nodup_singleton i, fun a ha b hb hab => ?_⟩
    rw [hab, List.mem_singleton.1 hb] at ha
    exact hi ha
  request k hk := by
    rcases List.mem_append.1 hk with hk | hk
    · exact h.request k hk
    · rw [List.mem_singleton.1 hk]
      exact hr
  stands j r' l hr' hl := by
    rw [List.getElem?_set] at hl
    split_ifs at hl with hij hi
    · subst hij
      obtain rfl := Option.some.inj hl
      obtain rfl := Option.some.inj (hr.symm.trans hr')
      simpa using hl'
    · have hold := h.stands j r' l hr' hl
      have hmem : j ∈ (log ++ [(⟨i, r, x⟩ : Commit R ι)]).map Commit.thread ↔
          j ∈ log.map Commit.thread := by
        rw [List.map_append, List.mem_append, List.map_singleton, List.mem_singleton]
        exact or_iff_left (Ne.symm hij)
      rwa [decide_eq_decide.2 hmem]

/-- **The log is an order of the requests**, up to those that have not committed. -/
theorem perm (h : Logged At reqs log L) :
    ∃ rest, log.map Commit.request ++ rest ~ reqs ∧ ∀ r ∈ rest, ∃ l ∈ L, At r false l := by
  set T := log.map Commit.thread with hT
  -- the threads of the log first, then the others
  have hthreads : T ++ (List.range reqs.length).filter (fun i => !decide (i ∈ T)) ~
      List.range reqs.length := by
    have hmem : (List.range reqs.length).filter (fun i => decide (i ∈ T)) ~ T := by
      refine (List.perm_ext_iff_of_nodup (List.nodup_range.filter _) h.nodup).2 fun i => ?_
      rw [List.mem_filter, List.mem_range, decide_eq_true_eq]
      refine and_iff_right_of_imp fun hi => ?_
      obtain ⟨k, hk, rfl⟩ := List.mem_map.1 hi
      exact (List.getElem?_eq_some_iff.1 (h.request k hk)).1
    exact (hmem.symm.append_right _).trans (List.filter_append_perm _ _)
  have hreqs : (List.range reqs.length).map (fun i => reqs[i]?) = reqs.map some :=
    List.ext_getElem (by simp) (by simp)
  have hlog : T.map (fun i => reqs[i]?) = (log.map Commit.request).map some := by
    rw [hT, List.map_map, List.map_map]
    exact List.map_congr_left h.request
  have hperm := (hthreads.map fun i => reqs[i]?).filterMap id
  have hsome : ∀ l : List R, (l.map some).filterMap id = l := fun l => by
    rw [List.filterMap_map]
    exact List.filterMap_some
  rw [hreqs, List.map_append, hlog, List.filterMap_append, hsome, hsome, List.filterMap_map]
    at hperm
  refine ⟨_, hperm, fun r hr => ?_⟩
  obtain ⟨i, hi, hir⟩ := List.mem_filterMap.1 hr
  obtain ⟨hn, hi⟩ := List.mem_filter.1 hi
  have hlt : i < L.length := by rw [h.length]; exact List.mem_range.1 hn
  have hstands := h.stands i r L[i] hir (List.getElem?_eq_getElem hlt)
  rw [show decide (i ∈ T) = false by simpa using hi] at hstands
  exact ⟨L[i], List.getElem_mem hlt, hstands⟩

end Logged

/-- **The induction rule for commit logs.** -/
theorem exists_log {m : A → ι → σ → σ × A} {I : List (R × ι) → Config σ A → Prop}
    (hstep : ∀ log c e l r b, I log c → c.threads[e.1]? = some l → At r b l →
      (At r b (m l e.2 c.shared).2 ∧ I log (fire m c e)) ∨
        (b = false ∧ At r true (m l e.2 c.shared).2 ∧ I (log ++ [(r, e.2)]) (fire m c e)))
    {c : Config σ A} (h : Logged At reqs log c.threads) (hI : I (log.map Commit.effect) c)
    (es : List (ℕ × ι)) :
    ∃ log' : List (Commit R ι), Logged At reqs log' (Run.run (fire m) c es).threads ∧
      I (log'.map Commit.effect) (Run.run (fire m) c es) := by
  induction es generalizing c log with
  | nil => exact ⟨log, h, hI⟩
  | cons e es ih =>
    rw [Run.run_cons]
    cases hl : c.threads[e.1]? with
    | none =>
      rw [fire_of_none hl]
      exact ih h hI
    | some l =>
      obtain ⟨r, hr⟩ := h.exists_request hl
      have hthreads : (fire m c e).threads = c.threads.set e.1 (m l e.2 c.shared).2 := by
        rw [fire_of_some hl]
      rcases hstep _ c e l r _ hI hl (h.stands e.1 r l hr hl) with ⟨hl', hI'⟩ | ⟨hb, hl', hI'⟩
      · exact ih (by rw [hthreads]; exact h.stay hr hl') hI'
      · have hnew := h.commit hr (of_decide_eq_false hb) hl' e.2
        rw [← hthreads] at hnew
        refine ih hnew ?_
        rw [List.map_append]
        exact hI'

end Interleave
