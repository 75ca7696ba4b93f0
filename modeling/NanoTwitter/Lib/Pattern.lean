import Mathlib.Data.List.TakeWhile
import Mathlib.Tactic
import NanoTwitter.Lib.Url

/-!
# Patterns for paths

The patterns by which Sinatra tells routes apart: literal segments and variables between slashes.

* `read` matches a path: a literal segment may have its punctuation percent-encoded, a variable
  takes one segment that is not empty and is percent-decoded once;
* `build` writes a path, values as they are.

`apart` compares two patterns; no path matches two patterns that are apart (`not_apart`).
`read_build_iff`: the values a path was built from are read back exactly when they are `clean`.
-/

namespace Path

variable {ν : Type}

/-- What stands between two slashes of a pattern. -/
inductive Seg (ν : Type)
  | lit (l : Text)
  | var (x : ν)
  deriving DecidableEq

/-! ### Reading -/

/-- `\w`. -/
def isWordChar (c : Char) : Bool := c.isAlphanum || c = '_'

/-- A character of a literal that may also stand as `%ab`. -/
def mayEscape (c a b : Char) : Bool :=
  !isWordChar c && c.toNat < 128 && Url.escapedByte a b = some (UInt8.ofNat c.toNat)

/-- The segments that a literal matches. -/
def spells : Text → Text → Bool
  | [], t => t.isEmpty
  | _ :: _, [] => false
  | c :: l, d :: t =>
    if d = c then spells l t
    else if d = '%' then
      match t with
      | a :: b :: r => mayEscape c a b && spells l r
      | _ => false
    else false

/-- The variable of a segment, if it is one. -/
def Seg.vars : Seg ν → List ν
  | .lit _ => []
  | .var x => [x]

/-- The variables of a pattern, in their order. -/
def vars (ss : List (Seg ν)) : List ν := ss.flatMap Seg.vars

/-- The values that a segment of a pattern takes from a segment of a path. -/
def Seg.read : Seg ν → Text → Option (List (ν × Text))
  | .lit l, t => if spells l t then some [] else none
  | .var x, t =>
    if t ≠ [] ∧ t.all fun c => c ≠ '?' && c ≠ '#' then (Url.component t).map fun v => [(x, v)]
    else none

/-- Match a path: the values of the variables, in their order. -/
def read : List (Seg ν) → Text → Option (List (ν × Text))
  | [], path => if path = [] then some [] else none
  | _ :: _, [] => none
  | s :: ss, c :: r =>
    if c = '/' then do
      let x ← s.read (r.takeWhile (· ≠ '/'))
      let xs ← read ss (r.dropWhile (· ≠ '/'))
      pure (x ++ xs)
    else none

theorem read_cons_slash (s : Seg ν) (ss : List (Seg ν)) (r : Text) :
    read (s :: ss) ('/' :: r) = (s.read (r.takeWhile (· ≠ '/'))).bind fun x =>
      (read ss (r.dropWhile (· ≠ '/'))).map fun xs => x ++ xs := by
  rw [read, if_pos rfl, Option.bind_eq_bind]
  congr 1
  funext x
  exact (Option.map_eq_bind ..).symm

theorem read_cons_eq_some {s : Seg ν} {ss : List (Seg ν)} {path : Text} {v : List (ν × Text)}
    (h : read (s :: ss) path = some v) :
    ∃ r x xs, path = '/' :: r ∧ s.read (r.takeWhile (· ≠ '/')) = some x ∧
      read ss (r.dropWhile (· ≠ '/')) = some xs ∧ v = x ++ xs := by
  cases path with
  | nil => exact absurd h (by simp [read])
  | cons c r =>
    by_cases hc : c = '/'
    · subst hc
      rw [read_cons_slash] at h
      obtain ⟨x, hx, h⟩ := Option.bind_eq_some_iff.1 h
      obtain ⟨xs, hxs, rfl⟩ := Option.map_eq_some_iff.1 h
      exact ⟨r, x, xs, rfl, hx, hxs, rfl⟩
    · exact absurd h (by simp [read, hc])

/-! ### Literals -/

theorem spells_self (l : Text) : spells l l = true := by
  induction l with
  | nil => rfl
  | cons c l ih => simp [spells, ih]

/-- A segment that a literal matches stands for the literal. -/
theorem component_of_spells {l t : Text} (hl : '%' ∉ l) (h : spells l t = true) :
    Url.component t = some l := by
  rw [Url.component_eq_some]
  fun_induction spells l t with
  | case1 t =>
    rw [List.isEmpty_iff] at h
    subst h
    rfl
  | case2 => exact absurd h Bool.false_ne_true
  | case3 d l t ih =>
    rw [List.mem_cons, not_or] at hl
    rw [Url.unescape_cons_of_ne (Ne.symm hl.1), ih hl.2 h, Url.utf8_cons]
  | case4 c l hc a b r ih =>
    rw [List.mem_cons, not_or] at hl
    rw [Bool.and_eq_true] at h
    obtain ⟨hescape, hrest⟩ := h
    simp only [mayEscape, Bool.and_eq_true, decide_eq_true_eq] at hescape
    rw [Url.unescape_escape hescape.2, ih hl.2 hrest, Url.utf8_cons,
      Url.utf8EncodeChar_of_lt hescape.1.2]
    rfl
  | case5 => exact absurd h Bool.false_ne_true
  | case6 => exact absurd h Bool.false_ne_true

/-! ### Patterns that are apart -/

/-- Two literals that differ. -/
def Seg.apart : Seg ν → Seg ν → Bool
  | .lit a, .lit b => a ≠ b
  | _, _ => false

/-- Patterns of different lengths, or with different literals in one place. -/
def apart : List (Seg ν) → List (Seg ν) → Bool
  | [], [] => false
  | s :: ss, t :: ts => s.apart t || apart ss ts
  | _, _ => true

/-- The literals of a pattern have no percent sign and no slash in them. -/
def wellFormed (ss : List (Seg ν)) : Bool :=
  ss.all fun
    | .lit l => '%' ∉ l ∧ '/' ∉ l
    | .var _ => true

theorem wellFormed_cons {s : Seg ν} {ss : List (Seg ν)} (h : wellFormed (s :: ss) = true) :
    (∀ l, s = .lit l → '%' ∉ l ∧ '/' ∉ l) ∧ wellFormed ss = true := by
  rw [wellFormed, List.all_cons, Bool.and_eq_true] at h
  refine ⟨fun l hl => ?_, h.2⟩
  subst hl
  simpa using h.1

theorem Seg.not_apart {s s' : Seg ν} (hs : ∀ l, s = .lit l → '%' ∉ l)
    (hs' : ∀ l, s' = .lit l → '%' ∉ l) {t : Text} (h : (s.read t).isSome)
    (h' : (s'.read t).isSome) : s.apart s' = false := by
  cases s with
  | var x => rfl
  | lit l =>
    cases s' with
    | var x => rfl
    | lit l' =>
      rw [Seg.read] at h h'
      have hl : spells l t = true := by by_contra hno; simp [hno] at h
      have hl' : spells l' t = true := by by_contra hno; simp [hno] at h'
      have heq := (component_of_spells (hs l rfl) hl).symm.trans
        (component_of_spells (hs' l' rfl) hl')
      simpa [Seg.apart] using heq

/-- **No path matches two patterns that are apart.** -/
theorem not_apart {ss ts : List (Seg ν)} (hss : wellFormed ss = true) (hts : wellFormed ts = true)
    {path : Text} (h : (read ss path).isSome) (h' : (read ts path).isSome) :
    apart ss ts = false := by
  induction ss generalizing ts path with
  | nil =>
    cases ts with
    | nil => rfl
    | cons t ts =>
      obtain ⟨v, hv⟩ := Option.isSome_iff_exists.1 h'
      obtain ⟨r, -, -, rfl, -⟩ := read_cons_eq_some hv
      exact absurd h (by simp [read])
  | cons s ss ih =>
    obtain ⟨v, hv⟩ := Option.isSome_iff_exists.1 h
    obtain ⟨r, x, xs, rfl, hx, hxs, -⟩ := read_cons_eq_some hv
    cases ts with
    | nil => exact absurd h' (by simp [read])
    | cons t ts =>
      obtain ⟨v', hv'⟩ := Option.isSome_iff_exists.1 h'
      obtain ⟨r', x', xs', hr, hx', hxs', -⟩ := read_cons_eq_some hv'
      obtain rfl := (List.cons.inj hr).2
      obtain ⟨hs, hss⟩ := wellFormed_cons hss
      obtain ⟨ht, hts⟩ := wellFormed_cons hts
      rw [apart, Bool.or_eq_false_iff]
      exact ⟨Seg.not_apart (fun l hl => (hs l hl).1) (fun l hl => (ht l hl).1)
        (by rw [hx]; rfl) (by rw [hx']; rfl), ih hss hts (by rw [hxs]; rfl) (by rw [hxs']; rfl)⟩

/-! ### Building -/

/-- A segment of a path, the values of the variables as they are. -/
def Seg.text (f : ν → Text) : Seg ν → Text
  | .lit l => l
  | .var x => f x

def Seg.value (f : ν → Text) : Seg ν → List (ν × Text)
  | .lit _ => []
  | .var x => [(x, f x)]

/-- The path of a pattern for the values `f`. -/
def build (f : ν → Text) (ss : List (Seg ν)) : Text := ss.flatMap fun s => '/' :: s.text f

/-- The variables of a pattern with their values. -/
def values (f : ν → Text) (ss : List (Seg ν)) : List (ν × Text) := ss.flatMap (Seg.value f)

theorem values_eq (f : ν → Text) (ss : List (Seg ν)) :
    values f ss = (vars ss).map fun x => (x, f x) := by
  rw [values, vars, List.map_flatMap]
  congr 1
  funext s
  cases s <;> rfl

/-- Texts that a path carries: not empty, nothing that ends a segment or a path, no escape. -/
def clean (v : Text) : Bool :=
  v ≠ [] && v.all (fun c => c ≠ '/' && c ≠ '?' && c ≠ '#') && !Url.hasEscape v

theorem build_cons (f : ν → Text) (s : Seg ν) (ss : List (Seg ν)) :
    build f (s :: ss) = '/' :: (s.text f ++ build f ss) := List.flatMap_cons

/-- What follows a segment is empty or starts with a slash. -/
theorem head_build (f : ν → Text) (ss : List (Seg ν)) :
    ∀ c ∈ (build f ss).head?, decide (c ≠ '/') = false := by
  cases ss with
  | nil => simp [build]
  | cons s ss => simp [build_cons]

theorem takeWhile_append_of_head {p : Char → Bool} {r : Text} (hr : ∀ c ∈ r.head?, p c = false)
    (t : Text) : (t ++ r).takeWhile p = t.takeWhile p := by
  induction t with
  | nil =>
    cases r with
    | nil => rfl
    | cons c r => rw [List.nil_append, List.takeWhile_cons_of_neg (by simp [hr c rfl])]; rfl
  | cons c t ih => rw [List.cons_append, List.takeWhile_cons, List.takeWhile_cons, ih]

theorem dropWhile_append_of_head {p : Char → Bool} {r : Text} (hr : ∀ c ∈ r.head?, p c = false)
    {t : Text} (ht : ∀ c ∈ t, p c = true) : (t ++ r).dropWhile p = r := by
  rw [List.dropWhile_append_of_pos ht]
  cases r with
  | nil => rfl
  | cons c r => rw [List.dropWhile_cons_of_neg (by simp [hr c rfl])]

/-! ### Reading back -/

theorem clean_iff {v : Text} :
    clean v = true ↔ v ≠ [] ∧ (∀ c ∈ v, c ≠ '/') ∧ (v.all fun c => c ≠ '?' && c ≠ '#') = true ∧
      Url.hasEscape v = false := by
  simp only [clean, Bool.and_eq_true, Bool.not_eq_true', decide_eq_true_eq, List.all_eq_true]
  constructor
  · rintro ⟨⟨hne, hall⟩, hescape⟩
    exact ⟨hne, fun c hc => (hall c hc).1.1, fun c hc => ⟨(hall c hc).1.2, (hall c hc).2⟩, hescape⟩
  · rintro ⟨hne, hslash, hall, hescape⟩
    exact ⟨⟨hne, fun c hc => ⟨⟨hslash c hc, (hall c hc).1⟩, (hall c hc).2⟩⟩, hescape⟩

/-- A variable reads its value back, cut at the first slash, exactly when the value is clean. -/
theorem Seg.read_var_iff (x : ν) (v : Text) :
    (Seg.var x).read (v.takeWhile (· ≠ '/')) = some [(x, v)] ↔ clean v = true := by
  have hsublist : (v.takeWhile (· ≠ '/')).Sublist v := List.takeWhile_sublist _
  have hself : v.takeWhile (· ≠ '/') = v ↔ ∀ c ∈ v, c ≠ '/' := by
    rw [List.takeWhile_eq_self_iff]
    simp
  rw [clean_iff, ← hself, Seg.read]
  constructor
  · intro h
    split_ifs at h with hpiece
    obtain ⟨w, hw, heq⟩ := Option.map_eq_some_iff.1 h
    obtain rfl : w = v := (Prod.mk.inj (List.cons.inj heq).1).2
    obtain ⟨hwhole, hescape⟩ := (Url.component_sublist hsublist).1 hw
    rw [hwhole] at hpiece
    exact ⟨hpiece.1, hwhole, hpiece.2, hescape⟩
  · rintro ⟨hne, hwhole, hall, hescape⟩
    rw [hwhole, if_pos ⟨hne, hall⟩, (Url.component_sublist (.refl v)).2 ⟨rfl, hescape⟩]
    rfl

theorem Seg.map_fst_read {s : Seg ν} {t : Text} {xs : List (ν × Text)} (h : s.read t = some xs) :
    xs.map Prod.fst = s.vars := by
  cases s with
  | lit l =>
    rw [Seg.read] at h
    split_ifs at h
    rw [← Option.some.inj h]
    rfl
  | var x =>
    rw [Seg.read] at h
    split_ifs at h
    obtain ⟨v, -, rfl⟩ := Option.map_eq_some_iff.1 h
    rfl

/-- A match gives a value to each variable of the pattern. -/
theorem map_fst_read {ss : List (Seg ν)} {path : Text} {xs : List (ν × Text)}
    (h : read ss path = some xs) : xs.map Prod.fst = vars ss := by
  induction ss generalizing path xs with
  | nil =>
    rw [read] at h
    split_ifs at h
    rw [← Option.some.inj h]
    rfl
  | cons s ss ih =>
    obtain ⟨r, x, xs, -, hx, hxs, rfl⟩ := read_cons_eq_some h
    rw [List.map_append, Seg.map_fst_read hx, ih hxs]
    rfl

theorem Seg.length_read {s : Seg ν} {t : Text} {xs : List (ν × Text)} (h : s.read t = some xs)
    (f : ν → Text) : xs.length = (s.value f).length := by
  rw [← List.length_map Prod.fst, Seg.map_fst_read h]
  cases s <;> rfl

/-- A segment reads its own text back exactly when its value is clean. -/
theorem Seg.read_text_iff {s : Seg ν} (hs : ∀ l, s = .lit l → '/' ∉ l) (f : ν → Text) :
    s.read ((s.text f).takeWhile (· ≠ '/')) = some (s.value f) ↔
      ∀ x ∈ s.vars, clean (f x) = true := by
  cases s with
  | lit l =>
    have hself : l.takeWhile (· ≠ '/') = l :=
      List.takeWhile_eq_self_iff.2 fun c hc => decide_eq_true (ne_of_mem_of_not_mem hc (hs l rfl))
    rw [Seg.text, hself, Seg.read, if_pos (spells_self l)]
    simp [Seg.value, Seg.vars]
  | var x =>
    rw [show (Seg.var x).text f = f x from rfl, show (Seg.var x).value f = [(x, f x)] from rfl,
      Seg.read_var_iff]
    simp [Seg.vars]

/-- **The values a path was built from are read back exactly when they are clean.** -/
theorem read_build_iff {ss : List (Seg ν)} (hss : wellFormed ss = true) (f : ν → Text) :
    read ss (build f ss) = some (values f ss) ↔ ∀ x ∈ vars ss, clean (f x) = true := by
  induction ss with
  | nil => simp [read, build, values, vars]
  | cons s ss ih =>
    obtain ⟨hs, hss⟩ := wellFormed_cons hss
    have hsplit : (∀ x ∈ vars (s :: ss), clean (f x) = true) ↔
        (∀ x ∈ s.vars, clean (f x) = true) ∧ ∀ x ∈ vars ss, clean (f x) = true := by
      rw [vars, List.flatMap_cons]
      exact List.forall_mem_append
    -- a text that is read back has no slash, so that the rest is read from where it starts
    have hrest : (∀ x ∈ s.vars, clean (f x) = true) →
        (s.text f ++ build f ss).dropWhile (· ≠ '/') = build f ss := by
      intro hclean
      refine dropWhile_append_of_head (head_build f ss) fun c hc => ?_
      cases s with
      | lit l => exact decide_eq_true (ne_of_mem_of_not_mem hc (hs l rfl).2)
      | var x => exact decide_eq_true ((clean_iff.1 (hclean x List.mem_cons_self)).2.1 c hc)
    rw [hsplit, ← Seg.read_text_iff (fun l hl => (hs l hl).2) f, ← ih hss, build_cons,
      read_cons_slash, takeWhile_append_of_head (head_build f ss)]
    have hvalues : values f (s :: ss) = s.value f ++ values f ss := List.flatMap_cons
    rw [hvalues]
    constructor
    · intro h
      obtain ⟨x, hx, h⟩ := Option.bind_eq_some_iff.1 h
      obtain ⟨xs, hxs, heq⟩ := Option.map_eq_some_iff.1 h
      obtain ⟨rfl, rfl⟩ := List.append_inj heq (Seg.length_read hx f)
      rw [hrest ((Seg.read_text_iff (fun l hl => (hs l hl).2) f).1 hx)] at hxs
      exact ⟨hx, hxs⟩
    · rintro ⟨hx, hxs⟩
      rw [hx, hrest ((Seg.read_text_iff (fun l hl => (hs l hl).2) f).1 hx), hxs]
      rfl

end Path
