import Mathlib.Tactic
import NanoTwitter.Lib.Pattern
import NanoTwitter.Lib.Words

/-!
# Paths without dots

`cleanup` is what `Rack::Protection::PathTraversal` makes of a path before a route is looked for:
it reads `%2e` and `%2f`, drops empty segments and single dots, and lets two dots take the segment
before them away.

A path that is changed in this way becomes shorter (`shrinks_cleanup`), and a path that is read as
some values is at least as long as the path that is built from them (`size_build_le`). So the values
a path was built from are read back exactly when the path is left alone and the values are clean:
`read_cleanup_iff`.
-/

namespace Path

open Url (utf8)

/-! ### What becomes of a path -/

/-- `path.gsub(/%2x/i, c)`, where `y` is `x` in upper case. -/
def replaceEscape (x y c : Char) : Text → Text
  | a :: b :: d :: r =>
    if a = '%' ∧ b = '2' ∧ (d = x ∨ d = y) then c :: replaceEscape x y c r
    else a :: replaceEscape x y c (b :: d :: r)
  | t => t

/-- The dots and slashes that are written as escapes. -/
def decode (path : Text) : Text := replaceEscape 'f' 'F' '/' (replaceEscape 'e' 'E' '.' path)

/-- The segments so far, the last one first, and one more. -/
def push (parts : List Text) (part : Text) : List Text :=
  if part = [] ∨ part = ['.'] then parts
  else if part = ['.', '.'] then parts.tail
  else part :: parts

/-- The segments that are left. -/
def parts (path : Text) : List Text := ((path.splitOn '/').foldl push []).reverse

/-- `path =~ %r{/\.{0,2}$}`: some line ends in a slash with at most two dots behind it. -/
def endsInDots (path : Text) : Bool :=
  (path.splitOn '\n').any fun line =>
    ['/'].isSuffixOf line || ['/', '.'].isSuffixOf line || ['/', '.', '.'].isSuffixOf line

/-- The segments that are left, between slashes. -/
def rebuilt (path : Text) : Text :=
  '/' :: ['/'].intercalate (parts path) ++
    if parts path ≠ [] ∧ endsInDots path = true then ['/'] else []

/-- `cleanup(path)` of `Rack::Protection::PathTraversal`. -/
def cleanup (path : Text) : Text := if path = [] then [] else rebuilt (decode path)

example : cleanup "/user/%2e%2E/front//./" = ("/front/" : Text) := by decide

/-! ### Sizes -/

/-- The number of bytes of a text. -/
def size (t : Text) : ℕ := (utf8 t).length

theorem size_append (s t : Text) : size (s ++ t) = size s + size t := by
  simp [size, utf8]

theorem size_cons_slash (t : Text) : size ('/' :: t) = size t + 1 := by
  have hslash : String.utf8EncodeChar '/' = [47] := by decide
  rw [size, Url.utf8_cons, hslash]
  simp [size]

theorem size_lt_cons (c : Char) (t : Text) : size t < size (c :: t) := Url.length_utf8_cons c t

theorem size_pos {t : Text} (h : t ≠ []) : 0 < size t := by
  obtain ⟨c, r, rfl⟩ := List.exists_cons_of_ne_nil h
  exact (Nat.zero_le _).trans_lt (size_lt_cons c r)

/-- `t'` is `t`, or shorter. -/
def Shrinks (t t' : Text) : Prop := t' = t ∨ size t' < size t

theorem Shrinks.trans {t t' t'' : Text} (h : Shrinks t t') (h' : Shrinks t' t'') :
    Shrinks t t'' := by
  rcases h with rfl | h
  · exact h'
  · rcases h' with rfl | h'
    · exact .inr h
    · exact .inr (h'.trans h)

/-- A text and its percent-decoded value. -/
theorem size_le_of_component {t v : Text} (h : Url.component t = some v) : size v ≤ size t := by
  rw [Url.component_eq_some] at h
  rw [size, size, ← h]
  rcases Url.unescape_cases t with ⟨-, ht⟩ | ⟨-, ht⟩
  · rw [ht]
  · exact ht.le

/-! ### Segments between slashes -/

/-- Segments, each behind a slash. -/
def slashed (segs : List Text) : Text := segs.flatMap fun s => '/' :: s

/-- The bytes of segments, each with its slash. -/
def weight (segs : List Text) : ℕ := (segs.map fun s => size s + 1).sum

@[simp] theorem weight_nil : weight [] = 0 := rfl

@[simp] theorem weight_cons (s : Text) (segs : List Text) :
    weight (s :: segs) = size s + 1 + weight segs := rfl

theorem weight_append (l r : List Text) : weight (l ++ r) = weight l + weight r := by
  simp [weight]

theorem weight_reverse (l : List Text) : weight l.reverse = weight l := by
  simp [weight, List.sum_reverse]

theorem size_slashed (segs : List Text) : size (slashed segs) = weight segs := by
  induction segs with
  | nil => rfl
  | cons s segs ih =>
    have hcons : slashed (s :: segs) = '/' :: (s ++ slashed segs) := List.flatMap_cons
    rw [hcons, size_cons_slash, size_append, ih, weight_cons]
    omega

theorem slash_intercalate {segs : List Text} (h : segs ≠ []) :
    '/' :: ['/'].intercalate segs = slashed segs := by
  induction segs with
  | nil => exact absurd rfl h
  | cons s segs ih =>
    cases segs with
    | nil => simp [slashed]
    | cons s' segs =>
      rw [List.intercalate_cons_cons, List.append_assoc]
      show '/' :: (s ++ '/' :: ['/'].intercalate (s' :: segs)) = _
      rw [ih (by simp)]
      rfl

/-- A path that starts with a slash is its segments. -/
theorem exists_slashed (r : Text) :
    ∃ init last, '/' :: r = slashed (init ++ [last]) ∧ ∀ s ∈ init ++ [last], '/' ∉ s := by
  have hne : r.splitOn '/' ≠ [] := List.splitOnP_ne_nil _ _
  obtain ⟨init, last, hsplit⟩ : ∃ init last, r.splitOn '/' = init ++ [last] :=
    ⟨_, _, (List.dropLast_append_getLast hne).symm⟩
  refine ⟨init, last, ?_, fun s hs => ?_⟩
  · rw [← hsplit, ← slash_intercalate hne, List.intercalate_splitOn]
  · rw [← hsplit] at hs
    intro hslash
    exact absurd (Ruby.all_splitOnP (· == '/') r s hs '/' hslash) (by simp)

/-- The segment behind the last slash. -/
theorem slash_suffix_iff {l x last : Text} (hl : '/' ∉ l) (hlast : '/' ∉ last) :
    '/' :: l <:+ x ++ '/' :: last ↔ l = last := by
  constructor
  · intro h
    have hother : '/' :: last <:+ x ++ '/' :: last := List.suffix_append _ _
    -- one of the two is the end of the other, and has the only slash in it
    have hcons : ∀ {s t : Text}, '/' ∉ t → '/' :: s <:+ '/' :: t → s = t := by
      intro s t ht hst
      rcases List.suffix_cons_iff.1 hst with heq | hst
      · exact (List.cons.inj heq).2
      · exact absurd (hst.subset List.mem_cons_self) ht
    rcases List.suffix_or_suffix_of_suffix h hother with h | h
    · exact hcons hlast h
    · exact (hcons hl h).symm
  · rintro rfl
    exact List.suffix_append _ _

/-! ### Segments that stay -/

/-- A segment that is neither empty nor made of one or two dots. -/
def ordinary (s : Text) : Bool := s ≠ [] && s ≠ ['.'] && s ≠ ['.', '.']

theorem ordinary_eq_false {s : Text} :
    ordinary s = false ↔ s = [] ∨ s = ['.'] ∨ s = ['.', '.'] := by
  simp only [ordinary, Bool.and_eq_false_iff, decide_eq_false_iff_not, ne_eq, not_not, or_assoc]

theorem push_of_ordinary {s : Text} (h : ordinary s = true) (l : List Text) :
    push l s = s :: l := by
  simp only [ordinary, Bool.and_eq_true, decide_eq_true_eq, ne_eq] at h
  rw [push, if_neg (not_or.2 h.1), if_neg h.2]

theorem weight_tail_le (l : List Text) : weight l.tail ≤ weight l := by
  cases l with
  | nil => exact le_rfl
  | cons s l =>
    rw [List.tail_cons, weight_cons]
    omega

theorem foldl_push_of_ordinary {segs : List Text} (h : ∀ s ∈ segs, ordinary s = true)
    (l : List Text) : segs.foldl push l = segs.reverse ++ l := by
  induction segs generalizing l with
  | nil => rfl
  | cons s segs ih =>
    rw [List.forall_mem_cons] at h
    rw [List.foldl_cons, push_of_ordinary h.1, ih h.2, List.reverse_cons, List.append_assoc]
    rfl

/-- What is left is no more than the ordinary segments. -/
theorem weight_foldl_push_le (segs l : List Text) :
    weight (segs.foldl push l) ≤ weight l + weight (segs.filter ordinary) := by
  induction segs generalizing l with
  | nil => exact le_rfl
  | cons s segs ih =>
    rw [List.foldl_cons]
    refine (ih (push l s)).trans ?_
    cases hs : ordinary s with
    | true =>
      rw [push_of_ordinary hs, List.filter_cons_of_pos hs, weight_cons, weight_cons]
      omega
    | false =>
      have hpush : weight (push l s) ≤ weight l := by
        unfold push
        split_ifs with h1 h2
        · exact le_rfl
        · exact weight_tail_le l
        · rcases ordinary_eq_false.1 hs with h | h | h
          · exact absurd (.inl h) h1
          · exact absurd (.inr h) h1
          · exact absurd h h2
      rw [List.filter_cons_of_neg (by simp [hs])]
      omega

theorem weight_filter_le (segs : List Text) : weight (segs.filter ordinary) ≤ weight segs := by
  induction segs with
  | nil => exact le_rfl
  | cons s segs ih =>
    by_cases h : ordinary s = true
    · rw [List.filter_cons_of_pos h, weight_cons, weight_cons]
      omega
    · rw [List.filter_cons_of_neg h, weight_cons]
      omega

/-- A segment that does not stay is missed. -/
theorem weight_filter_lt {segs : List Text} (h : ¬ ∀ s ∈ segs, ordinary s = true) :
    weight (segs.filter ordinary) < weight segs := by
  induction segs with
  | nil => exact absurd (fun s hs => absurd hs List.not_mem_nil) h
  | cons s segs ih =>
    rw [List.forall_mem_cons, not_and_or] at h
    by_cases hs : ordinary s = true
    · have hrest := ih (h.resolve_left (not_not.2 hs))
      rw [List.filter_cons_of_pos hs, weight_cons, weight_cons]
      omega
    · have hle := weight_filter_le segs
      rw [List.filter_cons_of_neg hs, weight_cons]
      omega

/-! ### Rebuilding -/

section Rebuilt

variable {init : List Text} {last : Text}

theorem slashed_concat (init : List Text) (last : Text) :
    slashed (init ++ [last]) = slashed init ++ '/' :: last := by
  simp [slashed]

theorem parts_slashed (h : ∀ s ∈ init ++ [last], '/' ∉ s) :
    parts (slashed (init ++ [last])) = ((init ++ [last]).foldl push []).reverse := by
  have hsplit : (slashed (init ++ [last])).splitOn '/' = [] :: (init ++ [last]) := by
    have hjoin : slashed (init ++ [last]) = ['/'].intercalate ([] :: (init ++ [last])) := by
      rw [← slash_intercalate (by simp)]
      cases hsegs : init ++ [last] with
      | nil => exact absurd hsegs (by simp)
      | cons s segs => rfl
    rw [hjoin]
    exact List.splitOn_intercalate '/' (List.forall_mem_cons.2 ⟨List.not_mem_nil, h⟩) (by simp)
  rw [parts, hsplit, List.foldl_cons]
  rfl

/-- Without line breaks only the end of the path counts. -/
theorem endsInDots_slashed (hlast : '/' ∉ last) (hline : '\n' ∉ slashed (init ++ [last])) :
    endsInDots (slashed (init ++ [last])) = !ordinary last := by
  have hlines : (slashed (init ++ [last])).splitOn '\n' = [slashed (init ++ [last])] :=
    List.splitOnP_eq_singleton fun c hc => by
      simpa using ne_of_mem_of_not_mem hc hline
  rw [endsInDots, hlines, List.any_cons, List.any_nil, Bool.or_false, Bool.eq_iff_iff]
  simp only [Bool.or_eq_true, List.isSuffixOf_iff_suffix, Bool.not_eq_true', ordinary_eq_false,
    slashed_concat, or_assoc]
  rw [slash_suffix_iff (by decide) hlast, slash_suffix_iff (by decide) hlast,
    slash_suffix_iff (by decide) hlast, eq_comm (a := ([] : Text)), eq_comm (a := ['.']),
    eq_comm (a := ['.', '.'])]

/-- The size of what is rebuilt, and what it is if something is left. -/
theorem rebuilt_slashed (h : ∀ s ∈ init ++ [last], '/' ∉ s)
    (hline : '\n' ∉ slashed (init ++ [last])) :
    rebuilt (slashed (init ++ [last])) =
      if ((init ++ [last]).foldl push []).reverse = [] then ['/']
      else slashed ((init ++ [last]).foldl push []).reverse ++
        if ordinary last = true then [] else ['/'] := by
  rw [rebuilt, parts_slashed h, endsInDots_slashed (h last (by simp)) hline]
  split_ifs with hnil
  all_goals simp_all [slash_intercalate]

/-- The paths that stay: only the last segment may be empty. -/
def stays (init : List Text) (last : Text) : Prop :=
  (∀ s ∈ init, ordinary s = true) ∧ (ordinary last = true ∨ last = [])

theorem rebuilt_of_stays (h : ∀ s ∈ init ++ [last], '/' ∉ s)
    (hline : '\n' ∉ slashed (init ++ [last])) (hstays : stays init last) :
    rebuilt (slashed (init ++ [last])) = slashed (init ++ [last]) := by
  obtain ⟨hinit, hlast⟩ := hstays
  rw [rebuilt_slashed h hline, List.foldl_append, foldl_push_of_ordinary hinit]
  rcases hlast with hlast | rfl
  · simp [push_of_ordinary hlast, hlast]
  · have hpush : [([] : Text)].foldl push (init.reverse ++ []) = init.reverse := by simp [push]
    rw [hpush, List.reverse_reverse, slashed_concat]
    cases init with
    | nil => rfl
    | cons s init => simp [ordinary]

/-- **Any other path becomes shorter.** -/
theorem size_rebuilt_lt (h : ∀ s ∈ init ++ [last], '/' ∉ s)
    (hline : '\n' ∉ slashed (init ++ [last])) (hgoes : ¬ stays init last) :
    size (rebuilt (slashed (init ++ [last]))) < size (slashed (init ++ [last])) := by
  have hleft := weight_foldl_push_le (init ++ [last]) []
  rw [List.filter_append, weight_append, weight_nil, Nat.zero_add] at hleft
  have hone : size ['/'] = 1 := size_cons_slash []
  rw [rebuilt_slashed h hline, size_slashed, weight_append, weight_cons, weight_nil]
  generalize hl : ((init ++ [last]).foldl push []).reverse = l
  have hweight : weight l = weight ((init ++ [last]).foldl push []) := by
    rw [← hl, weight_reverse]
  have hinit := weight_filter_le init
  by_cases hlast : ordinary last = true
  · -- then a segment before the last is missed
    have hmissed := weight_filter_lt fun hall => hgoes ⟨hall, .inl hlast⟩
    rw [List.filter_cons_of_pos hlast, List.filter_nil, weight_cons, weight_nil] at hleft
    split_ifs
    · rw [hone]
      omega
    · rw [List.append_nil, size_slashed]
      omega
  · -- the last segment is missed, and leaves a slash behind
    rw [List.filter_cons_of_neg hlast, List.filter_nil, weight_nil] at hleft
    have hmissed : weight (init.filter ordinary) < weight init ∨ 0 < size last := by
      by_cases hall : ∀ s ∈ init, ordinary s = true
      · exact .inr (size_pos fun hnil => hgoes ⟨hall, .inr hnil⟩)
      · exact .inl (weight_filter_lt hall)
    split_ifs
    · rw [hone]
      omega
    · rw [size_append, size_slashed, hone]
      omega

end Rebuilt

/-! ### Escapes of dots and slashes -/

section Escapes

variable {x y c : Char}

theorem replaceEscape_slash (x y c : Char) (r : Text) :
    replaceEscape x y c ('/' :: r) = '/' :: replaceEscape x y c r := by
  rcases r with - | ⟨a, - | ⟨b, r⟩⟩
  · simp [replaceEscape]
  · simp [replaceEscape]
  · rw [replaceEscape, if_neg (fun h => absurd h.1 (by decide))]

/-- Induction along `replaceEscape`: it goes on behind an escape or behind one character. -/
@[elab_as_elim]
theorem escape_induction {motive : Text → Prop}
    (short : ∀ t, replaceEscape x y c t = t → motive t)
    (escape : ∀ a b d r, a = '%' ∧ b = '2' ∧ (d = x ∨ d = y) →
      replaceEscape x y c (a :: b :: d :: r) = c :: replaceEscape x y c r → motive r →
        motive (a :: b :: d :: r))
    (char : ∀ a r, replaceEscape x y c (a :: r) = a :: replaceEscape x y c r → motive r →
      motive (a :: r)) (t : Text) : motive t := by
  induction hn : t.length using Nat.strong_induction_on generalizing t with
  | h n ih =>
    subst hn
    rcases t with - | ⟨a, - | ⟨b, - | ⟨d, r⟩⟩⟩
    · exact short [] rfl
    · exact short [a] rfl
    · exact short [a, b] rfl
    · by_cases hescape : a = '%' ∧ b = '2' ∧ (d = x ∨ d = y)
      · exact escape a b d r hescape (by rw [replaceEscape, if_pos hescape])
          (ih r.length (by simp only [List.length_cons]; omega) r rfl)
      · exact char a (b :: d :: r) (by rw [replaceEscape, if_neg hescape])
          (ih _ (by simp) (b :: d :: r) rfl)

theorem mem_of_mem_replaceEscape {a : Char} (t : Text) (h : a ∈ replaceEscape x y c t) :
    a = c ∨ a ∈ t := by
  induction t using escape_induction (x := x) (y := y) (c := c) with
  | short t ht => exact .inr (ht ▸ h)
  | escape a' b d r _ heq ih =>
    rw [heq] at h
    rcases List.mem_cons.1 h with h | h
    · exact .inl h
    · exact (ih h).imp_right fun h => by simp [h]
  | char a' r heq ih =>
    rw [heq] at h
    rcases List.mem_cons.1 h with h | h
    · exact .inr (by simp [h])
    · exact (ih h).imp_right (List.mem_cons_of_mem a')

/-- A text in which an escape is replaced becomes shorter. -/
theorem shrinks_replaceEscape (hc : size [c] = 1) (t : Text) :
    Shrinks t (replaceEscape x y c t) := by
  have hcons : ∀ (a : Char) (t : Text), size (a :: t) = size [a] + size t :=
    fun a t => size_append [a] t
  induction t using escape_induction (x := x) (y := y) (c := c) with
  | short t ht => exact .inl ht
  | escape a b d r _ heq ih =>
    right
    have hle : size (replaceEscape x y c r) ≤ size r := ih.elim (fun h => by rw [h]) le_of_lt
    have ha := size_lt_cons a (b :: d :: r)
    have hb := size_lt_cons b (d :: r)
    have hd := size_lt_cons d r
    rw [heq, hcons c, hc]
    omega
  | char a r heq ih =>
    rw [heq]
    refine ih.imp (fun h => by rw [h]) fun h => ?_
    rw [hcons, hcons a r]
    omega

/-- Without escapes nothing is replaced. -/
theorem replaceEscape_of_hasEscape (hx : (Url.escapedByte '2' x).isSome)
    (hy : (Url.escapedByte '2' y).isSome) {t : Text} (h : Url.hasEscape t = false) :
    replaceEscape x y c t = t := by
  induction t using escape_induction (x := x) (y := y) (c := c) with
  | short t ht => exact ht
  | escape a b d r hescape _ ih =>
    obtain ⟨rfl, rfl, hd⟩ := hescape
    rw [Url.hasEscape_cons, Bool.or_eq_false_iff, Url.startByte, if_pos rfl] at h
    rcases hd with rfl | rfl
    · rw [h.1] at hx
      exact absurd hx Bool.false_ne_true
    · rw [h.1] at hy
      exact absurd hy Bool.false_ne_true
  | char a r heq ih =>
    rw [Url.hasEscape_cons, Bool.or_eq_false_iff] at h
    rw [heq, ih h.2]

end Escapes

theorem shrinks_decode (t : Text) : Shrinks t (decode t) :=
  (shrinks_replaceEscape (by decide) t).trans (shrinks_replaceEscape (by decide) _)

theorem decode_slash (r : Text) : ∃ r', decode ('/' :: r) = '/' :: r' :=
  ⟨_, by rw [decode, replaceEscape_slash, replaceEscape_slash]⟩

theorem lineBreak_notMem_decode {t : Text} (h : '\n' ∉ t) : '\n' ∉ decode t := by
  intro hmem
  rcases mem_of_mem_replaceEscape _ hmem with hmem | hmem
  · exact absurd hmem (by decide)
  · rcases mem_of_mem_replaceEscape _ hmem with hmem | hmem
    · exact absurd hmem (by decide)
    · exact h hmem

theorem decode_of_hasEscape {t : Text} (h : Url.hasEscape t = false) : decode t = t := by
  rw [decode, replaceEscape_of_hasEscape rfl rfl h, replaceEscape_of_hasEscape rfl rfl h]

/-! ### Cleaning up -/

theorem cleanup_slash (r : Text) : cleanup ('/' :: r) = rebuilt (decode ('/' :: r)) :=
  if_neg (List.cons_ne_nil _ _)

/-- **A path is left as it is or becomes shorter.** -/
theorem shrinks_cleanup {r : Text} (hline : '\n' ∉ '/' :: r) :
    Shrinks ('/' :: r) (cleanup ('/' :: r)) := by
  have hline' := lineBreak_notMem_decode hline
  obtain ⟨r', hr'⟩ := decode_slash r
  obtain ⟨init, last, hpath, hsegs⟩ := exists_slashed r'
  rw [cleanup_slash]
  refine (shrinks_decode ('/' :: r)).trans ?_
  rw [hr', hpath] at hline' ⊢
  by_cases hstays : stays init last
  · exact .inl (rebuilt_of_stays hsegs hline' hstays)
  · exact .inr (size_rebuilt_lt hsegs hline' hstays)

theorem cleanup_of_stays {init : List Text} {last : Text} (h : ∀ s ∈ init ++ [last], '/' ∉ s)
    (hline : '\n' ∉ slashed (init ++ [last]))
    (hescape : Url.hasEscape (slashed (init ++ [last])) = false) (hstays : stays init last) :
    cleanup (slashed (init ++ [last])) = slashed (init ++ [last]) := by
  have hne : slashed (init ++ [last]) ≠ [] := by simp [slashed_concat]
  rw [cleanup, if_neg hne, decode_of_hasEscape hescape, rebuilt_of_stays h hline hstays]

theorem stays_of_cleanup {init : List Text} {last : Text} (h : ∀ s ∈ init ++ [last], '/' ∉ s)
    (hline : '\n' ∉ slashed (init ++ [last]))
    (hescape : Url.hasEscape (slashed (init ++ [last])) = false)
    (hself : cleanup (slashed (init ++ [last])) = slashed (init ++ [last])) : stays init last := by
  by_contra hgoes
  have hlt := size_rebuilt_lt h hline hgoes
  have hne : slashed (init ++ [last]) ≠ [] := by simp [slashed_concat]
  rw [cleanup, if_neg hne, decode_of_hasEscape hescape] at hself
  rw [hself] at hlt
  exact lt_irrefl _ hlt

/-! ### Reading back -/

section Reading

variable {ν : Type}

theorem Seg.size_text_le {s : Seg ν} (hs : ∀ l, s = .lit l → '%' ∉ l) {f : ν → Text} {t : Text}
    (h : s.read t = some (s.value f)) : size (s.text f) ≤ size t := by
  cases s with
  | lit l =>
    rw [Seg.read] at h
    split_ifs at h with hspells
    exact size_le_of_component (component_of_spells (hs l rfl) hspells)
  | var x =>
    rw [Seg.read] at h
    split_ifs at h
    obtain ⟨v, hv, heq⟩ := Option.map_eq_some_iff.1 h
    obtain rfl : v = f x := (Prod.mk.inj (List.cons.inj heq).1).2
    exact size_le_of_component hv

/-- **A path is at least as long as the one that is built from what it is read as.** -/
theorem size_build_le {ss : List (Seg ν)} (hss : wellFormed ss = true) {f : ν → Text} {path : Text}
    (h : read ss path = some (values f ss)) : size (build f ss) ≤ size path := by
  induction ss generalizing path with
  | nil => exact Nat.zero_le _
  | cons s ss ih =>
    obtain ⟨hs, hss⟩ := wellFormed_cons hss
    obtain ⟨r, x, xs, rfl, hx, hxs, hvalues⟩ := read_cons_eq_some h
    have hsplit : values f (s :: ss) = s.value f ++ values f ss := List.flatMap_cons
    obtain ⟨rfl, rfl⟩ := List.append_inj (hvalues.symm.trans hsplit) (Seg.length_read hx f)
    have hhead := Seg.size_text_le (fun l hl => (hs l hl).1) hx
    have hrest := ih hss hxs
    have hr : size r = size (r.takeWhile (· ≠ '/')) + size (r.dropWhile (· ≠ '/')) := by
      rw [← size_append, List.takeWhile_append_dropWhile]
    rw [build_cons, size_cons_slash, size_append, size_cons_slash]
    omega

/-- A literal that `cleanup` leaves alone; the last one of a pattern may be empty. -/
def Seg.stands (final : Bool) : Seg ν → Bool
  | .lit l => (ordinary l || (final && decide (l = []))) && decide ('\n' ∉ l)
  | .var _ => true

/-- The paths of the pattern are left alone, as far as its literals go. -/
def upright : List (Seg ν) → Bool
  | [] => false
  | [s] => s.stands true
  | s :: ss => s.stands false && upright ss

/-- The values that a path carries to a route: clean, and no dots. -/
def carries (v : Text) : Bool := clean v && ordinary v

theorem hasEscape_append {t r : Text} (ht : Url.hasEscape t = false)
    (hr : Url.hasEscape r = false) (hhead : ∀ c ∈ r.head?, c = '/') :
    Url.hasEscape (t ++ r) = false := by
  induction t with
  | nil => exact hr
  | cons c t ih =>
    rw [Url.hasEscape_cons, Bool.or_eq_false_iff] at ht
    rw [List.cons_append, Url.hasEscape_cons, ih ht.2, Bool.or_false]
    -- a slash is no digit, so that an escape would lie in the first text
    have hslash : Json.hexValue '/' = none := by decide
    rcases t with - | ⟨a, - | ⟨b, t⟩⟩
    · rcases r with - | ⟨d, - | ⟨e, r⟩⟩
      · rfl
      · rfl
      · obtain rfl := hhead d rfl
        simp [Url.startByte, Url.escapedByte, hslash]
    · rcases r with - | ⟨d, r⟩
      · rfl
      · obtain rfl := hhead d rfl
        simp [Url.startByte, Url.escapedByte, hslash]
    · exact ht.1

theorem hasEscape_cons_of_ne {c : Char} (h : c ≠ '%') (t : Text) :
    Url.hasEscape (c :: t) = Url.hasEscape t := by
  rw [Url.hasEscape_cons]
  rcases t with - | ⟨a, - | ⟨b, t⟩⟩
  · rfl
  · rfl
  · rw [Url.startByte, if_neg h]
    rfl

theorem hasEscape_of_notMem {t : Text} (h : '%' ∉ t) : Url.hasEscape t = false := by
  induction t with
  | nil => rfl
  | cons c t ih =>
    rw [List.mem_cons, not_or] at h
    rw [hasEscape_cons_of_ne (Ne.symm h.1), ih h.2]

/-- The path of a pattern has no escapes but those of its values. -/
theorem hasEscape_build {ss : List (Seg ν)} (hss : wellFormed ss = true) {f : ν → Text}
    (hf : ∀ x ∈ vars ss, Url.hasEscape (f x) = false) : Url.hasEscape (build f ss) = false := by
  induction ss with
  | nil => rfl
  | cons s ss ih =>
    obtain ⟨hs, hss⟩ := wellFormed_cons hss
    rw [vars, List.flatMap_cons, List.forall_mem_append] at hf
    have htext : Url.hasEscape (s.text f) = false := by
      cases s with
      | lit l => exact hasEscape_of_notMem (hs l rfl).1
      | var x => exact hf.1 x List.mem_cons_self
    have hhead : ∀ c ∈ (build f ss).head?, c = '/' := fun c hc => by
      simpa using head_build f ss c hc
    rw [build_cons, hasEscape_cons_of_ne (by decide)]
    exact hasEscape_append htext (ih hss hf.2) hhead

theorem Seg.lineBreak_notMem {final : Bool} {l : Text}
    (h : (Seg.lit l : Seg ν).stands final = true) : '\n' ∉ l := by
  simp only [Seg.stands, Bool.and_eq_true, decide_eq_true_eq] at h
  exact h.2

theorem Seg.ordinary_text {s : Seg ν} {final : Bool} (h : s.stands final = true) {f : ν → Text}
    (hf : ∀ x ∈ s.vars, ordinary (f x) = true) :
    ordinary (s.text f) = true ∨ final = true ∧ s.text f = [] := by
  cases s with
  | lit l =>
    simp only [Seg.stands, Bool.and_eq_true, Bool.or_eq_true, decide_eq_true_eq] at h
    exact h.1
  | var x => exact .inl (hf x List.mem_cons_self)

theorem upright_concat (ss : List (Seg ν)) (s : Seg ν) :
    upright (ss ++ [s]) = (ss.all (Seg.stands false) && s.stands true) := by
  induction ss with
  | nil => rfl
  | cons t ss ih =>
    rw [List.all_cons, Bool.and_assoc, ← ih]
    cases h : ss ++ [s] with
    | nil => exact absurd h (by simp)
    | cons u us =>
      rw [List.cons_append, h, upright]
      simp

section Concat

variable {init : List (Seg ν)} {s : Seg ν} {f : ν → Text}

theorem build_concat (f : ν → Text) (init : List (Seg ν)) (s : Seg ν) :
    build f (init ++ [s]) = slashed (init.map (Seg.text f) ++ [s.text f]) := by
  rw [build, slashed, List.flatMap_append, List.flatMap_append, List.flatMap_map]
  rfl

theorem lineBreak_notMem_build (hup : upright (init ++ [s]) = true)
    (hf : ∀ x ∈ vars (init ++ [s]), '\n' ∉ f x) : '\n' ∉ build f (init ++ [s]) := by
  rw [upright_concat, Bool.and_eq_true, List.all_eq_true] at hup
  rw [build, List.mem_flatMap]
  rintro ⟨u, hu, hmem⟩
  rcases List.mem_cons.1 hmem with h | hmem
  · exact absurd h (by decide)
  · cases u with
    | var x => exact hf x (List.mem_flatMap.2 ⟨_, hu, List.mem_cons_self⟩) hmem
    | lit l =>
      rcases List.mem_append.1 hu with hu | hu
      · exact Seg.lineBreak_notMem (hup.1 _ hu) hmem
      · obtain rfl := List.mem_singleton.1 hu
        exact Seg.lineBreak_notMem hup.2 hmem

/-- Clean values keep to their segments. -/
theorem slash_notMem_text {ss : List (Seg ν)} (hss : wellFormed ss = true)
    (hf : ∀ x ∈ vars ss, clean (f x) = true) : ∀ t ∈ ss.map (Seg.text f), '/' ∉ t := by
  intro t ht
  obtain ⟨u, hu, rfl⟩ := List.mem_map.1 ht
  cases u with
  | lit l =>
    have hlit := List.all_eq_true.1 hss _ hu
    simp only [decide_eq_true_eq] at hlit
    exact hlit.2
  | var x =>
    have hx : x ∈ vars ss := List.mem_flatMap.2 ⟨_, hu, List.mem_cons_self⟩
    exact fun hmem => (clean_iff.1 (hf x hx)).2.1 _ hmem rfl

/-- The path of clean values is left as it is exactly when they are no dots. -/
theorem cleanup_build_iff (hss : wellFormed (init ++ [s]) = true)
    (hup : upright (init ++ [s]) = true) (hline : ∀ x ∈ vars (init ++ [s]), '\n' ∉ f x)
    (hf : ∀ x ∈ vars (init ++ [s]), clean (f x) = true) :
    cleanup (build f (init ++ [s])) = build f (init ++ [s]) ↔
      ∀ x ∈ vars (init ++ [s]), ordinary (f x) = true := by
  have hline := lineBreak_notMem_build hup hline
  have hescape := hasEscape_build hss fun x hx => (clean_iff.1 (hf x hx)).2.2.2
  have hslash := slash_notMem_text hss hf
  rw [build_concat] at hline hescape ⊢
  rw [List.map_append, List.map_singleton] at hslash
  rw [upright_concat, Bool.and_eq_true, List.all_eq_true] at hup
  rw [vars, List.flatMap_append, List.flatMap_singleton, List.forall_mem_append] at hf ⊢
  constructor
  · intro h
    obtain ⟨hinit, hlast⟩ := stays_of_cleanup hslash hline hescape h
    refine ⟨fun x hx => ?_, fun x hx => ?_⟩
    · obtain ⟨u, hu, hxu⟩ := List.mem_flatMap.1 hx
      cases u with
      | lit l => exact absurd hxu List.not_mem_nil
      | var y =>
        obtain rfl := List.mem_singleton.1 hxu
        exact hinit _ (List.mem_map_of_mem hu)
    · cases s with
      | lit l => exact absurd hx List.not_mem_nil
      | var y =>
        obtain rfl := List.mem_singleton.1 hx
        exact hlast.resolve_right (clean_iff.1 (hf.2 x hx)).1
  · rintro ⟨hinit, hlast⟩
    refine cleanup_of_stays hslash hline hescape ⟨fun t ht => ?_, ?_⟩
    · obtain ⟨u, hu, rfl⟩ := List.mem_map.1 ht
      exact (Seg.ordinary_text (hup.1 u hu) fun x hx =>
        hinit x (List.mem_flatMap.2 ⟨u, hu, hx⟩)).resolve_right fun h =>
          absurd h.1 Bool.false_ne_true
    · exact (Seg.ordinary_text hup.2 hlast).imp_right And.right

end Concat

/-- A pattern that is left alone is not empty. -/
theorem exists_concat_of_upright {ss : List (Seg ν)} (hup : upright ss = true) :
    ∃ init s, ss = init ++ [s] := by
  rcases List.eq_nil_or_concat ss with rfl | ⟨init, s, rfl⟩
  · exact absurd hup Bool.false_ne_true
  · exact ⟨init, s, List.concat_eq_append⟩

theorem cleanup_build {ss : List (Seg ν)} (hss : wellFormed ss = true) (hup : upright ss = true)
    {f : ν → Text} (hline : ∀ x ∈ vars ss, '\n' ∉ f x)
    (hf : ∀ x ∈ vars ss, carries (f x) = true) : cleanup (build f ss) = build f ss := by
  obtain ⟨init, s, rfl⟩ := exists_concat_of_upright hup
  simp only [carries, Bool.and_eq_true, forall_and] at hf
  exact (cleanup_build_iff hss hup hline hf.1).2 hf.2

/-- **The values a path was built from are read back from what `cleanup` leaves of the path exactly
when they are clean and no dots.** There is no line break in the path of a request. -/
theorem read_cleanup_iff {ss : List (Seg ν)} (hss : wellFormed ss = true)
    (hup : upright ss = true) {f : ν → Text} (hline : ∀ x ∈ vars ss, '\n' ∉ f x) :
    read ss (cleanup (build f ss)) = some (values f ss) ↔ ∀ x ∈ vars ss, carries (f x) = true := by
  constructor
  · intro h
    obtain ⟨init, s, rfl⟩ := exists_concat_of_upright hup
    -- a path that was cut would be too short to hold the values
    have hself : cleanup (build f (init ++ [s])) = build f (init ++ [s]) := by
      have hle := size_build_le hss h
      have hpath := lineBreak_notMem_build hup hline
      obtain ⟨r, hr⟩ : ∃ r, build f (init ++ [s]) = '/' :: r := by
        cases init with
        | nil => exact ⟨_, build_cons f s []⟩
        | cons u us => exact ⟨_, build_cons f u (us ++ [s])⟩
      rw [hr] at hpath hle ⊢
      exact (shrinks_cleanup hpath).resolve_right (Nat.not_lt.2 hle)
    rw [hself, read_build_iff hss] at h
    have hordinary := (cleanup_build_iff hss hup hline h).1 hself
    exact fun x hx => Bool.and_eq_true_iff.2 ⟨h x hx, hordinary x hx⟩
  · intro h
    rw [cleanup_build hss hup hline h, read_build_iff hss]
    exact fun x hx => (Bool.and_eq_true_iff.1 (h x hx)).1

end Reading

end Path
