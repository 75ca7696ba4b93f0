import Mathlib.Tactic
import NanoTwitter.Lib.Ruby

/-!
# Words, split and joined

`Ruby.split` takes a text apart at its whitespace and `Ruby.join` puts words together with single
spaces. A text that is joined from pieces splits into the words of the pieces (`split_join`), and a
text whose words stand one space apart is joined from its words (`Spaced`). For such pieces joining
loses nothing but where one piece ends: `eq_of_join_eq`.

`infix_join_map` is about joined words some of which were replaced by longer texts, with marks at
their ends that a keyword does not cross: it says where the keyword can be found.
-/

namespace Ruby

/-- Words have no whitespace in them. -/
def isWord (w : Text) : Prop := w ≠ [] ∧ ∀ c ∈ w, isAsciiSpace c = false

/-- The pieces of a split have none of the characters it was split at. -/
theorem all_splitOnP {α : Type} (p : α → Bool) (l : List α) :
    ∀ w ∈ l.splitOnP p, ∀ c ∈ w, p c = false := by
  induction l with
  | nil => simp
  | cons x l ih =>
    rw [List.splitOnP_cons_eq_if_modifyHead]
    cases hpieces : l.splitOnP p with
    | nil => exact absurd hpieces (List.splitOnP_ne_nil p l)
    | cons r rs =>
      rw [hpieces, List.forall_mem_cons] at ih
      split_ifs with hx
      · simpa using ih
      · -- the first piece gets one more character
        rw [List.modifyHead_cons, List.forall_mem_cons, List.forall_mem_cons]
        exact ⟨⟨by simpa using hx, ih.1⟩, ih.2⟩

theorem isWord_of_mem_split {s w : Text} (h : w ∈ split s) : isWord w :=
  ⟨ne_nil_of_mem_split h, all_splitOnP _ s w (List.mem_filter.1 h).1⟩

/-- **A space separates words.** -/
theorem split_append_space (s t : Text) : split (s ++ ' ' :: t) = split s ++ split t := by
  unfold split
  rw [List.splitOnP_append_cons s t (by decide), List.filter_append]

theorem split_of_isWord {w : Text} (h : isWord w) : split w = [w] := by
  unfold split
  rw [List.splitOnP_eq_singleton h.2]
  simp [h.1]

@[simp] theorem join_singleton (w : Text) : join [w] = w := List.intercalate_singleton

theorem join_cons_cons (v w : Text) (ws : List Text) :
    join (v :: w :: ws) = v ++ ' ' :: join (w :: ws) := by
  unfold join
  rw [List.intercalate_cons_cons, List.append_assoc]
  rfl

/-- A first word, and the rest after a space if there is one. -/
theorem join_cons (w : Text) {ws : List Text} (h : ws ≠ []) :
    join (w :: ws) = w ++ ' ' :: join ws := by
  obtain ⟨v, vs, rfl⟩ := List.exists_cons_of_ne_nil h
  exact join_cons_cons w v vs

theorem infix_join {w : Text} {ws : List Text} (h : w ∈ ws) : w <:+: join ws := by
  induction ws with
  | nil => exact absurd h List.not_mem_nil
  | cons v vs ih =>
    by_cases hvs : vs = []
    · simp_all
    · rw [join_cons v hvs]
      rcases List.mem_cons.1 h with rfl | h
      · exact (List.prefix_append _ _).isInfix
      · exact (ih h).trans ((List.suffix_cons ' ' _).trans (List.suffix_append v _)).isInfix

/-- The words of joined pieces are the words of the pieces. -/
theorem split_join (ws : List Text) : split (join ws) = ws.flatMap split := by
  induction ws with
  | nil => rfl
  | cons w ws ih =>
    by_cases h : ws = []
    · simp [h]
    · rw [join_cons w h, split_append_space, ih, List.flatMap_cons]

theorem join_append {vs ws : List Text} (hv : vs ≠ []) (hw : ws ≠ []) :
    join (vs ++ ws) = join vs ++ ' ' :: join ws := by
  induction vs with
  | nil => exact absurd rfl hv
  | cons v vs ih =>
    rcases vs with _ | ⟨v', vs⟩
    · rw [List.singleton_append, join_cons v hw, join_singleton]
    · rw [List.cons_append, join_cons v (by simp), ih (by simp), join_cons_cons,
        List.append_assoc, List.cons_append]

/-- The words of a text stand one space apart, with nothing before and after them. -/
def Spaced (s : Text) : Prop := split s ≠ [] ∧ join (split s) = s

theorem spaced_of_isWord {w : Text} (h : isWord w) : Spaced w := by
  unfold Spaced
  rw [split_of_isWord h]
  exact ⟨by simp, join_singleton w⟩

/-- Pieces that are spaced are joined into a text that is joined from all their words. -/
theorem join_flatMap_split {ws : List Text} (h : ∀ w ∈ ws, Spaced w) :
    join (ws.flatMap split) = join ws := by
  induction ws with
  | nil => rfl
  | cons w ws ih =>
    obtain ⟨hne, hjoin⟩ := h w List.mem_cons_self
    have ih := ih fun v hv => h v (List.mem_cons_of_mem w hv)
    rw [List.flatMap_cons]
    rcases ws with _ | ⟨v, vs⟩
    · simpa using hjoin
    · have hrest : (v :: vs).flatMap split ≠ [] := by
        rw [List.flatMap_cons]
        exact List.append_ne_nil_of_left_ne_nil (h v (by simp)).1 _
      rw [join_append hne hrest, hjoin, ih, join_cons_cons]

/-- Two lists of spaced pieces with as many words piece by piece are equal if they are joined into
the same text. -/
theorem eq_of_join_eq {vs ws : List Text} (hpieces : List.Forall₂ (fun v w => Spaced v ∧ Spaced w ∧
      (split v).length = (split w).length) vs ws) (h : join vs = join ws) : vs = ws := by
  have hsplit : vs.flatMap split = ws.flatMap split := by rw [← split_join, h, split_join]
  clear h
  induction hpieces with
  | nil => rfl
  | @cons v w vs ws hvw _ ih =>
    rw [List.flatMap_cons, List.flatMap_cons] at hsplit
    obtain ⟨hhead, htail⟩ := List.append_inj hsplit hvw.2.2
    have hvw : v = w := by rw [← hvw.1.2, hhead, hvw.2.1.2]
    rw [hvw, ih htail]

/-- Joining adds one space for each word after the first. -/
theorem length_join_cons (w : Text) (ws : List Text) :
    (join (w :: ws)).length = w.length + (ws.map fun v => v.length + 1).sum := by
  induction ws generalizing w with
  | nil => simp
  | cons v ws ih =>
    rw [join_cons_cons, List.length_append, List.length_cons, ih, List.map_cons, List.sum_cons]
    omega

/-! ### Texts inside joined words -/

/-- A text that does not have the border of `s` and `t` in it is in one of them if it is in
`s ++ t`. -/
theorem infix_append_of_border {α : Type} {k s t : List α}
    (h : ∀ a ∈ s.getLast?, ∀ b ∈ t.head?, ¬ [a, b] <:+: k) :
    k <:+: s ++ t ↔ k <:+: s ∨ k <:+: t := by
  constructor
  · intro hk
    rcases List.infix_append_iff.1 hk with hs | ht | ⟨l, r, rfl, ⟨s', rfl⟩, ⟨t', rfl⟩⟩
    · exact .inl hs
    · exact .inr ht
    · rcases List.eq_nil_or_concat l with rfl | ⟨l', a, rfl⟩
      · exact .inr (List.prefix_append r t').isInfix
      · cases r with
        | nil =>
          rw [List.append_nil]
          exact .inl (List.suffix_append s' _).isInfix
        | cons b r =>
          refine absurd ⟨l', r, by simp⟩ (h a ?_ b rfl)
          simp
  · rintro (hs | ht)
    · exact hs.trans (List.prefix_append s t).isInfix
    · exact ht.trans (List.suffix_append s t).isInfix

/-- The space between a word and the words behind it. -/
def gap (ws : List Text) : Text := if ws.isEmpty then [] else [' ']

theorem join_cons_eq (w : Text) (ws : List Text) : join (w :: ws) = w ++ (gap ws ++ join ws) := by
  cases ws with
  | nil => simp [gap, join]
  | cons v vs => exact join_cons_cons w v vs

/-- What stands between the words with `p`, with the spaces around them. The text before the words
is `s`. -/
def stretches (p : Text → Bool) (s : Text) : List Text → List Text
  | [] => [s]
  | w :: ws => if p w then s :: stretches p (gap ws) ws else stretches p (s ++ (w ++ gap ws)) ws

theorem infix_of_mem_stretches {p : Text → Bool} {ws : List Text} {s r : Text}
    (h : r ∈ stretches p s ws) : r <:+: s ++ join ws := by
  induction ws generalizing s with
  | nil =>
    obtain rfl := List.mem_singleton.1 h
    exact (List.prefix_append r _).isInfix
  | cons w ws ih =>
    rw [join_cons_eq]
    rw [stretches] at h
    split_ifs at h with hp
    · rcases List.mem_cons.1 h with rfl | h
      · exact (List.prefix_append r _).isInfix
      · exact (ih h).trans ((List.suffix_append w _).trans (List.suffix_append s _)).isInfix
    · simpa using ih h

theorem eq_space_of_mem_gap {ws : List Text} {a : Char} (h : a ∈ gap ws) : a = ' ' := by
  unfold gap at h
  split_ifs at h
  · exact absurd h List.not_mem_nil
  · exact List.mem_singleton.1 h

theorem getLast?_gap (ws : List Text) : ∀ a ∈ (gap ws).getLast?, a = ' ' :=
  fun _ ha => eq_space_of_mem_gap (List.mem_of_mem_getLast? ha)

theorem head?_gap_join (ws : List Text) : ∀ b ∈ (gap ws ++ join ws).head?, b = ' ' := by
  cases ws <;> simp [gap, join]

/-- **Where a text can be among words of which some were replaced**: in a stretch between those, or
in what one of them was replaced by. The replacements start with `o` and end with `c`, and the text
has no space in front of an `o` and none behind a `c`. -/
theorem infix_join_map {p : Text → Bool} {f : Text → Text} {o c : Char} {k : Text}
    (hid : ∀ w, p w = false → f w = w)
    (hf : ∀ w, p w = true → (f w).head? = some o ∧ (f w).getLast? = some c)
    (ho : ¬ [' ', o] <:+: k) (hc : ¬ [c, ' '] <:+: k) (ws : List Text) (s : Text)
    (hs : ws ≠ [] → ∀ a ∈ s.getLast?, a = ' ') :
    k <:+: s ++ join (ws.map f) ↔
      (∃ r ∈ stretches p s ws, k <:+: r) ∨ ∃ w ∈ ws, p w = true ∧ k <:+: f w := by
  induction ws generalizing s with
  | nil => simp [stretches, join]
  | cons w ws ih =>
    have hgap : gap (ws.map f) = gap ws := by simp [gap]
    rw [List.map_cons, join_cons_eq, hgap, stretches]
    cases hp : p w with
    | false =>
      have ih := ih (s ++ (w ++ gap ws)) fun hne a ha => by
        cases ws with
        | nil => exact absurd rfl hne
        | cons v vs => simpa [gap, eq_comm] using ha
      simp only [List.append_assoc] at ih
      rw [hid w hp, ih]
      simp [hp]
    | true =>
      -- the text is cut in front of the replacement and behind it
      have hfront : k <:+: s ++ (f w ++ (gap ws ++ join (ws.map f))) ↔
          k <:+: s ∨ k <:+: f w ++ (gap ws ++ join (ws.map f)) := by
        refine infix_append_of_border fun a ha b hb => ?_
        obtain rfl := hs (by simp) a ha
        rw [List.head?_append, (hf w hp).1] at hb
        obtain rfl := Option.some.inj hb
        exact ho
      have hback : k <:+: f w ++ (gap ws ++ join (ws.map f)) ↔
          k <:+: f w ∨ k <:+: gap ws ++ join (ws.map f) := by
        refine infix_append_of_border fun a ha b hb => ?_
        rw [(hf w hp).2] at ha
        obtain rfl := Option.some.inj ha
        rw [← hgap] at hb
        obtain rfl := head?_gap_join _ b hb
        exact hc
      rw [hfront, hback, ih (gap ws) fun _ => getLast?_gap ws]
      simp only [if_true, List.mem_cons, exists_eq_or_imp, hp, true_and]
      rw [or_assoc, or_left_comm (a := k <:+: f w)]

/-- A text without a space is in one of the words if it is in what they are joined to. -/
theorem infix_join_iff {k : Text} (hk : ' ' ∉ k) (ws : List Text) :
    k <:+: join ws ↔ k = [] ∨ ∃ w ∈ ws, k <:+: w := by
  induction ws with
  | nil => simp [join]
  | cons w ws ih =>
    have hword : k <:+: w ++ (gap ws ++ join ws) ↔ k <:+: w ∨ k <:+: gap ws ++ join ws := by
      refine infix_append_of_border fun a _ b hb hab => hk ?_
      obtain rfl := head?_gap_join ws b hb
      exact hab.subset (by simp)
    have hgap : k <:+: gap ws ++ join ws ↔ k <:+: gap ws ∨ k <:+: join ws := by
      refine infix_append_of_border fun a ha b _ hab => hk ?_
      obtain rfl := getLast?_gap ws a ha
      exact hab.subset (by simp)
    have hnil : k <:+: gap ws ↔ k = [] := by
      refine ⟨fun h => List.eq_nil_iff_forall_not_mem.2 fun a ha => hk ?_, ?_⟩
      · obtain rfl := eq_space_of_mem_gap (h.subset ha)
        exact ha
      · rintro rfl
        exact List.nil_infix
    rw [join_cons_eq, hword, hgap, hnil, ih]
    simp only [List.mem_cons, exists_eq_or_imp]
    rw [or_self_left, or_left_comm]

end Ruby
