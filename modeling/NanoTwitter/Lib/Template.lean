import Mathlib.Tactic
import NanoTwitter.Lib.Ruby
import NanoTwitter.Lib.State

/-!
# Replacement templates

What `Ruby.expand` makes of a template for a match with nothing before and after it, which is the
only match of a text substituted for itself (`gsub_self`).

* `literal t`: the template `t` is taken as it stands, because no backslash in it introduces a
  sequence that `gsub` interprets;
* `expand_of_literal`: such a template is its own expansion;
* `expand_append_cases`: a piece `t` of a template, up to a character that ends it, either is taken
  as it stands or loses characters. If it does not lose any on the whole, the match was inserted.
-/

namespace Ruby

/-- The sequence `\d` before `ds` stands for something other than itself. -/
def interprets (d : Char) (ds : Text) : Bool :=
  d.isDigit || d = '&' || d = backtick || d = apostrophe || d = backslash ||
    (d = 'k' && ds.head? = some '<')

/-- Nothing in the template is interpreted. -/
def literal : Text → Bool
  | [] => true
  | c :: cs =>
    if c = backslash then
      match cs with
      | [] => true
      | d :: ds => !interprets d ds && literal ds
    else literal cs

/-- A character that closes a piece of a template: it means nothing after a backslash. -/
def Closing (b : Char) : Prop := b ≠ backslash ∧ ∀ ds, interprets b ds = false

/-- A match with nothing before and after it. -/
def whole (hit : Text) : Match := ⟨[], hit, []⟩

theorem escapeText_of_not_interprets {m : Match} {d : Char} {ds : Text}
    (h : interprets d ds = false) : escapeText m d ds = .ok [backslash, d] := by
  simp only [interprets, Bool.or_eq_false_iff, decide_eq_false_iff_not, Bool.and_eq_false_iff] at h
  obtain ⟨⟨⟨⟨⟨hdigit, hamp⟩, htick⟩, hquote⟩, hslash⟩, hk⟩ := h
  have hzero : ¬ (d = '0' ∨ d = '&') := by
    rintro (rfl | rfl)
    · exact absurd hdigit (by decide)
    · exact hamp rfl
  have hgroup : ¬ (d = 'k' ∧ ds.head? = some '<') := fun hd =>
    hk.elim (fun h => h hd.1) fun h => h hd.2
  unfold escapeText
  rw [if_neg hzero, if_neg (by simp [hdigit]), if_neg htick, if_neg hquote, if_neg hslash,
    if_neg hgroup]

/-- An interpreted sequence inserts the match or loses a character at least. -/
theorem escapeText_of_interprets {hit : Text} {d : Char} {ds x : Text}
    (h : interprets d ds = true) (hx : escapeText (whole hit) d ds = .ok x) :
    x = hit ∨ x = [] ∨ x = [backslash] := by
  unfold escapeText at hx
  split_ifs at hx with hzero hdigit htick hquote hslash hgroup
  · exact .inl (Except.ok.inj hx).symm
  · exact .inr (.inl (Except.ok.inj hx).symm)
  · exact .inr (.inl (Except.ok.inj hx).symm)
  · exact .inr (.inl (Except.ok.inj hx).symm)
  · exact .inr (.inr (Except.ok.inj hx).symm)
  · exfalso
    rw [not_or] at hzero
    simp only [interprets, Bool.or_eq_true, decide_eq_true_eq, Bool.and_eq_true] at h
    tauto

/-- What follows a closing character does not matter to a sequence before it, unless it makes a
reference to a group of it. -/
theorem escapeText_append {m : Match} {d b : Char} {ds r x : Text}
    (h : escapeText m d (ds ++ b :: r) = .ok x) : escapeText m d ds = .ok x := by
  unfold escapeText at h ⊢
  split_ifs at h with hzero hdigit htick hquote hslash hgroup
  · rwa [if_pos hzero]
  · rwa [if_neg hzero, if_pos hdigit]
  · rwa [if_neg hzero, if_neg hdigit, if_pos htick]
  · rwa [if_neg hzero, if_neg hdigit, if_neg htick, if_pos hquote]
  · rwa [if_neg hzero, if_neg hdigit, if_neg htick, if_neg hquote, if_pos hslash]
  · have hno : ¬ (d = 'k' ∧ ds.head? = some '<') := by
      rintro ⟨hk, hhead⟩
      exact hgroup ⟨hk, by rw [List.head?_append, hhead]; rfl⟩
    rwa [if_neg hzero, if_neg hdigit, if_neg htick, if_neg hquote, if_neg hslash, if_neg hno]

/-- A sequence looks one character ahead at most. -/
theorem interprets_append (d b : Char) (ds r : Text) :
    interprets d (ds ++ b :: r) = interprets d (ds ++ [b]) := by
  unfold interprets
  rw [List.head?_append, List.head?_append]
  rfl

theorem expand_backslash (m : Match) (d : Char) (ds : Text) :
    expand m (backslash :: d :: ds) =
      escapeText m d ds >>= fun e => expand m ds >>= fun r => pure (e ++ r) := by
  rw [expand, if_pos rfl]

theorem expand_cons {c : Char} (hc : c ≠ backslash) (m : Match) (cs : Text) :
    expand m (c :: cs) = expand m cs >>= fun r => pure (c :: r) := by
  rw [expand.eq_def]
  exact if_neg hc

theorem literal_backslash (d : Char) (ds : Text) :
    literal (backslash :: d :: ds) = (!interprets d ds && literal ds) := by
  rw [literal, if_pos rfl]

theorem literal_cons {c : Char} (hc : c ≠ backslash) (cs : Text) :
    literal (c :: cs) = literal cs := by
  rw [literal.eq_def]
  exact if_neg hc

/-- **A literal template is its own expansion.** -/
theorem expand_of_literal {t : Text} (m : Match) (h : literal t = true) : expand m t = .ok t := by
  induction t using literal.induct with
  | case1 => rfl
  | case2 => rfl
  | case3 d ds ih =>
    rw [literal_backslash, Bool.and_eq_true, Bool.not_eq_true'] at h
    rw [expand_backslash, escapeText_of_not_interprets h.1, ih h.2]
    rfl
  | case4 c cs hc ih =>
    rw [literal_cons hc] at h
    rw [expand_cons hc, ih h]
    rfl

theorem literal_append {b : Char} (hb : Closing b) (t r : Text) :
    literal (t ++ b :: r) = (literal (t ++ [b]) && literal r) := by
  induction t using literal.induct with
  | case1 =>
    rw [List.nil_append, List.nil_append, literal_cons hb.1, literal_cons hb.1]
    rfl
  | case2 =>
    rw [List.singleton_append, List.singleton_append, literal_backslash, literal_backslash, hb.2,
      hb.2]
    rfl
  | case3 d ds ih =>
    simp only [List.cons_append]
    rw [literal_backslash, literal_backslash, ih, interprets_append, Bool.and_assoc]
  | case4 c cs hc ih =>
    rw [List.cons_append, List.cons_append, literal_cons hc, literal_cons hc, ih]

/-- Which closing character follows matters only if it is `<`, to a `\k` before it. -/
theorem literal_close {b b' : Char} (hb' : Closing b') (hne : b' ≠ '<') {t : Text}
    (h : literal (t ++ [b]) = true) : literal (t ++ [b']) = true := by
  induction t using literal.induct with
  | case1 => exact literal_cons hb'.1 []
  | case2 =>
    rw [List.singleton_append, literal_backslash, hb'.2]
    rfl
  | case3 d ds ih =>
    rw [List.cons_append, List.cons_append, literal_backslash, Bool.and_eq_true,
      Bool.not_eq_true'] at h ⊢
    refine ⟨?_, ih h.2⟩
    have hd := h.1
    unfold interprets at hd ⊢
    cases ds with
    | cons e ds => exact hd
    | nil =>
      simp only [Bool.or_eq_false_iff, Bool.and_eq_false_iff] at hd ⊢
      exact ⟨hd.1, .inr (by simpa using hne)⟩
  | case4 c cs hc ih =>
    rw [List.cons_append, literal_cons hc] at h ⊢
    exact ih h

theorem literal_append_plain {p : Text} (hp : ∀ c ∈ p, c ≠ backslash) (t : Text) :
    literal (p ++ t) = literal t := by
  induction p with
  | nil => rfl
  | cons c p ih =>
    rw [List.forall_mem_cons] at hp
    rw [List.cons_append, literal_cons hp.1, ih hp.2]

/-- Text without backslashes is passed on. -/
theorem expand_append_plain {p : Text} (hp : ∀ c ∈ p, c ≠ backslash) {m : Match} {t e : Text}
    (h : expand m (p ++ t) = .ok e) : ∃ x, expand m t = .ok x ∧ e = p ++ x := by
  induction p generalizing e with
  | nil => exact ⟨e, h, rfl⟩
  | cons c p ih =>
    rw [List.forall_mem_cons] at hp
    rw [List.cons_append, expand_cons hp.1] at h
    obtain ⟨e', he', h⟩ := Except.bind_eq_ok.1 h
    obtain ⟨x, hx, rfl⟩ := ih hp.2 he'
    exact ⟨x, hx, (Except.ok.inj h).symm⟩

/-- The expansion `x` has lost some of the characters of `t`, at least up to where the match was
inserted. -/
def Loses (hit t x : Text) : Prop :=
  ∃ s, s.Sublist t ∧ s.length < t.length ∧ (x = s ∨ ∃ q, x = s ++ (hit ++ q))

theorem Loses.cons {hit t x : Text} (h : Loses hit t x) (c : Char) :
    Loses hit (c :: t) (c :: x) := by
  obtain ⟨s, hs, hlt, hx⟩ := h
  refine ⟨c :: s, hs.cons_cons c, Nat.succ_lt_succ hlt, ?_⟩
  rcases hx with rfl | ⟨q, rfl⟩
  · exact .inl rfl
  · exact .inr ⟨q, rfl⟩

/-- What follows an interpreted sequence. -/
theorem Loses.escape {hit t x e : Text} {d : Char} (he : e = hit ∨ e = [] ∨ e = [backslash])
    (h : x = t ∨ Loses hit t x) : Loses hit (backslash :: d :: t) (e ++ x) := by
  rcases he with rfl | rfl | rfl
  · exact ⟨[], List.nil_sublist _, by simp, .inr ⟨x, rfl⟩⟩
  · rcases h with rfl | ⟨s, hs, hlt, hx⟩
    · exact ⟨x, ((List.Sublist.refl x).cons d).cons backslash, by simp, .inl rfl⟩
    · exact ⟨s, (hs.cons d).cons backslash, by simp only [List.length_cons]; omega, hx⟩
  · rcases h with rfl | h
    · exact ⟨backslash :: x, ((List.Sublist.refl x).cons d).cons_cons backslash, by simp, .inl rfl⟩
    · obtain ⟨s, hs, hlt, hx⟩ := h.cons backslash
      refine ⟨s, hs.trans ((List.sublist_cons_self d t).cons_cons backslash), ?_, hx⟩
      simp only [List.length_cons] at hlt ⊢
      omega

/-- **A piece of a template either is taken as it stands or loses characters**, in front of a
closing character and whatever follows that. -/
theorem expand_append_cases {hit : Text} {b : Char} (hb : Closing b) {t r e : Text}
    (h : expand (whole hit) (t ++ b :: r) = .ok e) :
    ∃ x y, expand (whole hit) t = .ok x ∧ expand (whole hit) r = .ok y ∧ e = x ++ b :: y ∧
      (literal (t ++ [b]) = true ∧ x = t ∨ Loses hit t x) := by
  induction t using literal.induct generalizing e with
  | case1 =>
    rw [List.nil_append, expand_cons hb.1] at h
    obtain ⟨y, hy, he⟩ := Except.bind_eq_ok.1 h
    exact ⟨[], y, rfl, hy, (Except.ok.inj he).symm, .inl ⟨literal_cons hb.1 [], rfl⟩⟩
  | case2 =>
    rw [List.singleton_append, expand_backslash, escapeText_of_not_interprets (hb.2 r)] at h
    obtain ⟨z, hz, h⟩ := Except.bind_eq_ok.1 h
    obtain ⟨y, hy, he⟩ := Except.bind_eq_ok.1 h
    obtain rfl := Except.ok.inj hz
    refine ⟨[backslash], y, rfl, hy, (Except.ok.inj he).symm, .inl ⟨?_, rfl⟩⟩
    rw [List.singleton_append, literal_backslash, hb.2]
    rfl
  | case3 d ds ih =>
    rw [List.cons_append, List.cons_append, expand_backslash] at h
    obtain ⟨z, hz, h⟩ := Except.bind_eq_ok.1 h
    obtain ⟨e', he', h⟩ := Except.bind_eq_ok.1 h
    obtain ⟨x, y, hx, hy, rfl, hcases⟩ := ih he'
    refine ⟨z ++ x, y, ?_, hy, ?_, ?_⟩
    · rw [expand_backslash, escapeText_append hz, hx]
      rfl
    · rw [← Except.ok.inj h, List.append_assoc]
    · cases hint : interprets d (ds ++ [b]) with
      | false =>
        rw [← interprets_append d b ds r] at hint
        rw [escapeText_of_not_interprets hint] at hz
        obtain rfl := Except.ok.inj hz
        rcases hcases with ⟨hlit, rfl⟩ | hloses
        · refine .inl ⟨?_, rfl⟩
          rw [List.cons_append, List.cons_append, literal_backslash, hlit,
            ← interprets_append d b _ r, hint]
          rfl
        · exact .inr ((hloses.cons d).cons backslash)
      | true =>
        rw [← interprets_append d b ds r] at hint
        exact .inr (.escape (escapeText_of_interprets hint hz) (hcases.imp_left And.right))
  | case4 c cs hc ih =>
    rw [List.cons_append, expand_cons hc] at h
    obtain ⟨e', he', h⟩ := Except.bind_eq_ok.1 h
    obtain ⟨x, y, hx, hy, rfl, hcases⟩ := ih he'
    refine ⟨c :: x, y, ?_, hy, (Except.ok.inj h).symm, ?_⟩
    · rw [expand_cons hc, hx]
      rfl
    · rcases hcases with ⟨hlit, rfl⟩ | hloses
      · exact .inl ⟨by rw [List.cons_append, literal_cons hc]; exact hlit, rfl⟩
      · exact .inr (hloses.cons c)

/-- An expansion is made of characters of the template and of the match. -/
theorem mem_of_expand {hit t x : Text} (h : expand (whole hit) t = .ok x) {c : Char} (hc : c ∈ x) :
    c ∈ t ∨ c ∈ hit := by
  induction t using literal.induct generalizing x with
  | case1 =>
    obtain rfl := Except.ok.inj h
    exact .inl hc
  | case2 =>
    obtain rfl := Except.ok.inj h
    exact .inl hc
  | case3 d ds ih =>
    rw [expand_backslash] at h
    obtain ⟨e, he, h⟩ := Except.bind_eq_ok.1 h
    obtain ⟨r, hr, h⟩ := Except.bind_eq_ok.1 h
    obtain rfl := Except.ok.inj h
    rcases List.mem_append.1 hc with hc | hc
    · cases hint : interprets d ds with
      | true =>
        rcases escapeText_of_interprets hint he with rfl | rfl | rfl
        · exact .inr hc
        · exact absurd hc List.not_mem_nil
        · exact .inl (by simp [List.mem_singleton.1 hc])
      | false =>
        rw [escapeText_of_not_interprets hint] at he
        obtain rfl := Except.ok.inj he
        exact .inl (List.mem_append_left ds hc)
    · exact (ih hr hc).imp_left fun h => List.mem_cons_of_mem _ (List.mem_cons_of_mem d h)
  | case4 d cs hd ih =>
    rw [expand_cons hd] at h
    obtain ⟨r, hr, h⟩ := Except.bind_eq_ok.1 h
    obtain rfl := Except.ok.inj h
    rcases List.mem_cons.1 hc with rfl | hc
    · exact .inl List.mem_cons_self
    · exact (ih hr hc).imp_left (List.mem_cons_of_mem d)

end Ruby
