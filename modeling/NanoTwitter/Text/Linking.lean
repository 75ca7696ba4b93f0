import Mathlib.Data.Bool.AllAny
import Mathlib.Tactic
import NanoTwitter.Lib.Template
import NanoTwitter.Lib.Words
import NanoTwitter.Model.TweetProcessor

/-!
# What `process_text` makes of a text

`process_text` is meant to replace words by links: `linked` says which ones and by what. The code
replaces a word with `w.gsub!(w, link)`, and the link is a template with the word in it twice, so
that backslash sequences of the word are interpreted.

* `processText_eq_linked_iff`: the result is `linked` exactly when no word to be linked has a
  sequence that `gsub` interprets, where the closing tag counts as following the word;
* `processText_idempotent`: whatever `process_text` returns is left alone by it. A link is two words
  for it, `<a` and one that starts with `href`.

`replaceWord_link` carries both: the name in a link is expanded twice in the same way.
-/

namespace NanoTwitter

open Ruby (isWord split join literal expand Loses)
open Json (dquote)

/-! ### The links of a text -/

/-- The text as it was typed, its words one space apart. -/
def typed (text : Text) : Text := join (split text)

/-- The text before the name in the link of a user, and in the link of a tag. -/
def userHead : Text := "<a href=\"/user/"
def tagHead : Text := "<a href=\"/tag/"

/-- A link whose address is `head` and `name`. -/
def link (head name w : Text) : Text :=
  head ++ (name ++ dquote :: '>' :: (w ++ ("</a>" : Text)))

/-- The word is replaced by a link: `@` with the name of a user, or `#` with anything. -/
def isMarked (users : Table User) (w : Text) : Bool :=
  (mentionOf users w).isSome || (tagOf w).isSome

/-- A word with its link, if it gets one. -/
def linkedWord (users : Table User) : Text → Text
  | [] => []
  | c :: name =>
    if c = '@' then
      if users.rows.any fun u => u.attrs.userName = name then link userHead name (c :: name)
      else c :: name
    else if c = '#' then link tagHead name (c :: name)
    else c :: name

/-- **What `process_text` is for**: the words of the text with their links, the users linked, and
the tags linked. -/
def linked (users : Table User) (text : Text) : Processed where
  text := join ((split text).map (linkedWord users))
  mentions := mentioned users text
  tags := tagged text

theorem quote_gt : ("\">" : Text) = [dquote, '>'] := by decide

theorem userLink_eq (name w : Text) : userLink name w = link userHead name w := by
  unfold userLink link userHead
  rw [quote_gt, List.append_assoc, List.append_assoc, List.append_assoc]
  rfl

theorem tagLink_eq (name w : Text) : tagLink name w = link tagHead name w := by
  unfold tagLink link tagHead
  rw [quote_gt, List.append_assoc, List.append_assoc, List.append_assoc]
  rfl

/-- What the loop of `process_text` makes of the text of a word. -/
def wordText (users : Table User) (w : Text) : Except Error Text :=
  if isMarked users w then replaceWord w (linkedWord users w) else .ok w

theorem isSome_findBy {ρ : Type} {t : Table ρ} {p : ρ → Bool} :
    (t.findBy p).isSome = t.rows.any fun r => p r.attrs := by
  rw [Bool.eq_iff_iff, Table.findBy, List.find?_isSome, List.any_eq_true]

theorem processWord_eq (users : Table User) (w : Text) :
    processWord users w =
      wordText users w >>= fun t => pure ⟨t, mentionOf users w, tagOf w⟩ := by
  unfold wordText isMarked mentionOf tagOf processWord
  by_cases hat : Ruby.startsWith '@' w = true
  · obtain ⟨name, rfl⟩ := Ruby.startsWith_iff.1 hat
    have hno : Ruby.startsWith '#' ('@' :: name) = false := by simp [Ruby.startsWith]
    rw [if_pos hat, if_pos hat, hno, if_neg Bool.false_ne_true, Ruby.afterFirst_cons]
    have hany := isSome_findBy (t := users) (p := fun u => u.userName = name)
    dsimp only
    cases hv : users.findBy fun u => u.userName = name with
    | none => rfl
    | some u =>
      rw [hv] at hany
      simp only [linkedWord, if_true, ← hany, userLink_eq, Option.map_some, Option.isSome_some,
        Bool.true_or]
  · rw [if_neg hat, if_neg hat]
    by_cases htag : Ruby.startsWith '#' w = true
    · obtain ⟨name, rfl⟩ := Ruby.startsWith_iff.1 htag
      rw [if_pos htag, if_pos htag, Ruby.afterFirst_cons]
      simp only [linkedWord, tagLink_eq, Option.isSome_some, Bool.or_true, if_true]
      rfl
    · rw [if_neg htag, if_neg htag]
      rfl

/-- A word after `@` mentions somebody if a user has that name. -/
theorem isSome_mentionOf (users : Table User) (name : Text) :
    (mentionOf users ('@' :: name)).isSome = users.rows.any fun u => u.attrs.userName = name := by
  have hat : Ruby.startsWith '@' ('@' :: name) = true := Ruby.startsWith_iff.2 ⟨name, rfl⟩
  rw [mentionOf, if_pos hat, Ruby.afterFirst_cons, Option.isSome_map, isSome_findBy]

theorem linkedWord_of_not_marked {users : Table User} {w : Text} (h : isMarked users w = false) :
    linkedWord users w = w := by
  cases w with
  | nil => rfl
  | cons c name =>
    rw [isMarked, Bool.or_eq_false_iff] at h
    have htag : c ≠ '#' := by
      rintro rfl
      exact absurd h.2 (by simp [tagOf, Ruby.startsWith])
    rw [linkedWord]
    split_ifs with hat huser
    · obtain rfl := hat
      rw [← isSome_mentionOf, h.1] at huser
      exact absurd huser Bool.false_ne_true
    · rfl
    · rfl

theorem linkedWord_of_mention {users : Table User} {w : Text}
    (h : (mentionOf users w).isSome = true) :
    ∃ name, w = '@' :: name ∧ linkedWord users w = link userHead name w := by
  obtain ⟨u, hu⟩ := Option.isSome_iff_exists.1 h
  obtain ⟨v, -, rfl⟩ := mentionOf_eq_some hu
  rw [isSome_mentionOf] at h
  exact ⟨v.attrs.userName, rfl, by rw [linkedWord, if_pos rfl, if_pos h]⟩

theorem linkedWord_of_tag {users : Table User} {w : Text} (h : (tagOf w).isSome = true) :
    ∃ name, w = '#' :: name ∧ linkedWord users w = link tagHead name w := by
  obtain ⟨name, hname⟩ := Option.isSome_iff_exists.1 h
  obtain rfl := tagOf_eq_some.1 hname
  exact ⟨name, rfl, rfl⟩

/-- A marked word is a sign and a name, and its link has the name in it twice. -/
theorem linkedWord_of_marked {users : Table User} {w : Text} (h : isMarked users w = true) :
    ∃ c name head, w = c :: name ∧ (c = '@' ∨ c = '#') ∧ (head = userHead ∨ head = tagHead) ∧
      linkedWord users w = link head name w := by
  rw [isMarked, Bool.or_eq_true] at h
  rcases h with h | h
  · obtain ⟨name, hw, hlink⟩ := linkedWord_of_mention h
    exact ⟨'@', name, userHead, hw, .inl rfl, .inl rfl, hlink⟩
  · obtain ⟨name, hw, hlink⟩ := linkedWord_of_tag h
    exact ⟨'#', name, tagHead, hw, .inr rfl, .inr rfl, hlink⟩

/-! ### One link -/

section Link

open Ruby (Closing whole)

theorem closing_dquote : Closing dquote := ⟨by decide, fun _ => rfl⟩

theorem closing_lt : Closing '<' := ⟨by decide, fun _ => rfl⟩

theorem closeTag_eq : ("</a>" : Text) = '<' :: ("/a>" : Text) := by decide

variable {c : Char} {name head t : Text}

theorem replaceWord_eq_ok (w tmpl : Text) (hw : w ≠ []) :
    replaceWord w tmpl = .ok t ↔ expand (whole w) tmpl = .ok t := by
  have hself : Ruby.gsub w w tmpl = expand (whole w) tmpl := Ruby.gsub_self hw tmpl
  unfold replaceWord
  rw [hself]
  cases expand (whole w) tmpl with
  | ok t' => simp
  | error e => simp

/-- **The name in a link is expanded twice, and both times in the same way.** -/
theorem replaceWord_link (hc : c ≠ Ruby.backslash) (hhead : ∀ d ∈ head, d ≠ Ruby.backslash)
    (h : replaceWord (c :: name) (link head name (c :: name)) = .ok t) :
    ∃ x, expand (whole (c :: name)) name = .ok x ∧ t = link head x (c :: x) ∧
      (literal (name ++ ['<']) = true ∧ x = name ∨ Loses (c :: name) name x) := by
  rw [replaceWord_eq_ok _ _ (List.cons_ne_nil c name), link, closeTag_eq] at h
  obtain ⟨e, he, rfl⟩ := Ruby.expand_append_plain hhead h
  obtain ⟨x, y, hx, hy, rfl, -⟩ := Ruby.expand_append_cases closing_dquote he
  -- behind the quote: the end of the opening tag, and the word
  have hplain : ∀ d ∈ ['>', c], d ≠ Ruby.backslash :=
    List.forall_mem_cons.2 ⟨by decide, by simpa using hc⟩
  obtain ⟨z, hz, rfl⟩ := Ruby.expand_append_plain hplain hy
  obtain ⟨x', z', hx', hz', rfl, hcases⟩ := Ruby.expand_append_cases closing_lt hz
  obtain rfl : x = x' := Except.ok.inj (hx.symm.trans hx')
  rw [Ruby.expand_of_literal _ (by decide)] at hz'
  obtain rfl := Except.ok.inj hz'
  exact ⟨x, hx, rfl, hcases⟩

/-- A link is inserted as it stands exactly when nothing in the word is interpreted. -/
theorem replaceWord_link_iff (hc : c ≠ Ruby.backslash) (hhead : ∀ d ∈ head, d ≠ Ruby.backslash) :
    replaceWord (c :: name) (link head name (c :: name)) = .ok (link head name (c :: name)) ↔
      literal (c :: name ++ ("</a>" : Text)) = true := by
  have hclose : literal (c :: name ++ ("</a>" : Text)) = literal (name ++ ['<']) := by
    rw [closeTag_eq, List.cons_append, Ruby.literal_cons hc, Ruby.literal_append closing_lt]
    exact Bool.and_true _
  rw [hclose]
  constructor
  · intro h
    obtain ⟨x, -, hlink, ⟨hlit, -⟩ | ⟨s, hs, hlt, hx⟩⟩ := replaceWord_link hc hhead h
    · exact hlit
    · -- the name would have to keep its length while losing characters
      exfalso
      have hlen := congrArg List.length hlink
      simp only [link, List.length_append, List.length_cons] at hlen
      rcases hx with rfl | ⟨q, rfl⟩
      · omega
      · simp only [List.length_append, List.length_cons] at hlen
        omega
  · intro hlit
    rw [replaceWord_eq_ok _ _ (List.cons_ne_nil c name)]
    refine Ruby.expand_of_literal _ ?_
    rw [link, Ruby.literal_append_plain hhead, Ruby.literal_append closing_dquote,
      Ruby.literal_cons (by decide), hclose, hlit,
      Ruby.literal_close closing_dquote (by decide) hlit]
    rfl

end Link

/-! ### One word -/

section Word

variable {users : Table User} {w t : Text}

theorem isMarked_cons {c : Char} (hat : c ≠ '@') (htag : c ≠ '#') (r : Text) :
    isMarked users (c :: r) = false := by
  simp [isMarked, mentionOf, tagOf, Ruby.startsWith, hat, htag]

theorem head_plain {head : Text} (h : head = userHead ∨ head = tagHead) :
    ∀ d ∈ head, d ≠ Ruby.backslash := by
  rcases h with rfl | rfl <;> exact List.all_iff_forall_prop.1 (by decide)

/-- **A word becomes its link exactly when it gets none or nothing in it is interpreted.** -/
theorem wordText_eq_linkedWord_iff :
    wordText users w = .ok (linkedWord users w) ↔
      (isMarked users w = true → literal (w ++ ("</a>" : Text)) = true) := by
  unfold wordText
  cases h : isMarked users w with
  | false => simp [linkedWord_of_not_marked h]
  | true =>
    obtain ⟨c, name, head, rfl, hc, hhead, hlink⟩ := linkedWord_of_marked h
    have hc : c ≠ Ruby.backslash := by rcases hc with rfl | rfl <;> decide
    rw [if_pos rfl, hlink, replaceWord_link_iff hc (head_plain hhead)]
    simp

/-- What becomes of a word: itself, or a link to what the name in it expands to. -/
theorem wordText_cases (h : wordText users w = .ok t) :
    isMarked users w = false ∧ t = w ∨
      isMarked users w = true ∧ ∃ c name head x, w = c :: name ∧ (c = '@' ∨ c = '#') ∧
        (head = userHead ∨ head = tagHead) ∧ expand (Ruby.whole w) name = .ok x ∧
        t = link head x (c :: x) := by
  unfold wordText at h
  split_ifs at h with hmarked
  · obtain ⟨c, name, head, rfl, hc, hhead, hlink⟩ := linkedWord_of_marked hmarked
    have hslash : c ≠ Ruby.backslash := by rcases hc with rfl | rfl <;> decide
    rw [hlink] at h
    obtain ⟨x, hx, ht, -⟩ := replaceWord_link hslash (head_plain hhead) h
    exact .inr ⟨hmarked, c, name, head, x, rfl, hc, hhead, hx, ht⟩
  · exact .inl ⟨Bool.eq_false_iff.2 hmarked, (Except.ok.inj h).symm⟩

/-- A link is the word `<a`, a space, and a word that starts with `href`. -/
theorem exists_link_eq {c : Char} {head x : Text} (hhead : head = userHead ∨ head = tagHead)
    (hw : isWord (c :: x)) :
    ∃ r, link head x (c :: x) = ("<a" : Text) ++ ' ' :: 'h' :: r ∧ isWord ('h' :: r) := by
  obtain ⟨p, hp, hpw⟩ : ∃ p, head = ("<a" : Text) ++ ' ' :: 'h' :: p ∧
      ∀ d ∈ p, Ruby.isAsciiSpace d = false := by
    rcases hhead with rfl | rfl
    · exact ⟨"ref=\"/user/", by decide, List.all_iff_forall_prop.1 (by decide)⟩
    · exact ⟨"ref=\"/tag/", by decide, List.all_iff_forall_prop.1 (by decide)⟩
  refine ⟨p ++ (x ++ dquote :: '>' :: (c :: x ++ ("</a>" : Text))), by rw [link, hp]; rfl,
    List.cons_ne_nil _ _, ?_⟩
  have hx := (List.forall_mem_cons.1 hw.2).2
  have hclose : ∀ d ∈ ("</a>" : Text), Ruby.isAsciiSpace d = false :=
    List.all_iff_forall_prop.1 (by decide)
  simp only [List.forall_mem_cons, List.forall_mem_append]
  exact ⟨by decide, hpw, hx, by decide, by decide, ⟨(List.forall_mem_cons.1 hw.2).1, hx⟩, hclose⟩

/-- How a text in the place of the word `w` falls into words again: it is `w` itself, or two words
if `w` is marked, and no word of it is marked. -/
structure Stable (users : Table User) (w t : Text) : Prop where
  spaced : Ruby.Spaced t
  length : (split t).length = if isMarked users w then 2 else 1
  unmarked : ∀ v ∈ split t, isMarked users v = false

theorem stable_self (hw : isWord w) (h : isMarked users w = false) : Stable users w w := by
  have hsplit := Ruby.split_of_isWord hw
  exact ⟨Ruby.spaced_of_isWord hw, by rw [hsplit, h]; rfl, by rw [hsplit]; simpa using h⟩

theorem stable_link {c : Char} {head x : Text} (h : isMarked users w = true)
    (hhead : head = userHead ∨ head = tagHead) (hword : isWord (c :: x)) :
    Stable users w (link head x (c :: x)) := by
  obtain ⟨r, hlink, hr⟩ := exists_link_eq hhead hword
  have hsplit : split (link head x (c :: x)) = [("<a" : Text), 'h' :: r] := by
    rw [hlink, Ruby.split_append_space, Ruby.split_of_isWord hr]
    rfl
  refine ⟨⟨by rw [hsplit]; exact List.cons_ne_nil _ _, ?_⟩, by rw [hsplit, h]; rfl, ?_⟩
  · rw [hsplit, hlink, Ruby.join_cons_cons, Ruby.join_singleton]
  · rw [hsplit]
    simp only [List.forall_mem_cons]
    exact ⟨isMarked_cons (by decide) (by decide) _, isMarked_cons (by decide) (by decide) _,
      by simp⟩

/-- **What becomes of a word is stable**, whatever its backslashes expand to. -/
theorem stable_wordText (hw : isWord w) (h : wordText users w = .ok t) : Stable users w t := by
  rcases wordText_cases h with ⟨hno, rfl⟩ | ⟨hmarked, c, name, head, x, rfl, -, hhead, hx, rfl⟩
  · exact stable_self hw hno
  · -- the expansion is made of characters of the word
    refine stable_link hmarked hhead ⟨List.cons_ne_nil c x, fun d hd => hw.2 d ?_⟩
    rcases List.mem_cons.1 hd with rfl | hd
    · exact List.mem_cons_self
    · exact (Ruby.mem_of_expand hx hd).elim (List.mem_cons_of_mem c) id

theorem stable_linkedWord (hw : isWord w) : Stable users w (linkedWord users w) := by
  cases h : isMarked users w with
  | false => rw [linkedWord_of_not_marked h]; exact stable_self hw h
  | true =>
    obtain ⟨c, name, head, rfl, -, hhead, hlink⟩ := linkedWord_of_marked h
    rw [hlink]
    exact stable_link h hhead hw

end Word

/-! ### Whole texts -/

section Whole

variable {users : Table User} {text : Text} {p : Processed}

/-- The loop of `process_text`, with what it collects read off the text. -/
theorem processText_eq_ok_iff :
    processText users (some text) = .ok p ↔
      ∃ ts, (split text).mapM (wordText users) = .ok ts ∧
        p = ⟨join ts, mentioned users text, tagged text⟩ := by
  have hloop : ∀ {words}, (split text).mapM (processWord users) = .ok words →
      (split text).mapM (wordText users) = .ok (words.map Word.text) := by
    intro words h
    rw [Except.mapM_eq_ok] at h ⊢
    rw [List.forall₂_map_right_iff]
    refine h.imp fun w r hr => ?_
    rw [processWord_eq] at hr
    obtain ⟨t, ht, hr⟩ := Except.bind_eq_ok.1 hr
    obtain rfl := Except.ok.inj hr
    exact ht
  constructor
  · intro h
    obtain ⟨hmentions, htags⟩ := processText_marks h
    obtain ⟨words, hwords, hp⟩ := Except.bind_eq_ok.1 h
    refine ⟨_, hloop hwords, ?_⟩
    rw [← hmentions, ← htags, ← Except.ok.inj hp]
  · rintro ⟨ts, hts, rfl⟩
    obtain ⟨words, hwords⟩ : ∃ words, (split text).mapM (processWord users) = .ok words := by
      refine Except.mapM_ok_iff.2 fun w hw => ?_
      obtain ⟨t, ht⟩ := Except.mapM_ok_iff.1 ⟨ts, hts⟩ w hw
      exact ⟨_, by rw [processWord_eq, ht]; rfl⟩
    have hrun : processText users (some text) = .ok _ := Except.bind_eq_ok.2 ⟨words, hwords, rfl⟩
    obtain ⟨hmentions, htags⟩ := processText_marks hrun
    rw [hrun, ← hmentions, ← htags, Except.ok.inj (hts.symm.trans (hloop hwords))]

/-- Where nothing is interpreted, `process_text` links the words. -/
theorem processText_of_literal
    (h : ∀ w ∈ split text, isMarked users w = true → literal (w ++ ("</a>" : Text)) = true) :
    processText users (some text) = .ok (linked users text) := by
  rw [processText_eq_ok_iff]
  refine ⟨_, ?_, rfl⟩
  rw [Except.mapM_eq_ok, List.forall₂_map_right_iff, List.forall₂_same]
  exact fun w hw => wordText_eq_linkedWord_iff.2 (h w hw)

/-- Whatever becomes of the words is stable. -/
theorem forall₂_stable {ts : List Text} (h : (split text).mapM (wordText users) = .ok ts) :
    List.Forall₂ (fun w t => isWord w ∧ Stable users w t) (split text) ts := by
  have hwords : ∀ w ∈ split text, isWord w := fun w hw => Ruby.isWord_of_mem_split hw
  have hts := (List.forall₂_and_left _ _).2 ⟨hwords, Except.mapM_eq_ok.1 h⟩
  exact hts.imp fun w t hwt => ⟨hwt.1, stable_wordText hwt.1 hwt.2⟩

/-- **`process_text` is word-wise linking exactly on the texts whose marked words have no sequence
that `gsub` interprets.** -/
theorem processText_eq_linked_iff (users : Table User) (text : Text) :
    processText users (some text) = .ok (linked users text) ↔
      ∀ w ∈ split text, isMarked users w = true → literal (w ++ ("</a>" : Text)) = true := by
  have hwords : (split text).mapM (wordText users) = .ok ((split text).map (linkedWord users)) ↔
      ∀ w ∈ split text, wordText users w = .ok (linkedWord users w) := by
    rw [Except.mapM_eq_ok, List.forall₂_map_right_iff, List.forall₂_same]
  simp only [← wordText_eq_linkedWord_iff]
  rw [← hwords, processText_eq_ok_iff]
  constructor
  · rintro ⟨ts, hts, hlinked⟩
    -- the two texts are joined from as many words, so the words are the same
    have hjoin : join ((split text).map (linkedWord users)) = join ts :=
      congrArg Processed.text hlinked
    rw [Ruby.eq_of_join_eq ?_ hjoin]
    · exact hts
    · rw [List.forall₂_map_left_iff]
      refine (forall₂_stable hts).imp fun w t h => ?_
      have hlinked : Stable users w (linkedWord users w) := stable_linkedWord h.1
      exact ⟨hlinked.spaced, h.2.spaced, hlinked.length.trans h.2.length.symm⟩
  · intro h
    exact ⟨_, h, rfl⟩

/-- In `#a\0` the sequence `\0` stands for the word; in `#x\k` the closing tag makes `\k` a
reference to a group, which raises. -/
theorem backslash_interpreted :
    processText Table.empty (some "#a\\0") =
        .ok ⟨"<a href=\"/tag/a#a\\0\">#a#a\\0</a>", [], ["a\\0"]⟩ ∧
      processText Table.empty (some "#a\\0") ≠ .ok (linked Table.empty "#a\\0") ∧
      processText Table.empty (some "#x\\k") = .error .indexError := by
  decide +kernel

/-- The loop of `process_text` does nothing to words that are not marked. -/
theorem mapM_wordText_of_unmarked {ws : List Text} (h : ∀ w ∈ ws, isMarked users w = false) :
    ws.mapM (wordText users) = .ok ws := by
  rw [Except.mapM_eq_ok, List.forall₂_same]
  intro w hw
  rw [wordText, h w hw]
  rfl

theorem marks_of_unmarked (h : ∀ w ∈ split text, isMarked users w = false) :
    mentioned users text = [] ∧ tagged text = [] := by
  unfold mentioned tagged
  rw [List.filterMap_eq_nil_iff, List.filterMap_eq_nil_iff, ← forall₂_and]
  intro w hw
  have hno := h w hw
  rw [isMarked, Bool.or_eq_false_iff, Option.isSome_eq_false_iff, Option.isSome_eq_false_iff,
    Option.isNone_iff_eq_none, Option.isNone_iff_eq_none] at hno
  exact hno

/-- **A text that `process_text` has returned is left alone by it**: nothing is linked or found a
second time. -/
theorem processText_idempotent (h : processText users (some text) = .ok p) :
    processText users (some p.text) = .ok ⟨p.text, [], []⟩ := by
  obtain ⟨ts, hts, rfl⟩ := processText_eq_ok_iff.1 h
  have hstable : ∀ t ∈ ts, ∃ w, Stable users w t := by
    intro t ht
    obtain ⟨w, hw, hwt⟩ := Except.exists_of_mem_mapM hts ht
    exact ⟨w, stable_wordText (Ruby.isWord_of_mem_split hw) hwt⟩
  have hunmarked : ∀ v ∈ split (join ts), isMarked users v = false := by
    intro v hv
    rw [Ruby.split_join, List.mem_flatMap] at hv
    obtain ⟨t, ht, hv⟩ := hv
    obtain ⟨w, hw⟩ := hstable t ht
    exact hw.unmarked v hv
  obtain ⟨hmentions, htags⟩ := marks_of_unmarked hunmarked
  refine processText_eq_ok_iff.2 ⟨_, mapM_wordText_of_unmarked hunmarked, ?_⟩
  rw [hmentions, htags, Ruby.split_join, Ruby.join_flatMap_split fun t ht => ?_]
  obtain ⟨w, hw⟩ := hstable t ht
  exact hw.spaced

end Whole

/-- The text that `#a\0 @nobody` becomes is left alone. -/
theorem expanded_link_left_alone :
    processText Table.empty (some "#a\\0 @nobody") =
        .ok ⟨"<a href=\"/tag/a#a\\0\">#a#a\\0</a> @nobody", [], ["a\\0"]⟩ ∧
      processText Table.empty (some "<a href=\"/tag/a#a\\0\">#a#a\\0</a> @nobody") =
        .ok ⟨"<a href=\"/tag/a#a\\0\">#a#a\\0</a> @nobody", [], []⟩ := by
  have hfirst : processText Table.empty (some "#a\\0 @nobody") =
      .ok ⟨"<a href=\"/tag/a#a\\0\">#a#a\\0</a> @nobody", [], ["a\\0"]⟩ := by decide +kernel
  exact ⟨hfirst, processText_idempotent hfirst⟩

end NanoTwitter
