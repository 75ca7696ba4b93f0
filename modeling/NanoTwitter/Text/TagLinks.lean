import Mathlib.Data.List.TakeWhile
import Mathlib.Tactic
import NanoTwitter.Lib.Url
import NanoTwitter.Text.Linking
import NanoTwitter.Model.Api

/-!
# Where the link of a tag leads

`process_text` writes the name of a tag as it is into the address of a link. A browser reads the
attribute up to its closing quote and drops query and fragment, and `GET /tag/:name` takes one
percent-decoded segment of the path: `linkRequest`. `linkRequest_tag_iff` says from which links the
tag is found again. Where the name is cut, decoded or expanded by `gsub`, fewer bytes than those of
the name arrive, whatever they are.
-/

namespace NanoTwitter

open Ruby (split join literal Loses)
open Json (dquote)

/-! ### Following a link -/

/-- The value of the attribute `href` of a link, up to the closing quote. -/
def href (t : Text) : Option Text :=
  (t.dropPrefix? ("<a href=\"" : Text)).map fun r => r.takeWhile (· ≠ dquote)

/-- An address without its query and fragment part. -/
def pathOf (url : Text) : Text := url.takeWhile fun c => c ≠ '?' && c ≠ '#'

/-- The parameter of `GET /tag/:name` for a path: one segment, percent-decoded. -/
def tagParam (path : Text) : Option Text :=
  (path.dropPrefix? ("/tag/" : Text)).bind fun segment =>
    if segment ≠ [] ∧ '/' ∉ segment then Url.component segment else none

/-- The request for a list of tweets that following a link sends. -/
def linkRequest (t : Text) : Option Request :=
  (href t).bind fun url => (tagParam (pathOf url)).map fun name =>
    ⟨.getTag, pathOf url, { name := some (.str name) }⟩

/-- The names of tags that their links lead back to: none of the characters that end an attribute, a
segment or a path, no percent escape, and nothing that `gsub` interprets. -/
def addressable (name : Text) : Bool :=
  name ≠ [] && name.all (fun c => c ≠ dquote && c ≠ '?' && c ≠ '#' && c ≠ '/') &&
    !Url.hasEscape name && literal ('#' :: name ++ ("</a>" : Text))

theorem takeWhile_append_stop {α : Type} {p : α → Bool} {b : α} (hb : p b = false)
    (l r : List α) : (l ++ b :: r).takeWhile p = l.takeWhile p := by
  induction l with
  | nil => rw [List.nil_append, List.takeWhile_cons_of_neg (by simp [hb]), List.takeWhile_nil]
  | cons x l ih => rw [List.cons_append, List.takeWhile_cons, List.takeWhile_cons, ih]

/-- The segment of the path in the link to `x`. -/
def segment (x : Text) : Text :=
  (x.takeWhile (· ≠ dquote)).takeWhile fun c => c ≠ '?' && c ≠ '#'

theorem href_link (x w : Text) :
    href (link tagHead x w) = some (("/tag/" : Text) ++ x.takeWhile (· ≠ dquote)) := by
  have hhead : tagHead = ("<a href=\"" : Text) ++ ("/tag/" : Text) := by decide
  have hplain : ∀ c ∈ ("/tag/" : Text), decide (c ≠ dquote) = true :=
    List.all_eq_true.1 (by decide)
  rw [href, link, hhead, List.append_assoc, List.dropPrefix?_append_of_beq _ (by decide),
    Option.map_some, List.takeWhile_append_of_pos hplain, takeWhile_append_stop (by decide)]

theorem pathOf_tag (y : Text) :
    pathOf (("/tag/" : Text) ++ y) =
      ("/tag/" : Text) ++ y.takeWhile fun c => c ≠ '?' && c ≠ '#' :=
  List.takeWhile_append_of_pos (List.all_eq_true.1 (by decide))

/-- A link is followed to `name` if its segment is decoded to `name`. -/
theorem linkRequest_link (x w name : Text) :
    (∃ path, linkRequest (link tagHead x w) = some ⟨.getTag, path, { name := some name }⟩) ↔
      segment x ≠ [] ∧ '/' ∉ segment x ∧ Url.component (segment x) = some name := by
  have hparam : tagParam (("/tag/" : Text) ++ segment x) =
      if segment x ≠ [] ∧ '/' ∉ segment x then Url.component (segment x) else none := by
    rw [tagParam, List.dropPrefix?_append_of_beq _ (by decide), Option.bind_some]
  rw [linkRequest, href_link, Option.bind_some, pathOf_tag]
  change (∃ path, (tagParam (("/tag/" : Text) ++ segment x)).map _ = _) ↔ _
  rw [hparam]
  split_ifs with h
  · simp [Option.map_eq_some_iff, h.1, h.2]
  · simp only [Option.map_none, reduceCtorEq, exists_false, false_iff]
    exact fun hsegment => h ⟨hsegment.1, hsegment.2.1⟩

/-! ### Names that are found again -/

theorem segment_sublist (x : Text) : (segment x).Sublist x :=
  (List.takeWhile_sublist _).trans (List.takeWhile_sublist _)

theorem segment_eq_self_iff {x : Text} :
    segment x = x ↔ ∀ c ∈ x, c ≠ dquote ∧ c ≠ '?' ∧ c ≠ '#' := by
  constructor
  · intro h c hc
    have hquote : x.takeWhile (· ≠ dquote) = x := by
      refine (List.takeWhile_sublist _).eq_of_length_le ?_
      calc x.length = (segment x).length := by rw [h]
        _ ≤ _ := (List.takeWhile_sublist _).length_le
    have hrest : x.takeWhile (fun c => c ≠ '?' && c ≠ '#') = x := by
      rw [segment, hquote] at h
      exact h
    rw [List.takeWhile_eq_self_iff] at hquote hrest
    have h1 := hquote c hc
    have h2 := hrest c hc
    simp only [Bool.and_eq_true, decide_eq_true_eq] at h1 h2
    exact ⟨h1, h2⟩
  · intro h
    have hquote : x.takeWhile (· ≠ dquote) = x :=
      List.takeWhile_eq_self_iff.2 fun c hc => by simpa using (h c hc).1
    rw [segment, hquote]
    exact List.takeWhile_eq_self_iff.2 fun c hc => by simpa using (h c hc).2

/-- What a name that was not taken as it stands becomes is too short to be followed to the name. -/
theorem component_segment_of_loses {name x : Text} (h : Loses ('#' :: name) name x) :
    Url.component (segment x) ≠ some name := by
  obtain ⟨s, hs, hlt, hx⟩ := h
  have hsub : (segment x).Sublist s := by
    rcases hx with rfl | ⟨q, rfl⟩
    · exact segment_sublist _
    · -- the path ends at the `#` of the inserted word at the latest
      have hcut : segment (s ++ ('#' :: name ++ q)) = segment s := by
        rw [segment, List.cons_append, List.takeWhile_append]
        split_ifs with hquote
        · rw [List.takeWhile_cons_of_pos (by decide), takeWhile_append_stop (by decide), segment,
            (List.takeWhile_sublist _).eq_of_length hquote]
        · rfl
      rw [hcut]
      exact segment_sublist s
  intro hname
  obtain ⟨hsegment, -⟩ := (Url.component_sublist (hsub.trans hs)).1 hname
  have hlen := hsub.length_le
  rw [hsegment] at hlen
  omega

/-- The link of a tag that was inserted as it stands. -/
theorem linkRequest_of_literal {name : Text}
    (h : literal ('#' :: name ++ ("</a>" : Text)) = true) (w : Text) :
    (∃ path, linkRequest (link tagHead name w) = some ⟨.getTag, path, { name := some name }⟩) ↔
      addressable name = true := by
  rw [linkRequest_link, Url.component_sublist (segment_sublist name), addressable, h]
  simp only [Bool.and_eq_true, Bool.not_eq_true', decide_eq_true_eq, List.all_eq_true, and_true]
  constructor
  · rintro ⟨hne, hslash, hself, hescape⟩
    rw [hself] at hne hslash
    have hchars := segment_eq_self_iff.1 hself
    exact ⟨⟨hne, fun c hc => ⟨⟨⟨(hchars c hc).1, (hchars c hc).2.1⟩, (hchars c hc).2.2⟩,
      fun hc' => hslash (hc' ▸ hc)⟩⟩, hescape⟩
  · rintro ⟨⟨hne, hchars⟩, hescape⟩
    have hself : segment name = name := segment_eq_self_iff.2 fun c hc =>
      ⟨(hchars c hc).1.1.1, (hchars c hc).1.1.2, (hchars c hc).1.2⟩
    rw [hself]
    exact ⟨hne, fun hmem => (hchars _ hmem).2 rfl, rfl, hescape⟩

/-- The link that a tag becomes leads back to the tag exactly when its name is addressable. -/
theorem linkRequest_wordText {users : Table User} {name t : Text}
    (h : wordText users ('#' :: name) = .ok t) :
    (∃ path, linkRequest t = some ⟨.getTag, path, { name := some name }⟩) ↔
      addressable name = true := by
  have hmarked : isMarked users ('#' :: name) = true := by
    rw [isMarked, tagOf_eq_some.2 rfl]
    exact Bool.or_true _
  have hlink : linkedWord users ('#' :: name) = link tagHead name ('#' :: name) := rfl
  rw [wordText, hmarked, if_pos rfl, hlink] at h
  have hinserted : replaceWord ('#' :: name) (link tagHead name ('#' :: name)) =
      .ok (link tagHead name ('#' :: name)) ↔ literal ('#' :: name ++ ("</a>" : Text)) = true :=
    replaceWord_link_iff (by decide) (head_plain (.inr rfl))
  by_cases hlit : literal ('#' :: name ++ ("</a>" : Text)) = true
  · obtain rfl := Except.ok.inj (h.symm.trans (hinserted.2 hlit))
    exact linkRequest_of_literal hlit _
  · -- the word is expanded: its link leads elsewhere, and the name is not addressable
    obtain ⟨x, -, rfl, ⟨-, rfl⟩ | hloses⟩ := replaceWord_link (by decide) (head_plain (.inr rfl)) h
    · exact absurd (hinserted.1 h) hlit
    · rw [linkRequest_link]
      refine iff_of_false (fun h => component_segment_of_loses hloses h.2.2) fun haddr => hlit ?_
      rw [addressable, Bool.and_eq_true] at haddr
      exact haddr.2

/-- **The link of a tag leads back to the tag exactly when its name is addressable.** The link is
what `process_text` makes of the word, as it stands in the text that is stored. -/
theorem linkRequest_tag_iff {users : Table User} {text name : Text} {p : Processed}
    (h : processText users (some text) = .ok p) (hname : name ∈ p.tags) :
    ∃ r, processWord users ('#' :: name) = .ok r ∧ r.tag = some name ∧ r.text <:+: p.text ∧
      ((∃ path, linkRequest r.text = some ⟨.getTag, path, { name := some name }⟩) ↔
        addressable name = true) := by
  obtain ⟨ts, hts, rfl⟩ := processText_eq_ok_iff.1 h
  obtain ⟨w, hw, htag⟩ := List.mem_filterMap.1 hname
  obtain rfl := tagOf_eq_some.1 htag
  obtain ⟨t, ht, hword⟩ := Except.exists_mem_of_mapM hts hw
  refine ⟨⟨t, mentionOf users ('#' :: name), some name⟩, ?_, rfl, Ruby.infix_join ht,
    linkRequest_wordText hword⟩
  rw [processWord_eq, hword, htag]
  rfl

/-- The link of `#ruby` leads to the tag `ruby`. -/
theorem ruby_found_again :
    ∃ r path, processWord Table.empty "#ruby" = .ok r ∧
      linkRequest r.text = some ⟨.getTag, path, { name := some "ruby" }⟩ := by
  have hrun : processText Table.empty (some "#ruby") =
      .ok ⟨"<a href=\"/tag/ruby\">#ruby</a>", [], ["ruby"]⟩ := by decide +kernel
  obtain ⟨r, hr, -, -, hopens⟩ := linkRequest_tag_iff hrun List.mem_cons_self
  obtain ⟨path, hpath⟩ := hopens.2 (by decide +kernel)
  exact ⟨r, path, hr, hpath⟩

/-- No route answers the link of `#a/b`, and the link of `#%41` leads to the tag `A`. -/
theorem tag_not_found_again :
    processText Table.empty (some "#a/b #%41") =
        .ok ⟨"<a href=\"/tag/a/b\">#a/b</a> <a href=\"/tag/%41\">#%41</a>", [], ["a/b", "%41"]⟩ ∧
      linkRequest "<a href=\"/tag/a/b\">#a/b</a>" = none ∧
      linkRequest "<a href=\"/tag/%41\">#%41</a>" =
        some ⟨.getTag, "/tag/%41", { name := some "A" }⟩ := by
  refine ⟨by decide +kernel, by decide +kernel, ?_⟩
  rfl

end NanoTwitter
