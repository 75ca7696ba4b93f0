import Mathlib.Tactic
import NanoTwitter.Sequential.FeedEntries
import NanoTwitter.Sequential.Walls
import NanoTwitter.Text.Linking

/-!
# Search and what was written

`search_tweets` looks for the keyword in the stored texts, in which words have been replaced by
links. A `Journal` notes the calls of `make_tweet` that stored a row; the table of tweets is what
the journal says (`Kept`). So a search finds what was written exactly when, for each tweet by
somebody else than the keyword names, the stored text and the typed text both have the keyword in
them or both have not.

`findsWritten_iff` says which words of the tweets decide that. A link starts with `<`, ends with `>`
and has spaces around it, so that most keywords are found inside a link or between two links
(`infix_stored_iff`). A keyword of one word is never missed; it is found in too many tweets if it
is a part of a link that its author did not write. A longer keyword is missed if it is written only
across the ends of marked words.
-/

namespace NanoTwitter

open Ruby (split join literal)

/-- A call of `make_tweet` that stored a row, the id of the row, and the users at the time. -/
structure Post where
  id : ℕ
  call : Call
  users : Table User

namespace Post

/-- The row that the call stored. -/
def row (q : Post) : Row Tweet := ⟨q.id, Tweet.new q.call.now q.call.processed.text q.call.author⟩

/-- The words that the author wrote. -/
def words (q : Post) : List Text := split (q.call.text.getD [])

/-- What the author wrote, before linking. -/
def written (q : Post) : Text := join q.words

/-- The links for the marked words. -/
def links (q : Post) : List Text := (q.words.filter (isMarked q.users)).map (linkedWord q.users)

/-- What was written before, between and behind the marked words. -/
def stretches (q : Post) : List Text := Ruby.stretches (isMarked q.users) [] q.words

/-- Nothing in the marked words is interpreted by `gsub`. -/
def Literal (q : Post) : Prop :=
  ∀ w ∈ q.words, isMarked q.users w = true → literal (w ++ ("</a>" : Text)) = true

instance (q : Post) : Decidable q.Literal := inferInstanceAs (Decidable (∀ w ∈ q.words, _ → _))

/-- The tweets that a search is for: by the user of that name, or with the keyword in what was
written. -/
def Concerns (k : Text) (q : Post) : Prop :=
  q.call.author.attrs.userName = k ∨ k <:+: q.written

instance (k : Text) (q : Post) : Decidable (q.Concerns k) := inferInstanceAs (Decidable (_ ∨ _))

end Post

/-- The stores, and the calls that stored a row, in their order. -/
structure Journal where
  world : World
  posts : List Post

namespace Journal

def empty : Journal := ⟨World.empty, []⟩

/-- Run an operation and note a call that has stored a row. -/
def step (P : Platform) (j : Journal) (op : Op) : Journal where
  world := NanoTwitter.step P j.world op
  posts := match call? j.world.db op with
    | some c =>
        if j.world.db.tweets.rows.length < (NanoTwitter.step P j.world op).db.tweets.rows.length
        then j.posts ++ [⟨j.world.db.tweets.nextId, c, j.world.db.users⟩]
        else j.posts
    | none => j.posts

/-- The posts by somebody else than the user of that name. -/
def others (j : Journal) (k : Text) : List Post :=
  j.posts.filter fun q => q.call.author.attrs.userName ≠ k

/-- **Search finds what was written**: the posts that the keyword concerns, newest first and each
once, as the arrays of their rows. -/
def FindsWritten (j : Journal) (k : Text) : Prop :=
  ∃ found : List Post,
    searchTweets j.world.db (some k) = .ok (found.map fun q => rowEntry q.row) ∧
      found.Pairwise (fun a b => b.call.now ≤ a.call.now) ∧ found.Nodup ∧
        ∀ q, q ∈ found ↔ q ∈ j.posts ∧ q.Concerns k

/-! ### The table is what the journal says -/

/-- The table of tweets holds the rows of the posts, and what they store is what `process_text`
returned. -/
structure Kept (P : Platform) (j : Journal) : Prop where
  sound : Sound P j.world
  rows_eq : j.world.db.tweets.rows = j.posts.map Post.row
  processed : ∀ q ∈ j.posts, processText q.users q.call.text = .ok q.call.processed

variable {P : Platform} {j : Journal}

theorem processText_of_call {db : Db} {op : Op} {c : Call} (h : call? db op = some c) :
    processText db.users c.text = .ok c.processed := by
  cases op with
  | makeTweet now text id replyId =>
    rw [call?] at h
    cases hu : id.bind db.users.find with
    | none => simp [hu] at h
    | some u =>
      cases hp : processText db.users text with
      | error e => simp [hu, hp] at h
      | ok p =>
        simp only [hu, hp, Option.some.injEq] at h
        subst h
        exact hp
  | _ => exact absurd h (by simp [call?])

/-- An operation that stores no row leaves the journal as it is. -/
theorem Kept.same {j' : Journal} (h : j.Kept P) (hsound : Sound P j'.world)
    (hrows : j'.world.db.tweets.rows = j.world.db.tweets.rows) (hposts : j'.posts = j.posts) :
    j'.Kept P :=
  ⟨hsound, by rw [hrows, hposts, h.rows_eq], hposts ▸ h.processed⟩

theorem kept_step (h : j.Kept P) (op : Op) : (j.step P op).Kept P := by
  have hsound := (effect_step h.sound op).2
  cases hc : call? j.world.db op with
  | none =>
    exact h.same hsound (congrArg Table.rows (step_of_no_call h.sound hc).1)
      (by simp only [step, hc])
  | some c =>
    have htweets := (step_of_call h.sound hc).1
    by_cases hvalid : (Tweet.new c.now c.processed.text c.author).valid true = true
    · rw [createdTweets, if_pos hvalid] at htweets
      have hposts : (j.step P op).posts =
          j.posts ++ [⟨j.world.db.tweets.nextId, c, j.world.db.users⟩] := by
        simp [step, hc, htweets, Table.rows_insert]
      refine ⟨hsound, ?_, ?_⟩
      · refine (congrArg Table.rows htweets).trans ?_
        rw [Table.rows_insert, hposts, List.map_append, h.rows_eq]
        rfl
      · rw [hposts, List.forall_mem_append]
        exact ⟨h.processed, by simpa using processText_of_call hc⟩
    · rw [createdTweets, if_neg hvalid] at htweets
      exact h.same hsound (congrArg Table.rows htweets) (by simp [step, hc, htweets])

theorem kept_run (P : Platform) (ops : List Op) : (Run.run (step P) empty ops).Kept P :=
  (Run.always_of_inv (P := fun j : Journal => j.Kept P) (fun _ op h => kept_step h op)
    ⟨sound_empty P, rfl, fun _ hq => absurd hq List.not_mem_nil⟩ ops).last

/-- Posts have different ids. -/
theorem Kept.nodup_ids (h : j.Kept P) : (j.posts.map Post.id).Nodup := by
  have hids := j.world.db.tweets.nodup_ids
  rwa [h.rows_eq, List.map_map] at hids

theorem Kept.eq_of_id (h : j.Kept P) {p q : Post} (hp : p ∈ j.posts) (hq : q ∈ j.posts)
    (hid : p.id = q.id) : p = q := List.inj_on_of_nodup_map h.nodup_ids hp hq hid

/-! ### What a search returns -/

/-- The posts that the code finds: it looks at the stored texts. -/
def hits (j : Journal) (k : Text) : List Post :=
  (j.posts.insertionSort fun a b => b.call.now ≤ a.call.now).filter fun q =>
    q.call.author.attrs.userName = k ∨ k <:+: q.call.processed.text

theorem mem_hits {k : Text} {q : Post} :
    q ∈ j.hits k ↔
      q ∈ j.posts ∧ (q.call.author.attrs.userName = k ∨ k <:+: q.call.processed.text) := by
  rw [hits, List.mem_filter, List.mem_insertionSort, decide_eq_true_eq]

theorem searchTweets_eq (h : j.Kept P) (k : Text) :
    searchTweets j.world.db (some k) = .ok ((j.hits k).map fun q => rowEntry q.row) := by
  unfold searchTweets
  rw [h.rows_eq, hits]
  dsimp only
  rw [← List.map_insertionSort (fun a b : Post => b.call.now ≤ a.call.now) _ Post.row j.posts
    fun _ _ _ _ => Iff.rfl, List.filter_map, List.map_map]
  rfl

theorem sorted_hits (k : Text) :
    (j.hits k).Pairwise fun a b => b.call.now ≤ a.call.now := by
  have htotal : Std.Total fun a b : Post => b.call.now ≤ a.call.now := ⟨fun _ _ => le_total _ _⟩
  have htrans : IsTrans Post fun a b => b.call.now ≤ a.call.now :=
    ⟨fun _ _ _ hab hbc => le_trans hbc hab⟩
  exact (List.pairwise_insertionSort _ j.posts).filter _

theorem nodup_hits (h : j.Kept P) (k : Text) : (j.hits k).Nodup := by
  refine List.Nodup.filter _ ((List.perm_insertionSort _ j.posts).nodup_iff.2 ?_)
  exact h.nodup_ids.of_map _

/-- A search that finds what was written finds nothing if and only if nothing is concerned. -/
theorem FindsWritten.eq_nil_iff {k : Text} (h : j.FindsWritten k) :
    searchTweets j.world.db (some k) = .ok [] ↔ ∀ q ∈ j.posts, ¬ q.Concerns k := by
  obtain ⟨found, hrun, -, -, hfound⟩ := h
  rw [hrun, Except.ok.injEq, List.map_eq_nil_iff, List.eq_nil_iff_forall_not_mem]
  simp only [hfound, not_and]

theorem mem_others {k : Text} {q : Post} :
    q ∈ j.others k ↔ q ∈ j.posts ∧ q.call.author.attrs.userName ≠ k := by
  rw [others, List.mem_filter, decide_eq_true_eq]

/-- The links must make no difference to where the keyword is found. -/
theorem findsWritten_iff_stored (h : j.Kept P) (k : Text) :
    j.FindsWritten k ↔
      ∀ q ∈ j.others k, (k <:+: q.call.processed.text ↔ k <:+: q.written) := by
  constructor
  · rintro ⟨found, hrun, -, -, hfound⟩ q hother
    obtain ⟨hq, hauthor⟩ := mem_others.1 hother
    have hlists := Except.ok.inj (hrun.symm.trans (searchTweets_eq h k))
    -- a post is among those found if and only if it is among the hits, since ids are unique
    have hmem : ∀ {l l' : List Post}, (∀ p ∈ l', p ∈ j.posts) →
        (l.map fun q => rowEntry q.row) = l'.map (fun q => rowEntry q.row) → q ∈ l → q ∈ l' := by
      intro l l' hl' heq hql
      have hentry := List.mem_map_of_mem (f := fun q : Post => rowEntry q.row) hql
      rw [heq, List.mem_map] at hentry
      obtain ⟨p, hp, hpq⟩ := hentry
      obtain rfl := h.eq_of_id (hl' p hp) hq (Option.some.inj (congrArg Entry.id hpq))
      exact hp
    have hboth : q ∈ found ↔ q ∈ j.hits k :=
      ⟨hmem (fun p hp => (mem_hits.1 hp).1) hlists,
        hmem (fun p hp => ((hfound p).1 hp).1) hlists.symm⟩
    rw [hfound, mem_hits, Post.Concerns] at hboth
    simpa [hq, hauthor, iff_comm] using hboth
  · intro hsame
    refine ⟨j.hits k, searchTweets_eq h k, sorted_hits k, nodup_hits h k, fun q => ?_⟩
    rw [mem_hits, Post.Concerns]
    refine and_congr_right fun hq => ?_
    by_cases hauthor : q.call.author.attrs.userName = k
    · simp only [hauthor, true_or]
    · simp only [hauthor, false_or, hsame q (mem_others.2 ⟨hq, hauthor⟩)]

end Journal

/-! ### Where a keyword is found -/

section Found

variable {users : Table User} {w : Text}

theorem head?_linkedWord (h : isMarked users w = true) :
    (linkedWord users w).head? = some '<' := by
  obtain ⟨c, name, head, rfl, -, hhead, hlink⟩ := linkedWord_of_marked h
  rw [hlink, link, List.head?_append]
  rcases hhead with rfl | rfl <;> rfl

theorem getLast?_linkedWord (h : isMarked users w = true) :
    (linkedWord users w).getLast? = some '>' := by
  obtain ⟨c, name, head, rfl, -, -, hlink⟩ := linkedWord_of_marked h
  rw [hlink, link]
  simp [List.getLast?_append, List.getLast?_cons]

/-- A word is a part of its link. -/
theorem infix_linkedWord (users : Table User) (w : Text) : w <:+: linkedWord users w := by
  cases h : isMarked users w with
  | false => rw [linkedWord_of_not_marked h]
  | true =>
    obtain ⟨c, name, head, rfl, -, -, hlink⟩ := linkedWord_of_marked h
    rw [hlink, link]
    exact ⟨head ++ (name ++ [Json.dquote, '>']), ("</a>" : Text), by simp⟩

variable {q : Post}

/-- Where nothing is interpreted, the stored text is joined from the words and links. -/
theorem Post.stored_eq (hq : processText q.users q.call.text = .ok q.call.processed)
    (hliteral : q.Literal) :
    q.call.processed.text = join (q.words.map (linkedWord q.users)) := by
  cases htext : q.call.text with
  | none => simp [htext, processText] at hq
  | some text =>
    have hwords : q.words = split text := by rw [Post.words, htext, Option.getD_some]
    rw [Post.Literal, hwords] at hliteral
    rw [htext, processText_of_literal hliteral] at hq
    rw [hwords, ← Except.ok.inj hq, linked]

/-- Without links, the stored text is what was written. -/
theorem Post.stored_of_links_eq_nil (hq : processText q.users q.call.text = .ok q.call.processed)
    (hnone : q.links = []) : q.call.processed.text = q.written := by
  have hunmarked : ∀ w ∈ q.words, isMarked q.users w = false := by
    rw [Post.links, List.map_eq_nil_iff, List.filter_eq_nil_iff] at hnone
    simpa using hnone
  have hliteral : q.Literal := fun w hw h => by
    rw [hunmarked w hw] at h
    exact absurd h Bool.false_ne_true
  rw [Post.stored_eq hq hliteral, Post.written]
  rw [List.map_congr_left fun w hw => linkedWord_of_not_marked (hunmarked w hw), List.map_id']

theorem Post.exists_mem_links {p : Text → Prop} :
    (∃ l ∈ q.links, p l) ↔ ∃ w ∈ q.words, isMarked q.users w = true ∧ p (linkedWord q.users w) := by
  simp only [Post.links, List.mem_map, exists_exists_and_eq_and]
  simp only [List.mem_filter, and_assoc]

/-- **A keyword that crosses no end of a link** is found in a stretch between links or in one of
them. -/
theorem infix_stored_iff (hq : processText q.users q.call.text = .ok q.call.processed)
    (hliteral : q.Literal) {k : Text} (hfront : ¬ (" <" : Text) <:+: k)
    (hback : ¬ ("> " : Text) <:+: k) :
    k <:+: q.call.processed.text ↔ ∃ s ∈ q.stretches ++ q.links, k <:+: s := by
  have hmap := Ruby.infix_join_map (p := isMarked q.users) (f := linkedWord q.users)
    (fun _ => linkedWord_of_not_marked)
    (fun _ h => ⟨head?_linkedWord h, getLast?_linkedWord h⟩) hfront hback q.words []
    (fun _ => by simp)
  rw [List.nil_append, ← Post.stored_eq hq hliteral, ← Post.exists_mem_links] at hmap
  simp only [List.mem_append, or_and_right, exists_or]
  exact hmap

/-- **A keyword of one word** is found in a word or in a link. -/
theorem infix_stored_iff_of_word (hq : processText q.users q.call.text = .ok q.call.processed)
    (hliteral : q.Literal) {k : Text} (hk : ' ' ∉ k) :
    k <:+: q.call.processed.text ↔ k <:+: q.written ∨ ∃ l ∈ q.links, k <:+: l := by
  rw [Post.stored_eq hq hliteral, Post.written, Ruby.infix_join_iff hk, Ruby.infix_join_iff hk,
    Post.exists_mem_links, or_assoc]
  refine or_congr_right ?_
  simp only [List.mem_map, exists_exists_and_eq_and, ← exists_or, ← and_or_left]
  refine exists_congr fun w => and_congr_right fun _ => ?_
  cases h : isMarked q.users w with
  | false => simp [linkedWord_of_not_marked h]
  | true =>
    simp only [true_and]
    exact ⟨.inr, fun hw => hw.elim (fun hw => hw.trans (infix_linkedWord _ w)) id⟩

end Found

/-- **When a search finds what was written**: when the links make no difference, that is, for every
post by somebody else the keyword is in the stored text if and only if it is in what was written.
Where `gsub` interprets nothing in the words that get links, that means

* for a keyword of one word: it is a part of no link, unless it is a part of a word of that post;
* for a keyword that crosses no end of a link: in a post with a link that it is a part of, it was
  written; and where it was written, it is a part of a link or of what stands between the links.

Without links a search always finds what was written. -/
theorem findsWritten_iff (P : Platform) (ops : List Op) (k : Text) :
    let j := Run.run (Journal.step P) Journal.empty ops
    (j.FindsWritten k ↔
      ∀ q ∈ j.others k, (k <:+: q.call.processed.text ↔ k <:+: q.written)) ∧
    ((∀ q ∈ j.others k, q.Literal) →
      (' ' ∉ k →
        (j.FindsWritten k ↔
          ∀ q ∈ j.others k, ∀ l ∈ q.links, k <:+: l → ∃ w ∈ q.words, k <:+: w)) ∧
      (¬ (" <" : Text) <:+: k → ¬ ("> " : Text) <:+: k →
        (j.FindsWritten k ↔
          ∀ q ∈ j.others k, (∀ l ∈ q.links, k <:+: l → k <:+: q.written) ∧
            (k <:+: q.written → ∃ s ∈ q.stretches ++ q.links, k <:+: s)))) ∧
    ((∀ q ∈ j.others k, q.links = []) → j.FindsWritten k) := by
  intro j
  have hj : j.Kept P := Journal.kept_run P ops
  have hprocessed : ∀ q ∈ j.others k, processText q.users q.call.text = .ok q.call.processed :=
    fun q hq => hj.processed q (Journal.mem_others.1 hq).1
  have hstored := Journal.findsWritten_iff_stored hj k
  refine ⟨hstored, fun hliteral => ⟨fun hk => ?_, fun hfront hback => ?_⟩, fun hnone => ?_⟩
  · rw [hstored]
    refine forall₂_congr fun q hq => ?_
    rw [infix_stored_iff_of_word (hprocessed q hq) (hliteral q hq) hk, or_iff_left_iff_imp,
      Post.written, Ruby.infix_join_iff hk]
    constructor
    · intro h l hl hkl
      rcases h ⟨l, hl, hkl⟩ with rfl | hword
      · obtain ⟨w, hw, -⟩ := Post.exists_mem_links.1 ⟨l, hl, hkl⟩
        exact ⟨w, hw, List.nil_infix⟩
      · exact hword
    · rintro h ⟨l, hl, hkl⟩
      exact .inr (h l hl hkl)
  · rw [hstored]
    refine forall₂_congr fun q hq => ?_
    rw [infix_stored_iff (hprocessed q hq) (hliteral q hq) hfront hback]
    refine iff_def.trans (and_congr_left' ?_)
    constructor
    · intro h l hl hkl
      exact h ⟨l, List.mem_append_right _ hl, hkl⟩
    · rintro h ⟨s, hs, hks⟩
      -- a stretch was written as it stands
      rcases List.mem_append.1 hs with hs | hs
      · exact hks.trans (Ruby.infix_of_mem_stretches hs)
      · exact h s hs hks
  · rw [hstored]
    intro q hq
    rw [Post.stored_of_links_eq_nil (hprocessed q hq) (hnone q hq)]

/-- `ann` writes `see #ruby now`. -/
def annSees : List Op :=
  [.register 0 0 (.of "ann" "ann@x.org"), .makeTweet 1 (some "see #ruby now") (some 1) none]

/-- Searches for `ruby` and for `see ` find what was written: the one is a part of the word `#ruby`,
the other stands in front of the link. -/
theorem search_beside_links :
    (Run.run (Journal.step .ascii) Journal.empty annSees).FindsWritten "ruby" ∧
      (Run.run (Journal.step .ascii) Journal.empty annSees).FindsWritten "see " := by
  have hword := (findsWritten_iff .ascii annSees "ruby").2.1 (by decide +kernel)
  have hfront := (findsWritten_iff .ascii annSees "see ").2.1 (by decide +kernel)
  exact ⟨(hword.1 (by decide +kernel)).2 (by decide +kernel),
    (hfront.2 (by decide +kernel) (by decide +kernel)).2 (by decide +kernel)⟩

/-- A search for `href` finds the tweet, where nobody wrote it; a search for `see #ruby` does not
find the tweet. -/
theorem search_in_links :
    let j := Run.run (Journal.step .ascii) Journal.empty annSees
    (j.posts.map fun q => (q.id, q.written)) = [(1, ("see #ruby now" : Text))] ∧
      searchTweets j.world.db (some "href") =
        .ok [⟨"ann", "see <a href=\"/tag/ruby\">#ruby</a> now", some 1, some 1⟩] ∧
      searchTweets j.world.db (some "see #ruby") = .ok [] ∧
      ¬ j.FindsWritten "href" ∧ ¬ j.FindsWritten "see #ruby" := by
  intro j
  have hhref : searchTweets j.world.db (some "href") =
      .ok [⟨"ann", "see <a href=\"/tag/ruby\">#ruby</a> now", some 1, some 1⟩] := by
    decide +kernel
  have hruby : searchTweets j.world.db (some "see #ruby") = .ok [] := by decide +kernel
  refine ⟨by decide +kernel, hhref, hruby, fun h => ?_, fun h => ?_⟩
  · have hnil := h.eq_nil_iff.2 (by decide +kernel)
    rw [hhref] at hnil
    exact absurd (Except.ok.inj hnil) (List.cons_ne_nil _ _)
  · exact absurd (h.eq_nil_iff.1 hruby) (by decide +kernel)

end NanoTwitter
