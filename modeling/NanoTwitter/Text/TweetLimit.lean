import Mathlib.Tactic
import NanoTwitter.Text.Linking
import NanoTwitter.Web.Orderly

/-!
# The limit of 140 characters

`make_tweet` stores the text that `process_text` returns, and `Tweet` validates the length of that
one. What the author typed is shorter by the links: `length_linked` counts how much. So the limit
holds for the typed text exactly where the two lengths, and raising, make no difference
(`keepsLimit_iff`).
-/

namespace NanoTwitter

open Ruby (Time split join literal blank)

/-- How much longer a word gets by its link. -/
def growth (users : Table User) (w : Text) : ℕ :=
  if (mentionOf users w).isSome then w.length + 20
  else if (tagOf w).isSome then w.length + 19
  else 0

/-- The characters that linking adds to a text. -/
def overhead (users : Table User) (text : Text) : ℕ := ((split text).map (growth users)).sum

/-- The text is processed, and what comes out passes the validations of a tweet. -/
def Fits (users : Table User) (text : Text) : Prop :=
  ∃ p, processText users (some text) = .ok p ∧ blank p.text = false ∧ p.text.length ≤ 140

/-- The table of tweets after `make_tweet`. -/
def tweetsAfter (P : Platform) (now : Time) (text : Text) (u : ℕ) (replyId : Option Text)
    (w : World) : Table Tweet :=
  ((makeTweet P now (some text) (some u) replyId).exec w).db.tweets

/-- **The limit applies to what the author typed**: a text of 1 to 140 characters is stored in a new
row by the user, a longer one is not stored. -/
def KeepsLimit (P : Platform) (now : Time) (text : Text) (u : ℕ) (replyId : Option Text)
    (w : World) : Prop :=
  (1 ≤ (typed text).length ∧ (typed text).length ≤ 140 →
    ∃ t : Tweet, t.authorId = u ∧ tweetsAfter P now text u replyId w = w.db.tweets.insert t) ∧
  (140 < (typed text).length → tweetsAfter P now text u replyId w = w.db.tweets)

/-! ### Lengths -/

theorem length_link (head name w : Text) :
    (link head name w).length = head.length + name.length + w.length + 6 := by
  have hclose : ("</a>" : Text).length = 4 := by decide
  simp only [link, List.length_append, List.length_cons, hclose]
  omega

theorem length_linkedWord (users : Table User) (w : Text) :
    (linkedWord users w).length = w.length + growth users w := by
  have huser : userHead.length = 15 := by decide
  have htag : tagHead.length = 14 := by decide
  unfold growth
  split_ifs with hmention hsharp
  · obtain ⟨name, rfl, hlink⟩ := linkedWord_of_mention hmention
    rw [hlink, length_link, huser, List.length_cons]
    omega
  · obtain ⟨name, rfl, hlink⟩ := linkedWord_of_tag hsharp
    rw [hlink, length_link, htag, List.length_cons]
    omega
  · have hmarked : isMarked users w = false := by simp [isMarked, hmention, hsharp]
    rw [linkedWord_of_not_marked hmarked, Nat.add_zero]

/-- **Linking adds its overhead.** -/
theorem length_linked (users : Table User) (text : Text) :
    (linked users text).text.length = (typed text).length + overhead users text := by
  simp only [linked, typed, overhead]
  cases split text with
  | nil => rfl
  | cons v ws =>
    have hsum : ((ws.map (linkedWord users)).map fun w => w.length + 1).sum =
        (ws.map fun w => w.length + 1).sum + (ws.map (growth users)).sum := by
      rw [List.map_map, ← List.sum_map_add]
      refine congrArg List.sum (List.map_congr_left fun w _ => ?_)
      rw [Function.comp_apply, length_linkedWord]
      omega
    rw [List.map_cons, Ruby.length_join_cons, Ruby.length_join_cons, length_linkedWord,
      List.map_cons, List.sum_cons, hsum]
    omega

/-! ### Blank texts -/

theorem blank_cons_of_not_space {c : Char} (hc : Ruby.isSpace c = false) (t : Text) :
    blank (c :: t) = false := by
  rw [blank, List.all_cons, hc, Bool.false_and]

theorem blank_linkedWord (users : Table User) (w : Text) :
    blank (linkedWord users w) = blank w := by
  cases h : isMarked users w with
  | false => rw [linkedWord_of_not_marked h]
  | true =>
    obtain ⟨c, name, head, rfl, hc, hhead, hlink⟩ := linkedWord_of_marked h
    obtain ⟨r, hr⟩ : ∃ r, head = '<' :: r := by
      rcases hhead with rfl | rfl
      · exact ⟨_, rfl⟩
      · exact ⟨_, rfl⟩
    rw [hlink, link, hr, List.cons_append, blank_cons_of_not_space (by decide),
      blank_cons_of_not_space (by rcases hc with rfl | rfl <;> decide)]

theorem blank_join (ws : List Text) : blank (join ws) = ws.all blank := by
  induction ws with
  | nil => rfl
  | cons w ws ih =>
    by_cases h : ws = []
    · simp [h]
    · have hspace : Ruby.isSpace ' ' = true := by decide
      rw [Ruby.join_cons w h, List.all_cons, ← ih, blank, List.all_append, List.all_cons, hspace,
        Bool.true_and]
      rfl

/-- Linking does not make a text blank, nor the other way round. -/
theorem blank_linked (users : Table User) (text : Text) :
    blank (linked users text).text = blank (typed text) := by
  simp only [linked, typed, blank_join, List.all_map, Function.comp_def, blank_linkedWord]

/-! ### What is stored -/

section Stored

variable {P : Platform} {w : World} {u : Row User} {text : Text}

/-- Where nothing is interpreted, the typed text must leave room for the links. -/
theorem fits_iff_of_literal {users : Table User}
    (h : ∀ v ∈ split text, isMarked users v = true → literal (v ++ ("</a>" : Text)) = true) :
    Fits users text ↔
      blank (typed text) = false ∧ (typed text).length + overhead users text ≤ 140 := by
  have hrun := processText_of_literal h
  rw [← length_linked, ← blank_linked users]
  constructor
  · rintro ⟨p, hp, hfits⟩
    obtain rfl := Except.ok.inj (hrun.symm.trans hp)
    exact hfits
  · intro hfits
    exact ⟨_, hrun, hfits⟩

theorem valid_new_iff (now : Time) (t : Text) (hu : blank u.attrs.userName = false) :
    (Tweet.new now t u).valid true = true ↔ blank t = false ∧ t.length ≤ 140 := by
  have hpos : blank t = false → 1 ≤ t.length := by
    intro hb
    by_contra hlen
    rw [List.eq_nil_of_length_eq_zero (by omega : t.length = 0)] at hb
    exact absurd hb (by decide)
  simp only [Tweet.valid, Tweet.new, hu, Bool.and_eq_true, Bool.not_eq_true', and_true,
    Bool.not_false]
  exact ⟨fun h => ⟨h.1, (of_decide_eq_true h.2).2⟩,
    fun h => ⟨h.1, decide_eq_true ⟨hpos h.1, h.2⟩⟩⟩

/-- A text that fits is stored, by the user; any other leaves the tweets as they are. -/
theorem tweetsAfter_cases (hw : Wf P w.db) (hu : w.db.users.find u.id = some u) (now : Time)
    (text : Text) (replyId : Option Text) :
    (Fits w.db.users text ∧ ∃ t : Tweet, t.authorId = u.id ∧
        tweetsAfter P now text u.id replyId w = w.db.tweets.insert t) ∨
      ¬ Fits w.db.users text ∧ tweetsAfter P now text u.id replyId w = w.db.tweets := by
  have hname : blank u.attrs.userName = false := by
    have hc := (User.valid_iff.1 (hw.users u (Table.mem_of_find hu).1)).1
    simp only [User.complete, Bool.and_eq_true, Bool.not_eq_true'] at hc
    exact hc.1.1.1
  have hcalm : tweetsAfter P now text u.id replyId w = tweeted now (some text) (some u.id) w.db :=
    (calm_makeTweet now (some text) (some u.id) replyId w).tweets
  have hfind : (some u.id).bind w.db.users.find = some u := hu
  rw [hcalm]
  rcases tweeted_cases now (some text) (some u.id) w.db with
    ⟨v, p, hv, hp, hvalid, hinsert⟩ | ⟨hinvalid, hsame⟩
  · obtain rfl := Option.some.inj (hfind.symm.trans hv)
    exact .inl ⟨⟨p, hp, (valid_new_iff now p.text hname).1 hvalid⟩, _, rfl, hinsert⟩
  · refine .inr ⟨?_, hsame⟩
    rintro ⟨p, hp, hfits⟩
    have hvalid := (valid_new_iff now p.text hname).2 hfits
    rw [hinvalid u p hfind hp] at hvalid
    exact absurd hvalid Bool.false_ne_true

theorem keepsLimit_iff_fits (hw : Wf P w.db) (hu : w.db.users.find u.id = some u) (now : Time)
    (text : Text) (replyId : Option Text) :
    KeepsLimit P now text u.id replyId w ↔
      typed text = [] ∨ (Fits w.db.users text ↔ (typed text).length ≤ 140) := by
  have hpos : typed text = [] ∨ 1 ≤ (typed text).length := by
    rw [Nat.one_le_iff_ne_zero, ne_eq, List.length_eq_zero_iff]
    exact em _
  unfold KeepsLimit
  rcases tweetsAfter_cases hw hu now text replyId with ⟨hfits, t, ht, htweets⟩ | ⟨hno, htweets⟩
  · rw [htweets]
    simp only [hfits, Table.insert_ne, true_iff, imp_false, not_lt]
    constructor
    · exact fun h => .inr h.2
    · rintro (hnil | hle)
      · rw [hnil]
        exact ⟨fun h => absurd h.1 (by simp), Nat.zero_le _⟩
      · exact ⟨fun _ => ⟨t, ht, rfl⟩, hle⟩
  · rw [htweets]
    have hnone : ¬ ∃ t : Tweet, t.authorId = u.id ∧ w.db.tweets = w.db.tweets.insert t :=
      fun ⟨t, _, h⟩ => Table.insert_ne t h.symm
    simp only [hno, hnone, false_iff, imp_false, not_le, implies_true, and_true, not_and]
    constructor
    · exact fun h => hpos.imp_right h
    · rintro (hnil | hlt) hone
      · rw [hnil] at hone
        exact absurd hone (by simp)
      · exact hlt

end Stored

/-- **When the limit applies to what the author typed**: when the typed text is within the limit
exactly if it is processed and fits with its links. Where nothing in it is interpreted that means
that it is empty, too long by itself, or leaves room for its links and is not blank. -/
theorem keepsLimit_iff (P : Platform) (es : List Event) {u : ℕ}
    (hu : ((Site.reached P es).world.db.users.find u).isSome) (now : Time) (text : Text)
    (replyId : Option Text) :
    let w := (Site.reached P es).world
    (KeepsLimit P now text u replyId w ↔
      typed text = [] ∨ (Fits w.db.users text ↔ (typed text).length ≤ 140)) ∧
    ((∀ v ∈ split text, isMarked w.db.users v = true → literal (v ++ ("</a>" : Text)) = true) →
      (KeepsLimit P now text u replyId w ↔
        typed text = [] ∨ 140 < (typed text).length ∨
          blank (typed text) = false ∧
            (typed text).length + overhead w.db.users text ≤ 140)) := by
  intro w
  obtain ⟨r, hr⟩ := Option.isSome_iff_exists.1 hu
  obtain rfl : r.id = u := (Table.mem_of_find hr).2
  have hfits := keepsLimit_iff_fits (orderly_reached P es).wf hr now text replyId
  refine ⟨hfits, fun hliteral => hfits.trans (or_congr_right ?_)⟩
  rw [fits_iff_of_literal hliteral]
  by_cases hlong : 140 < (typed text).length
  · simp only [hlong, true_or, iff_true]
    constructor
    · rintro ⟨-, h⟩
      omega
    · intro h
      omega
  · simp only [hlong, false_or, not_lt.1 hlong, iff_true]

/-- A tweet of seven one-letter tags by `ann` has 20 characters and is not stored. -/
theorem seven_tags_not_stored :
    let w := (Site.reached .ascii [.joins 0 0 "ann"]).world
    (typed "#a #b #c #d #e #f #g").length = 20 ∧
      (w.db.users.rows.map fun r => (r.id, r.attrs.userName)) = [(1, ("ann" : Text))] ∧
      (tweetsAfter .ascii 1 "#a #b #c #d #e #f #g" 1 none w).rows = [] ∧
      ¬ KeepsLimit .ascii 1 "#a #b #c #d #e #f #g" 1 none w := by
  have hrows : (tweetsAfter .ascii 1 "#a #b #c #d #e #f #g" 1 none
      (Site.reached .ascii [.joins 0 0 "ann"]).world).rows = [] := by decide +kernel
  refine ⟨by decide +kernel, by decide +kernel, hrows, fun h => ?_⟩
  obtain ⟨t, -, ht⟩ := h.1 (by decide +kernel)
  rw [ht, Table.rows_insert] at hrows
  exact absurd hrows (by simp)

/-- Of five such tags the text has 14 characters, 119 with the links, and the limit is kept. -/
theorem five_tags_stored :
    KeepsLimit .ascii 1 "#a #b #c #d #e" 1 none
      (Site.reached .ascii [.joins 0 0 "ann"]).world := by
  have hlimit := (keepsLimit_iff .ascii [.joins 0 0 "ann"] (u := 1) (by decide +kernel) 1
    "#a #b #c #d #e" none).2 (by decide +kernel)
  exact hlimit.2 (.inr (.inr ⟨by decide +kernel, by decide +kernel⟩))

end NanoTwitter
