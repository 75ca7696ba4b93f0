import Mathlib.Tactic
import NanoTwitter.Concurrent.FeedOrder
import NanoTwitter.Sequential.Replies
import NanoTwitter.Web.Orderly

/-!
# Where a stored tweet is filed

Tweets live twice, as rows of `tweets` and as texts in the feeds, and the column that would say
which rows are replies stays null. A `FilingLog` carries along which `reply_id` each row was
requested with. Nothing gets lost between rows and feeds: whatever requests are served, every row is
filed exactly once, on the profile of its author or among the replies to what it answers, profiles
have the newest row first and replies the oldest, and no feed has a text with the id of a tweet that
is not a row with that content (`tweets_filed_once`).

The texts without an id, of tweets that were refused, are left out; `Filed` is about the others.
-/

namespace NanoTwitter

open Ruby (Time)

/-- The text of a row in the feeds. -/
def rowJson (t : Row Tweet) : Text := (rowEntry t).toJson

/-- The texts of tweets that have an id. -/
def numbered (l : List Text) : List Text := l.filter fun v => (tweetId v).isSome

/-- The feeds and the rows agree, where `answered` tells which rows were made as replies, and to
what. -/
structure Filed (answered : ℕ → Option Text) (tweets : Table Tweet) (c : Cache) : Prop where
  profiles : ∀ i, numbered (c.feeds (.pfeed i)) =
    ((tweets.rows.filter fun t => t.attrs.authorId = i ∧ answered t.id = none).map
      rowJson).reverse
  replies : ∀ x, numbered (c.feeds (.replies x)) =
    (tweets.rows.filter fun t => answered t.id = some x).map rowJson
  stored : ∀ s, ∀ v ∈ numbered (c.feeds s), ∃ t ∈ tweets.rows, v = rowJson t

variable {answered : ℕ → Option Text} {tweets : Table Tweet} {c : Cache}

/-- The row that a call with `reply_id` has added to the tweets answers that. -/
def noted (answered : ℕ → Option Text) (replyId : Option Text) (before after : Table Tweet) :
    ℕ → Option Text :=
  if before.rows.length < after.rows.length then
    Function.update answered before.nextId replyId
  else answered

/-- The application, and which tweet each row was requested to answer. -/
structure FilingLog where
  site : Site
  answered : ℕ → Option Text

namespace FilingLog

def opened : FilingLog := ⟨Site.opened World.empty, fun _ => none⟩

/-- Serve a request, and note what it answers if it has added a row. -/
def step (P : Platform) (l : FilingLog) (e : Event) : FilingLog where
  site := serve P l.site e
  answered := noted l.answered (e.req.replyId P) l.site.world.db.tweets
    (serve P l.site e).world.db.tweets

/-- Every tweet of the stores is filed where it was requested to be. -/
def AllFiled (l : FilingLog) : Prop :=
  Filed l.answered l.site.world.db.tweets (view l.site.world.redis)

/-- The log is about the states that the application reaches. -/
theorem site_run (P : Platform) (es : List Event) :
    (Run.run (step P) opened es).site = Site.reached P es :=
  (List.foldl_hom site fun _ _ => rfl).symm

end FilingLog

/-! ### One call of `make_tweet` -/

theorem numbered_append (l l' : List Text) : numbered (l ++ l') = numbered l ++ numbered l' :=
  List.filter_append ..

theorem numbered_rowJson (t : Row Tweet) : numbered [rowJson t] = [rowJson t] := by
  simp [numbered, rowJson, rowEntry]

theorem numbered_unsaved {e : Entry} (h : e.id = none) : numbered [e.toJson] = [] := by
  simp [numbered, h]

theorem feeds_publishedCache_pfeed (v : Text) (a : ℕ) (r : Option Text) (p : Processed)
    (f : List ℕ) (c : Cache) (i : ℕ) :
    (publishedCache v a r p f c).feeds (.pfeed i) =
      (if a = i ∧ r = none then [v] else []) ++ c.feeds (.pfeed i) := by
  unfold publishedCache
  rw [Cache.feeds_pushAll, count_marks_eq_zero (by simp) (by simp), List.replicate_zero,
    List.nil_append]
  cases r with
  | none =>
    dsimp only
    rw [feeds_cacheTweet_of_ne (by simp), List.count_cons, List.count_eq_zero.2 (by simp)]
    by_cases hi : a = i <;> simp [hi]
  | some j =>
    dsimp only
    rw [Cache.feeds_append, if_neg (by simp)]
    simp

/-- Nothing with an id is added by a tweet that was refused. -/
theorem filed_refused (h : Filed answered tweets c) {e : Entry} (he : e.id = none) (a : ℕ)
    (r : Option Text) (p : Processed) (f : List ℕ) :
    Filed answered tweets (publishedCache e.toJson a r p f c) where
  profiles i := by
    rw [feeds_publishedCache_pfeed, numbered_append, h.profiles i]
    split_ifs
    · rw [numbered_unsaved he, List.nil_append]
    · rfl
  replies x := by
    rw [feeds_publishedCache_replies, numbered_append, h.replies x]
    split_ifs
    · rw [numbered_unsaved he, List.append_nil]
    · exact List.append_nil _
  stored s v hv := by
    obtain ⟨hmem, hid⟩ := List.mem_filter.1 hv
    rcases mem_publishedCache hmem with rfl | hold
    · rw [tweetId_toJson, he] at hid
      exact absurd hid Bool.false_ne_true
    · exact h.stored s v (List.mem_filter.2 ⟨hold, hid⟩)

/-- The rows that are already there are answered as before. -/
theorem filter_rows_update (i : Option Text) (p : ℕ → Option Text → Bool) :
    (tweets.rows.filter fun t => p t.attrs.authorId
      (Function.update answered tweets.nextId i t.id)) =
      tweets.rows.filter fun t => p t.attrs.authorId (answered t.id) := by
  refine List.filter_congr fun t ht => ?_
  rw [Function.update_of_ne (tweets.ids_lt t ht).ne]

/-- A stored tweet is filed once. -/
theorem filed_stored (h : Filed answered tweets c) (a : Tweet) (r : Option Text) (p : Processed)
    (f : List ℕ) :
    Filed (Function.update answered tweets.nextId r) (tweets.insert a)
      (publishedCache (rowJson ⟨tweets.nextId, a⟩) a.authorId r p f c) where
  profiles i := by
    rw [feeds_publishedCache_pfeed, numbered_append, h.profiles i, Table.rows_insert,
      List.filter_append, List.map_append, List.reverse_append,
      filter_rows_update r fun j x => decide (j = i ∧ x = none)]
    congr 1
    simp only [List.filter_singleton, Function.update_self]
    by_cases hi : a.authorId = i ∧ r = none
    · simp [hi, numbered_rowJson]
    · rw [if_neg hi, decide_eq_false hi]
      rfl
  replies x := by
    rw [feeds_publishedCache_replies, numbered_append, h.replies x, Table.rows_insert,
      List.filter_append, List.map_append,
      filter_rows_update r fun _ y => decide (y = some x)]
    congr 1
    simp only [List.filter_singleton, Function.update_self]
    by_cases hx : r = some x
    · simp [hx, numbered_rowJson]
    · rw [if_neg hx, decide_eq_false hx]
      rfl
  stored s v hv := by
    obtain ⟨hmem, hid⟩ := List.mem_filter.1 hv
    rw [Table.rows_insert]
    rcases mem_publishedCache hmem with rfl | hold
    · exact ⟨_, List.mem_append_right _ (List.mem_singleton.2 rfl), rfl⟩
    · obtain ⟨t, ht, hvt⟩ := h.stored s v (List.mem_filter.2 ⟨hold, hid⟩)
      exact ⟨t, List.mem_append_left _ ht, hvt⟩

theorem noted_of_length_eq {before after : Table Tweet}
    (h : after.rows.length = before.rows.length) (r : Option Text) :
    noted answered r before after = answered := by
  rw [noted, h, if_neg (lt_irrefl _)]

theorem noted_insert (r : Option Text) (a : Tweet) :
    noted answered r tweets (tweets.insert a) = Function.update answered tweets.nextId r := by
  rw [noted, if_pos]
  simp [Table.rows_insert]

theorem filed_published (h : Filed answered tweets c) (now : Time) (u : Row User)
    (r : Option Text) (p : Processed) (f : List ℕ) :
    Filed (noted answered r tweets (createdTweets now u p.text tweets))
      (createdTweets now u p.text tweets)
      (publishedCache (createdEntry now u p.text tweets).toJson u.id r p f c) := by
  by_cases hv : (Tweet.new now p.text u).valid true = true
  · rw [createdTweets_of_valid hv, createdEntry_of_valid hv, noted_insert]
    exact filed_stored h (Tweet.new now p.text u) r p f
  · rw [createdEntry_of_not_valid hv, createdTweets, if_neg hv, noted_of_length_eq rfl]
    exact filed_refused h rfl u.id r p f

/-! ### Requests -/

variable {P : Platform} {w : World}

/-- The texts of the feeds show no likes. -/
theorem Filed.update (h : Filed answered tweets c) (i : ℕ) (likes : ℤ) (now : Time) :
    Filed answered
      (tweets.update i fun a => { a with likes := likes, updatedAt := now }) c := by
  set liked : Row Tweet → Row Tweet := fun r =>
    if r.id = i then ⟨r.id, { r.attrs with likes := likes, updatedAt := now }⟩ else r with hliked
  have hrows : (tweets.update i fun a => { a with likes := likes, updatedAt := now }).rows =
      tweets.rows.map liked := rfl
  have hid : ∀ t, (liked t).id = t.id := fun t => by rw [hliked]; dsimp only; split_ifs <;> rfl
  have hauthor : ∀ t, (liked t).attrs.authorId = t.attrs.authorId := fun t => by
    rw [hliked]; dsimp only; split_ifs <;> rfl
  have hjson : ∀ t, rowJson (liked t) = rowJson t := fun t => by
    rw [hliked]; dsimp only; split_ifs <;> rfl
  refine ⟨fun j => ?_, fun x => ?_, fun s v hv => ?_⟩
  · rw [h.profiles j, hrows, List.filter_map, List.map_map]
    simp only [Function.comp_def, hid, hauthor, hjson]
  · rw [h.replies x, hrows, List.filter_map, List.map_map]
    simp only [Function.comp_def, hid, hjson]
  · obtain ⟨t, ht, hvt⟩ := h.stored s v hv
    exact ⟨liked t, hrows ▸ List.mem_map_of_mem ht, hvt.trans (hjson t).symm⟩

/-- **An operation files what it stores.** -/
theorem filed_step (hw : Sound P w) (h : Filed answered w.db.tweets (view w.redis)) (op : Op) :
    Filed (noted answered op.replyId w.db.tweets (step P w op).db.tweets)
      (step P w op).db.tweets (view (step P w op).redis) := by
  have heffect := (effect_step hw op).1
  generalize (step P w op).db = db' at heffect ⊢
  generalize view (step P w op).redis = c' at heffect ⊢
  cases heffect with
  | rejected | registered | followNobody | followed | unfollowNobody | unfollowed =>
    rw [noted_of_length_eq rfl]
    exact h
  | noAuthor | notProcessed =>
    rw [noted_of_length_eq rfl]
    exact h
  | published => exact filed_published h _ _ _ _ _

/-- A like adds no row, and changes no feed. -/
theorem filed_like (hw : WellTyped w.redis) (h : Filed answered w.db.tweets (view w.redis))
    (now : Time) (userId : Option ℕ) (tweetId r : Option Text) :
    let w' := (like now userId tweetId).exec w
    Filed (noted answered r w.db.tweets w'.db.tweets) w'.db.tweets (view w'.redis) := by
  dsimp only
  rcases exec_like_cases hw now userId tweetId with hsame | ⟨t, tweets, s, -, htweets, hv, hlike⟩
  · rw [hsame, noted_of_length_eq rfl]
    exact h
  · rw [hlike]
    have hfeeds : ∀ tweets, Filed answered tweets (view w.redis) →
        Filed answered tweets (view s) := by
      rw [hv]
      exact fun _ h => ⟨h.profiles, h.replies, h.stored⟩
    rcases htweets with rfl | rfl
    · rw [noted_of_length_eq rfl]
      exact hfeeds _ h
    · rw [noted_of_length_eq (List.length_map _)]
      exact hfeeds _ (h.update t.id _ now)

theorem filed_written (env : Env) (req : Request) {c : Ctx} (hc : Orderly P c.world)
    (h : Filed answered c.world.db.tweets (view c.world.redis)) :
    Filed (noted answered (req.replyId P) c.world.db.tweets (written P env req c).db.tweets)
      (written P env req c).db.tweets (view (written P env req c).redis) := by
  have hwrites := written_cases P env req c
  generalize written P env req c = w' at hwrites ⊢
  cases hwrites with
  | registration hroute =>
    have hreply : req.replyId P = none := by rw [Request.replyId, hroute]
    rw [hreply]
    exact filed_step hc.sound h (.register env.now env.salt (req.params.form P))
  | operation op hop hroute hreply =>
    rw [← hreply]
    exact filed_step hc.sound h op
  | liking => exact filed_like hc.tidy.wellTyped h env.now _ _ _
  | nothing =>
    rw [noted_of_length_eq rfl]
    exact h

theorem filed_empty : Filed (fun _ => none) Table.empty (view Store.empty) :=
  ⟨fun _ => rfl, fun _ => rfl, fun _ _ hv => absurd hv List.not_mem_nil⟩

/-- **Every stored tweet is filed exactly once.** In every state that the application reaches,
whoever sends which requests, the texts with an id on the profile of a user are those of the rows
with that author that were not requested as replies, newest first; the texts with an id among the
replies to `x` are those of the rows that were requested as replies to `x`, oldest first; and every
text with an id is the text of a row. -/
theorem tweets_filed_once (P : Platform) (es : List Event) :
    Run.Always (FilingLog.step P) FilingLog.AllFiled FilingLog.opened es ∧
      (Run.run (FilingLog.step P) FilingLog.opened es).site = Site.reached P es := by
  have hinv : Run.Always (FilingLog.step P) (fun l => Orderly P l.site.world ∧ l.AllFiled)
      FilingLog.opened es := by
    refine Run.always_of_inv (fun l e h => ?_) ⟨orderly_empty P, filed_empty⟩ es
    have hworld : (l.step P e).site.world = written P e.env e.req (l.site.ctx e.client) :=
      Site.world_serve e
    refine ⟨hworld ▸ orderly_written e.env e.req h.1, ?_⟩
    have hfiled := filed_written e.env e.req (c := l.site.ctx e.client) h.1 h.2
    rw [← hworld] at hfiled
    exact hfiled
  exact ⟨fun t ht => (hinv t ht).2, FilingLog.site_run P es⟩

end NanoTwitter
