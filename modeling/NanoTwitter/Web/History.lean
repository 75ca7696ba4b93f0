import Mathlib.Tactic
import NanoTwitter.Concurrent.Serializable
import NanoTwitter.Web.Filing
import NanoTwitter.Web.Names

/-!
# Nothing is forgotten

The application deletes rows of `follows` and the oldest entries of the front page, and nothing
else: whatever requests are answered, users stay with their names and hashes, tweets stay with their
texts, authors and times, their likes do not fall and their likers stay, profiles, home feeds and
tag feeds only grow at their front, and lists of replies only grow at their end
(`nothing_forgotten`).
-/

namespace NanoTwitter

open Ruby (Time)

/-- What of a tweet cannot change. -/
def lasting (t : Row Tweet) : ℕ × Text × ℕ × Text × Time :=
  (t.id, t.attrs.text, t.attrs.authorId, t.attrs.authorName, t.attrs.createdAt)

/-- What is stored in `w` is still stored in `w'`. -/
structure Remembers (w w' : World) : Prop where
  users : UsersStay w.db.users w'.db.users
  tweets : w.db.tweets.rows.map lasting <+: w'.db.tweets.rows.map lasting
  likes : ∀ t ∈ w.db.tweets.rows, ∃ t' ∈ w'.db.tweets.rows,
    t'.id = t.id ∧ t.attrs.likes ≤ t'.attrs.likes
  likers : ∀ i, (view w.redis).likers i ⊆ (view w'.redis).likers i
  feeds : ∀ s : Slot, s.newestFirst = true → s ≠ .ffeed →
    (view w.redis).feeds s <:+ (view w'.redis).feeds s
  replies : ∀ x, (view w.redis).feeds (.replies x) <+: (view w'.redis).feeds (.replies x)

theorem Remembers.refl (w : World) : Remembers w w :=
  ⟨.refl _, List.prefix_rfl, fun t ht => ⟨t, ht, rfl, le_refl _⟩, fun _ => subset_rfl,
    fun _ _ _ => List.suffix_rfl, fun _ => List.prefix_rfl⟩

theorem Remembers.trans {w w' w'' : World} (h : Remembers w w') (h' : Remembers w' w'') :
    Remembers w w'' where
  users := h.users.trans h'.users
  tweets := h.tweets.trans h'.tweets
  likes t ht := by
    obtain ⟨t', ht', hid, hle⟩ := h.likes t ht
    obtain ⟨t'', ht'', hid', hle'⟩ := h'.likes t' ht'
    exact ⟨t'', ht'', hid'.trans hid, hle.trans hle'⟩
  likers i := (h.likers i).trans (h'.likers i)
  feeds s hs hne := (h.feeds s hs hne).trans (h'.feeds s hs hne)
  replies x := (h.replies x).trans (h'.replies x)

variable {P : Platform} {w : World}

/-! ### One request -/

/-- A call of `make_tweet` grows the lists at their fronts. -/
theorem suffix_feeds_publishedCache {s : Slot} (hs : s.newestFirst = true) (hne : s ≠ .ffeed)
    (v : Text) (a : ℕ) (r : Option Text) (p : Processed) (f : List ℕ) (c : Cache) :
    c.feeds s <:+ (publishedCache v a r p f c).feeds s := by
  unfold publishedCache
  rw [Cache.feeds_pushAll]
  refine List.IsSuffix.trans ?_ (List.suffix_append _ _)
  cases r with
  | none =>
    dsimp only
    rw [feeds_cacheTweet_of_ne hne]
    exact List.suffix_append _ _
  | some i =>
    have hreply : s ≠ .replies i := by
      rintro rfl
      exact Bool.noConfusion hs
    dsimp only
    rw [Cache.feeds_append, if_neg hreply]

theorem rows_createdTweets (now : Time) (u : Row User) (text : Text) (tweets : Table Tweet) :
    tweets.rows <+: (createdTweets now u text tweets).rows := by
  unfold createdTweets
  split_ifs
  · rw [Table.rows_insert]
    exact List.prefix_append _ _
  · exact List.prefix_rfl

/-- Rows that stay as they are. -/
theorem likes_of_prefix {rows rows' : List (Row Tweet)} (h : rows <+: rows') :
    ∀ t ∈ rows, ∃ t' ∈ rows', t'.id = t.id ∧ t.attrs.likes ≤ t'.attrs.likes :=
  fun t ht => ⟨t, h.subset ht, rfl, le_refl _⟩

/-- What operations do to tweets and cache. -/
theorem remembers_step (hw : Sound P w) (op : Op)
    (husers : UsersStay w.db.users (step P w op).db.users) : Remembers w (step P w op) := by
  have heffect := (effect_step hw op).1
  suffices h : w.db.tweets.rows <+: (step P w op).db.tweets.rows ∧
      (view (step P w op).redis).likers = (view w.redis).likers ∧
      (∀ s : Slot, s.newestFirst = true → s ≠ .ffeed →
        (view w.redis).feeds s <:+ (view (step P w op).redis).feeds s) ∧
      ∀ x, (view w.redis).feeds (.replies x) <+: (view (step P w op).redis).feeds (.replies x) by
    exact ⟨husers, h.1.map lasting, likes_of_prefix h.1, fun i => by rw [h.2.1], h.2.2.1, h.2.2.2⟩
  generalize (step P w op).db = db' at heffect ⊢
  generalize view (step P w op).redis = c' at heffect ⊢
  cases heffect with
  | rejected | registered | followNobody | followed | unfollowNobody | unfollowed | noAuthor
  | notProcessed =>
    exact ⟨List.prefix_rfl, rfl, fun _ _ _ => List.suffix_rfl, fun _ => List.prefix_rfl⟩
  | published =>
    refine ⟨rows_createdTweets _ _ _ _, likers_publishedCache .., fun s hs hne =>
      suffix_feeds_publishedCache hs hne .., fun x => ?_⟩
    rw [feeds_publishedCache_replies]
    exact List.prefix_append _ _

/-- One more like for `t`. -/
theorem likes_update {tweets : Table Tweet} {t : Row Tweet} (ht : tweets.find t.id = some t)
    (now : Time) :
    tweets.rows.map lasting = (tweets.update t.id fun r =>
        { r with likes := t.attrs.likes + 1, updatedAt := now }).rows.map lasting ∧
      ∀ x ∈ tweets.rows, ∃ x' ∈ (tweets.update t.id fun r =>
        { r with likes := t.attrs.likes + 1, updatedAt := now }).rows,
        x'.id = x.id ∧ x.attrs.likes ≤ x'.attrs.likes := by
  constructor
  · show _ = (tweets.rows.map _).map lasting
    rw [List.map_map]
    refine List.map_congr_left fun x _ => ?_
    dsimp only [Function.comp_apply]
    split_ifs <;> rfl
  · intro x hx
    refine ⟨_, List.mem_map_of_mem hx, ?_⟩
    split_ifs with hid
    · -- the row of that id is the one that was found
      obtain rfl := Table.eq_of_id_eq hx (Table.mem_of_find ht).1 hid
      exact ⟨rfl, by dsimp only; omega⟩
    · exact ⟨rfl, le_refl _⟩

/-- A like changes the likes of one row, to one more. -/
theorem remembers_like (hw : WellTyped w.redis) (now : Time) (userId : Option ℕ)
    (tweetId : Option Text) : Remembers w ((like now userId tweetId).exec w) := by
  rcases exec_like_cases hw now userId tweetId with hsame | ⟨t, tweets, r, ht, htweets, hv, hlike⟩
  · rw [hsame]
    exact .refl w
  · rw [hlike]
    have hlikers : ∀ i, (view w.redis).likers i ⊆ (view r).likers i := by
      intro i
      rw [hv, Cache.likers_like]
      split_ifs with hi
      · rw [hi]
        exact Finset.subset_insert _ _
      · exact subset_rfl
    have hfeeds : (view w.redis).feeds = (view r).feeds := by rw [hv]; rfl
    have hrows : w.db.tweets.rows.map lasting = tweets.rows.map lasting ∧
        ∀ x ∈ w.db.tweets.rows, ∃ x' ∈ tweets.rows,
          x'.id = x.id ∧ x.attrs.likes ≤ x'.attrs.likes := by
      rcases htweets with rfl | rfl
      · exact ⟨rfl, likes_of_prefix List.prefix_rfl⟩
      · exact likes_update ht now
    exact ⟨.refl _, hrows.1 ▸ List.prefix_rfl, hrows.2, hlikers,
      fun s _ _ => hfeeds ▸ List.suffix_rfl, fun x => hfeeds ▸ List.prefix_rfl⟩

theorem remembers_written (env : Env) (req : Request) {c : Ctx} (hc : Orderly P c.world) :
    Remembers c.world (written P env req c) := by
  have husers := usersStay_written env req hc
  have hwrites := written_cases P env req c
  generalize written P env req c = w' at hwrites husers
  cases hwrites with
  | registration | operation => exact remembers_step hc.sound _ husers
  | liking => exact remembers_like hc.tidy.wellTyped env.now _ _
  | nothing => exact .refl _

theorem remembers_serve {s : Site} (h : Orderly P s.world) (e : Event) :
    Remembers s.world (serve P s e).world := by
  rw [Site.world_serve]
  exact remembers_written (c := s.ctx e.client) e.env e.req h

theorem remembers_run {s : Site} (h : Orderly P s.world) (es : List Event) :
    Remembers s.world (Run.run (serve P) s es).world := by
  refine Run.rel_run (R := fun s s' : Site => Remembers s.world s'.world)
    (I := fun s => Orderly P s.world) (fun _ => .refl _) (fun _ _ _ => .trans) (fun s e h => ?_)
    h es
  refine ⟨remembers_serve h e, ?_⟩
  rw [Site.world_serve]
  exact orderly_written (c := s.ctx e.client) e.env e.req h

/-- **Nothing is forgotten.** What the application has stored at some time is stored at every later
time, whoever sends which requests in between. -/
theorem nothing_forgotten (P : Platform) (es later : List Event) :
    Remembers (Site.reached P es).world (Site.reached P (es ++ later)).world := by
  have hrun : Site.reached P (es ++ later) = Run.run (serve P) (Site.reached P es) later :=
    Run.run_append _ es later
  rw [hrun]
  exact remembers_run (orderly_reached P es) later

end NanoTwitter
