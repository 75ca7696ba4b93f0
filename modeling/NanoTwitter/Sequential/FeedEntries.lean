import Mathlib.Tactic
import NanoTwitter.Sequential.Operations

/-!
# Feed entries and stored tweets

`EntriesStored w`: every entry of every feed is the JSON array of a row of `tweets`. The thread of
`make_tweet` goes on with counting and caching when `Tweet.create` has refused the tweet, so a run
keeps this, and keeps `tweet_count` from counting anything else than stored tweets, exactly when
every call that reaches `Tweet.create` passes its validations (`stored_run_iff`).

The number of calls that stored a row is not in the database; a `Ledger` carries it along.
-/

namespace NanoTwitter

open Ruby (Time)

/-- The array `[author_name, text, created_at, id]` of a stored tweet. -/
def rowEntry (t : Row Tweet) : Entry :=
  ⟨t.attrs.authorName, t.attrs.text, some t.attrs.createdAt, some t.id⟩

/-- Every entry of a feed stands for a row. -/
def EntriesStored (w : World) : Prop :=
  ∀ s : Slot, s.isFeed = true → ∀ v ∈ (view w.redis).feeds s,
    ∃ t ∈ w.db.tweets.rows, v = (rowEntry t).toJson

/-- The stores, and for every user the number of its calls (replies apart) that stored a row. -/
structure Ledger where
  world : World
  stored : ℕ → ℕ

namespace Ledger

/-- Nothing stored, nothing counted. -/
def empty : Ledger := ⟨World.empty, fun _ => 0⟩

/-- Run an operation and note whether it stored a tweet. -/
def step (P : Platform) (l : Ledger) (op : Op) : Ledger where
  world := NanoTwitter.step P l.world op
  stored := match op with
    | .makeTweet _ _ (some i) none =>
        if l.world.db.tweets.rows.length < (NanoTwitter.step P l.world op).db.tweets.rows.length
        then Function.update l.stored i (l.stored i + 1)
        else l.stored
    | _ => l.stored

/-- The feeds hold stored tweets only, and `tweet_count` counts only calls that stored one. -/
def Good (l : Ledger) : Prop :=
  EntriesStored l.world ∧ ∀ r ∈ l.world.db.users.rows, r.attrs.tweetCount ≤ l.stored r.id

end Ledger

/-- The steps after which all is still stored: a call whose author exists and whose text
`process_text` returns must pass the validations of `Tweet`. -/
def StoresTweet (l : Ledger) : Op → Prop
  | .makeTweet now text i _ => ∀ u p, i.bind l.world.db.users.find = some u →
      processText l.world.db.users text = .ok p → (Tweet.new now p.text u).valid true = true
  | _ => True

/-! ### What a call puts into the feeds -/

section Feeds

variable {v x : Text} {a : ℕ} {r : Option Text} {p : Processed} {f : List ℕ} {c : Cache}

/-- A call adds copies of its entry and nothing else. -/
theorem mem_publishedCache {j : Slot}
    (h : x ∈ (publishedCache v a r p f c).feeds j) : x = v ∨ x ∈ c.feeds j := by
  have hpushAll : ∀ (ss : List Slot) (c : Cache), x ∈ (c.pushAll ss v).feeds j →
      x = v ∨ x ∈ c.feeds j := by
    intro ss c hx
    rw [Cache.feeds_pushAll, List.mem_append, List.mem_replicate] at hx
    exact hx.imp_left And.right
  refine (hpushAll _ _ h).elim .inl fun hx => ?_
  cases r with
  | some i =>
    rw [Cache.feeds_append] at hx
    split_ifs at hx
    · exact (List.mem_append.1 hx).elim .inr fun hx => .inl (List.mem_singleton.1 hx)
    · exact .inr hx
  | none =>
    refine (hpushAll _ _ hx).elim .inl fun hx => ?_
    rw [Cache.feeds_push] at hx
    have hfront : x ∈ (c.pushFront v).feeds j → x = v ∨ x ∈ c.feeds j := by
      intro hy
      rw [Cache.feeds_pushFront] at hy
      split_ifs at hy with hj h50
      · subst hj
        exact (List.mem_cons.1 hy).imp_right List.mem_of_mem_dropLast
      · subst hj
        exact List.mem_cons.1 hy
      · exact .inr hy
    split_ifs at hx
    · exact (List.mem_cons.1 hx).elim .inl hfront
    · exact hfront hx

/-- A call puts its entry into some feed. -/
theorem exists_mem_publishedCache :
    ∃ j : Slot, j.isFeed = true ∧ v ∈ (publishedCache v a r p f c).feeds j := by
  have hpushAll : ∀ (ss : List Slot) (c : Cache) (j : Slot), v ∈ c.feeds j →
      v ∈ (c.pushAll ss v).feeds j := by
    intro ss c j hv
    rw [Cache.feeds_pushAll]
    exact List.mem_append_right _ hv
  cases r with
  | some i =>
    refine ⟨.replies i, rfl, hpushAll _ _ _ ?_⟩
    rw [Cache.feeds_append, if_pos rfl]
    exact List.mem_append_right _ (List.mem_singleton.2 rfl)
  | none =>
    refine ⟨.pfeed a, rfl, hpushAll _ _ _ (hpushAll _ _ _ ?_)⟩
    rw [Cache.feeds_push, if_pos rfl]
    exact List.mem_cons_self

end Feeds

/-- An array without time and id is not the array of a row. -/
theorem toJson_unsaved_ne (name text : Text) (t : Row Tweet) :
    (⟨name, text, none, none⟩ : Entry).toJson ≠ (rowEntry t).toJson := by
  intro h
  have hjson : (⟨name, text, none, none⟩ : Entry).json = (rowEntry t).json :=
    Json.render_injective h
  simp [Entry.json, rowEntry] at hjson

/-! ### One operation -/

section Step

variable {P : Platform} {l : Ledger}

/-- What holds besides: `tweet_count` is the number of calls that stored a tweet. -/
structure Ledger.Inv (P : Platform) (l : Ledger) : Prop where
  sound : Sound P l.world
  counted : ∀ i, count .tweets l.world.db.users i = l.stored i

theorem Ledger.Inv.le (h : l.Inv P) : ∀ r ∈ l.world.db.users.rows,
    r.attrs.tweetCount ≤ l.stored r.id := by
  intro r hr
  rw [← h.counted r.id, count_of_find (Table.find_of_mem hr)]
  exact le_refl _

@[simp] theorem Ledger.world_step (op : Op) : (l.step P op).world = NanoTwitter.step P l.world op :=
  rfl

theorem stored_step_reply (now : Time) (text : Option Text) (i : Option ℕ) (j : Text) :
    (l.step P (.makeTweet now text i (some j))).stored = l.stored := by
  cases i <;> rfl

theorem stored_step_tweet {now : Time} {text : Option Text} {i : ℕ}
    (h : l.world.db.tweets.rows.length <
      (step P l.world (.makeTweet now text (some i) none)).db.tweets.rows.length) :
    (l.step P (.makeTweet now text (some i) none)).stored =
      Function.update l.stored i (l.stored i + 1) := if_pos h

/-- An operation that leaves the tweets alone leaves the ledger's numbers alone. -/
theorem stored_step_of_tweets {op : Op}
    (h : (step P l.world op).db.tweets = l.world.db.tweets) :
    (l.step P op).stored = l.stored := by
  unfold Ledger.step
  dsimp only
  split
  · rw [h, if_neg (lt_irrefl _)]
  · rfl

/-- An operation that leaves tweets, feeds and tweet counters alone. -/
theorem quiet_step {op : Op} (h : l.Inv P) (hg : EntriesStored l.world)
    (htweets : (step P l.world op).db.tweets = l.world.db.tweets)
    (hview : view (step P l.world op).redis = view l.world.redis)
    (hcount : ∀ i, count .tweets (step P l.world op).db.users i =
      count .tweets l.world.db.users i) :
    (l.step P op).Inv P ∧ (l.step P op).Good := by
  have hinv : (l.step P op).Inv P := by
    refine ⟨(effect_step h.sound op).2, fun i => ?_⟩
    rw [stored_step_of_tweets htweets, ← h.counted i]
    exact hcount i
  refine ⟨hinv, fun s hs v hv => ?_, hinv.le⟩
  have hv' : v ∈ (view l.world.redis).feeds s := by
    rw [← hview]; exact hv
  obtain ⟨t, ht, hvt⟩ := hg s hs v hv'
  exact ⟨t, by rw [Ledger.world_step, htweets]; exact ht, hvt⟩

theorem createdTweets_of_valid {now : Time} {u : Row User} {text : Text} {tweets : Table Tweet}
    (hv : (Tweet.new now text u).valid true = true) :
    createdTweets now u text tweets = tweets.insert (Tweet.new now text u) := if_pos hv

theorem createdEntry_of_valid {now : Time} {u : Row User} {text : Text} {tweets : Table Tweet}
    (hv : (Tweet.new now text u).valid true = true) :
    createdEntry now u text tweets = rowEntry ⟨tweets.nextId, Tweet.new now text u⟩ := if_pos hv

theorem createdEntry_of_not_valid {now : Time} {u : Row User} {text : Text}
    {tweets : Table Tweet} (hv : ¬ (Tweet.new now text u).valid true = true) :
    createdEntry now u text tweets = ⟨u.attrs.userName, text, none, none⟩ := if_neg hv

/-- The array of a stored tweet stands for its row. -/
theorem entriesStored_published {w w' : World} {now : Time} {u : Row User}
    {replyId : Option Text} {p : Processed} (hg : EntriesStored w)
    (htweets : w'.db.tweets = w.db.tweets.insert (Tweet.new now p.text u))
    (hc : view w'.redis = publishedCache (createdEntry now u p.text w.db.tweets).toJson u.id replyId
      p (Follow.followersOf w.db u.id) (view w.redis))
    (hv : (Tweet.new now p.text u).valid true = true) : EntriesStored w' := by
  intro s hs x hx
  rw [hc] at hx
  rw [htweets]
  rcases mem_publishedCache hx with rfl | hx
  · exact ⟨_, List.mem_append_right _ (List.mem_singleton.2 rfl), by rw [createdEntry_of_valid hv]⟩
  · obtain ⟨t, ht, hxt⟩ := hg s hs x hx
    exact ⟨t, List.mem_append_left _ ht, hxt⟩

/-- The array of a refused tweet stands for no row, and some feed has it. -/
theorem not_entriesStored_published {w w' : World} {now : Time} {u : Row User}
    {replyId : Option Text} {p : Processed}
    (hc : view w'.redis = publishedCache (createdEntry now u p.text w.db.tweets).toJson u.id replyId
      p (Follow.followersOf w.db u.id) (view w.redis))
    (hv : ¬ (Tweet.new now p.text u).valid true = true) : ¬ EntriesStored w' := by
  intro hgood
  obtain ⟨j, hj, hmem⟩ := exists_mem_publishedCache
    (v := (createdEntry now u p.text w.db.tweets).toJson) (a := u.id) (r := replyId) (p := p)
    (f := Follow.followersOf w.db u.id) (c := view w.redis)
  rw [← hc] at hmem
  obtain ⟨t, -, ht⟩ := hgood j hj _ hmem
  rw [createdEntry_of_not_valid hv] at ht
  exact toJson_unsaved_ne _ _ _ ht

/-- A stored tweet is counted once, a reply is not counted. -/
theorem inv_published {now : Time} {text replyId : Option Text} {u : Row User} {p : Processed}
    (h : l.Inv P) (hfu : l.world.db.users.find u.id = some u)
    (hdb : (step P l.world (.makeTweet now text (some u.id) replyId)).db =
      publishedDb now u replyId p l.world.db)
    (hv : (Tweet.new now p.text u).valid true = true) :
    (l.step P (.makeTweet now text (some u.id) replyId)).Inv P := by
  refine ⟨(effect_step h.sound (.makeTweet now text (some u.id) replyId)).2, fun i => ?_⟩
  cases replyId with
  | some j => rw [Ledger.world_step, hdb, stored_step_reply]; exact h.counted i
  | none =>
    have hlonger : l.world.db.tweets.rows.length <
        (step P l.world (.makeTweet now text (some u.id) none)).db.tweets.rows.length := by
      rw [hdb, publishedDb, createdTweets_of_valid hv]
      simp
    have hbump : count .tweets (bump now .tweets 1 u.id l.world.db.users) i =
        count .tweets l.world.db.users i + if i = u.id then 1 else 0 := by
      by_cases hi : i = u.id
      · rw [hi, count_bump (by rw [hfu]; rfl)]; simp
      · rw [count_bump_of_ne (.inr hi), if_neg hi, add_zero]
    rw [Ledger.world_step, hdb, stored_step_tweet hlonger, Function.update_apply]
    refine hbump.trans ?_
    rw [h.counted i]
    split_ifs with hi
    · rw [hi]; push_cast; rfl
    · simp

/-- **One operation keeps feeds and counters to stored tweets exactly under `StoresTweet`.** -/
theorem good_step_iff (h : l.Inv P) (hg : EntriesStored l.world) (op : Op) :
    ((l.step P op).Good ↔ StoresTweet l op) ∧ (StoresTweet l op → (l.step P op).Inv P) := by
  have hquiet : StoresTweet l op → (l.step P op).Inv P ∧ (l.step P op).Good →
      ((l.step P op).Good ↔ StoresTweet l op) ∧ (StoresTweet l op → (l.step P op).Inv P) :=
    fun hs hq => ⟨iff_of_true hq.2 hs, fun _ => hq.1⟩
  have heffect := (effect_step h.sound op).1
  generalize hdb : (step P l.world op).db = db', hc : view (step P l.world op).redis = c'
    at heffect
  cases heffect with
  | rejected => exact hquiet trivial (quiet_step h hg (by rw [hdb]) hc fun i => by rw [hdb])
  | registered hu hv =>
    refine hquiet trivial (quiet_step h hg (by rw [hdb]) hc fun i => ?_)
    rw [hdb]
    exact count_insert (counters_new hu .tweets) _ i
  | followNobody _ => exact hquiet trivial (quiet_step h hg (by rw [hdb]) hc fun i => by rw [hdb])
  | followed hu hv =>
    refine hquiet trivial (quiet_step h hg (by rw [hdb]) hc fun i => ?_)
    rw [hdb]
    exact (count_bump_of_ne (.inl (by decide)) _ _ _).trans
      (count_bump_of_ne (.inl (by decide)) _ _ _)
  | unfollowNobody _ =>
    exact hquiet trivial (quiet_step h hg (by rw [hdb]) hc fun i => by rw [hdb])
  | unfollowed hu hv =>
    refine hquiet trivial (quiet_step h hg (by rw [hdb]) hc fun i => ?_)
    rw [hdb]
    exact (count_lower_of_ne (by decide) _ _ _ i).trans (count_lower_of_ne (by decide) _ _ _ i)
  | noAuthor hu =>
    refine hquiet (fun u p hu' _ => ?_) (quiet_step h hg (by rw [hdb]) hc fun i => by rw [hdb])
    rw [hu] at hu'
    exact absurd hu' (by simp)
  | notProcessed hu hp =>
    refine hquiet (fun u p _ hp' => ?_) (quiet_step h hg (by rw [hdb]) hc fun i => by rw [hdb])
    rw [hp] at hp'
    exact absurd hp' (by simp)
  | @published now text i replyId u p hu hp =>
    obtain ⟨rfl, hfu⟩ := eq_some_of_bind hu
    have hiff : StoresTweet l (.makeTweet now text (some u.id) replyId) ↔
        (Tweet.new now p.text u).valid true = true := by
      refine ⟨fun hs => hs u p hu hp, fun hv u' p' hu' hp' => ?_⟩
      obtain rfl := Option.some.inj (hu.symm.trans hu')
      obtain rfl := Except.ok.inj (hp.symm.trans hp')
      exact hv
    rw [hiff]
    by_cases hv : (Tweet.new now p.text u).valid true = true
    · have hinv := inv_published h hfu hdb hv
      have htweets : (step P l.world (.makeTweet now text (some u.id) replyId)).db.tweets =
          l.world.db.tweets.insert (Tweet.new now p.text u) := by
        rw [hdb]; exact createdTweets_of_valid hv
      exact ⟨iff_of_true ⟨entriesStored_published hg htweets hc hv, hinv.le⟩ hv, fun _ => hinv⟩
    · -- nothing was stored, and the call was cached all the same
      exact ⟨iff_of_false (fun hgood => not_entriesStored_published hc hv hgood.1) hv,
        fun hv' => absurd hv' hv⟩

end Step

/-! ### Whole runs -/

/-- **Feeds and tweet counters are kept to stored tweets throughout a run of operations from the
empty state exactly when every call that reaches `Tweet.create` passes its validations.** -/
theorem stored_run_iff (P : Platform) (ops : List Op) :
    Run.Always (Ledger.step P) Ledger.Good Ledger.empty ops ↔
      Run.EachStep (Ledger.step P) StoresTweet Ledger.empty ops :=
  Run.always_iff_eachStep
    (fun l op (h : l.Inv P) (hg : l.Good) hs => (good_step_iff h hg.1 op).2 hs)
    (fun _ op h hg => (good_step_iff h hg.1 op).1) ⟨sound_empty P, fun _ => rfl⟩
    ⟨fun _ _ _ hv => absurd hv List.not_mem_nil, fun _ hr => absurd hr List.not_mem_nil⟩ ops

/-- A user registers and sends an empty form. -/
def blankTweet : List Op :=
  [.register 0 0 (.of "ann" "ann@x.org"), .makeTweet 1 (some []) (some 1) none]

/-- The empty tweet is refused by the table, but counted and shown on the front page. -/
theorem blank_tweet_published :
    let l := Run.run (Ledger.step .ascii) Ledger.empty blankTweet
    l.world.db.tweets.rows = [] ∧
      (view l.world.redis).feeds .ffeed = [("[\"ann\",\"\",null,null]" : Text)] ∧
      count .tweets l.world.db.users 1 = 1 ∧ l.stored 1 = 0 ∧ ¬ l.Good := by
  have hrows :
      (Run.run (Ledger.step .ascii) Ledger.empty blankTweet).world.db.tweets.rows = [] := by
    decide +kernel
  have hfeed : (view (Run.run (Ledger.step .ascii) Ledger.empty blankTweet).world.redis).feeds
      .ffeed = [("[\"ann\",\"\",null,null]" : Text)] := by
    decide +kernel
  refine ⟨hrows, hfeed, by decide +kernel, by decide +kernel, fun hgood => ?_⟩
  obtain ⟨t, ht, -⟩ := hgood.1 .ffeed rfl _ (by rw [hfeed]; exact List.mem_singleton.2 rfl)
  rw [hrows] at ht
  exact absurd ht List.not_mem_nil

end NanoTwitter
