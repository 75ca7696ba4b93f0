import Mathlib.Tactic
import NanoTwitter.Web.Site

/-!
# Nobody acts in another's name

`Authentic`: whatever a request creates (a tweet by `a`, a follow by `a`, a like of `a`) is created
while its client is logged in as the existing user `a`. The routes of `app.rb` take the user from
the session. Two routes ask for no login:

* `POST /api/v1/users/:user_name/new-tweet` tweets in the name of the user in its path;
* `POST /tweet/like` files the like of a client without a user under the empty text.

`authentic_run_iff`: a run of requests, from any state of the stores and with any number of clients,
is authentic exactly when these two routes are only called with `OwnName`. `forged_tweet` is a run
in which they are not.
-/

namespace NanoTwitter

open Ruby (Time decimal)

variable {P : Platform}

/-- The client is logged in, by history and by session, as the existing user `a`. -/
structure Site.ActsAs (s : Site) (client a : ℕ) : Prop where
  loggedIn : s.loggedIn client = some a
  session : (s.sessions client).userId = some a
  exists_user : (s.world.db.users.find a).isSome

/-- What the request `e` creates is created in the name of the user its client is logged in as. -/
structure Authentic (P : Platform) (s : Site) (e : Event) : Prop where
  tweets : ∀ t ∈ (serve P s e).world.db.tweets.rows, s.world.db.tweets.find t.id = none →
    (serve P s e).ActsAs e.client t.attrs.authorId
  follows : ∀ f ∈ (serve P s e).world.db.follows.rows, s.world.db.follows.find f.id = none →
    (serve P s e).ActsAs e.client f.attrs.followerId
  likes : ∀ i m, m ∈ (view (serve P s e).world.redis).likers i →
    m ∉ (view s.world.redis).likers i → ∃ a, m = decimal a ∧ (serve P s e).ActsAs e.client a

/-- The API's tweets are by the user the client is logged in as, unless nothing is stored; a like
that is new comes from a client that is logged in. -/
def OwnName (s : Site) (e : Event) : Prop :=
  match e.req.route with
  | .postApiNewTweet => ∀ u p, User.findByUserName s.world.db e.req.params.userName = some u →
      processText s.world.db.users (textOf e.req.params.text) = .ok p →
      (Tweet.new e.env.now p.text u).valid true = true → s.loggedIn e.client = some u.id
  | .postTweetLike => ∀ i, NewLiker s.world none (textOf e.req.params.tweetId) i →
      s.loggedIn e.client ≠ none
  | _ => True

/-! ### What is created, and in whose name -/

/-- All that is new in `w'` is by `i`. -/
structure InName (i : Option ℕ) (w w' : World) : Prop where
  tweets : ∀ t ∈ w'.db.tweets.rows, w.db.tweets.find t.id = none → i = some t.attrs.authorId
  follows : ∀ f ∈ w'.db.follows.rows, w.db.follows.find f.id = none → i = some f.attrs.followerId
  likes : ∀ j m, m ∈ (view w'.redis).likers j → m ∉ (view w.redis).likers j →
    ∃ a, i = some a ∧ m = decimal a

/-- Calm steps create nothing. -/
theorem inName_calm_iff {i : Option ℕ} {w w₁ w' : World} (h : Calm w₁ w') :
    InName i w w' ↔ InName i w w₁ := by
  constructor
  · rintro ⟨ht, hf, hl⟩
    rw [h.tweets] at ht
    rw [h.follows] at hf
    rw [h.likers] at hl
    exact ⟨ht, hf, hl⟩
  · rintro ⟨ht, hf, hl⟩
    rw [← h.tweets] at ht
    rw [← h.follows] at hf
    rw [← h.likers] at hl
    exact ⟨ht, hf, hl⟩

/-- Nothing new is in everybody's name. -/
theorem inName_refl (i : Option ℕ) (w : World) : InName i w w where
  tweets _ ht hnew := absurd hnew (Table.find_ne_none ht)
  follows _ hf hnew := absurd hnew (Table.find_ne_none hf)
  likes _ _ hm hnew := absurd hm hnew

/-- Only the user that `make_tweet` was given can claim what it creates. -/
theorem inName_makeTweet {now : Time} {text : Option Text} {id replyId} {i : Option ℕ} {w : World} :
    InName i w ((makeTweet P now text id replyId).exec w) ↔
      ∀ u p, id.bind w.db.users.find = some u → processText w.db.users text = .ok p →
        (Tweet.new now p.text u).valid true = true → i = some u.id := by
  rw [inName_calm_iff (calm_makeTweet (P := P) now text id replyId w)]
  constructor
  · intro h u p hu hp hvalid
    have htweeted : tweeted now text id w.db = w.db.tweets.insert (Tweet.new now p.text u) := by
      simp only [tweeted, hu, hp, createdTweets, if_pos hvalid]
    refine h.tweets ⟨w.db.tweets.nextId, Tweet.new now p.text u⟩ ?_ Table.find_nextId
    rw [World.tweets_setTweets, htweeted]
    simp
  · intro h
    refine ⟨fun t ht hnew => ?_, (inName_refl i w).follows, (inName_refl i w).likes⟩
    rw [World.tweets_setTweets] at ht
    rcases tweeted_cases now text id w.db with ⟨u, p, hu, hp, hvalid, hinsert⟩ | ⟨-, hsame⟩
    · rw [hinsert, Table.rows_insert, List.mem_append, List.mem_singleton] at ht
      rcases ht with ht | rfl
      · exact absurd hnew (Table.find_ne_none ht)
      · exact h u p hu hp hvalid
    · rw [hsame] at ht
      exact absurd hnew (Table.find_ne_none ht)

/-- The user of the given id can. -/
theorem inName_makeTweet_self (now : Time) (text : Option Text) (id : Option ℕ)
    (replyId : Option Text) (w : World) :
    InName id w ((makeTweet P now text id replyId).exec w) :=
  inName_makeTweet.2 fun _ _ hu _ _ => (eq_some_of_bind hu).1

/-- New follows by `i` are in the name of `i`. -/
theorem inName_setFollows {i : Option ℕ} {w : World} {t : Table Follow}
    (ht : ∀ f ∈ t.rows, f ∈ w.db.follows.rows ∨ i = some f.attrs.followerId) :
    InName i w (w.setFollows t) where
  tweets := (inName_refl i w).tweets
  follows f hf hnew := (ht f hf).resolve_left fun hold => Table.find_ne_none hold hnew
  likes := (inName_refl i w).likes

theorem inName_follow (now : Time) (userId : Option ℕ) (userName : Option Param) (w : World) :
    InName userId w ((follow P now userId userName).exec w) := by
  obtain ⟨t, ht, hq⟩ := calm_follow (P := P) now userId userName w
  exact (inName_calm_iff hq).2 (inName_setFollows ht)

theorem inName_unfollow (now : Time) (userId : Option ℕ) (userName : Option Param) (w : World) :
    InName userId w ((unfollow P now userId userName).exec w) := by
  obtain ⟨t, ht, hq⟩ := calm_unfollow (P := P) now userId userName w
  exact (inName_calm_iff hq).2 (inName_setFollows fun f hf => .inl (ht f hf))

/-- A like is in the user's name, if there is a user. -/
theorem inName_like {now : Time} {userId : Option ℕ} {tweetId : Option Text} {w : World} :
    InName userId w ((like now userId tweetId).exec w) ↔
      ∀ i, NewLiker w none tweetId i → userId ≠ none := by
  obtain ⟨hids, hfollows, -⟩ := sameRows_like now userId tweetId w
  constructor
  · rintro h i ⟨t, hfind, rfl, hnot⟩ rfl
    have hnew : [] ∉ (view w.redis).likers t.id := by
      obtain ⟨m, hset, hm⟩ := Option.map_eq_some_iff.1 hnot
      simp only [view, hset, Option.getD_some]
      exact of_decide_eq_false hm
    obtain ⟨a, ha, -⟩ := h.likes t.id [] ((mem_likers_like now none tweetId w t.id []).2
      (.inr ⟨rfl, t, hfind, rfl, hnot⟩)) hnew
    exact absurd ha (by simp)
  · intro h
    refine ⟨fun t ht hnew => ?_, fun f hf hnew => ?_, fun j m hm hnew => ?_⟩
    · have hsome := hids t.id
      rw [Table.find_of_mem ht, hnew] at hsome
      exact Bool.noConfusion hsome
    · rw [hfollows] at hf
      exact absurd hnew (Table.find_ne_none hf)
    · obtain ⟨rfl, hliker⟩ := ((mem_likers_like now userId tweetId w j m).1 hm).resolve_left hnew
      cases userId with
      | none => exact absurd rfl (h j hliker)
      | some a => exact ⟨a, rfl, rfl⟩

/-! ### Requests -/

/-- On a consistent site, to act as `a` is to be logged in as `a`. -/
theorem actsAs_serve_iff {s : Site} (h : s.Consistent) (e : Event) (a : ℕ) :
    (serve P s e).ActsAs e.client a ↔ s.loginAfter P e = some a := by
  have hc := Site.consistent_serve (P := P) h e
  constructor
  · intro ha
    rw [← Site.loggedIn_serve]
    exact ha.loggedIn
  · intro ha
    rw [← Site.loggedIn_serve] at ha
    exact ⟨ha, (hc.session e.client).trans ha, hc.exists_user e.client a ha⟩

theorem authentic_iff_inName {s : Site} (h : s.Consistent) (e : Event) :
    Authentic P s e ↔ InName (s.loginAfter P e) s.world (serve P s e).world := by
  have hacts := actsAs_serve_iff (P := P) h e
  constructor
  · rintro ⟨ht, hf, hl⟩
    refine ⟨fun t h1 h2 => (hacts _).1 (ht t h1 h2), fun f h1 h2 => (hacts _).1 (hf f h1 h2),
      fun i m h1 h2 => ?_⟩
    obtain ⟨a, hm, ha⟩ := hl i m h1 h2
    exact ⟨a, (hacts a).1 ha, hm⟩
  · rintro ⟨ht, hf, hl⟩
    refine ⟨fun t h1 h2 => (hacts _).2 (ht t h1 h2), fun f h1 h2 => (hacts _).2 (hf f h1 h2),
      fun i m h1 h2 => ?_⟩
    obtain ⟨a, ha, hm⟩ := hl i m h1 h2
    exact ⟨a, hm, (hacts a).2 ha⟩

/-- **What a request creates is in its client's name exactly under `OwnName`.** -/
theorem inName_serve_iff {s : Site} (h : s.Consistent) (e : Event) :
    InName (s.loginAfter P e) s.world (serve P s e).world ↔ OwnName s e := by
  rw [Site.world_serve, Site.loginAfter_eq h]
  have hsession : (s.ctx e.client).session.userId = s.loggedIn e.client := h.session e.client
  obtain ⟨client, env, route, path, params⟩ := e
  cases route with
  | postRegistrationSubmit =>
    have hcalm := calm_register (P := P) env.now env.salt (params.form P) s.world
    exact iff_of_true ((inName_calm_iff hcalm).2 (inName_refl _ s.world)) trivial
  | postUserFollow => exact iff_of_true (inName_follow env.now _ params.userName s.world) trivial
  | postUserUnfollow =>
    exact iff_of_true (inName_unfollow env.now _ params.userName s.world) trivial
  | postTweetNewSubmit =>
    exact iff_of_true (inName_makeTweet_self env.now (textOf params.tweetText) _ none s.world)
      trivial
  | postTweetReply =>
    exact iff_of_true (inName_makeTweet_self env.now (textOf params.tweetText) _
      (params.replyId.map (Param.toS P)) s.world) trivial
  | postTweetLike =>
    -- a client without a user likes as the empty text, which is nobody's id
    refine Iff.trans inName_like ?_
    simp only [OwnName]
    rw [← hsession]
    rfl
  | postApiNewTweet =>
    simp only [written, OwnName]
    cases hu : User.findByUserName s.world.db params.userName with
    | none =>
      simp only [Site.ctx, hu]
      exact iff_of_true (inName_refl _ s.world) fun u p h => absurd h (by simp)
    | some u =>
      simp only [Site.ctx, hu]
      refine Iff.trans inName_makeTweet ?_
      rw [Option.bind_some, findByUserName_mem hu, ← hsession]
      rfl
  | getRoot =>
    -- a tweet of the test interface is by the user that has just logged in
    refine iff_of_true ?_ trivial
    simp only [written, identified, reduceCtorEq, if_false]
    cases hu : signedIn P env ⟨.getRoot, path, params⟩ (s.ctx client) with
    | none => exact inName_refl _ s.world
    | some u =>
      split_ifs
      · exact inName_makeTweet_self env.now _ (some u.id) none s.world
      · exact inName_refl _ s.world
  | _ => exact iff_of_true (inName_refl _ s.world) trivial

/-- **A run is authentic exactly when the two routes that ask for no login are called by clients
that act in their own name**, from any state of the stores on. -/
theorem authentic_run_iff (P : Platform) (w : World) (es : List Event) :
    Run.EachStep (serve P) (Authentic P) (Site.opened w) es ↔
      Run.EachStep (serve P) OwnName (Site.opened w) es :=
  Run.eachStep_congr (I := Site.Consistent) (fun _ e h => Site.consistent_serve h e)
    (fun _ e h => (authentic_iff_inName h e).trans (inName_serve_iff h e))
    (Site.consistent_opened w) es

/-- Client 0 registers as `ann`; client 1, who has never logged in, tweets as `ann`. -/
def forgery : List Event :=
  [⟨0, ⟨0, 0, false, []⟩, .postRegistrationSubmit, "/registration/submit",
      { name := some "Ann", email := some "ann@x.org", userName := some "ann",
        password := some "secret" }⟩,
    ⟨1, ⟨1, 0, false, []⟩, .postApiNewTweet, "/api/v1/users/ann/new-tweet",
      { userName := some "ann", text := some "hi" }⟩]

/-- The tweet is stored in the name of `ann`, and its client is nobody. -/
theorem forged_tweet :
    let s := Run.run (serve .ascii) (Site.opened World.empty) forgery
    (s.world.db.tweets.rows.map fun t => (t.attrs.text, t.attrs.authorId, t.attrs.authorName)) =
        [(("hi" : Text), 1, ("ann" : Text))] ∧
      s.loggedIn 0 = some 1 ∧ s.loggedIn 1 = none ∧
      ¬ Run.EachStep (serve .ascii) (Authentic .ascii) (Site.opened World.empty) forgery := by
  refine ⟨by decide +kernel, by decide +kernel, by decide +kernel, fun h => ?_⟩
  have hacts := (h (forgery.take 1) _ (List.prefix_refl forgery)).tweets
    ⟨1, ⟨"hi", 0, 1, "ann", 1, 1, none⟩⟩ (by decide +kernel) (by decide +kernel)
  exact absurd hacts.loggedIn (by decide +kernel)

end NanoTwitter
