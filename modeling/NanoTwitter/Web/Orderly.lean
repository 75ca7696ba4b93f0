import Mathlib.Tactic
import NanoTwitter.Sequential.FeedEntries
import NanoTwitter.Sequential.KeySpace
import NanoTwitter.Web.Site

/-!
# The stores behind the application

What a request writes is what one of the operations `register`, `follow`, `unfollow` and
`make_tweet` does, or a like, or nothing (`written_cases`). So the states that the application
reaches, whoever sends which requests, are `Orderly` (`always_orderly`): the tables pass their
validations, the cache is well typed, and the feeds hold texts of tweets only.

No request changes a user's name, email or password hash, and only registrations add users
(`sameIdent_written`).
-/

namespace NanoTwitter

open Ruby (Time)

/-- The tables pass their validations, and the cache holds texts of tweets under its keys. -/
structure Orderly (P : Platform) (w : World) : Prop where
  wf : Wf P w.db
  tidy : Tidy w.redis

variable {P : Platform} {w : World}

theorem orderly_empty (P : Platform) : Orderly P World.empty := ⟨Wf.empty P, tidy_empty⟩

theorem Orderly.sound (h : Orderly P w) : Sound P w := ⟨h.wf, h.tidy.wellTyped⟩

/-- What an operation pushes is the text of a tweet. -/
theorem orderly_step (h : Orderly P w) (op : Op) : Orderly P (step P w op) := by
  have hsound := (effect_step h.sound op).2
  refine ⟨hsound.wf, hsound.wellTyped, ?_⟩
  have heffect := (effect_step h.sound op).1
  generalize (step P w op).db = db' at heffect
  generalize view (step P w op).redis = c' at heffect
  cases heffect with
  | rejected | registered | followNobody | followed | unfollowNobody | unfollowed =>
    exact h.tidy.entries
  | noAuthor | notProcessed => exact h.tidy.entries
  | published hu hp =>
    intro s v hv
    rcases mem_publishedCache hv with rfl | hold
    · exact ⟨_, rfl⟩
    · exact h.tidy.entries s v hold

/-! ### Likes -/

/-- What a like of a tweet does: if the liker is among the likers, it answers with the likes that
the tweet has; otherwise it counts and adds the liker. -/
theorem like_of_found (h : WellTyped w.redis) {tweetId : Option Text} {t : Row Tweet}
    (ht : Tweet.find tweetId w = .ok t w) (now : Time) (userId : Option ℕ) :
    (member userId ∈ (view w.redis).likers t.id ∧
        like now userId tweetId w = .ok (.str ('a' :: Json.renderInt t.attrs.likes)) w) ∨
      (member userId ∉ (view w.redis).likers t.id ∧
        ∃ r, like now userId tweetId w = .ok (.num (t.attrs.likes + 1))
            (((Tweet.incrementLikes now t).exec w).setRedis r) ∧
          WellTyped r ∧ view r = (view w.redis).like t.id (member userId)) := by
  unfold like
  rw [EStateM.bind_of_ok ht, EStateM.bind_of_ok (likedBefore_eq h userId t.id)]
  by_cases hmem : member userId ∈ (view w.redis).likers t.id
  · exact .inl ⟨hmem, by simp only [hmem, decide_true, Bool.not_true]; rfl⟩
  · have hredis := redis_incrementLikes now t w
    obtain ⟨r, hrun, hr, hv⟩ := refines_cacheLikes userId t.id
      ((Tweet.incrementLikes now t).exec w) (by rwa [hredis])
    refine .inr ⟨hmem, r, ?_, hr, by rw [hv, hredis]⟩
    simp only [hmem, decide_false, Bool.not_false, if_true]
    rw [EStateM.bind_of_ok (incrementLikes_ok now t w), EStateM.bind_of_ok hrun]
    rfl

/-- A like returns, and changes the tweets and the likers only. -/
theorem like_cases (h : WellTyped w.redis) (now : Time) (userId : Option ℕ)
    (tweetId : Option Text) :
    (∃ e, like now userId tweetId w = .error e w) ∨
      ∃ j t r, like now userId tweetId w = .ok j ⟨{ w.db with tweets := t }, r⟩ ∧ WellTyped r ∧
        (view r).feeds = (view w.redis).feeds := by
  rcases tweetFind_cases tweetId w with ⟨t, hfind, -⟩ | hfind
  · right
    rcases like_of_found h hfind now userId with ⟨-, hrun⟩ | ⟨-, r, hrun, hr, hv⟩
    · exact ⟨_, w.db.tweets, w.redis, hrun, h, rfl⟩
    · refine ⟨.num (t.attrs.likes + 1), ((Tweet.incrementLikes now t).exec w).db.tweets, r, ?_, hr,
        by rw [hv]; rfl⟩
      rw [hrun, exec_incrementLikes]
      split_ifs
      · rfl
      · rfl
  · exact .inl ⟨_, EStateM.bind_of_error hfind⟩

/-- What a like writes, if anything: one more in the row of its tweet, if the row is valid still,
and the liker. -/
theorem exec_like_cases (h : WellTyped w.redis) (now : Time) (userId : Option ℕ)
    (tweetId : Option Text) :
    (like now userId tweetId).exec w = w ∨
      ∃ (t : Row Tweet) (tweets : Table Tweet) (r : Store Text Text),
        w.db.tweets.find t.id = some t ∧
        (tweets = w.db.tweets ∨ tweets = w.db.tweets.update t.id fun a =>
          { a with likes := t.attrs.likes + 1, updatedAt := now }) ∧
        view r = (view w.redis).like t.id (member userId) ∧
        (like now userId tweetId).exec w = ⟨{ w.db with tweets := tweets }, r⟩ := by
  rcases tweetFind_cases tweetId w with ⟨t, hfind, ht⟩ | hfind
  · rcases like_of_found h hfind now userId with ⟨-, hrun⟩ | ⟨-, r, hrun, -, hv⟩
    · exact .inl (EStateM.exec_of_ok hrun)
    · refine .inr ⟨t, ((Tweet.incrementLikes now t).exec w).db.tweets, r, ht, ?_, hv, ?_⟩
      · rw [exec_incrementLikes]
        split_ifs
        · exact .inr rfl
        · exact .inl rfl
      · rw [EStateM.exec_of_ok hrun, exec_incrementLikes]
        split_ifs <;> rfl
  · have herror : like now userId tweetId w = .error .recordNotFound w :=
      EStateM.bind_of_error hfind
    exact .inl (EStateM.exec_of_error herror)

theorem orderly_like (h : Orderly P w) (now : Time) (userId : Option ℕ) (tweetId : Option Text) :
    Orderly P ((like now userId tweetId).exec w) := by
  rcases like_cases h.tidy.wellTyped now userId tweetId with ⟨e, he⟩ | ⟨j, t, r, hrun, ht, hv⟩
  · rw [EStateM.exec_of_error he]
    exact h
  · rw [EStateM.exec_of_ok hrun]
    refine ⟨h.wf.set_tweets t, ht, fun s v hmem => ?_⟩
    rw [hv] at hmem
    exact h.tidy.entries s v hmem

/-! ### Requests -/

/-- The operation is a registration. -/
def Op.isRegister : Op → Bool
  | .register .. => true
  | _ => false

/-- The `reply_id` that an operation calls `make_tweet` with. -/
def Op.replyId : Op → Option Text
  | .makeTweet _ _ _ replyId => replyId
  | _ => none

/-- The `reply_id` that a request calls `make_tweet` with: one route reads it from its path. -/
def Request.replyId (P : Platform) (req : Request) : Option Text :=
  match req.route with
  | .postTweetReply => req.params.replyId.map (Param.toS P)
  | _ => none

/-- What a request may write: what an operation writes, or a like, or nothing. Only registrations
register, and an operation replies to what the request replies to. -/
inductive Writes (P : Platform) (env : Env) (req : Request) (w : World) : World → Prop
  | registration (h : req.route = .postRegistrationSubmit) :
      Writes P env req w (step P w (.register env.now env.salt (req.params.form P)))
  | operation (op : Op) (hop : op.isRegister = false) (h : req.route ≠ .postRegistrationSubmit)
      (hreply : op.replyId = req.replyId P) : Writes P env req w (step P w op)
  | liking {userId : Option ℕ} {tweetId : Option Text} (h : req.route ≠ .postRegistrationSubmit) :
      Writes P env req w ((like env.now userId tweetId).exec w)
  | nothing (h : req.route ≠ .postRegistrationSubmit) : Writes P env req w w

/-- **A request writes no more than that.** -/
theorem written_cases (P : Platform) (env : Env) (req : Request) (c : Ctx) :
    Writes P env req c.world (written P env req c) := by
  obtain ⟨route, path, params⟩ := req
  have htweet : ∀ text id, route ≠ .postRegistrationSubmit →
      Writes P env ⟨route, path, params⟩ c.world
        ((makeTweet P env.now text id (Request.replyId P ⟨route, path, params⟩)).exec c.world) :=
    fun text id h => .operation (.makeTweet env.now text id _) rfl h rfl
  cases route with
  | postRegistrationSubmit => exact .registration rfl
  | postUserFollow =>
    exact .operation (.follow env.now c.session.userId params.userName) rfl (by simp) rfl
  | postUserUnfollow =>
    exact .operation (.unfollow env.now c.session.userId params.userName) rfl (by simp) rfl
  | postTweetNewSubmit => exact htweet _ _ (by decide)
  | postTweetReply => exact htweet _ _ (by decide)
  | postTweetLike => exact .liking (by simp)
  | postApiNewTweet =>
    simp only [written]
    split
    · exact htweet _ _ (by decide)
    · exact .nothing (by simp)
  | getRoot =>
    simp only [written]
    split
    · split_ifs
      · exact htweet _ _ (by decide)
      · exact .nothing (by simp)
    · exact .nothing (by simp)
  | _ => exact .nothing (by simp)

theorem orderly_written (env : Env) (req : Request) {c : Ctx} (h : Orderly P c.world) :
    Orderly P (written P env req c) := by
  have hwrites := written_cases P env req c
  generalize written P env req c = w' at hwrites
  cases hwrites with
  | registration | operation => exact orderly_step h _
  | liking => exact orderly_like h env.now _ _
  | nothing => exact h

/-- **The application keeps its stores in order, whatever requests it is sent.** -/
theorem always_orderly {s : Site} (h : Orderly P s.world) (es : List Event) :
    Run.Always (serve P) (fun s => Orderly P s.world) s es :=
  Run.always_of_inv (P := fun s : Site => Orderly P s.world)
    (fun s e h => by rw [Site.world_serve]; exact orderly_written e.env e.req h) h es

theorem orderly_reached (P : Platform) (es : List Event) : Orderly P (Site.reached P es).world :=
  (always_orderly (s := Site.opened World.empty) (orderly_empty P) es).last

/-! ### Users keep their names and hashes -/

/-- What a row of the users says of who the user is. -/
def Row.who (r : Row User) : ℕ × Text × Text × Text × Text := (r.id, r.attrs.ident)

/-- The same users in the same order, with the same names, emails and password hashes. -/
def SameIdent (t t' : Table User) : Prop := t'.rows.map Row.who = t.rows.map Row.who

theorem SameIdent.refl (t : Table User) : SameIdent t t := rfl

theorem SameIdent.trans {t t' t'' : Table User} (h : SameIdent t t') (h' : SameIdent t' t'') :
    SameIdent t t'' := Eq.trans h' h

/-- A search by who the users are finds the same user before and after. -/
theorem SameIdent.map_find? {t t' : Table User} (h : SameIdent t t')
    (p : ℕ × Text × Text × Text × Text → Bool) :
    (t'.rows.find? (p ∘ Row.who)).map Row.who = (t.rows.find? (p ∘ Row.who)).map Row.who := by
  rw [← List.find?_map, ← List.find?_map, h]

theorem SameIdent.find {t t' : Table User} (h : SameIdent t t') {i : ℕ} {r : Row User}
    (hr : t.find i = some r) : ∃ r', t'.find i = some r' ∧ r'.attrs.ident = r.attrs.ident := by
  have hi : (t'.find i).map Row.who = (t.find i).map Row.who := h.map_find? fun k => k.1 = i
  rw [hr, Option.map_some, Option.map_eq_some_iff] at hi
  obtain ⟨r', hr', hwho⟩ := hi
  exact ⟨r', hr', congrArg Prod.snd hwho⟩

theorem SameIdent.find_eq_none {t t' : Table User} (h : SameIdent t t') {i : ℕ}
    (hi : t.find i = none) : t'.find i = none := by
  have hmap : (t'.find i).map Row.who = (t.find i).map Row.who := h.map_find? fun k => k.1 = i
  rw [hi] at hmap
  exact Option.map_eq_none_iff.1 hmap

/-- **A name leads to the same user before and after.** -/
theorem SameIdent.map_findByUserName {db db' : Db} (h : SameIdent db.users db'.users)
    (n : Option Param) :
    (User.findByUserName db' n).map Row.who = (User.findByUserName db n).map Row.who :=
  h.map_find? fun k => k.2.2.1 ∈ wanted n

theorem SameIdent.isSome_findByUserName {db db' : Db} (h : SameIdent db.users db'.users)
    (n : Option Param) :
    (User.findByUserName db' n).isSome = (User.findByUserName db n).isSome := by
  rw [← Option.isSome_map (f := Row.who), h.map_findByUserName, Option.isSome_map]

theorem sameIdent_bump (now : Time) (k : Counter) (d : ℤ) (i : ℕ) (users : Table User) :
    SameIdent users (bump now k d i users) := by
  unfold SameIdent bump Table.update
  rw [List.map_map]
  refine List.map_congr_left fun r _ => ?_
  simp only [Function.comp_apply, Row.who]
  split_ifs
  · exact congrArg (r.id, ·) (User.ident_write now k _ r.attrs)
  · rfl

theorem sameIdent_lower (now : Time) (k : Counter) (u : Row User) (users : Table User) :
    SameIdent users (lower now k u users) := by
  unfold lower
  split_ifs
  · exact sameIdent_bump now k (-1) u.id users
  · exact .refl users

/-- Operations other than registrations move counters. -/
theorem sameIdent_step (h : Sound P w) {op : Op} (hop : op.isRegister = false) :
    SameIdent w.db.users (step P w op).db.users := by
  have heffect := (effect_step h op).1
  generalize (step P w op).db = db' at heffect
  generalize view (step P w op).redis = c' at heffect
  cases heffect with
  | rejected | registered => exact absurd hop (by simp [Op.isRegister])
  | followNobody | unfollowNobody | noAuthor | notProcessed => exact .refl _
  | followed => exact (sameIdent_bump _ _ _ _ _).trans (sameIdent_bump _ _ _ _ _)
  | unfollowed => exact (sameIdent_lower _ _ _ _).trans (sameIdent_lower _ _ _ _)
  | @published now text i replyId u p hu hp =>
    cases replyId with
    | none => exact sameIdent_bump _ _ _ _ _
    | some j => exact .refl _

/-- **No request but a registration changes who the users are.** -/
theorem sameIdent_written (env : Env) {req : Request} {c : Ctx} (h : Orderly P c.world)
    (hreq : req.route ≠ .postRegistrationSubmit) :
    SameIdent c.world.db.users (written P env req c).db.users := by
  have hwrites := written_cases P env req c
  generalize written P env req c = w' at hwrites
  cases hwrites with
  | registration hreg => exact absurd hreg hreq
  | operation op hop => exact sameIdent_step h.sound hop
  | liking =>
    rw [(sameRows_like env.now _ _ c.world).2.2]
    exact .refl _
  | nothing => exact .refl _

end NanoTwitter
