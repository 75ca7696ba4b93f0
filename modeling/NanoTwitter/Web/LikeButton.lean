import Mathlib.Tactic
import NanoTwitter.Concurrent.Likes
import NanoTwitter.Model.Client
import NanoTwitter.Web.Orderly

/-!
# What the like button says

`POST /tweet/like` answers with a number, or with a string of the letter `a` and a number, and
`likes.js` tells the two apart by the character at position 1. A `LikeLog` notes who has liked which
tweet in a run of operations and likes. The sets in Redis hold the likers of the log, and `likes`
their number (`LikeLog.Kept`), so that the button says what is true: `like_button_truthful`.
-/

namespace NanoTwitter

open Ruby (Time decimal)
open Json (dquote)

/-! ### Answers and texts -/

/-- The answer to a new like is shown as the number that it is. -/
theorem likesJs_num (n : ℕ) : likesJs (Json.num n).render = oneMoreLike (decimal n) := by
  have hrender : (Json.num n).render = decimal n := by rw [Json.render]; rfl
  rw [hrender, likesJs, if_neg]
  intro ha
  have hdigit := Ruby.isDigit_of_mem_decimal (List.mem_of_getElem? ha)
  exact absurd hdigit (by decide)

/-- The answer to a repeated like is shown as its number, without the letter and the quotes. -/
theorem likesJs_str (n : ℕ) :
    likesJs (Json.str ('a' :: decimal n)).render = alreadyLiked (decimal n) := by
  have hplain : ∀ c ∈ 'a' :: decimal n, Json.escapeChar c = [c] := by
    intro c hc
    rcases List.mem_cons.1 hc with rfl | hc
    · decide
    · exact Json.escapeChar_of_isDigit (Ruby.isDigit_of_mem_decimal hc)
  have hrender : (Json.str ('a' :: decimal n)).render =
      dquote :: 'a' :: (decimal n ++ [dquote]) := by
    rw [Json.render, Json.quote_of_plain hplain]
    rfl
  have hsub : substring (dquote :: 'a' :: (decimal n ++ [dquote])) 2
      ((dquote :: 'a' :: (decimal n ++ [dquote])).length - 1) = decimal n := by
    simp [substring]
  have hletter : (dquote :: 'a' :: (decimal n ++ [dquote]))[1]? = some 'a' := rfl
  rw [hrender, likesJs, if_pos hletter, hsub]

/-! ### Runs -/

/-- A step of a run: an operation, or a like by the user of a session or by nobody. -/
inductive Act
  | op (op : Op)
  | like (now : Time) (userId : Option ℕ) (tweetId : Option Text)

/-- The stores, and who has liked which tweet so far. -/
structure LikeLog where
  world : World
  log : List (Option ℕ × ℕ)

namespace LikeLog

def empty : LikeLog := ⟨World.empty, []⟩

/-- Run a step and note a like that has found its tweet. -/
def step (P : Platform) (s : LikeLog) : Act → LikeLog
  | .op op => ⟨NanoTwitter.step P s.world op, s.log⟩
  | .like now userId tweetId =>
    ⟨(NanoTwitter.like now userId tweetId).exec s.world,
      match Tweet.find tweetId s.world with
      | .ok t _ => s.log ++ [(userId, t.id)]
      | .error _ _ => s.log⟩

/-- The likers of a tweet, nobody being one of them if a session without user has liked it. -/
def likers (s : LikeLog) (i : ℕ) : Finset (Option ℕ) :=
  ((s.log.filter fun l => l.2 = i).map Prod.fst).toFinset

/-- The sets in Redis are those of the log, and the tweets count them. -/
structure Kept (P : Platform) (s : LikeLog) : Prop where
  sound : Sound P s.world
  valid : ∀ i t, s.world.db.tweets.find i = some t →
    t.attrs.valid (s.world.db.users.find t.attrs.authorId).isSome = true
  known : ∀ l ∈ s.log, (s.world.db.tweets.find l.2).isSome
  sets : ∀ i, (view s.world.redis).likers i = (s.likers i).image member
  counts : ∀ i t, s.world.db.tweets.find i = some t → t.attrs.likes = (s.likers i).card

variable {P : Platform} {s : LikeLog}

theorem mem_likers {u : Option ℕ} {i : ℕ} : u ∈ s.likers i ↔ (u, i) ∈ s.log := by
  simp [likers]

theorem member_mem_iff (h : s.Kept P) {u : Option ℕ} {i : ℕ} :
    member u ∈ (view s.world.redis).likers i ↔ u ∈ s.likers i := by
  rw [h.sets, member_injective.mem_finset_image]

/-- One more entry of the log. -/
theorem likers_append (w w' : World) (log : List (Option ℕ × ℕ)) (u : Option ℕ) (i j : ℕ) :
    (⟨w', log ++ [(u, i)]⟩ : LikeLog).likers j =
      if j = i then insert u ((⟨w, log⟩ : LikeLog).likers j)
      else (⟨w, log⟩ : LikeLog).likers j := by
  ext v
  split_ifs with h
  · simp [mem_likers, h, or_comm]
  · simp [mem_likers, h]

/-! ### Operations keep the likes -/

/-- What an operation does to tweets and likers: at most it adds a valid tweet without likes. -/
theorem tweets_step (w : World) (op : Op) :
    (view (NanoTwitter.step P w op).redis).likers = (view w.redis).likers ∧
      (∀ a, (w.db.users.find a).isSome → ((NanoTwitter.step P w op).db.users.find a).isSome) ∧
      ((NanoTwitter.step P w op).db.tweets = w.db.tweets ∨
        ∃ t : Tweet, t.valid (w.db.users.find t.authorId).isSome = true ∧ t.likes = 0 ∧
          (NanoTwitter.step P w op).db.tweets = w.db.tweets.insert t) := by
  cases op with
  | register now salt form =>
    have h := calm_register (P := P) now salt form w
    exact ⟨h.likers, h.users, .inl h.tweets⟩
  | follow now i n =>
    obtain ⟨t, -, h⟩ := calm_follow (P := P) now i n w
    exact ⟨h.likers, h.users, .inl h.tweets⟩
  | unfollow now i n =>
    obtain ⟨t, -, h⟩ := calm_unfollow (P := P) now i n w
    exact ⟨h.likers, h.users, .inl h.tweets⟩
  | makeTweet now text i replyId =>
    have h := calm_makeTweet (P := P) now text i replyId w
    refine ⟨h.likers, h.users, ?_⟩
    have htweets : (NanoTwitter.step P w (.makeTweet now text i replyId)).db.tweets =
        tweeted now text i w.db := h.tweets
    rw [htweets]
    rcases tweeted_cases now text i w.db with ⟨u, p, hu, -, hvalid, hinsert⟩ | ⟨-, hsame⟩
    · have hauthor : (w.db.users.find (Tweet.new now p.text u).authorId).isSome = true := by
        show (w.db.users.find u.id).isSome = true
        rw [(eq_some_of_bind hu).2]
        rfl
      exact .inr ⟨_, by rw [hauthor]; exact hvalid, rfl, hinsert⟩
    · exact .inl hsame

/-- A tweet after an operation was there before, or is new. -/
theorem find_tweets_step {w : World} {op : Op} {i : ℕ} {t : Row Tweet}
    (h : (NanoTwitter.step P w op).db.tweets.find i = some t) :
    w.db.tweets.find i = some t ∨ w.db.tweets.find i = none ∧ t.attrs.likes = 0 ∧
      t.attrs.valid (w.db.users.find t.attrs.authorId).isSome = true := by
  rcases (tweets_step (P := P) w op).2.2 with hsame | ⟨new, hnew, hzero, hinsert⟩
  · rw [hsame] at h
    exact .inl h
  · rw [hinsert, Table.find_insert] at h
    split_ifs at h with hi
    · cases h
      exact .inr ⟨by rw [hi, Table.find_nextId], hzero, hnew⟩
    · exact .inl h

theorem isSome_find_tweets_step {w : World} {i : ℕ} (h : (w.db.tweets.find i).isSome) (op : Op) :
    ((NanoTwitter.step P w op).db.tweets.find i).isSome := by
  rcases (tweets_step (P := P) w op).2.2 with hsame | ⟨new, -, -, hinsert⟩
  · rwa [hsame]
  · rw [hinsert]
    exact Table.isSome_find_insert new h

theorem valid_of_isSome {t : Tweet} {a b : Bool} (h : t.valid a = true)
    (hab : a = true → b = true) : t.valid b = true := by
  simp only [Tweet.valid, Bool.and_eq_true] at h ⊢
  exact ⟨⟨h.1.1, hab h.1.2⟩, h.2⟩

theorem kept_op (h : s.Kept P) (op : Op) : (s.step P (.op op)).Kept P := by
  obtain ⟨hlikers, husers, -⟩ := tweets_step (P := P) s.world op
  refine ⟨(effect_step h.sound op).2, fun i t ht => ?_, fun l hl => ?_, fun i => ?_,
    fun i t ht => ?_⟩
  · rcases find_tweets_step ht with hold | ⟨-, -, hvalid⟩
    · exact valid_of_isSome (h.valid i t hold) (husers _)
    · exact valid_of_isSome hvalid (husers _)
  · exact isSome_find_tweets_step (h.known l hl) op
  · simp only [step, hlikers]
    exact h.sets i
  · rcases find_tweets_step ht with hold | ⟨hnone, hzero, -⟩
    · exact h.counts i t hold
    · -- nobody has liked a tweet before it was there
      have hempty : s.likers i = ∅ := by
        refine Finset.eq_empty_of_forall_notMem fun u hu => ?_
        have hknown := h.known _ (mem_likers.1 hu)
        rw [hnone] at hknown
        exact absurd hknown (by simp)
      show t.attrs.likes = ((s.likers i).card : ℤ)
      rw [hzero, hempty]
      rfl

/-! ### Likes keep the likes -/

/-- A like that is not new leaves the stores alone; a new one counts in its row, and adds the
liker. -/
theorem like_of_kept (h : s.Kept P) {tweetId : Option Text} {t : Row Tweet}
    (ht : Tweet.find tweetId s.world = .ok t s.world) (now : Time) (userId : Option ℕ) :
    (userId ∈ s.likers t.id ∧ NanoTwitter.like now userId tweetId s.world =
        .ok (.str ('a' :: Json.renderInt t.attrs.likes)) s.world) ∨
      (userId ∉ s.likers t.id ∧
        ∃ r, NanoTwitter.like now userId tweetId s.world = .ok (.num (t.attrs.likes + 1))
            ⟨{ s.world.db with
              tweets := s.world.db.tweets.update t.id fun a =>
                { a with likes := t.attrs.likes + 1, updatedAt := now } }, r⟩ ∧
          WellTyped r ∧ view r = (view s.world.redis).like t.id (member userId)) := by
  have hfind : s.world.db.tweets.find t.id = some t := (tweetFind_ok ht).2
  have hsave : (Tweet.incrementLikes now t).exec s.world = s.world.setTweets
      (s.world.db.tweets.update t.id fun a =>
        { a with likes := t.attrs.likes + 1, updatedAt := now }) := by
    rw [exec_incrementLikes, if_pos (h.valid t.id t hfind)]
  rcases like_of_found h.sound.wellTyped ht now userId with ⟨hmem, hrun⟩ | ⟨hmem, r, hrun, hr, hv⟩
  · exact .inl ⟨(member_mem_iff h).1 hmem, hrun⟩
  · rw [hsave] at hrun
    exact .inr ⟨fun hu => hmem ((member_mem_iff h).2 hu), r, hrun, hr, hv⟩

theorem known_append (h : s.Kept P) {t : Row Tweet} (ht : s.world.db.tweets.find t.id = some t)
    (u : Option ℕ) : ∀ l ∈ s.log ++ [(u, t.id)], (s.world.db.tweets.find l.2).isSome := by
  intro l hl
  rcases List.mem_append.1 hl with hl | hl
  · exact h.known l hl
  · rw [List.mem_singleton.1 hl, ht]
    rfl

/-- One more like of `t`, in the stores and in the log. -/
theorem kept_counted (h : s.Kept P) {t : Row Tweet} (ht : s.world.db.tweets.find t.id = some t)
    (now : Time) {u : Option ℕ} (hu : u ∉ s.likers t.id) {r : Store Text Text} (hr : WellTyped r)
    (hv : view r = (view s.world.redis).like t.id (member u)) :
    (⟨⟨{ s.world.db with
        tweets := s.world.db.tweets.update t.id fun a =>
          { a with likes := t.attrs.likes + 1, updatedAt := now } }, r⟩,
      s.log ++ [(u, t.id)]⟩ : LikeLog).Kept P := by
  refine ⟨⟨h.sound.wf.set_tweets _, hr⟩, fun i t' ht' => ?_, fun l hl => ?_, fun i => ?_,
    fun i t' ht' => ?_⟩
  · dsimp only at ht' ⊢
    rw [Table.find_update, Option.map_eq_some_iff] at ht'
    obtain ⟨t₀, ht₀, rfl⟩ := ht'
    have hvalid := h.valid i t₀ ht₀
    dsimp only
    split_ifs
    · exact hvalid
    · exact hvalid
  · dsimp only
    rw [Table.isSome_find_update]
    exact known_append h ht u l hl
  · rw [likers_append s.world]
    dsimp only
    rw [hv, Cache.likers_like]
    split_ifs with hi
    · rw [Finset.image_insert, hi, h.sets]
    · exact h.sets i
  · rw [likers_append s.world]
    dsimp only at ht'
    rw [Table.find_update, Option.map_eq_some_iff] at ht'
    obtain ⟨t₀, ht₀, rfl⟩ := ht'
    have hid := (Table.mem_of_find ht₀).2
    dsimp only
    by_cases hi : i = t.id
    · rw [if_pos (hid.trans hi), if_pos hi, hi, Finset.card_insert_of_notMem hu,
        h.counts t.id t ht]
      push_cast
      rfl
    · rw [if_neg fun hc => hi (hid.symm.trans hc), if_neg hi]
      exact h.counts i t₀ ht₀

theorem kept_like (h : s.Kept P) (now : Time) (userId : Option ℕ) (tweetId : Option Text) :
    (s.step P (.like now userId tweetId)).Kept P := by
  unfold step
  rcases tweetFind_cases tweetId s.world with ⟨t, ht, hmem⟩ | herr
  · simp only [ht]
    rcases like_of_kept h ht now userId with ⟨hu, hrun⟩ | ⟨hu, r, hrun, hr, hv⟩
    · -- the liker is in the log already
      have hlikers : ∀ i, (⟨s.world, s.log ++ [(userId, t.id)]⟩ : LikeLog).likers i =
          s.likers i := by
        intro i
        rw [likers_append s.world]
        split_ifs with hi
        · rw [hi]
          exact Finset.insert_eq_of_mem hu
        · rfl
      rw [EStateM.exec_of_ok hrun]
      refine ⟨h.sound, h.valid, known_append h hmem userId, fun i => ?_, fun i t' ht' => ?_⟩
      · rw [hlikers]
        exact h.sets i
      · rw [hlikers]
        exact h.counts i t' ht'
    · rw [EStateM.exec_of_ok hrun]
      exact kept_counted h hmem now hu hr hv
  · have hrun : NanoTwitter.like now userId tweetId s.world = .error .recordNotFound s.world :=
      EStateM.bind_of_error herr
    simp only [herr, EStateM.exec_of_error hrun]
    exact h

theorem kept_run (P : Platform) (acts : List Act) : (Run.run (step P) empty acts).Kept P := by
  refine (Run.always_of_inv (P := fun s : LikeLog => s.Kept P) (fun s act h => ?_) ?_ acts).last
  · cases act with
    | op op => exact kept_op h op
    | like now userId tweetId => exact kept_like h now userId tweetId
  · have hnone : ∀ i, empty.world.db.tweets.find i = none := fun _ => rfl
    exact ⟨sound_empty P, by simp [hnone], fun l hl => absurd hl List.not_mem_nil, fun i => rfl,
      by simp [hnone]⟩

end LikeLog

/-- The route answers with what `like` returns. -/
theorem handle_postTweetLike {P : Platform} {env : Env} {params : Params} {c : Ctx} {j : Json}
    {w : World} (h : like env.now c.session.userId (textOf params.tweetId) c.world = .ok j w)
    (path : Text) :
    handle P env ⟨.postTweetLike, path, params⟩ c = .ok (.json j.render) ⟨w, c.session⟩ :=
  (EStateM.bind_of_ok getSession_ok).trans (EStateM.bind_of_ok (onWorld_of_ok h))

/-- **The like button reports the truth.** In any run of operations and likes, the answer to a like
of a stored tweet is shown as "already liked" exactly if the same liker has liked the tweet before.
The number is that of the tweet's likers, which is what the row says; a repeated like changes
nothing, and other tweets stay as they are. -/
theorem like_button_truthful (P : Platform) (acts : List Act) {params : Params} {t : Row Tweet}
    (ht : (Tweet.find (textOf params.tweetId)).value?
      (Run.run (LikeLog.step P) LikeLog.empty acts).world = some t)
    (session : Session) (env : Env) (path : Text) :
    let s := Run.run (LikeLog.step P) LikeLog.empty acts
    let n := (insert session.userId (s.likers t.id)).card
    ∃ body c', handle P env ⟨.postTweetLike, path, params⟩ ⟨s.world, session⟩ =
        .ok (.json body) c' ∧
      likesJs body = (if session.userId ∈ s.likers t.id then alreadyLiked (decimal n)
        else oneMoreLike (decimal n)) ∧
      likesOf c'.world.db.tweets t.id = n ∧
      (session.userId ∈ s.likers t.id → c' = ⟨s.world, session⟩) ∧
      ∀ i, i ≠ t.id → c'.world.db.tweets.find i = s.world.db.tweets.find i ∧
        (view c'.world.redis).likers i = (view s.world.redis).likers i := by
  intro s n
  have hkept : s.Kept P := LikeLog.kept_run P acts
  obtain ⟨w, hfind⟩ := EStateM.exists_ok_of_value? ht
  obtain ⟨rfl, hmem⟩ := tweetFind_ok hfind
  have hcount := hkept.counts t.id t hmem
  rcases LikeLog.like_of_kept hkept hfind env.now session.userId with
    ⟨hu, hrun⟩ | ⟨hu, r, hrun, -, hv⟩
  · have hn : n = (s.likers t.id).card := congrArg Finset.card (Finset.insert_eq_of_mem hu)
    refine ⟨_, _, handle_postTweetLike hrun path, ?_, ?_, fun _ => rfl, fun i _ => ⟨rfl, rfl⟩⟩
    · rw [if_pos hu, hcount, hn]
      exact likesJs_str _
    · rw [likesOf_of_find hmem, hcount, hn]
  · have hn : n = (s.likers t.id).card + 1 := Finset.card_insert_of_notMem hu
    have hlikes : t.attrs.likes + 1 = (n : ℤ) := by
      rw [hcount, hn]
      push_cast
      rfl
    rw [hlikes] at hrun
    refine ⟨_, _, handle_postTweetLike hrun path, ?_, ?_, fun hu' => absurd hu' hu,
      fun i hi => ⟨?_, ?_⟩⟩
    · rw [if_neg hu]
      exact likesJs_num n
    · rw [likesOf_update (by rw [hmem]; rfl), if_pos rfl]
    · exact Table.find_update_of_ne hi _
    · dsimp only
      rw [hv, Cache.likers_like, if_neg hi]

/-- `ann` tweets, and somebody without a session and `ann` like it. -/
def twoLikes : List Act :=
  [.op (.register 0 0 (.of "ann" "ann@x.org")), .op (.makeTweet 1 (some "hi") (some 1) none),
    .like 2 none (some "1"), .like 3 (some 1) (some "1")]

/-- A second like by `ann` is shown as such, with both likers counted. -/
theorem second_like_shown :
    let s := Run.run (LikeLog.step .ascii) LikeLog.empty twoLikes
    ∃ body c', handle .ascii ⟨4, 0, false, []⟩
        ⟨.postTweetLike, "/tweet/like", { tweetId := some "1" }⟩
        ⟨s.world, ⟨some 1, some "ann", none, none⟩⟩ = .ok (.json body) c' ∧
      likesJs body = alreadyLiked "2" ∧ likesOf c'.world.db.tweets 1 = 2 := by
  intro s
  have hsome : ((Tweet.find (some "1")).value? s.world).isSome := by decide +kernel
  obtain ⟨t, ht⟩ := Option.isSome_iff_exists.1 hsome
  have hid : t.id = 1 := by
    have h : ((Tweet.find (some "1")).value? s.world).map Row.id = some 1 := by decide +kernel
    rw [ht] at h
    exact Option.some.inj h
  have hfind : (Tweet.find (textOf (Params.tweetId { tweetId := some "1" }))).value? s.world =
      some t := ht
  obtain ⟨body, c', hrun, hshown, hlikes, -⟩ := like_button_truthful .ascii twoLikes hfind
    ⟨some 1, some "ann", none, none⟩ ⟨4, 0, false, []⟩ "/tweet/like"
  refine ⟨body, c', hrun, ?_, ?_⟩
  · rw [hshown, hid]
    decide +kernel
  · rw [hid] at hlikes
    rw [hlikes]
    decide +kernel

end NanoTwitter
