import Mathlib.Tactic
import Mathlib.Data.Finset.Card
import NanoTwitter.Lib.Interleave
import NanoTwitter.Sequential.Operations

/-!
# Likes under concurrent requests

`POST /tweet/like` as a thread with four statements: `Tweet.find`, `sismember`, the save of `likes`
and `sadd`. Run alone it does what the route does (`solo_like`).

`LikesAgree`: the likes of every tweet have grown with its set of likers, up to the requests that
stand between their two writes. An interleaving keeps this in all its states exactly when every
save finds its row valid and `likes` as it was loaded, and every `sadd` adds a new member
(`likes_agree_run_iff`). `double_like` is an interleaving that does not: one user's two clicks.
-/

namespace NanoTwitter

open Ruby (Time)
open Interleave

/-- The control points of `POST /tweet/like`. -/
inductive LikePc
  | find (userId : Option ℕ) (tweetId : Option Text)
  | test (userId : Option ℕ) (tweet : Row Tweet)
  | save (userId : Option ℕ) (tweet : Row Tweet)
  | add (userId : Option ℕ) (tweet : Row Tweet)
  | done
  deriving DecidableEq

/-- The statement at a control point; an error ends the request. -/
def LikePc.step (pc : LikePc) (now : Time) (w : World) : World × LikePc :=
  match pc with
  | .find userId tweetId =>
      match Tweet.find tweetId w with
      | .ok tweet w' => (w', .test userId tweet)
      | .error _ w' => (w', .done)
  | .test userId tweet =>
      match likedBefore userId tweet.id w with
      | .ok liked w' => (w', if liked then .done else .save userId tweet)
      | .error _ w' => (w', .done)
  -- writes what `find` has loaded, plus one
  | .save userId tweet => ((Tweet.incrementLikes now tweet).exec w, .add userId tweet)
  | .add userId tweet => ((cacheLikes userId tweet.id).exec w, .done)
  | .done => (w, .done)

/-- The requests before their first statement: who likes, and what. -/
def startLikes (w : World) (rs : List (Option ℕ × Option Text)) : Config World LikePc :=
  ⟨w, rs.map fun r => .find r.1 r.2⟩

/-! ### A request that runs alone -/

/-- **Run alone, the thread of a like does what the route does.** -/
theorem solo_like (now : Time) (userId : Option ℕ) (tweetId : Option Text) (w : World) :
    Ends LikePc.step now (fun pc => pc = .done) (.find userId tweetId) w
      ((like now userId tweetId).exec w) := by
  have hdone : ∀ w, Ends LikePc.step now (fun pc => pc = .done) .done w w := fun w =>
    ⟨0, _, rfl, rfl⟩
  refine ends_of_step ?_
  unfold like
  cases hfind : Tweet.find tweetId w with
  | error e w' =>
    rw [EStateM.exec_of_error (EStateM.bind_of_error hfind)]
    simp only [LikePc.step, hfind]
    exact hdone w'
  | ok t w' =>
    rw [EStateM.exec_bind_of_ok hfind]
    simp only [LikePc.step, hfind]
    refine ends_of_step ?_
    cases htest : likedBefore userId t.id w' with
    | error e w₂ =>
      rw [EStateM.exec_of_error (EStateM.bind_of_error htest)]
      simp only [LikePc.step, htest]
      exact hdone w₂
    | ok liked w₂ =>
      rw [EStateM.exec_bind_of_ok htest]
      simp only [LikePc.step, htest]
      cases liked with
      | true => exact hdone w₂
      | false =>
        refine ends_of_step (ends_of_step ?_)
        simp only [Bool.not_false, if_true]
        rw [EStateM.exec_bind_of_ok (incrementLikes_ok now t w₂), EStateM.exec_bind_pure]
        exact hdone _

/-! ### Likes and likers -/

/-- The likes of tweet `i`; zero when there is no such tweet. -/
def likesOf (tweets : Table Tweet) (i : ℕ) : ℤ :=
  ((tweets.find i).map fun t => t.attrs.likes).getD 0

/-- The number of likers of tweet `i`. -/
def likerCount (w : World) (i : ℕ) : ℤ := ((view w.redis).likers i).card

/-- A request that has saved `likes` of tweet `i` and not added its user yet. -/
def LikePc.between (i : ℕ) : LikePc → ℤ
  | .add _ t => if i = t.id then 1 else 0
  | _ => 0

/-- Since the state `w`, the likes of every tweet have grown with its likers. -/
def LikesAgree (w : World) (c : Config World LikePc) : Prop :=
  ∀ i, (w.db.tweets.find i).isSome →
    likesOf c.shared.db.tweets i - likesOf w.db.tweets i =
      likerCount c.shared i - likerCount w i + sumThreads (LikePc.between i) c.threads

/-- A save finds its row valid and `likes` as in the object, a `sadd` adds a new member. -/
def LikePc.Fresh (pc : LikePc) (w : World) : Prop :=
  match pc with
  | .save _ t => t.attrs.valid (w.db.users.find t.attrs.authorId).isSome = true ∧
      likesOf w.db.tweets t.id = t.attrs.likes
  | .add userId t => member userId ∉ (view w.redis).likers t.id
  | _ => True

/-- The statement that is taken next is fresh. -/
def FreshLike (c : Config World LikePc) (e : ℕ × Time) : Prop :=
  ∀ pc ∈ c.threads[e.1]?, pc.Fresh c.shared

instance (pc : LikePc) (w : World) : Decidable (pc.Fresh w) :=
  match pc with
  | .find _ _ | .test _ _ | .done => .isTrue trivial
  | .save _ _ => inferInstanceAs (Decidable (_ ∧ _))
  | .add _ _ => inferInstanceAs (Decidable (_ ∉ _))

instance (c : Config World LikePc) (e : ℕ × Time) : Decidable (FreshLike c e) :=
  inferInstanceAs (Decidable (∀ pc ∈ c.threads[e.1]?, pc.Fresh c.shared))

/-- The tweet that a request has loaded. -/
def LikePc.object : LikePc → Option (Row Tweet)
  | .test _ t | .save _ t | .add _ t => some t
  | _ => none

/-- Tweets neither come nor go, loaded objects are tweets, and Redis holds what it should. -/
structure LikeInv (w : World) (c : Config World LikePc) : Prop where
  same : ∀ i, (c.shared.db.tweets.find i).isSome = (w.db.tweets.find i).isSome
  loaded : ∀ pc ∈ c.threads, ∀ t, pc.object = some t → (w.db.tweets.find t.id).isSome
  wellTyped : WellTyped c.shared.redis

section Step

variable {w : World} (now : Time)

theorem likesOf_of_find {tweets : Table Tweet} {i : ℕ} {t : Row Tweet}
    (h : tweets.find i = some t) : likesOf tweets i = t.attrs.likes := by
  rw [likesOf, h]; rfl

/-- The `UPDATE` of `likes` sets it in its row and in no other. -/
theorem likesOf_update {tweets : Table Tweet} {a : ℕ} (h : (tweets.find a).isSome) (now : Time)
    (v : ℤ) (i : ℕ) :
    likesOf (tweets.update i fun r => { r with likes := v, updatedAt := now }) a =
      if a = i then v else likesOf tweets a := by
  obtain ⟨r, hr⟩ := Option.isSome_iff_exists.1 h
  have hfind := Table.find_update (t := tweets) i
    (fun r => { r with likes := v, updatedAt := now }) a
  rw [hr, Option.map_some] at hfind
  rw [likesOf_of_find hr, likesOf_of_find hfind]
  obtain ⟨-, rfl⟩ := Table.mem_of_find hr
  dsimp only
  split_ifs <;> rfl

/-- A save keeps likes in step with the requests under way exactly when it is fresh. -/
theorem save_agrees_iff {t : Row Tweet} (ht : (w.db.tweets.find t.id).isSome)
    (userId : Option ℕ) :
    (∀ i, (w.db.tweets.find i).isSome →
        likesOf ((Tweet.incrementLikes now t).exec w).db.tweets i =
          likesOf w.db.tweets i + if i = t.id then 1 else 0) ↔
      (LikePc.save userId t).Fresh w := by
  rw [exec_incrementLikes]
  unfold LikePc.Fresh
  by_cases hv : t.attrs.valid (w.db.users.find t.attrs.authorId).isSome = true
  · rw [if_pos hv]
    simp only [hv, true_and, World.tweets_setTweets]
    constructor
    · intro h
      have := h t.id ht
      rw [likesOf_update ht, if_pos rfl, if_pos rfl] at this
      linarith
    · intro hfresh i hi
      rw [likesOf_update hi]
      split_ifs with hit
      · rw [hit, hfresh]
      · rw [add_zero]
  · rw [if_neg hv]
    refine iff_of_false (fun h => ?_) fun h => hv h.1
    have := h t.id ht
    rw [if_pos rfl] at this
    linarith

/-- A `sadd` makes up for the request under way exactly when it adds a new member. -/
theorem add_agrees_iff (hw : WellTyped w.redis) {t : Row Tweet}
    (ht : (w.db.tweets.find t.id).isSome) (userId : Option ℕ) :
    (∀ i, (w.db.tweets.find i).isSome →
        likerCount ((cacheLikes userId t.id).exec w) i =
          likerCount w i + if i = t.id then 1 else 0) ↔
      (LikePc.add userId t).Fresh w := by
  obtain ⟨r, hrun, -, hview⟩ := refines_cacheLikes userId t.id w hw
  have hcount : ∀ i, likerCount ((cacheLikes userId t.id).exec w) i =
      if i = t.id then ((insert (member userId) ((view w.redis).likers t.id)).card : ℤ)
      else likerCount w i := by
    intro i
    rw [EStateM.exec_of_ok hrun, likerCount, World.redis_setRedis, hview, Cache.likers_like]
    split_ifs <;> rfl
  unfold LikePc.Fresh
  constructor
  · intro h hmem
    have := h t.id ht
    rw [hcount, if_pos rfl, if_pos rfl, Finset.insert_eq_of_mem hmem, likerCount] at this
    linarith
  · intro hnew i _
    rw [hcount]
    split_ifs with hi
    · rw [Finset.card_insert_of_notMem hnew, hi, likerCount]
      push_cast
      rfl
    · rw [add_zero]

/-- What a statement does to likes, likers and requests under way: the three stay in step exactly
when it is fresh. -/
theorem step_agrees_iff (hw : WellTyped w.redis) {pc : LikePc}
    (hpc : ∀ t, pc.object = some t → (w.db.tweets.find t.id).isSome) :
    (∀ i, (w.db.tweets.find i).isSome →
        likesOf (pc.step now w).1.db.tweets i - likesOf w.db.tweets i =
          likerCount (pc.step now w).1 i - likerCount w i +
            ((pc.step now w).2.between i - pc.between i)) ↔ pc.Fresh w := by
  cases pc with
  | find userId tweetId =>
    refine iff_of_true (fun i _ => ?_) trivial
    rcases tweetFind_cases tweetId w with ⟨t, h, -⟩ | h <;>
      simp [LikePc.step, h, LikePc.between]
  | test userId t =>
    refine iff_of_true (fun i _ => ?_) trivial
    simp only [LikePc.step, likedBefore_eq hw]
    split_ifs <;> simp [LikePc.between]
  | save userId t =>
    rw [← save_agrees_iff now (hpc t rfl) userId]
    refine forall₂_congr fun i _ => ?_
    have hredis : likerCount ((Tweet.incrementLikes now t).exec w) i = likerCount w i := by
      rw [likerCount, redis_incrementLikes, likerCount]
    simp only [LikePc.step, LikePc.between, hredis]
    constructor <;> intro h <;> linarith
  | add userId t =>
    rw [← add_agrees_iff hw (hpc t rfl) userId]
    refine forall₂_congr fun i _ => ?_
    obtain ⟨r, hrun, -, -⟩ := refines_cacheLikes userId t.id w hw
    have hdb : ((cacheLikes userId t.id).exec w).db = w.db := by rw [EStateM.exec_of_ok hrun]; rfl
    simp only [LikePc.step, LikePc.between, hdb]
    constructor <;> intro h <;> linarith
  | done => exact iff_of_true (fun i _ => by simp [LikePc.step, LikePc.between]) trivial

/-- What a statement leaves alone: the ids of the tweets, the types in Redis. -/
theorem step_keeps (hw : WellTyped w.redis) (pc : LikePc) :
    WellTyped (pc.step now w).1.redis ∧
      (∀ i, ((pc.step now w).1.db.tweets.find i).isSome = (w.db.tweets.find i).isSome) ∧
      ∀ t, (pc.step now w).2.object = some t →
        pc.object = some t ∨ w.db.tweets.find t.id = some t := by
  cases pc with
  | find userId tweetId =>
    rcases tweetFind_cases tweetId w with ⟨t, h, ht⟩ | h
    · simp only [LikePc.step, h]
      refine ⟨hw, fun _ => trivial, fun t' ht' => .inr ?_⟩
      obtain rfl := Option.some.inj ht'
      exact ht
    · simp only [LikePc.step, h]
      exact ⟨hw, fun _ => trivial, fun _ ht => absurd ht (by simp [LikePc.object])⟩
  | test userId t =>
    simp only [LikePc.step, likedBefore_eq hw]
    refine ⟨hw, fun _ => trivial, fun t' ht' => ?_⟩
    split_ifs at ht'
    · exact absurd ht' (by simp [LikePc.object])
    · exact .inl ht'
  | save userId t =>
    simp only [LikePc.step, exec_incrementLikes]
    refine ⟨?_, fun i => ?_, fun t' ht' => .inl ht'⟩
    · split_ifs <;> exact hw
    · split_ifs
      · rw [World.tweets_setTweets, Table.find_update, Option.isSome_map]
      · rfl
  | add userId t =>
    obtain ⟨r, hrun, ht, -⟩ := refines_cacheLikes userId t.id w hw
    simp only [LikePc.step, EStateM.exec_of_ok hrun]
    exact ⟨ht, fun _ => rfl, fun _ ht => absurd ht (by simp [LikePc.object])⟩
  | done => exact ⟨hw, fun _ => rfl, fun _ ht => absurd ht (by simp [LikePc.step, LikePc.object])⟩

end Step

/-! ### Interleavings -/

theorem likeInv_fire {w : World} {c : Config World LikePc} (h : LikeInv w c) (e : ℕ × Time) :
    LikeInv w (fire LikePc.step c e) := by
  have hthreads := forall_threads_fire (m := LikePc.step) (e := e)
    (P := fun pc => ∀ t, pc.object = some t → (w.db.tweets.find t.id).isSome) h.loaded
    fun pc _ hpc t ht => by
      rcases (step_keeps e.2 h.wellTyped pc).2.2 t ht with hold | hnew
      · exact hpc t hold
      · rw [← h.same, hnew]; rfl
  cases hl : c.threads[e.1]? with
  | none => rw [fire_of_none hl]; exact h
  | some pc =>
    refine ⟨fun i => ?_, hthreads, ?_⟩
    · rw [fire_of_some hl]
      exact ((step_keeps e.2 h.wellTyped pc).2.1 i).trans (h.same i)
    · rw [fire_of_some hl]
      exact (step_keeps e.2 h.wellTyped pc).1

/-- **A statement keeps likes and likers in step exactly when it is fresh.** -/
theorem likesAgree_fire_iff {w : World} {c : Config World LikePc} (h : LikeInv w c)
    (ha : LikesAgree w c) (e : ℕ × Time) :
    LikesAgree w (fire LikePc.step c e) ↔ FreshLike c e := by
  refine fire_iff ha fun pc hl => ?_
  have hobject : ∀ t, pc.object = some t → (c.shared.db.tweets.find t.id).isSome := fun t ht => by
    rw [h.same]; exact h.loaded pc (List.mem_of_getElem? hl) t ht
  rw [← step_agrees_iff e.2 h.wellTyped hobject]
  refine forall_congr' fun i => ?_
  rw [h.same]
  refine imp_congr_right fun hi => ?_
  dsimp only
  rw [sumThreads_set (LikePc.between i) hl]
  have := ha i hi
  constructor <;> intro h <;> linarith

/-- **Likes under any interleaving.** Likes and likers stay in step in every state of a run exactly
when every statement of the run is fresh; and then, when all requests have finished, the likes of
every tweet have grown by the number of its new likers. -/
theorem likes_agree_run_iff {w : World} (hw : WellTyped w.redis)
    (rs : List (Option ℕ × Option Text)) (es : List (ℕ × Time)) :
    (Run.Always (fire LikePc.step) (LikesAgree w) (startLikes w rs) es ↔
      Run.EachStep (fire LikePc.step) FreshLike (startLikes w rs) es) ∧
    (Run.EachStep (fire LikePc.step) FreshLike (startLikes w rs) es →
      (∀ pc ∈ (Run.run (fire LikePc.step) (startLikes w rs) es).threads, pc = .done) →
      ∀ i, (w.db.tweets.find i).isSome →
        likesOf (Run.run (fire LikePc.step) (startLikes w rs) es).shared.db.tweets i -
            likesOf w.db.tweets i =
          likerCount (Run.run (fire LikePc.step) (startLikes w rs) es).shared i -
            likerCount w i) := by
  have hinv : LikeInv w (startLikes w rs) := by
    refine ⟨fun _ => rfl, fun pc hpc t ht => ?_, hw⟩
    obtain ⟨r, -, rfl⟩ := List.mem_map.1 hpc
    exact absurd ht (by simp [LikePc.object])
  have hstart : LikesAgree w (startLikes w rs) := by
    intro i _
    have hzero : ∀ pc ∈ (startLikes w rs).threads, pc.between i = 0 := by
      intro pc hpc
      obtain ⟨r, -, rfl⟩ := List.mem_map.1 hpc
      rfl
    rw [sumThreads_eq_zero hzero]
    simp [startLikes]
  have hiff := Run.always_iff_eachStep (I := LikeInv w) (G := LikesAgree w)
    (fun _ e hc _ _ => likeInv_fire hc e) (fun _ e hc ha => likesAgree_fire_iff hc ha e)
    hinv hstart es
  refine ⟨hiff, fun hfresh hdone i hi => ?_⟩
  have hlast := (hiff.2 hfresh).last i hi
  rwa [sumThreads_eq_zero fun pc hpc => by rw [hdone pc hpc]; rfl, add_zero] at hlast

/-- A user and its tweet. -/
def oneTweet : World :=
  Run.run (step .ascii) World.empty
    [.register 0 0 (.of "ann" "ann@x.org"), .makeTweet 1 (some "hi") (some 1) none]

/-- A second user. -/
def bobReads : World := step .ascii oneTweet (.register 2 0 (.of "bob" "bob@x.org"))

/-- The likes of two users overlap: the second loads the tweet and passes the test between the two
writes of the first. -/
def twoLikers : Config World LikePc :=
  Run.run (fire LikePc.step) (startLikes bobReads [(some 1, some "1"), (some 2, some "1")])
    [(0, 3), (0, 4), (0, 5), (1, 6), (1, 7), (0, 8), (1, 9), (1, 10)]

/-- Two likers, two likes. -/
theorem likes_agree_overlapping :
    WellTyped bobReads.redis ∧ likesOf twoLikers.shared.db.tweets 1 = 2 ∧
      likesOf twoLikers.shared.db.tweets 1 - likesOf bobReads.db.tweets 1 =
        likerCount twoLikers.shared 1 - likerCount bobReads 1 := by
  have hw : WellTyped bobReads.redis :=
    (always_sound (sound_empty .ascii) [.register 0 0 (.of "ann" "ann@x.org"),
      .makeTweet 1 (some "hi") (some 1) none, .register 2 0 (.of "bob" "bob@x.org")]).last.wellTyped
  exact ⟨hw, by decide +kernel, (likes_agree_run_iff hw _ _).2 (by decide +kernel)
    (by decide +kernel) 1 (by decide +kernel)⟩

/-- One user clicks twice; both requests pass the test before either of them adds the user. -/
def twoClicks : Config World LikePc :=
  Run.run (fire LikePc.step) (startLikes oneTweet [(some 1, some "1"), (some 1, some "1")])
    [(0, 2), (0, 3), (0, 4), (1, 5), (1, 6), (0, 7), (1, 8), (1, 9)]

/-- One liker, two likes. -/
theorem double_like :
    (∀ pc ∈ twoClicks.threads, pc = .done) ∧ (oneTweet.db.tweets.find 1).isSome ∧
      likesOf oneTweet.db.tweets 1 = 0 ∧ likerCount oneTweet 1 = 0 ∧
      likesOf twoClicks.shared.db.tweets 1 = 2 ∧ likerCount twoClicks.shared 1 = 1 := by
  decide +kernel

end NanoTwitter
