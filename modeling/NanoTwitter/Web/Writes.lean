import Mathlib.Tactic
import NanoTwitter.Sequential.Operations

/-!
# What the writing operations create

The rows and members that each writing operation creates, on every state of the stores, including
those whose tables or cache are not in order. `Calm` is a step that creates and deletes nothing;
each operation is one creation, followed by calm steps:

* `calm_makeTweet`: at most one tweet, by the user of the given id (`tweeted`);
* `calm_follow`, `calm_unfollow`: at most one follow, or deletions;
* `mem_likers_like`: at most one liker.
-/

namespace NanoTwitter

open Ruby (Time)
open EStateM (Keeps Reads keeps_pure keeps_get keeps_forM)

/-- No tweet, no follow and no like comes or goes, and no user goes. -/
structure Calm (w w' : World) : Prop where
  tweets : w'.db.tweets = w.db.tweets
  follows : w'.db.follows = w.db.follows
  likers : (view w'.redis).likers = (view w.redis).likers
  users : ∀ a, (w.db.users.find a).isSome → (w'.db.users.find a).isSome

instance : IsPreorder World Calm where
  refl _ := ⟨rfl, rfl, rfl, fun _ h => h⟩
  trans _ _ _ h h' := ⟨h'.tweets.trans h.tweets, h'.follows.trans h.follows,
    h'.likers.trans h.likers, fun a ha => h'.users a (h.users a ha)⟩

variable {P : Platform} {w : World}

/-! ### Calm steps -/

theorem calm_save (now : Time) (k : Counter) (u : Row User) (v : ℤ) :
    Keeps Calm (k.save P now u v) := by
  intro w
  rw [exec_save]
  split_ifs
  · refine ⟨rfl, rfl, rfl, fun a ha => ?_⟩
    rwa [World.users_setUsers, Table.isSome_find_update]
  · exact refl_of Calm w

theorem calm_increment (now : Time) (k : Counter) (u : Row User) :
    Keeps Calm (k.increment P now u) := calm_save now k u _

theorem calm_decrement (now : Time) (k : Counter) (u : Row User) :
    Keeps Calm (k.decrement P now u) := by
  unfold Counter.decrement
  split_ifs
  · exact calm_save now k u _
  · exact keeps_pure ()

/-- A command on the key of a feed. -/
theorem calm_command {c : Store Text Text → Option (Store Text Text)} {s : Slot}
    (hs : s.isFeed = true)
    (hc : ∀ r r' k, c r = some r' → k ≠ s.key → r'.set? k = r.set? k) :
    Keeps Calm (command c) := by
  intro w
  cases h : c w.redis with
  | none =>
    have hrun : command c w = .error .commandError w := by unfold command; rw [h]
    rw [EStateM.exec_of_error hrun]
    exact refl_of Calm w
  | some r =>
    rw [EStateM.exec_of_ok (command_of_some h)]
    refine ⟨rfl, rfl, funext fun t => ?_, fun _ ha => ha⟩
    have hset := hc w.redis r _ h (Slot.key_ne (likes_ne_of_isFeed hs t))
    simp only [view, World.redis_setRedis, hset]

theorem calm_lpush {s : Slot} (hs : s.isFeed = true) (v : Text) :
    Keeps Calm (lpush s.key v) :=
  calm_command hs fun _ _ _ h hk => Store.set?_of_lpush h hk

theorem calm_rpush {s : Slot} (hs : s.isFeed = true) (v : Text) :
    Keeps Calm (rpush s.key v) :=
  calm_command hs fun _ _ _ h hk => Store.set?_of_rpush h hk

theorem calm_rpop {s : Slot} (hs : s.isFeed = true) : Keeps Calm (rpop s.key) :=
  calm_command hs fun _ _ _ h hk => Store.set?_of_rpop h hk

theorem calm_cacheTweet (e : Entry) (userId : ℕ) : Keeps Calm (cacheTweet e userId) := by
  have hfront : Keeps Calm (cacheFfeed e) := by
    refine (reads_query _).keeps.bind fun l => ?_
    split_ifs
    · exact (calm_rpop rfl).bind fun _ => calm_lpush rfl _
    · exact calm_lpush rfl _
  exact hfront.bind fun _ => (calm_lpush rfl _).bind fun _ => keeps_get.bind fun _ =>
    keeps_forM (fun _ => calm_lpush rfl _) _

theorem calm_publishTweet (now : Time) (user : Row User) (e : Entry) (replyId : Option Text) :
    Keeps Calm (publishTweet P now user e replyId) := by
  cases replyId with
  | none => exact (calm_increment now .tweets user).bind fun _ => calm_cacheTweet e user.id
  | some i => exact calm_rpush (s := .replies i) rfl e.toJson

theorem calm_publishMarks (p : Processed) (e : Entry) (userId : ℕ) :
    Keeps Calm (publishMarks p e userId) := by
  unfold publishMarks
  split_ifs
  · exact keeps_get.bind fun _ => keeps_forM (fun _ => calm_lpush rfl _) _
  · exact keeps_forM (fun t => calm_lpush (s := .tag t) rfl _) _
  · exact keeps_pure ()

/-! ### One creation each -/

/-- The tweets after `make_tweet`. -/
def tweeted (now : Time) (text : Option Text) (id : Option ℕ) (db : Db) : Table Tweet :=
  match id.bind db.users.find, processText db.users text with
  | some u, .ok p => createdTweets now u p.text db.tweets
  | _, _ => db.tweets

/-- A valid tweet by the user of the given id is stored, and no other. -/
theorem tweeted_cases (now : Time) (text : Option Text) (id : Option ℕ) (db : Db) :
    (∃ u p, id.bind db.users.find = some u ∧ processText db.users text = .ok p ∧
        (Tweet.new now p.text u).valid true = true ∧
        tweeted now text id db = db.tweets.insert (Tweet.new now p.text u)) ∨
      (∀ u p, id.bind db.users.find = some u → processText db.users text = .ok p →
        (Tweet.new now p.text u).valid true = false) ∧
        tweeted now text id db = db.tweets := by
  unfold tweeted
  cases id.bind db.users.find with
  | none => exact .inr ⟨fun _ _ hu => absurd hu (by simp), rfl⟩
  | some u =>
    cases processText db.users text with
    | error e => exact .inr ⟨fun _ _ _ hp => absurd hp (by simp), rfl⟩
    | ok p =>
      simp only [createdTweets]
      split_ifs with hvalid
      · exact .inl ⟨u, p, rfl, rfl, hvalid, rfl⟩
      · refine .inr ⟨fun u' p' hu hp => ?_, rfl⟩
        obtain rfl := Option.some.inj hu
        obtain rfl := Except.ok.inj hp
        exact Bool.eq_false_iff.2 hvalid

theorem calm_publish (now : Time) (user : Row User) (replyId : Option Text) (p : Processed)
    (w : World) :
    Calm (w.setTweets (createdTweets now user p.text w.db.tweets))
      ((publish P now user replyId p).exec w) := by
  obtain ⟨t, hcreate, -⟩ := tweetCreate_eq (w := w) now p.text user
  unfold publish
  rw [EStateM.exec_bind_of_ok hcreate]
  exact ((calm_publishTweet now user _ replyId).bind fun _ => calm_publishMarks p _ user.id) _

/-- **`make_tweet` creates at most one tweet, by the user whose id it is given.** -/
theorem calm_makeTweet (now : Time) (text : Option Text) (id : Option ℕ)
    (replyId : Option Text) (w : World) :
    Calm (w.setTweets (tweeted now text id w.db)) ((makeTweet P now text id replyId).exec w) := by
  unfold tweeted
  cases hu : id.bind w.db.users.find with
  | none =>
    rw [makeTweet_exec_noAuthor hu]
    exact refl_of Calm w
  | some u =>
    rw [makeTweet_exec hu]
    cases processText w.db.users text with
    | error e => exact refl_of Calm w
    | ok p => exact calm_publish now u replyId p w

/-- **`POST /user/follow` creates at most one follow, by the user whose id it is given.** -/
theorem calm_follow (now : Time) (userId : Option ℕ) (userName : Option Param) (w : World) :
    ∃ t : Table Follow, (∀ f ∈ t.rows, f ∈ w.db.follows.rows ∨ userId = some f.attrs.followerId) ∧
      Calm (w.setFollows t) ((follow P now userId userName).exec w) := by
  unfold follow
  rw [EStateM.exec_bind_of_ok EStateM.get_ok]
  cases User.findByUserName w.db userName with
  | none => exact ⟨w.db.follows, fun f hf => .inl hf, refl_of Calm w⟩
  | some v =>
    have hrest : Keeps Calm (do
        let user ← User.find userId
        incrementFollowings P now user
        incrementFollowers P now v) :=
      (reads_find userId).keeps.bind fun _ => (calm_increment now _ _).bind fun _ =>
        calm_increment now _ v
    rw [EStateM.exec_bind_of_ok (orRaise_ok _ rfl)]
    cases userId with
    | none =>
      refine ⟨w.db.follows, fun f hf => .inl hf, ?_⟩
      rw [EStateM.exec_bind_of_ok (show Follow.create none v.id w = .ok () w from rfl)]
      exact hrest w
    | some a =>
      refine ⟨if Follow.valid w.db a v.id then w.db.follows.insert ⟨a, v.id⟩ else w.db.follows,
        fun f hf => ?_, ?_⟩
      · split_ifs at hf
        · rw [Table.rows_insert, List.mem_append, List.mem_singleton] at hf
          rcases hf with hf | rfl
          · exact .inl hf
          · exact .inr rfl
        · exact .inl hf
      · rw [EStateM.exec_bind_of_ok (create_eq a v.id)]
        exact hrest _

theorem calm_unfollow (now : Time) (userId : Option ℕ) (userName : Option Param) (w : World) :
    ∃ t : Table Follow, (∀ f ∈ t.rows, f ∈ w.db.follows.rows) ∧
      Calm (w.setFollows t) ((unfollow P now userId userName).exec w) := by
  unfold unfollow
  rw [EStateM.exec_bind_of_ok EStateM.get_ok]
  cases User.findByUserName w.db userName with
  | none => exact ⟨w.db.follows, fun f hf => hf, refl_of Calm w⟩
  | some v =>
    have hrest : Keeps Calm (do
        let user ← User.find userId
        decrementFollowings P now user
        decrementFollowers P now v) :=
      (reads_find userId).keeps.bind fun _ => (calm_decrement now _ _).bind fun _ =>
        calm_decrement now _ v
    rw [EStateM.exec_bind_of_ok (orRaise_ok _ rfl),
      EStateM.exec_bind_of_ok (show Follow.destroyAll userId v.id w = .ok () _ from rfl)]
    exact ⟨_, fun f hf => (Table.mem_deleteWhere.1 hf).1, hrest _⟩

theorem calm_register (now : Time) (salt : ℕ) (form : User.Form) :
    Keeps Calm (register P now salt form) := by
  have hsave : Keeps Calm (User.saveNew P (User.new P salt now form)) := by
    intro w
    unfold EStateM.exec User.saveNew
    cases User.new P salt now form with
    | none => exact refl_of Calm w
    | some u =>
      dsimp only
      split_ifs
      · exact ⟨rfl, rfl, rfl, fun a ha => Table.isSome_find_insert u ha⟩
      · exact refl_of Calm w
  refine hsave.bind fun o => ?_
  cases o with
  | some r => exact keeps_get.bind fun _ => keeps_pure _
  | none => exact hsave

/-! ### Likes -/

/-- No tweet, no follow and no user comes or goes. -/
def SameRows (w w' : World) : Prop :=
  (∀ i, (w'.db.tweets.find i).isSome = (w.db.tweets.find i).isSome) ∧
    w'.db.follows = w.db.follows ∧ w'.db.users = w.db.users

instance : IsPreorder World SameRows where
  refl _ := ⟨fun _ => rfl, rfl, rfl⟩
  trans _ _ _ h h' := ⟨fun i => (h'.1 i).trans (h.1 i), h'.2.1.trans h.2.1, h'.2.2.trans h.2.2⟩

theorem reads_tweetFind (tweetId : Option Text) : Reads (Tweet.find tweetId) := by
  intro w
  rcases tweetFind_cases tweetId w with ⟨t, h, -⟩ | h
  · exact (EStateM.exec_of_ok h).symm
  · exact (EStateM.exec_of_error h).symm

theorem sameRows_like (now : Time) (userId : Option ℕ) (tweetId : Option Text) :
    Keeps SameRows (like now userId tweetId) := by
  have hinc : ∀ t, Keeps SameRows (Tweet.incrementLikes now t) := by
    intro t w
    rw [exec_incrementLikes]
    split_ifs
    · exact ⟨fun i => Table.isSome_find_update _ _ _, rfl, rfl⟩
    · exact refl_of SameRows w
  have hadd : ∀ i, Keeps SameRows (cacheLikes userId i) := by
    intro i w
    have hdb : ((cacheLikes userId i).exec w).db = w.db := sameDb_cacheLikes userId i w
    exact ⟨fun _ => by rw [hdb], by rw [hdb], by rw [hdb]⟩
  refine (reads_tweetFind tweetId).keeps.bind fun t =>
    (reads_likedBefore userId t.id).keeps.bind fun liked => ?_
  split_ifs
  · exact (hinc t).bind fun _ => (hadd t.id).bind fun _ => keeps_pure _
  · exact keeps_pure _

/-- The like adds a member to the likers of tweet `j`. -/
def NewLiker (w : World) (userId : Option ℕ) (tweetId : Option Text) (j : ℕ) : Prop :=
  ∃ t, Tweet.find tweetId w = .ok t w ∧ t.id = j ∧
    w.redis.sismember (Slot.likes t.id).key (member userId) = some false

/-- The set under the key of the likes of `i`, after a member was added. -/
theorem likers_cacheLikes {userId : Option ℕ} {i : ℕ} {m : Finset Text}
    (h : w.redis.set? (Slot.likes i).key = some m) (j : ℕ) :
    (view ((cacheLikes userId i).exec w).redis).likers j =
      if j = i then insert (member userId) ((view w.redis).likers j)
      else (view w.redis).likers j := by
  have hrun : cacheLikes userId i w = .ok () (w.setRedis _) :=
    command_of_some (c := fun r => r.sadd (Slot.likes i).key (member userId))
      (Store.sadd_of_set? h (member userId))
  rw [EStateM.exec_of_ok hrun]
  simp only [view, World.redis_setRedis, Store.set?_put_set]
  by_cases hji : j = i
  · subst hji
    rw [if_pos rfl, if_pos rfl, h]
    rfl
  · have hkey : (Slot.likes j).key ≠ (Slot.likes i).key :=
      Slot.key_ne fun he => hji (by injection he)
    rw [if_neg hkey, if_neg hji]

/-- **`POST /tweet/like` adds at most the member it is given, and only a new one.** -/
theorem mem_likers_like (now : Time) (userId : Option ℕ) (tweetId : Option Text) (w : World) (j : ℕ)
    (m : Text) :
    m ∈ (view ((like now userId tweetId).exec w).redis).likers j ↔
      m ∈ (view w.redis).likers j ∨ m = member userId ∧ NewLiker w userId tweetId j := by
  unfold like
  rcases tweetFind_cases tweetId w with ⟨t, hfind, -⟩ | hfind
  · have hnew : NewLiker w userId tweetId j ↔
        t.id = j ∧ w.redis.sismember (Slot.likes t.id).key (member userId) = some false := by
      unfold NewLiker
      rw [hfind]
      constructor
      · rintro ⟨t', ht', h⟩
        obtain ⟨rfl, -⟩ := EStateM.Result.ok.inj ht'
        exact h
      · exact fun h => ⟨t, rfl, h⟩
    rw [EStateM.exec_bind_of_ok hfind, hnew]
    cases hmem : w.redis.sismember (Slot.likes t.id).key (member userId) with
    | none =>
      have htest : likedBefore userId t.id w = .error .commandError w :=
        query_of_none (c := fun r => r.sismember (Slot.likes t.id).key (member userId)) hmem
      rw [EStateM.exec_of_error (EStateM.bind_of_error htest)]
      simp
    | some liked =>
      have htest : likedBefore userId t.id w = .ok liked w :=
        query_of_some (c := fun r => r.sismember (Slot.likes t.id).key (member userId)) hmem
      rw [EStateM.exec_bind_of_ok htest]
      cases liked with
      | true => exact ⟨.inl, fun h => h.resolve_right (by simp)⟩
      | false =>
        obtain ⟨m₀, hset, -⟩ := Option.map_eq_some_iff.1 hmem
        have hredis := redis_incrementLikes now t w
        rw [← hredis] at hset
        simp only [Bool.not_false, if_true]
        rw [EStateM.exec_bind_of_ok (incrementLikes_ok now t w), EStateM.exec_bind_pure,
          likers_cacheLikes hset, hredis]
        by_cases hj : j = t.id
        · simp [hj, or_comm]
        · simp [hj, Ne.symm hj]
  · rw [EStateM.exec_of_error (EStateM.bind_of_error hfind)]
    simp [NewLiker, hfind]

end NanoTwitter
