import Mathlib.Tactic
import NanoTwitter.Lib.Run
import NanoTwitter.Model.Cache
import NanoTwitter.Sequential.Wellformed

/-!
# Operations one after the other

An `Op` is a registration, a follow, an unfollow or a call of `make_tweet`, and `step` runs it to
its end. `Effect` lists everything an operation can do to the database and to the cache;
`effect_step` proves the list complete on the states of sequential runs, which the operations do not
leave (`Sound`). The theorems about runs are case analyses of `Effect`.
-/

namespace NanoTwitter

open Ruby (Time)

/-- An operation with its inputs. -/
inductive Op
  | register (now : Time) (salt : ℕ) (form : User.Form)
  | follow (now : Time) (userId : Option ℕ) (userName : Option Param)
  | unfollow (now : Time) (userId : Option ℕ) (userName : Option Param)
  | makeTweet (now : Time) (text : Option Text) (id : Option ℕ) (replyId : Option Text)

/-- Run an operation to its end. -/
def step (P : Platform) (w : World) : Op → World
  | .register now salt form => (register P now salt form).exec w
  | .follow now userId userName => (follow P now userId userName).exec w
  | .unfollow now userId userName => (unfollow P now userId userName).exec w
  | .makeTweet now text id replyId => (makeTweet P now text id replyId).exec w

/-! ### What the operations do -/

/-- The counter `k` of user `i` moves by `d`. -/
def bump (now : Time) (k : Counter) (d : ℤ) (i : ℕ) (users : Table User) : Table User :=
  users.update i fun u => k.write now (k.get u + d) u

/-- The counter `k` of the user `u` goes down by one unless it was zero. -/
def lower (now : Time) (k : Counter) (u : Row User) (users : Table User) : Table User :=
  if k.get u.attrs > 0 then bump now k (-1) u.id users else users

/-- The table of tweets after `Tweet.create`. -/
def createdTweets (now : Time) (user : Row User) (text : Text) (tweets : Table Tweet) :
    Table Tweet :=
  if (Tweet.new now text user).valid true then tweets.insert (Tweet.new now text user) else tweets

/-- The array that `make_tweet` caches: without time and id if the tweet was not stored. -/
def createdEntry (now : Time) (user : Row User) (text : Text) (tweets : Table Tweet) : Entry :=
  if (Tweet.new now text user).valid true then
    ⟨user.attrs.userName, text, some now, some tweets.nextId⟩
  else ⟨user.attrs.userName, text, none, none⟩

/-- The database after the thread of `make_tweet`. -/
def publishedDb (now : Time) (user : Row User) (replyId : Option Text) (p : Processed) (db : Db) :
    Db where
  users := match replyId with
    | none => bump now .tweets 1 user.id db.users
    | some _ => db.users
  tweets := createdTweets now user p.text db.tweets
  follows := db.follows

/-- The feeds that the mentions, or else the tags, of a text are pushed to. -/
def marks (p : Processed) (followers : List ℕ) : List Slot :=
  if p.mentions.length > 0 then (removeFollowers p.mentions followers).map .hfeed
  else p.tags.map .tag

/-- The cache after the thread of `make_tweet` has sent out `v`. -/
def publishedCache (v : Text) (userId : ℕ) (replyId : Option Text) (p : Processed)
    (followers : List ℕ) (c : Cache) : Cache :=
  (match replyId with
    | none => c.cacheTweet v userId followers
    | some i => c.append (.replies i) v).pushAll (marks p followers) v

/-- Everything an operation can do to the database and to the cache. -/
inductive Effect (P : Platform) (db : Db) (c : Cache) : Op → Db → Cache → Prop
  | rejected {now salt form} : Effect P db c (.register now salt form) db c
  | registered {now salt form u} (hu : User.new P salt now form = some u)
      (hv : u.valid P db.users none = true) :
      Effect P db c (.register now salt form) { db with users := db.users.insert u } c
  | followNobody {now i n} (h : i.bind db.users.find = none ∨ User.findByUserName db n = none) :
      Effect P db c (.follow now i n) db c
  | followed {now i n u v} (hu : i.bind db.users.find = some u)
      (hv : User.findByUserName db n = some v) :
      Effect P db c (.follow now i n)
        { db with
          users := bump now .followers 1 v.id (bump now .followings 1 u.id db.users)
          follows := if Follow.valid db u.id v.id then db.follows.insert ⟨u.id, v.id⟩
            else db.follows } c
  | unfollowNobody {now i n} (h : i.bind db.users.find = none ∨ User.findByUserName db n = none) :
      Effect P db c (.unfollow now i n) db c
  | unfollowed {now i n u v} (hu : i.bind db.users.find = some u)
      (hv : User.findByUserName db n = some v) :
      Effect P db c (.unfollow now i n)
        { db with
          users := lower now .followers v (lower now .followings u db.users)
          follows := db.follows.deleteWhere fun f =>
            f.attrs.followerId = u.id ∧ f.attrs.followedId = v.id } c
  | noAuthor {now text i replyId} (hu : i.bind db.users.find = none) :
      Effect P db c (.makeTweet now text i replyId) db c
  | notProcessed {now text i replyId u e} (hu : i.bind db.users.find = some u)
      (hp : processText db.users text = .error e) :
      Effect P db c (.makeTweet now text i replyId) db c
  | published {now text i replyId u p} (hu : i.bind db.users.find = some u)
      (hp : processText db.users text = .ok p) :
      Effect P db c (.makeTweet now text i replyId) (publishedDb now u replyId p db)
        (publishedCache (createdEntry now u p.text db.tweets).toJson u.id replyId p
          (Follow.followersOf db u.id) c)

/-- The states of sequential runs. -/
structure Sound (P : Platform) (w : World) : Prop where
  wf : Wf P w.db
  wellTyped : WellTyped w.redis

theorem sound_empty (P : Platform) : Sound P World.empty := ⟨Wf.empty P, wellTyped_empty⟩

/-! ### Counters of loaded users -/

variable {P : Platform} {w : World}

/-- `u` is an object of the row that `users` holds under its id, as far as the validations and the
counter `k` can tell. -/
def Loaded (k : Counter) (u : Row User) (users : Table User) : Prop :=
  ∃ r, users.find u.id = some r ∧ u.attrs.ident = r.attrs.ident ∧ k.get u.attrs = k.get r.attrs

theorem loaded_of_find (k : Counter) {users : Table User} {i : ℕ} {u : Row User}
    (h : users.find i = some u) : Loaded k u users :=
  ⟨u, by rwa [(Table.mem_of_find h).2], rfl, rfl⟩

theorem Loaded.valid {k : Counter} {u : Row User} (h : Loaded k u w.db.users) (hw : Wf P w.db) :
    u.attrs.valid P w.db.users (some u.id) = true := by
  obtain ⟨r, hr, hid, -⟩ := h
  obtain ⟨hmem, hri⟩ := Table.mem_of_find hr
  rw [User.valid_congr hid, ← hri]
  exact hw.users r hmem

/-- A change of another counter does not make an object stale. -/
theorem Loaded.bump {j k : Counter} (hjk : j ≠ k) {u : Row User} {users : Table User}
    (h : Loaded j u users) (now : Time) (d : ℤ) (i : ℕ) : Loaded j u (bump now k d i users) := by
  obtain ⟨r, hr, hid, hj⟩ := h
  refine ⟨_, by rw [NanoTwitter.bump, Table.find_update, hr]; rfl, ?_, ?_⟩
  · dsimp only
    split_ifs
    · rw [User.ident_write, hid]
    · exact hid
  · dsimp only
    split_ifs
    · rw [Counter.get_write_of_ne hjk, hj]
    · exact hj

theorem Loaded.lower {j k : Counter} (hjk : j ≠ k) {u : Row User} {users : Table User}
    (h : Loaded j u users) (now : Time) (v : Row User) : Loaded j u (lower now k v users) := by
  unfold NanoTwitter.lower
  split_ifs
  · exact h.bump hjk now (-1) v.id
  · exact h

theorem exec_save (now : Time) (k : Counter) (u : Row User) (v : ℤ) (w : World) :
    (k.save P now u v).exec w =
      if u.attrs.valid P w.db.users (some u.id) then
        w.setUsers (w.db.users.update u.id (k.write now v))
      else w := by
  unfold EStateM.exec Counter.save
  split_ifs <;> rfl

/-- A save returns, whatever its validations say. -/
theorem save_ok (now : Time) (k : Counter) (u : Row User) (v : ℤ) (w : World) :
    k.save P now u v w = .ok () ((k.save P now u v).exec w) := by
  rw [exec_save]
  unfold Counter.save
  split_ifs <;> rfl

theorem incrementLikes_ok (now : Time) (t : Row Tweet) (w : World) :
    Tweet.incrementLikes now t w =
      .ok (t.attrs.likes + 1) ((Tweet.incrementLikes now t).exec w) := by
  unfold EStateM.exec Tweet.incrementLikes
  dsimp only
  split_ifs <;> rfl

theorem exec_incrementLikes (now : Time) (t : Row Tweet) (w : World) :
    (Tweet.incrementLikes now t).exec w =
      if t.attrs.valid (w.db.users.find t.attrs.authorId).isSome then
        w.setTweets (w.db.tweets.update t.id fun r =>
          { r with likes := t.attrs.likes + 1, updatedAt := now })
      else w := by
  unfold EStateM.exec Tweet.incrementLikes
  dsimp only
  split_ifs <;> rfl

theorem redis_incrementLikes (now : Time) (t : Row Tweet) (w : World) :
    ((Tweet.incrementLikes now t).exec w).redis = w.redis := by
  rw [exec_incrementLikes]
  split_ifs <;> rfl

/-- The save of a counter that the row still agrees on moves the counter of the row. -/
theorem save_eq {k : Counter} {u : Row User} (hw : Wf P w.db) (h : Loaded k u w.db.users)
    (now : Time) (d : ℤ) :
    k.save P now u (k.get u.attrs + d) w = .ok () (w.setUsers (bump now k d u.id w.db.users)) := by
  unfold Counter.save
  rw [if_pos (h.valid hw)]
  obtain ⟨r, hr, -, hk⟩ := h
  rw [Table.update_congr hr (g := fun a => k.write now (k.get a + d) a) (by rw [hk])]
  rfl

theorem increment_eq {k : Counter} {u : Row User} (hw : Wf P w.db) (h : Loaded k u w.db.users)
    (now : Time) :
    k.increment P now u w = .ok () (w.setUsers (bump now k 1 u.id w.db.users)) :=
  save_eq hw h now 1

theorem decrement_eq {k : Counter} {u : Row User} (hw : Wf P w.db) (h : Loaded k u w.db.users)
    (now : Time) :
    k.decrement P now u w = .ok () (w.setUsers (lower now k u w.db.users)) := by
  unfold Counter.decrement lower
  split_ifs
  · exact save_eq hw h now (-1)
  · rfl

@[simp] theorem isSome_find_bump (now : Time) (k : Counter) (d : ℤ) (i : ℕ) (users : Table User)
    (j : ℕ) : ((bump now k d i users).find j).isSome = (users.find j).isSome :=
  Table.isSome_find_update i _ j

@[simp] theorem isSome_find_lower (now : Time) (k : Counter) (u : Row User) (users : Table User)
    (j : ℕ) : ((lower now k u users).find j).isSome = (users.find j).isSome := by
  unfold lower
  split_ifs
  · exact isSome_find_bump now k (-1) u.id users j
  · rfl

/-- One counter of one user moves. -/
theorem count_bump {users : Table User} {a : ℕ} (h : (users.find a).isSome) (now : Time)
    (j k : Counter) (d : ℤ) (i : ℕ) :
    count j (bump now k d i users) a = count j users a + if j = k ∧ a = i then d else 0 := by
  cases hr : users.find i with
  | some r =>
    have hbump : bump now k d i users = users.update i (k.write now (count k users i + d)) := by
      rw [count_of_find hr]
      exact Table.update_congr hr rfl
    rw [hbump, count_update h]
    by_cases hc : j = k ∧ a = i
    · rw [if_pos hc, if_pos hc, hc.1, hc.2]
    · rw [if_neg hc, if_neg hc, add_zero]
  | none =>
    have hne : a ≠ i := by
      rintro rfl
      rw [hr] at h
      exact Bool.noConfusion h
    rw [bump, Table.update_of_find_none hr, if_neg fun hc => hne hc.2, add_zero]

/-- Other counters, and the counters of other users, stay. -/
theorem count_bump_of_ne {j k : Counter} {a i : ℕ} (h : j ≠ k ∨ a ≠ i) (now : Time) (d : ℤ)
    (users : Table User) : count j (bump now k d i users) a = count j users a := by
  cases hf : users.find a with
  | none =>
    have hf' : (bump now k d i users).find a = none := by rw [bump, Table.find_update, hf]; rfl
    rw [count, count, hf, hf']
  | some r =>
    rw [count_bump (by rw [hf]; rfl), if_neg fun hc => h.elim (· hc.1) (· hc.2), add_zero]

theorem count_lower {users : Table User} {a : ℕ} (h : (users.find a).isSome) (now : Time)
    (j k : Counter) (u : Row User) :
    count j (lower now k u users) a =
      count j users a - if j = k ∧ a = u.id ∧ k.get u.attrs > 0 then 1 else 0 := by
  unfold lower
  by_cases hpos : k.get u.attrs > 0
  · rw [if_pos hpos, count_bump h]
    simp only [hpos, and_true]
    split_ifs <;> rfl
  · rw [if_neg hpos]
    simp [hpos]

theorem count_lower_of_ne {j k : Counter} (h : j ≠ k) (now : Time) (u : Row User)
    (users : Table User) (a : ℕ) : count j (lower now k u users) a = count j users a := by
  unfold lower
  split_ifs
  · exact count_bump_of_ne (.inl h) now (-1) users
  · rfl

/-- A new user with counters at zero changes no counter. -/
theorem count_insert {k : Counter} {u : User} (hu : k.get u = 0) (users : Table User) (a : ℕ) :
    count k (users.insert u) a = count k users a := by
  rw [count, count, Table.find_insert]
  split_ifs with ha
  · rw [ha, Table.find_nextId]
    exact hu
  · rfl

theorem counters_new {salt : ℕ} {now : Time} {form : User.Form} {u : User}
    (hu : User.new P salt now form = some u) (k : Counter) : k.get u = 0 := by
  unfold User.new at hu
  split at hu
  · obtain rfl := Option.some.inj hu
    cases k <;> rfl
  · exact absurd hu (by simp)

theorem Wf.bump {db : Db} (h : Wf P db) (now : Time) (k : Counter) (d : ℤ) (i : ℕ) :
    Wf P { db with users := bump now k d i db.users } :=
  h.update_user i fun u => User.ident_write now k _ u

theorem Wf.lower {db : Db} (h : Wf P db) (now : Time) (k : Counter) (u : Row User) :
    Wf P { db with users := lower now k u db.users } := by
  unfold NanoTwitter.lower
  split_ifs
  · exact h.bump now k (-1) u.id
  · exact h

/-! ### The effect of each operation -/

theorem findByUserName_mem {db : Db} {n : Option Param} {v : Row User}
    (h : User.findByUserName db n = some v) : db.users.find v.id = some v :=
  Table.find_of_mem (Table.mem_of_findBy h).1

/-- A look-up that raises finds nobody. -/
theorem findByUserName_of_queryError (db : Db) {n : Option Param} {e : Error}
    (h : queryError n = some e) : User.findByUserName db n = none := by
  cases hu : User.findByUserName db n with
  | none => rfl
  | some u =>
    have hmem := of_decide_eq_true (Table.mem_of_findBy hu).2
    rw [queryError_of_mem hmem] at h
    exact absurd h (by simp)

theorem find_ok {i : Option ℕ} {u : Row User} (h : i.bind w.db.users.find = some u) :
    User.find i w = .ok u w := by
  unfold User.find; rw [h]

theorem find_error {i : Option ℕ} (h : i.bind w.db.users.find = none) :
    User.find i w = .error .recordNotFound w := by
  unfold User.find; rw [h]

/-- `Tweet.find` returns the row of its id or raises, and changes nothing. -/
theorem tweetFind_cases (tweetId : Option Text) (w : World) :
    (∃ t, Tweet.find tweetId w = .ok t w ∧ w.db.tweets.find t.id = some t) ∨
      Tweet.find tweetId w = .error .recordNotFound w := by
  unfold Tweet.find
  cases h : tweetId.bind fun s => w.db.tweets.rows.find? fun t => (t.id : ℤ) = Ruby.toI s with
  | none => exact .inr rfl
  | some t =>
    obtain ⟨s, -, hs⟩ := Option.bind_eq_some_iff.1 h
    exact .inl ⟨t, rfl, Table.find_of_mem (List.mem_of_find?_eq_some hs)⟩

theorem tweetFind_ok {tweetId : Option Text} {t : Row Tweet} {w' : World}
    (h : Tweet.find tweetId w = .ok t w') : w' = w ∧ w.db.tweets.find t.id = some t := by
  rcases tweetFind_cases tweetId w with ⟨t', ht', hmem⟩ | herr
  · rw [h] at ht'
    cases ht'
    exact ⟨rfl, hmem⟩
  · rw [h] at herr
    cases herr

/-- A registration stores a valid user and returns its row. -/
theorem register_of_valid {now : Time} {salt : ℕ} {form : User.Form} {u : User}
    (hu : User.new P salt now form = some u) (hv : u.valid P w.db.users none = true) :
    register P now salt form w =
      .ok (some ⟨w.db.users.nextId, u⟩) (w.setUsers (w.db.users.insert u)) := by
  have hsave : User.saveNew P (User.new P salt now form) w =
      .ok (some ⟨w.db.users.nextId, u⟩) (w.setUsers (w.db.users.insert u)) := by
    rw [hu]; exact if_pos hv
  have hrun : register P now salt form w = _ :=
    (EStateM.bind_of_ok hsave).trans (EStateM.bind_of_ok EStateM.get_ok)
  rw [hrun]
  dsimp only
  -- the second save finds only the row of the first one under the same name and email
  rw [World.users_setUsers, if_pos (User.valid_insert_self hv)]
  rfl

/-- A registration without a valid user changes nothing. -/
theorem register_of_invalid {now : Time} {salt : ℕ} {form : User.Form}
    (h : ∀ u, User.new P salt now form = some u → ¬ u.valid P w.db.users none = true) :
    register P now salt form w = .ok none w := by
  have hsave : User.saveNew P (User.new P salt now form) w = .ok none w := by
    cases hu : User.new P salt now form with
    | none => rfl
    | some u => exact if_neg (h u hu)
  exact (EStateM.bind_of_ok hsave).trans hsave

theorem create_eq (a b : ℕ) :
    Follow.create (some a) b w =
      .ok () (w.setFollows (if Follow.valid w.db a b then w.db.follows.insert ⟨a, b⟩
        else w.db.follows)) := by
  unfold Follow.create
  dsimp only
  split_ifs <;> rfl

/-- A follow of nobody, or by nobody, changes nothing. -/
theorem follow_exec_nobody {now : Time} {i : Option ℕ} {n : Option Param}
    (h : i.bind w.db.users.find = none ∨ User.findByUserName w.db n = none) :
    (follow P now i n).exec w = w := by
  cases hv : User.findByUserName w.db n with
  | none =>
    refine EStateM.exec_of_error (e := User.missing n) ?_
    unfold follow
    rw [EStateM.bind_of_ok EStateM.get_ok, EStateM.bind_of_error (orRaise_error _ hv)]
  | some v =>
    have hu : i.bind w.db.users.find = none := h.resolve_right (by simp [hv])
    -- the validation of the follow misses the follower, then `User.find` raises
    have hcreate : Follow.create i v.id w = .ok () w := by
      cases i with
      | none => rfl
      | some a =>
        have hinvalid : Follow.valid w.db a v.id = false := by
          simp only [Option.bind_some] at hu
          simp [Follow.valid, hu]
        rw [create_eq, hinvalid]
        rfl
    refine EStateM.exec_of_error (e := .recordNotFound) ?_
    unfold follow
    rw [EStateM.bind_of_ok EStateM.get_ok, EStateM.bind_of_ok (orRaise_ok _ hv),
      EStateM.bind_of_ok hcreate, EStateM.bind_of_error (find_error hu)]

theorem unfollow_exec_nobody {now : Time} {i : Option ℕ} {n : Option Param} (hw : Wf P w.db)
    (h : i.bind w.db.users.find = none ∨ User.findByUserName w.db n = none) :
    (unfollow P now i n).exec w = w := by
  cases hv : User.findByUserName w.db n with
  | none =>
    refine EStateM.exec_of_error (e := User.missing n) ?_
    unfold unfollow
    rw [EStateM.bind_of_ok EStateM.get_ok, EStateM.bind_of_error (orRaise_error _ hv)]
  | some v =>
    have hu : i.bind w.db.users.find = none := h.resolve_right (by simp [hv])
    -- the rows to delete would have a follower that exists
    have hnone : ∀ f ∈ w.db.follows.rows, some f.attrs.followerId ≠ i := by
      rintro f hf rfl
      have := (hw.endpoints f hf).1
      rw [Option.bind_some] at hu
      rw [hu] at this
      exact Bool.noConfusion this
    have hrows : (w.db.follows.deleteWhere fun f =>
        some f.attrs.followerId = i ∧ f.attrs.followedId = v.id) = w.db.follows := by
      refine Table.ext (List.filter_eq_self.2 fun f hf => ?_) rfl
      simp [hnone f hf]
    have hdestroy : Follow.destroyAll i v.id w = .ok () w := by
      unfold Follow.destroyAll
      rw [hrows]
      rfl
    refine EStateM.exec_of_error (e := .recordNotFound) ?_
    unfold unfollow
    rw [EStateM.bind_of_ok EStateM.get_ok, EStateM.bind_of_ok (orRaise_ok _ hv),
      EStateM.bind_of_ok hdestroy, EStateM.bind_of_error (find_error hu)]

/-- The user that a session id stands for has that id. -/
theorem eq_some_of_bind {i : Option ℕ} {u : Row User} {users : Table User}
    (h : i.bind users.find = some u) : i = some u.id ∧ users.find u.id = some u := by
  obtain ⟨a, rfl, hf⟩ := Option.bind_eq_some_iff.1 h
  obtain ⟨-, rfl⟩ := Table.mem_of_find hf
  exact ⟨rfl, hf⟩

/-- A follow of `v` by `u` counts on both sides, whether or not a row was stored. -/
theorem follow_ok {now : Time} {i : Option ℕ} {n : Option Param} {u v : Row User}
    (hw : Wf P w.db) (hu : i.bind w.db.users.find = some u)
    (hv : User.findByUserName w.db n = some v) :
    follow P now i n w =
      .ok () ((w.setFollows (if Follow.valid w.db u.id v.id then w.db.follows.insert ⟨u.id, v.id⟩
        else w.db.follows)).setUsers
          (bump now .followers 1 v.id (bump now .followings 1 u.id w.db.users))) := by
  obtain ⟨rfl, hfu⟩ := eq_some_of_bind hu
  have hfv := findByUserName_mem hv
  set w₁ := w.setFollows (if Follow.valid w.db u.id v.id then w.db.follows.insert ⟨u.id, v.id⟩
    else w.db.follows)
  have hwf₁ : Wf P w₁.db := hw.create_follow u.id v.id
  have hcreate : Follow.create (some u.id) v.id w = .ok () w₁ := create_eq u.id v.id
  have hfind : User.find (some u.id) w₁ = .ok u w₁ := find_ok hfu
  have hinc₁ : incrementFollowings P now u w₁ =
      .ok () (w₁.setUsers (bump now .followings 1 u.id w₁.db.users)) :=
    increment_eq hwf₁ (loaded_of_find _ hfu) now
  -- `v` was loaded before the first save, which wrote another counter
  have hinc₂ := increment_eq (w := w₁.setUsers (bump now .followings 1 u.id w₁.db.users))
    (hwf₁.bump now .followings 1 u.id)
    ((loaded_of_find .followers hfv).bump (by decide) now 1 u.id) now
  unfold follow
  rw [EStateM.bind_of_ok EStateM.get_ok, EStateM.bind_of_ok (orRaise_ok _ hv),
    EStateM.bind_of_ok hcreate, EStateM.bind_of_ok hfind, EStateM.bind_of_ok hinc₁]
  exact hinc₂

/-- An unfollow of `v` by `u` deletes the rows and lowers both counters, whether or not there was a
row. -/
theorem unfollow_ok {now : Time} {i : Option ℕ} {n : Option Param} {u v : Row User}
    (hw : Wf P w.db) (hu : i.bind w.db.users.find = some u)
    (hv : User.findByUserName w.db n = some v) :
    unfollow P now i n w =
      .ok () ((w.setFollows (w.db.follows.deleteWhere fun f =>
        f.attrs.followerId = u.id ∧ f.attrs.followedId = v.id)).setUsers
          (lower now .followers v (lower now .followings u w.db.users))) := by
  obtain ⟨rfl, hfu⟩ := eq_some_of_bind hu
  have hfv := findByUserName_mem hv
  set w₁ := w.setFollows (w.db.follows.deleteWhere fun f =>
    f.attrs.followerId = u.id ∧ f.attrs.followedId = v.id) with hw₁
  have hwf₁ : Wf P w₁.db := hw.delete_follow _
  have hdestroy : Follow.destroyAll (some u.id) v.id w = .ok () w₁ := by
    unfold Follow.destroyAll
    rw [hw₁]
    simp only [Option.some.injEq]
  have hfind : User.find (some u.id) w₁ = .ok u w₁ := find_ok hfu
  have hdec₁ : decrementFollowings P now u w₁ =
      .ok () (w₁.setUsers (lower now .followings u w₁.db.users)) :=
    decrement_eq hwf₁ (loaded_of_find _ hfu) now
  have hdec₂ := decrement_eq (w := w₁.setUsers (lower now .followings u w₁.db.users))
    (hwf₁.lower now .followings u)
    ((loaded_of_find .followers hfv).lower (by decide) now u) now
  unfold unfollow
  rw [EStateM.bind_of_ok EStateM.get_ok, EStateM.bind_of_ok (orRaise_ok _ hv),
    EStateM.bind_of_ok hdestroy, EStateM.bind_of_ok hfind, EStateM.bind_of_ok hdec₁]
  exact hdec₂

theorem refines_publishMarks (p : Processed) (e : Entry) (userId : ℕ) :
    Refines (publishMarks p e userId) fun db c =>
      c.pushAll (marks p (Follow.followersOf db userId)) e.toJson := by
  intro w hw
  unfold publishMarks marks
  split_ifs with hm ht
  · exact refines_cacheMentions p.mentions e userId w hw
  · exact refines_cacheTags p.tags e w hw
  · have htags : p.tags = [] := List.length_eq_zero_iff.1 (Nat.eq_zero_of_not_pos ht)
    exact ⟨w.redis, rfl, hw, by rw [htags]; rfl⟩

/-- `Tweet.create` and the array made of its result. -/
theorem tweetCreate_eq (now : Time) (text : Text) (user : Row User) :
    ∃ t, Tweet.create now text user w =
        .ok t (w.setTweets (createdTweets now user text w.db.tweets)) ∧
      (⟨user.attrs.userName, text, t.map fun r => r.attrs.createdAt, t.map Row.id⟩ : Entry) =
        createdEntry now user text w.db.tweets := by
  unfold Tweet.create createdTweets createdEntry
  dsimp only
  split_ifs
  · exact ⟨_, rfl, rfl⟩
  · exact ⟨none, rfl, rfl⟩

/-- A save touches nothing but the users. -/
theorem increment_ok (now : Time) (k : Counter) (u : Row User) (w : World) :
    k.increment P now u w = .ok () (w.setUsers ((k.increment P now u).exec w).db.users) := by
  unfold Counter.increment
  rw [save_ok, exec_save]
  split_ifs <;> rfl

/-- The thread of `make_tweet` runs to its end, whether or not the author can be saved. -/
theorem publish_ok (now : Time) (user : Row User) (replyId : Option Text) (p : Processed)
    (hw : WellTyped w.redis) :
    ∃ r, publish P now user replyId p w =
        .ok () ⟨⟨replyId.elim ((incrementTweets P now user).exec
          (w.setTweets (createdTweets now user p.text w.db.tweets))).db.users fun _ => w.db.users,
          createdTweets now user p.text w.db.tweets, w.db.follows⟩, r⟩ ∧
      WellTyped r ∧
      view r = publishedCache (createdEntry now user p.text w.db.tweets).toJson user.id replyId p
        (Follow.followersOf w.db user.id) (view w.redis) := by
  obtain ⟨t, hcreate, hentry⟩ := tweetCreate_eq (w := w) now p.text user
  set w₁ := w.setTweets (createdTweets now user p.text w.db.tweets) with hw₁
  unfold publish
  rw [EStateM.bind_of_ok hcreate, hentry]
  set e := createdEntry now user p.text w.db.tweets
  cases replyId with
  | none =>
    have hinc := increment_ok (P := P) now .tweets user w₁
    set w₂ := w₁.setUsers ((incrementTweets P now user).exec w₁).db.users with hw₂
    obtain ⟨r, hrun, ht, hv⟩ :=
      ((refines_cacheTweet e user.id).seq (refines_publishMarks p e user.id)) w₂ hw
    refine ⟨r, ?_, ht, hv⟩
    have htweet : publishTweet P now user e none w₁ = cacheTweet e user.id w₂ :=
      EStateM.bind_of_ok hinc
    rw [← EStateM.bind_congr_state htweet] at hrun
    exact hrun
  | some i =>
    obtain ⟨r, hrun, ht, hv⟩ :=
      ((refines_cacheReply e i).seq (refines_publishMarks p e user.id)) w₁ hw
    exact ⟨r, hrun, ht, hv⟩

/-- On the states of sequential runs the author can be saved. -/
theorem publish_eq (now : Time) {user : Row User} (replyId : Option Text) (p : Processed)
    (hw : Sound P w) (hu : w.db.users.find user.id = some user) :
    ∃ r, publish P now user replyId p w = .ok () ⟨publishedDb now user replyId p w.db, r⟩ ∧
      WellTyped r ∧
      view r = publishedCache (createdEntry now user p.text w.db.tweets).toJson user.id replyId p
        (Follow.followersOf w.db user.id) (view w.redis) := by
  obtain ⟨r, hrun, ht, hv⟩ := publish_ok (P := P) now user replyId p hw.wellTyped
  refine ⟨r, hrun.trans ?_, ht, hv⟩
  cases replyId with
  | none =>
    have hinc := increment_eq (k := .tweets)
      (w := w.setTweets (createdTweets now user p.text w.db.tweets)) (hw.wf.set_tweets _)
      (loaded_of_find _ hu) now
    rw [Option.elim_none, incrementTweets, EStateM.exec_of_ok hinc]
    rfl
  | some i => rfl

theorem makeTweet_exec_noAuthor {now : Time} {text : Option Text} {i : Option ℕ}
    {replyId : Option Text} (hu : i.bind w.db.users.find = none) :
    (makeTweet P now text i replyId).exec w = w :=
  EStateM.exec_of_error (EStateM.bind_of_error (find_error hu))

/-- With an author `make_tweet` returns, and leaves behind what its thread does. -/
theorem makeTweet_ok {now : Time} {text : Option Text} {i : Option ℕ} {replyId : Option Text}
    {u : Row User} (hu : i.bind w.db.users.find = some u) :
    makeTweet P now text i replyId w = .ok () (
      match processText w.db.users text with
      | .ok p => (publish P now u replyId p).exec w
      | .error _ => w) := by
  have hrun : makeTweet P now text i replyId w = .ok () (EStateM.exec
      (match processText w.db.users text with
        | .ok processed => publish P now u replyId processed
        | .error e => throw e) w) :=
    (EStateM.bind_of_ok (find_ok hu)).trans (EStateM.bind_of_ok EStateM.get_ok)
  rw [hrun]
  cases processText w.db.users text with
  | ok p => rfl
  | error e => rfl

theorem makeTweet_exec {now : Time} {text : Option Text} {i : Option ℕ} {replyId : Option Text}
    {u : Row User} (hu : i.bind w.db.users.find = some u) :
    (makeTweet P now text i replyId).exec w =
      match processText w.db.users text with
      | .ok p => (publish P now u replyId p).exec w
      | .error _ => w :=
  EStateM.exec_of_ok (makeTweet_ok hu)

/-- What `make_tweet` does to the cache, in any database. -/
theorem view_makeTweet (now : Time) {text : Option Text} {i : Option ℕ} (replyId : Option Text)
    {u : Row User} {p : Processed} (hw : WellTyped w.redis) (hu : i.bind w.db.users.find = some u)
    (hp : processText w.db.users text = .ok p) :
    WellTyped ((makeTweet P now text i replyId).exec w).redis ∧
      view ((makeTweet P now text i replyId).exec w).redis =
        publishedCache (createdEntry now u p.text w.db.tweets).toJson u.id replyId p
          (Follow.followersOf w.db u.id) (view w.redis) := by
  obtain ⟨r, hrun, ht, hv⟩ := publish_ok (P := P) now u replyId p hw
  rw [makeTweet_exec hu, hp]
  dsimp only
  rw [EStateM.exec_of_ok hrun]
  exact ⟨ht, hv⟩

/-- **Every operation has one of the listed effects, and keeps the tables and the cache in
order.** -/
theorem effect_step (hw : Sound P w) (op : Op) :
    Effect P w.db (view w.redis) op (step P w op).db (view (step P w op).redis) ∧
      Sound P (step P w op) := by
  cases op with
  | register now salt form =>
    by_cases h : ∃ u, User.new P salt now form = some u ∧ u.valid P w.db.users none = true
    · obtain ⟨u, hu, hv⟩ := h
      rw [step, EStateM.exec_of_ok (register_of_valid hu hv)]
      exact ⟨.registered hu hv, hw.wf.insert_user hv, hw.wellTyped⟩
    · rw [step, EStateM.exec_of_ok (register_of_invalid fun u hu hv => h ⟨u, hu, hv⟩)]
      exact ⟨.rejected, hw⟩
  | follow now i n =>
    cases hu : i.bind w.db.users.find with
    | none =>
      rw [step, follow_exec_nobody (.inl hu)]
      exact ⟨.followNobody (.inl hu), hw⟩
    | some u =>
      cases hv : User.findByUserName w.db n with
      | none =>
        rw [step, follow_exec_nobody (.inr hv)]
        exact ⟨.followNobody (.inr hv), hw⟩
      | some v =>
        rw [step, EStateM.exec_of_ok (follow_ok hw.wf hu hv)]
        have hwf := hw.wf.create_follow u.id v.id
        exact ⟨.followed hu hv,
          (hwf.bump now .followings 1 u.id).bump now .followers 1 v.id, hw.wellTyped⟩
  | unfollow now i n =>
    cases hu : i.bind w.db.users.find with
    | none =>
      rw [step, unfollow_exec_nobody hw.wf (.inl hu)]
      exact ⟨.unfollowNobody (.inl hu), hw⟩
    | some u =>
      cases hv : User.findByUserName w.db n with
      | none =>
        rw [step, unfollow_exec_nobody hw.wf (.inr hv)]
        exact ⟨.unfollowNobody (.inr hv), hw⟩
      | some v =>
        rw [step, EStateM.exec_of_ok (unfollow_ok hw.wf hu hv)]
        exact ⟨.unfollowed hu hv,
          (((hw.wf.delete_follow _).lower now .followings u).lower now .followers v),
          hw.wellTyped⟩
  | makeTweet now text i replyId =>
    cases hu : i.bind w.db.users.find with
    | none =>
      rw [step, makeTweet_exec_noAuthor hu]
      exact ⟨.noAuthor hu, hw⟩
    | some u =>
      cases hp : processText w.db.users text with
      | error e =>
        rw [step, makeTweet_exec hu, hp]
        exact ⟨.notProcessed hu hp, hw⟩
      | ok p =>
        obtain ⟨r, hrun, ht, hv⟩ := publish_eq now replyId p hw (eq_some_of_bind hu).2
        rw [step, makeTweet_exec hu, hp]
        dsimp only
        rw [EStateM.exec_of_ok hrun, hv]
        refine ⟨.published hu hp, ?_, ht⟩
        cases replyId with
        | none => exact (hw.wf.bump now .tweets 1 u.id).set_tweets _
        | some i => exact hw.wf.set_tweets _

/-- The states of a run of operations are in order. -/
theorem always_sound (hw : Sound P w) (ops : List Op) :
    Run.Always (step P) (Sound P) w ops :=
  Run.always_of_inv (P := Sound P) (fun _ op h => (effect_step h op).2) hw ops

end NanoTwitter
