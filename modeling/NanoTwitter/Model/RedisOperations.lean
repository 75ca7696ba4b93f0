import Mathlib.Tactic
import NanoTwitter.Model.Keys
import NanoTwitter.Model.Records

/-!
# The cache functions

`redis_operations.rb`, function by function. The Redis commands are those of the vendored
`redis-stable`: a command on a key of the wrong type raises and writes nothing.

A tweet travels as the array `[user_name, text, created_at, id]`, an `Entry`; `created_at` and `id`
are nil when the tweet was not stored. It is cached as its JSON text.
-/

namespace NanoTwitter

open Ruby (Time decimal)

/-- The array `[user_name, text, created_at, id]` of `make_tweet`. -/
structure Entry where
  userName : Text
  text : Text
  createdAt : Option Time
  id : Option ℕ
  deriving DecidableEq

namespace Entry

/-- The JSON value of an entry. -/
def json (e : Entry) : Json :=
  .arr [.str e.userName, .str e.text,
    match e.createdAt with
    | some t => .str (Ruby.iso8601 t)
    | none => .null,
    match e.id with
    | some n => .num n
    | none => .null]

/-- `tweet.to_json`. -/
def toJson (e : Entry) : Text := e.json.render

end Entry

/-! ### Redis commands -/

/-- Run a command that answers nothing of interest. -/
def command (c : Store Text Text → Option (Store Text Text)) : Prog Unit := fun w =>
  match c w.redis with
  | some r => .ok () (w.setRedis r)
  | none => .error .commandError w

/-- Run a command that only reads. -/
def query {α : Type} (c : Store Text Text → Option α) : Prog α := fun w =>
  match c w.redis with
  | some a => .ok a w
  | none => .error .commandError w

def lrange (k : Text) : Prog (List Text) := query fun r => r.lrange k

def lpush (k v : Text) : Prog Unit := command fun r => r.lpush k v

def rpush (k v : Text) : Prog Unit := command fun r => r.rpush k v

def rpop (k : Text) : Prog Unit := command fun r => r.rpop k

def sadd (k v : Text) : Prog Unit := command fun r => r.sadd k v

def sismember (k v : Text) : Prog Bool := query fun r => r.sismember k v

/-! ### `RedisClass` -/

/-- The first statement of `cache_tweet`: the front page takes the tweet. -/
def cacheFfeed (tweet : Entry) : Prog Unit := do
  if (← lrange Slot.ffeed.key).length = 50 then
    rpop Slot.ffeed.key
    lpush Slot.ffeed.key tweet.toJson
  else
    lpush Slot.ffeed.key tweet.toJson

/-- `RedisClass.cache_tweet(tweet, user_id)`. -/
def cacheTweet (tweet : Entry) (userId : ℕ) : Prog Unit := do
  cacheFfeed tweet
  lpush (Slot.pfeed userId).key tweet.toJson
  let followers := Follow.followersOf (← get).db userId
  followers.forM fun follower => lpush (Slot.hfeed follower).key tweet.toJson

def accessPfeed (uId : ℕ) : Prog (List Text) := lrange (Slot.pfeed uId).key

def accessHfeed (uId : ℕ) : Prog (List Text) := lrange (Slot.hfeed uId).key

def accessFfeed : Prog (List Text) := lrange Slot.ffeed.key

/-- `RedisClass.cache_reply(reply, tweet_id)`. -/
def cacheReply (reply : Entry) (tweetId : Text) : Prog Unit :=
  rpush (Slot.replies tweetId).key reply.toJson

/-- `RedisClass.access_replies(tweet_id)`: the cached replies, parsed. -/
def accessReplies (tweetId : Text) : Prog (List Json) := do
  let replies ← lrange (Slot.replies tweetId).key
  replies.mapM fun reply => orRaise .parserError (Json.parse reply)

/-- The ids left after the loop of `cache_mentions` has removed the followers; `ids.delete` removes
every occurrence. -/
def removeFollowers (ids followers : List ℕ) : List ℕ :=
  followers.foldl (fun ids follower =>
    if follower ∈ ids then ids.filter fun id => id ≠ follower else ids) ids

/-- `RedisClass.cache_mentions(ids, tweet, user_id)`. -/
def cacheMentions (ids : List ℕ) (tweet : Entry) (userId : ℕ) : Prog Unit := do
  let followers := Follow.followersOf (← get).db userId
  (removeFollowers ids followers).forM fun id => lpush (Slot.hfeed id).key tweet.toJson

/-- `RedisClass.cache_tags(tags, tweet)`. -/
def cacheTags (tags : List Text) (tweet : Entry) : Prog Unit :=
  tags.forM fun t => lpush (Slot.tag t).key tweet.toJson

def accessTag (name : Text) : Prog (List Text) := lrange (Slot.tag name).key

/-- A user id as a member of a likes set: `nil` is sent to Redis as the empty text. -/
def member (uId : Option ℕ) : Text :=
  match uId with
  | some n => decimal n
  | none => []

/-- `RedisClass.cache_likes(u_id, t_id)`. -/
def cacheLikes (uId : Option ℕ) (tId : ℕ) : Prog Unit := sadd (Slot.likes tId).key (member uId)

/-- `RedisClass.liked_before?(u_id, t_id)`. -/
def likedBefore (uId : Option ℕ) (tId : ℕ) : Prog Bool :=
  sismember (Slot.likes tId).key (member uId)

theorem member_injective : Function.Injective member := by
  intro a b h
  cases a with
  | none =>
    cases b with
    | none => rfl
    | some n => exact absurd h.symm (Ruby.decimal_ne_nil n)
  | some m =>
    cases b with
    | none => exact absurd h (Ruby.decimal_ne_nil m)
    | some n => exact congrArg some (Ruby.decimal_injective h)

/-- The followers' ids are gone, all others stay. -/
theorem count_removeFollowers (ids followers : List ℕ) (u : ℕ) :
    (removeFollowers ids followers).count u = if u ∈ followers then 0 else ids.count u := by
  unfold removeFollowers
  induction followers generalizing ids with
  | nil => simp
  | cons f fs ih =>
    rw [List.foldl_cons, ih]
    by_cases hu : u ∈ fs
    · simp [hu]
    · by_cases hf : u = f
      · subst hf
        by_cases hm : u ∈ ids <;> simp [hu, hm, List.count_eq_zero]
      · have hcount : (ids.filter fun id => id ≠ f).count u = ids.count u :=
          List.count_filter (by simpa using hf)
        split_ifs <;> simp_all

end NanoTwitter
