import Mathlib.Tactic
import NanoTwitter.Lib.Run
import NanoTwitter.Model.Cache

/-!
# The front feed as a window over the tweet log

Calls of the cache functions one after the other, each on whatever database there is at the time.
`cache_tweet` evicts the oldest entry of the front feed when it finds fifty and pushes the new one.
`accessFfeed_run`: from an empty cache on, the front feed holds the last fifty tweets that were
passed to `cache_tweet`, newest first; no other cache function touches it.
-/

namespace NanoTwitter

/-- A call of a writing function of `RedisClass`. -/
inductive CacheOp
  | cacheTweet (tweet : Entry) (userId : ℕ)
  | cacheReply (reply : Entry) (tweetId : Text)
  | cacheMentions (ids : List ℕ) (tweet : Entry) (userId : ℕ)
  | cacheTags (tags : List Text) (tweet : Entry)
  | cacheLikes (userId : Option ℕ) (tweetId : ℕ)

namespace CacheOp

/-- The code of a call. -/
def code : CacheOp → Prog Unit
  | .cacheTweet tweet userId => NanoTwitter.cacheTweet tweet userId
  | .cacheReply reply tweetId => NanoTwitter.cacheReply reply tweetId
  | .cacheMentions ids tweet userId => NanoTwitter.cacheMentions ids tweet userId
  | .cacheTags tags tweet => NanoTwitter.cacheTags tags tweet
  | .cacheLikes userId tweetId => NanoTwitter.cacheLikes userId tweetId

/-- The tweet that a call of `cache_tweet` was passed. -/
def tweet? : CacheOp → Option Entry
  | .cacheTweet tweet _ => some tweet
  | _ => none

end CacheOp

/-- Run a call on the database `e.1`. -/
def cacheStep (w : World) (e : Db × CacheOp) : World := e.2.code.exec { w with db := e.1 }

/-- The tweets passed to `cache_tweet`, oldest first. -/
def tweetLog (es : List (Db × CacheOp)) : List Entry := es.filterMap fun e => e.2.tweet?

/-! ### The window -/

/-- The last fifty entries of a log, newest first, as they are cached. -/
def window (log : List Entry) : List Text := (log.reverse.take 50).map Entry.toJson

/-- A full window drops its oldest entry for a new one, any other just takes it. -/
theorem window_concat (log : List Entry) (e : Entry) :
    window (log ++ [e]) =
      e.toJson :: (if (window log).length = 50 then (window log).dropLast else window log) := by
  unfold window
  rw [List.reverse_append, List.reverse_singleton, List.singleton_append, List.take_succ_cons,
    List.map_cons, List.length_map, List.length_take, List.length_reverse]
  congr 1
  split_ifs with h
  · rw [← List.map_dropLast, List.dropLast_eq_take, List.length_take, List.length_reverse, h,
      List.take_take]
    rfl
  · have hshort : log.reverse.length ≤ 49 := by
      rw [List.length_reverse]
      omega
    rw [List.take_of_length_le hshort, List.take_of_length_le (hshort.trans (by decide))]

theorem Cache.feeds_pushAll_of_notMem {ss : List Slot} {j : Slot} (h : j ∉ ss) (c : Cache)
    (v : Text) : (c.pushAll ss v).feeds j = c.feeds j := by
  rw [Cache.feeds_pushAll, List.count_eq_zero.2 h]
  rfl

/-- `cache_tweet` moves the front feed on by one entry. -/
theorem feeds_cacheTweet_ffeed (c : Cache) (v : Text) (userId : ℕ) (followers : List ℕ) :
    (c.cacheTweet v userId followers).feeds .ffeed =
      v :: (if (c.feeds .ffeed).length = 50 then (c.feeds .ffeed).dropLast
        else c.feeds .ffeed) := by
  rw [Cache.cacheTweet, Cache.feeds_pushAll_of_notMem (by simp), Cache.feeds_push,
    if_neg (by simp), Cache.feeds_pushFront, if_pos rfl]

/-- The cache is in order and its front feed is the window over `log`. -/
def ShowsWindow (w : World) (log : List Entry) : Prop :=
  WellTyped w.redis ∧ (view w.redis).feeds .ffeed = window log

theorem showsWindow_of_refines {p : Prog Unit} {f : Db → Cache → Cache} (hp : Refines p f)
    {w : World} {log log' : List Entry} (h : ShowsWindow w log)
    (hf : ∀ c, c.feeds .ffeed = window log → (f w.db c).feeds .ffeed = window log') :
    ShowsWindow (p.exec w) log' := by
  obtain ⟨r, hrun, ht, hv⟩ := hp w h.1
  rw [EStateM.exec_of_ok hrun]
  refine ⟨ht, ?_⟩
  rw [World.redis_setRedis, hv]
  exact hf _ h.2

/-- One call extends the log by the tweet it was passed, if any. -/
theorem showsWindow_step {w : World} {log : List Entry} (h : ShowsWindow w log)
    (e : Db × CacheOp) : ShowsWindow (cacheStep w e) (log ++ e.2.tweet?.toList) := by
  obtain ⟨db, op⟩ := e
  have hw : ShowsWindow { w with db := db } log := h
  have hkeep : ∀ {p f}, Refines p f → (∀ c, (f db c).feeds .ffeed = c.feeds .ffeed) →
      ShowsWindow (p.exec { w with db := db }) (log ++ []) := fun hp hf =>
    showsWindow_of_refines hp hw fun c hc => by rw [hf, hc, List.append_nil]
  cases op with
  | cacheTweet tweet userId =>
    refine showsWindow_of_refines (refines_cacheTweet tweet userId) hw fun c hc => ?_
    rw [feeds_cacheTweet_ffeed, hc]
    exact (window_concat log tweet).symm
  | cacheReply reply tweetId =>
    exact hkeep (refines_cacheReply reply tweetId) fun c => by
      rw [Cache.feeds_append, if_neg (by simp)]
  | cacheMentions ids tweet userId =>
    exact hkeep (refines_cacheMentions ids tweet userId) fun c =>
      Cache.feeds_pushAll_of_notMem (by simp) c _
  | cacheTags tags tweet =>
    exact hkeep (refines_cacheTags tags tweet) fun c =>
      Cache.feeds_pushAll_of_notMem (by simp) c _
  | cacheLikes userId tweetId => exact hkeep (refines_cacheLikes userId tweetId) fun c => rfl

theorem showsWindow_run {w : World} {log : List Entry} (h : ShowsWindow w log)
    (es : List (Db × CacheOp)) :
    ShowsWindow (Run.run cacheStep w es) (log ++ tweetLog es) := by
  induction es generalizing w log with
  | nil => simpa [tweetLog] using h
  | cons e es ih =>
    have := ih (showsWindow_step h e)
    rw [List.append_assoc] at this
    rw [Run.run_cons]
    convert this using 2
    cases he : e.2.tweet? <;> simp [tweetLog, he]

/-- **`access_ffeed` returns the last `min n 50` of the `n` tweets passed to `cache_tweet`, newest
first**, whatever other cache functions were called in between. -/
theorem accessFfeed_run (db : Db) (es : List (Db × CacheOp)) :
    let w := Run.run cacheStep ⟨db, Store.empty⟩ es
    accessFfeed w = .ok
      (((tweetLog es).reverse.take (min (tweetLog es).length 50)).map Entry.toJson) w := by
  have hstart : ShowsWindow ⟨db, Store.empty⟩ [] := ⟨wellTyped_empty, rfl⟩
  obtain ⟨ht, hv⟩ := showsWindow_run hstart es
  intro w
  have hread : accessFfeed w = .ok ((view w.redis).feeds .ffeed) w := lrange_eq ht rfl
  rw [hread, hv, List.nil_append, window, min_comm, ← List.length_reverse, List.take_eq_take_min]

end NanoTwitter
