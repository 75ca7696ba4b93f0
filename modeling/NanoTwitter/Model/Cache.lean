import Mathlib.Tactic
import NanoTwitter.Model.TweetProcessor

/-!
# The cache behind the keys

What `RedisClass` is for: a `Cache` assigns a list of texts to every feed (front page, profiles,
homes, replies, tags) and a set of likers to every tweet. `view` reads it off the Redis content.

The Redis content is `WellTyped` when the keys of the feeds hold lists and those of the likes sets
hold sets. On well typed contents no command of `redis_operations.rb` fails, and each function
`Refines` a function of caches (`refines_cacheTweet` and its companions): it returns, keeps the
content well typed and changes the view as that function says.
-/

namespace NanoTwitter

open Ruby (Time)
open EStateM (Keeps Reads keeps_pure keeps_get keeps_forM)

/-- The feeds and the likers of all tweets. -/
@[ext] structure Cache where
  feeds : Slot → List Text
  likers : ℕ → Finset Text

namespace Cache

/-- Put `v` in front of the feed `s`. -/
def push (c : Cache) (s : Slot) (v : Text) : Cache :=
  { c with feeds := Function.update c.feeds s (v :: c.feeds s) }

/-- Put `v` at the end of the feed `s`. -/
def append (c : Cache) (s : Slot) (v : Text) : Cache :=
  { c with feeds := Function.update c.feeds s (c.feeds s ++ [v]) }

/-- Drop the oldest entry of the feed `s`. -/
def dropOldest (c : Cache) (s : Slot) : Cache :=
  { c with feeds := Function.update c.feeds s (c.feeds s).dropLast }

/-- Add a liker of tweet `t`. -/
def like (c : Cache) (t : ℕ) (m : Text) : Cache :=
  { c with likers := Function.update c.likers t (insert m (c.likers t)) }

/-- Push `v` to several feeds, one after the other. -/
def pushAll (c : Cache) (ss : List Slot) (v : Text) : Cache := ss.foldl (fun c s => c.push s v) c

/-- The front page takes `v` and keeps at most fifty entries, if it held at most fifty. -/
def pushFront (c : Cache) (v : Text) : Cache :=
  (if (c.feeds .ffeed).length = 50 then c.dropOldest .ffeed else c).push .ffeed v

/-- What `cache_tweet` does, given the followers of the author. -/
def cacheTweet (c : Cache) (v : Text) (userId : ℕ) (followers : List ℕ) : Cache :=
  ((c.pushFront v).push (.pfeed userId) v).pushAll (followers.map .hfeed) v

/-- What `cache_mentions` does. -/
def cacheMentions (c : Cache) (v : Text) (ids followers : List ℕ) : Cache :=
  c.pushAll ((removeFollowers ids followers).map .hfeed) v

theorem feeds_push (c : Cache) (s j : Slot) (v : Text) :
    (c.push s v).feeds j = if j = s then v :: c.feeds j else c.feeds j := by
  unfold push
  split_ifs with h
  · subst h; simp
  · simp [h]

theorem feeds_append (c : Cache) (s j : Slot) (v : Text) :
    (c.append s v).feeds j = if j = s then c.feeds j ++ [v] else c.feeds j := by
  unfold append
  split_ifs with h
  · subst h; simp
  · simp [h]

theorem feeds_dropOldest (c : Cache) (s j : Slot) :
    (c.dropOldest s).feeds j = if j = s then (c.feeds j).dropLast else c.feeds j := by
  unfold dropOldest
  split_ifs with h
  · subst h; simp
  · simp [h]

theorem feeds_pushFront (c : Cache) (v : Text) (j : Slot) :
    (c.pushFront v).feeds j =
      if j = .ffeed then v :: (if (c.feeds .ffeed).length = 50 then (c.feeds .ffeed).dropLast
        else c.feeds .ffeed)
      else c.feeds j := by
  unfold pushFront
  rw [feeds_push]
  by_cases hj : j = .ffeed
  · subst hj
    simp only [if_true]
    split_ifs
    · rw [feeds_dropOldest, if_pos rfl]
    · rfl
  · rw [if_neg hj, if_neg hj]
    split_ifs
    · rw [feeds_dropOldest, if_neg hj]
    · rfl

@[simp] theorem likers_push (c : Cache) (s : Slot) (v : Text) :
    (c.push s v).likers = c.likers := rfl

theorem likers_like (c : Cache) (t j : ℕ) (m : Text) :
    (c.like t m).likers j = if j = t then insert m (c.likers t) else c.likers j :=
  Function.update_apply _ _ _ _

/-- A push to several feeds adds one copy for each mention of the feed. -/
theorem feeds_pushAll (c : Cache) (ss : List Slot) (v : Text) (j : Slot) :
    (c.pushAll ss v).feeds j = List.replicate (ss.count j) v ++ c.feeds j := by
  induction ss generalizing c with
  | nil => simp [pushAll]
  | cons s ss ih =>
    have hcons : c.pushAll (s :: ss) v = (c.push s v).pushAll ss v := rfl
    rw [hcons, ih, feeds_push, List.count_cons]
    by_cases h : j = s
    · subst h
      simp [List.replicate_succ', List.append_assoc]
    · simp [h, Ne.symm h]

/-- Every entry of every feed has the property `A`. -/
def Holds (A : Text → Prop) (c : Cache) : Prop := ∀ s, ∀ v ∈ c.feeds s, A v

section Holds

variable {A : Text → Prop} {c : Cache} {v : Text}

theorem Holds.push (h : c.Holds A) (hv : A v) (s : Slot) : (c.push s v).Holds A := by
  intro j x hx
  rw [feeds_push] at hx
  split_ifs at hx
  · exact (List.mem_cons.1 hx).elim (fun hxv => hxv ▸ hv) (h j x)
  · exact h j x hx

theorem Holds.append (h : c.Holds A) (hv : A v) (s : Slot) : (c.append s v).Holds A := by
  intro j x hx
  rw [feeds_append] at hx
  split_ifs at hx
  · exact (List.mem_append.1 hx).elim (h j x) fun hxv => List.mem_singleton.1 hxv ▸ hv
  · exact h j x hx

theorem Holds.dropOldest (h : c.Holds A) (s : Slot) : (c.dropOldest s).Holds A := by
  intro j x hx
  rw [feeds_dropOldest] at hx
  split_ifs at hx
  · exact h j x (List.mem_of_mem_dropLast hx)
  · exact h j x hx

theorem Holds.pushAll (h : c.Holds A) (hv : A v) (ss : List Slot) : (c.pushAll ss v).Holds A := by
  intro j x hx
  rw [feeds_pushAll, List.mem_append] at hx
  exact hx.elim (fun hxv => (List.mem_replicate.1 hxv).2 ▸ hv) (h j x)

theorem Holds.pushFront (h : c.Holds A) (hv : A v) : (c.pushFront v).Holds A := by
  unfold Cache.pushFront
  split_ifs
  · exact (h.dropOldest .ffeed).push hv .ffeed
  · exact h.push hv .ffeed

theorem Holds.cacheTweet (h : c.Holds A) (hv : A v) (userId : ℕ) (followers : List ℕ) :
    (c.cacheTweet v userId followers).Holds A :=
  ((h.pushFront hv).push hv _).pushAll hv _

end Holds

end Cache

/-! ### The view of the Redis content -/

/-- The cache that a Redis content stands for. -/
def view (r : Store Text Text) : Cache where
  feeds s := (r.list? s.key).getD []
  likers t := (r.set? (Slot.likes t).key).getD ∅

/-- The keys of feeds hold lists, the keys of likes hold sets. -/
structure WellTyped (r : Store Text Text) : Prop where
  feeds : ∀ s : Slot, s.isFeed = true → (r.list? s.key).isSome
  likes : ∀ t : ℕ, (r.set? (Slot.likes t).key).isSome

theorem wellTyped_empty : WellTyped Store.empty := ⟨fun _ _ => rfl, fun _ => rfl⟩

theorem list?_eq_view {r : Store Text Text} (h : WellTyped r) {s : Slot} (hs : s.isFeed = true) :
    r.list? s.key = some ((view r).feeds s) := by
  obtain ⟨l, hl⟩ := Option.isSome_iff_exists.1 (h.feeds s hs)
  simp [view, hl]

theorem set?_eq_view {r : Store Text Text} (h : WellTyped r) (t : ℕ) :
    r.set? (Slot.likes t).key = some ((view r).likers t) := by
  obtain ⟨m, hm⟩ := Option.isSome_iff_exists.1 (h.likes t)
  simp [view, hm]

theorem likes_ne_of_isFeed {s : Slot} (hs : s.isFeed = true) (t : ℕ) : Slot.likes t ≠ s := by
  rintro rfl
  simp [Slot.isFeed] at hs

/-- A change of the list under the key of one feed. -/
theorem view_of_list {r q : Store Text Text} (h : WellTyped r) {s : Slot} (hs : s.isFeed = true)
    {l : List Text} (hl : q.list? s.key = some l)
    (hlist : ∀ k, k ≠ s.key → q.list? k = r.list? k)
    (hset : ∀ k, k ≠ s.key → q.set? k = r.set? k) :
    WellTyped q ∧
      view q = { view r with feeds := Function.update (view r).feeds s l } := by
  have hlikes : ∀ t, q.set? (Slot.likes t).key = r.set? (Slot.likes t).key := fun t =>
    hset _ (Slot.key_ne (likes_ne_of_isFeed hs t))
  refine ⟨⟨fun j hj => ?_, fun t => by rw [hlikes]; exact h.likes t⟩, ?_⟩
  · by_cases hjs : j = s
    · rw [hjs, hl]; rfl
    · rw [hlist _ (Slot.key_ne hjs)]; exact h.feeds j hj
  · refine Cache.ext (funext fun j => ?_) (funext fun t => ?_)
    · by_cases hjs : j = s
      · subst hjs; simp [view, hl]
      · simp [view, hjs, hlist _ (Slot.key_ne hjs)]
    · simp [view, hlikes]

/-! ### Refinement -/

/-- `p` returns on every well typed content, keeps it well typed, touches nothing but Redis and
changes the view by `f`. -/
def Refines (p : Prog Unit) (f : Db → Cache → Cache) : Prop :=
  ∀ w : World, WellTyped w.redis →
    ∃ r, p w = .ok () (w.setRedis r) ∧ WellTyped r ∧ view r = f w.db (view w.redis)

theorem Refines.seq {p q : Prog Unit} {f g : Db → Cache → Cache} (hp : Refines p f)
    (hq : Refines q g) : Refines (p >>= fun _ => q) fun db c => g db (f db c) := by
  intro w hw
  obtain ⟨r, h1, ht, hv⟩ := hp w hw
  obtain ⟨r', h1', ht', hv'⟩ := hq (w.setRedis r) ht
  refine ⟨r', ?_, ht', ?_⟩
  · rw [EStateM.bind_of_ok h1, h1']; rfl
  · rw [hv']; exact congrArg (g w.db) hv

theorem refines_forM {α : Type} {p : α → Prog Unit} {f : α → Db → Cache → Cache}
    (h : ∀ a, Refines (p a) (f a)) (l : List α) :
    Refines (l.forM p) fun db c => l.foldl (fun c a => f a db c) c := by
  induction l with
  | nil =>
    intro w hw
    exact ⟨w.redis, rfl, hw, rfl⟩
  | cons a l ih => exact (h a).seq ih

theorem command_of_some {c : Store Text Text → Option (Store Text Text)} {w : World}
    {r : Store Text Text} (h : c w.redis = some r) : command c w = .ok () (w.setRedis r) := by
  unfold command; rw [h]

theorem query_of_some {α : Type} {c : Store Text Text → Option α} {w : World} {a : α}
    (h : c w.redis = some a) : query c w = .ok a w := by
  unfold query; rw [h]

theorem query_of_none {α : Type} {c : Store Text Text → Option α} {w : World}
    (h : c w.redis = none) : query c w = .error .commandError w := by
  unfold query; rw [h]

/-- A refined command succeeds on well typed contents. -/
theorem Refines.of_command {c : Store Text Text → Option (Store Text Text)}
    {f : Db → Cache → Cache} (h : Refines (command c) f) {w : World} (hw : WellTyped w.redis) :
    ∃ r, c w.redis = some r ∧ WellTyped r ∧ view r = f w.db (view w.redis) := by
  obtain ⟨r, hrun, ht, hv⟩ := h w hw
  unfold command at hrun
  cases hc : c w.redis with
  | none => rw [hc] at hrun; exact absurd hrun (by simp)
  | some q =>
    rw [hc] at hrun
    obtain rfl : q = r := congrArg World.redis (EStateM.Result.ok.inj hrun).2
    exact ⟨q, rfl, ht, hv⟩

theorem refines_lpush {s : Slot} (hs : s.isFeed = true) (v : Text) :
    Refines (lpush s.key v) fun _ c => c.push s v := by
  intro w hw
  have hl := list?_eq_view hw hs
  obtain ⟨ht, hv⟩ := view_of_list (q := w.redis.put s.key _) hw hs
    (by rw [Store.list?_put_list, if_pos rfl]) (fun k hk => Store.list?_put_of_ne hk _)
    (fun k hk => Store.set?_put_of_ne hk _)
  exact ⟨_, command_of_some (Store.lpush_of_list? hl v), ht, hv⟩

theorem refines_rpush {s : Slot} (hs : s.isFeed = true) (v : Text) :
    Refines (rpush s.key v) fun _ c => c.append s v := by
  intro w hw
  have hl := list?_eq_view hw hs
  obtain ⟨ht, hv⟩ := view_of_list (q := w.redis.put s.key _) hw hs
    (by rw [Store.list?_put_list, if_pos rfl]) (fun k hk => Store.list?_put_of_ne hk _)
    (fun k hk => Store.set?_put_of_ne hk _)
  exact ⟨_, command_of_some (Store.rpush_of_list? hl v), ht, hv⟩

theorem refines_rpop {s : Slot} (hs : s.isFeed = true) :
    Refines (rpop s.key) fun _ c => c.dropOldest s := by
  intro w hw
  obtain ⟨r, hr, hl, hlist, hset⟩ := Store.rpop_of_list? (list?_eq_view hw hs)
  obtain ⟨ht, hv⟩ := view_of_list hw hs hl hlist hset
  exact ⟨r, command_of_some hr, ht, hv⟩

theorem lrange_eq {w : World} (hw : WellTyped w.redis) {s : Slot} (hs : s.isFeed = true) :
    lrange s.key w = .ok ((view w.redis).feeds s) w :=
  query_of_some (list?_eq_view hw hs)

theorem refines_pushAll {α : Type} (s : α → Slot) (hs : ∀ i, (s i).isFeed = true) (l : List α)
    (v : Text) :
    Refines (l.forM fun i => lpush (s i).key v) fun _ c => c.pushAll (l.map s) v := by
  intro w hw
  obtain ⟨r, h1, ht, hv⟩ := refines_forM (fun i => refines_lpush (hs i) v) l w hw
  exact ⟨r, h1, ht, by simp only [hv, Cache.pushAll, List.foldl_map]⟩

theorem refines_cacheFfeed (e : Entry) :
    Refines (cacheFfeed e) fun _ c => c.pushFront e.toJson := by
  intro w hw
  have hf : Slot.ffeed.isFeed = true := rfl
  unfold cacheFfeed
  rw [EStateM.bind_of_ok (lrange_eq hw hf)]
  by_cases h50 : ((view w.redis).feeds .ffeed).length = 50
  · obtain ⟨r, h1, ht, hv⟩ := ((refines_rpop hf).seq (refines_lpush hf e.toJson)) w hw
    exact ⟨r, by rw [if_pos h50]; exact h1, ht, by simp only [hv, Cache.pushFront, if_pos h50]⟩
  · obtain ⟨r, h1, ht, hv⟩ := refines_lpush hf e.toJson w hw
    exact ⟨r, by rw [if_neg h50]; exact h1, ht, by simp only [hv, Cache.pushFront, if_neg h50]⟩

/-- **`cache_tweet` puts a tweet on the front page, on its author's profile and on the home of
every follower.** -/
theorem refines_cacheTweet (e : Entry) (userId : ℕ) :
    Refines (cacheTweet e userId) fun db c =>
      c.cacheTweet e.toJson userId (Follow.followersOf db userId) := by
  have hfan : Refines
      (do let followers := Follow.followersOf (← get).db userId
          followers.forM fun follower => lpush (Slot.hfeed follower).key e.toJson)
      fun db c => c.pushAll ((Follow.followersOf db userId).map .hfeed) e.toJson := fun w hw =>
    refines_pushAll .hfeed (fun _ => rfl) (Follow.followersOf w.db userId) e.toJson w hw
  have hself : Refines (lpush (Slot.pfeed userId).key e.toJson) fun _ c =>
      c.push (.pfeed userId) e.toJson := refines_lpush rfl e.toJson
  exact (refines_cacheFfeed e).seq (hself.seq hfan)

theorem refines_cacheReply (e : Entry) (tweetId : Text) :
    Refines (cacheReply e tweetId) fun _ c => c.append (.replies tweetId) e.toJson :=
  refines_rpush rfl e.toJson

theorem refines_cacheMentions (ids : List ℕ) (e : Entry) (userId : ℕ) :
    Refines (cacheMentions ids e userId) fun db c =>
      c.cacheMentions e.toJson ids (Follow.followersOf db userId) := fun w hw =>
  refines_pushAll .hfeed (fun _ => rfl) (removeFollowers ids (Follow.followersOf w.db userId))
    e.toJson w hw

theorem refines_cacheTags (tags : List Text) (e : Entry) :
    Refines (cacheTags tags e) fun _ c => c.pushAll (tags.map .tag) e.toJson :=
  refines_pushAll .tag (fun _ => rfl) tags e.toJson

theorem refines_cacheLikes (uId : Option ℕ) (tId : ℕ) :
    Refines (cacheLikes uId tId) fun _ c => c.like tId (member uId) := by
  intro w hw
  have hm := set?_eq_view hw tId
  have hfeed : ∀ s : Slot, s.isFeed = true → ∀ v,
      (w.redis.put (Slot.likes tId).key v).list? s.key = w.redis.list? s.key := fun s hs v =>
    Store.list?_put_of_ne (Slot.key_ne (likes_ne_of_isFeed hs tId).symm) v
  have hcmd : cacheLikes uId tId w = .ok () (w.setRedis (w.redis.put (Slot.likes tId).key
      (some (.set (insert (member uId) ((view w.redis).likers tId)))))) :=
    command_of_some (c := fun r => r.sadd (Slot.likes tId).key (member uId))
      (Store.sadd_of_set? hm (member uId))
  refine ⟨_, hcmd, ⟨fun s hs => ?_, fun t => ?_⟩, ?_⟩
  · rw [hfeed s hs]; exact hw.feeds s hs
  · rw [Store.set?_put_set]
    split_ifs
    · rfl
    · exact hw.likes t
  · refine Cache.ext (funext fun s => ?_) (funext fun t => ?_)
    · by_cases hs : s = .likes tId
      · -- a set is no list, before and after
        subst hs
        have hafter := Store.set?_put_set (s := w.redis) (Slot.likes tId).key (Slot.likes tId).key
          (insert (member uId) ((view w.redis).likers tId))
        rw [if_pos rfl] at hafter
        simp only [view, Cache.like, Store.list?_of_set? hm]
        exact Store.list?_of_set? hafter
      · simp [view, Cache.like, Store.list?_put_of_ne (Slot.key_ne hs)]
    · by_cases ht : t = tId
      · subst ht; simp [view, Cache.like, Store.set?_put_set]
      · have hne : (Slot.likes t).key ≠ (Slot.likes tId).key :=
          Slot.key_ne fun h => ht (by injection h)
        simp [view, Cache.like, ht, Store.set?_put_of_ne hne]

theorem likedBefore_eq {w : World} (hw : WellTyped w.redis) (uId : Option ℕ) (tId : ℕ) :
    likedBefore uId tId w = .ok (decide (member uId ∈ (view w.redis).likers tId)) w := by
  have h : w.redis.sismember (Slot.likes tId).key (member uId) =
      some (decide (member uId ∈ (view w.redis).likers tId)) := by
    rw [Store.sismember, set?_eq_view hw]
    rfl
  exact query_of_some (c := fun r => r.sismember (Slot.likes tId).key (member uId)) h

/-! ### The database is left alone -/

/-- The two worlds have the same database. -/
def SameDb (w w' : World) : Prop := w'.db = w.db

instance : IsPreorder World SameDb where
  refl _ := rfl
  trans _ _ _ h h' := Eq.trans h' h

theorem sameDb_command (c : Store Text Text → Option (Store Text Text)) :
    Keeps SameDb (command c) := by
  intro w
  unfold EStateM.exec command
  cases c w.redis <;> rfl

theorem reads_query {α : Type} (c : Store Text Text → Option α) : Reads (query c) := by
  intro w
  unfold EStateM.exec query
  cases c w.redis <;> rfl

theorem reads_find (i : Option ℕ) : Reads (User.find i) := by
  intro w
  unfold EStateM.exec User.find
  cases i.bind w.db.users.find <;> rfl

theorem sameDb_cacheTweet (e : Entry) (userId : ℕ) : Keeps SameDb (cacheTweet e userId) := by
  have hpush : ∀ k v, Keeps SameDb (lpush k v) := fun k v => sameDb_command _
  have hfront : Keeps SameDb (cacheFfeed e) := by
    refine (reads_query _).keeps.bind fun l => ?_
    split_ifs
    · exact (sameDb_command _).bind fun _ => hpush _ _
    · exact hpush _ _
  exact hfront.bind fun _ => (hpush _ _).bind fun _ => keeps_get.bind fun _ =>
    keeps_forM (fun _ => hpush _ _) _

theorem sameDb_cacheLikes (uId : Option ℕ) (tId : ℕ) : Keeps SameDb (cacheLikes uId tId) :=
  sameDb_command fun r => r.sadd (Slot.likes tId).key (member uId)

theorem reads_likedBefore (uId : Option ℕ) (tId : ℕ) : Reads (likedBefore uId tId) :=
  reads_query fun r => r.sismember (Slot.likes tId).key (member uId)

theorem sameDb_cacheReply (e : Entry) (tweetId : Text) : Keeps SameDb (cacheReply e tweetId) :=
  sameDb_command fun r => r.rpush (Slot.replies tweetId).key e.toJson

theorem sameDb_publishMarks (p : Processed) (e : Entry) (userId : ℕ) :
    Keeps SameDb (publishMarks p e userId) := by
  unfold publishMarks
  split_ifs
  · exact keeps_get.bind fun _ => keeps_forM (fun _ => sameDb_command _) _
  · exact keeps_forM (fun _ => sameDb_command _) _
  · exact keeps_pure ()

end NanoTwitter
