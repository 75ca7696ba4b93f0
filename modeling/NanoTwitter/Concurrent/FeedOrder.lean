import Mathlib.Tactic
import NanoTwitter.Concurrent.Counters
import NanoTwitter.Concurrent.FrontFeedCap
import NanoTwitter.Sequential.FeedEntries

/-!
# The order of the feeds under concurrent calls

`make_tweet` as a thread, command by command: the look-ups of the author and of the mentioned users,
the `INSERT` of the row (with the time that the clock shows then), the save of the author's counter,
and every Redis command of the cache functions. A call that runs alone does what the function does
(`solo_tweetThread`).

The front page, the walls, the home feeds and the lists of the tags are pushed to at the front, each
by a command of its own, so two calls can overtake each other differently in different lists
(`overtaken_tweet`). Rows get their ids in the order of their creation. If a call pushes only while
no call with an older row is under way, and the clock does not go back (`InTurn`), all these lists
stay sorted by id, and hence by time (`feeds_agree_of_inTurn`).
-/

namespace NanoTwitter

open Ruby (Time)
open Interleave
open scoped List

/-! ### The threads -/

/-- What `process_text` returns when all words are processed. -/
def processedWords (words : List Word) : Processed :=
  ⟨Ruby.join (words.map Word.text), words.filterMap Word.mention, words.filterMap Word.tag⟩

/-- The control points of `make_tweet`. -/
inductive TweetPc
  | load (text : Option Text) (id : Option ℕ) (replyId : Option Text)
  | words (user : Row User) (replyId : Option Text) (ready : List Word) (rest : List Text)
  | create (user : Row User) (replyId : Option Text) (processed : Processed)
  | count (x : Publication)
  | cache (x : Publication) (pc : CachePc)
  | reply (x : Publication) (replyId : Text)
  | marks (x : Publication)
  | mentions (x : Publication) (rest : List ℕ)
  | tags (x : Publication) (rest : List Text)
  | done

namespace TweetPc

/-- Send a command; an error ends the thread. -/
def send (c : Store Text Text → Option (Store Text Text)) (next : TweetPc) (w : World) :
    World × TweetPc :=
  match c w.redis with
  | some r => (w.setRedis r, next)
  | none => (w, .done)

/-- After the row: a tweet is counted and cached, a reply is filed. -/
def published (x : Publication) : TweetPc :=
  match x.replyId with
  | none => .count x
  | some replyId => .reply x replyId

/-- Inside `cache_tweet`; an error ends the whole thread. -/
def caching (x : Publication) : CachePc → TweetPc
  | .done => .done
  | pc => .cache x pc

/-- The command at a control point. -/
def step (P : Platform) (pc : TweetPc) (now : Time) (w : World) : World × TweetPc :=
  match pc with
  | .load text id replyId =>
      match id.bind w.db.users.find, text with
      | some user, some text => (w, .words user replyId [] (Ruby.split text))
      | _, _ => (w, .done)
  | .words user replyId ready [] => (w, .create user replyId (processedWords ready))
  | .words user replyId ready (word :: rest) =>
      match processWord w.db.users word with
      | .ok r => (w, .words user replyId (ready ++ [r]) rest)
      | .error _ => (w, .done)
  | .create user replyId processed =>
      match Tweet.create now processed.text user w with
      | .ok t w' =>
          (w', published ⟨user, replyId, processed, ⟨user.attrs.userName, processed.text,
            t.map fun r => r.attrs.createdAt, t.map Row.id⟩⟩)
      | .error _ w' => (w', .done)
  -- the save of the author touches neither rows of tweets nor lists
  | .count x => ((incrementTweets P now x.user).exec w, .cache x .test)
  | .cache x (.fan []) => (w, .marks x)
  | .cache x pc =>
      ((CacheCall.pcStep x.tweet x.user.id pc w).1,
        caching x (CacheCall.pcStep x.tweet x.user.id pc w).2)
  | .reply x replyId =>
      send (fun r => r.rpush (Slot.replies replyId).key x.tweet.toJson) (.marks x) w
  | .marks x =>
      if x.processed.mentions.length > 0 then
        (w, .mentions x (removeFollowers x.processed.mentions
          (Follow.followersOf w.db x.user.id)))
      else if x.processed.tags.length > 0 then (w, .tags x x.processed.tags)
      else (w, .done)
  | .mentions _ [] => (w, .done)
  | .mentions x (u :: rest) =>
      send (fun r => r.lpush (Slot.hfeed u).key x.tweet.toJson) (.mentions x rest) w
  | .tags _ [] => (w, .done)
  | .tags x (t :: rest) =>
      send (fun r => r.lpush (Slot.tag t).key x.tweet.toJson) (.tags x rest) w
  | .done => (w, .done)

end TweetPc

/-- A call `make_tweet(text, id, reply_id)`. -/
structure TweetCall where
  text : Option Text
  id : Option ℕ
  replyId : Option Text

/-- The calls before their first command. -/
def startTweets (w : World) (calls : List TweetCall) : Config World TweetPc :=
  ⟨w, calls.map fun c => .load c.text c.id c.replyId⟩

/-! ### A call that runs alone -/

section Alone

variable {P : Platform} {now : Time} {w w' : World}

/-- Run alone from the control point `pc`, the thread ends and leaves `w'`. -/
def RunsTo (P : Platform) (now : Time) (pc : TweetPc) (w w' : World) : Prop :=
  Ends (TweetPc.step P) now (· = .done) pc w w'

theorem runsTo_done (w : World) : RunsTo P now .done w w := ⟨0, _, rfl, rfl⟩

theorem runsTo_step {pc next : TweetPc} {w₁ : World} (hstep : pc.step P now w = (w₁, next))
    (h : RunsTo P now next w₁ w') : RunsTo P now pc w w' := by
  refine ends_of_step ?_
  rw [hstep]
  exact h

theorem runsTo_send {pc next : TweetPc} {c : Store Text Text → Option (Store Text Text)}
    {q : Prog Unit} (hpc : ∀ w, pc.step P now w = TweetPc.send c next w)
    (h : ∀ w, RunsTo P now next w (q.exec w)) (w : World) :
    RunsTo P now pc w ((command c >>= fun _ => q).exec w) := by
  refine ends_command .done rfl (fun r hr => ?_) (fun hnone => ?_) fun r => h _
  · simp only [hpc, TweetPc.send, hr]
  · simp only [hpc, TweetPc.send, hnone]

/-- Inside `cache_tweet` the thread does what a call of `cache_tweet` does. -/
theorem step_cache {x : Publication} {pc : CachePc} (hfan : pc ≠ .fan []) (w : World) :
    (TweetPc.cache x pc).step P now w =
      ((CacheCall.pcStep x.tweet x.user.id pc w).1,
        TweetPc.caching x (CacheCall.pcStep x.tweet x.user.id pc w).2) := by
  cases pc with
  | fan rest =>
    cases rest with
    | nil => exact absurd rfl hfan
    | cons f rest => rfl
  | _ => rfl

/-- A Redis command of `cache_tweet` is one of the thread. -/
theorem step_cache_send {x : Publication} {pc next : CachePc}
    {c : Store Text Text → Option (Store Text Text)} (hfan : pc ≠ .fan []) (hnext : next ≠ .done)
    (hpc : CacheCall.pcStep x.tweet x.user.id pc w = CacheCall.send c next w) :
    (TweetPc.cache x pc).step P now w = TweetPc.send c (.cache x next) w := by
  have hcaching : TweetPc.caching x next = .cache x next := by
    cases next with
    | done => exact absurd rfl hnext
    | _ => rfl
  rw [step_cache hfan, hpc]
  unfold CacheCall.send TweetPc.send
  cases c w.redis with
  | some r => rw [hcaching]
  | none => rfl

/-- A command of `cache_tweet`, continued as the program is. -/
theorem runsTo_cache {x : Publication} {pc next : CachePc}
    {c : Store Text Text → Option (Store Text Text)} {q : Prog Unit} (hfan : pc ≠ .fan [])
    (hnext : next ≠ .done)
    (hpc : ∀ w, CacheCall.pcStep x.tweet x.user.id pc w = CacheCall.send c next w)
    (h : ∀ w, RunsTo P now (.cache x next) w (q.exec w)) (w : World) :
    RunsTo P now (.cache x pc) w ((command c >>= fun _ => q).exec w) :=
  runsTo_send (fun w => step_cache_send hfan hnext (hpc w)) h w

/-- The words are processed one by one. -/
theorem runsTo_words {user : Row User} {replyId : Option Text} {rest : List Text}
    {ready words : List Word} (hwords : rest.mapM (processWord w.db.users) = .ok words)
    (h : RunsTo P now (.create user replyId (processedWords (ready ++ words))) w w') :
    RunsTo P now (.words user replyId ready rest) w w' := by
  induction rest generalizing ready words with
  | nil =>
    obtain rfl : [] = words := Except.ok.inj hwords
    rw [List.append_nil] at h
    exact runsTo_step rfl h
  | cons word rest ih =>
    rw [List.mapM_cons] at hwords
    obtain ⟨r, hr, hwords⟩ := Except.bind_eq_ok.1 hwords
    obtain ⟨words', hwords', hcons⟩ := Except.bind_eq_ok.1 hwords
    obtain rfl := Except.ok.inj hcons
    refine runsTo_step (by simp only [TweetPc.step, hr]; rfl) (ih hwords' ?_)
    rwa [List.append_assoc, List.singleton_append]

/-- A word that cannot be processed ends the thread. -/
theorem runsTo_words_error {user : Row User} {replyId : Option Text} {rest : List Text}
    {ready : List Word} {e : Error} (hwords : rest.mapM (processWord w.db.users) = .error e) :
    RunsTo P now (.words user replyId ready rest) w w := by
  induction rest generalizing ready e with
  | nil => cases hwords
  | cons word rest ih =>
    cases hr : processWord w.db.users word with
    | error e' => exact runsTo_step (by simp only [TweetPc.step, hr]) (runsTo_done w)
    | ok r =>
      rw [List.mapM_cons, hr] at hwords
      cases hrest : rest.mapM (processWord w.db.users) with
      | ok words => rw [hrest] at hwords; cases hwords
      | error e' => exact runsTo_step (by simp only [TweetPc.step, hr]; rfl) (ih hrest)

theorem runsTo_mentions (x : Publication) (rest : List ℕ) (w : World) :
    RunsTo P now (.mentions x rest) w
      ((rest.forM fun u => lpush (Slot.hfeed u).key x.tweet.toJson).exec w) := by
  induction rest generalizing w with
  | nil => exact runsTo_step rfl (runsTo_done w)
  | cons u rest ih => exact runsTo_send (fun _ => rfl) ih w

theorem runsTo_tags (x : Publication) (rest : List Text) (w : World) :
    RunsTo P now (.tags x rest) w
      ((rest.forM fun t => lpush (Slot.tag t).key x.tweet.toJson).exec w) := by
  induction rest generalizing w with
  | nil => exact runsTo_step rfl (runsTo_done w)
  | cons t rest ih => exact runsTo_send (fun _ => rfl) ih w

theorem runsTo_marks (x : Publication) (w : World) :
    RunsTo P now (.marks x) w ((publishMarks x.processed x.tweet x.user.id).exec w) := by
  unfold publishMarks
  split_ifs with hm ht
  · exact runsTo_step (if_pos hm) (runsTo_mentions x _ w)
  · exact runsTo_step ((if_neg hm).trans (if_pos ht)) (runsTo_tags x _ w)
  · exact runsTo_step ((if_neg hm).trans (if_neg ht)) (runsTo_done w)

theorem runsTo_fan (x : Publication) (rest : List ℕ) (w : World) :
    RunsTo P now (.cache x (.fan rest)) w
      (EStateM.exec (do
        rest.forM fun f => lpush (Slot.hfeed f).key x.tweet.toJson
        publishMarks x.processed x.tweet x.user.id) w) := by
  induction rest generalizing w with
  | nil => exact runsTo_step rfl (runsTo_marks x w)
  | cons f rest ih =>
    rw [List.forM_eq_forM, List.forM_cons, bind_assoc]
    exact runsTo_cache (by simp) (by simp) (fun _ => rfl) ih w

/-- `cache_tweet` and what follows it. -/
theorem runsTo_cacheTweet (x : Publication) (w : World) :
    RunsTo P now (.cache x .test) w
      (EStateM.exec (do
        cacheTweet x.tweet x.user.id
        publishMarks x.processed x.tweet x.user.id) w) := by
  have hwall : ∀ w, RunsTo P now (.cache x .pfeed) w (EStateM.exec (do
      lpush (Slot.pfeed x.user.id).key x.tweet.toJson
      let followers := Follow.followersOf (← get).db x.user.id
      followers.forM fun f => lpush (Slot.hfeed f).key x.tweet.toJson
      publishMarks x.processed x.tweet x.user.id) w) :=
    runsTo_cache (by simp) (by simp) (fun _ => rfl) fun w => runsTo_step rfl (runsTo_fan x _ w)
  unfold cacheTweet cacheFfeed
  simp only [bind_assoc]
  cases hl : w.redis.lrange Slot.ffeed.key with
  | none =>
    have hread : lrange Slot.ffeed.key w = .error .commandError w := query_of_none hl
    have htest : (TweetPc.cache x .test).step P now w = (w, .done) := by
      simp only [step_cache (show CachePc.test ≠ .fan [] by simp), CacheCall.pcStep, hl]
      rfl
    rw [EStateM.exec_of_error (EStateM.bind_of_error hread)]
    exact runsTo_step htest (runsTo_done w)
  | some l =>
    have hread : lrange Slot.ffeed.key w = .ok l w := query_of_some hl
    have htest : (TweetPc.cache x .test).step P now w =
        (w, .cache x (if l.length = 50 then .pop else .push)) := by
      simp only [step_cache (show CachePc.test ≠ .fan [] by simp), CacheCall.pcStep, hl]
      split_ifs <;> rfl
    rw [EStateM.exec_bind_of_ok hread]
    refine runsTo_step htest ?_
    split_ifs
    · simp only [bind_assoc]
      exact runsTo_cache (by simp) (by simp) (fun _ => rfl)
        (runsTo_cache (by simp) (by simp) (fun _ => rfl) hwall) w
    · exact runsTo_cache (by simp) (by simp) (fun _ => rfl) hwall w

theorem runsTo_count (x : Publication) (w : World) :
    RunsTo P now (.count x) w
      (EStateM.exec (do
        incrementTweets P now x.user
        cacheTweet x.tweet x.user.id
        publishMarks x.processed x.tweet x.user.id) w) := by
  have hinc : incrementTweets P now x.user w = .ok () ((incrementTweets P now x.user).exec w) :=
    save_ok now .tweets x.user _ w
  rw [EStateM.exec_bind_of_ok hinc]
  exact runsTo_step rfl (runsTo_cacheTweet x _)

theorem runsTo_reply (x : Publication) (replyId : Text) (w : World) :
    RunsTo P now (.reply x replyId) w
      (EStateM.exec (do
        cacheReply x.tweet replyId
        publishMarks x.processed x.tweet x.user.id) w) := by
  unfold cacheReply rpush
  exact runsTo_send (fun _ => rfl) (runsTo_marks x) w

/-- The thread from the row on. -/
theorem runsTo_create (user : Row User) (replyId : Option Text) (p : Processed) (w : World) :
    RunsTo P now (.create user replyId p) w ((publish P now user replyId p).exec w) := by
  obtain ⟨t, ht, -⟩ := tweetCreate_eq (w := w) now p.text user
  have hpublish : (publish P now user replyId p).exec w = _ := EStateM.exec_bind_of_ok ht
  refine runsTo_step (by simp only [TweetPc.step, ht]; rfl) ?_
  rw [hpublish]
  cases replyId with
  | some i => exact runsTo_reply ⟨user, some i, p, _⟩ i _
  | none =>
    unfold publishTweet
    rw [bind_assoc]
    exact runsTo_count ⟨user, none, p, _⟩ _

/-- **A call that runs alone does what `make_tweet` does.** -/
theorem solo_tweetThread (text : Option Text) (id : Option ℕ) (replyId : Option Text) (w : World) :
    RunsTo P now (.load text id replyId) w ((makeTweet P now text id replyId).exec w) := by
  cases hu : id.bind w.db.users.find with
  | none =>
    rw [makeTweet_exec_noAuthor hu]
    exact runsTo_step (by simp only [TweetPc.step, hu]) (runsTo_done w)
  | some u =>
    rw [makeTweet_exec hu]
    cases text with
    | none => exact runsTo_step (by simp only [TweetPc.step, hu]) (runsTo_done w)
    | some t =>
      refine runsTo_step (by simp only [TweetPc.step, hu]; rfl) ?_
      cases hwords : (Ruby.split t).mapM (processWord w.db.users) with
      | error e =>
        have hp : processText w.db.users (some t) = .error e := by
          simp only [processText, hwords]; rfl
        rw [hp]
        exact runsTo_words_error hwords
      | ok words =>
        have hp : processText w.db.users (some t) = .ok (processedWords words) := by
          simp only [processText, hwords]; rfl
        rw [hp]
        exact runsTo_words hwords (runsTo_create u replyId _ w)

end Alone

/-! ### What a command does to the lists -/

/-- The lists that are read newest first. -/
def Slot.newestFirst : Slot → Bool
  | .ffeed | .pfeed _ | .hfeed _ | .tag _ => true
  | .replies _ | .likes _ => false

theorem Slot.isFeed_of_newestFirst {s : Slot} (h : s.newestFirst = true) : s.isFeed = true := by
  cases s <;> first | rfl | exact h

namespace TweetPc

/-- The tweet of a thread that has stored its row and is not finished. -/
def own : TweetPc → Option Entry
  | .count x | .cache x _ | .reply x _ | .marks x | .mentions x _ | .tags x _ => some x.tweet
  | .load .. | .words .. | .create .. | .done => none

/-- The list that the next command pushes to. -/
def pushes : TweetPc → Option Slot
  | .cache _ .push | .cache _ .pushPopped => some .ffeed
  | .cache x .pfeed => some (.pfeed x.user.id)
  | .cache _ (.fan (f :: _)) => some (.hfeed f)
  | .mentions _ (u :: _) => some (.hfeed u)
  | .tags _ (t :: _) => some (.tag t)
  | _ => none

end TweetPc

/-- What a command can do to the rows of tweets and to the lists: nothing but drop entries, or store
the thread's row, or push the thread's tweet. -/
inductive TweetEffect (now : Time) (pc : TweetPc) (w : World) : World → TweetPc → Prop
  | quiet {w' pc'} (htweets : w'.db.tweets = w.db.tweets)
      (hfeeds : ∀ s : Slot, s.newestFirst = true →
        (view w'.redis).feeds s <+ (view w.redis).feeds s)
      (hown : ∀ e ∈ pc'.own, e ∈ pc.own) : TweetEffect now pc w w' pc'
  | created {user text w' pc'}
      (htweets : w'.db.tweets = createdTweets now user text w.db.tweets)
      (hredis : w'.redis = w.redis)
      (hown : pc'.own = some (createdEntry now user text w.db.tweets)) :
      TweetEffect now pc w w' pc'
  | pushed {s e w' pc'} (hpush : pc.pushes = some s) (hown : pc.own = some e)
      (hown' : ∀ e' ∈ pc'.own, e' = e) (htweets : w'.db.tweets = w.db.tweets)
      (hfeeds : view w'.redis = (view w.redis).push s e.toJson) : TweetEffect now pc w w' pc'

section Effect

variable {now : Time} {pc pc' : TweetPc} {w : World}

/-- A command that changes neither rows nor lists. -/
theorem effect_quiet {w' : World} (htweets : w'.db.tweets = w.db.tweets)
    (hredis : w'.redis = w.redis) (hown : ∀ e ∈ pc'.own, e ∈ pc.own) :
    TweetEffect now pc w w' pc' :=
  .quiet htweets (fun s _ => by rw [hredis]) hown

theorem effect_unowned (hown : pc'.own = none) : TweetEffect now pc w w pc' := by
  refine effect_quiet rfl rfl fun e he => ?_
  rw [hown] at he
  exact absurd he (by simp)

/-- A push of the thread's tweet. -/
theorem effect_push {next : TweetPc} {s : Slot} {e : Entry} (hs : s.newestFirst = true)
    (hw : WellTyped w.redis) (hpush : pc.pushes = some s) (hown : pc.own = some e)
    (hnext : next.own = some e) :
    WellTyped (TweetPc.send (fun r => r.lpush s.key e.toJson) next w).1.redis ∧
      TweetEffect now pc w (TweetPc.send (fun r => r.lpush s.key e.toJson) next w).1
        (TweetPc.send (fun r => r.lpush s.key e.toJson) next w).2 := by
  obtain ⟨r, hr, ht, hv⟩ :=
    (refines_lpush (Slot.isFeed_of_newestFirst hs) e.toJson).of_command hw
  simp only [TweetPc.send, hr]
  exact ⟨ht, .pushed hpush hown (fun e' he' => by simpa [hnext, eq_comm] using he') rfl hv⟩

/-- The commands of `cache_tweet`. -/
theorem effect_cache (P : Platform) (x : Publication) (pc : CachePc) (hw : WellTyped w.redis) :
    WellTyped ((TweetPc.cache x pc).step P now w).1.redis ∧
      TweetEffect now (.cache x pc) w ((TweetPc.cache x pc).step P now w).1
        ((TweetPc.cache x pc).step P now w).2 := by
  have hpush : ∀ (pc next : CachePc) (s : Slot), pc ≠ .fan [] → next ≠ .done →
      s.newestFirst = true → (TweetPc.cache x pc).pushes = some s →
      CacheCall.pcStep x.tweet x.user.id pc w =
        CacheCall.send (fun r => r.lpush s.key x.tweet.toJson) next w →
      WellTyped ((TweetPc.cache x pc).step P now w).1.redis ∧
        TweetEffect now (.cache x pc) w ((TweetPc.cache x pc).step P now w).1
          ((TweetPc.cache x pc).step P now w).2 := by
    intro pc next s hfan hnext hs hpush hpc
    rw [step_cache_send hfan hnext hpc]
    exact effect_push hs hw hpush rfl rfl
  cases pc with
  | test =>
    have hl : w.redis.lrange Slot.ffeed.key = some ((view w.redis).feeds .ffeed) :=
      list?_eq_view hw rfl
    rw [step_cache (by simp)]
    simp only [CacheCall.pcStep, hl]
    split_ifs
    · exact ⟨hw, effect_quiet rfl rfl fun _ h => h⟩
    · exact ⟨hw, effect_quiet rfl rfl fun _ h => h⟩
  | pop =>
    obtain ⟨r, hr, ht, hv⟩ := (refines_rpop (s := .ffeed) rfl).of_command hw
    have hstep : (TweetPc.cache x .pop).step P now w =
        TweetPc.send (fun r => r.rpop Slot.ffeed.key) (.cache x .pushPopped) w :=
      step_cache_send (by simp) (by simp) rfl
    simp only [hstep, TweetPc.send, hr]
    refine ⟨ht, .quiet rfl (fun s _ => ?_) fun _ h => h⟩
    rw [World.redis_setRedis, hv, Cache.feeds_dropOldest]
    split_ifs
    · exact List.dropLast_sublist _
    · exact List.Sublist.refl _
  | pushPopped => exact hpush .pushPopped .pfeed .ffeed (by simp) (by simp) rfl rfl rfl
  | push => exact hpush .push .pfeed .ffeed (by simp) (by simp) rfl rfl rfl
  | pfeed => exact hpush .pfeed .follows (.pfeed x.user.id) (by simp) (by simp) rfl rfl rfl
  | follows => exact ⟨hw, effect_quiet rfl rfl fun _ h => h⟩
  | fan rest =>
    cases rest with
    | nil => exact ⟨hw, effect_quiet rfl rfl fun _ h => h⟩
    | cons f rest =>
      exact hpush (.fan (f :: rest)) (.fan rest) (.hfeed f) (by simp) (by simp) rfl rfl rfl
  | done => exact ⟨hw, effect_unowned rfl⟩

/-- **Every command has one of these effects.** -/
theorem effect_tweetStep (P : Platform) (now : Time) (pc : TweetPc) (hw : WellTyped w.redis) :
    WellTyped (TweetPc.step P pc now w).1.redis ∧
      TweetEffect now pc w (TweetPc.step P pc now w).1 (TweetPc.step P pc now w).2 := by
  cases pc with
  | load text id replyId =>
    simp only [TweetPc.step]
    split
    · exact ⟨hw, effect_unowned rfl⟩
    · exact ⟨hw, effect_unowned rfl⟩
  | words user replyId ready rest =>
    cases rest with
    | nil => exact ⟨hw, effect_unowned rfl⟩
    | cons word rest =>
      simp only [TweetPc.step]
      split
      · exact ⟨hw, effect_unowned rfl⟩
      · exact ⟨hw, effect_unowned rfl⟩
  | create user replyId processed =>
    obtain ⟨t, ht, hentry⟩ := tweetCreate_eq (w := w) now processed.text user
    simp only [TweetPc.step, ht]
    refine ⟨hw, .created rfl rfl ?_⟩
    rw [← hentry]
    cases replyId <;> rfl
  | count x =>
    have hrun := increment_ok (P := P) now .tweets x.user w
    have hexec : (incrementTweets P now x.user).exec w = w.setUsers _ := EStateM.exec_of_ok hrun
    simp only [TweetPc.step, hexec]
    exact ⟨hw, effect_quiet rfl rfl fun _ h => h⟩
  | cache x pc => exact effect_cache P x pc hw
  | reply x replyId =>
    obtain ⟨r, hr, ht, hv⟩ :=
      (refines_rpush (s := .replies replyId) rfl x.tweet.toJson).of_command hw
    simp only [TweetPc.step, TweetPc.send, hr]
    refine ⟨ht, .quiet rfl (fun s hs => ?_) fun _ h => h⟩
    -- the replies are not among the lists
    have hne : s ≠ .replies replyId := by
      rintro rfl
      exact Bool.noConfusion hs
    rw [World.redis_setRedis, hv, Cache.feeds_append, if_neg hne]
  | marks x =>
    simp only [TweetPc.step]
    split_ifs
    · exact ⟨hw, effect_quiet rfl rfl fun _ h => h⟩
    · exact ⟨hw, effect_quiet rfl rfl fun _ h => h⟩
    · exact ⟨hw, effect_unowned rfl⟩
  | mentions x rest =>
    cases rest with
    | nil => exact ⟨hw, effect_unowned rfl⟩
    | cons u rest => exact effect_push rfl hw rfl rfl rfl
  | tags x rest =>
    cases rest with
    | nil => exact ⟨hw, effect_unowned rfl⟩
    | cons t rest => exact effect_push rfl hw rfl rfl rfl
  | done => exact ⟨hw, effect_unowned rfl⟩

end Effect

/-! ### The order of the lists -/

/-- The id in a text of a tweet, if the tweet was stored. -/
def tweetId (v : Text) : Option ℕ :=
  match Json.parse v with
  | some (.arr [_, _, _, .num n]) => some n.toNat
  | _ => none

@[simp] theorem tweetId_toJson (e : Entry) : tweetId e.toJson = e.id := by
  obtain ⟨name, text, time, id⟩ := e
  unfold tweetId Entry.toJson
  rw [Json.parse_render]
  cases id <;> rfl

/-- All stored tweets of the lists have ids in `Q`. -/
def AllIds (w : World) (Q : ℕ → Prop) : Prop :=
  ∀ s : Slot, s.newestFirst = true → ∀ v ∈ (view w.redis).feeds s, ∀ n ∈ tweetId v, Q n

/-- Not older, as far as both are stored tweets. -/
def NotOlder (v v' : Text) : Prop := ∀ n ∈ tweetId v, ∀ m ∈ tweetId v', m ≤ n

/-- The rows were created in the order of their ids, and every list has its newest tweets first. -/
structure NewestFirst (w : World) : Prop where
  wellTyped : WellTyped w.redis
  clock : ∀ a ∈ w.db.tweets.rows, ∀ b ∈ w.db.tweets.rows, a.id ≤ b.id →
    a.attrs.createdAt ≤ b.attrs.createdAt
  stored : AllIds w (· < w.db.tweets.nextId)
  sorted : ∀ s : Slot, s.newestFirst = true → ((view w.redis).feeds s).Pairwise NotOlder

/-- **The lists agree**: two tweets that occur in two lists stand in the same order in both, the one
that was created later first. -/
def FeedsAgree (w : World) : Prop :=
  ∀ a ∈ w.db.tweets.rows, ∀ b ∈ w.db.tweets.rows, a.id ≠ b.id →
    ∀ s s' : Slot, s.newestFirst = true → s'.newestFirst = true →
      (∀ t ∈ [a, b], (rowEntry t).toJson ∈ (view w.redis).feeds s ∧
        (rowEntry t).toJson ∈ (view w.redis).feeds s') →
      ([(rowEntry a).toJson, (rowEntry b).toJson] <+ (view w.redis).feeds s ↔
        [(rowEntry a).toJson, (rowEntry b).toJson] <+ (view w.redis).feeds s') ∧
      ([(rowEntry a).toJson, (rowEntry b).toJson] <+ (view w.redis).feeds s →
        b.attrs.createdAt ≤ a.attrs.createdAt)

/-- Two members of a list stand in one order or in the other. -/
theorem pair_sublist_or {α : Type} {x y : α} (hxy : x ≠ y) {l : List α} (hx : x ∈ l) (hy : y ∈ l) :
    [x, y] <+ l ∨ [y, x] <+ l := by
  induction l with
  | nil => exact absurd hx List.not_mem_nil
  | cons z l ih =>
    rcases List.mem_cons.1 hx with rfl | hx'
    · have hy' := (List.mem_cons.1 hy).resolve_left (Ne.symm hxy)
      exact .inl ((List.singleton_sublist.2 hy').cons_cons x)
    · rcases List.mem_cons.1 hy with rfl | hy'
      · exact .inr ((List.singleton_sublist.2 hx').cons_cons y)
      · exact (ih hx' hy').imp (List.Sublist.cons z) (List.Sublist.cons z)

/-- In a sorted list the ids decide. -/
theorem pair_sublist_iff {l : List Text} (hl : l.Pairwise NotOlder) {a b : Row Tweet}
    (hab : a.id ≠ b.id) (ha : (rowEntry a).toJson ∈ l) (hb : (rowEntry b).toJson ∈ l) :
    [(rowEntry a).toJson, (rowEntry b).toJson] <+ l ↔ b.id < a.id := by
  have hle : ∀ {c d : Row Tweet}, [(rowEntry c).toJson, (rowEntry d).toJson] <+ l → d.id ≤ c.id :=
    fun h => (List.pairwise_iff_forall_sublist.1 hl h) _ (tweetId_toJson _) _ (tweetId_toJson _)
  constructor
  · intro h
    exact lt_of_le_of_ne (hle h) (Ne.symm hab)
  · intro hlt
    have hne : (rowEntry a).toJson ≠ (rowEntry b).toJson := by
      intro h
      have hid := congrArg tweetId h
      rw [tweetId_toJson, tweetId_toJson] at hid
      exact hab (Option.some.inj hid)
    refine (pair_sublist_or hne ha hb).resolve_right fun h => ?_
    exact absurd (hle h) (not_le.2 hlt)

theorem NewestFirst.feedsAgree {w : World} (h : NewestFirst w) : FeedsAgree w := by
  intro a ha b hb hab s s' hs hs' hmem
  have hsa := hmem a List.mem_cons_self
  have hsb := hmem b (List.mem_cons_of_mem a List.mem_cons_self)
  have hiff := pair_sublist_iff (h.sorted s hs) hab hsa.1 hsb.1
  refine ⟨hiff.trans (pair_sublist_iff (h.sorted s' hs') hab hsa.2 hsb.2).symm, fun hsub => ?_⟩
  exact h.clock b hb a ha (hiff.1 hsub).le

/-! ### Calls in turn -/

/-- The clock shows no time before that of a stored tweet; and a thread that pushes its tweet finds
no unfinished thread with an older one. -/
def InTurn (c : Config World TweetPc) (e : ℕ × Time) : Prop :=
  (∀ t ∈ c.shared.db.tweets.rows, t.attrs.createdAt ≤ e.2) ∧
    ∀ pc ∈ c.threads[e.1]?, pc.pushes.isSome = true → ∀ pc' ∈ c.threads,
      ∀ n ∈ pc.own.bind Entry.id, ∀ m ∈ pc'.own.bind Entry.id, n ≤ m

instance (c : Config World TweetPc) (e : ℕ × Time) : Decidable (InTurn c e) :=
  inferInstanceAs (Decidable (_ ∧ ∀ pc ∈ c.threads[e.1]?, pc.pushes.isSome = true →
    ∀ pc' ∈ c.threads, ∀ n ∈ pc.own.bind Entry.id, ∀ m ∈ pc'.own.bind Entry.id, n ≤ m))

/-- The lists are in order, and no list has a tweet newer than that of an unfinished thread. -/
structure OrderInv (c : Config World TweetPc) : Prop where
  newestFirst : NewestFirst c.shared
  owned : ∀ pc ∈ c.threads, ∀ n ∈ pc.own.bind Entry.id,
    n < c.shared.db.tweets.nextId ∧ AllIds c.shared (· ≤ n)

section Step

variable {w w' : World} {Q : ℕ → Prop}

theorem AllIds.mono {R : ℕ → Prop} (h : AllIds w Q) (hQR : ∀ n, Q n → R n) : AllIds w R :=
  fun s hs v hv n hn => hQR n (h s hs v hv n hn)

theorem AllIds.sublist (h : AllIds w Q) (hfeeds : ∀ s : Slot, s.newestFirst = true →
    (view w'.redis).feeds s <+ (view w.redis).feeds s) : AllIds w' Q :=
  fun s hs v hv => h s hs v ((hfeeds s hs).subset hv)

theorem AllIds.push {s : Slot} {e : Entry} (h : AllIds w Q) (he : ∀ n ∈ e.id, Q n)
    (hfeeds : view w'.redis = (view w.redis).push s e.toJson) : AllIds w' Q := by
  intro j hj v hv
  rw [hfeeds, Cache.feeds_push] at hv
  split_ifs at hv
  · rcases List.mem_cons.1 hv with rfl | hv'
    · rw [tweetId_toJson]
      exact he
    · exact h j hj v hv'
  · exact h j hj v hv

/-- The lists after a command that only drops entries. -/
theorem NewestFirst.quiet (h : NewestFirst w) (hw' : WellTyped w'.redis)
    (htweets : w'.db.tweets = w.db.tweets) (hfeeds : ∀ s : Slot, s.newestFirst = true →
      (view w'.redis).feeds s <+ (view w.redis).feeds s) : NewestFirst w' where
  wellTyped := hw'
  clock := by rw [htweets]; exact h.clock
  stored := by rw [htweets]; exact h.stored.sublist hfeeds
  sorted s hs := (h.sorted s hs).sublist (hfeeds s hs)

/-- A tweet that is not older than those on the lists goes to the front. -/
theorem NewestFirst.push {s : Slot} {e : Entry} (h : NewestFirst w) (hw' : WellTyped w'.redis)
    (htweets : w'.db.tweets = w.db.tweets)
    (he : ∀ n ∈ e.id, n < w.db.tweets.nextId ∧ AllIds w (· ≤ n))
    (hfeeds : view w'.redis = (view w.redis).push s e.toJson) : NewestFirst w' where
  wellTyped := hw'
  clock := by rw [htweets]; exact h.clock
  stored := by
    rw [htweets]
    exact h.stored.push (fun n hn => (he n hn).1) hfeeds
  sorted j hj := by
    rw [hfeeds, Cache.feeds_push]
    split_ifs
    · refine List.pairwise_cons.2 ⟨fun v hv n hn m hm => ?_, h.sorted j hj⟩
      rw [tweetId_toJson] at hn
      exact (he n hn).2 j hj v hv m hm
    · exact h.sorted j hj

theorem nextId_le_createdTweets (now : Time) (user : Row User) (text : Text)
    (tweets : Table Tweet) : tweets.nextId ≤ (createdTweets now user text tweets).nextId := by
  unfold createdTweets
  split_ifs
  · exact Nat.le_succ _
  · exact le_rfl

/-- The tweet of a stored row has the id of the row. -/
theorem id_createdEntry {now : Time} {user : Row User} {text : Text} {tweets : Table Tweet} {n : ℕ}
    (hn : n ∈ (createdEntry now user text tweets).id) :
    n = tweets.nextId ∧ n < (createdTweets now user text tweets).nextId := by
  by_cases hv : (Tweet.new now text user).valid true = true
  · rw [createdEntry_of_valid hv] at hn
    obtain rfl : tweets.nextId = n := Option.some.inj hn
    exact ⟨rfl, by rw [createdTweets, if_pos hv]; exact Nat.lt_succ_self _⟩
  · rw [createdEntry_of_not_valid hv] at hn
    exact absurd hn (by simp)

/-- A row that is created at a time not before the others. -/
theorem NewestFirst.create {now : Time} {user : Row User} {text : Text} (h : NewestFirst w)
    (hnow : ∀ t ∈ w.db.tweets.rows, t.attrs.createdAt ≤ now)
    (htweets : w'.db.tweets = createdTweets now user text w.db.tweets)
    (hredis : w'.redis = w.redis) : NewestFirst w' where
  wellTyped := by rw [hredis]; exact h.wellTyped
  stored := by
    have hmono := nextId_le_createdTweets now user text w.db.tweets
    rw [htweets]
    refine AllIds.mono (h.stored.sublist fun s _ => by rw [hredis]) fun n hn => ?_
    exact lt_of_lt_of_le hn hmono
  sorted s hs := by rw [hredis]; exact h.sorted s hs
  clock := by
    rw [htweets, createdTweets]
    split_ifs
    · intro a ha b hb hab
      rw [Table.rows_insert, List.mem_append, List.mem_singleton] at ha hb
      rcases ha with ha | rfl
      · rcases hb with hb | rfl
        · exact h.clock a ha b hb hab
        · exact hnow a ha
      · rcases hb with hb | rfl
        · -- the new row has the largest id
          exact absurd (w.db.tweets.ids_lt b hb) (not_lt.2 hab)
        · exact le_rfl
    · exact h.clock

/-- **A command in turn keeps the lists in order.** -/
theorem orderInv_fire {P : Platform} {c : Config World TweetPc} {e : ℕ × Time} (h : OrderInv c)
    (hturn : InTurn c e) : OrderInv (fire (TweetPc.step P) c e) := by
  cases hpc : c.threads[e.1]? with
  | none => rw [fire_of_none hpc]; exact h
  | some pc =>
    have hmem := List.mem_of_getElem? hpc
    obtain ⟨hw', heffect⟩ := effect_tweetStep (w := c.shared) P e.2 pc h.newestFirst.wellTyped
    rw [fire_of_some hpc]
    generalize (TweetPc.step P pc e.2 c.shared).1 = w' at hw' heffect
    generalize (TweetPc.step P pc e.2 c.shared).2 = pc' at heffect
    cases heffect with
    | quiet htweets hfeeds hown =>
      refine ⟨h.newestFirst.quiet hw' htweets hfeeds, fun q hq n hn => ?_⟩
      have hold : n < c.shared.db.tweets.nextId ∧ AllIds c.shared (· ≤ n) := by
        rcases List.mem_or_eq_of_mem_set hq with hq | rfl
        · exact h.owned q hq n hn
        · obtain ⟨x, hx, hxn⟩ := Option.bind_eq_some_iff.1 hn
          exact h.owned pc hmem n (Option.bind_eq_some_iff.2 ⟨x, hown x hx, hxn⟩)
      exact ⟨by rw [htweets]; exact hold.1, hold.2.sublist hfeeds⟩
    | created htweets hredis hown =>
      refine ⟨h.newestFirst.create hturn.1 htweets hredis, fun q hq n hn => ?_⟩
      have hsame : ∀ {Q : ℕ → Prop}, AllIds c.shared Q → AllIds w' Q := fun hQ =>
        hQ.sublist fun s _ => by rw [hredis]
      rcases List.mem_or_eq_of_mem_set hq with hq | rfl
      · obtain ⟨hlt, hids⟩ := h.owned q hq n hn
        rw [htweets]
        exact ⟨hlt.trans_le (nextId_le_createdTweets _ _ _ _), hsame hids⟩
      · -- the new row has the next id, which is above all ids on the lists
        rw [hown, Option.bind_some] at hn
        obtain ⟨rfl, hlt⟩ := id_createdEntry hn
        rw [htweets]
        exact ⟨hlt, hsame (h.newestFirst.stored.mono fun m hm => hm.le)⟩
    | @pushed s x _ _ hpush hown hown' htweets hfeeds =>
      have hx : ∀ n ∈ x.id, n ∈ pc.own.bind Entry.id := fun n hn => by rwa [hown, Option.bind_some]
      refine ⟨h.newestFirst.push hw' htweets (fun n hn => h.owned pc hmem n (hx n hn)) hfeeds,
        fun q hq n hn => ?_⟩
      rw [htweets]
      rcases List.mem_or_eq_of_mem_set hq with hq | rfl
      · -- a thread that is not finished has a tweet that is not older
        obtain ⟨hlt, hids⟩ := h.owned q hq n hn
        have hturn' := hturn.2 pc hpc (by rw [hpush]; rfl) q hq
        exact ⟨hlt, hids.push (fun m hm => hturn' m (hx m hm) n hn) hfeeds⟩
      · obtain ⟨y, hy, hyn⟩ := Option.bind_eq_some_iff.1 hn
        obtain rfl := hown' y hy
        obtain ⟨hlt, hids⟩ := h.owned pc hmem n (hx n hyn)
        exact ⟨hlt, hids.push (fun m hm => (Option.mem_unique hm hyn).le) hfeeds⟩

end Step

/-- **Calls in turn keep the lists in agreement.** Any number of calls, interleaved command by
command, from a state whose lists are in order: if every command is in turn, then in every state of
the run any two tweets stand in the same order in all lists that have both, newest first. -/
theorem feeds_agree_of_inTurn (P : Platform) {w : World} (hw : NewestFirst w)
    (calls : List TweetCall) (es : List (ℕ × Time))
    (hes : Run.EachStep (fire (TweetPc.step P)) InTurn (startTweets w calls) es) :
    Run.Always (fire (TweetPc.step P)) (fun c => FeedsAgree c.shared) (startTweets w calls) es := by
  have hstart : OrderInv (startTweets w calls) := by
    refine ⟨hw, fun pc hpc n hn => ?_⟩
    obtain ⟨call, -, rfl⟩ := List.mem_map.1 hpc
    exact absurd hn (by simp [TweetPc.own])
  intro p hp
  exact (Run.always_of_eachStep (fun _ _ => orderInv_fire) hstart hes p hp).newestFirst.feedsAgree

/-- Without tweets there is nothing to order. -/
theorem newestFirst_of_no_tweets {w : World} (hrows : w.db.tweets.rows = [])
    (hredis : w.redis = Store.empty) : NewestFirst w where
  wellTyped := by rw [hredis]; exact wellTyped_empty
  clock := by rw [hrows]; simp
  stored s _ v hv := by
    rw [hredis] at hv
    exact absurd hv List.not_mem_nil
  sorted s _ := by
    rw [hredis]
    exact List.Pairwise.nil

/-- The first user tweets twice. -/
def twoTweets : Config World TweetPc :=
  startTweets threeUsers [⟨some "one", some 1, none⟩, ⟨some "two", some 1, none⟩]

/-- The second call stores its row while the first one is between its row and its pushes, and waits
for it then. -/
def waiting : List (ℕ × Time) :=
  List.replicate 5 (0, 1) ++ List.replicate 5 (1, 2) ++ List.replicate 6 (0, 3) ++
    List.replicate 6 (1, 4)

theorem waiting_calls_agree :
    NewestFirst threeUsers ∧
      Run.EachStep (fire (TweetPc.step .ascii)) InTurn twoTweets waiting ∧
      ((view (Run.run (fire (TweetPc.step .ascii)) twoTweets waiting).shared.redis).feeds
        .ffeed).map tweetId = [some 2, some 1] ∧
      Run.Always (fire (TweetPc.step .ascii)) (fun c => FeedsAgree c.shared) twoTweets waiting := by
  have hstart : NewestFirst threeUsers := newestFirst_of_no_tweets (by decide +kernel) rfl
  have hturn : Run.EachStep (fire (TweetPc.step .ascii)) InTurn twoTweets waiting := by
    decide +kernel
  exact ⟨hstart, hturn, by decide +kernel, feeds_agree_of_inTurn .ascii hstart _ waiting hturn⟩

/-- Both calls store their rows. The second one is first at the front page, the first one is first
at the wall. -/
def overtaking : List (ℕ × Time) :=
  List.replicate 6 (0, 1) ++ List.replicate 6 (1, 2) ++ [(1, 3), (0, 3), (0, 3), (1, 3)]

/-- The front page has the older tweet first, the wall the newer one. -/
theorem overtaken_tweet :
    let w := (Run.run (fire (TweetPc.step .ascii)) twoTweets overtaking).shared
    (w.db.tweets.rows.map fun t => (t.id, t.attrs.createdAt)) = [(1, 1), (2, 2)] ∧
      ((view w.redis).feeds .ffeed).map tweetId = [some 1, some 2] ∧
      ((view w.redis).feeds (.pfeed 1)).map tweetId = [some 2, some 1] ∧ ¬ FeedsAgree w := by
  intro w
  refine ⟨by decide +kernel, by decide +kernel, by decide +kernel, fun hagree => ?_⟩
  have h := hagree ⟨1, ⟨"one", 0, 1, "ann", 1, 1, none⟩⟩ (by decide +kernel)
    ⟨2, ⟨"two", 0, 1, "ann", 2, 2, none⟩⟩ (by decide +kernel) (by decide) .ffeed (.pfeed 1) rfl rfl
    (by decide +kernel)
  exact absurd (h.2 (by decide +kernel)) (by decide +kernel)

end NanoTwitter
