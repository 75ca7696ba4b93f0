import Mathlib.Tactic
import NanoTwitter.Lib.Commit
import NanoTwitter.Concurrent.FeedOrder
import NanoTwitter.Sequential.Delivery

/-!
# Concurrent calls of `make_tweet` have the effect of some order of them

Any number of calls, interleaved command by command as in `TweetPc.step`. The commit point of a call
is the `INSERT` of its row. A call whose author does not exist, or whose text `process_text` raises
on, has none.

What a call reads besides its arguments (ids and names of the users, the follows) no call
changes, so the feeds that a call goes to are settled from the beginning. `parcels` lists the copies
that a thread still has to push. Copies that are in a feed and copies that are on
their way are, together, those of the sequential execution in the order of the commits (`Serial`),
so that in the end no copy is lost and none is duplicated (`tweets_serializable`).

The front page is left out, since it forgets its oldest tweets, and so is the counter of tweets,
which can lose updates.
-/

namespace NanoTwitter

open Ruby (Time)
open Interleave
open scoped List

/-! ### Users keep their names -/

/-- The id and the name of a user: what `make_tweet` uses of its author. -/
def byline (u : Row User) : ℕ × Text := (u.id, u.attrs.userName)

/-- The same users under the same names, row by row. -/
def SameNames (t t' : Table User) : Prop := t'.rows.map byline = t.rows.map byline

namespace SameNames

variable {t t' t'' : Table User}

theorem refl (t : Table User) : SameNames t t := rfl

theorem trans (h : SameNames t t') (h' : SameNames t' t'') : SameNames t t'' := Eq.trans h' h

theorem find (h : SameNames t t') (i : ℕ) : (t'.find i).map byline = (t.find i).map byline := by
  have hmap : ∀ t : Table User,
      (t.find i).map byline = (t.rows.map byline).find? fun b => b.1 = i := fun t => by
    rw [List.find?_map]
    rfl
  rw [hmap, hmap, h]

theorem findBy (h : SameNames t t') (name : Text) :
    (t'.findBy fun u => u.userName = name).map byline =
      (t.findBy fun u => u.userName = name).map byline := by
  have hmap : ∀ t : Table User, (t.findBy fun u => u.userName = name).map byline =
      (t.rows.map byline).find? fun b => b.2 = name := fun t => by
    rw [List.find?_map]
    rfl
  rw [hmap, hmap, h]

end SameNames

theorem sameNames_update {f : User → User} (hf : ∀ u, (f u).userName = u.userName)
    (t : Table User) (i : ℕ) : SameNames t (t.update i f) := by
  refine (List.map_map ..).trans (List.map_congr_left fun r _ => ?_)
  dsimp only [Function.comp_apply]
  split_ifs
  · rw [byline, hf]
    rfl
  · rfl

theorem sameNames_save (P : Platform) (now : Time) (k : Counter) (u : Row User) (v : ℤ)
    (w : World) : SameNames w.db.users ((k.save P now u v).exec w).db.users := by
  rw [exec_save]
  split_ifs
  · exact sameNames_update (fun a => User.userName_of_ident (User.ident_write now k v a)) _ _
  · exact .refl _

/-- A word is processed by the names alone. -/
theorem processWord_congr {t t' : Table User} (h : SameNames t t') :
    processWord t' = processWord t := by
  funext word
  have hfind := h.findBy (Ruby.afterFirst '@' word)
  unfold processWord
  dsimp only
  cases hu : t.findBy fun u => u.userName = Ruby.afterFirst '@' word with
  | none =>
    rw [hu, Option.map_none, Option.map_eq_none_iff] at hfind
    rw [hfind]
  | some u =>
    rw [hu, Option.map_some, Option.map_eq_some_iff] at hfind
    obtain ⟨u', hu', hbyline⟩ := hfind
    rw [hu']
    dsimp only
    rw [show u'.id = u.id from congrArg Prod.fst hbyline]

theorem processText_congr {t t' : Table User} (h : SameNames t t') (text : Option Text) :
    processText t' text = processText t text := by
  unfold processText
  rw [processWord_congr h]

/-! ### The sequential execution -/

/-- A call as an operation. -/
def TweetCall.op (call : TweetCall) (now : Time) : Op :=
  .makeTweet now call.text call.id call.replyId

/-- The author and the processed text of a call, if it comes to a tweet. -/
def TweetCall.prepared (call : TweetCall) (db : Db) : Option ((ℕ × Text) × Processed) :=
  match call.id.bind db.users.find, processText db.users call.text with
  | some u, .ok p => some (byline u, p)
  | _, _ => none

/-- All that a call reads is the same in both worlds, and so are the likers, which it does not
touch. -/
structure SameSource (w w' : World) : Prop where
  names : SameNames w.db.users w'.db.users
  follows : w'.db.follows = w.db.follows
  likers : (view w'.redis).likers = (view w.redis).likers
  wellTyped : WellTyped w'.redis

namespace SameSource

variable {w w' w'' : World}

theorem refl (hw : WellTyped w.redis) : SameSource w w := ⟨.refl _, rfl, rfl, hw⟩

theorem trans (h : SameSource w w') (h' : SameSource w' w'') : SameSource w w'' :=
  ⟨h.names.trans h'.names, h'.follows.trans h.follows, h'.likers.trans h.likers, h'.wellTyped⟩

theorem followersOf (h : SameSource w w') (b : ℕ) :
    Follow.followersOf w'.db b = Follow.followersOf w.db b := by
  rw [Follow.followersOf, h.follows]
  rfl

end SameSource

theorem new_congr {u v : Row User} (h : byline u = byline v) (now : Time) (text : Text) :
    Tweet.new now text u = Tweet.new now text v := by
  unfold Tweet.new
  rw [show u.id = v.id from congrArg Prod.fst h,
    show u.attrs.userName = v.attrs.userName from congrArg Prod.snd h]

theorem createdTweets_congr {u v : Row User} (h : byline u = byline v) (now : Time) (text : Text)
    (tweets : Table Tweet) : createdTweets now u text tweets = createdTweets now v text tweets := by
  rw [createdTweets, new_congr h]
  rfl

theorem createdEntry_congr {u v : Row User} (h : byline u = byline v) (now : Time) (text : Text)
    (tweets : Table Tweet) : createdEntry now u text tweets = createdEntry now v text tweets := by
  rw [createdEntry, new_congr h, show u.attrs.userName = v.attrs.userName from congrArg Prod.snd h]
  rfl

theorem likers_pushAll (ss : List Slot) (v : Text) (c : Cache) :
    (c.pushAll ss v).likers = c.likers := by
  induction ss generalizing c with
  | nil => rfl
  | cons s ss ih => exact ih _

theorem likers_publishedCache (v : Text) (a : ℕ) (r : Option Text) (p : Processed) (f : List ℕ)
    (c : Cache) : (publishedCache v a r p f c).likers = c.likers := by
  unfold publishedCache
  rw [likers_pushAll]
  cases r with
  | some i => rfl
  | none =>
    dsimp only
    rw [Cache.cacheTweet, likers_pushAll, Cache.likers_push, Cache.pushFront, Cache.likers_push]
    split_ifs <;> rfl

section Sequential

variable {P : Platform} {w q : World} {call : TweetCall}

/-- A call that comes to a tweet does so in all worlds with the same users and follows. -/
theorem find_of_prepared {b : ℕ × Text} {p : Processed} (h : call.prepared w.db = some (b, p)) :
    ∃ u, call.id.bind w.db.users.find = some u ∧ byline u = b ∧
      processText w.db.users call.text = .ok p := by
  unfold TweetCall.prepared at h
  split at h
  · next u p' hu hp =>
      simp only [Option.some.injEq, Prod.mk.injEq] at h
      obtain ⟨rfl, rfl⟩ := h
      exact ⟨u, hu, rfl, hp⟩
  · exact absurd h (by simp)

theorem prepared_congr (h : SameNames w.db.users q.db.users) :
    call.prepared q.db = call.prepared w.db := by
  have hfind : (call.id.bind q.db.users.find).map byline =
      (call.id.bind w.db.users.find).map byline := by
    cases call.id with
    | none => rfl
    | some i => exact h.find i
  unfold TweetCall.prepared
  rw [processText_congr h]
  cases hu : call.id.bind w.db.users.find with
  | none =>
    rw [hu, Option.map_none, Option.map_eq_none_iff] at hfind
    rw [hfind]
  | some u =>
    rw [hu, Option.map_some, Option.map_eq_some_iff] at hfind
    obtain ⟨u', hu', hbyline⟩ := hfind
    rw [hu']
    cases processText w.db.users call.text with
    | error e => rfl
    | ok p => simp only [hbyline]

/-- No call changes what calls read. -/
theorem sameSource_op (hq : Sound P q) (now : Time) : SameSource q (step P q (call.op now)) := by
  obtain ⟨heffect, hwell⟩ := effect_step hq (call.op now)
  have htyped : WellTyped (step P q (call.op now)).redis := hwell.wellTyped
  have hdb : ∀ db' c', Effect P q.db (view q.redis) (call.op now) db' c' →
      SameNames q.db.users db'.users ∧ db'.follows = q.db.follows ∧
        c'.likers = (view q.redis).likers := by
    intro db' c' heffect
    unfold TweetCall.op at heffect
    cases heffect with
    | noAuthor | notProcessed => exact ⟨.refl _, rfl, rfl⟩
    | @published _ _ _ replyId u p hu hp =>
      refine ⟨?_, rfl, likers_publishedCache ..⟩
      cases hr : call.replyId with
      | some i => exact .refl _
      | none =>
        exact sameNames_update
          (fun a => User.userName_of_ident (User.ident_write now .tweets _ a)) _ _
  obtain ⟨hnames, hfollows, hlikers⟩ := hdb _ _ heffect
  exact ⟨hnames, hfollows, hlikers, htyped⟩

/-- A call that comes to no tweet does nothing. -/
theorem step_op_of_none (hq : Sound P q) (h : call.prepared q.db = none) (now : Time) :
    (step P q (call.op now)).db.tweets = q.db.tweets ∧
      view (step P q (call.op now)).redis = view q.redis := by
  refine step_of_no_call hq ?_
  cases hu : call.id.bind q.db.users.find with
  | none => simp only [call?, TweetCall.op, hu]
  | some u =>
    cases hp : processText q.db.users call.text with
    | error e => simp only [call?, TweetCall.op, hu, hp]
    | ok p => exact absurd h (by simp [TweetCall.prepared, hu, hp])

/-- A call that comes to a tweet stores it and sends it to its receivers. -/
theorem step_op_of_some (hq : Sound P q) (hsame : SameSource w q) {user : Row User} {p : Processed}
    (h : call.prepared w.db = some (byline user, p)) (now : Time) :
    (step P q (call.op now)).db.tweets = createdTweets now user p.text q.db.tweets ∧
      ∀ s ≠ Slot.ffeed, (view (step P q (call.op now)).redis).feeds s ~
        List.replicate ((receivers call.replyId p user.id
            (Follow.followersOf w.db user.id)).count s)
          (createdEntry now user p.text q.db.tweets).toJson ++ (view q.redis).feeds s := by
  rw [← prepared_congr hsame.names] at h
  obtain ⟨u, hu, hbyline, hp⟩ := find_of_prepared h
  have hcall : call? q.db (call.op now) = some ⟨now, call.text, u, call.replyId, p⟩ := by
    simp only [call?, TweetCall.op, hu, hp]
  obtain ⟨htweets, hview⟩ := step_of_call hq hcall
  refine ⟨htweets.trans (createdTweets_congr hbyline ..), fun s hs => ?_⟩
  rw [hview]
  dsimp only [Call.json]
  rw [createdEntry_congr hbyline, show u.id = user.id from congrArg Prod.fst hbyline,
    hsame.followersOf]
  exact perm_feeds_publishedCache hs

/-- The calls one after the other, each with the time at which it runs. -/
def serial (P : Platform) (w : World) (order : List (TweetCall × Time)) : World :=
  Run.run (step P) w (order.map fun k => k.1.op k.2)

theorem serial_concat (order : List (TweetCall × Time)) (k : TweetCall × Time) :
    serial P w (order ++ [k]) = step P (serial P w order) (k.1.op k.2) := by
  rw [serial, List.map_append, List.map_singleton, Run.run_concat]
  rfl

theorem sound_serial (hw : Sound P w) (order : List (TweetCall × Time)) :
    Sound P (serial P w order) := (always_sound hw _).last

theorem sameSource_serial (hw : Sound P w) (order : List (TweetCall × Time)) :
    SameSource w (serial P w order) := by
  induction order using List.reverseRecOn with
  | nil => exact .refl hw.wellTyped
  | append_singleton order k ih =>
    rw [serial_concat]
    exact ih.trans (sameSource_op (sound_serial hw order) k.2)

end Sequential

/-! ### The copies on their way -/

namespace TweetPc

/-- The feeds of the mentions or the tags of a publication. -/
def marked (db : Db) (x : Publication) : List Slot :=
  NanoTwitter.marks x.processed (Follow.followersOf db x.user.id)

/-- The feeds, the front page apart, that the thread still has to push to. -/
def todo (db : Db) : TweetPc → List Slot
  | .count x => receivers none x.processed x.user.id (Follow.followersOf db x.user.id)
  | .cache _ .done => []
  | .cache x (.fan rest) => rest.map .hfeed ++ marked db x
  | .cache x .follows => (Follow.followersOf db x.user.id).map .hfeed ++ marked db x
  | .cache x _ => receivers none x.processed x.user.id (Follow.followersOf db x.user.id)
  | .reply x i => .replies i :: marked db x
  | .marks x => marked db x
  | .mentions _ rest => rest.map .hfeed
  | .tags _ rest => rest.map .tag
  | .load .. | .words .. | .create .. | .done => []

/-- The copies that the thread still has to push. -/
def parcels (db : Db) (pc : TweetPc) : List (Slot × Text) :=
  match pc.own with
  | some e => (pc.todo db).map fun s => (s, e.toJson)
  | none => []

/-- The thread has no command left. -/
def finished : TweetPc → Bool
  | .done => true
  | _ => false

theorem parcels_of_own {db : Db} {pc : TweetPc} {e : Entry} (h : pc.own = some e) :
    pc.parcels db = (pc.todo db).map fun s => (s, e.toJson) := by
  rw [parcels, h]

theorem parcels_of_not_own {db : Db} {pc : TweetPc} (h : pc.own = none) : pc.parcels db = [] := by
  rw [parcels, h]

end TweetPc

theorem count_parcels (ss : List Slot) (v₀ : Text) (s : Slot) (v : Text) :
    (ss.map fun s => (s, v₀)).count (s, v) = if v₀ = v then ss.count s else 0 := by
  split_ifs with h
  · subst h
    exact List.count_map_of_injective ss (fun s => (s, v₀)) (fun _ _ h => (Prod.mk.inj h).1) s
  · rw [List.count_eq_zero, List.mem_map]
    rintro ⟨s', -, hs'⟩
    exact h (Prod.mk.inj hs').2

/-- What a command that is no commit does: it changes nothing that calls read and no tweet, and
what leaves the hands of the thread arrives in the feeds. -/
structure Moved (db : Db) (pc : TweetPc) (w w' : World) (pc' : TweetPc) : Prop where
  tweets : w'.db.tweets = w.db.tweets
  source : SameSource w w'
  own : pc.own.isSome = true → pc' = .done ∨ pc'.own.isSome = true
  delivers : ∀ s ≠ Slot.ffeed, ∀ v,
    ((view w'.redis).feeds s).count v + (pc'.parcels db).count (s, v) =
      ((view w.redis).feeds s).count v + (pc.parcels db).count (s, v)

section Moves

variable {P : Platform} {now : Time} {db : Db} {pc next : TweetPc} {w : World} {e : Entry}

/-- A command that pushes nothing. -/
theorem moved_quiet (hw : WellTyped w.redis)
    (hown : pc.own.isSome = true → next = .done ∨ next.own.isSome = true)
    (hparcels : next.parcels db = pc.parcels db) : Moved db pc w w next :=
  ⟨rfl, .refl hw, hown, fun s _ v => by rw [hparcels]⟩

/-- A change of one feed. -/
theorem sameSource_setRedis {r : Store Text Text} (hr : WellTyped r)
    (hlikers : (view r).likers = (view w.redis).likers) : SameSource w (w.setRedis r) :=
  ⟨.refl _, rfl, hlikers, hr⟩

/-- A push of the tweet to the next feed. -/
theorem moved_push {s₀ : Slot} (hw : WellTyped w.redis) (hs₀ : s₀.isFeed = true)
    (hown : pc.own = some e) (hnext : next.own = some e)
    (htodo : pc.todo db = s₀ :: next.todo db) :
    Moved db pc w (TweetPc.send (fun r => r.lpush s₀.key e.toJson) next w).1
      (TweetPc.send (fun r => r.lpush s₀.key e.toJson) next w).2 := by
  obtain ⟨r, hr, ht, hv⟩ := (refines_lpush hs₀ e.toJson).of_command hw
  simp only [TweetPc.send, hr]
  refine ⟨rfl, sameSource_setRedis ht (by rw [hv]; rfl), fun _ => .inr (by rw [hnext]; rfl),
    fun s _ v => ?_⟩
  rw [TweetPc.parcels_of_own hown, TweetPc.parcels_of_own hnext, htodo, World.redis_setRedis, hv,
    Cache.feeds_push, List.map_cons, List.count_cons]
  by_cases hs : s = s₀
  · subst hs
    rw [if_pos rfl, List.count_cons]
    by_cases hev : e.toJson = v
    · simp [hev]; omega
    · simp [hev]
  · rw [if_neg hs]
    simp [Ne.symm hs]

/-- A command on the front page. -/
theorem moved_front {c : Store Text Text → Option (Store Text Text)} {f : Cache → Cache}
    (hw : WellTyped w.redis) (hc : Refines (command c) fun _ => f)
    (hlikers : ∀ q, (f q).likers = q.likers)
    (hfeeds : ∀ q, ∀ s ≠ Slot.ffeed, (f q).feeds s = q.feeds s)
    (hown : pc.own.isSome = true → next.own.isSome = true)
    (hparcels : next.parcels db = pc.parcels db) :
    Moved db pc w (TweetPc.send c next w).1 (TweetPc.send c next w).2 := by
  obtain ⟨r, hr, ht, hv⟩ := hc.of_command hw
  simp only [TweetPc.send, hr]
  refine ⟨rfl, sameSource_setRedis ht (by rw [hv, hlikers]), fun h => .inr (hown h),
    fun s hs v => ?_⟩
  rw [World.redis_setRedis, hv, hfeeds _ s hs, hparcels]

/-- The commands of `cache_tweet`. -/
theorem moved_cache (x : Publication) (pc : CachePc) (hw : WellTyped w.redis)
    (hfollows : w.db.follows = db.follows) :
    Moved db (.cache x pc) w ((TweetPc.cache x pc).step P now w).1
      ((TweetPc.cache x pc).step P now w).2 := by
  have hpush : ∀ next, next ≠ .done →
      (TweetPc.cache x next).parcels db = (TweetPc.cache x pc).parcels db → pc ≠ .fan [] →
      CacheCall.pcStep x.tweet x.user.id pc w =
        CacheCall.send (fun r => r.lpush Slot.ffeed.key x.tweet.toJson) next w →
      Moved db (.cache x pc) w ((TweetPc.cache x pc).step P now w).1
        ((TweetPc.cache x pc).step P now w).2 := by
    intro next hnext hparcels hfan hpc
    rw [step_cache_send hfan hnext hpc]
    exact moved_front hw (refines_lpush (s := .ffeed) rfl x.tweet.toJson) (fun _ => rfl)
      (fun q s hs => by rw [Cache.feeds_push, if_neg hs]) (fun _ => rfl) hparcels
  cases pc with
  | test =>
    have hl : w.redis.lrange Slot.ffeed.key = some ((view w.redis).feeds .ffeed) :=
      list?_eq_view hw rfl
    rw [step_cache (by simp)]
    simp only [CacheCall.pcStep, hl]
    split_ifs
    · exact moved_quiet hw (fun _ => .inr rfl) rfl
    · exact moved_quiet hw (fun _ => .inr rfl) rfl
  | pop =>
    have hstep : (TweetPc.cache x .pop).step P now w =
        TweetPc.send (fun r => r.rpop Slot.ffeed.key) (.cache x .pushPopped) w :=
      step_cache_send (by simp) (by simp) rfl
    rw [hstep]
    exact moved_front hw (refines_rpop (s := .ffeed) rfl) (fun _ => rfl)
      (fun q s hs => by rw [Cache.feeds_dropOldest, if_neg hs]) (fun _ => rfl) rfl
  | pushPopped => exact hpush .pfeed (by simp) rfl (by simp) rfl
  | push => exact hpush .pfeed (by simp) rfl (by simp) rfl
  | pfeed =>
    have hstep : (TweetPc.cache x .pfeed).step P now w =
        TweetPc.send (fun r => r.lpush (Slot.pfeed x.user.id).key x.tweet.toJson)
          (.cache x .follows) w := step_cache_send (by simp) (by simp) rfl
    rw [hstep]
    exact moved_push hw rfl rfl rfl rfl
  | follows =>
    have hstep : (TweetPc.cache x .follows).step P now w =
        (w, .cache x (.fan (Follow.followersOf db x.user.id))) := by
      rw [Follow.followersOf, ← hfollows]
      rfl
    rw [hstep]
    exact moved_quiet hw (fun _ => .inr rfl) rfl
  | fan rest =>
    cases rest with
    | nil => exact moved_quiet hw (fun _ => .inr rfl) rfl
    | cons f rest =>
      have hstep : (TweetPc.cache x (.fan (f :: rest))).step P now w =
          TweetPc.send (fun r => r.lpush (Slot.hfeed f).key x.tweet.toJson)
            (.cache x (.fan rest)) w := step_cache_send (by simp) (by simp) rfl
      rw [hstep]
      exact moved_push hw rfl rfl rfl rfl
  | done => exact moved_quiet hw (fun _ => .inl rfl) rfl

/-- **Every command but the `INSERT` of the row.** -/
theorem moved_step (hw : WellTyped w.redis) (hfollows : w.db.follows = db.follows)
    (hpc : ∀ user replyId p, pc ≠ .create user replyId p) :
    Moved db pc w (TweetPc.step P pc now w).1 (TweetPc.step P pc now w).2 := by
  have hmarks : ∀ x : Publication, Follow.followersOf w.db x.user.id =
      Follow.followersOf db x.user.id := fun x => by
    rw [Follow.followersOf, hfollows]
    rfl
  cases pc with
  | load text id replyId =>
    simp only [TweetPc.step]
    split
    · exact moved_quiet hw (by simp [TweetPc.own]) rfl
    · exact moved_quiet hw (fun _ => .inl rfl) rfl
  | words user replyId ready rest =>
    cases rest with
    | nil => exact moved_quiet hw (by simp [TweetPc.own]) rfl
    | cons word rest =>
      simp only [TweetPc.step]
      split
      · exact moved_quiet hw (by simp [TweetPc.own]) rfl
      · exact moved_quiet hw (fun _ => .inl rfl) rfl
  | create user replyId p => exact absurd rfl (hpc user replyId p)
  | count x =>
    have hrun := increment_ok (P := P) now .tweets x.user w
    have hexec : (incrementTweets P now x.user).exec w = w.setUsers _ := EStateM.exec_of_ok hrun
    have hnames : SameNames w.db.users ((incrementTweets P now x.user).exec w).db.users :=
      sameNames_save P now .tweets x.user _ w
    rw [hexec] at hnames
    simp only [TweetPc.step, hexec]
    exact ⟨rfl, ⟨hnames, rfl, rfl, hw⟩, fun _ => .inr rfl, fun s _ v => rfl⟩
  | cache x pc => exact moved_cache x pc hw hfollows
  | reply x i =>
    obtain ⟨r, hr, ht, hv⟩ := (refines_rpush (s := .replies i) rfl x.tweet.toJson).of_command hw
    simp only [TweetPc.step, TweetPc.send, hr]
    refine ⟨rfl, sameSource_setRedis ht (by rw [hv]; rfl), fun _ => .inr rfl, fun s _ v => ?_⟩
    rw [World.redis_setRedis, hv, Cache.feeds_append, TweetPc.parcels_of_own rfl,
      TweetPc.parcels_of_own rfl]
    simp only [TweetPc.todo, List.map_cons, List.count_cons]
    by_cases hs : s = .replies i
    · subst hs
      by_cases hev : x.tweet.toJson = v
      · simp [hev]; omega
      · simp [hev]
    · rw [if_neg hs]
      simp [Ne.symm hs]
  | marks x =>
    simp only [TweetPc.step, hmarks]
    have htodo : (TweetPc.marks x).parcels db =
        (marks x.processed (Follow.followersOf db x.user.id)).map fun s =>
          (s, x.tweet.toJson) := rfl
    unfold marks at htodo
    split_ifs with hm ht
    · rw [if_pos hm] at htodo
      exact moved_quiet hw (fun _ => .inr rfl) htodo.symm
    · rw [if_neg hm] at htodo
      exact moved_quiet hw (fun _ => .inr rfl) htodo.symm
    · rw [if_neg hm, List.length_eq_zero_iff.1 (Nat.eq_zero_of_not_pos ht)] at htodo
      exact moved_quiet hw (fun _ => .inl rfl) htodo.symm
  | mentions x rest =>
    cases rest with
    | nil => exact moved_quiet hw (fun _ => .inl rfl) rfl
    | cons u rest => exact moved_push hw rfl rfl rfl rfl
  | tags x rest =>
    cases rest with
    | nil => exact moved_quiet hw (fun _ => .inl rfl) rfl
    | cons t rest => exact moved_push hw rfl rfl rfl rfl
  | done => exact moved_quiet hw (fun _ => .inl rfl) rfl

end Moves

/-! ### Every call comes to its end -/

namespace TweetPc

/-- The number of marks that a publication can have. -/
def markCount (p : Processed) : ℕ := p.mentions.length + p.tags.length

/-- A bound for the number of commands that a thread has left, with `M` rows of follows. -/
def left (M : ℕ) : TweetPc → ℕ
  | .load text _ _ => 3 * ((text.map Ruby.split).getD []).length + M + 12
  | .words _ _ ready rest => 2 * ready.length + 3 * rest.length + M + 11
  | .create _ _ p => markCount p + M + 10
  | .count x => markCount x.processed + M + 9
  | .cache x .test => markCount x.processed + M + 8
  | .cache x .pop => markCount x.processed + M + 7
  | .cache x .pushPopped | .cache x .push => markCount x.processed + M + 6
  | .cache x .pfeed => markCount x.processed + M + 5
  | .cache x .follows => markCount x.processed + M + 4
  | .cache x (.fan rest) => markCount x.processed + rest.length + 3
  | .cache _ .done => 1
  | .reply x _ => markCount x.processed + 3
  | .marks x => markCount x.processed + 2
  | .mentions _ rest => rest.length + 1
  | .tags _ rest => rest.length + 1
  | .done => 0

theorem finished_of_left {M : ℕ} {pc : TweetPc} (h : pc.left M = 0) : pc.finished = true := by
  cases pc with
  | done => rfl
  | cache x pc => cases pc <;> simp [left] at h
  | _ => simp [left] at h

/-- After a Redis command the thread is at the next control point, or at its end. -/
theorem left_send {M n : ℕ} {c : Store Text Text → Option (Store Text Text)} {next : TweetPc}
    (h : next.left M ≤ n) (w : World) : (send c next w).2.left M ≤ n := by
  unfold send
  split
  · exact h
  · exact Nat.zero_le _

theorem markCount_processedWords (words : List Word) :
    markCount (processedWords words) ≤ 2 * words.length := by
  have hm := List.length_filterMap_le Word.mention words
  have ht := List.length_filterMap_le Word.tag words
  unfold markCount processedWords
  dsimp only
  omega

end TweetPc

theorem length_followersOf_le (db : Db) (b : ℕ) :
    (Follow.followersOf db b).length ≤ db.follows.rows.length := by
  rw [Follow.followersOf, List.length_map]
  exact List.length_filter_le ..

theorem length_removeFollowers_le (ids followers : List ℕ) :
    (removeFollowers ids followers).length ≤ ids.length := by
  induction followers generalizing ids with
  | nil => exact Nat.le_refl _
  | cons f followers ih =>
    refine (ih _).trans ?_
    dsimp only
    split_ifs
    · exact List.length_filter_le ..
    · exact Nat.le_refl _

section Progress

variable {P : Platform} {now : Time} {w : World}

theorem left_caching (M : ℕ) (x : Publication) (pc : CachePc) :
    (TweetPc.caching x pc).left M ≤ (TweetPc.cache x pc).left M := by
  cases pc with
  | done => exact Nat.zero_le _
  | _ => exact Nat.le_refl _

theorem cacheCall_send_next (c : Store Text Text → Option (Store Text Text)) (next : CachePc) :
    (CacheCall.send c next w).2 = next ∨ (CacheCall.send c next w).2 = .done := by
  unfold CacheCall.send
  split
  · exact .inl rfl
  · exact .inr rfl

theorem left_cache (x : Publication) (pc : CachePc) :
    ((TweetPc.cache x pc).step P now w).2.left w.db.follows.rows.length ≤
      (TweetPc.cache x pc).left w.db.follows.rows.length - 1 := by
  have hsend : ∀ (pc next : CachePc) (n : ℕ), pc ≠ .fan [] →
      ((CacheCall.pcStep x.tweet x.user.id pc w).2 = next ∨
        (CacheCall.pcStep x.tweet x.user.id pc w).2 = .done) →
      (TweetPc.cache x next).left w.db.follows.rows.length ≤ n →
      ((TweetPc.cache x pc).step P now w).2.left w.db.follows.rows.length ≤ n := by
    intro pc next n hfan hnext hle
    rw [step_cache hfan]
    rcases hnext with hnext | hdone
    · rw [hnext]
      exact (left_caching _ x next).trans hle
    · rw [hdone]
      exact Nat.zero_le _
  cases pc with
  | test =>
    rw [step_cache (by simp)]
    simp only [CacheCall.pcStep]
    split
    · split_ifs
      · exact Nat.le_refl _
      · exact Nat.le_succ _
    · exact Nat.zero_le _
  | pop => exact hsend .pop .pushPopped _ (by simp) (cacheCall_send_next _ _) (Nat.le_refl _)
  | pushPopped =>
    exact hsend .pushPopped .pfeed _ (by simp) (cacheCall_send_next _ _) (Nat.le_refl _)
  | push => exact hsend .push .pfeed _ (by simp) (cacheCall_send_next _ _) (Nat.le_refl _)
  | pfeed => exact hsend .pfeed .follows _ (by simp) (cacheCall_send_next _ _) (Nat.le_refl _)
  | follows =>
    have hlen := length_followersOf_le w.db x.user.id
    show TweetPc.markCount x.processed + (Follow.followersOf w.db x.user.id).length + 3 ≤
      TweetPc.markCount x.processed + w.db.follows.rows.length + 4 - 1
    omega
  | fan rest =>
    cases rest with
    | nil => exact Nat.le_refl _
    | cons f rest =>
      exact hsend (.fan (f :: rest)) (.fan rest) _ (by simp) (cacheCall_send_next _ _)
        (Nat.le_refl _)
  | done => exact Nat.zero_le _

/-- Every command brings its thread nearer to its end. -/
theorem left_step (pc : TweetPc) :
    (TweetPc.step P pc now w).2.left w.db.follows.rows.length ≤
      pc.left w.db.follows.rows.length - 1 := by
  cases pc with
  | load text id replyId =>
    simp only [TweetPc.step]
    split
    · simp only [TweetPc.left, List.length_nil, Option.map_some, Option.getD_some]
      omega
    · exact Nat.zero_le _
  | words user replyId ready rest =>
    cases rest with
    | nil =>
      have hmarks := TweetPc.markCount_processedWords ready
      simp only [TweetPc.step, TweetPc.left, List.length_nil]
      omega
    | cons word rest =>
      simp only [TweetPc.step]
      split
      · simp only [TweetPc.left, List.length_append, List.length_cons, List.length_nil]
        omega
      · exact Nat.zero_le _
  | create user replyId p =>
    obtain ⟨t, ht, -⟩ := tweetCreate_eq (w := w) now p.text user
    simp only [TweetPc.step, ht]
    cases replyId <;> simp only [TweetPc.published, TweetPc.left] <;> omega
  | count x => exact Nat.le_refl _
  | cache x pc => exact left_cache x pc
  | reply x i => exact TweetPc.left_send (Nat.le_refl _) w
  | marks x =>
    have hlen := length_removeFollowers_le x.processed.mentions
      (Follow.followersOf w.db x.user.id)
    simp only [TweetPc.step]
    split_ifs <;> simp only [TweetPc.left, TweetPc.markCount] <;> omega
  | mentions x rest =>
    cases rest with
    | nil => exact Nat.zero_le _
    | cons u rest => exact TweetPc.left_send (Nat.le_refl _) w
  | tags x rest =>
    cases rest with
    | nil => exact Nat.zero_le _
    | cons t rest => exact TweetPc.left_send (Nat.le_refl _) w
  | done => exact Nat.zero_le _

end Progress

/-- The turns that are enough for a call. -/
def TweetCall.turns (call : TweetCall) (db : Db) : ℕ :=
  3 * ((call.text.map Ruby.split).getD []).length + db.follows.rows.length + 12

/-! ### Where a thread stands -/

/-- A thread that serves `call` stands before its commit, or after it, or it has ended without one
since the call comes to no tweet. -/
inductive TweetAt (w : World) (call : TweetCall) : Bool → TweetPc → Prop
  | load : TweetAt w call false (.load call.text call.id call.replyId)
  | words {u user text past ready rest} (hu : call.id.bind w.db.users.find = some u)
      (hbyline : byline user = byline u) (htext : call.text = some text)
      (hsplit : Ruby.split text = past ++ rest)
      (hready : past.mapM (processWord w.db.users) = .ok ready) :
      TweetAt w call false (.words user call.replyId ready rest)
  | create {user p} (h : call.prepared w.db = some (byline user, p)) :
      TweetAt w call false (.create user call.replyId p)
  | published {pc} (h : pc.own.isSome = true) : TweetAt w call true pc
  | finished : TweetAt w call true .done
  | void (h : call.prepared w.db = none) : TweetAt w call false .done

section Stands

variable {P : Platform} {now : Time} {w q : World} {call : TweetCall} {b : Bool} {pc : TweetPc}

theorem prepared_of_error {e : Error} (h : processText w.db.users call.text = .error e) :
    call.prepared w.db = none := by
  unfold TweetCall.prepared
  rw [h]
  cases call.id.bind w.db.users.find <;> rfl

theorem prepared_of_ok {u : Row User} {p : Processed} (hu : call.id.bind w.db.users.find = some u)
    (hp : processText w.db.users call.text = .ok p) :
    call.prepared w.db = some (byline u, p) := by
  simp only [TweetCall.prepared, hu, hp]

theorem processText_of_mapM {users : Table User} {text : Text} {words : Except Error (List Word)}
    (h : (Ruby.split text).mapM (processWord users) = words) :
    processText users (some text) = words.map processedWords := by
  unfold processText
  dsimp only
  rw [h]
  cases words <;> rfl

/-- The look-up of the author. -/
theorem tweetAt_load (hsame : SameSource w q) :
    TweetAt w call false
      (TweetPc.step P (.load call.text call.id call.replyId) now q).2 := by
  have hfind : (call.id.bind q.db.users.find).map byline =
      (call.id.bind w.db.users.find).map byline := by
    cases call.id with
    | none => rfl
    | some i => exact hsame.names.find i
  simp only [TweetPc.step]
  cases hu : call.id.bind q.db.users.find with
  | none =>
    rw [hu, Option.map_none, eq_comm, Option.map_eq_none_iff] at hfind
    refine .void ?_
    simp only [TweetCall.prepared, hfind]
  | some user =>
    rw [hu, Option.map_some, eq_comm, Option.map_eq_some_iff] at hfind
    obtain ⟨u, hu', hbyline⟩ := hfind
    cases ht : call.text with
    | none => exact .void (prepared_of_error (by rw [ht]; rfl))
    | some text =>
      have hsplit : Ruby.split text = [] ++ Ruby.split text := rfl
      exact .words hu' hbyline.symm ht hsplit rfl

/-- The next word. -/
theorem tweetAt_words (hsame : SameSource w q) {u user : Row User} {text : Text}
    {past rest : List Text} {ready : List Word} (hu : call.id.bind w.db.users.find = some u)
    (hbyline : byline user = byline u) (htext : call.text = some text)
    (hsplit : Ruby.split text = past ++ rest)
    (hready : past.mapM (processWord w.db.users) = .ok ready) :
    TweetAt w call false (TweetPc.step P (.words user call.replyId ready rest) now q).2 := by
  cases rest with
  | nil =>
    rw [List.append_nil] at hsplit
    have hp := processText_of_mapM (hsplit ▸ hready)
    exact .create (by rw [hbyline]; exact prepared_of_ok hu (htext ▸ hp))
  | cons word rest =>
    have hword : processWord q.db.users word = processWord w.db.users word := by
      rw [processWord_congr hsame.names]
    simp only [TweetPc.step, hword]
    cases hr : processWord w.db.users word with
    | error e =>
      -- the loop of `process_text` stops at this word, too
      have hmap : (Ruby.split text).mapM (processWord w.db.users) = .error e := by
        rw [hsplit, List.mapM_append, hready, List.mapM_cons, hr]
        rfl
      exact .void (prepared_of_error (htext ▸ processText_of_mapM hmap))
    | ok r =>
      have hnext : Ruby.split text = (past ++ [word]) ++ rest := by
        rw [hsplit, List.append_assoc, List.singleton_append]
      refine .words hu hbyline htext hnext ?_
      rw [List.mapM_append, hready, List.mapM_cons, hr]
      rfl

/-- A command that is no commit leaves the thread on its side of the commit. -/
theorem tweetAt_step (hsame : SameSource w q) (h : TweetAt w call b pc)
    (hpc : ∀ user replyId p, pc ≠ .create user replyId p) :
    TweetAt w call b (TweetPc.step P pc now q).2 := by
  cases h with
  | load => exact tweetAt_load hsame
  | words hu hbyline htext hsplit hready => exact tweetAt_words hsame hu hbyline htext hsplit hready
  | create => exact absurd rfl (hpc _ _ _)
  | published h =>
    have hmoved : Moved q.db _ q (TweetPc.step P _ now q).1 (TweetPc.step P _ now q).2 :=
      moved_step hsame.wellTyped rfl hpc
    rcases hmoved.own h with hdone | hown
    · rw [hdone]
      exact .finished
    · exact .published hown
  | finished => exact .finished
  | void h => exact .void h

/-- The commit: the row is stored, and the copies are on their way. -/
theorem step_create (user : Row User) (replyId : Option Text) (p : Processed) :
    TweetPc.step P (.create user replyId p) now q =
      (q.setTweets (createdTweets now user p.text q.db.tweets),
        TweetPc.published ⟨user, replyId, p, createdEntry now user p.text q.db.tweets⟩) := by
  obtain ⟨t, ht, hentry⟩ := tweetCreate_eq (w := q) now p.text user
  simp only [TweetPc.step, ht, hentry]

theorem parcels_published (db : Db) (x : Publication) :
    (TweetPc.published x).parcels db =
      (receivers x.replyId x.processed x.user.id (Follow.followersOf db x.user.id)).map fun s =>
        (s, x.tweet.toJson) := by
  obtain ⟨user, replyId, p, tweet⟩ := x
  cases replyId <;> rfl

theorem own_published (x : Publication) : (TweetPc.published x).own = some x.tweet := by
  obtain ⟨user, replyId, p, tweet⟩ := x
  cases replyId <;> rfl

end Stands

/-! ### Serial executions -/

/-- The calls in `log` have committed, in this order: the tweets are those of the serial execution,
and so are the copies, in the feeds or on their way. -/
structure Serial (P : Platform) (w : World) (log : List (TweetCall × Time))
    (c : Config World TweetPc) : Prop where
  source : SameSource w c.shared
  tweets : c.shared.db.tweets = (serial P w log).db.tweets
  copies : ∀ s ≠ Slot.ffeed, ∀ v, (((view c.shared.redis).feeds s).count v : ℤ) +
      sumThreads (fun pc => ((pc.parcels w.db).count (s, v) : ℤ)) c.threads =
    ((view (serial P w log).redis).feeds s).count v

section Fire

variable {P : Platform} {w : World} {log : List (TweetCall × Time)} {c : Config World TweetPc}
  {e : ℕ × Time}

/-- A command that is no commit. -/
theorem Serial.stay (h : Serial P w log c) {pc : TweetPc} (hpc : c.threads[e.1]? = some pc)
    (hno : ∀ user replyId p, pc ≠ .create user replyId p) :
    Serial P w log (fire (TweetPc.step P) c e) := by
  have hmoved : Moved w.db pc c.shared (TweetPc.step P pc e.2 c.shared).1
      (TweetPc.step P pc e.2 c.shared).2 := moved_step h.source.wellTyped h.source.follows hno
  have hshared : (fire (TweetPc.step P) c e).shared = (TweetPc.step P pc e.2 c.shared).1 := by
    rw [fire_of_some hpc]
  refine ⟨?_, ?_, fun s hs v => ?_⟩
  · rw [hshared]
    exact h.source.trans hmoved.source
  · rw [hshared, hmoved.tweets, h.tweets]
  · have hstep := hmoved.delivers s hs v
    rw [← h.copies s hs v, ← add_zero (_ + sumThreads _ c.threads)]
    refine add_sumThreads_fire (g := fun w => (((view w.redis).feeds s).count v : ℤ)) hpc ?_
    omega

/-- A commit. -/
theorem Serial.commit (hw : Sound P w) (h : Serial P w log c) {call : TweetCall} {user : Row User}
    {p : Processed} (hpc : c.threads[e.1]? = some (.create user call.replyId p))
    (hp : call.prepared w.db = some (byline user, p)) :
    Serial P w (log ++ [(call, e.2)]) (fire (TweetPc.step P) c e) := by
  obtain ⟨htweets, hfeeds⟩ :=
    step_op_of_some (sound_serial hw log) (sameSource_serial hw log) hp e.2
  have hshared : (fire (TweetPc.step P) c e).shared =
      c.shared.setTweets (createdTweets e.2 user p.text c.shared.db.tweets) := by
    rw [fire_of_some hpc, step_create]
  refine ⟨?_, ?_, fun s hs v => ?_⟩
  · rw [hshared]
    exact ⟨h.source.names, h.source.follows, h.source.likers, h.source.wellTyped⟩
  · rw [hshared, serial_concat, htweets, World.tweets_setTweets, h.tweets]
  · rw [serial_concat, (hfeeds s hs).count_eq, List.count_append, List.count_replicate,
      Nat.add_comm, Nat.cast_add, ← h.copies s hs v]
    refine add_sumThreads_fire (g := fun w => (((view w.redis).feeds s).count v : ℤ)) hpc ?_
    -- the new copies are those of the entry, and the thread had none before
    rw [step_create, parcels_published, count_parcels, TweetPc.parcels_of_not_own rfl]
    dsimp only
    rw [World.redis_setTweets, h.tweets]
    simp only [beq_iff_eq, List.count_nil, Nat.cast_zero, add_zero]

theorem serial_fire (hw : Sound P w) {pc : TweetPc} {call : TweetCall} {b : Bool}
    (h : Serial P w log c) (hpc : c.threads[e.1]? = some pc) (hat : TweetAt w call b pc) :
    (TweetAt w call b (TweetPc.step P pc e.2 c.shared).2 ∧
        Serial P w log (fire (TweetPc.step P) c e)) ∨
      (b = false ∧ TweetAt w call true (TweetPc.step P pc e.2 c.shared).2 ∧
        Serial P w (log ++ [(call, e.2)]) (fire (TweetPc.step P) c e)) := by
  by_cases hcreate : ∃ user replyId p, pc = .create user replyId p
  · obtain ⟨user, replyId, p, rfl⟩ := hcreate
    cases hat with
    | create hp =>
      refine .inr ⟨rfl, ?_, h.commit hw hpc hp⟩
      rw [step_create]
      exact .published (by rw [own_published]; rfl)
    | published hown => exact absurd hown (by simp [TweetPc.own])
  · have hno : ∀ user replyId p, pc ≠ .create user replyId p := fun user replyId p hpc =>
      hcreate ⟨user, replyId, p, hpc⟩
    exact .inl ⟨tweetAt_step h.source hat hno, h.stay hpc hno⟩

end Fire

/-- The same tweets, follows and likers, and in every feed but the front page the same entries, each
as often. -/
structure SameUpToOrder (w w' : World) : Prop where
  tweets : w'.db.tweets = w.db.tweets
  follows : w'.db.follows = w.db.follows
  likers : (view w'.redis).likers = (view w.redis).likers
  feeds : ∀ s ≠ Slot.ffeed, (view w'.redis).feeds s ~ (view w.redis).feeds s

/-- The end of a run: nothing is on its way. -/
theorem Serial.sameUpToOrder {P : Platform} {w : World} {log : List (TweetCall × Time)}
    {c : Config World TweetPc} (hw : Sound P w) (h : Serial P w log c)
    (hdone : ∀ pc ∈ c.threads, pc.finished = true) :
    SameUpToOrder (serial P w log) c.shared where
  tweets := h.tweets
  follows := h.source.follows.trans (sameSource_serial hw log).follows.symm
  likers := h.source.likers.trans (sameSource_serial hw log).likers.symm
  feeds s hs := by
    refine List.perm_iff_count.2 fun v => ?_
    have hzero : sumThreads (fun pc => ((pc.parcels w.db).count (s, v) : ℤ)) c.threads = 0 := by
      refine sumThreads_eq_zero fun pc hpc => ?_
      cases pc with
      | done => rfl
      | _ => exact absurd (hdone _ hpc) (by simp [TweetPc.finished])
    have hcopies := h.copies s hs v
    omega

/-- Calls that come to no tweet can be appended to an execution. -/
theorem SameUpToOrder.append_void {P : Platform} {w w' : World} {log : List (TweetCall × Time)}
    (hw : Sound P w) (h : SameUpToOrder (serial P w log) w') {rest : List TweetCall}
    (hrest : ∀ call ∈ rest, call.prepared w.db = none) :
    SameUpToOrder (serial P w (log ++ rest.map fun call => (call, 0))) w' := by
  induction rest using List.reverseRecOn with
  | nil => rwa [List.map_nil, List.append_nil]
  | append_singleton rest call ih =>
    have hprev := ih fun k hk => hrest k (List.mem_append_left _ hk)
    rw [List.map_append, List.map_singleton, ← List.append_assoc, serial_concat]
    set q := serial P w (log ++ rest.map fun call => (call, 0))
    have hq : Sound P q := sound_serial hw _
    have hnone : call.prepared q.db = none := by
      rw [prepared_congr (sameSource_serial hw _).names]
      exact hrest call (List.mem_append_right _ List.mem_cons_self)
    obtain ⟨htweets, hview⟩ := step_op_of_none hq hnone 0
    exact ⟨hprev.tweets.trans htweets.symm,
      hprev.follows.trans (sameSource_op hq 0).follows.symm,
      hprev.likers.trans (sameSource_op hq 0).likers.symm,
      fun s hs => by rw [hview]; exact hprev.feeds s hs⟩

/-- **Concurrent calls have the effect of some order of them.** Any number of calls of `make_tweet`
on a database and cache as sequential runs leave them, interleaved command by command in any way: if
all threads come to their ends, then there is an order of the same calls, with times, such that
running them one after the other stores the same tweets under the same ids and puts the same entries
into every feed but the front page, each as often. -/
theorem tweets_serializable (P : Platform) {w : World} (hw : Sound P w) (calls : List TweetCall)
    (es : List (ℕ × Time))
    (hdone : ∀ pc ∈ (Run.run (fire (TweetPc.step P)) (startTweets w calls) es).threads,
      pc.finished = true) :
    ∃ order : List (TweetCall × Time), order.map Prod.fst ~ calls ∧
      SameUpToOrder (Run.run (step P) w (order.map fun k => k.1.op k.2))
        (Run.run (fire (TweetPc.step P)) (startTweets w calls) es).shared := by
  have hstart : Serial P w [] (startTweets w calls) := by
    refine ⟨.refl hw.wellTyped, rfl, fun s _ v => ?_⟩
    have hzero : sumThreads (fun pc => ((pc.parcels w.db).count (s, v) : ℤ))
        (startTweets w calls).threads = 0 := by
      refine sumThreads_eq_zero fun pc hpc => ?_
      obtain ⟨call, -, rfl⟩ := List.mem_map.1 hpc
      rfl
    rw [hzero, add_zero]
    rfl
  have hlogged : Logged (TweetAt w) calls ([] : List (Commit TweetCall Time))
      (startTweets w calls).threads := logged_start fun call => .load
  obtain ⟨log, hlog, hserial⟩ := exists_log (I := Serial P w)
    (fun _ _ _ _ _ _ h hpc hat => serial_fire hw h hpc hat) hlogged hstart es
  obtain ⟨rest, hperm, hrest⟩ := hlog.perm
  -- a thread that has ended without a commit served a call that comes to no tweet
  have hvoid : ∀ call ∈ rest, call.prepared w.db = none := by
    intro call hcall
    obtain ⟨pc, hpc, hat⟩ := hrest call hcall
    have hfinished := hdone pc hpc
    cases hat with
    | void h => exact h
    | load | words | create => exact absurd hfinished (by simp [TweetPc.finished])
  refine ⟨log.map Commit.effect ++ rest.map fun call => (call, 0), ?_,
    (hserial.sameUpToOrder hw hdone).append_void hw hvoid⟩
  have hrequests : rest.map (Prod.fst ∘ fun call => (call, (0 : Time))) = rest := List.map_id rest
  rw [List.map_append, List.map_map, List.map_map, hrequests]
  exact hperm

/-- **Every call comes to its end.** Calls of `make_tweet` do not wait for each other: whatever the
interleaving, a thread that has had its turns is finished, and their number depends only on the
text of its call and on the number of follows. -/
theorem tweets_finish (P : Platform) {w : World} (hw : WellTyped w.redis) (calls : List TweetCall)
    (es : List (ℕ × Time)) {i : ℕ} {call : TweetCall} (hcall : calls[i]? = some call)
    (hturns : call.turns w.db ≤ turns i es) :
    ∃ pc, (Run.run (fire (TweetPc.step P)) (startTweets w calls) es).threads[i]? = some pc ∧
      pc.finished = true := by
  have hthread : (startTweets w calls).threads[i]? =
      some (.load call.text call.id call.replyId) := by
    rw [startTweets, List.getElem?_map, hcall]
    rfl
  -- no call changes the follows, so the bound of every thread stays what it was
  have hkeep : ∀ pc now q, WellTyped q.redis ∧ q.db.follows = w.db.follows →
      WellTyped (TweetPc.step P pc now q).1.redis ∧
        (TweetPc.step P pc now q).1.db.follows = w.db.follows := by
    intro pc now q hq
    refine ⟨(effect_tweetStep P now pc hq.1).1, ?_⟩
    by_cases hcreate : ∃ user replyId p, pc = .create user replyId p
    · obtain ⟨user, replyId, p, rfl⟩ := hcreate
      rw [step_create]
      exact hq.2
    · have hmoved : Moved q.db pc q (TweetPc.step P pc now q).1 (TweetPc.step P pc now q).2 :=
        moved_step hq.1 rfl fun user replyId p h => hcreate ⟨user, replyId, p, h⟩
      exact hmoved.source.follows.trans hq.2
  obtain ⟨pc, hpc, hle⟩ := measure_run_le (μ := TweetPc.left w.db.follows.rows.length) hkeep
    (fun pc now q hq => by rw [← hq.2]; exact left_step pc) (c := startTweets w calls)
    ⟨hw, rfl⟩ hthread es
  have hbound : (TweetPc.load call.text call.id call.replyId).left w.db.follows.rows.length =
      call.turns w.db := rfl
  exact ⟨pc, hpc, TweetPc.finished_of_left (M := w.db.follows.rows.length) (by omega)⟩

/-- Two tweets of the first user, and a call without an author. -/
def threeCalls : List TweetCall :=
  [⟨some "one", some 1, none⟩, ⟨some "two", some 1, none⟩, ⟨some "three", none, none⟩]

/-- The tweets overtake each other; then all calls run to their ends. -/
def overtakenCalls : Config World TweetPc :=
  Run.run (fire (TweetPc.step .ascii)) (startTweets threeUsers threeCalls)
    (overtaking ++ List.replicate 6 (0, 4) ++ List.replicate 6 (1, 4) ++ [(2, 5)])

theorem overtaken_calls_serializable :
    Sound .ascii threeUsers ∧ (∀ pc ∈ overtakenCalls.threads, pc.finished = true) ∧
      ∃ order : List (TweetCall × Time), order.map Prod.fst ~ threeCalls ∧
        SameUpToOrder (Run.run (step .ascii) threeUsers (order.map fun k => k.1.op k.2))
          overtakenCalls.shared := by
  have hsound : Sound .ascii threeUsers := (always_sound (sound_empty .ascii) _).last
  have hdone : ∀ pc ∈ overtakenCalls.threads, pc.finished = true := by decide +kernel
  exact ⟨hsound, hdone, tweets_serializable .ascii hsound threeCalls _ hdone⟩

/-- The second call has its turns while the first one stands still. -/
theorem second_call_finishes :
    WellTyped threeUsers.redis ∧ threeCalls[1]? = some ⟨some "two", some 1, none⟩ ∧
      TweetCall.turns ⟨some "two", some 1, none⟩ threeUsers.db ≤
        turns 1 (List.replicate 15 (1, 0)) ∧
      ∃ pc, (Run.run (fire (TweetPc.step .ascii)) (startTweets threeUsers threeCalls)
        (List.replicate 15 (1, 0))).threads[1]? = some pc ∧ pc.finished = true := by
  have hw : WellTyped threeUsers.redis := (always_sound (sound_empty .ascii) _).last.wellTyped
  have hturns : TweetCall.turns ⟨some "two", some 1, none⟩ threeUsers.db ≤
      turns 1 (List.replicate 15 (1, 0)) := by decide +kernel
  exact ⟨hw, rfl, hturns, tweets_finish .ascii hw threeCalls _ rfl hturns⟩

end NanoTwitter
