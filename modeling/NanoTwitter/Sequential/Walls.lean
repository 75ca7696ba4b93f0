import Mathlib.Tactic
import NanoTwitter.Sequential.FollowCounters

/-!
# The walls as the history of what was followed

A profile feed (`pfeed`) and a home feed (`hfeed`) after a run, read off the operations of the run.
An operation is named by its position `i`: `before` is the state it finds, `callAt` the call of
`make_tweet` it is, if it is one with an author and with a text that `process_text` returns on, and
`textAt` what such a call caches.

`walls_eq_history`: from an empty database and cache on,

* `pfeed(a)` holds the calls of `a` that are no replies, newest first; `tweet_count` counts them;
* `hfeed(u)` holds copies of calls, the newest first. A call that is no reply has exactly one copy
  if `u` followed its author at the time, and none if `u` did not and the text does not mention `u`;
* no other operation touches a feed.

Two facts carry the second point: a pair has at most one row in `follows`, and `cache_mentions`
takes the followers out of the mentioned users.
-/

namespace NanoTwitter

open Ruby (Time)

/-- A call of `make_tweet` that has found its author and processed its text. -/
structure Call where
  now : Time
  text : Option Text
  author : Row User
  replyId : Option Text
  processed : Processed

/-- The call that an operation makes on a database. -/
def call? (db : Db) : Op → Option Call
  | .makeTweet now text id replyId =>
    match id.bind db.users.find, processText db.users text with
    | some author, .ok processed => some ⟨now, text, author, replyId, processed⟩
    | _, _ => none
  | _ => none

/-- What a call caches. -/
def Call.json (c : Call) (db : Db) : Text :=
  (createdEntry c.now c.author c.processed.text db.tweets).toJson

section History

variable (P : Platform) (ops : List Op)

/-- The state that the operation at position `i` finds. -/
def before (i : ℕ) : World := Run.run (step P) World.empty (ops.take i)

/-- The call at position `i`. -/
def callAt (i : ℕ) : Option Call := ops[i]?.bind (call? (before P ops i).db)

/-- What the call at position `i` caches. -/
def textAt (i : ℕ) : Text := ((callAt P ops i).map fun c => c.json (before P ops i).db).getD []

/-- The position is that of a call of `a` that is no reply. -/
def wroteAt (a i : ℕ) : Bool :=
  (callAt P ops i).any fun c => decide (c.author.id = a) && c.replyId.isNone

end History

/-- The positions of a run, newest first. -/
def positions (ops : List Op) : List ℕ := (List.range ops.length).reverse

/-- A word of the text is `@` with the name of user `u`. -/
def Mentions (db : Db) (text : Option Text) (u : ℕ) : Prop :=
  ∃ t r, text = some t ∧ db.users.find u = some r ∧ '@' :: r.attrs.userName ∈ Ruby.split t

section Step

variable {P : Platform} {w : World} {op : Op}

/-- An operation that makes no call leaves the tweets and the cache alone. -/
theorem step_of_no_call (hw : Sound P w) (h : call? w.db op = none) :
    (step P w op).db.tweets = w.db.tweets ∧ view (step P w op).redis = view w.redis := by
  have heffect := (effect_step hw op).1
  generalize (step P w op).db = db' at heffect
  generalize view (step P w op).redis = c' at heffect
  cases heffect with
  | rejected | registered | followNobody | followed | unfollowNobody | unfollowed =>
    exact ⟨rfl, rfl⟩
  | noAuthor | notProcessed => exact ⟨rfl, rfl⟩
  | published hu hp => simp [call?, hu, hp] at h

/-- A call stores its tweet if it is valid, and sends it out. -/
theorem step_of_call (hw : Sound P w) {c : Call} (h : call? w.db op = some c) :
    (step P w op).db.tweets = createdTweets c.now c.author c.processed.text w.db.tweets ∧
      view (step P w op).redis = publishedCache (c.json w.db) c.author.id c.replyId c.processed
        (Follow.followersOf w.db c.author.id) (view w.redis) := by
  have heffect := (effect_step hw op).1
  generalize (step P w op).db = db' at heffect
  generalize view (step P w op).redis = c' at heffect
  cases heffect with
  | rejected | registered | followNobody | followed | unfollowNobody | unfollowed =>
    exact absurd h (by simp [call?])
  | noAuthor hu => exact absurd h (by simp [call?, hu])
  | notProcessed hu hp => exact absurd h (by simp [call?, hu, hp])
  | published hu hp =>
    simp only [call?, hu, hp, Option.some.injEq] at h
    subst h
    exact ⟨rfl, rfl⟩

end Step

/-! ### Where a call goes -/

/-- The profile and home feeds. -/
def Slot.isWall : Slot → Bool
  | .pfeed _ => true
  | .hfeed _ => true
  | _ => false

/-- The walls (and tag feeds) that a call is pushed to, one by one. -/
def Call.sent (c : Call) (db : Db) : List Slot :=
  (match c.replyId with
    | none => .pfeed c.author.id :: (Follow.followersOf db c.author.id).map .hfeed
    | some _ => []) ++ marks c.processed (Follow.followersOf db c.author.id)

theorem feeds_cacheTweet_of_ne {s : Slot} (hs : s ≠ .ffeed) (c : Cache) (v : Text) (userId : ℕ)
    (followers : List ℕ) :
    (c.cacheTweet v userId followers).feeds s =
      List.replicate ((Slot.pfeed userId :: followers.map .hfeed).count s) v ++ c.feeds s := by
  rw [Cache.cacheTweet, Cache.feeds_pushAll, Cache.feeds_push, Cache.feeds_pushFront, if_neg hs,
    List.count_cons]
  by_cases h : s = .pfeed userId
  · subst h
    simp [List.replicate_succ', List.append_assoc]
  · simp [h, Ne.symm h]

theorem feeds_publishedCache_wall {s : Slot} (hs : s.isWall = true) (call : Call) (db : Db)
    (v : Text) (c : Cache) :
    (publishedCache v call.author.id call.replyId call.processed
      (Follow.followersOf db call.author.id) c).feeds s =
      List.replicate ((call.sent db).count s) v ++ c.feeds s := by
  unfold publishedCache Call.sent
  rw [Cache.feeds_pushAll, List.count_append]
  cases call.replyId with
  | none =>
    have hfront : s ≠ .ffeed := by rintro rfl; simp [Slot.isWall] at hs
    dsimp only
    rw [feeds_cacheTweet_of_ne hfront, ← List.append_assoc, ← List.replicate_add, Nat.add_comm]
  | some i =>
    have hreply : s ≠ .replies i := by rintro rfl; simp [Slot.isWall] at hs
    dsimp only
    rw [Cache.feeds_append, if_neg hreply, List.count_nil, Nat.zero_add]

/-- Copies for followers go to home feeds only. -/
theorem count_fan_eq_zero {s : Slot} (hhome : ∀ u, s ≠ .hfeed u) (followers : List ℕ) :
    (followers.map Slot.hfeed).count s = 0 := by
  rw [List.count_eq_zero, List.mem_map]
  rintro ⟨u, -, hu⟩
  exact hhome u hu.symm

/-- Copies for mentions and tags go to home feeds and tag feeds only. -/
theorem count_marks_eq_zero {s : Slot} (hhome : ∀ u, s ≠ .hfeed u) (htag : ∀ n, s ≠ .tag n)
    (p : Processed) (followers : List ℕ) : (marks p followers).count s = 0 := by
  unfold marks
  split_ifs
  · exact count_fan_eq_zero hhome _
  · rw [List.count_eq_zero, List.mem_map]
    rintro ⟨n, -, hn⟩
    exact htag n hn.symm

theorem hfeed_injective : Function.Injective Slot.hfeed := fun _ _ h => by injection h

/-- Only the users that do not follow the author get a copy for a mention. -/
theorem count_marks_hfeed (p : Processed) (followers : List ℕ) (u : ℕ) :
    (marks p followers).count (.hfeed u) = if u ∈ followers then 0 else p.mentions.count u := by
  unfold marks
  split_ifs with hm hu hu
  · rw [List.count_map_of_injective _ _ hfeed_injective, count_removeFollowers, if_pos hu]
  · rw [List.count_map_of_injective _ _ hfeed_injective, count_removeFollowers, if_neg hu]
  · rw [List.count_eq_zero]
    simp
  · have hnone : p.mentions = [] := List.length_eq_zero_iff.1 (Nat.eq_zero_of_not_pos hm)
    rw [hnone, List.count_nil, List.count_eq_zero]
    simp

/-- A call goes to its author's profile once, unless it is a reply. -/
theorem count_sent_pfeed (c : Call) (db : Db) (a : ℕ) :
    (c.sent db).count (.pfeed a) =
      if (decide (c.author.id = a) && c.replyId.isNone) = true then 1 else 0 := by
  unfold Call.sent
  rw [List.count_append, count_marks_eq_zero (by simp) (by simp), Nat.add_zero]
  cases c.replyId with
  | some i => simp
  | none =>
    dsimp only
    rw [List.count_cons, count_fan_eq_zero (by simp)]
    by_cases h : c.author.id = a <;> simp [h]

/-- A follower appears once in the list of followers. -/
theorem count_followersOf {db : Db} (h : (db.follows.rows.map Row.attrs).Nodup) (u a : ℕ) :
    (Follow.followersOf db a).count u = if Follow.exists? db u a then 1 else 0 := by
  have hpair : (Follow.followersOf db a).count u =
      (db.follows.rows.map Row.attrs).count ⟨u, a⟩ := by
    unfold Follow.followersOf
    rw [List.count, List.count, List.countP_map, List.countP_map, List.countP_filter]
    refine List.countP_congr fun f _ => ?_
    obtain ⟨id, ⟨x, y⟩⟩ := f
    simp
  rw [hpair, count_pair h]

/-- **A call that is no reply goes to the home of a follower exactly once**, and to the home of
nobody else whom it does not mention. -/
theorem count_sent_hfeed {P : Platform} {db : Db} (h : Wf P db) {c : Call}
    (hreply : c.replyId = none) (u : ℕ) :
    (c.sent db).count (.hfeed u) =
      if Follow.exists? db u c.author.id then 1 else c.processed.mentions.count u := by
  have hcount := count_followersOf h.pairs u c.author.id
  have hfan : (Slot.pfeed c.author.id :: (Follow.followersOf db c.author.id).map .hfeed).count
      (.hfeed u) = (Follow.followersOf db c.author.id).count u := by
    rw [List.count_cons_of_ne (by simp), List.count_map_of_injective _ _ hfeed_injective]
  unfold Call.sent
  rw [hreply, List.count_append, hfan, count_marks_hfeed, hcount]
  by_cases hex : Follow.exists? db u c.author.id = true
  · rw [if_pos hex] at hcount
    have hmem : u ∈ Follow.followersOf db c.author.id :=
      List.count_pos_iff.1 (by rw [hcount]; decide)
    simp [hex, hmem]
  · rw [if_neg hex, List.count_eq_zero] at hcount
    simp [hex, hcount]

/-! ### One operation -/

variable {P : Platform} {w : World}

/-- An operation puts the copies of its call, if it makes one, in front of a wall. -/
theorem feeds_step_wall (hw : Sound P w) (op : Op) {s : Slot} (hs : s.isWall = true) :
    (view (step P w op).redis).feeds s =
      (match call? w.db op with
        | some c => List.replicate ((c.sent w.db).count s) (c.json w.db)
        | none => []) ++ (view w.redis).feeds s := by
  cases hc : call? w.db op with
  | none => rw [(step_of_no_call hw hc).2]; rfl
  | some c => rw [(step_of_call hw hc).2]; exact feeds_publishedCache_wall hs c w.db _ _

/-- The operation is a call of `make_tweet`. -/
def Op.isTweet : Op → Bool
  | .makeTweet .. => true
  | _ => false

/-- Operations other than `make_tweet` leave the cache alone. -/
theorem view_step_of_not_tweet (hw : Sound P w) {op : Op} (hop : op.isTweet = false) :
    view (step P w op).redis = view w.redis := by
  have heffect := (effect_step hw op).1
  generalize (step P w op).db = db' at heffect
  generalize view (step P w op).redis = c' at heffect
  cases heffect with
  | rejected | registered | followNobody | followed | unfollowNobody | unfollowed => rfl
  | noAuthor | notProcessed | published => exact absurd hop (by simp [Op.isTweet])

/-- The profile feeds are as long as the tweet counters say. -/
def Counted (w : World) : Prop :=
  ∀ a, (((view w.redis).feeds (.pfeed a)).length : ℤ) = count .tweets w.db.users a

/-- The tweet counter of `a` goes up with the calls that reach the profile of `a`. -/
theorem count_tweets_step (hw : Sound P w) (op : Op) (a : ℕ) :
    count .tweets (step P w op).db.users a = count .tweets w.db.users a +
      (match call? w.db op with
        | some c => ((c.sent w.db).count (.pfeed a) : ℤ)
        | none => 0) := by
  have heffect := (effect_step hw op).1
  generalize (step P w op).db = db' at heffect
  generalize view (step P w op).redis = c' at heffect
  cases heffect with
  | rejected | followNobody | unfollowNobody => simp [call?]
  | registered hu _ => simpa [call?] using count_insert (counters_new hu .tweets) w.db.users a
  | followed hu hv =>
    simp only [call?, add_zero]
    rw [count_bump_of_ne (.inl (by decide)), count_bump_of_ne (.inl (by decide))]
  | unfollowed hu hv =>
    simp only [call?, add_zero]
    rw [count_lower_of_ne (by decide), count_lower_of_ne (by decide)]
  | noAuthor hu => simp [call?, hu]
  | notProcessed hu hp => simp [call?, hu, hp]
  | @published now text i replyId u p hu hp =>
    simp only [call?, hu, hp, count_sent_pfeed]
    cases replyId with
    | some i => simp [publishedDb]
    | none =>
      simp only [publishedDb, Option.isNone_none, Bool.and_true, decide_eq_true_eq]
      by_cases ha : u.id = a
      · subst ha
        rw [count_bump (by rw [(eq_some_of_bind hu).2]; rfl)]
        simp
      · rw [count_bump_of_ne (.inr (Ne.symm ha)), if_neg ha]
        simp

theorem counted_step (hw : Sound P w) (h : Counted w) (op : Op) : Counted (step P w op) := by
  intro a
  rw [feeds_step_wall hw op rfl, count_tweets_step hw, List.length_append, Nat.cast_add, h a,
    add_comm]
  cases call? w.db op <;> simp

/-! ### Runs -/

section Runs

variable (P) (ops : List Op)

/-- The state after a run. -/
abbrev after : World := Run.run (step P) World.empty ops

theorem sound_after : Sound P (after P ops) := (always_sound (sound_empty P) ops).last

theorem sound_before (i : ℕ) : Sound P (before P ops i) := sound_after P (ops.take i)

/-- The copies that the call at position `i` puts on the wall `s`. -/
def copiesAt (s : Slot) (i : ℕ) : ℕ :=
  ((callAt P ops i).map fun c => (c.sent (before P ops i).db).count s).getD 0

variable {ops} (op : Op)

theorem before_concat {i : ℕ} (hi : i ≤ ops.length) :
    before P (ops ++ [op]) i = before P ops i := by
  unfold before
  rw [List.take_append_of_le_length hi]

theorem callAt_concat {i : ℕ} (hi : i < ops.length) :
    callAt P (ops ++ [op]) i = callAt P ops i := by
  unfold callAt
  rw [before_concat P op hi.le, List.getElem?_append_left hi]

theorem textAt_concat {i : ℕ} (hi : i < ops.length) :
    textAt P (ops ++ [op]) i = textAt P ops i := by
  unfold textAt
  rw [callAt_concat P op hi, before_concat P op hi.le]

theorem copiesAt_concat {s : Slot} {i : ℕ} (hi : i < ops.length) :
    copiesAt P (ops ++ [op]) s i = copiesAt P ops s i := by
  unfold copiesAt
  rw [callAt_concat P op hi, before_concat P op hi.le]

theorem callAt_last : callAt P (ops ++ [op]) ops.length = call? (after P ops).db op := by
  unfold callAt
  rw [before_concat P op le_rfl, before, List.take_length, List.getElem?_concat_length]
  rfl

theorem positions_concat : positions (ops ++ [op]) = ops.length :: positions ops := by
  simp [positions, List.range_succ]

end Runs

/-- **A wall is the copies of all calls, those of the newest first.** -/
theorem feeds_wall (P : Platform) (ops : List Op) {s : Slot} (hs : s.isWall = true) :
    (view (after P ops).redis).feeds s =
      (positions ops).flatMap fun i => List.replicate (copiesAt P ops s i) (textAt P ops i) := by
  -- on the last operation: the earlier positions keep their calls and texts
  induction ops using List.reverseRecOn with
  | nil => rfl
  | append_singleton ops op ih =>
    have hold : ((positions ops).flatMap fun i =>
        List.replicate (copiesAt P (ops ++ [op]) s i) (textAt P (ops ++ [op]) i)) =
        (positions ops).flatMap fun i => List.replicate (copiesAt P ops s i) (textAt P ops i) := by
      refine List.flatMap_congr fun i hi => ?_
      have hlt : i < ops.length := by simpa [positions] using hi
      rw [copiesAt_concat P op hlt, textAt_concat P op hlt]
    rw [positions_concat, List.flatMap_cons, hold, ← ih, after, Run.run_concat,
      feeds_step_wall (sound_after P ops) op hs]
    congr 1
    unfold copiesAt textAt
    rw [callAt_last, before_concat P op le_rfl, before, List.take_length]
    cases call? (after P ops).db op <;> rfl

theorem copiesAt_pfeed (P : Platform) (ops : List Op) (a i : ℕ) :
    copiesAt P ops (.pfeed a) i = if wroteAt P ops a i then 1 else 0 := by
  unfold copiesAt wroteAt
  cases callAt P ops i with
  | none => rfl
  | some c => exact count_sent_pfeed c _ a

theorem flatMap_replicate_ite {α β : Type} (p : α → Bool) (f : α → β) (l : List α) :
    (l.flatMap fun a => List.replicate (if p a then 1 else 0) (f a)) = (l.filter p).map f := by
  induction l with
  | nil => rfl
  | cons a l ih =>
    rw [List.flatMap_cons, ih]
    by_cases h : p a = true <;> simp [h]

theorem feeds_pfeed (P : Platform) (ops : List Op) (a : ℕ) :
    (view (after P ops).redis).feeds (.pfeed a) =
      ((positions ops).filter (wroteAt P ops a)).map (textAt P ops) := by
  rw [feeds_wall P ops rfl, ← flatMap_replicate_ite]
  simp only [copiesAt_pfeed]

/-- The copies of a call that is no reply on the home of `u`. -/
theorem copiesAt_hfeed {P : Platform} {ops : List Op} {i : ℕ} {c : Call}
    (hc : callAt P ops i = some c) (hreply : c.replyId = none) (u : ℕ) :
    copiesAt P ops (.hfeed u) i =
      if Follow.exists? (before P ops i).db u c.author.id then 1
      else c.processed.mentions.count u := by
  unfold copiesAt
  rw [hc]
  exact count_sent_hfeed (sound_before P ops i).wf hreply u

theorem mentions_of_mem {P : Platform} {ops : List Op} {i : ℕ} {c : Call}
    (hc : callAt P ops i = some c) {u : ℕ} (hu : u ∈ c.processed.mentions) :
    Mentions (before P ops i).db c.text u := by
  obtain ⟨op, -, hcall⟩ := Option.bind_eq_some_iff.1 hc
  cases op with
  | makeTweet now text id replyId =>
    simp only [call?] at hcall
    split at hcall
    · rename_i u p _ hp
      obtain rfl := Option.some.inj hcall
      exact mem_mentions hp hu
    · exact absurd hcall (by simp)
  | _ => exact absurd hcall (by simp [call?])

/-- **The walls are the history of what was followed.** -/
theorem walls_eq_history (P : Platform) (ops : List Op) :
    (∀ a,
      accessPfeed a (after P ops) =
        .ok (((positions ops).filter (wroteAt P ops a)).map (textAt P ops)) (after P ops) ∧
      (((positions ops).filter (wroteAt P ops a)).length : ℤ) =
        count .tweets (after P ops).db.users a) ∧
    (∀ u,
      accessHfeed u (after P ops) =
        .ok ((positions ops).flatMap fun i =>
          List.replicate (copiesAt P ops (.hfeed u) i) (textAt P ops i)) (after P ops) ∧
      ∀ i c, callAt P ops i = some c → c.replyId = none →
        (Follow.exists? (before P ops i).db u c.author.id = true →
          copiesAt P ops (.hfeed u) i = 1) ∧
        (Follow.exists? (before P ops i).db u c.author.id = false →
          ¬ Mentions (before P ops i).db c.text u → copiesAt P ops (.hfeed u) i = 0)) ∧
    Run.EachStep (step P)
      (fun w op => op.isTweet = false → view (step P w op).redis = view w.redis)
      World.empty ops := by
  have hread : ∀ s : Slot, s.isFeed = true →
      lrange s.key (after P ops) = .ok ((view (after P ops).redis).feeds s) (after P ops) :=
    fun s hs => lrange_eq (sound_after P ops).wellTyped hs
  refine ⟨fun a => ⟨?_, ?_⟩, fun u => ⟨?_, fun i c hc hreply => ⟨fun hex => ?_, fun hex hno => ?_⟩⟩,
    fun pre op hpre hop => ?_⟩
  · rw [← feeds_pfeed]
    exact hread (.pfeed a) rfl
  · have hinv : Run.Always (step P) (fun w => Sound P w ∧ Counted w) World.empty ops :=
      Run.always_of_inv (P := fun w => Sound P w ∧ Counted w)
        (fun _ op h => ⟨(effect_step h.1 op).2, counted_step h.1 h.2 op⟩)
        ⟨sound_empty P, fun _ => rfl⟩ ops
    rw [← hinv.last.2 a, feeds_pfeed, List.length_map]
  · rw [← feeds_wall P ops (s := .hfeed u) rfl]
    exact hread (.hfeed u) rfl
  · rw [copiesAt_hfeed hc hreply, if_pos hex]
  · rw [copiesAt_hfeed hc hreply, hex, if_neg (by simp), List.count_eq_zero]
    exact fun hu => hno (mentions_of_mem hc hu)
  · exact view_step_of_not_tweet (sound_after P pre) hop

end NanoTwitter
