import Mathlib.Tactic
import NanoTwitter.Sequential.Walls

/-!
# Where one call of `make_tweet` arrives

What a finished call adds to the feeds, in any database and any well typed cache: `receivers` lists
the feeds that get a copy, once for each copy, and `perm_feeds_publishedCache` says that they get
nothing else. Three questions about a call are read off this list.

* `mentions_reached_iff`: everybody mentioned finds the tweet on the home feed, unless it is a reply
  that mentions a follower of its author. Followers are taken out of the mentions because
  `cache_tweet` serves them, and for a reply `cache_tweet` is not called.
* `gained_le_one_iff`: every list gains at most one entry, unless a user who does not follow the
  author is mentioned twice, or a tag stands twice in a text without mentions.
* `tags_filed_iff`: the tweet is filed under all its tags, unless it has tags and mentions.
-/

namespace NanoTwitter

open Ruby (Time)
open scoped List

/-- The list that `read` returns holds one more copy of `v`, or several more. -/
def Gains (read : Prog (List Text)) (w w' : World) (v : Text) : Prop :=
  ∃ l l', read w = .ok l w ∧ read w' = .ok l' w' ∧ l.count v < l'.count v

/-- The number of entries of `l'` that are new in comparison with `l`. -/
def newEntries (l l' : List Text) : ℕ :=
  Multiset.card ((l' : Multiset Text) - (l : Multiset Text))

/-- The number of entries that a feed has gained. -/
def gained (w w' : World) (s : Slot) : ℕ :=
  newEntries ((view w.redis).feeds s) ((view w'.redis).feeds s)

/-- The feeds that `cache_tweet` (the front page apart) or `cache_reply` pushes to. -/
def firstReceivers (userId : ℕ) (followers : List ℕ) : Option Text → List Slot
  | none => .pfeed userId :: followers.map .hfeed
  | some i => [.replies i]

/-- The feeds other than the front page that a call goes to, one by one. -/
def receivers (replyId : Option Text) (p : Processed) (userId : ℕ) (followers : List ℕ) :
    List Slot :=
  firstReceivers userId followers replyId ++ marks p followers

theorem Follow.mem_followersOf {db : Db} {a b : ℕ} :
    a ∈ Follow.followersOf db b ↔ Follow.exists? db a b = true := by
  rw [Follow.exists?_iff]
  unfold Follow.followersOf
  simp only [List.mem_map, List.mem_filter, decide_eq_true_eq]
  constructor
  · rintro ⟨f, ⟨hf, rfl⟩, rfl⟩
    exact ⟨f, hf, rfl⟩
  · rintro ⟨f, hf, hfa⟩
    exact ⟨f, ⟨hf, by rw [hfa]⟩, by rw [hfa]⟩

/-! ### The feeds after a call -/

section Feeds

variable {v : Text} {a : ℕ} {r : Option Text} {p : Processed} {f : List ℕ} {c : Cache}

/-- A call adds its copies to a feed, and the front page apart the feed keeps all it had. -/
theorem perm_feeds_publishedCache {s : Slot} (hs : s ≠ .ffeed) :
    (publishedCache v a r p f c).feeds s ~
      List.replicate ((receivers r p a f).count s) v ++ c.feeds s := by
  unfold publishedCache receivers
  rw [Cache.feeds_pushAll, List.count_append, Nat.add_comm, List.replicate_add, List.append_assoc]
  refine List.Perm.append_left _ ?_
  cases r with
  | none =>
    dsimp only
    rw [feeds_cacheTweet_of_ne hs]
    rfl
  | some i =>
    dsimp only [firstReceivers]
    rw [Cache.feeds_append, List.count_singleton]
    by_cases hi : s = .replies i
    · simp [hi]
    · simp [hi, Ne.symm hi]

theorem newEntries_cons_le_one {l m : List Text} (h : (l : Multiset Text) ≤ m) :
    newEntries m (v :: l) ≤ 1 := by
  have hle : ((v :: l : List Text) : Multiset Text) - (m : Multiset Text) ≤ {v} := by
    rw [tsub_le_iff_right, ← Multiset.cons_coe, ← Multiset.singleton_add]
    exact add_le_add_right h {v}
  exact Multiset.card_le_card hle

/-- The front page gains one entry from a tweet and none from a reply. -/
theorem newEntries_ffeed_le_one :
    newEntries (c.feeds .ffeed) ((publishedCache v a r p f c).feeds .ffeed) ≤ 1 := by
  unfold publishedCache
  rw [Cache.feeds_pushAll, count_marks_eq_zero (by simp) (by simp), List.replicate_zero,
    List.nil_append]
  cases r with
  | some i => simp [Cache.feeds_append, newEntries]
  | none =>
    dsimp only
    rw [Cache.cacheTweet, Cache.feeds_pushAll, count_fan_eq_zero (by simp), List.replicate_zero,
      List.nil_append, Cache.feeds_push, if_neg (by simp), Cache.feeds_pushFront, if_pos rfl]
    split_ifs
    · exact newEntries_cons_le_one (Multiset.coe_le.2 (List.dropLast_sublist _).subperm)
    · exact newEntries_cons_le_one le_rfl

/-- Any other feed gains its copies. -/
theorem newEntries_publishedCache {s : Slot} (hs : s ≠ .ffeed) :
    newEntries (c.feeds s) ((publishedCache v a r p f c).feeds s) =
      (receivers r p a f).count s := by
  rw [newEntries, Multiset.coe_eq_coe.2 (perm_feeds_publishedCache hs), ← Multiset.coe_add,
    add_tsub_cancel_right, Multiset.coe_card, List.length_replicate]

theorem count_receivers_pfeed (i : ℕ) : (receivers r p a f).count (.pfeed i) ≤ 1 := by
  unfold receivers
  rw [List.count_append, count_marks_eq_zero (by simp) (by simp), Nat.add_zero]
  cases r with
  | some j => simp [firstReceivers]
  | none =>
    dsimp only [firstReceivers]
    rw [List.count_cons, count_fan_eq_zero (by simp)]
    split_ifs <;> decide

theorem count_receivers_hfeed (u : ℕ) :
    (receivers r p a f).count (.hfeed u) =
      (if r = none then f.count u else 0) + if u ∈ f then 0 else p.mentions.count u := by
  unfold receivers
  rw [List.count_append, count_marks_hfeed]
  cases r with
  | some j => simp [firstReceivers]
  | none =>
    dsimp only [firstReceivers]
    rw [List.count_cons_of_ne (by simp), List.count_map_of_injective _ _ hfeed_injective,
      if_pos rfl]

theorem tag_injective : Function.Injective Slot.tag := fun _ _ h => by injection h

theorem count_receivers_tag (n : Text) :
    (receivers r p a f).count (.tag n) = if p.mentions = [] then p.tags.count n else 0 := by
  have hfirst : (firstReceivers a f r).count (.tag n) = 0 := by
    rw [List.count_eq_zero]
    cases r <;> simp [firstReceivers]
  unfold receivers marks
  rw [List.count_append, hfirst, Nat.zero_add]
  by_cases hm : p.mentions = []
  · rw [if_neg (by simp [hm]), if_pos hm, List.count_map_of_injective _ _ tag_injective]
  · rw [if_pos (List.length_pos_of_ne_nil hm), if_neg hm, List.count_eq_zero]
    simp

theorem count_receivers_replies (i : Text) : (receivers r p a f).count (.replies i) ≤ 1 := by
  unfold receivers
  rw [List.count_append, count_marks_eq_zero (by simp) (by simp), Nat.add_zero]
  cases r with
  | none => rw [List.count_eq_zero.2 (by simp [firstReceivers])]; decide
  | some j => rw [firstReceivers, List.count_singleton]; split_ifs <;> decide

end Feeds

/-- Ann and Bob register, Bob follows Ann, and Ann tweets. -/
def town : World :=
  Run.run (step .ascii) World.empty
    [.register 0 0 (.of "ann" "ann@x.org"), .register 1 0 (.of "bob" "bob@x.org"),
      .follow 2 (some 2) (some "ann"), .makeTweet 3 (some "hi") (some 1) none]

theorem sound_town : Sound .ascii town := (always_sound (sound_empty .ascii) _).last

theorem exists_ann : ∃ u, town.db.users.find 1 = some u :=
  Option.isSome_iff_exists.1 (by decide +kernel)

/-- A list that stays as it is gains nothing. -/
theorem not_gains_of_list?_eq {w w' : World} {k v : Text}
    (h : w'.redis.list? k = w.redis.list? k) : ¬ Gains (lrange k) w w' v := by
  rintro ⟨l, l', hl, hl', hlt⟩
  have hread : ∀ w : World, ∀ l, lrange k w = .ok l w → w.redis.list? k = some l := by
    intro w l hl
    cases hk : w.redis.list? k with
    | none => rw [lrange, query_of_none hk] at hl; exact absurd hl (by simp)
    | some m =>
      rw [lrange, query_of_some hk] at hl
      rw [(EStateM.Result.ok.inj hl).1]
  have hsame : l' = l := Option.some.inj
    ((hread w' l' hl').symm.trans (h.trans (hread w l hl)))
  rw [hsame] at hlt
  exact lt_irrefl _ hlt

/-! ### The three questions -/

section Call

variable {P : Platform} {w : World} {now : Time} {t : Text} {i : Option ℕ} {replyId : Option Text}
  {u : Row User} {p : Processed}

/-- A feed other than the front page gains the entry of a call if it is among the receivers. -/
theorem gains_iff (hw : WellTyped w.redis) (hu : i.bind w.db.users.find = some u)
    (hp : processText w.db.users (some t) = .ok p) {s : Slot} (hfeed : s.isFeed = true)
    (hs : s ≠ .ffeed) :
    Gains (lrange s.key) w ((makeTweet P now (some t) i replyId).exec w)
        (createdEntry now u p.text w.db.tweets).toJson ↔
      0 < (receivers replyId p u.id (Follow.followersOf w.db u.id)).count s := by
  obtain ⟨hw', hview⟩ := view_makeTweet (P := P) now replyId hw hu hp
  set w' := (makeTweet P now (some t) i replyId).exec w
  set v := (createdEntry now u p.text w.db.tweets).toJson
  have hcount : ((view w'.redis).feeds s).count v =
      (receivers replyId p u.id (Follow.followersOf w.db u.id)).count s +
        ((view w.redis).feeds s).count v := by
    rw [hview, (perm_feeds_publishedCache hs).count_eq, List.count_append,
      List.count_replicate_self]
  constructor
  · rintro ⟨l, l', hl, hl', hlt⟩
    rw [lrange_eq hw hfeed] at hl
    rw [lrange_eq hw' hfeed] at hl'
    obtain ⟨rfl, -⟩ := EStateM.Result.ok.inj hl
    obtain ⟨rfl, -⟩ := EStateM.Result.ok.inj hl'
    omega
  · intro hpos
    exact ⟨_, _, lrange_eq hw hfeed, lrange_eq hw' hfeed, by omega⟩

/-- **Everybody mentioned finds the tweet on the home feed exactly when it is no reply or mentions
no follower of its author.** -/
theorem mentions_reached_iff (hw : WellTyped w.redis) (hu : i.bind w.db.users.find = some u)
    (hp : processText w.db.users (some t) = .ok p) :
    (∀ m ∈ p.mentions, Gains (accessHfeed m) w ((makeTweet P now (some t) i replyId).exec w)
        (createdEntry now u p.text w.db.tweets).toJson) ↔
      replyId = none ∨ ∀ m ∈ mentioned w.db.users t, Follow.exists? w.db m u.id = false := by
  have hreach : ∀ m, Gains (accessHfeed m) w ((makeTweet P now (some t) i replyId).exec w)
      (createdEntry now u p.text w.db.tweets).toJson ↔ _ := fun m =>
    gains_iff (s := .hfeed m) hw hu hp rfl (by simp)
  simp only [hreach, count_receivers_hfeed, ← (processText_marks hp).1]
  cases replyId with
  | none =>
    refine iff_of_true (fun m hm => ?_) (.inl rfl)
    rw [if_pos rfl]
    by_cases hf : m ∈ Follow.followersOf w.db u.id
    · exact Nat.add_pos_left (List.count_pos_iff.2 hf) _
    · rw [if_neg hf]
      exact Nat.add_pos_right _ (List.count_pos_iff.2 hm)
  | some j =>
    simp only [reduceCtorEq, if_false, false_or, Nat.zero_add]
    refine forall₂_congr fun m hm => ?_
    rw [← Bool.not_eq_true, ← Follow.mem_followersOf]
    by_cases hf : m ∈ Follow.followersOf w.db u.id
    · simp [hf]
    · simpa [hf, List.count_pos_iff] using hm

/-- Ann mentions her follower Bob in a tweet. -/
theorem mention_reaches_follower : ∃ u, town.db.users.find 1 = some u ∧
    ∀ m ∈ [2], Gains (accessHfeed m) town
      ((makeTweet .ascii 4 (some "@bob yo") (some 1) none).exec town)
      (createdEntry 4 u "<a href=\"/user/bob\">@bob</a> yo" town.db.tweets).toJson := by
  obtain ⟨u, hu⟩ := exists_ann
  have hp : processText town.db.users (some "@bob yo") =
      .ok ⟨"<a href=\"/user/bob\">@bob</a> yo", [2], []⟩ := by decide +kernel
  exact ⟨u, hu, (mentions_reached_iff (i := some 1) sound_town.wellTyped hu hp).2 (.inl rfl)⟩

/-- Ann mentions her follower Bob in a reply, and Bob's home feed stays as it is. -/
theorem reply_misses_follower : ∃ u, town.db.users.find 1 = some u ∧
    processText town.db.users (some "@bob yo") =
      .ok ⟨"<a href=\"/user/bob\">@bob</a> yo", [2], []⟩ ∧
    ¬ ∀ m ∈ [2], Gains (accessHfeed m) town
      ((makeTweet .ascii 4 (some "@bob yo") (some 1) (some "1")).exec town)
      (createdEntry 4 u "<a href=\"/user/bob\">@bob</a> yo" town.db.tweets).toJson := by
  obtain ⟨u, hu⟩ := exists_ann
  refine ⟨u, hu, by decide +kernel, fun h => ?_⟩
  have hlist : ((makeTweet .ascii 4 (some "@bob yo") (some 1) (some "1")).exec town).redis.list?
      (Slot.hfeed 2).key = town.redis.list? (Slot.hfeed 2).key := by decide +kernel
  exact not_gains_of_list?_eq hlist (h 2 (List.mem_singleton.2 rfl))

/-- **Every list gains at most one entry exactly when no user who does not follow the author is
mentioned twice and, in a text without mentions, no tag stands twice.** -/
theorem gained_le_one_iff (hw : WellTyped w.redis)
    (hpairs : (w.db.follows.rows.map Row.attrs).Nodup) (hu : i.bind w.db.users.find = some u)
    (hp : processText w.db.users (some t) = .ok p) :
    (∀ s : Slot, s.isFeed = true →
        gained w ((makeTweet P now (some t) i replyId).exec w) s ≤ 1) ↔
      (∀ m, Follow.exists? w.db m u.id = false → (mentioned w.db.users t).count m ≤ 1) ∧
        (mentioned w.db.users t = [] → (tagged t).Nodup) := by
  obtain ⟨hmentions, htags⟩ := processText_marks hp
  have hview := (view_makeTweet (P := P) now replyId hw hu hp).2
  have hgained : ∀ {s : Slot}, s ≠ .ffeed →
      gained w ((makeTweet P now (some t) i replyId).exec w) s =
        (receivers replyId p u.id (Follow.followersOf w.db u.id)).count s := by
    intro s hs
    rw [gained, hview, newEntries_publishedCache hs]
  rw [← hmentions, ← htags]
  constructor
  · intro h
    refine ⟨fun m hm => ?_, fun hnone => List.nodup_iff_count_le_one.2 fun n => ?_⟩
    · have hle := h (.hfeed m) rfl
      rw [hgained (by simp), count_receivers_hfeed, if_neg (c := m ∈ _)
        (by rw [Follow.mem_followersOf, hm]; simp)] at hle
      omega
    · have hle := h (.tag n) rfl
      rwa [hgained (by simp), count_receivers_tag, if_pos hnone] at hle
  · rintro ⟨hm, ht⟩ s hs
    cases s with
    | ffeed => rw [gained, hview]; exact newEntries_ffeed_le_one
    | pfeed a => rw [hgained (by simp)]; exact count_receivers_pfeed a
    | hfeed m =>
      rw [hgained (by simp), count_receivers_hfeed]
      have hfollows := count_followersOf hpairs m u.id
      by_cases hf : m ∈ Follow.followersOf w.db u.id
      · rw [if_pos hf]
        split_ifs at hfollows ⊢ <;> omega
      · have hle := hm m (by rw [← Bool.not_eq_true, ← Follow.mem_followersOf]; exact hf)
        rw [if_neg hf, List.count_eq_zero.2 hf]
        split_ifs <;> omega
    | replies j => rw [hgained (by simp)]; exact count_receivers_replies j
    | tag n =>
      rw [hgained (by simp), count_receivers_tag]
      split_ifs with hnone
      · exact List.nodup_iff_count_le_one.1 (ht hnone) n
      · exact Nat.zero_le 1
    | likes j => exact absurd hs (by simp [Slot.isFeed])

/-- A text without mentions and tags goes once to each list. -/
theorem plain_tweet_not_replicated :
    (town.db.follows.rows.map Row.attrs).Nodup ∧ ∀ s : Slot, s.isFeed = true →
      gained town ((makeTweet .ascii 4 (some "hello") (some 1) none).exec town) s ≤ 1 := by
  obtain ⟨u, hu⟩ := exists_ann
  have hp : processText town.db.users (some "hello") = .ok ⟨"hello", [], []⟩ := by decide +kernel
  have hmentioned : mentioned town.db.users "hello" = [] := by decide +kernel
  refine ⟨sound_town.wf.pairs, (gained_le_one_iff (i := some 1) sound_town.wellTyped
    sound_town.wf.pairs hu hp).2 ⟨fun m _ => ?_, ?_⟩⟩
  · rw [hmentioned]
    exact Nat.zero_le 1
  · decide +kernel

/-- Bob mentions Ann, who does not follow him, twice, and Ann's home feed gains two entries; so does
the list of a tag that stands twice in a text. -/
theorem repeated_marks_replicated :
    gained town ((makeTweet .ascii 4 (some "@ann @ann") (some 2) none).exec town) (.hfeed 1) = 2 ∧
      gained town ((makeTweet .ascii 4 (some "#x #x") (some 1) none).exec town) (.tag "x") = 2 ∧
      ¬ ∀ s : Slot, s.isFeed = true →
        gained town ((makeTweet .ascii 4 (some "@ann @ann") (some 2) none).exec town) s ≤ 1 := by
  have htwo : gained town ((makeTweet .ascii 4 (some "@ann @ann") (some 2) none).exec town)
      (.hfeed 1) = 2 := by decide +kernel
  refine ⟨htwo, by decide +kernel, fun h => ?_⟩
  have hle := h (.hfeed 1) rfl
  rw [htwo] at hle
  exact absurd hle (by decide)

/-- **A tweet is filed under all its tags exactly when it has no tags or no mentions.** -/
theorem tags_filed_iff (hw : WellTyped w.redis) (hu : i.bind w.db.users.find = some u)
    (hp : processText w.db.users (some t) = .ok p) :
    (∀ n ∈ p.tags, Gains (accessTag n) w ((makeTweet P now (some t) i replyId).exec w)
        (createdEntry now u p.text w.db.tweets).toJson) ↔
      tagged t = [] ∨ mentioned w.db.users t = [] := by
  obtain ⟨hmentions, htags⟩ := processText_marks hp
  have hfiled : ∀ n, Gains (accessTag n) w ((makeTweet P now (some t) i replyId).exec w)
      (createdEntry now u p.text w.db.tweets).toJson ↔ _ := fun n =>
    gains_iff (s := .tag n) hw hu hp rfl (by simp)
  simp only [hfiled, count_receivers_tag, ← hmentions, ← htags]
  by_cases hnone : p.mentions = []
  · refine iff_of_true (fun n hn => ?_) (.inr hnone)
    rw [if_pos hnone]
    exact List.count_pos_iff.2 hn
  · simp only [hnone, if_false, or_false, Nat.lt_irrefl, imp_false]
    exact List.eq_nil_iff_forall_not_mem.symm

/-- A tagged tweet without mentions. -/
theorem tag_finds_tweet : ∃ u, town.db.users.find 1 = some u ∧
    ∀ n ∈ [("x" : Text)], Gains (accessTag n) town
      ((makeTweet .ascii 4 (some "#x") (some 1) none).exec town)
      (createdEntry 4 u "<a href=\"/tag/x\">#x</a>" town.db.tweets).toJson := by
  obtain ⟨u, hu⟩ := exists_ann
  have hp : processText town.db.users (some "#x") =
      .ok ⟨"<a href=\"/tag/x\">#x</a>", [], ["x"]⟩ := by decide +kernel
  exact ⟨u, hu, (tags_filed_iff (i := some 1) sound_town.wellTyped hu hp).2
    (.inr (by decide +kernel))⟩

/-- A tag next to a mention becomes a link to a list that does not hold the tweet. -/
theorem tag_beside_mention_lost : ∃ u, town.db.users.find 1 = some u ∧
    processText town.db.users (some "@bob #x") =
      .ok ⟨"<a href=\"/user/bob\">@bob</a> <a href=\"/tag/x\">#x</a>", [2], ["x"]⟩ ∧
    ¬ ∀ n ∈ [("x" : Text)], Gains (accessTag n) town
      ((makeTweet .ascii 4 (some "@bob #x") (some 1) none).exec town)
      (createdEntry 4 u "<a href=\"/user/bob\">@bob</a> <a href=\"/tag/x\">#x</a>"
        town.db.tweets).toJson := by
  obtain ⟨u, hu⟩ := exists_ann
  refine ⟨u, hu, by decide +kernel, fun h => ?_⟩
  have hlist : ((makeTweet .ascii 4 (some "@bob #x") (some 1) none).exec town).redis.list?
      (Slot.tag "x").key = town.redis.list? (Slot.tag "x").key := by decide +kernel
  exact not_gains_of_list?_eq hlist (h "x" (List.mem_singleton.2 rfl))

end Call

end NanoTwitter
