import Mathlib.Tactic
import NanoTwitter.Sequential.FeedEntries
import NanoTwitter.Sequential.Walls

/-!
# Reply lists and the `reply_id` column

`004_add_reply_id_to_tweets.rb` gives `tweets` a column for the tweet that a reply answers.
`make_tweet` has the id at hand and caches the reply under it, but does not pass it to
`Tweet.create`: the column stays null.

A `ReplyLog` carries along which `reply_id` each row was made with. `Recorded`: the cached replies
of every tweet are the rows whose column names it, in order of creation, and rows made without a
`reply_id` have none. `recorded_run_iff`: a run whose calls answer nobody or existing tweets with
storable texts keeps this exactly when none of its calls is a reply.
-/

namespace NanoTwitter

open Ruby (decimal)

/-- The stores, and the ids of the rows with the `reply_id` that `make_tweet` was given for them. -/
structure ReplyLog where
  world : World
  madeWith : List (ℕ × Option Text)

namespace ReplyLog

def empty : ReplyLog := ⟨World.empty, []⟩

/-- Run an operation, and note what a row it has stored was made with. -/
def step (P : Platform) (l : ReplyLog) (op : Op) : ReplyLog where
  world := NanoTwitter.step P l.world op
  madeWith := match op with
    | .makeTweet _ _ _ replyId =>
        if l.world.db.tweets.rows.length < (NanoTwitter.step P l.world op).db.tweets.rows.length
        then l.madeWith ++ [(l.world.db.tweets.nextId, replyId)]
        else l.madeWith
    | _ => l.madeWith

/-- The rows that answer the tweet `t`, in order of creation. -/
def answers (l : ReplyLog) (t : ℕ) : List (Row Tweet) :=
  l.world.db.tweets.rows.filter fun r => r.attrs.replyId = some (t : ℤ)

/-- The replies are recorded in the database as in the cache. -/
def Recorded (l : ReplyLog) : Prop :=
  (∀ t ∈ l.world.db.tweets.rows,
    accessReplies (decimal t.id) l.world =
      .ok ((l.answers t.id).map fun r => (rowEntry r).json) l.world) ∧
  ∀ m ∈ l.madeWith, m.2 = none → ∀ r ∈ l.world.db.tweets.rows, r.id = m.1 →
    r.attrs.replyId = none

/-- Calls with nil or existing reply ids and storable texts, and all other operations. -/
def Admissible (l : ReplyLog) (op : Op) : Prop :=
  ∀ c, call? l.world.db op = some c →
    (c.replyId = none ∨ ∃ t ∈ l.world.db.tweets.rows, c.replyId = some (decimal t.id)) ∧
      (Tweet.new c.now c.processed.text c.author).valid true = true

/-- The operation makes no reply. -/
def NotReply (l : ReplyLog) (op : Op) : Prop :=
  ∀ c, call? l.world.db op = some c → c.replyId = none

instance (l : ReplyLog) (op : Op) : Decidable (l.Admissible op) :=
  inferInstanceAs (Decidable (∀ c ∈ call? l.world.db op,
    (c.replyId = none ∨ ∃ t ∈ l.world.db.tweets.rows, c.replyId = some (decimal t.id)) ∧
      (Tweet.new c.now c.processed.text c.author).valid true = true))

instance (l : ReplyLog) (op : Op) : Decidable (l.NotReply op) :=
  inferInstanceAs (Decidable (∀ c ∈ call? l.world.db op, c.replyId = none))

/-- What holds as long as nobody has replied: no row has a `reply_id`, no reply is cached. -/
structure Inv (P : Platform) (l : ReplyLog) : Prop where
  sound : Sound P l.world
  column : ∀ r ∈ l.world.db.tweets.rows, r.attrs.replyId = none
  cached : ∀ x, (view l.world.redis).feeds (.replies x) = []

end ReplyLog

open ReplyLog

/-- A loop over a nonempty list does not return the empty list. -/
theorem accessReplies_eq_nil {w : World} (hw : WellTyped w.redis) {x : Text}
    (h : accessReplies x w = .ok [] w) : (view w.redis).feeds (.replies x) = [] := by
  unfold accessReplies at h
  rw [EStateM.bind_of_ok (lrange_eq hw rfl)] at h
  cases hl : (view w.redis).feeds (.replies x) with
  | nil => rfl
  | cons v vs =>
    rw [hl, List.mapM_cons] at h
    cases hv : Json.parse v with
    | none =>
      rw [EStateM.bind_of_error (orRaise_error .parserError hv)] at h
      exact absurd h (by simp)
    | some j =>
      rw [EStateM.bind_of_ok (orRaise_ok .parserError hv)] at h
      cases hvs : (vs.mapM fun v => (orRaise .parserError (Json.parse v) : Prog Json)) w with
      | error e w' =>
        rw [EStateM.bind_of_error hvs] at h
        exact absurd h (by simp)
      | ok js w' =>
        rw [EStateM.bind_of_ok hvs] at h
        exact absurd (EStateM.Result.ok.inj h).1 (List.cons_ne_nil j js)

section Step

variable {P : Platform} {l : ReplyLog}

theorem answers_eq_nil (h : ∀ r ∈ l.world.db.tweets.rows, r.attrs.replyId = none) (t : ℕ) :
    l.answers t = [] := by
  refine List.filter_eq_nil_iff.2 fun r hr => ?_
  rw [h r hr]
  simp

/-- As long as nobody has replied, nothing is missing in the database. -/
theorem ReplyLog.Inv.recorded (h : l.Inv P) : l.Recorded := by
  refine ⟨fun t _ => ?_, fun m _ _ r hr _ => h.column r hr⟩
  rw [answers_eq_nil h.column, accessReplies,
    EStateM.bind_of_ok (lrange_eq h.sound.wellTyped rfl), h.cached]
  rfl

/-- A call stores no `reply_id`. -/
theorem replyId_createdTweets {tweets : Table Tweet} (h : ∀ r ∈ tweets.rows, r.attrs.replyId = none)
    (now : Ruby.Time) (user : Row User) (text : Text) :
    ∀ r ∈ (createdTweets now user text tweets).rows, r.attrs.replyId = none := by
  unfold createdTweets
  split_ifs
  · intro r hr
    rw [Table.rows_insert, List.mem_append, List.mem_singleton] at hr
    rcases hr with hr | rfl
    · exact h r hr
    · rfl
  · exact h

theorem column_step (h : l.Inv P) (op : Op) :
    ∀ r ∈ (l.step P op).world.db.tweets.rows, r.attrs.replyId = none := by
  show ∀ r ∈ (NanoTwitter.step P l.world op).db.tweets.rows, _
  cases hc : call? l.world.db op with
  | none => rw [(step_of_no_call h.sound hc).1]; exact h.column
  | some c =>
    rw [(step_of_call h.sound hc).1]
    exact replyId_createdTweets h.column c.now c.author c.processed.text

/-- A reply goes to the list of the tweet it answers, nothing else goes to a list of replies. -/
theorem feeds_publishedCache_replies (v : Text) (a : ℕ) (r : Option Text) (p : Processed)
    (f : List ℕ) (c : Cache) (x : Text) :
    (publishedCache v a r p f c).feeds (.replies x) =
      c.feeds (.replies x) ++ if r = some x then [v] else [] := by
  unfold publishedCache
  rw [Cache.feeds_pushAll, count_marks_eq_zero (by simp) (by simp), List.replicate_zero,
    List.nil_append]
  cases r with
  | none =>
    dsimp only
    rw [feeds_cacheTweet_of_ne (by simp), List.count_eq_zero.2 (by simp)]
    simp
  | some i =>
    dsimp only
    rw [Cache.feeds_append]
    by_cases hi : x = i
    · simp [hi]
    · simp [hi, Ne.symm hi]

/-- An operation that makes no reply caches none. -/
theorem inv_step (h : l.Inv P) {op : Op} (hop : l.NotReply op) : (l.step P op).Inv P := by
  refine ⟨(effect_step h.sound op).2, column_step h op, fun x => ?_⟩
  show (view (NanoTwitter.step P l.world op).redis).feeds (.replies x) = []
  cases hc : call? l.world.db op with
  | none => rw [(step_of_no_call h.sound hc).2]; exact h.cached x
  | some c =>
    rw [(step_of_call h.sound hc).2, feeds_publishedCache_replies, h.cached, hop c hc]
    rfl

/-- After a reply to an existing tweet the cache has more than the database. -/
theorem not_recorded_of_reply (h : l.Inv P) {op : Op} {c : Call}
    (hc : call? l.world.db op = some c) {t : Row Tweet} (ht : t ∈ l.world.db.tweets.rows)
    (hreply : c.replyId = some (decimal t.id)) : ¬ (l.step P op).Recorded := by
  intro hrec
  have hsound : Sound P (l.step P op).world := (effect_step h.sound op).2
  have hrow : t ∈ (l.step P op).world.db.tweets.rows := by
    show t ∈ (NanoTwitter.step P l.world op).db.tweets.rows
    rw [(step_of_call h.sound hc).1, createdTweets]
    split_ifs
    · exact List.mem_append_left _ ht
    · exact ht
  have hread := hrec.1 t hrow
  rw [answers_eq_nil (column_step h op)] at hread
  have hnil := accessReplies_eq_nil hsound.wellTyped hread
  have hview : view (l.step P op).world.redis = _ := (step_of_call h.sound hc).2
  rw [hview, feeds_publishedCache_replies, if_pos hreply] at hnil
  exact absurd hnil (by simp)

/-- **One operation keeps the record exactly when it makes no reply.** -/
theorem recorded_step_iff (h : l.Inv P) {op : Op} (hop : l.Admissible op) :
    (l.step P op).Recorded ↔ l.NotReply op := by
  refine ⟨fun hrec c hc => ?_, fun hno => (inv_step h hno).recorded⟩
  rcases (hop c hc).1 with hnone | ⟨t, ht, hreply⟩
  · exact hnone
  · exact absurd hrec (not_recorded_of_reply h hc ht hreply)

end Step

/-! ### Whole runs -/

/-- **The reply structure is in the database throughout a run of operations, whose calls have nil or
existing reply ids and storable texts, exactly when no call of the run is a reply.** -/
theorem recorded_run_iff (P : Platform) (ops : List Op)
    (hops : Run.EachStep (ReplyLog.step P) Admissible ReplyLog.empty ops) :
    Run.Always (ReplyLog.step P) Recorded ReplyLog.empty ops ↔
      Run.EachStep (ReplyLog.step P) NotReply ReplyLog.empty ops := by
  have hstart : ReplyLog.empty.Inv P :=
    ⟨sound_empty P, fun _ h => absurd h List.not_mem_nil, fun _ => rfl⟩
  exact Run.always_iff_eachStep_of (I := ReplyLog.Inv P) (A := Admissible)
    (fun _ _ h _ _ hno => inv_step h hno) (fun _ _ h _ hop => recorded_step_iff h hop)
    hstart hstart.recorded hops

/-- A user registers, tweets twice and answers nobody. -/
theorem two_tweets_recorded :
    Run.Always (ReplyLog.step .ascii) Recorded ReplyLog.empty
      [.register 0 0 (.of "ann" "ann@x.org"), .makeTweet 1 (some "hi") (some 1) none,
        .makeTweet 2 (some "yo") (some 1) none] :=
  (recorded_run_iff .ascii _ (by decide +kernel)).2 (by decide +kernel)

/-- A user registers, tweets and answers the tweet. -/
def tweetAndReply : List Op :=
  [.register 0 0 (.of "ann" "ann@x.org"), .makeTweet 1 (some "hi") (some 1) none,
    .makeTweet 2 (some "yo") (some 1) (some "1")]

/-- The reply is in the cache, and no row of the table names the tweet it answers. -/
theorem reply_not_recorded :
    let l := Run.run (ReplyLog.step .ascii) ReplyLog.empty tweetAndReply
    Run.EachStep (ReplyLog.step .ascii) Admissible ReplyLog.empty tweetAndReply ∧
      l.madeWith = [(1, none), (2, some ("1" : Text))] ∧
      ((accessReplies "1").value? l.world).map List.length = some 1 ∧
      l.answers 1 = [] ∧ ¬ l.Recorded := by
  intro l
  have hread : ((accessReplies "1").value? l.world).map List.length = some 1 := by decide +kernel
  have hanswers : l.answers 1 = [] := by decide +kernel
  refine ⟨by decide +kernel, by decide +kernel, hread, hanswers, fun hrec => ?_⟩
  obtain ⟨t, ht⟩ : ∃ t, l.world.db.tweets.find 1 = some t :=
    Option.isSome_iff_exists.1 (by decide +kernel)
  obtain ⟨hmem, hid⟩ := Table.mem_of_find ht
  have hrow := EStateM.value?_of_ok (hrec.1 t hmem)
  rw [hid, hanswers] at hrow
  have hnone : ((accessReplies "1").value? l.world).map List.length = some 0 :=
    congrArg (Option.map List.length) hrow
  rw [hnone] at hread
  exact absurd hread (by decide)

end NanoTwitter
