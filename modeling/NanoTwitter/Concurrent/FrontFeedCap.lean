import Mathlib.Tactic
import NanoTwitter.Lib.Interleave
import NanoTwitter.Model.Cache

/-!
# The cap of the front page under concurrent calls

`cache_tweet` as a thread: a control point for each Redis command and for the query of the
followers. A call that runs alone does what the function does (`solo_cacheTweet`).

The length test, the `rpop` and the `lpush` are separate commands. What a call has decided after its
test is a reservation of one place on the front page, and `reserved` is the number of places taken
or reserved. It never goes down (`reserved_fire`): it goes up when a test does not see exactly fifty
entries, and when an `rpop` finds nothing to remove. So the front page stays within fifty entries
when this happens only below fifty (`ReservesBelowCap`), and only then if all calls finish
(`front_feed_cap_iff`).
-/

namespace NanoTwitter

open Interleave

/-- The control points of `cache_tweet`. The two branches after the length test have a push of
their own. -/
inductive CachePc
  | test
  | pop
  | pushPopped
  | push
  | pfeed
  | follows
  | fan (rest : List ℕ)
  | done
  deriving DecidableEq

/-- A call `cache_tweet(tweet, user_id)` and where it stands. -/
structure CacheCall where
  tweet : Entry
  userId : ℕ
  pc : CachePc

namespace CacheCall

/-- Send a command; an error ends the thread. -/
def send (c : Store Text Text → Option (Store Text Text)) (next : CachePc) (w : World) :
    World × CachePc :=
  match c w.redis with
  | some r => (w.setRedis r, next)
  | none => (w, .done)

/-- The command at a control point. -/
def pcStep (tweet : Entry) (userId : ℕ) (pc : CachePc) (w : World) : World × CachePc :=
  match pc with
  | .test =>
      match w.redis.lrange Slot.ffeed.key with
      -- equality: above fifty the code pushes without removing anything
      | some l => (w, if l.length = 50 then .pop else .push)
      | none => (w, .done)
  | .pop => send (fun r => r.rpop Slot.ffeed.key) .pushPopped w
  | .pushPopped => send (fun r => r.lpush Slot.ffeed.key tweet.toJson) .pfeed w
  | .push => send (fun r => r.lpush Slot.ffeed.key tweet.toJson) .pfeed w
  | .pfeed => send (fun r => r.lpush (Slot.pfeed userId).key tweet.toJson) .follows w
  -- the followers are read once; the pushes to their walls follow one by one
  | .follows => (w, .fan (Follow.followersOf w.db userId))
  | .fan [] => (w, .done)
  | .fan (f :: fs) => send (fun r => r.lpush (Slot.hfeed f).key tweet.toJson) (.fan fs) w
  | .done => (w, .done)

end CacheCall

/-- The next command of a call. -/
def cacheTweets (l : CacheCall) (_ : Unit) (w : World) : World × CacheCall :=
  ((CacheCall.pcStep l.tweet l.userId l.pc w).1,
    { l with pc := (CacheCall.pcStep l.tweet l.userId l.pc w).2 })

/-- The calls before their first command. -/
def startCalls (w : World) (calls : List (Entry × ℕ)) : Config World CacheCall :=
  ⟨w, calls.map fun c => ⟨c.1, c.2, .test⟩⟩

/-! ### A call that runs alone -/

/-- A thread at a Redis command, continued as the program is; where the command fails, the thread
stops and the program raises. -/
theorem ends_command {A ι : Type} {m : A → ι → World → World × A} {i : ι} {stop : A → Prop}
    {l next : A} (dead : A) {w : World} {c : Store Text Text → Option (Store Text Text)}
    {q : Prog Unit} (hdead : stop dead)
    (hsome : ∀ r, c w.redis = some r → m l i w = (w.setRedis r, next))
    (hnone : c w.redis = none → m l i w = (w, dead))
    (h : ∀ r, Ends m i stop next (w.setRedis r) (q.exec (w.setRedis r))) :
    Ends m i stop l w ((command c >>= fun _ => q).exec w) := by
  refine ends_of_step ?_
  cases hc : c w.redis with
  | some r =>
    rw [hsome r hc, EStateM.exec_bind_of_ok (command_of_some hc)]
    exact h r
  | none =>
    have hcmd : command c w = .error .commandError w := by unfold command; rw [hc]
    rw [hnone hc, EStateM.exec_of_error (EStateM.bind_of_error hcmd)]
    exact ⟨0, dead, rfl, hdead⟩

section Alone

variable {tweet : Entry} {userId : ℕ} {w w' : World}

/-- Run alone from the control point `pc`, the call ends and leaves `w'`. -/
def Finishes (tweet : Entry) (userId : ℕ) (pc : CachePc) (w w' : World) : Prop :=
  Ends cacheTweets () (fun l => l.pc = .done) ⟨tweet, userId, pc⟩ w w'

theorem finishes_done (w : World) : Finishes tweet userId .done w w := ⟨0, _, rfl, rfl⟩

theorem finishes_step {pc : CachePc}
    (h : Finishes tweet userId (CacheCall.pcStep tweet userId pc w).2
      (CacheCall.pcStep tweet userId pc w).1 w') : Finishes tweet userId pc w w' :=
  ends_of_step h

/-- A thread at a command, continued as the program is. -/
theorem finishes_send {pc next : CachePc} {c : Store Text Text → Option (Store Text Text)}
    {q : Prog Unit} (hpc : CacheCall.pcStep tweet userId pc w = CacheCall.send c next w)
    (h : ∀ r, Finishes tweet userId next (w.setRedis r) (q.exec (w.setRedis r))) :
    Finishes tweet userId pc w ((command c >>= fun _ => q).exec w) := by
  refine ends_command ⟨tweet, userId, .done⟩ rfl (fun r hr => ?_) (fun hnone => ?_) h
  · simp only [cacheTweets, hpc, CacheCall.send, hr]
  · simp only [cacheTweets, hpc, CacheCall.send, hnone]

theorem finishes_fan (fs : List ℕ) (w : World) : Finishes tweet userId (.fan fs) w
    ((fs.forM fun f => lpush (Slot.hfeed f).key tweet.toJson).exec w) := by
  induction fs generalizing w with
  | nil => exact finishes_step (finishes_done w)
  | cons f fs ih => exact finishes_send rfl fun r => ih (w.setRedis r)

/-- The part of `cache_tweet` after the front page. -/
theorem finishes_pfeed (w : World) : Finishes tweet userId .pfeed w
    (EStateM.exec (do
      lpush (Slot.pfeed userId).key tweet.toJson
      let followers := Follow.followersOf (← get).db userId
      followers.forM fun f => lpush (Slot.hfeed f).key tweet.toJson) w) :=
  finishes_send rfl fun r => finishes_step (finishes_fan _ (w.setRedis r))

/-- **A call that runs alone does what `cache_tweet` does.** -/
theorem solo_cacheTweet (tweet : Entry) (userId : ℕ) (w : World) :
    Finishes tweet userId .test w ((cacheTweet tweet userId).exec w) := by
  refine finishes_step ?_
  unfold cacheTweet cacheFfeed
  rw [bind_assoc]
  cases hl : w.redis.lrange Slot.ffeed.key with
  | none =>
    have hread : lrange Slot.ffeed.key w = .error .commandError w := by
      simp only [lrange, query, hl]
    rw [EStateM.exec_of_error (EStateM.bind_of_error hread)]
    simp only [CacheCall.pcStep, hl]
    exact finishes_done w
  | some l =>
    have hread : lrange Slot.ffeed.key w = .ok l w := query_of_some hl
    rw [EStateM.exec_bind_of_ok hread]
    simp only [CacheCall.pcStep, hl]
    split_ifs with h50
    · rw [bind_assoc]
      exact finishes_send rfl fun r => finishes_send rfl fun r' => finishes_pfeed _
    · exact finishes_send rfl fun r => finishes_pfeed _

end Alone

/-! ### Places taken and reserved -/

/-- The number of entries on the front page. -/
def frontLength (w : World) : ℕ := ((view w.redis).feeds .ffeed).length

/-- A call that has passed its test (and its `rpop`, if any) and not pushed yet. -/
def CachePc.pending : CachePc → ℤ
  | .push | .pushPopped => 1
  | _ => 0

/-- The entries of the front page and the pushes that are under way. -/
def reserved (c : Config World CacheCall) : ℤ :=
  frontLength c.shared + sumThreads (fun l : CacheCall => l.pc.pending) c.threads

/-- The commands that reserve one more place: a test that does not read fifty, an `rpop` on an empty
list. -/
def CachePc.Reserves (pc : CachePc) (w : World) : Prop :=
  pc = .test ∧ frontLength w ≠ 50 ∨ pc = .pop ∧ frontLength w = 0

/-- A place is reserved only while there are fewer than fifty taken or reserved. -/
def ReservesBelowCap (c : Config World CacheCall) (e : ℕ × Unit) : Prop :=
  ∀ l ∈ c.threads[e.1]?, l.pc.Reserves c.shared → reserved c < 50

instance (pc : CachePc) (w : World) : Decidable (pc.Reserves w) :=
  inferInstanceAs (Decidable (_ ∨ _))

instance (c : Config World CacheCall) (e : ℕ × Unit) : Decidable (ReservesBelowCap c e) :=
  inferInstanceAs (Decidable (∀ l ∈ c.threads[e.1]?, l.pc.Reserves c.shared → reserved c < 50))

theorem send_eq {c : Store Text Text → Option (Store Text Text)} {f : Db → Cache → Cache}
    (h : Refines (command c) f) {w : World} (hw : WellTyped w.redis) (next : CachePc) :
    ∃ r, CacheCall.send c next w = (w.setRedis r, next) ∧ WellTyped r ∧
      view r = f w.db (view w.redis) := by
  obtain ⟨r, hr, ht, hv⟩ := h.of_command hw
  exact ⟨r, by unfold CacheCall.send; rw [hr], ht, hv⟩

/-- A push adds an entry to the front page when it is one to the front page. -/
theorem pcStep_push (tweet : Entry) (userId : ℕ) (pc next : CachePc) (s : Slot) {w : World}
    (hs : s.isFeed = true) (hw : WellTyped w.redis)
    (hpc : CacheCall.pcStep tweet userId pc w =
      CacheCall.send (fun r => r.lpush s.key tweet.toJson) next w) :
    WellTyped (CacheCall.pcStep tweet userId pc w).1.redis ∧
      frontLength (CacheCall.pcStep tweet userId pc w).1 =
        frontLength w + (if s = .ffeed then 1 else 0) ∧
      (CacheCall.pcStep tweet userId pc w).2 = next := by
  obtain ⟨r, hstep, ht, hv⟩ := send_eq (refines_lpush hs tweet.toJson) hw next
  rw [hpc, hstep]
  refine ⟨ht, ?_, rfl⟩
  rw [frontLength, World.redis_setRedis, hv, Cache.feeds_push]
  by_cases hfront : s = .ffeed
  · subst hfront
    rw [if_pos rfl, if_pos rfl, List.length_cons]
    rfl
  · rw [if_neg (Ne.symm hfront), if_neg hfront, add_zero]
    rfl

theorem frontLength_pop {w : World} {r : Store Text Text}
    (hv : view r = (view w.redis).dropOldest .ffeed) :
    frontLength (w.setRedis r) = frontLength w - 1 := by
  rw [frontLength, World.redis_setRedis, hv, Cache.feeds_dropOldest, if_pos rfl,
    List.length_dropLast]
  rfl

/-- What a command does to the places taken and reserved. -/
theorem pcStep_reserved (tweet : Entry) (userId : ℕ) (pc : CachePc) {w : World}
    (hw : WellTyped w.redis) :
    WellTyped (CacheCall.pcStep tweet userId pc w).1.redis ∧
      frontLength (CacheCall.pcStep tweet userId pc w).1 +
          (CacheCall.pcStep tweet userId pc w).2.pending =
        frontLength w + pc.pending + if pc.Reserves w then 1 else 0 := by
  have hf : Slot.ffeed.isFeed = true := rfl
  cases pc with
  | test =>
    have hl : w.redis.lrange Slot.ffeed.key = some ((view w.redis).feeds .ffeed) :=
      list?_eq_view hw hf
    have hstep : CacheCall.pcStep tweet userId .test w =
        (w, if frontLength w = 50 then .pop else .push) := by
      simp only [CacheCall.pcStep, hl]; rfl
    rw [hstep]
    refine ⟨hw, ?_⟩
    by_cases h50 : frontLength w = 50 <;> simp [h50, CachePc.Reserves, CachePc.pending]
  | pop =>
    obtain ⟨r, hstep, ht, hv⟩ := send_eq (refines_rpop hf) hw .pushPopped
    have hpop := frontLength_pop hv
    rw [show CacheCall.pcStep tweet userId .pop w = _ from hstep]
    refine ⟨ht, ?_⟩
    rw [hpop]
    by_cases h0 : frontLength w = 0
    · simp [h0, CachePc.Reserves, CachePc.pending]
    · simp only [CachePc.Reserves, CachePc.pending, h0, reduceCtorEq, false_and, and_false,
        or_self, if_false]
      omega
  | pushPopped =>
    obtain ⟨ht, hlen, hnext⟩ := pcStep_push tweet userId .pushPopped _ .ffeed rfl hw rfl
    rw [hlen, hnext]
    exact ⟨ht, by simp [CachePc.Reserves, CachePc.pending]⟩
  | push =>
    obtain ⟨ht, hlen, hnext⟩ := pcStep_push tweet userId .push _ .ffeed rfl hw rfl
    rw [hlen, hnext]
    exact ⟨ht, by simp [CachePc.Reserves, CachePc.pending]⟩
  | pfeed =>
    obtain ⟨ht, hlen, hnext⟩ := pcStep_push tweet userId .pfeed _ (.pfeed userId) rfl hw rfl
    rw [hlen, hnext]
    exact ⟨ht, by simp [CachePc.Reserves, CachePc.pending]⟩
  | follows => exact ⟨hw, by simp [CacheCall.pcStep, CachePc.Reserves, CachePc.pending]⟩
  | fan rest =>
    cases rest with
    | nil => exact ⟨hw, by simp [CacheCall.pcStep, CachePc.Reserves, CachePc.pending]⟩
    | cons f fs =>
      obtain ⟨ht, hlen, hnext⟩ :=
        pcStep_push tweet userId (.fan (f :: fs)) _ (.hfeed f) rfl hw rfl
      rw [hlen, hnext]
      exact ⟨ht, by simp [CachePc.Reserves, CachePc.pending]⟩
  | done => exact ⟨hw, by simp [CacheCall.pcStep, CachePc.Reserves, CachePc.pending]⟩

/-! ### Interleavings -/

/-- **A command reserves a place or leaves their number alone.** -/
theorem reserved_fire {c : Config World CacheCall} (hc : WellTyped c.shared.redis) (e : ℕ × Unit) :
    WellTyped (fire cacheTweets c e).shared.redis ∧
      ((∃ l, c.threads[e.1]? = some l ∧ l.pc.Reserves c.shared) ∧
          reserved (fire cacheTweets c e) = reserved c + 1 ∨
        (¬ ∃ l, c.threads[e.1]? = some l ∧ l.pc.Reserves c.shared) ∧
          reserved (fire cacheTweets c e) = reserved c) := by
  cases hl : c.threads[e.1]? with
  | none =>
    rw [fire_of_none hl]
    exact ⟨hc, .inr ⟨by simp, rfl⟩⟩
  | some l =>
    obtain ⟨ht, hstep⟩ := pcStep_reserved l.tweet l.userId l.pc hc
    rw [fire_of_some hl]
    refine ⟨ht, ?_⟩
    have hsum := sumThreads_set (fun l : CacheCall => l.pc.pending) hl
      (cacheTweets l e.2 c.shared).2
    have hreserved : reserved ⟨(cacheTweets l e.2 c.shared).1,
        c.threads.set e.1 (cacheTweets l e.2 c.shared).2⟩ =
          reserved c + if l.pc.Reserves c.shared then 1 else 0 := by
      unfold reserved
      dsimp only at hsum ⊢
      rw [hsum]
      simp only [cacheTweets] at hstep ⊢
      omega
    rw [hreserved]
    by_cases hr : l.pc.Reserves c.shared
    · exact .inl ⟨⟨l, rfl, hr⟩, by rw [if_pos hr]⟩
    · refine .inr ⟨?_, by rw [if_neg hr, add_zero]⟩
      rintro ⟨l', hl', hr'⟩
      obtain rfl := Option.some.inj hl'
      exact hr hr'

theorem always_wellTyped {c : Config World CacheCall} (hc : WellTyped c.shared.redis)
    (es : List (ℕ × Unit)) :
    Run.Always (fire cacheTweets) (fun c => WellTyped c.shared.redis) c es :=
  Run.always_of_inv (P := fun c : Config World CacheCall => WellTyped c.shared.redis)
    (fun _ e h => (reserved_fire h e).1) hc es

/-- The places taken and reserved stay within the cap as long as none is reserved at the cap. -/
theorem reserved_run_iff {c : Config World CacheCall} (hc : WellTyped c.shared.redis)
    (h0 : reserved c ≤ 50) (es : List (ℕ × Unit)) :
    Run.Always (fire cacheTweets) (fun c => reserved c ≤ 50) c es ↔
      Run.EachStep (fire cacheTweets) ReservesBelowCap c es := by
  refine Run.always_iff_eachStep
    (fun (c : Config World CacheCall) e (hc : WellTyped c.shared.redis) _ _ =>
      (reserved_fire hc e).1) ?_ hc h0 es
  intro c e hc h0
  rcases (reserved_fire hc e).2 with ⟨⟨l, hl, hr⟩, hnext⟩ | ⟨hno, hnext⟩
  · rw [hnext]
    constructor
    · intro h _ _ _; omega
    · intro h
      have := h l hl hr
      omega
  · rw [hnext]
    exact iff_of_true h0 fun l hl hr => absurd ⟨l, hl, hr⟩ hno

theorem pending_nonneg (pc : CachePc) : 0 ≤ pc.pending := by
  cases pc <;> simp [CachePc.pending]

theorem frontLength_le_reserved (c : Config World CacheCall) :
    frontLength c.shared ≤ reserved c := by
  have := sumThreads_nonneg (f := fun l : CacheCall => l.pc.pending) (L := c.threads)
    fun l _ => pending_nonneg l.pc
  unfold reserved
  omega

/-- Nothing is reserved any more when all calls have finished. -/
theorem frontLength_eq_reserved {c : Config World CacheCall}
    (h : ∀ l ∈ c.threads, l.pc = .done) : (frontLength c.shared : ℤ) = reserved c := by
  rw [reserved, sumThreads_eq_zero fun l hl => by rw [h l hl]; rfl, add_zero]

/-- The places taken and reserved never go down. -/
theorem reserved_le_run {c : Config World CacheCall} (hc : WellTyped c.shared.redis)
    (es : List (ℕ × Unit)) : reserved c ≤ reserved (Run.run (fire cacheTweets) c es) := by
  induction es generalizing c with
  | nil => exact le_refl _
  | cons e es ih =>
    obtain ⟨ht, hstep⟩ := reserved_fire hc e
    have hnext : reserved c ≤ reserved (fire cacheTweets c e) := by
      rcases hstep with ⟨-, h⟩ | ⟨-, h⟩ <;> omega
    exact hnext.trans (ih ht)

theorem reserved_startCalls {w : World} (h0 : (view w.redis).feeds .ffeed = [])
    (calls : List (Entry × ℕ)) : reserved (startCalls w calls) = 0 := by
  have hzero : ∀ l ∈ (startCalls w calls).threads, l.pc.pending = (0 : ℤ) := by
    intro l hl
    obtain ⟨c, -, rfl⟩ := List.mem_map.1 hl
    rfl
  rw [reserved, sumThreads_eq_zero hzero]
  simp [startCalls, frontLength, h0]

/-- **The cap of the front page under any interleaving.** From an empty front page, the length
stays within fifty in every state of a run in which a place is reserved only below fifty; and a run
in which all calls finish keeps the length within fifty only if it is of this kind. -/
theorem front_feed_cap_iff {w : World} (hw : WellTyped w.redis)
    (h0 : (view w.redis).feeds .ffeed = []) (calls : List (Entry × ℕ)) (es : List (ℕ × Unit)) :
    (Run.EachStep (fire cacheTweets) ReservesBelowCap (startCalls w calls) es →
      Run.Always (fire cacheTweets) (fun c => frontLength c.shared ≤ 50) (startCalls w calls) es) ∧
    ((∀ l ∈ (Run.run (fire cacheTweets) (startCalls w calls) es).threads, l.pc = .done) →
      (Run.Always (fire cacheTweets) (fun c => frontLength c.shared ≤ 50) (startCalls w calls) es ↔
        Run.EachStep (fire cacheTweets) ReservesBelowCap (startCalls w calls) es)) := by
  have hcap : Run.EachStep (fire cacheTweets) ReservesBelowCap (startCalls w calls) es →
      Run.Always (fire cacheTweets) (fun c => frontLength c.shared ≤ 50)
        (startCalls w calls) es := by
    intro h p hp
    have hreserved := (reserved_run_iff hw (by rw [reserved_startCalls h0]; decide) es).2 h p hp
    have hle := frontLength_le_reserved (Run.run (fire cacheTweets) (startCalls w calls) p)
    exact_mod_cast hle.trans hreserved
  refine ⟨hcap, fun hdone => ⟨fun hlen => ?_, hcap⟩⟩
  -- what is reserved at any time is taken in the end
  have hend := frontLength_eq_reserved hdone
  have hlast := hlen.last
  refine (reserved_run_iff hw (by rw [reserved_startCalls h0]; decide) es).1 fun p hp => ?_
  obtain ⟨q, rfl⟩ := hp
  have hmono := reserved_le_run (always_wellTyped (c := startCalls w calls) hw p).last q
  rw [← Run.run_append] at hmono
  omega

/-- A tweet for the front page. -/
def someTweet : Entry := ⟨"ann", "hi", some 0, some 1⟩

/-- Two calls that overlap on a short front page. -/
theorem front_feed_cap_two :
    WellTyped World.empty.redis ∧ (view World.empty.redis).feeds .ffeed = [] ∧
      Run.Always (fire cacheTweets) (fun c => frontLength c.shared ≤ 50)
        (startCalls World.empty [(someTweet, 1), (someTweet, 2)])
        [(0, ()), (1, ()), (0, ()), (1, ())] := by
  exact ⟨wellTyped_empty, rfl,
    (front_feed_cap_iff wellTyped_empty rfl _ _).1 (by decide +kernel)⟩

/-- Forty-nine calls push one after the other, then two calls test before either of them pushes. -/
def lateOverlap : List (ℕ × Unit) :=
  (List.range 49).flatMap (fun i => [(i, ()), (i, ())]) ++ [(49, ()), (50, ()), (49, ()), (50, ())]

/-- Both read a length of forty-nine, and the front page grows to fifty-one. -/
theorem late_overlap_exceeds :
    frontLength (Run.run (fire cacheTweets)
      (startCalls World.empty (List.replicate 51 (someTweet, 1))) lateOverlap).shared = 51 := by
  decide +kernel

end NanoTwitter
