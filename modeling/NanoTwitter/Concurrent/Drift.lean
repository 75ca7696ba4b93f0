import Mathlib.Tactic
import NanoTwitter.Lib.Commit
import NanoTwitter.Concurrent.Counters
import NanoTwitter.Concurrent.Likes

/-!
# How far counters and likes can drift

Saves of stale objects lose updates. Here is what they cannot do, in any interleaving.

* `counters_drift`: no counter becomes negative, and a counter is at most as far above its initial
  value as it was incremented, and at most as far below as it was decremented. An object that was
  loaded is within the bounds of its load, and the bounds only move outward, so that a save keeps
  them.
* `likers_exact`: when all likes have finished, the likers of every tweet are those from before and
  everybody who asked for it, whatever happened to `likes`. The commit point of a request is its
  `sadd`, or the `sismember` that makes it superfluous. The likes themselves have
  not fallen, and have not grown by more than the number of requests.
-/

namespace NanoTwitter

open Ruby (Time)
open Interleave
open scoped List

/-! ### Counters -/

/-- How often the threads have incremented a counter. -/
def ups (k : Counter) (i : ℕ) (c : Config World CounterThread) : ℤ :=
  sumThreads (fun l => (l.log.count (.inc k i) : ℤ)) c.threads

/-- How often the threads have decremented a counter. -/
def downs (k : Counter) (i : ℕ) (c : Config World CounterThread) : ℤ :=
  sumThreads (fun l => (l.log.count (.dec k i) : ℤ)) c.threads

/-- The value `v` of the counter `k` of user `i` can be explained by the changes so far. -/
def WithinChanges (users : Table User) (c : Config World CounterThread) (k : Counter) (i : ℕ)
    (v : ℤ) : Prop :=
  0 ≤ v ∧ count k users i - downs k i c ≤ v ∧ v ≤ count k users i + ups k i c

/-- The counters in the rows and in the loaded objects. -/
structure DriftInv (users : Table User) (c : Config World CounterThread) : Prop where
  counterInv : CounterInv users c
  rows : ∀ k i, (users.find i).isSome → WithinChanges users c k i (count k c.shared.db.users i)
  objects : ∀ l ∈ c.threads, ∀ u ∈ l.pc.objects, ∀ k,
    WithinChanges users c k u.id (k.get u.attrs)

section Counters

variable {P : Platform} {users : Table User} {c : Config World CounterThread} {e : ℕ × Time}

/-- A statement adds its changes to the counts. -/
theorem sumThreads_log_fire {l : CounterThread} (hl : c.threads[e.1]? = some l) (x : Change) :
    sumThreads (fun l => (l.log.count x : ℤ)) (fire (counterThreads P) c e).threads =
      sumThreads (fun l => (l.log.count x : ℤ)) c.threads + l.pc.changes.count x := by
  rw [fire_of_some hl, sumThreads_set _ hl]
  simp only [counterThreads, List.count_append, Nat.cast_add]
  ring

theorem ups_fire {l : CounterThread} (hl : c.threads[e.1]? = some l) (k : Counter) (i : ℕ) :
    ups k i (fire (counterThreads P) c e) = ups k i c + l.pc.changes.count (.inc k i) :=
  sumThreads_log_fire hl _

theorem downs_fire {l : CounterThread} (hl : c.threads[e.1]? = some l) (k : Counter) (i : ℕ) :
    downs k i (fire (counterThreads P) c e) = downs k i c + l.pc.changes.count (.dec k i) :=
  sumThreads_log_fire hl _

/-- The bounds only move outward. -/
theorem WithinChanges.next {l : CounterThread} (hl : c.threads[e.1]? = some l) {k : Counter}
    {i : ℕ} {v : ℤ} (h : WithinChanges users c k i v) :
    WithinChanges users (fire (counterThreads P) c e) k i v := by
  obtain ⟨h0, hlow, hhigh⟩ := h
  unfold WithinChanges
  rw [ups_fire hl, downs_fire hl]
  exact ⟨h0, by omega, by omega⟩

/-- What a save writes is within the bounds that it moves. -/
theorem WithinChanges.save {l : CounterThread} (hl : c.threads[e.1]? = some l) {x : Pending}
    {xs : List Pending} {rest : Option Publication} (hpc : l.pc = .saving (x :: xs) rest)
    (hx : x.Writes)
    (h : WithinChanges users c x.counter x.user.id (x.counter.get x.user.attrs)) :
    WithinChanges users (fire (counterThreads P) c e) x.counter x.user.id
      (x.counter.get x.user.attrs + x.amount) := by
  obtain ⟨k, u, dir⟩ := x
  obtain ⟨h0, hlow, hhigh⟩ : WithinChanges users c k u.id (k.get u.attrs) := h
  unfold WithinChanges
  rw [ups_fire hl, downs_fire hl, hpc]
  cases dir with
  | up =>
    simp only [CounterPc.changes, Pending.change, Pending.amount, List.count_cons_self,
      List.count_nil]
    refine ⟨by omega, ?_, by omega⟩
    rw [List.count_cons_of_ne (by simp), List.count_nil]
    omega
  | down =>
    have hpos : k.get u.attrs > 0 := hx.resolve_left (by simp)
    simp only [CounterPc.changes, Pending.change, if_pos hpos, Pending.amount,
      List.count_cons_self, List.count_nil]
    refine ⟨by omega, by omega, ?_⟩
    rw [List.count_cons_of_ne (by simp), List.count_nil]
    omega

/-- The rows after a statement. -/
theorem DriftInv.rows_fire (h : DriftInv users c) {l : CounterThread}
    (hl : c.threads[e.1]? = some l) (k : Counter) {i : ℕ} (hi : (users.find i).isSome) :
    WithinChanges users (fire (counterThreads P) c e) k i
      (count k (l.pc.step P e.2 c.shared).1.db.users i) := by
  have hold : WithinChanges users (fire (counterThreads P) c e) k i
      (count k c.shared.db.users i) := (h.rows k i hi).next hl
  rcases step_cases P e.2 c.shared l.pc with ⟨x, xs, rest, hpc⟩ | ⟨-, -, husers, -⟩
  · have hobject : WithinChanges users c x.counter x.user.id (x.counter.get x.user.attrs) := by
      refine h.objects l (List.mem_of_getElem? hl) x.user ?_ x.counter
      rw [hpc]
      exact List.mem_cons_self
    have hstep : (l.pc.step P e.2 c.shared).1 = (x.call P e.2).exec c.shared := by rw [hpc]; rfl
    rw [hstep]
    by_cases hx : x.Writes
    · rw [Pending.exec_call_of_writes hx]
      split_ifs
      · rw [count_update (by rw [h.counterInv.same]; exact hi)]
        split_ifs with hki
        · rw [hki.1, hki.2]
          exact hobject.save hl hpc hx
        · exact hold
      · exact hold
    · rw [Pending.exec_call_of_not_writes hx]
      exact hold
  · rw [husers]
    exact hold

theorem driftInv_fire (h : DriftInv users c) (e : ℕ × Time) :
    DriftInv users (fire (counterThreads P) c e) := by
  cases hl : c.threads[e.1]? with
  | none => rw [fire_of_none hl]; exact h
  | some l =>
    refine ⟨counterInv_fire h.counterInv e, fun k i hi => ?_, ?_⟩
    · have hrows := h.rows_fire (P := P) hl k hi
      have hshared : (fire (counterThreads P) c e).shared = (l.pc.step P e.2 c.shared).1 := by
        rw [fire_of_some hl]
        rfl
      rw [hshared]
      exact hrows
    · refine forall_threads_fire
        (P := fun l : CounterThread => ∀ u ∈ l.pc.objects, ∀ k,
          WithinChanges users (fire (counterThreads P) c e) k u.id (k.get u.attrs))
        (fun l' hl' u hu k => (h.objects l' hl' u hu k).next hl) fun l' hl' hold u hu k => ?_
      rcases step_cases P e.2 c.shared l'.pc with ⟨x, xs, rest, hpc⟩ | ⟨-, -, -, hobj⟩
      · refine hold u ?_ k
        rw [hpc]
        simp only [counterThreads, hpc, CounterPc.step] at hu
        exact List.mem_cons_of_mem _ hu
      · rcases hobj u hu with hmem | hnew
        · exact hold u hmem k
        · -- an object that is loaded now has the counters of its row
          have hi : (users.find u.id).isSome := by rw [← h.counterInv.same, hnew]; rfl
          have hrow := (h.rows k u.id hi).next (P := P) (e := e) hl
          rwa [count_of_find hnew] at hrow

/-- **Counters drift no further than they were changed.** Any number of calls of `make_tweet`, of
follows and of unfollows, interleaved in any way, from counters that are not negative: in every
state of the run no counter is negative, and each is at most as far above its initial value as
threads have incremented it and at most as far below as they have decremented it. -/
theorem counters_drift (P : Platform) {w : World} (hw : ∀ k i, 0 ≤ count k w.db.users i)
    (rs : List CounterRequest) (es : List (ℕ × Time)) :
    Run.Always (fire (counterThreads P)) (fun c => ∀ k i, (w.db.users.find i).isSome →
        0 ≤ count k c.shared.db.users i ∧
          count k w.db.users i - downs k i c ≤ count k c.shared.db.users i ∧
          count k c.shared.db.users i ≤ count k w.db.users i + ups k i c)
      (startRequests w rs) es := by
  have hobjects : ∀ l ∈ (startRequests w rs).threads, l.pc.objects = [] ∧ l.log = [] := by
    intro l hl
    obtain ⟨r, -, rfl⟩ := List.mem_map.1 hl
    cases r <;> exact ⟨rfl, rfl⟩
  have hzero : ∀ x : Change, sumThreads (fun l => (l.log.count x : ℤ))
      (startRequests w rs).threads = 0 := fun x =>
    sumThreads_eq_zero fun l hl => by rw [(hobjects l hl).2]; rfl
  have hstart : DriftInv w.db.users (startRequests w rs) := by
    refine ⟨⟨fun _ => rfl, fun l hl u hu => ?_⟩, fun k i _ => ?_, fun l hl u hu => ?_⟩
    · rw [(hobjects l hl).1] at hu
      exact absurd hu List.not_mem_nil
    · refine ⟨hw k i, ?_, ?_⟩
      · rw [downs, hzero, sub_zero]
        exact le_refl _
      · rw [ups, hzero, add_zero]
        exact le_refl _
    · rw [(hobjects l hl).1] at hu
      exact absurd hu List.not_mem_nil
  intro p hp
  exact (Run.always_of_inv (P := DriftInv w.db.users) (fun c e h => driftInv_fire h e) hstart es
    p hp).rows

end Counters

theorem count_nonneg {users : Table User} {k : Counter} (h : ∀ r ∈ users.rows, 0 ≤ k.get r.attrs)
    (i : ℕ) : 0 ≤ count k users i := by
  cases hi : users.find i with
  | none => rw [count, hi]; rfl
  | some r => rw [count_of_find hi]; exact h r (Table.mem_of_find hi).1

/-- The two follows that lose an update stay within the bounds. -/
theorem two_follows_drift :
    (∀ k i, 0 ≤ count k threeUsers.db.users i) ∧
      0 ≤ count .followers twoFollows.shared.db.users 3 ∧
        count .followers threeUsers.db.users 3 - downs .followers 3 twoFollows ≤
          count .followers twoFollows.shared.db.users 3 ∧
        count .followers twoFollows.shared.db.users 3 ≤
          count .followers threeUsers.db.users 3 + ups .followers 3 twoFollows := by
  have hstart : ∀ k i, 0 ≤ count k threeUsers.db.users i := fun k i =>
    count_nonneg (by cases k <;> decide +kernel) i
  exact ⟨hstart, (counters_drift .ascii hstart _ _).last .followers 3 (by decide +kernel)⟩

/-! ### Likes -/

/-- The tweet that a request likes. -/
def likeTarget (w : World) (r : Option ℕ × Option Text) : Option ℕ :=
  match Tweet.find r.2 w with
  | .ok t _ => some t.id
  | .error _ _ => none

/-- The requests for tweet `i`. -/
def likesFor (w : World) (i : ℕ) (rs : List (Option ℕ × Option Text)) :
    List (Option ℕ × Option Text) :=
  rs.filter fun r => likeTarget w r = some i

/-- Who asked for tweet `i`. -/
def askedFor (w : World) (i : ℕ) (rs : List (Option ℕ × Option Text)) : Finset Text :=
  ((likesFor w i rs).map fun r => member r.1).toFinset

/-- Where the thread of the request `r` stands: before its commit with the tweet it has found, or
after it, or at its end because there is no such tweet. -/
inductive LikeAt (w : World) (r : Option ℕ × Option Text) : Bool → LikePc → Prop
  | find : LikeAt w r false (.find r.1 r.2)
  | test {t} (h : likeTarget w r = some t.id) : LikeAt w r false (.test r.1 t)
  | save {t} (h : likeTarget w r = some t.id) : LikeAt w r false (.save r.1 t)
  | add {t} (h : likeTarget w r = some t.id) : LikeAt w r false (.add r.1 t)
  | done : LikeAt w r true .done
  | void (h : likeTarget w r = none) : LikeAt w r false .done

/-- The requests for tweet `i` that have saved, or that need not save any more. -/
def savedFor (w : World) (i : ℕ) (log : List ((Option ℕ × Option Text) × Time))
    (c : Config World LikePc) : ℤ :=
  (likesFor w i (log.map Prod.fst)).length + sumThreads (LikePc.between i) c.threads

/-- The likers are those from before and those in the log; likes, stored or loaded, have grown by at
most the number of saves. -/
structure LikersInv (w : World) (log : List ((Option ℕ × Option Text) × Time))
    (c : Config World LikePc) : Prop where
  likeInv : LikeInv w c
  likers : ∀ i, (view c.shared.redis).likers i =
    (view w.redis).likers i ∪ askedFor w i (log.map Prod.fst)
  rows : ∀ i, (w.db.tweets.find i).isSome →
    likesOf w.db.tweets i ≤ likesOf c.shared.db.tweets i ∧
      likesOf c.shared.db.tweets i ≤ likesOf w.db.tweets i + savedFor w i log c
  objects : ∀ pc ∈ c.threads, ∀ t, pc.object = some t →
    likesOf w.db.tweets t.id ≤ t.attrs.likes ∧
      t.attrs.likes ≤ likesOf w.db.tweets t.id + savedFor w t.id log c

section Likes

variable {w : World} {log : List ((Option ℕ × Option Text) × Time)} {c : Config World LikePc}
  {e : ℕ × Time} {r : Option ℕ × Option Text} {pc : LikePc} {i : ℕ}

/-- A request likes the tweet with the id that its parameter spells. -/
theorem likeTarget_eq_some :
    likeTarget w r = some i ↔
      ∃ s, r.2 = some s ∧ (i : ℤ) = Ruby.toI s ∧ (w.db.tweets.find i).isSome := by
  unfold likeTarget Tweet.find
  cases hs : r.2 with
  | none => simp
  | some s =>
    simp only [Option.bind_some, Option.some.injEq, exists_eq_left']
    cases hfind : w.db.tweets.rows.find? fun t => (t.id : ℤ) = Ruby.toI s with
    | none =>
      refine iff_of_false (by simp) ?_
      rintro ⟨hi, hsome⟩
      obtain ⟨t, ht⟩ := Option.isSome_iff_exists.1 hsome
      obtain ⟨hmem, rfl⟩ := Table.mem_of_find ht
      exact absurd (decide_eq_true hi) (List.find?_eq_none.1 hfind t hmem)
    | some t =>
      have hid : (t.id : ℤ) = Ruby.toI s := by simpa using List.find?_some hfind
      have hmem := List.mem_of_find?_eq_some hfind
      simp only [Option.some.injEq]
      constructor
      · rintro rfl
        exact ⟨hid, by rw [Table.find_of_mem hmem]; rfl⟩
      · rintro ⟨hi, -⟩
        exact Int.ofNat.inj (hid.trans hi.symm)

theorem likeTarget_congr {q : World}
    (h : ∀ i, (q.db.tweets.find i).isSome = (w.db.tweets.find i).isSome) :
    likeTarget q r = likeTarget w r := by
  refine Option.ext fun i => ?_
  rw [likeTarget_eq_some, likeTarget_eq_some, h]

theorem likesFor_append (rs : List (Option ℕ × Option Text)) :
    likesFor w i (rs ++ [r]) = likesFor w i rs ++ if likeTarget w r = some i then [r] else [] := by
  rw [likesFor, List.filter_append]
  by_cases h : likeTarget w r = some i <;> simp [h, likesFor]

theorem askedFor_append (rs : List (Option ℕ × Option Text)) :
    askedFor w i (rs ++ [r]) =
      askedFor w i rs ∪ if likeTarget w r = some i then {member r.1} else ∅ := by
  rw [askedFor, likesFor_append, List.map_append, List.toFinset_append]
  split_ifs <;> rfl

/-- The saves after a command that is no commit. -/
theorem savedFor_stay (hpc : c.threads[e.1]? = some pc) :
    savedFor w i log (fire LikePc.step c e) =
      savedFor w i log c + ((pc.step e.2 c.shared).2.between i - pc.between i) := by
  unfold savedFor
  rw [fire_of_some hpc, sumThreads_set _ hpc]
  omega

/-- The saves after a commit. -/
theorem savedFor_commit (hpc : c.threads[e.1]? = some pc) :
    savedFor w i (log ++ [(r, e.2)]) (fire LikePc.step c e) =
      savedFor w i log c + (if likeTarget w r = some i then 1 else 0) +
        ((pc.step e.2 c.shared).2.between i - pc.between i) := by
  unfold savedFor
  rw [fire_of_some hpc, sumThreads_set _ hpc, List.map_append, List.map_singleton,
    likesFor_append, List.length_append]
  split_ifs <;> simp <;> omega

/-- One command: the likers are as required, saves are not taken back, and `likes` of the rows stay
or are written within the bounds. -/
theorem LikersInv.next (h : LikersInv w log c) (hpc : c.threads[e.1]? = some pc)
    {log' : List ((Option ℕ × Option Text) × Time)}
    (hlikers : ∀ i, (view (pc.step e.2 c.shared).1.redis).likers i =
      (view w.redis).likers i ∪ askedFor w i (log'.map Prod.fst))
    (hsaved : ∀ i, savedFor w i log c ≤ savedFor w i log' (fire LikePc.step c e))
    (hrows : ∀ i, (w.db.tweets.find i).isSome →
      likesOf (pc.step e.2 c.shared).1.db.tweets i = likesOf c.shared.db.tweets i ∨
        likesOf w.db.tweets i ≤ likesOf (pc.step e.2 c.shared).1.db.tweets i ∧
          likesOf (pc.step e.2 c.shared).1.db.tweets i ≤
            likesOf w.db.tweets i + savedFor w i log' (fire LikePc.step c e)) :
    LikersInv w log' (fire LikePc.step c e) := by
  have hshared : (fire LikePc.step c e).shared = (pc.step e.2 c.shared).1 := by
    rw [fire_of_some hpc]
  refine ⟨likeInv_fire h.likeInv e, fun i => by rw [hshared]; exact hlikers i, fun i hi => ?_, ?_⟩
  · rw [hshared]
    rcases hrows i hi with hsame | hwritten
    · rw [hsame]
      exact ⟨(h.rows i hi).1, (h.rows i hi).2.trans (by have := hsaved i; omega)⟩
    · exact hwritten
  · refine forall_threads_fire
      (P := fun pc : LikePc => ∀ t, pc.object = some t →
        likesOf w.db.tweets t.id ≤ t.attrs.likes ∧ t.attrs.likes ≤
          likesOf w.db.tweets t.id + savedFor w t.id log' (fire LikePc.step c e))
      (fun pc' hpc' t ht => ?_) fun pc' hpc' hold t ht => ?_
    · obtain ⟨hlow, hhigh⟩ := h.objects pc' hpc' t ht
      exact ⟨hlow, hhigh.trans (by have := hsaved t.id; omega)⟩
    · rcases (step_keeps e.2 h.likeInv.wellTyped pc').2.2 t ht with hobject | hnew
      · exact hold t hobject
      · -- an object that is loaded now has the likes of its row
        have hi : (w.db.tweets.find t.id).isSome := by rw [← h.likeInv.same, hnew]; rfl
        obtain ⟨hlow, hhigh⟩ := h.rows t.id hi
        rw [likesOf_of_find hnew] at hlow hhigh
        exact ⟨hlow, hhigh.trans (by have := hsaved t.id; omega)⟩

/-- A command that writes nothing and commits nothing. -/
theorem LikersInv.quiet (h : LikersInv w log c) (hpc : c.threads[e.1]? = some pc)
    (hworld : (pc.step e.2 c.shared).1 = c.shared)
    (hbetween : ∀ i, (pc.step e.2 c.shared).2.between i = pc.between i) :
    LikersInv w log (fire LikePc.step c e) := by
  refine h.next hpc (fun i => by rw [hworld]; exact h.likers i) (fun i => ?_)
    fun i _ => .inl (by rw [hworld])
  rw [savedFor_stay hpc, hbetween]
  omega

/-- The save: `likes` of the row is what was loaded plus one, if the row is still valid. -/
theorem LikersInv.save (h : LikersInv w log c) {userId : Option ℕ} {t : Row Tweet}
    (hpc : c.threads[e.1]? = some (.save userId t)) :
    LikersInv w log (fire LikePc.step c e) := by
  have hsaved : ∀ i, savedFor w i log (fire LikePc.step c e) =
      savedFor w i log c + if i = t.id then 1 else 0 := fun i => by
    rw [savedFor_stay hpc]
    simp [LikePc.step, LikePc.between]
  refine h.next hpc (fun i => ?_) (fun i => by rw [hsaved]; split_ifs <;> omega) fun i hi => ?_
  · simp only [LikePc.step, redis_incrementLikes]
    exact h.likers i
  · simp only [LikePc.step, exec_incrementLikes]
    split_ifs
    · rw [World.tweets_setTweets, likesOf_update (by rw [h.likeInv.same]; exact hi)]
      split_ifs with hit
      · obtain ⟨hlow, hhigh⟩ := h.objects _ (List.mem_of_getElem? hpc) t rfl
        rw [hsaved, if_pos hit, hit]
        exact .inr ⟨by omega, by omega⟩
      · exact .inl rfl
    · exact .inl rfl

/-- A commit by `sadd`, or by finding the user among the likers. -/
theorem LikersInv.commit (h : LikersInv w log c) (hpc : c.threads[e.1]? = some pc) {t : Row Tweet}
    (ht : likeTarget w r = some t.id)
    (hview : view (pc.step e.2 c.shared).1.redis = (view c.shared.redis).like t.id (member r.1))
    (hdb : (pc.step e.2 c.shared).1.db = c.shared.db)
    (hbetween : ∀ i, pc.between i ≤ (if i = t.id then 1 else 0) +
      (pc.step e.2 c.shared).2.between i) :
    LikersInv w (log ++ [(r, e.2)]) (fire LikePc.step c e) := by
  refine h.next hpc (fun i => ?_) (fun i => ?_) fun i _ => .inl (by rw [hdb])
  · rw [hview, Cache.likers_like, List.map_append, List.map_singleton, askedFor_append,
      ← Finset.union_assoc, ← h.likers i, ht]
    by_cases hi : i = t.id
    · subst hi
      rw [if_pos rfl, if_pos rfl, Finset.union_comm, Finset.insert_eq]
    · rw [if_neg hi, if_neg fun heq => hi (Option.some.inj heq).symm, Finset.union_empty]
  · have hb := hbetween i
    rw [savedFor_commit hpc, ht]
    by_cases hi : i = t.id
    · subst hi
      rw [if_pos rfl] at hb ⊢
      omega
    · rw [if_neg hi] at hb
      rw [if_neg fun heq => hi (Option.some.inj heq).symm]
      omega

/-- The thread of a request moves on, and commits at most once. -/
theorem likers_fire {b : Bool} (h : LikersInv w log c) (hpc : c.threads[e.1]? = some pc)
    (hat : LikeAt w r b pc) :
    (LikeAt w r b (pc.step e.2 c.shared).2 ∧ LikersInv w log (fire LikePc.step c e)) ∨
      (b = false ∧ LikeAt w r true (pc.step e.2 c.shared).2 ∧
        LikersInv w (log ++ [(r, e.2)]) (fire LikePc.step c e)) := by
  have hw := h.likeInv.wellTyped
  cases hat with
  | find =>
    have htarget : likeTarget c.shared r = likeTarget w r := likeTarget_congr h.likeInv.same
    unfold likeTarget at htarget
    left
    rcases tweetFind_cases r.2 c.shared with ⟨t, hfind, -⟩ | hfind
    · rw [hfind] at htarget
      have hstep : (LikePc.find r.1 r.2).step e.2 c.shared = (c.shared, .test r.1 t) := by
        simp only [LikePc.step, hfind]
      rw [hstep]
      exact ⟨.test htarget.symm, h.quiet hpc (by rw [hstep]) fun i => by rw [hstep]; rfl⟩
    · rw [hfind] at htarget
      have hstep : (LikePc.find r.1 r.2).step e.2 c.shared = (c.shared, .done) := by
        simp only [LikePc.step, hfind]
      rw [hstep]
      exact ⟨.void htarget.symm, h.quiet hpc (by rw [hstep]) fun i => by rw [hstep]; rfl⟩
  | @test t ht =>
    by_cases hmem : member r.1 ∈ (view c.shared.redis).likers t.id
    · have hstep : (LikePc.test r.1 t).step e.2 c.shared = (c.shared, .done) := by
        simp only [LikePc.step, likedBefore_eq hw, hmem, decide_true, if_true]
      refine .inr ⟨rfl, by rw [hstep]; exact .done, h.commit hpc ht ?_ (by rw [hstep]) fun i => ?_⟩
      · rw [hstep]
        refine Cache.ext rfl (funext fun j => ?_)
        rw [Cache.likers_like]
        split_ifs with hj
        · rw [hj, Finset.insert_eq_of_mem hmem]
        · rfl
      · rw [hstep]
        simp only [LikePc.between]
        split_ifs <;> omega
    · have hstep : (LikePc.test r.1 t).step e.2 c.shared = (c.shared, .save r.1 t) := by
        simp only [LikePc.step, likedBefore_eq hw, hmem, decide_false, Bool.false_eq_true, if_false]
      refine .inl ⟨by rw [hstep]; exact .save ht, h.quiet hpc (by rw [hstep]) fun i => ?_⟩
      rw [hstep]
      rfl
  | save ht => exact .inl ⟨.add ht, h.save hpc⟩
  | @add t ht =>
    obtain ⟨q, hrun, -, hview⟩ := refines_cacheLikes r.1 t.id c.shared hw
    have hstep : (LikePc.add r.1 t).step e.2 c.shared = (c.shared.setRedis q, .done) := by
      simp only [LikePc.step, EStateM.exec_of_ok hrun]
    refine .inr ⟨rfl, by rw [hstep]; exact .done, h.commit hpc ht ?_ (by rw [hstep]; rfl) ?_⟩
    · rw [hstep, World.redis_setRedis, hview]
    · intro i
      rw [hstep]
      simp [LikePc.between]
  | done => exact .inl ⟨.done, h.quiet hpc rfl fun _ => rfl⟩
  | void ht => exact .inl ⟨.void ht, h.quiet hpc rfl fun _ => rfl⟩

end Likes

/-- **Likers are exact under any interleaving.** Any number of requests `POST /tweet/like`,
interleaved in any way: when all have finished, the likers of every tweet are those from before and
everybody who asked for it; its `likes` has not fallen, and has not grown by more than the number of
requests for it. -/
theorem likers_exact {w : World} (hw : WellTyped w.redis) (rs : List (Option ℕ × Option Text))
    (es : List (ℕ × Time))
    (hdone : ∀ pc ∈ (Run.run (fire LikePc.step) (startLikes w rs) es).threads, pc = .done) (i : ℕ)
    (hi : (w.db.tweets.find i).isSome) :
    (view (Run.run (fire LikePc.step) (startLikes w rs) es).shared.redis).likers i =
        (view w.redis).likers i ∪ askedFor w i rs ∧
      likesOf w.db.tweets i ≤
        likesOf (Run.run (fire LikePc.step) (startLikes w rs) es).shared.db.tweets i ∧
      likesOf (Run.run (fire LikePc.step) (startLikes w rs) es).shared.db.tweets i ≤
        likesOf w.db.tweets i + (likesFor w i rs).length := by
  have hnew : ∀ pc ∈ (startLikes w rs).threads, pc.object = none ∧ ∀ i, pc.between i = 0 := by
    intro pc hpc
    obtain ⟨r, -, rfl⟩ := List.mem_map.1 hpc
    exact ⟨rfl, fun _ => rfl⟩
  have hstart : LikersInv w [] (startLikes w rs) := by
    refine ⟨⟨fun _ => rfl, fun pc hpc t ht => ?_, hw⟩, fun i => ?_, fun i _ => ?_,
      fun pc hpc t ht => ?_⟩
    · rw [(hnew pc hpc).1] at ht
      exact absurd ht (by simp)
    · exact (Finset.union_empty _).symm
    · rw [savedFor, sumThreads_eq_zero fun pc hpc => (hnew pc hpc).2 i]
      exact ⟨le_refl _, by simp [likesFor, startLikes]⟩
    · rw [(hnew pc hpc).1] at ht
      exact absurd ht (by simp)
  have hlogged : Logged (LikeAt w) rs ([] : List (Commit (Option ℕ × Option Text) Time))
      (startLikes w rs).threads := logged_start fun r => .find
  obtain ⟨log, hlog, hinv⟩ := exists_log (I := LikersInv w)
    (fun _ _ _ _ _ _ h hpc hat => likers_fire h hpc hat) hlogged hstart es
  obtain ⟨rest, hperm, hrest⟩ := hlog.perm
  -- what has not committed has found no tweet
  have hvoid : likesFor w i rest = [] := by
    refine List.filter_eq_nil_iff.2 fun r hr => ?_
    obtain ⟨pc, hpc, hat⟩ := hrest r hr
    have hend := hdone pc hpc
    cases hat with
    | void h => simp [h]
    | find | test | save | add => exact absurd hend (by simp)
  have hfor : likesFor w i (log.map Commit.request) ~ likesFor w i rs := by
    have hfilter := hperm.filter fun r => likeTarget w r = some i
    rw [List.filter_append, show List.filter _ rest = [] from hvoid, List.append_nil] at hfilter
    exact hfilter
  have hrequests : (log.map Commit.effect).map Prod.fst = log.map Commit.request := by
    rw [List.map_map]
    rfl
  refine ⟨?_, (hinv.rows i hi).1, ?_⟩
  · rw [hinv.likers i, hrequests]
    refine congrArg _ (List.toFinset_eq_of_perm _ _ (hfor.map _))
  · have hbound := (hinv.rows i hi).2
    rw [savedFor, hrequests, hfor.length_eq,
      sumThreads_eq_zero fun pc hpc => by rw [hdone pc hpc]; rfl, add_zero] at hbound
    exact hbound

/-- The user who clicked twice is a liker once. -/
theorem two_clicks_likers :
    WellTyped oneTweet.redis ∧ (∀ pc ∈ twoClicks.threads, pc = .done) ∧
      (oneTweet.db.tweets.find 1).isSome ∧
      (view twoClicks.shared.redis).likers 1 = (view oneTweet.redis).likers 1 ∪
        askedFor oneTweet 1 [(some 1, some "1"), (some 1, some "1")] ∧
      likesOf oneTweet.db.tweets 1 ≤ likesOf twoClicks.shared.db.tweets 1 ∧
      likesOf twoClicks.shared.db.tweets 1 ≤ likesOf oneTweet.db.tweets 1 +
        (likesFor oneTweet 1 [(some 1, some "1"), (some 1, some "1")]).length := by
  have hw : WellTyped oneTweet.redis := (always_sound (sound_empty .ascii) _).last.wellTyped
  have hdone : ∀ pc ∈ twoClicks.threads, pc = .done := by decide +kernel
  have hsome : (oneTweet.db.tweets.find 1).isSome := by decide +kernel
  exact ⟨hw, hdone, hsome, likers_exact hw _ _ hdone 1 hsome⟩

end NanoTwitter
