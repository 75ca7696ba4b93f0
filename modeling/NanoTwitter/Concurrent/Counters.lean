import Mathlib.Tactic
import NanoTwitter.Lib.Interleave
import NanoTwitter.Sequential.Operations

/-!
# Counters under concurrent requests

`make_tweet`, `POST /user/follow` and `POST /user/unfollow` as threads: a control point for each
statement that reads or writes the database. The object that a `User.find` returns stays in the
thread until its counter is saved, and the save writes what was computed from the object. A thread
notes the changes it has made in its `log`. Run alone, the threads do what the sequential functions
do (`solo_makeTweet`, `solo_follow`, `solo_unfollow`).

`Accounted`: every counter is its initial value plus the changes in the logs. An interleaving keeps
this in all its states exactly when every save finds its row valid and the counter as it was loaded
(`accounted_run_iff`); `lost_update` is an interleaving of two follows that does not.
-/

namespace NanoTwitter

open Ruby (Time)
open Interleave

/-- Up for `increment_…`, down for `decrement_…`. -/
inductive Dir
  | up
  | down
  deriving DecidableEq

/-- A counter method that is still to be called on a loaded object. -/
structure Pending where
  counter : Counter
  user : Row User
  dir : Dir
  deriving DecidableEq

/-- What a thread has done to a counter: `kept` is a decrement that met a counter at zero. -/
inductive Change
  | inc (k : Counter) (i : ℕ)
  | dec (k : Counter) (i : ℕ)
  | kept (k : Counter) (i : ℕ)
  deriving DecidableEq

namespace Pending

/-- The method call. -/
def call (P : Platform) (now : Time) (x : Pending) : Prog Unit :=
  match x.dir with
  | .up => x.counter.increment P now x.user
  | .down => x.counter.decrement P now x.user

/-- What the call amounts to. -/
def change (x : Pending) : Change :=
  match x.dir with
  | .up => .inc x.counter x.user.id
  | .down =>
      if x.counter.get x.user.attrs > 0 then .dec x.counter x.user.id
      else .kept x.counter x.user.id

end Pending

/-- The statement of a follow or an unfollow that changes the rows. -/
def changeRow : Dir → Option ℕ → ℕ → Prog Unit
  | .up => Follow.create
  | .down => Follow.destroyAll

/-- What `make_tweet` has at hand when it comes to the cache. -/
structure Publication where
  user : Row User
  replyId : Option Text
  processed : Processed
  tweet : Entry
  deriving DecidableEq

/-- The cache functions at the end of the thread of `make_tweet`. -/
def Publication.send (x : Publication) : Prog Unit := do
  match x.replyId with
    | none => cacheTweet x.tweet x.user.id
    | some replyId => cacheReply x.tweet replyId
  publishMarks x.processed x.tweet x.user.id

theorem sameDb_send (x : Publication) : EStateM.Keeps SameDb x.send := by
  cases x with
  | mk user replyId p tweet =>
    cases replyId with
    | none =>
      exact (sameDb_cacheTweet tweet user.id).bind fun _ => sameDb_publishMarks p tweet user.id
    | some i =>
      exact (sameDb_cacheReply tweet i).bind fun _ => sameDb_publishMarks p tweet user.id

/-- The control points. -/
inductive CounterPc
  | tweetLoad (text : Option Text) (id : Option ℕ) (replyId : Option Text)
  | tweetText (user : Row User) (text : Option Text) (replyId : Option Text)
  | tweetCreate (user : Row User) (replyId : Option Text) (processed : Processed)
  | followLoad (userId : Option ℕ) (userName : Option Param) (dir : Dir)
  | followRow (userId : Option ℕ) (followed : Row User) (dir : Dir)
  | followFind (userId : Option ℕ) (followed : Row User) (dir : Dir)
  | saving (calls : List Pending) (rest : Option Publication)
  | done
  deriving DecidableEq

/-- The statement at a control point. -/
def CounterPc.step (P : Platform) (pc : CounterPc) (now : Time) (w : World) : World × CounterPc :=
  match pc with
  | .tweetLoad text id replyId =>
      match id.bind w.db.users.find with
      | some user => (w, .tweetText user text replyId)
      | none => (w, .done)
  | .tweetText user text replyId =>
      match processText w.db.users text with
      | .ok processed => (w, .tweetCreate user replyId processed)
      | .error _ => (w, .done)
  | .tweetCreate user replyId processed =>
      match Tweet.create now processed.text user w with
      | .ok t w' =>
          let tweet : Entry := ⟨user.attrs.userName, processed.text,
            t.map fun r => r.attrs.createdAt, t.map Row.id⟩
          (w', .saving (if replyId.isNone then [⟨.tweets, user, .up⟩] else [])
            (some ⟨user, replyId, processed, tweet⟩))
      | .error _ w' => (w', .done)
  | .followLoad userId userName dir =>
      match User.findByUserName w.db userName with
      | some followed => (w, .followRow userId followed dir)
      | none => (w, .done)
  | .followRow userId followed dir =>
      ((changeRow dir userId followed.id).exec w, .followFind userId followed dir)
  | .followFind userId followed dir =>
      match userId.bind w.db.users.find with
      | some user => (w, .saving [⟨.followings, user, dir⟩, ⟨.followers, followed, dir⟩] none)
      | none => (w, .done)
  -- the object is as old as its load; only this statement writes
  | .saving (x :: xs) rest => ((x.call P now).exec w, .saving xs rest)
  | .saving [] (some x) => (x.send.exec w, .done)
  | .saving [] none => (w, .done)
  | .done => (w, .done)

/-- A thread: where it stands and the changes it has made. -/
structure CounterThread where
  pc : CounterPc
  log : List Change

/-- The change that the next statement makes. -/
def CounterPc.changes : CounterPc → List Change
  | .saving (x :: _) _ => [x.change]
  | _ => []

/-- The next statement of a thread. -/
def counterThreads (P : Platform) (l : CounterThread) (now : Time) (w : World) :
    World × CounterThread :=
  ((l.pc.step P now w).1, ⟨(l.pc.step P now w).2, l.log ++ l.pc.changes⟩)

/-- The requests: `make_tweet(text, id, reply_id)`, a follow or an unfollow. -/
inductive CounterRequest
  | makeTweet (text : Option Text) (id : Option ℕ) (replyId : Option Text)
  | follow (userId : Option ℕ) (userName : Option Param)
  | unfollow (userId : Option ℕ) (userName : Option Param)

/-- Where a request starts. -/
def CounterRequest.start : CounterRequest → CounterPc
  | .makeTweet text id replyId => .tweetLoad text id replyId
  | .follow userId userName => .followLoad userId userName .up
  | .unfollow userId userName => .followLoad userId userName .down

/-- The requests before their first statement. -/
def startRequests (w : World) (rs : List CounterRequest) : Config World CounterThread :=
  ⟨w, rs.map fun r => ⟨r.start, []⟩⟩

/-! ### Threads that run alone -/

section Alone

variable {P : Platform} {now : Time} {w : World}

/-- Run alone from the control point `pc`, the thread ends and leaves `w'`. -/
def Completes (P : Platform) (now : Time) (pc : CounterPc) (w w' : World) : Prop :=
  ∀ log, Ends (counterThreads P) now (fun l => l.pc = .done) ⟨pc, log⟩ w w'

theorem completes_done (w : World) : Completes P now .done w w := fun _ => ⟨0, _, rfl, rfl⟩

theorem completes_step {pc next : CounterPc} {w₁ w' : World}
    (hstep : pc.step P now w = (w₁, next)) (h : Completes P now next w₁ w') :
    Completes P now pc w w' := by
  refine fun log => ends_of_step ?_
  unfold counterThreads
  dsimp only
  rw [hstep]
  exact h _

theorem call_ok (x : Pending) (w : World) : x.call P now w = .ok () ((x.call P now).exec w) := by
  cases x with
  | mk k u dir =>
    cases dir with
    | up => exact save_ok now k u _ w
    | down =>
      unfold Pending.call Counter.decrement
      dsimp only
      split_ifs
      · exact save_ok now k u _ w
      · rfl

/-- A thread at a counter method, continued as the program is. -/
theorem completes_call {x : Pending} {xs : List Pending} {rest : Option Publication}
    {q : Prog Unit} (h : ∀ w, Completes P now (.saving xs rest) w (q.exec w)) :
    Completes P now (.saving (x :: xs) rest) w ((x.call P now >>= fun _ => q).exec w) := by
  refine completes_step rfl ?_
  rw [EStateM.exec_bind_of_ok (call_ok x w)]
  exact h _

/-- **Run alone, the thread of a call does what `make_tweet` does.** -/
theorem solo_makeTweet (text : Option Text) (id : Option ℕ) (replyId : Option Text) (w : World) :
    Completes P now (CounterRequest.makeTweet text id replyId).start w
      ((makeTweet P now text id replyId).exec w) := by
  cases hu : id.bind w.db.users.find with
  | none =>
    rw [makeTweet_exec_noAuthor hu]
    exact completes_step (by simp only [CounterRequest.start, CounterPc.step, hu])
      (completes_done w)
  | some u =>
    refine completes_step (by simp only [CounterRequest.start, CounterPc.step, hu]; rfl) ?_
    rw [makeTweet_exec hu]
    cases hp : processText w.db.users text with
    | error e => exact completes_step (by simp only [CounterPc.step, hp]) (completes_done w)
    | ok p =>
      obtain ⟨t, ht, -⟩ := tweetCreate_eq (w := w) now p.text u
      refine completes_step (by simp only [CounterPc.step, hp]; rfl) ?_
      refine completes_step (by simp only [CounterPc.step, ht]; rfl) ?_
      dsimp only
      rw [show (publish P now u replyId p).exec w = _ from EStateM.exec_bind_of_ok ht]
      cases replyId with
      | some i => exact completes_step rfl (completes_done _)
      | none =>
        unfold publishTweet
        rw [bind_assoc]
        exact completes_call fun w => completes_step rfl (completes_done _)

theorem changeRow_ok (dir : Dir) (a : Option ℕ) (b : ℕ) (w : World) :
    changeRow dir a b w = .ok () ((changeRow dir a b).exec w) := by
  cases dir with
  | down => rfl
  | up =>
    unfold EStateM.exec changeRow Follow.create
    cases a with
    | none => rfl
    | some a => dsimp only; split_ifs <;> rfl

/-- Run alone, the thread of a follow or of an unfollow does what the route does. -/
theorem completes_followLoad (dir : Dir) (userId : Option ℕ) (userName : Option Param) (w : World) :
    Completes P now (.followLoad userId userName dir) w (EStateM.exec (do
      let followed ← orRaise (User.missing userName) (User.findByUserName (← get).db userName)
      changeRow dir userId followed.id
      let user ← User.find userId
      Pending.call P now ⟨.followings, user, dir⟩
      Pending.call P now ⟨.followers, followed, dir⟩) w) := by
  rw [EStateM.exec_bind_of_ok EStateM.get_ok]
  cases hv : User.findByUserName w.db userName with
  | none =>
    rw [EStateM.exec_of_error (EStateM.bind_of_error (orRaise_error _ rfl))]
    exact completes_step (by simp only [CounterPc.step, hv]) (completes_done w)
  | some v =>
    rw [EStateM.exec_bind_of_ok (orRaise_ok _ rfl),
      EStateM.exec_bind_of_ok (changeRow_ok dir _ _ _)]
    refine completes_step (by simp only [CounterPc.step, hv]; rfl) (completes_step rfl ?_)
    cases hu : userId.bind ((changeRow dir userId v.id).exec w).db.users.find with
    | none =>
      rw [EStateM.exec_of_error (EStateM.bind_of_error (find_error hu))]
      exact completes_step (by simp only [CounterPc.step, hu]) (completes_done _)
    | some u =>
      rw [EStateM.exec_bind_of_ok (find_ok hu)]
      refine completes_step (by simp only [CounterPc.step, hu]; rfl) (completes_call fun w => ?_)
      exact completes_step rfl (completes_step rfl (completes_done _))

/-- **Run alone, the thread of a follow does what the route does.** -/
theorem solo_follow (userId : Option ℕ) (userName : Option Param) (w : World) :
    Completes P now (CounterRequest.follow userId userName).start w
      ((follow P now userId userName).exec w) :=
  completes_followLoad .up userId userName w

/-- **Run alone, the thread of an unfollow does what the route does.** -/
theorem solo_unfollow (userId : Option ℕ) (userName : Option Param) (w : World) :
    Completes P now (CounterRequest.unfollow userId userName).start w
      ((unfollow P now userId userName).exec w) :=
  completes_followLoad .down userId userName w

end Alone

/-! ### Accounting -/

/-- What a change adds to the counter `k` of user `i`. -/
def Change.delta (k : Counter) (i : ℕ) : Change → ℤ
  | .inc k' i' => if k = k' ∧ i = i' then 1 else 0
  | .dec k' i' => if k = k' ∧ i = i' then -1 else 0
  | .kept _ _ => 0

/-- What a thread has added to the counter `k` of user `i` so far. -/
def CounterThread.net (k : Counter) (i : ℕ) (l : CounterThread) : ℤ :=
  (l.log.map (Change.delta k i)).sum

/-- Every counter of every user is what it was in `users`, plus what the threads have added. -/
def Accounted (users : Table User) (c : Config World CounterThread) : Prop :=
  ∀ k i, (users.find i).isSome →
    count k c.shared.db.users i = count k users i + sumThreads (CounterThread.net k i) c.threads

/-- The method is about to save: it increments, or it decrements a counter above zero. -/
def Pending.Writes (x : Pending) : Prop := x.dir = .up ∨ x.counter.get x.user.attrs > 0

/-- A save finds its row valid, and the counter in the row as it is in the object. -/
def FreshSave (P : Platform) (c : Config World CounterThread) (e : ℕ × Time) : Prop :=
  ∀ l x xs rest, c.threads[e.1]? = some l → l.pc = .saving (x :: xs) rest → x.Writes →
    x.user.attrs.valid P c.shared.db.users (some x.user.id) = true ∧
      count x.counter c.shared.db.users x.user.id = x.counter.get x.user.attrs

/-- The objects a thread has loaded and not saved yet. -/
def CounterPc.objects : CounterPc → List (Row User)
  | .tweetText user _ _ | .tweetCreate user _ _ => [user]
  | .followRow _ followed _ | .followFind _ followed _ => [followed]
  | .saving calls _ => calls.map Pending.user
  | _ => []

/-- Users neither come nor go, and loaded objects are users. -/
structure CounterInv (users : Table User) (c : Config World CounterThread) : Prop where
  same : ∀ i, (c.shared.db.users.find i).isSome = (users.find i).isSome
  loaded : ∀ l ∈ c.threads, ∀ u ∈ l.pc.objects, (users.find u.id).isSome

/-- By how much a method that writes moves its counter. -/
def Pending.amount (x : Pending) : ℤ :=
  match x.dir with
  | .up => 1
  | .down => -1

section Step

variable {P : Platform} {now : Time} {w : World}

theorem Pending.exec_call_of_writes {x : Pending} (hx : x.Writes) :
    ((x.call P now).exec w).db.users =
      if x.user.attrs.valid P w.db.users (some x.user.id) then
        w.db.users.update x.user.id (x.counter.write now (x.counter.get x.user.attrs + x.amount))
      else w.db.users := by
  have hsave : ∀ v, ((x.counter.save P now x.user v).exec w).db.users =
      if x.user.attrs.valid P w.db.users (some x.user.id) then
        w.db.users.update x.user.id (x.counter.write now v)
      else w.db.users := by
    intro v
    rw [exec_save]
    split_ifs <;> rfl
  cases x with
  | mk k u dir =>
    cases dir with
    | up => exact hsave _
    | down =>
      have hpos : k.get u.attrs > 0 := hx.resolve_left (by simp)
      unfold Pending.call Counter.decrement
      dsimp only
      rw [if_pos hpos]
      exact hsave _

theorem Pending.exec_call_of_not_writes {x : Pending} (hx : ¬ x.Writes) :
    (x.call P now).exec w = w := by
  cases x with
  | mk k u dir =>
    cases dir with
    | up => exact absurd (.inl rfl) hx
    | down =>
      have hpos : ¬ k.get u.attrs > 0 := fun h => hx (.inr h)
      unfold Pending.call Counter.decrement
      dsimp only
      rw [if_neg hpos]
      rfl

theorem Pending.delta_change (x : Pending) (k : Counter) (i : ℕ) [Decidable x.Writes] :
    x.change.delta k i =
      if x.Writes ∧ k = x.counter ∧ i = x.user.id then x.amount else 0 := by
  cases x with
  | mk j u dir =>
    cases dir with
    | up => simp [Pending.change, Change.delta, Pending.Writes, Pending.amount]
    | down =>
      by_cases hpos : j.get u.attrs > 0 <;>
        simp [Pending.change, Change.delta, Pending.Writes, Pending.amount, hpos]

/-- A counter method that writes moves its counter, and no other, exactly when the row is valid and
the counter in it is the object's. -/
theorem call_moves_iff {x : Pending} (hx : x.Writes) (hmem : (w.db.users.find x.user.id).isSome) :
    (∀ k i, (w.db.users.find i).isSome → count k ((x.call P now).exec w).db.users i =
        count k w.db.users i + if k = x.counter ∧ i = x.user.id then x.amount else 0) ↔
      x.user.attrs.valid P w.db.users (some x.user.id) = true ∧
        count x.counter w.db.users x.user.id = x.counter.get x.user.attrs := by
  have hamount : x.amount ≠ 0 := by
    unfold Pending.amount
    cases x.dir <;> decide
  rw [Pending.exec_call_of_writes hx]
  by_cases hv : x.user.attrs.valid P w.db.users (some x.user.id) = true
  · rw [if_pos hv]
    simp only [hv, true_and]
    constructor
    · intro h
      have := h x.counter x.user.id hmem
      rw [count_update hmem] at this
      simp only [and_self, if_true] at this
      linarith
    · intro hfresh k i hi
      rw [count_update hi]
      split_ifs with hki
      · rw [hki.1, hki.2, hfresh]
      · rw [add_zero]
  · rw [if_neg hv]
    refine iff_of_false (fun h => hamount ?_) fun h => hv h.1
    have := h x.counter x.user.id hmem
    simp only [and_self, if_true] at this
    linarith

/-- A statement is a counter method, or it leaves `users` alone and loads at most what is there. -/
theorem step_cases (P : Platform) (now : Time) (w : World) (pc : CounterPc) :
    (∃ x xs rest, pc = .saving (x :: xs) rest) ∨
      ((∀ x xs rest, pc ≠ .saving (x :: xs) rest) ∧ pc.changes = [] ∧
        (pc.step P now w).1.db.users = w.db.users ∧
        ∀ u ∈ (pc.step P now w).2.objects, u ∈ pc.objects ∨ w.db.users.find u.id = some u) := by
  cases pc with
  | tweetLoad text id replyId =>
    refine .inr ⟨by simp, rfl, ?_⟩
    cases hu : id.bind w.db.users.find with
    | none => simp [CounterPc.step, hu, CounterPc.objects]
    | some u => simp [CounterPc.step, hu, CounterPc.objects, (eq_some_of_bind hu).2]
  | tweetText user text replyId =>
    refine .inr ⟨by simp, rfl, ?_⟩
    cases hp : processText w.db.users text with
    | error e => simp [CounterPc.step, hp, CounterPc.objects]
    | ok p => simp [CounterPc.step, hp, CounterPc.objects]
  | tweetCreate user replyId p =>
    refine .inr ⟨by simp, rfl, ?_⟩
    obtain ⟨t, ht, -⟩ := tweetCreate_eq (w := w) now p.text user
    cases replyId <;> simp [CounterPc.step, ht, CounterPc.objects]
  | followLoad userId userName dir =>
    refine .inr ⟨by simp, rfl, ?_⟩
    cases hv : User.findByUserName w.db userName with
    | none => simp [CounterPc.step, hv, CounterPc.objects]
    | some v => simp [CounterPc.step, hv, CounterPc.objects, findByUserName_mem hv]
  | followRow userId v dir =>
    refine .inr ⟨by simp, rfl, ?_, fun u hu => .inl hu⟩
    cases dir with
    | down => rfl
    | up =>
      simp only [CounterPc.step, changeRow, EStateM.exec, Follow.create]
      cases userId with
      | none => rfl
      | some a => dsimp only; split_ifs <;> rfl
  | followFind userId v dir =>
    refine .inr ⟨by simp, rfl, ?_⟩
    cases hu : userId.bind w.db.users.find with
    | none => simp [CounterPc.step, hu, CounterPc.objects]
    | some u => simp [CounterPc.step, hu, CounterPc.objects, (eq_some_of_bind hu).2]
  | saving calls rest =>
    cases calls with
    | cons x xs => exact .inl ⟨x, xs, rest, rfl⟩
    | nil =>
      refine .inr ⟨by simp, rfl, ?_, ?_⟩
      · cases rest with
        | none => rfl
        | some x => exact congrArg Db.users (sameDb_send x w)
      · cases rest <;> simp [CounterPc.step, CounterPc.objects]
  | done => exact .inr ⟨by simp, rfl, rfl, by simp [CounterPc.step, CounterPc.objects]⟩

/-- Users neither come nor go. -/
theorem isSome_find_step (P : Platform) (now : Time) (w : World) (pc : CounterPc) (i : ℕ) :
    ((pc.step P now w).1.db.users.find i).isSome = (w.db.users.find i).isSome := by
  rcases step_cases P now w pc with ⟨x, xs, rest, rfl⟩ | ⟨-, -, husers, -⟩
  · by_cases hx : x.Writes
    · rw [CounterPc.step, Pending.exec_call_of_writes hx]
      split_ifs
      · rw [Table.find_update, Option.isSome_map]
      · rfl
    · rw [CounterPc.step, Pending.exec_call_of_not_writes hx]
  · rw [husers]

/-- The invariant is kept. -/
theorem counterInv_fire {users : Table User} {c : Config World CounterThread}
    (h : CounterInv users c) (e : ℕ × Time) :
    CounterInv users (fire (counterThreads P) c e) := by
  constructor
  · intro i
    cases hl : c.threads[e.1]? with
    | none => rw [fire_of_none hl]; exact h.same i
    | some l =>
      rw [fire_of_some hl]
      exact (isSome_find_step P e.2 c.shared l.pc i).trans (h.same i)
  · refine forall_threads_fire
      (P := fun l : CounterThread => ∀ u ∈ l.pc.objects, (users.find u.id).isSome) h.loaded
      fun l _ hl u hu => ?_
    rcases step_cases P e.2 c.shared l.pc with ⟨x, xs, rest, hpc⟩ | ⟨-, -, -, hobj⟩
    · refine hl u ?_
      rw [hpc]
      simp only [counterThreads, hpc, CounterPc.step] at hu
      exact List.mem_cons_of_mem _ hu
    · rcases hobj u hu with hold | hnew
      · exact hl u hold
      · rw [← h.same, hnew]; rfl

theorem net_next (P : Platform) (now : Time) (w : World) (k : Counter) (i : ℕ)
    (l : CounterThread) :
    (counterThreads P l now w).2.net k i =
      l.net k i + (l.pc.changes.map (Change.delta k i)).sum := by
  simp [CounterThread.net, counterThreads]

/-- What is accounted for after a thread's statement. -/
theorem accounted_set_iff {users : Table User} {c : Config World CounterThread}
    (ha : Accounted users c) {e : ℕ × Time} {l : CounterThread} (hl : c.threads[e.1]? = some l) :
    Accounted users ⟨(counterThreads P l e.2 c.shared).1,
        c.threads.set e.1 (counterThreads P l e.2 c.shared).2⟩ ↔
      ∀ k i, (users.find i).isSome →
        count k (l.pc.step P e.2 c.shared).1.db.users i =
          count k c.shared.db.users i + (l.pc.changes.map (Change.delta k i)).sum := by
  refine forall₂_congr fun k i => imp_congr_right fun hi => ?_
  dsimp only
  rw [sumThreads_set (CounterThread.net k i) hl, net_next, ha k i hi]
  simp only [counterThreads]
  constructor <;> intro h <;> linarith

/-- The statement of a thread at a counter method. -/
theorem saving_moves_iff {users : Table User}
    (hsame : ∀ i, (w.db.users.find i).isSome = (users.find i).isSome) {x : Pending}
    (hx : (users.find x.user.id).isSome) (xs : List Pending) (rest : Option Publication) :
    (∀ k i, (users.find i).isSome →
        count k ((CounterPc.saving (x :: xs) rest).step P now w).1.db.users i =
          count k w.db.users i +
            ((CounterPc.saving (x :: xs) rest).changes.map (Change.delta k i)).sum) ↔
      (x.Writes → x.user.attrs.valid P w.db.users (some x.user.id) = true ∧
        count x.counter w.db.users x.user.id = x.counter.get x.user.attrs) := by
  classical
  have hchanges : ∀ k i,
      ((CounterPc.saving (x :: xs) rest).changes.map (Change.delta k i)).sum =
        if x.Writes ∧ k = x.counter ∧ i = x.user.id then x.amount else 0 := by
    intro k i
    rw [← x.delta_change]
    simp [CounterPc.changes]
  simp only [hchanges, CounterPc.step, ← hsame]
  by_cases hw : x.Writes
  · simp only [hw, true_and, true_imp_iff]
    exact call_moves_iff hw (by rw [hsame]; exact hx)
  · rw [Pending.exec_call_of_not_writes hw]
    exact iff_of_true (fun k i _ => by simp [hw]) fun h => absurd h hw

/-- **A statement keeps the accounts exactly when it is no stale or refused save.** -/
theorem accounted_fire_iff {users : Table User} {c : Config World CounterThread}
    (h : CounterInv users c) (ha : Accounted users c) (e : ℕ × Time) :
    Accounted users (fire (counterThreads P) c e) ↔ FreshSave P c e := by
  refine (fire_iff (C := fun l : CounterThread => ∀ x xs rest, l.pc = .saving (x :: xs) rest →
    x.Writes → x.user.attrs.valid P c.shared.db.users (some x.user.id) = true ∧
      count x.counter c.shared.db.users x.user.id = x.counter.get x.user.attrs) ha
    fun l hl => ?_).trans
      ⟨fun hf l x xs rest hl => hf l hl x xs rest, fun hf l hl x xs rest => hf l x xs rest hl⟩
  rw [accounted_set_iff ha hl]
  rcases step_cases P e.2 c.shared l.pc with ⟨x, xs, rest, hpc⟩ | ⟨hno, hch, husers, -⟩
  · have hx : (users.find x.user.id).isSome := by
      refine h.loaded l (List.mem_of_getElem? hl) x.user ?_
      rw [hpc]
      exact List.mem_cons_self
    rw [hpc, saving_moves_iff h.same hx]
    refine ⟨fun hok y ys r hy => ?_, fun hok => hok x xs rest rfl⟩
    injection hy with hy
    injection hy with hy
    exact hy ▸ hok
  · refine iff_of_true (fun k i _ => ?_) fun x xs rest hpc => absurd hpc (hno x xs rest)
    rw [husers, hch]
    simp

end Step

/-! ### Interleavings -/

/-- What a finished run of requests must have made of the counters: as many steps up as threads
have incremented, as many down as threads have decremented. -/
def Settled (users : Table User) (c : Config World CounterThread) : Prop :=
  ∀ k i, (users.find i).isSome →
    count k c.shared.db.users i = count k users i +
      sumThreads (fun l => (l.log.count (.inc k i) : ℤ)) c.threads -
      sumThreads (fun l => (l.log.count (.dec k i) : ℤ) + l.log.count (.kept k i)) c.threads

/-- No decrement of the thread met a counter at zero. -/
def CounterThread.NoneKept (l : CounterThread) : Prop := ∀ k i, Change.kept k i ∉ l.log

theorem net_eq_counts (k : Counter) (i : ℕ) (l : CounterThread) :
    l.net k i = l.log.count (.inc k i) - l.log.count (.dec k i) := by
  unfold CounterThread.net
  induction l.log with
  | nil => rfl
  | cons x xs ih =>
    rw [List.map_cons, List.sum_cons, ih, List.count_cons, List.count_cons]
    cases x with
    | inc k' i' =>
      by_cases h : k = k' ∧ i = i'
      · obtain ⟨rfl, rfl⟩ := h
        simp [Change.delta]; ring
      · have h' : ¬ (k' = k ∧ i' = i) := fun hc => h ⟨hc.1.symm, hc.2.symm⟩
        simp [Change.delta, h, h']
    | dec k' i' =>
      by_cases h : k = k' ∧ i = i'
      · obtain ⟨rfl, rfl⟩ := h
        simp [Change.delta]; ring
      · have h' : ¬ (k' = k ∧ i' = i) := fun hc => h ⟨hc.1.symm, hc.2.symm⟩
        simp [Change.delta, h, h']
    | kept k' i' => simp [Change.delta]

/-- **Counters under any interleaving.** All counters are accounted for in every state of a run
exactly when every save of the run is fresh; and then, if no decrement met a counter at zero, each
counter has moved up as often as it was incremented and down as often as it was decremented. -/
theorem accounted_run_iff (P : Platform) (w : World) (rs : List CounterRequest)
    (es : List (ℕ × Time)) :
    (Run.Always (fire (counterThreads P)) (Accounted w.db.users) (startRequests w rs) es ↔
      Run.EachStep (fire (counterThreads P)) (FreshSave P) (startRequests w rs) es) ∧
    (Run.EachStep (fire (counterThreads P)) (FreshSave P) (startRequests w rs) es →
      (∀ l ∈ (Run.run (fire (counterThreads P)) (startRequests w rs) es).threads, l.NoneKept) →
        Settled w.db.users (Run.run (fire (counterThreads P)) (startRequests w rs) es)) := by
  have hinv : CounterInv w.db.users (startRequests w rs) := by
    refine ⟨fun _ => rfl, fun l hl u hu => ?_⟩
    obtain ⟨r, -, rfl⟩ := List.mem_map.1 hl
    cases r <;> simp [CounterRequest.start, CounterPc.objects] at hu
  have hstart : Accounted w.db.users (startRequests w rs) := by
    intro k i _
    have hzero : ∀ l ∈ (startRequests w rs).threads, l.net k i = 0 := by
      intro l hl
      obtain ⟨r, -, rfl⟩ := List.mem_map.1 hl
      rfl
    rw [sumThreads_eq_zero hzero, add_zero]
    rfl
  have hiff : Run.Always (fire (counterThreads P)) (Accounted w.db.users) (startRequests w rs) es ↔
      Run.EachStep (fire (counterThreads P)) (FreshSave P) (startRequests w rs) es :=
    Run.always_iff_eachStep (I := CounterInv w.db.users) (G := Accounted w.db.users)
      (fun _ e hc _ _ => counterInv_fire hc e) (fun _ e hc ha => accounted_fire_iff hc ha e)
      hinv hstart es
  refine ⟨hiff, fun hfresh hkept k i hi => ?_⟩
  have hnet : ∀ l ∈ (Run.run (fire (counterThreads P)) (startRequests w rs) es).threads,
      l.net k i = l.log.count (.inc k i) -
        ((l.log.count (.dec k i) : ℤ) + l.log.count (.kept k i)) := by
    intro l hl
    rw [net_eq_counts, List.count_eq_zero.2 (hkept l hl k i)]
    simp
  rw [(hiff.2 hfresh).last k i hi, sumThreads_congr hnet, sumThreads_sub]
  ring

/-- Three users. -/
def threeUsers : World :=
  Run.run (step .ascii) World.empty [.register 0 0 (.of "ann" "ann@x.org"),
    .register 1 1 (.of "bob" "bob@x.org"), .register 2 2 (.of "eve" "eve@x.org")]

/-- The first two follow the third; both load it before either has saved it. -/
def twoFollows : Config World CounterThread :=
  Run.run (fire (counterThreads .ascii))
    (startRequests threeUsers [.follow (some 1) (some "eve"), .follow (some 2) (some "eve")])
    ([(0, 3), (1, 4)] ++ List.replicate 5 (0, 5) ++ List.replicate 5 (1, 6))

/-- Both follows are done and have incremented, but one increment is lost. -/
theorem lost_update :
    (∀ l ∈ twoFollows.threads, l.pc = .done) ∧ (threeUsers.db.users.find 3).isSome ∧
      count .followers threeUsers.db.users 3 = 0 ∧
      sumThreads (fun l => (l.log.count (.inc .followers 3) : ℤ)) twoFollows.threads = 2 ∧
      sumThreads (fun l => (l.log.count (.dec .followers 3) : ℤ) + l.log.count (.kept .followers 3))
        twoFollows.threads = 0 ∧
      count .followers twoFollows.shared.db.users 3 = 1 := by
  decide +kernel

end NanoTwitter
