import Mathlib.Tactic
import NanoTwitter.Concurrent.Drift
import NanoTwitter.Concurrent.FeedOrder
import NanoTwitter.Concurrent.Uniqueness

/-!
# All requests at once

Registrations, follows, unfollows, tweets, replies and likes in one system, statement by statement:
the threads of the modules on tweets, likes, uniqueness and counters side by side. A follow first
runs the queries and the `INSERT` of `Follow.create`, then the saves of the two counters. Run alone,
every request does what its function does (`solo_request`).

Some things go wrong in interleavings: names can be taken twice, counters lose updates, feeds
disagree about the order. `Consistent` is what remains true in all of them
(`requests_consistent`): the author of a tweet and both ends of a follow exist, nobody follows
themselves, no counter is negative, Redis holds what the commands expect, no feed shows a stored
tweet other than as it is stored, and nobody likes what does not exist.

The proof is by rely and guarantee. No command removes users or tweets, or
changes their names or texts (`Extends`), so what a thread has found out about them stays true while
the other threads run.
-/

namespace NanoTwitter

open Ruby (Time)
open Interleave

/-! ### The threads -/

/-- The control points. -/
inductive SitePc
  | tweet (pc : TweetPc)
  | like (pc : LikePc)
  | unique (pc : UniquePc)
  | counter (pc : CounterPc)

namespace SitePc

/-- The statement at a control point. -/
def step (P : Platform) (pc : SitePc) (now : Time) (w : World) : World × SitePc :=
  match pc with
  | .tweet pc => ((pc.step P now w).1, .tweet (pc.step P now w).2)
  | .like pc => ((pc.step now w).1, .like (pc.step now w).2)
  -- after `Follow.create` the counters are loaded and saved one by one
  | .unique (.followCount userId followed) =>
      (((CounterPc.followFind userId followed .up).step P now w).1,
        .counter ((CounterPc.followFind userId followed .up).step P now w).2)
  | .unique pc => ((pc.step P now w).1, .unique (pc.step P now w).2)
  | .counter pc => ((pc.step P now w).1, .counter (pc.step P now w).2)

/-- The thread has no statement left. -/
def Finished : SitePc → Prop
  | .tweet pc => pc = .done
  | .like pc => pc = .done
  | .unique pc => pc = .done
  | .counter pc => pc = .done

end SitePc

/-- The requests. -/
inductive SiteRequest
  | register (salt : ℕ) (form : User.Form)
  | follow (userId : Option ℕ) (userName : Option Param)
  | unfollow (userId : Option ℕ) (userName : Option Param)
  | makeTweet (text : Option Text) (id : Option ℕ) (replyId : Option Text)
  | like (userId : Option ℕ) (tweetId : Option Text)

namespace SiteRequest

/-- Where a request starts. -/
def start : SiteRequest → SitePc
  | .register salt form => .unique (.create salt form)
  | .follow userId userName => .unique (.followLoad userId userName)
  | .unfollow userId userName => .counter (.followLoad userId userName .down)
  | .makeTweet text id replyId => .tweet (.load text id replyId)
  | .like userId tweetId => .like (.find userId tweetId)

/-- What the request does when nothing interferes. -/
def alone (P : Platform) (now : Time) (w : World) : SiteRequest → World
  | .register salt form => (NanoTwitter.register P now salt form).exec w
  | .follow userId userName => (NanoTwitter.follow P now userId userName).exec w
  | .unfollow userId userName => (NanoTwitter.unfollow P now userId userName).exec w
  | .makeTweet text id replyId => (NanoTwitter.makeTweet P now text id replyId).exec w
  | .like userId tweetId => (NanoTwitter.like now userId tweetId).exec w

end SiteRequest

/-- The requests before their first statement. -/
def startSite (w : World) (rs : List SiteRequest) : Config World SitePc :=
  ⟨w, rs.map SiteRequest.start⟩

/-! ### A request that runs alone -/

section Alone

variable {P : Platform} {now : Time} {w w' : World}

/-- The statements after `Follow.create`, one by one. -/
theorem completes_followFind (userId : Option ℕ) (v : Row User) (w : World) :
    Completes P now (.followFind userId v .up) w
      ((UniquePc.countFollow P now userId v).exec w) := by
  unfold UniquePc.countFollow
  cases hu : userId.bind w.db.users.find with
  | none =>
    rw [EStateM.exec_of_error (EStateM.bind_of_error (find_error hu))]
    exact completes_step (by simp only [CounterPc.step, hu]) (completes_done w)
  | some u =>
    rw [EStateM.exec_bind_of_ok (find_ok hu)]
    refine completes_step (by simp only [CounterPc.step, hu]; rfl) ?_
    exact completes_call (x := ⟨.followings, u, .up⟩) fun w =>
      completes_step rfl (completes_step rfl (completes_done _))

theorem ends_counter {pc : CounterPc} (h : Completes P now pc w w') :
    Ends (SitePc.step P) now SitePc.Finished (.counter pc) w w' :=
  (h []).map (fun l => SitePc.counter l.pc) (Q := fun _ => True) trivial (fun _ _ _ => trivial)
    (fun _ _ _ => rfl) fun _ h => h

theorem ends_unique_step {pc next : UniquePc} {w₁ : World}
    (hpc : ∀ userId v, pc ≠ .followCount userId v) (hstep : pc.step P now w = (w₁, next))
    (h : Ends (SitePc.step P) now SitePc.Finished (.unique next) w₁ w') :
    Ends (SitePc.step P) now SitePc.Finished (.unique pc) w w' := by
  have hsite : (SitePc.unique pc).step P now w = (w₁, .unique next) := by
    cases pc with
    | followCount userId v => exact absurd rfl (hpc userId v)
    | _ => simp only [SitePc.step, hstep]
  refine ends_of_step ?_
  rw [hsite]
  exact h

/-- The thread of a follow, up to its counters. -/
theorem ends_follow (userId : Option ℕ) (userName : Option Param) (w : World) :
    Ends (SitePc.step P) now SitePc.Finished (.unique (.followLoad userId userName)) w
      ((follow P now userId userName).exec w) := by
  have hcount : ∀ v w, Ends (SitePc.step P) now SitePc.Finished (.unique (.followCount userId v)) w
      ((UniquePc.countFollow P now userId v).exec w) := fun v w => by
    have hends : Ends (SitePc.step P) now SitePc.Finished (.counter (.followFind userId v .up)) w
        ((UniquePc.countFollow P now userId v).exec w) :=
      ends_counter (completes_followFind userId v w)
    obtain ⟨n, l, hn, hl⟩ := hends
    cases n with
    | zero =>
      obtain ⟨-, rfl⟩ := Prod.mk.inj hn
      exact absurd hl (by simp [SitePc.Finished])
    | succ n => exact ⟨n + 1, l, hn, hl⟩
  have hdone : ∀ w, Ends (SitePc.step P) now SitePc.Finished (.unique .done) w w := fun w =>
    ⟨0, _, rfl, rfl⟩
  unfold follow
  rw [EStateM.exec_bind_of_ok EStateM.get_ok]
  cases hv : User.findByUserName w.db userName with
  | none =>
    rw [EStateM.exec_of_error (EStateM.bind_of_error (orRaise_error _ rfl))]
    exact ends_unique_step (by simp) (by simp only [UniquePc.step, hv]) (hdone w)
  | some v =>
    rw [EStateM.exec_bind_of_ok (orRaise_ok _ rfl)]
    refine ends_unique_step (by simp) (by simp only [UniquePc.step, hv]; rfl) ?_
    refine ends_unique_step (by simp) rfl (ends_unique_step (by simp) rfl ?_)
    cases userId with
    | none =>
      rw [EStateM.exec_bind_of_ok (show Follow.create none v.id w = .ok () w from rfl)]
      exact ends_unique_step (by simp) rfl (hcount v w)
    | some a =>
      rw [EStateM.exec_bind_of_ok (create_eq a v.id)]
      by_cases hvalid : Follow.valid w.db a v.id = true
      · rw [if_pos hvalid]
        exact ends_unique_step (by simp) (if_pos hvalid)
          (ends_unique_step (by simp) rfl (hcount v _))
      · rw [if_neg hvalid]
        exact ends_unique_step (by simp) (if_neg hvalid) (hcount v w)

/-- A registration never comes to a follow. -/
def UniquePc.registers : UniquePc → Bool
  | .create _ _ | .validate _ _ _ _ _ _ | .insert _ _ _ | .done => true
  | _ => false

theorem registers_step {pc : UniquePc} (h : pc.registers = true) (w : World) :
    (pc.step P now w).2.registers = true := by
  cases pc with
  | create salt form =>
    cases hu : User.new P salt now form <;> simp [UniquePc.step, hu, UniquePc.registers]
  | validate u own rest ok again since =>
    cases rest with
    | cons c cs => rfl
    | nil =>
      cases own with
      | some i => rfl
      | none => simp only [UniquePc.step]; split_ifs <;> rfl
  | insert u again since => simp only [UniquePc.step]; split_ifs <;> rfl
  | done => rfl
  | _ => exact absurd h (by simp [UniquePc.registers])

/-- **Run alone, every request does what its function does.** -/
theorem solo_request (P : Platform) (now : Time) (r : SiteRequest) (w : World) :
    Ends (SitePc.step P) now SitePc.Finished r.start w (r.alone P now w) := by
  cases r with
  | register salt form =>
    have hsolo : Concludes P now (UniqueRequest.register salt form).start w
        ((register P now salt form).exec w) := solo_register salt form w
    refine hsolo.map SitePc.unique
      (Q := fun pc => pc.registers = true) rfl (fun pc w h => registers_step h w)
      (fun pc w h => ?_) fun _ h => h
    cases pc with
    | followCount => exact absurd h (by simp [UniquePc.registers])
    | _ => rfl
  | follow userId userName => exact ends_follow userId userName w
  | unfollow userId userName => exact ends_counter (solo_unfollow userId userName w)
  | makeTweet text id replyId =>
    have hsolo : RunsTo P now (.load text id replyId) w
        ((makeTweet P now text id replyId).exec w) := solo_tweetThread text id replyId w
    exact hsolo.map SitePc.tweet
      (Q := fun _ => True) trivial (fun _ _ _ => trivial) (fun _ _ _ => rfl) fun _ h => h
  | like userId tweetId =>
    exact (solo_like now userId tweetId w).map SitePc.like
      (Q := fun _ => True) trivial (fun _ _ _ => trivial) (fun _ _ _ => rfl) fun _ h => h

end Alone

/-! ### What all interleavings keep -/

/-- What holds in the stores, whatever the requests do. -/
structure Consistent (w : World) : Prop where
  wellTyped : WellTyped w.redis
  complete : ∀ r ∈ w.db.users.rows, r.attrs.complete = true
  counters : ∀ r ∈ w.db.users.rows, ∀ k : Counter, 0 ≤ k.get r.attrs
  authors : ∀ t ∈ w.db.tweets.rows, ∃ u, w.db.users.find t.attrs.authorId = some u ∧
    u.attrs.userName = t.attrs.authorName
  endpoints : ∀ f ∈ w.db.follows.rows,
    (w.db.users.find f.attrs.followerId).isSome ∧ (w.db.users.find f.attrs.followedId).isSome
  simple : ∀ f ∈ w.db.follows.rows, f.attrs.followerId ≠ f.attrs.followedId
  entries : ∀ s : Slot, s.isFeed = true → ∀ v ∈ (view w.redis).feeds s, ∀ n ∈ tweetId v,
    ∃ t ∈ w.db.tweets.rows, t.id = n ∧ v = (rowEntry t).toJson
  liked : ∀ i, ((view w.redis).likers i).Nonempty → (w.db.tweets.find i).isSome

/-- Users keep their names, tweets what the feeds show of them. -/
structure Extends (db db' : Db) : Prop where
  users : ∀ i u, db.users.find i = some u →
    ∃ u', db'.users.find i = some u' ∧ u'.attrs.userName = u.attrs.userName
  tweets : ∀ t ∈ db.tweets.rows, ∃ t' ∈ db'.tweets.rows, t'.id = t.id ∧ rowEntry t' = rowEntry t

/-- A change that keeps the stores consistent and takes nothing away. -/
def Good (w w' : World) : Prop := Consistent w' ∧ Extends w.db w'.db

theorem Extends.refl (db : Db) : Extends db db :=
  ⟨fun _ u hu => ⟨u, hu, rfl⟩, fun t ht => ⟨t, ht, rfl, rfl⟩⟩

section Extends

variable {db db' : Db} {i : ℕ}

theorem Extends.isSome_user (h : Extends db db') (hi : (db.users.find i).isSome) :
    (db'.users.find i).isSome := by
  obtain ⟨u, hu⟩ := Option.isSome_iff_exists.1 hi
  obtain ⟨u', hu', -⟩ := h.users i u hu
  rw [hu']
  rfl

theorem Extends.isSome_tweet (h : Extends db db') (hi : (db.tweets.find i).isSome) :
    (db'.tweets.find i).isSome := by
  obtain ⟨t, ht⟩ := Option.isSome_iff_exists.1 hi
  obtain ⟨hmem, rfl⟩ := Table.mem_of_find ht
  obtain ⟨t', ht', hid, -⟩ := h.tweets t hmem
  rw [← hid, Table.find_of_mem ht']
  rfl

end Extends

/-- An object that was loaded from a row. -/
def Known (db : Db) (u : Row User) : Prop :=
  (∃ u', db.users.find u.id = some u' ∧ u'.attrs.userName = u.attrs.userName) ∧
    ∀ k : Counter, 0 ≤ k.get u.attrs

/-- An array of `make_tweet`: if it has an id, it is that of the row. -/
def StoredEntry (db : Db) (e : Entry) : Prop :=
  ∀ n ∈ e.id, ∃ t ∈ db.tweets.rows, t.id = n ∧ e = rowEntry t

/-- What a thread has established, of users, of tweets and of the pair it is about to insert. -/
def TweetPc.Ok (db : Db) : TweetPc → Prop
  | .words user _ _ _ | .create user _ _ => Known db user
  | .count x | .cache x _ | .reply x _ | .marks x | .mentions x _ | .tags x _ =>
      Known db x.user ∧ StoredEntry db x.tweet
  | .load _ _ _ | .done => True

@[inherit_doc TweetPc.Ok]
def LikePc.Ok (db : Db) (pc : LikePc) : Prop :=
  ∀ t, pc.object = some t → (db.tweets.find t.id).isSome

@[inherit_doc TweetPc.Ok]
def UniquePc.Ok (db : Db) : UniquePc → Prop
  | .validate u none _ _ _ _ => ∀ k : Counter, 0 ≤ k.get u
  | .insert u _ _ => u.complete = true ∧ ∀ k : Counter, 0 ≤ k.get u
  | .followFollower _ v | .followCount _ v => Known db v
  | .followFollowed userId v ok =>
      Known db v ∧ (ok = true → (userId.bind db.users.find).isSome)
  | .followExists userId v ok =>
      Known db v ∧ (ok = true → (userId.bind db.users.find).isSome)
  | .followInsert a v _ => Known db v ∧ (db.users.find a).isSome ∧ a ≠ v.id
  | .create _ _ | .validate _ (some _) _ _ _ _ | .followLoad _ _ | .done => True

@[inherit_doc TweetPc.Ok]
def CounterPc.Ok (db : Db) : CounterPc → Prop
  | .followRow _ v _ | .followFind _ v _ => Known db v
  | .saving calls none => ∀ x ∈ calls, Known db x.user
  | .followLoad _ _ _ | .done => True
  -- the tweets have threads of their own
  | .tweetLoad _ _ _ | .tweetText _ _ _ | .tweetCreate _ _ _ | .saving _ (some _) => False

@[inherit_doc TweetPc.Ok]
def SitePc.Ok (db : Db) : SitePc → Prop
  | .tweet pc => pc.Ok db
  | .like pc => pc.Ok db
  | .unique pc => pc.Ok db
  | .counter pc => pc.Ok db

section Stable

variable {db db' : Db}

theorem Known.stable {u : Row User} (h : Known db u) (hext : Extends db db') : Known db' u := by
  obtain ⟨⟨u', hu', hname⟩, hcounters⟩ := h
  obtain ⟨u'', hu'', hname'⟩ := hext.users _ u' hu'
  exact ⟨⟨u'', hu'', hname'.trans hname⟩, hcounters⟩

theorem StoredEntry.stable {e : Entry} (h : StoredEntry db e) (hext : Extends db db') :
    StoredEntry db' e := by
  intro n hn
  obtain ⟨t, ht, hid, he⟩ := h n hn
  obtain ⟨t', ht', hid', he'⟩ := hext.tweets t ht
  exact ⟨t', ht', hid'.trans hid, he.trans he'.symm⟩

theorem isSome_bind_stable {i : Option ℕ} (hext : Extends db db')
    (h : (i.bind db.users.find).isSome) : (i.bind db'.users.find).isSome := by
  cases i with
  | none => exact h
  | some a => exact hext.isSome_user h

/-- The other threads take nothing away. -/
theorem SitePc.Ok.stable {pc : SitePc} (h : pc.Ok db) (hext : Extends db db') : pc.Ok db' := by
  cases pc with
  | tweet pc =>
    cases pc with
    | load | done => trivial
    | words | create => exact Known.stable h hext
    | count | cache | reply | marks | mentions | tags =>
      exact ⟨Known.stable h.1 hext, StoredEntry.stable h.2 hext⟩
  | like pc => exact fun t ht => hext.isSome_tweet (h t ht)
  | unique pc =>
    cases pc with
    | create | followLoad | done => trivial
    | validate u own => cases own <;> exact h
    | insert => exact h
    | followFollower | followCount => exact Known.stable h hext
    | followFollowed | followExists =>
      exact ⟨Known.stable h.1 hext, fun hok => isSome_bind_stable hext (h.2 hok)⟩
    | followInsert => exact ⟨Known.stable h.1 hext, hext.isSome_user h.2.1, h.2.2⟩
  | counter pc =>
    cases pc with
    | followLoad | done => trivial
    | followRow | followFind => exact Known.stable h hext
    | saving calls rest =>
      cases rest with
      | none => exact fun x hx => Known.stable (h x hx) hext
      | some x => exact h
    | tweetLoad | tweetText | tweetCreate => exact h

end Stable

/-! ### The changes -/

namespace Consistent

variable {w : World}

theorem good_refl (h : Consistent w) : Good w w := ⟨h, .refl _⟩

/-- Other users, who keep their names. -/
theorem setUsers (h : Consistent w) {t : Table User}
    (hext : ∀ i u, w.db.users.find i = some u →
      ∃ u', t.find i = some u' ∧ u'.attrs.userName = u.attrs.userName)
    (hrows : ∀ r ∈ t.rows, r.attrs.complete = true ∧ ∀ k : Counter, 0 ≤ k.get r.attrs) :
    Good w (w.setUsers t) := by
  have hextends : Extends w.db (w.setUsers t).db :=
    ⟨hext, fun t ht => ⟨t, ht, rfl, rfl⟩⟩
  refine ⟨⟨h.wellTyped, fun r hr => (hrows r hr).1, fun r hr => (hrows r hr).2, fun t ht => ?_,
    fun f hf => ?_, h.simple, h.entries, h.liked⟩, hextends⟩
  · obtain ⟨u, hu, hname⟩ := h.authors t ht
    obtain ⟨u', hu', hname'⟩ := hext _ u hu
    exact ⟨u', hu', hname'.trans hname⟩
  · exact ⟨hextends.isSome_user (h.endpoints f hf).1, hextends.isSome_user (h.endpoints f hf).2⟩

theorem insertUser (h : Consistent w) {u : User} (hu : u.complete = true)
    (hcounters : ∀ k : Counter, 0 ≤ k.get u) : Good w (w.setUsers (w.db.users.insert u)) := by
  refine h.setUsers (fun i r hr => ⟨r, ?_, rfl⟩) fun r hr => ?_
  · have hne : i ≠ w.db.users.nextId := by
      rintro rfl
      rw [Table.find_nextId] at hr
      exact absurd hr (by simp)
    rw [Table.find_insert, if_neg hne, hr]
  · rw [Table.rows_insert, List.mem_append, List.mem_singleton] at hr
    rcases hr with hr | rfl
    · exact ⟨h.complete r hr, h.counters r hr⟩
    · exact ⟨hu, hcounters⟩

/-- The save of a counter, with a value that is not negative. -/
theorem save (P : Platform) (h : Consistent w) (now : Time) (k : Counter) (u : Row User) {v : ℤ}
    (hv : 0 ≤ v) : Good w ((k.save P now u v).exec w) := by
  rw [exec_save]
  split_ifs
  · have hident := fun a => User.ident_write now k v a
    refine h.setUsers (fun i r hr => ?_) fun r hr => ?_
    · refine ⟨_, by rw [Table.find_update, hr, Option.map_some], ?_⟩
      dsimp only
      split_ifs
      · exact User.userName_of_ident (hident r.attrs)
      · rfl
    · obtain ⟨r₀, hr₀, rfl⟩ := Table.mem_update.1 hr
      dsimp only
      split_ifs
      · refine ⟨(User.complete_congr (hident r₀.attrs)).trans (h.complete r₀ hr₀), fun j => ?_⟩
        by_cases hj : j = k
        · rw [hj, Counter.get_write]
          exact hv
        · rw [Counter.get_write_of_ne hj]
          exact h.counters r₀ hr₀ j
      · exact ⟨h.complete r₀ hr₀, h.counters r₀ hr₀⟩
  · exact h.good_refl

/-- A counter method on a loaded object. -/
theorem call (P : Platform) (h : Consistent w) (now : Time) {x : Pending}
    (hx : Known w.db x.user) : Good w ((x.call P now).exec w) := by
  obtain ⟨k, u, dir⟩ := x
  have h0 : 0 ≤ k.get u.attrs := hx.2 k
  cases dir with
  | up => exact h.save P now k u (v := k.get u.attrs + 1) (by omega)
  | down =>
    unfold Pending.call Counter.decrement
    dsimp only
    split_ifs with hpos
    · exact h.save P now k u (by omega)
    · exact h.good_refl

/-- Other follows, between different users that exist. -/
theorem setFollows (h : Consistent w) {t : Table Follow}
    (hrows : ∀ f ∈ t.rows, f ∈ w.db.follows.rows ∨
      ((w.db.users.find f.attrs.followerId).isSome ∧
        (w.db.users.find f.attrs.followedId).isSome) ∧
        f.attrs.followerId ≠ f.attrs.followedId) :
    Good w (w.setFollows t) := by
  refine ⟨⟨h.wellTyped, h.complete, h.counters, h.authors, fun f hf => ?_, fun f hf => ?_,
    h.entries, h.liked⟩, fun _ u hu => ⟨u, hu, rfl⟩, fun t ht => ⟨t, ht, rfl, rfl⟩⟩
  · rcases hrows f hf with hold | hnew
    · exact h.endpoints f hold
    · exact hnew.1
  · rcases hrows f hf with hold | hnew
    · exact h.simple f hold
    · exact hnew.2

theorem insertFollow (h : Consistent w) {a b : ℕ} (ha : (w.db.users.find a).isSome)
    (hb : (w.db.users.find b).isSome) (hab : a ≠ b) :
    Good w (w.setFollows (w.db.follows.insert ⟨a, b⟩)) := by
  refine h.setFollows fun f hf => ?_
  rw [Table.rows_insert, List.mem_append, List.mem_singleton] at hf
  rcases hf with hf | rfl
  · exact .inl hf
  · exact .inr ⟨⟨ha, hb⟩, hab⟩

/-- Other tweets: those from before, as the feeds show them, and perhaps one by a user. -/
theorem setTweets (h : Consistent w) {t : Table Tweet}
    (hext : ∀ r ∈ w.db.tweets.rows, ∃ r' ∈ t.rows, r'.id = r.id ∧ rowEntry r' = rowEntry r)
    (hrows : ∀ r ∈ t.rows, ∃ u, w.db.users.find r.attrs.authorId = some u ∧
      u.attrs.userName = r.attrs.authorName) :
    Good w (w.setTweets t) := by
  have hextends : Extends w.db (w.setTweets t).db := ⟨fun _ u hu => ⟨u, hu, rfl⟩, hext⟩
  refine ⟨⟨h.wellTyped, h.complete, h.counters, hrows, h.endpoints, h.simple,
    fun s hs v hv n hn => ?_, fun i hi => hextends.isSome_tweet (h.liked i hi)⟩, hextends⟩
  obtain ⟨r, hr, hid, hrv⟩ := h.entries s hs v hv n hn
  obtain ⟨r', hr', hid', hentry⟩ := hext r hr
  exact ⟨r', hr', hid'.trans hid, by rw [hrv, hentry]⟩

/-- `Tweet.create` by a user. -/
theorem createTweet (h : Consistent w) (now : Time) {user : Row User} (hu : Known w.db user)
    (text : Text) :
    Good w (w.setTweets (createdTweets now user text w.db.tweets)) ∧
      StoredEntry (w.setTweets (createdTweets now user text w.db.tweets)).db
        (createdEntry now user text w.db.tweets) := by
  obtain ⟨u, hfind, hname⟩ := hu.1
  by_cases hv : (Tweet.new now text user).valid true = true
  · rw [createdTweets_of_valid hv, createdEntry_of_valid hv]
    refine ⟨h.setTweets (fun r hr => ⟨r, ?_, rfl, rfl⟩) fun r hr => ?_, fun n hn => ?_⟩
    · exact List.mem_append_left _ hr
    · rw [Table.rows_insert, List.mem_append, List.mem_singleton] at hr
      rcases hr with hr | rfl
      · exact h.authors r hr
      · exact ⟨u, hfind, hname⟩
    · refine ⟨_, List.mem_append_right _ List.mem_cons_self, ?_, rfl⟩
      exact Option.some.inj hn
  · rw [createdEntry_of_not_valid hv]
    refine ⟨?_, fun n hn => absurd hn (by simp)⟩
    rw [createdTweets, if_neg hv]
    exact h.good_refl

/-- The save of `likes`. -/
theorem incrementLikes (h : Consistent w) (now : Time) (t : Row Tweet) :
    Good w ((Tweet.incrementLikes now t).exec w) := by
  rw [exec_incrementLikes]
  split_ifs
  · refine h.setTweets (fun r hr => ⟨_, Table.mem_update.2 ⟨r, hr, rfl⟩, rfl, ?_⟩) fun r hr => ?_
    · unfold rowEntry
      dsimp only
      split_ifs <;> rfl
    · obtain ⟨r₀, hr₀, rfl⟩ := Table.mem_update.1 hr
      have hauthor := h.authors r₀ hr₀
      dsimp only
      split_ifs <;> exact hauthor
  · exact h.good_refl

/-- Another Redis content: old entries and those of stored tweets, old likers and those of a tweet
that exists. -/
theorem setRedis (h : Consistent w) {r : Store Text Text} (hr : WellTyped r)
    (hentries : ∀ s : Slot, s.isFeed = true → ∀ v ∈ (view r).feeds s,
      v ∈ (view w.redis).feeds s ∨ ∃ e, v = e.toJson ∧ StoredEntry w.db e)
    (hlikers : ∀ i, ((view r).likers i).Nonempty →
      ((view w.redis).likers i).Nonempty ∨ (w.db.tweets.find i).isSome) :
    Good w (w.setRedis r) := by
  refine ⟨⟨hr, h.complete, h.counters, h.authors, h.endpoints, h.simple,
    fun s hs v hv n hn => ?_, fun i hi => ?_⟩, .refl _⟩
  · rcases hentries s hs v hv with hold | ⟨e, rfl, hstored⟩
    · exact h.entries s hs v hold n hn
    · rw [tweetId_toJson] at hn
      obtain ⟨t, ht, hid, he⟩ := hstored n hn
      exact ⟨t, ht, hid, by rw [he]⟩
  · rcases hlikers i hi with hold | hnew
    · exact h.liked i hold
    · exact hnew

end Consistent

/-! ### The commands -/

section Commands

variable {P : Platform} {now : Time} {w : World}

/-- The thread sends a Redis command that puts its tweet into a feed, or takes something out. -/
theorem good_send {x : Publication} {c : Store Text Text → Option (Store Text Text)}
    {f : Cache → Cache} {next : TweetPc} (h : Consistent w)
    (hx : Known w.db x.user ∧ StoredEntry w.db x.tweet)
    (hc : Refines (command c) fun _ => f) (hlikers : ∀ q, (f q).likers = q.likers)
    (hfeeds : ∀ q s, ∀ v ∈ (f q).feeds s, v ∈ q.feeds s ∨ v = x.tweet.toJson)
    (hnext : Known w.db x.user ∧ StoredEntry w.db x.tweet → next.Ok w.db) :
    Good w (TweetPc.send c next w).1 ∧
      (TweetPc.send c next w).2.Ok (TweetPc.send c next w).1.db := by
  obtain ⟨r, hr, ht, hv⟩ := hc.of_command h.wellTyped
  simp only [TweetPc.send, hr]
  refine ⟨h.setRedis ht (fun s _ v hmem => ?_) fun i hi => .inl ?_, hnext hx⟩
  · rw [hv] at hmem
    rcases hfeeds _ s v hmem with hold | rfl
    · exact .inl hold
    · exact .inr ⟨x.tweet, rfl, hx.2⟩
  · rwa [hv, hlikers] at hi

theorem mem_feeds_push {q : Cache} {s₀ s : Slot} {v₀ v : Text} (h : v ∈ (q.push s₀ v₀).feeds s) :
    v ∈ q.feeds s ∨ v = v₀ := by
  rw [Cache.feeds_push] at h
  split_ifs at h
  · exact (List.mem_cons.1 h).symm
  · exact .inl h

/-- A push to a feed. -/
theorem good_push {x : Publication} {s₀ : Slot} {next : TweetPc} (h : Consistent w)
    (hx : Known w.db x.user ∧ StoredEntry w.db x.tweet) (hs₀ : s₀.isFeed = true)
    (hnext : Known w.db x.user ∧ StoredEntry w.db x.tweet → next.Ok w.db) :
    Good w (TweetPc.send (fun r => r.lpush s₀.key x.tweet.toJson) next w).1 ∧
      (TweetPc.send (fun r => r.lpush s₀.key x.tweet.toJson) next w).2.Ok
        (TweetPc.send (fun r => r.lpush s₀.key x.tweet.toJson) next w).1.db :=
  good_send h hx (refines_lpush hs₀ x.tweet.toJson) (fun _ => rfl)
    (fun _ _ _ hv => mem_feeds_push hv) hnext

/-- The commands of `cache_tweet`. -/
theorem good_cache (h : Consistent w) {x : Publication} (pc : CachePc)
    (hx : Known w.db x.user ∧ StoredEntry w.db x.tweet) :
    Good w ((TweetPc.cache x pc).step P now w).1 ∧
      ((TweetPc.cache x pc).step P now w).2.Ok ((TweetPc.cache x pc).step P now w).1.db := by
  have hpush : ∀ (pc next : CachePc) (s₀ : Slot), pc ≠ .fan [] → next ≠ .done → s₀.isFeed = true →
      CacheCall.pcStep x.tweet x.user.id pc w =
        CacheCall.send (fun r => r.lpush s₀.key x.tweet.toJson) next w →
      Good w ((TweetPc.cache x pc).step P now w).1 ∧
        ((TweetPc.cache x pc).step P now w).2.Ok ((TweetPc.cache x pc).step P now w).1.db := by
    intro pc next s₀ hfan hnext hs₀ hpc
    rw [step_cache_send hfan hnext hpc]
    exact good_push h hx hs₀ id
  cases pc with
  | test =>
    have hl : w.redis.lrange Slot.ffeed.key = some ((view w.redis).feeds .ffeed) :=
      list?_eq_view h.wellTyped rfl
    rw [step_cache (by simp)]
    simp only [CacheCall.pcStep, hl]
    split_ifs
    · exact ⟨h.good_refl, hx⟩
    · exact ⟨h.good_refl, hx⟩
  | pop =>
    have hstep : (TweetPc.cache x .pop).step P now w =
        TweetPc.send (fun r => r.rpop Slot.ffeed.key) (.cache x .pushPopped) w :=
      step_cache_send (by simp) (by simp) rfl
    rw [hstep]
    refine good_send h hx (refines_rpop (s := .ffeed) rfl) (fun _ => rfl) (fun q s v hv => ?_) id
    rw [Cache.feeds_dropOldest] at hv
    split_ifs at hv
    · exact .inl (List.mem_of_mem_dropLast hv)
    · exact .inl hv
  | pushPopped => exact hpush .pushPopped .pfeed .ffeed (by simp) (by simp) rfl rfl
  | push => exact hpush .push .pfeed .ffeed (by simp) (by simp) rfl rfl
  | pfeed => exact hpush .pfeed .follows (.pfeed x.user.id) (by simp) (by simp) rfl rfl
  | follows => exact ⟨h.good_refl, hx⟩
  | fan rest =>
    cases rest with
    | nil => exact ⟨h.good_refl, hx⟩
    | cons f rest =>
      exact hpush (.fan (f :: rest)) (.fan rest) (.hfeed f) (by simp) (by simp) rfl rfl
  | done => exact ⟨h.good_refl, trivial⟩

theorem known_of_find (h : Consistent w) {i : ℕ} {u : Row User} (hu : w.db.users.find i = some u) :
    Known w.db u := by
  obtain ⟨hmem, hid⟩ := Table.mem_of_find hu
  exact ⟨⟨u, by rw [hid]; exact hu, rfl⟩, h.counters u hmem⟩

/-- The statements of `make_tweet`. -/
theorem good_tweet (h : Consistent w) {pc : TweetPc} (hpc : pc.Ok w.db) :
    Good w (pc.step P now w).1 ∧ (pc.step P now w).2.Ok (pc.step P now w).1.db := by
  cases pc with
  | load text id replyId =>
    cases hu : id.bind w.db.users.find with
    | none =>
      simp only [TweetPc.step, hu]
      exact ⟨h.good_refl, trivial⟩
    | some u =>
      simp only [TweetPc.step, hu]
      cases text with
      | none => exact ⟨h.good_refl, trivial⟩
      | some t => exact ⟨h.good_refl, known_of_find h (eq_some_of_bind hu).2⟩
  | words user replyId ready rest =>
    cases rest with
    | nil => exact ⟨h.good_refl, hpc⟩
    | cons word rest =>
      simp only [TweetPc.step]
      split
      · exact ⟨h.good_refl, hpc⟩
      · exact ⟨h.good_refl, trivial⟩
  | create user replyId p =>
    obtain ⟨t, ht, hentry⟩ := tweetCreate_eq (w := w) now p.text user
    obtain ⟨hgood, hstored⟩ := h.createTweet now hpc p.text
    simp only [TweetPc.step, ht]
    rw [hentry]
    refine ⟨hgood, ?_⟩
    have hok := And.intro (Known.stable hpc hgood.2) hstored
    cases replyId <;> exact hok
  | count x =>
    have hgood : Good w ((incrementTweets P now x.user).exec w) :=
      h.call P now (x := ⟨.tweets, x.user, .up⟩) hpc.1
    exact ⟨hgood, Known.stable hpc.1 hgood.2, StoredEntry.stable hpc.2 hgood.2⟩
  | cache x pc => exact good_cache h pc hpc
  | reply x i =>
    refine good_send h hpc (refines_rpush (s := .replies i) rfl x.tweet.toJson) (fun _ => rfl)
      (fun q s v hv => ?_) id
    rw [Cache.feeds_append] at hv
    split_ifs at hv
    · exact (List.mem_append.1 hv).imp_right List.mem_singleton.1
    · exact .inl hv
  | marks x =>
    simp only [TweetPc.step]
    split_ifs
    · exact ⟨h.good_refl, hpc⟩
    · exact ⟨h.good_refl, hpc⟩
    · exact ⟨h.good_refl, trivial⟩
  | mentions x rest =>
    cases rest with
    | nil => exact ⟨h.good_refl, trivial⟩
    | cons u rest => exact good_push h hpc rfl id
  | tags x rest =>
    cases rest with
    | nil => exact ⟨h.good_refl, trivial⟩
    | cons t rest => exact good_push h hpc rfl id
  | done => exact ⟨h.good_refl, trivial⟩

/-- The statements of a like. -/
theorem good_like (h : Consistent w) {pc : LikePc} (hpc : pc.Ok w.db) :
    Good w (pc.step now w).1 ∧ (pc.step now w).2.Ok (pc.step now w).1.db := by
  have hgood : Good w (pc.step now w).1 := by
    cases pc with
    | find userId tweetId =>
      rcases tweetFind_cases tweetId w with ⟨t, hfind, -⟩ | hfind <;>
        simp only [LikePc.step, hfind] <;> exact h.good_refl
    | test userId t =>
      simp only [LikePc.step, likedBefore_eq h.wellTyped]
      exact h.good_refl
    | save userId t => exact h.incrementLikes now t
    | add userId t =>
      obtain ⟨r, hrun, ht, hv⟩ := refines_cacheLikes userId t.id w h.wellTyped
      simp only [LikePc.step, EStateM.exec_of_ok hrun]
      refine h.setRedis ht (fun s _ v hmem => .inl ?_) fun i hi => ?_
      · rwa [hv] at hmem
      · rw [hv, Cache.likers_like] at hi
        split_ifs at hi with hit
        · exact .inr (hit ▸ hpc t rfl)
        · exact .inl hi
    | done => exact h.good_refl
  obtain ⟨-, hsame, hobject⟩ := step_keeps now h.wellTyped pc
  refine ⟨hgood, fun t ht => ?_⟩
  rw [hsame]
  rcases hobject t ht with hold | hnew
  · exact hpc t hold
  · rw [hnew]
    rfl

theorem counters_new_nonneg {salt : ℕ} {form : User.Form} {u : User}
    (hu : User.new P salt now form = some u) (k : Counter) : 0 ≤ k.get u := by
  rw [counters_new hu k]

/-- The statements of registrations and follows, up to the counters. -/
theorem good_unique (h : Consistent w) {pc : UniquePc} (hpc : pc.Ok w.db)
    (hno : ∀ userId v, pc ≠ .followCount userId v) :
    Good w (pc.step P now w).1 ∧ (pc.step P now w).2.Ok (pc.step P now w).1.db := by
  cases pc with
  | create salt form =>
    cases hu : User.new P salt now form with
    | none =>
      simp only [UniquePc.step, hu]
      exact ⟨h.good_refl, trivial⟩
    | some u =>
      simp only [UniquePc.step, hu]
      exact ⟨h.good_refl, counters_new_nonneg hu⟩
  | validate u own rest ok again since =>
    cases rest with
    | cons c cs => cases own <;> exact ⟨h.good_refl, hpc⟩
    | nil =>
      cases own with
      | some i => exact ⟨h.good_refl, trivial⟩
      | none =>
        simp only [UniquePc.step]
        split_ifs with hok
        · rw [Bool.and_eq_true] at hok
          exact ⟨h.good_refl, hok.2, hpc⟩
        · exact ⟨h.good_refl, trivial⟩
        · exact ⟨h.good_refl, hpc⟩
  | insert u again since =>
    simp only [UniquePc.step]
    refine ⟨h.insertUser hpc.1 hpc.2, ?_⟩
    split_ifs <;> trivial
  | followLoad userId userName =>
    cases hv : User.findByUserName w.db userName with
    | none =>
      simp only [UniquePc.step, hv]
      exact ⟨h.good_refl, trivial⟩
    | some v =>
      simp only [UniquePc.step, hv]
      exact ⟨h.good_refl, known_of_find h (findByUserName_mem hv)⟩
  | followFollower userId v => exact ⟨h.good_refl, hpc, id⟩
  | followFollowed userId v ok =>
    refine ⟨h.good_refl, hpc.1, fun hok => hpc.2 ?_⟩
    rw [Bool.and_eq_true] at hok
    exact hok.1
  | followExists userId v ok =>
    cases userId with
    | none => exact ⟨h.good_refl, hpc.1⟩
    | some a =>
      simp only [UniquePc.step]
      split_ifs with hok
      · rw [Bool.and_eq_true, Bool.and_eq_true, decide_eq_true_eq] at hok
        exact ⟨h.good_refl, hpc.1, hpc.2 hok.1.1, hok.1.2⟩
      · exact ⟨h.good_refl, hpc.1⟩
  | followInsert a v since =>
    obtain ⟨hv, ha, hne⟩ := hpc
    obtain ⟨v', hv', -⟩ := hv.1
    have hgood := h.insertFollow ha (by rw [hv']; rfl) hne
    exact ⟨hgood, hv.stable hgood.2⟩
  | followCount userId v => exact absurd rfl (hno userId v)
  | done => exact ⟨h.good_refl, trivial⟩

/-- The statement of a follow or an unfollow that changes the rows. -/
theorem good_changeRow (h : Consistent w) (dir : Dir) (a : Option ℕ) (b : ℕ) :
    Good w ((changeRow dir a b).exec w) := by
  cases dir with
  | down => exact h.setFollows fun f hf => .inl (Table.mem_deleteWhere.1 hf).1
  | up =>
    cases a with
    | none => exact h.good_refl
    | some a =>
      have hexec : (changeRow .up (some a) b).exec w = _ := EStateM.exec_of_ok (create_eq a b)
      rw [hexec]
      split_ifs with hvalid
      · obtain ⟨ha, hb, hne, -⟩ := Follow.valid_iff.1 hvalid
        exact h.insertFollow ha hb hne
      · exact h.good_refl

/-- The statements of an unfollow, and those of a follow from the counters on. -/
theorem good_counter (h : Consistent w) {pc : CounterPc} (hpc : pc.Ok w.db) :
    Good w (pc.step P now w).1 ∧ (pc.step P now w).2.Ok (pc.step P now w).1.db := by
  cases pc with
  | tweetLoad | tweetText | tweetCreate => exact hpc.elim
  | followLoad userId userName dir =>
    cases hv : User.findByUserName w.db userName with
    | none =>
      simp only [CounterPc.step, hv]
      exact ⟨h.good_refl, trivial⟩
    | some v =>
      simp only [CounterPc.step, hv]
      exact ⟨h.good_refl, known_of_find h (findByUserName_mem hv)⟩
  | followRow userId v dir =>
    have hgood := good_changeRow h dir userId v.id
    exact ⟨hgood, Known.stable hpc hgood.2⟩
  | followFind userId v dir =>
    cases hu : userId.bind w.db.users.find with
    | none =>
      simp only [CounterPc.step, hu]
      exact ⟨h.good_refl, trivial⟩
    | some u =>
      simp only [CounterPc.step, hu]
      refine ⟨h.good_refl, fun x hx => ?_⟩
      rcases List.mem_cons.1 hx with rfl | hx
      · exact known_of_find h (eq_some_of_bind hu).2
      · rw [List.mem_singleton.1 hx]
        exact hpc
  | saving calls rest =>
    cases rest with
    | some x => exact hpc.elim
    | none =>
      cases calls with
      | nil => exact ⟨h.good_refl, trivial⟩
      | cons x xs =>
        have hgood := h.call P now (hpc x List.mem_cons_self)
        exact ⟨hgood, fun y hy => Known.stable (hpc y (List.mem_cons_of_mem x hy)) hgood.2⟩
  | done => exact ⟨h.good_refl, trivial⟩

/-- **Every statement of every request keeps the stores consistent, takes nothing away and
establishes what its thread needs next.** -/
theorem good_site (h : Consistent w) {pc : SitePc} (hpc : pc.Ok w.db) :
    Good w (pc.step P now w).1 ∧ (pc.step P now w).2.Ok (pc.step P now w).1.db := by
  cases pc with
  | tweet pc => exact good_tweet h hpc
  | like pc => exact good_like h hpc
  | counter pc => exact good_counter h hpc
  | unique pc =>
    cases pc with
    | followCount userId v =>
      have hknown : (CounterPc.followFind userId v .up).Ok w.db := hpc
      exact good_counter h hknown
    | _ => exact good_unique h hpc (by simp)

end Commands

/-! ### All interleavings -/

/-- The stores are consistent, and the threads know what they need. -/
theorem site_always (P : Platform) {w : World} (hw : Consistent w) (rs : List SiteRequest)
    (es : List (ℕ × Time)) :
    Run.Always (fire (SitePc.step P))
      (fun c => Consistent c.shared ∧ ∀ pc ∈ c.threads, pc.Ok c.shared.db) (startSite w rs) es := by
  refine Run.always_of_inv (fun c e h => ?_) ⟨hw, fun pc hpc => ?_⟩ es
  · refine rely_fire (J := Consistent) (K := fun w (pc : SitePc) => pc.Ok w.db)
      (G := fun w w' => Extends w.db w'.db) (fun w w' pc hext hpc => hpc.stable hext)
      (fun pc now w hJ hK => ?_) h e
    obtain ⟨⟨hconsistent, hextends⟩, hok⟩ : Good w (pc.step P now w).1 ∧ _ := good_site hJ hK
    exact ⟨hconsistent, hextends, hok⟩
  · obtain ⟨r, -, rfl⟩ := List.mem_map.1 hpc
    cases r with
    | like => exact fun t ht => absurd ht (by simp [LikePc.object])
    | _ => trivial

/-- **The stores stay consistent in every interleaving of all requests.** Any number of
registrations, follows, unfollows, tweets, replies and likes, interleaved statement by statement in
any way, from consistent stores on: in every state of the run both ends of every follow exist and
differ, every tweet has its author under the name it shows, no counter is negative, every
Redis key has the type that the commands expect, every entry of a feed that has an id is that
of the stored row, and only tweets that exist have likers. -/
theorem requests_consistent (P : Platform) {w : World} (hw : Consistent w)
    (rs : List SiteRequest) (es : List (ℕ × Time)) :
    Run.Always (fire (SitePc.step P)) (fun c => Consistent c.shared) (startSite w rs) es :=
  fun p hp => (site_always P hw rs es p hp).1

theorem consistent_empty : Consistent World.empty where
  wellTyped := wellTyped_empty
  complete := by simp [World.empty]
  counters := by simp [World.empty]
  authors := by simp [World.empty]
  endpoints := by simp [World.empty]
  simple := by simp [World.empty]
  entries s _ v hv := absurd hv List.not_mem_nil
  liked i hi := absurd hi Finset.not_nonempty_empty

/-- A request that nothing interferes with is an interleaving, too. -/
theorem Consistent.alone (P : Platform) {w : World} (h : Consistent w) (now : Time)
    (r : SiteRequest) : Consistent (r.alone P now w) := by
  obtain ⟨n, pc, hn, -⟩ := solo_request P now r w
  have hlast := (site_always P h [r] (List.replicate n (0, now))).last.1
  have hrun : Run.run (fire (SitePc.step P)) (startSite w [r]) (List.replicate n (0, now)) = _ :=
    run_replicate now n r.start w
  rw [hrun, hn] at hlast
  exact hlast

/-- Ann is registered and has tweeted. -/
def annTweeted : World :=
  (SiteRequest.makeTweet (some "hi") (some 1) none).alone .ascii 1
    ((SiteRequest.register 0 (.of "ann" "ann@x.org")).alone .ascii 0 World.empty)

/-- Two registrations of one name overlap, while the tweet is liked and its author is followed by
the first of the two. -/
def overlapping : Config World SitePc :=
  Run.run (fire (SitePc.step .ascii))
    (startSite annTweeted [.register 1 (.of "bob" "bob@x.org"), .register 2 (.of "bob" "eve@x.org"),
      .follow (some 2) (some "ann"), .like (some 2) (some "1")])
    (List.replicate 6 (0, 2) ++ List.replicate 6 (1, 3) ++ [(0, 4), (1, 5)] ++
      List.replicate 8 (2, 6) ++ List.replicate 4 (3, 7))

/-- Both users have the name, and the stores are consistent. -/
theorem overlapping_consistent :
    (overlapping.shared.db.users.rows.map fun r => r.attrs.userName) = ["ann", "bob", "bob"] ∧
      overlapping.shared.db.follows.rows.length = 1 ∧ Consistent annTweeted ∧
      Consistent overlapping.shared := by
  have hstart : Consistent annTweeted :=
    (consistent_empty.alone .ascii 0 _).alone .ascii 1 _
  exact ⟨by decide +kernel, by decide +kernel, hstart,
    (requests_consistent .ascii hstart _ _).last⟩

end NanoTwitter
