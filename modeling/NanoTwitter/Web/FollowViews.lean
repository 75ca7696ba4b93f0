import Mathlib.Tactic
import NanoTwitter.Model.Api
import NanoTwitter.Sequential.Delivery

/-!
# Four views of the follow graph

Whether `u` follows `v` shows in four places: in the followers of `v` and in the followings of `u`
as the API lists them, in the profile of `v` as it is shown to `u`, and in where `cache_tweet` sends
the tweets of `v`. The API lists names, the other two work with ids.

`follow_views_agree`: on the states of sequential runs all four agree, the API never lists a name
twice nor the user asked for, and it always answers. What makes names as good as ids is that the
validations keep user names apart.
-/

namespace NanoTwitter

/-- The name of user `i`. -/
def nameOf (db : Db) (i : ℕ) : Text := ((db.users.find i).map fun r => r.attrs.userName).getD []

/-- The side of a follow that `find_follows` selects by: the followed user, if it is asked for
followers. -/
def Follow.asked (followers : Bool) (f : Follow) : ℕ :=
  if followers then f.followedId else f.followerId

/-- The side of a follow that `get_names` lists. -/
def Follow.listed (followers : Bool) (f : Follow) : ℕ :=
  if followers then f.followerId else f.followedId

/-- The names on the other side of the follows of user `i`. -/
def followNames (db : Db) (followers : Bool) (i : ℕ) : List Text :=
  (db.follows.rows.filter fun f => f.attrs.asked followers = i).map fun f =>
    nameOf db (f.attrs.listed followers)

/-- The rest of `GET /user/:user_name` once `@user` and `@follow_status` are set. -/
def showProfile (path : Text) (u : Row User) (followStatus : Bool) : Handler Response := do
  let tweets ← onWorld (accessPfeed u.id)
  return .page (← render path fun session => profile session followStatus u tweets)

/-! ### Names -/

section Names

variable {P : Platform} {db : Db} (hw : Wf P db)

include hw

theorem Wf.nameOf_injOn {i j : ℕ} (hi : (db.users.find i).isSome) (hj : (db.users.find j).isSome)
    (h : nameOf db i = nameOf db j) : i = j := by
  obtain ⟨u, hu⟩ := Option.isSome_iff_exists.1 hi
  obtain ⟨v, hv⟩ := Option.isSome_iff_exists.1 hj
  obtain ⟨hum, rfl⟩ := Table.mem_of_find hu
  obtain ⟨hvm, rfl⟩ := Table.mem_of_find hv
  simp only [nameOf, hu, hv, Option.map_some, Option.getD_some] at h
  rw [hw.eq_of_userName hum hvm h]

theorem Wf.isSome_listed {f : Row Follow} (hf : f ∈ db.follows.rows) (followers : Bool) :
    (db.users.find (f.attrs.listed followers)).isSome := by
  cases followers
  · exact (hw.endpoints f hf).2
  · exact (hw.endpoints f hf).1

/-- **No name is listed twice.** -/
theorem nodup_followNames (followers : Bool) (i : ℕ) : (followNames db followers i).Nodup := by
  have hpairs := hw.pairs
  refine List.Nodup.map_on (fun f hf g hg hname => ?_) (hpairs.of_map.filter _)
  obtain ⟨hf, hfi⟩ := List.mem_filter.1 hf
  obtain ⟨hg, hgi⟩ := List.mem_filter.1 hg
  have hlisted := hw.nameOf_injOn (hw.isSome_listed hf followers)
    (hw.isSome_listed hg followers) hname
  have hasked : f.attrs.asked followers = g.attrs.asked followers :=
    (of_decide_eq_true hfi).trans (of_decide_eq_true hgi).symm
  refine List.inj_on_of_nodup_map hpairs hf hg ?_
  obtain ⟨_, ⟨a, b⟩⟩ := f
  obtain ⟨_, ⟨a', b'⟩⟩ := g
  cases followers
  · exact congrArg₂ Follow.mk hasked hlisted
  · exact congrArg₂ Follow.mk hlisted hasked

/-- The name of a user is listed if there is a follow between the two. -/
theorem mem_followNames {u : Row User} (hu : u ∈ db.users.rows) (followers : Bool) (i : ℕ) :
    u.attrs.userName ∈ followNames db followers i ↔
      ∃ f ∈ db.follows.rows, f.attrs.asked followers = i ∧ f.attrs.listed followers = u.id := by
  have hname : nameOf db u.id = u.attrs.userName := by simp [nameOf, Table.find_of_mem hu]
  unfold followNames
  simp only [List.mem_map, List.mem_filter, decide_eq_true_eq]
  constructor
  · rintro ⟨f, ⟨hf, hi⟩, hn⟩
    refine ⟨f, hf, hi, hw.nameOf_injOn (hw.isSome_listed hf followers) ?_ (hn.trans hname.symm)⟩
    rw [Table.find_of_mem hu]
    rfl
  · rintro ⟨f, hf, hi, hl⟩
    exact ⟨f, ⟨hf, hi⟩, by rw [hl, hname]⟩

theorem mem_followers {u : Row User} (hu : u ∈ db.users.rows) (i : ℕ) :
    u.attrs.userName ∈ followNames db true i ↔ Follow.exists? db u.id i = true := by
  rw [mem_followNames hw hu, Follow.exists?_iff]
  refine exists_congr fun f => and_congr_right fun _ => ?_
  obtain ⟨_, ⟨a, b⟩⟩ := f
  simp [Follow.asked, Follow.listed, and_comm]

theorem mem_followings {v : Row User} (hv : v ∈ db.users.rows) (i : ℕ) :
    v.attrs.userName ∈ followNames db false i ↔ Follow.exists? db i v.id = true := by
  rw [mem_followNames hw hv, Follow.exists?_iff]
  refine exists_congr fun f => and_congr_right fun _ => ?_
  obtain ⟨_, ⟨a, b⟩⟩ := f
  simp [Follow.asked, Follow.listed]

/-- Nobody follows itself. -/
theorem exists?_self (i : ℕ) : Follow.exists? db i i = false := by
  rw [← Bool.not_eq_true, Follow.exists?_iff]
  rintro ⟨f, hf, hfi⟩
  exact hw.simple f hf (by rw [hfi])

end Names

/-! ### The API and the profile -/

section Views

variable {P : Platform} {c : Ctx}

/-- `get_names` finds all users it looks up. -/
theorem getNames_eq {list : List (Row Follow)} {followers : Bool}
    (h : ∀ f ∈ list, (c.world.db.users.find (f.attrs.listed followers)).isSome) :
    getNames list followers c =
      .ok (.json (textsJson (list.map fun f =>
        nameOf c.world.db (f.attrs.listed followers))).render) c := by
  have hnames : (list.mapM fun item => do
      let id := if followers then item.attrs.followerId else item.attrs.followedId
      return (← onWorld (User.find (some id))).attrs.userName : Handler (List Text)) c =
      .ok (list.map fun f => nameOf c.world.db (f.attrs.listed followers)) c := by
    induction list with
    | nil => rfl
    | cons f list ih =>
      obtain ⟨u, hu⟩ := Option.isSome_iff_exists.1 (h f List.mem_cons_self)
      have hfind : onWorld (User.find (some (f.attrs.listed followers))) c = .ok u c := by
        unfold onWorld
        rw [find_ok (i := some _) hu]
      have hname : nameOf c.world.db (f.attrs.listed followers) = u.attrs.userName := by
        simp [nameOf, hu]
      have hitem : (do return (← onWorld (User.find
          (some (f.attrs.listed followers)))).attrs.userName : Handler Text) c =
          .ok u.attrs.userName c := EStateM.bind_of_ok hfind
      rw [List.mapM_cons, List.map_cons, hname]
      refine (EStateM.bind_of_ok hitem).trans ?_
      rw [EStateM.bind_of_ok (ih fun g hg => h g (List.mem_cons_of_mem f hg))]
      rfl
  unfold getNames
  rw [EStateM.bind_of_ok hnames]
  rfl

/-- **The API lists the names on the other side of a user's follows.** -/
theorem findFollows_eq (hw : Wf P c.world.db) {v : Row User} (hv : v ∈ c.world.db.users.rows)
    {params : Params} (hparams : params.userName = some (.str v.attrs.userName))
    (followers : Bool) :
    findFollows params followers c =
      .ok (.json (textsJson (followNames c.world.db followers v.id)).render) c := by
  have hids : ∀ i, i ∈ (c.world.db.users.rows.filter fun u =>
      u.attrs.userName ∈ wanted params.userName).map Row.id ↔ i = v.id := by
    intro i
    simp only [List.mem_map, List.mem_filter, decide_eq_true_eq, hparams, wanted_str,
      List.mem_singleton]
    constructor
    · rintro ⟨u, ⟨hu, hname⟩, rfl⟩
      rw [hw.eq_of_userName hu hv hname]
    · rintro rfl
      exact ⟨v, ⟨hv, rfl⟩, rfl⟩
  unfold findFollows
  rw [EStateM.bind_of_ok (runQuery_ok (by rw [hparams]; rfl) c), EStateM.bind_of_ok getDb_ok,
    hparams, hw.findByUserName_eq hv]
  dsimp only
  simp only [← hparams, hids]
  exact getNames_eq fun f hf => hw.isSome_listed (List.mem_filter.1 hf).1 followers

/-- The profile of `v` is shown to `u` with whether `u` follows `v`. -/
theorem getUser_eq (hw : Wf P c.world.db) {v : Row User} (hv : v ∈ c.world.db.users.rows) {i : ℕ}
    (hi : c.session.userId = some i) {params : Params}
    (hparams : params.userName = some (.str v.attrs.userName)) (path : Text) :
    getUser path params c = showProfile path v (Follow.exists? c.world.db i v.id) c := by
  unfold getUser
  rw [EStateM.bind_of_ok (runQuery_ok (by rw [hparams]; rfl) c), EStateM.bind_of_ok getDb_ok,
    hparams, hw.findByUserName_eq hv]
  dsimp only
  rw [EStateM.bind_of_ok getSession_ok, hi]
  rfl

/-- `cache_tweet` pushes a tweet of `v` onto the home feed of its followers, and onto no other. -/
theorem pushed_iff {w : World} (hw : Sound P w) (e : Entry) (a b : ℕ) :
    (view ((cacheTweet e b).exec w).redis).feeds (.hfeed a) =
        e.toJson :: (view w.redis).feeds (.hfeed a) ↔
      Follow.exists? w.db a b = true := by
  obtain ⟨r, hrun, -, hv⟩ := refines_cacheTweet e b w hw.wellTyped
  rw [EStateM.exec_of_ok hrun, World.redis_setRedis, hv, feeds_cacheTweet_of_ne (by simp),
    List.count_cons_of_ne (by simp), List.count_map_of_injective _ _ hfeed_injective,
    count_followersOf hw.wf.pairs]
  by_cases hex : Follow.exists? w.db a b = true
  · simp [hex]
  · simp [hex]

end Views

/-- **The four views of the follow graph agree.** After any sequential run, for all users `u` and
`v`: the API answers with the names of `v`'s followers and of `u`'s followings, each name once and
without their own; and the first holds the name of `u`, the second the name of `v`, the profile of
`v` is shown to `u` as followed, and `cache_tweet` pushes tweets of `v` onto `u`'s home feed, all or
none of these. -/
theorem follow_views_agree (P : Platform) (ops : List Op) (env : Env) (path : Text)
    (session : Session) :
    let w := after P ops
    ∀ u ∈ w.db.users.rows, ∀ v ∈ w.db.users.rows,
    ∃ (followers followings : List Text) (followStatus : Bool),
      (handle P env ⟨.getApiFollowers, path, { userName := some v.attrs.userName }⟩ ⟨w, session⟩ =
        .ok (.json (textsJson followers).render) ⟨w, session⟩ ∧
        followers.Nodup ∧ v.attrs.userName ∉ followers) ∧
      (handle P env ⟨.getApiFollowings, path, { userName := some u.attrs.userName }⟩ ⟨w, session⟩ =
        .ok (.json (textsJson followings).render) ⟨w, session⟩ ∧
        followings.Nodup ∧ u.attrs.userName ∉ followings) ∧
      handle P env ⟨.getUser, path, { userName := some v.attrs.userName }⟩ ⟨w, session.as u⟩ =
        showProfile path v followStatus ⟨w, session.as u⟩ ∧
      (u.attrs.userName ∈ followers ↔ v.attrs.userName ∈ followings) ∧
      (u.attrs.userName ∈ followers ↔ followStatus = true) ∧
      ∀ e : Entry, (u.attrs.userName ∈ followers ↔
        (view ((cacheTweet e v.id).exec w).redis).feeds (.hfeed u.id) =
          e.toJson :: (view w.redis).feeds (.hfeed u.id)) := by
  intro w u hu v hv
  have hsound : Sound P w := sound_after P ops
  have hw := hsound.wf
  refine ⟨followNames w.db true v.id, followNames w.db false u.id, Follow.exists? w.db u.id v.id,
    ⟨findFollows_eq (c := ⟨w, session⟩) hw hv rfl true, nodup_followNames hw true v.id, ?_⟩,
    ⟨findFollows_eq (c := ⟨w, session⟩) hw hu rfl false, nodup_followNames hw false u.id, ?_⟩,
    getUser_eq (c := ⟨w, session.as u⟩) hw hv rfl rfl path, ?_, mem_followers hw hu v.id,
    fun e => (mem_followers hw hu v.id).trans (pushed_iff hsound e u.id v.id).symm⟩
  · rw [mem_followers hw hv, exists?_self hw]
    exact Bool.false_ne_true
  · rw [mem_followings hw hu, exists?_self hw]
    exact Bool.false_ne_true
  · rw [mem_followers hw hu, mem_followings hw hv]

end NanoTwitter
