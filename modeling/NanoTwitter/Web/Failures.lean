import Mathlib.Tactic
import NanoTwitter.Sequential.Delivery
import NanoTwitter.Web.Orderly

/-!
# Requests that fail

A request that raises keeps what it has written until then. Almost all routes raise before they
write: they look up the users and the tweets first, and the threads of `make_tweet` raise for
themselves. Four routes write first and then may raise (`LateFailure`):

* `GET /` with the parameters of the test interface logs in by `email` or `user_name` and tweets,
  and then shows the home page of the user named by `user`, who need not exist;
* `POST /tweet/new/submit` tweets for the session's user id, and then redirects to the session's
  user name, which need not be there;
* `POST /user/follow` and `POST /user/unfollow` look up the user that `user_name` names, which may
  be an array of names, write, and then add the parameter to the text `user/`, which takes a text.

On the stores that the application reaches, these are the only failures that leave something behind
(`failsClean_iff`).
-/

namespace NanoTwitter

open EStateM (bind_of_ok bind_of_error)

/-- If the request raises, the stores are as before. -/
def FailsClean (P : Platform) (env : Env) (req : Request) (c : Ctx) : Prop :=
  ∀ e c', handle P env req c = .error e c' → c'.world = c.world

/-- The request writes, and what it does afterwards will raise. -/
def LateFailure (P : Platform) (env : Env) (req : Request) (c : Ctx) : Prop :=
  let db := c.world.db
  let params := req.params
  match req.route with
  | .getRoot =>
    (signedIn P env req c).isSome ∧ ((textOf params.randomtweet).isSome && env.randHit) = true ∧
      (∃ p, processText db.users (some env.faker) = .ok p) ∧
      User.findByUserName db params.user = none
  | .postTweetNewSubmit =>
    c.isAuthenticated = true ∧ (∃ p, processText db.users (textOf params.tweetText) = .ok p) ∧
      c.session.userName = none
  | .postUserFollow =>
    textOf params.userName = none ∧ c.isAuthenticated = true ∧
      (User.findByUserName db params.userName).isSome
  | .postUserUnfollow =>
    textOf params.userName = none ∧
      ∃ u v, c.session.userId.bind db.users.find = some u ∧
        User.findByUserName db params.userName = some v ∧
        -- otherwise there is nothing to remove and nothing to count down
        (Follow.exists? db u.id v.id = true ∨ 0 < u.attrs.followingCount ∨
          0 < v.attrs.followerCount)
  | _ => False

variable {P : Platform} {env : Env} {req : Request} {c : Ctx}

/-- A request fails clean if it answers, or has nothing to write. -/
theorem failsClean_iff_written :
    FailsClean P env req c ↔
      (∃ r c', handle P env req c = .ok r c') ∨ written P env req c = c.world := by
  have hworld := (handle_outcome P env req c).1
  unfold FailsClean
  cases h : handle P env req c with
  | ok r c' => exact iff_of_true (fun e c'' he => by cases he) (.inl ⟨r, c', rfl⟩)
  | error e c' =>
    rw [EStateM.exec_of_error h] at hworld
    rw [← hworld]
    constructor
    · intro hclean
      exact .inr (hclean e c' rfl)
    · rintro (⟨r, c'', hr⟩ | heq) e' c'' he
      · cases hr
      · cases he
        exact heq

/-! ### Tweets leave something behind -/

/-- A processed text reaches the wall of its author, so the stores change. -/
theorem makeTweet_changes (env : Env) (hw : WellTyped c.world.redis) {i : Option ℕ} {u : Row User}
    (hu : i.bind c.world.db.users.find = some u) {text : Option Text} {p : Processed}
    (hp : processText c.world.db.users text = .ok p) :
    (makeTweet P env.now text i none).exec c.world ≠ c.world := by
  intro hsame
  have hview := (view_makeTweet (P := P) env.now none hw hu hp).2
  rw [hsame] at hview
  have hlen := congrArg (fun v : Cache => (v.feeds (.pfeed u.id)).length) hview
  rw [(perm_feeds_publishedCache (by simp)).length_eq, List.length_append,
    List.length_replicate] at hlen
  have hwall : 0 < (receivers none p u.id (Follow.followersOf c.world.db u.id)).count
      (.pfeed u.id) := List.count_pos_iff.2 (by simp [receivers, firstReceivers])
  omega

/-- A text that is not processed leaves nothing. -/
theorem makeTweet_exec_unprocessed {i : Option ℕ} {text replyId : Option Text}
    (hp : ¬ ∃ p, processText c.world.db.users text = .ok p) :
    (makeTweet P env.now text i replyId).exec c.world = c.world := by
  cases hu : i.bind c.world.db.users.find with
  | none => exact makeTweet_exec_noAuthor hu
  | some u =>
    rw [makeTweet_exec hu]
    cases htext : processText c.world.db.users text with
    | ok p => exact absurd ⟨p, htext⟩ hp
    | error e => rfl

/-! ### The home page of a client that has just logged in -/

/-- The texts of tweets can be shown. -/
theorem feed_ok {tweets : List Text} (h : ∀ v ∈ tweets, ∃ e : Entry, v = e.toJson)
    (session : Session) (ffeed : Bool) : ∃ html, feed session ffeed tweets = .ok html := by
  have hitems : ∃ items, tweets.mapM feedItem = .ok items := by
    refine Except.mapM_ok_iff.2 fun v hv => ?_
    obtain ⟨e, rfl⟩ := h v hv
    unfold feedItem Entry.toJson
    rw [Json.parse_render]
    exact ⟨_, rfl⟩
  obtain ⟨items, hitems⟩ := hitems
  unfold feed
  rw [hitems]
  exact ⟨_, rfl⟩

theorem ofExcept_eq_ok {α : Type} {x : Except Error α} {a : α} {c' : Ctx} :
    ofExcept x c = .ok a c' ↔ x = .ok a ∧ c = c' := by
  cases x with
  | ok b =>
    have hrun : ofExcept (.ok b) c = .ok b c := rfl
    rw [hrun, Except.ok.injEq, EStateM.Result.ok.injEq]
  | error e =>
    have hrun : ofExcept (.error e : Except Error α) c = .error e c := rfl
    rw [hrun]
    simp

/-- A page is its template in the layout, with the navigation bar. -/
theorem render_eq_ok {path : Text} {page : Session → Except Error Page} {html : Html} {c' : Ctx} :
    render path page c = .ok html c' ↔
      ∃ pg nav, page c.session = .ok pg ∧ authenticate path c = .ok c.isAuthenticated c' ∧
        navbar c'.session c.isAuthenticated = .ok nav ∧ html = layout pg nav := by
  unfold render
  rw [bind_of_ok getSession_ok, EStateM.bind_eq_ok]
  constructor
  · rintro ⟨pg, c₁, hpage, hrest⟩
    obtain ⟨hpg, rfl⟩ := ofExcept_eq_ok.1 hpage
    obtain ⟨c₂, hauth, -⟩ := authenticate_eq path c
    rw [bind_of_ok hauth, bind_of_ok getSession_ok, EStateM.bind_eq_ok] at hrest
    obtain ⟨nav, c₃, hbar, hrest⟩ := hrest
    obtain ⟨hnav, rfl⟩ := ofExcept_eq_ok.1 hbar
    cases hrest
    exact ⟨pg, nav, hpg, hauth, hnav, rfl⟩
  · rintro ⟨pg, nav, hpg, hauth, hnav, rfl⟩
    refine ⟨pg, c, ofExcept_eq_ok.2 ⟨hpg, rfl⟩, ?_⟩
    rw [bind_of_ok hauth, bind_of_ok getSession_ok, EStateM.bind_eq_ok]
    exact ⟨nav, c', ofExcept_eq_ok.2 ⟨hnav, rfl⟩, rfl⟩

/-- A page is rendered if its template is and the session has a user name. -/
theorem render_ok (path : Text) (page : Session → Except Error Page) {pg : Page}
    (hpage : page c.session = .ok pg) (hname : c.session.userName.isSome) :
    ∃ html c', render path page c = .ok html c' := by
  obtain ⟨c', hauth, hsame⟩ := authenticate_eq path c
  obtain ⟨name, hname⟩ := Option.isSome_iff_exists.1 hname
  have hname' : c'.session.userName = some name := (congrArg Prod.snd hsame.2).trans hname
  obtain ⟨nav, hnav⟩ : ∃ nav, navbar c'.session c.isAuthenticated = .ok nav := by
    unfold navbar
    rw [hname']
    split_ifs
    · exact ⟨_, rfl⟩
    · exact ⟨_, rfl⟩
  exact ⟨_, c', render_eq_ok.2 ⟨pg, nav, hpage, hauth, hnav, rfl⟩⟩

theorem render_error {path : Text} {page : Session → Except Error Page} {e : Error}
    (hpage : page c.session = .error e) : render path page c = .error e c := by
  unfold render
  rw [bind_of_ok getSession_ok, hpage]
  rfl

/-- The home page of a user can be shown with any feed. -/
theorem myHome_ok (hw : Tidy c.world.redis) (session : Session) (u : Row User) (f : ℕ) :
    ∃ pg, myHome session (some u) ((view c.world.redis).feeds (.hfeed f)) = .ok pg := by
  obtain ⟨items, hitems⟩ := feed_ok (hw.entries (.hfeed f)) session false
  unfold myHome
  dsimp only
  rw [hitems]
  exact ⟨_, rfl⟩

/-- **The home page of a user that exists is shown to a client that is logged in.** Without the user
the template raises. -/
theorem homePage_answers_iff (hw : Tidy c.world.redis) {u : Row User}
    (hsession : c.session.identity = (some u.id, some u.attrs.userName)) (path : Text)
    (user : Option (Row User)) :
    (∃ r c', homePage path user c = .ok r c') ↔ user.isSome := by
  have hid : c.session.userId = some u.id := congrArg Prod.fst hsession
  have hname : c.session.userName = some u.attrs.userName := congrArg Prod.snd hsession
  have hfeed : onWorld (accessHfeed u.id) c =
      .ok ((view c.world.redis).feeds (.hfeed u.id)) c :=
    onWorld_of_ok (lrange_eq hw.wellTyped (s := .hfeed u.id) rfl)
  unfold homePage
  rw [bind_of_ok getSession_ok, hid]
  dsimp only
  rw [bind_of_ok hfeed]
  cases user with
  | none =>
    refine iff_of_false ?_ (by simp)
    rintro ⟨r, c', h⟩
    rw [bind_of_error (render_error (e := .noMethodError) rfl)] at h
    cases h
  | some v =>
    refine iff_of_true ?_ rfl
    obtain ⟨pg, hpage⟩ := myHome_ok hw c.session v u.id
    obtain ⟨html, c', hrender⟩ := render_ok path
      (fun session => myHome session (some v) ((view c.world.redis).feeds (.hfeed u.id))) hpage
      (by rw [hname]; rfl)
    exact ⟨_, c', bind_of_ok hrender⟩

/-! ### `GET /` -/

/-- The parameter is absent or a text. -/
def Plain (v : Option Param) : Prop := v.isSome = true → (textOf v).isSome = true

instance (v : Option Param) : Decidable (Plain v) :=
  inferInstanceAs (Decidable (v.isSome = true → (textOf v).isSome = true))

/-- The test interface returns to `GET /` once the client is logged in. -/
theorem testTwoOrThree_ok (env : Env) {params : Params} {u : Row User}
    (hgiven : (params.user.isSome && params.password.isSome) = true)
    (hrandom : Plain params.randomtweet) (h : credentials P c.world.db params = some u) :
    testTwoOrThree P env params c = .ok true ((testTwoOrThree P env params).exec c) := by
  obtain ⟨c', hc'⟩ : ∃ c', testTwoOrThree P env params c = .ok true c' := by
    unfold testTwoOrThree
    rw [if_pos hgiven, bind_of_ok (login_of_some h)]
    dsimp only
    by_cases hasked : params.randomtweet.isSome = true
    · obtain ⟨t, ht⟩ := Option.isSome_iff_exists.1 (hrandom hasked)
      rw [if_pos hasked, bind_of_ok (orRaise_ok _ ht)]
      split_ifs
      · have hu : (some u.id).bind c.world.db.users.find = some u := credentials_mem h
        have hmake : onWorld (makeTweet P env.now (some env.faker) (some u.id) none)
            { c with session := c.session.as u } = .ok () _ := onWorld_of_ok (makeTweet_ok hu)
        exact ⟨_, bind_of_ok hmake⟩
      · exact ⟨_, rfl⟩
    · rw [if_neg hasked]
      exact ⟨_, rfl⟩
  rw [EStateM.exec_of_ok hc']
  exact hc'

/-- A client that logs in with `GET /` gets the home page, with the user that the parameter `user`
names; the tweet that may come first does not change who the users are. -/
theorem getRoot_of_signedIn (hw : Orderly P c.world) {path : Text} {params : Params} {u : Row User}
    (hrandom : Plain params.randomtweet)
    (hu : signedIn P env ⟨.getRoot, path, params⟩ c = some u) :
    ∃ c', getRoot P env path params c =
        (do runQuery params.user
            homePage path (User.findByUserName (← getDb) params.user) : Handler Response) c' ∧
      Orderly P c'.world ∧ SameIdent c.world.db.users c'.world.db.users ∧
      c'.session.identity = (some u.id, some u.attrs.userName) := by
  have hcond := hu
  simp only [signedIn] at hcond
  split_ifs at hcond with h
  obtain ⟨hauth, hgiven⟩ := Bool.and_eq_true_iff.1 h
  rw [Bool.not_eq_true'] at hauth
  obtain ⟨c₁, hauthenticate, hsame⟩ := authenticate_eq path c
  have hcred : credentials P c₁.world.db params = some u := by rwa [hsame.1]
  obtain ⟨hworld, hsession⟩ := testTwoOrThree_of_some env hgiven hcred
  have hrun := testTwoOrThree_ok env hgiven hrandom hcred
  generalize (testTwoOrThree P env params).exec c₁ = c' at hrun hworld hsession
  have hwritten : c'.world = written P env ⟨.getRoot, path, params⟩ c := by
    rw [hworld, hsame.1]
    simp only [written, hu]
  refine ⟨c', ?_, hwritten ▸ orderly_written env _ hw,
    hwritten ▸ sameIdent_written env hw (by simp), hsession⟩
  unfold getRoot
  rw [bind_of_ok hauthenticate, hauth, if_neg Bool.false_ne_true, bind_of_ok hrun, if_pos rfl]

/-- After a login of the test interface the page depends on the parameter `user`. -/
theorem getRoot_answers_iff (hw : Orderly P c.world) {path : Text} {params : Params} {u : Row User}
    (hrandom : Plain params.randomtweet)
    (hu : signedIn P env ⟨.getRoot, path, params⟩ c = some u) :
    (∃ r c', getRoot P env path params c = .ok r c') ↔
      (User.findByUserName c.world.db params.user).isSome := by
  obtain ⟨c', hroot, horderly, hident, hsession⟩ := getRoot_of_signedIn hw hrandom hu
  rw [hroot, ← hident.isSome_findByUserName]
  cases hquery : queryError params.user with
  | none =>
    rw [bind_of_ok (runQuery_ok hquery c'), bind_of_ok getDb_ok,
      homePage_answers_iff horderly.tidy hsession]
  | some e =>
    rw [bind_of_error (runQuery_error hquery c'), findByUserName_of_queryError _ hquery]
    simp

theorem failsClean_getRoot (hw : Orderly P c.world) (path : Text) (params : Params) :
    FailsClean P env ⟨.getRoot, path, params⟩ c ↔
      ¬ LateFailure P env ⟨.getRoot, path, params⟩ c := by
  rw [failsClean_iff_written]
  simp only [LateFailure, written]
  cases hu : signedIn P env ⟨.getRoot, path, params⟩ c with
  | none => simp
  | some u =>
    by_cases htweets : ((textOf params.randomtweet).isSome && env.randHit) = true
    · have hrandom : Plain params.randomtweet := fun _ => (Bool.and_eq_true_iff.1 htweets).1
      by_cases hp : ∃ p, processText c.world.db.users (some env.faker) = .ok p
      · have hfind : (some u.id).bind c.world.db.users.find = some u := by
          simp only [signedIn] at hu
          split_ifs at hu
          exact credentials_mem hu
        obtain ⟨p, htext⟩ := hp
        have hchange := makeTweet_changes (P := P) env hw.tidy.wellTyped hfind htext
        simp only [handle, getRoot_answers_iff hw hrandom hu, htweets, if_true, hchange, or_false]
        simp [htext, ← Option.isNone_iff_eq_none]
      · simp [htweets, hp, makeTweet_exec_unprocessed hp]
    · simp [htweets]

/-! ### The writing routes -/

theorem failsClean_postTweetNewSubmit (hw : Orderly P c.world) (path : Text) (params : Params) :
    FailsClean P env ⟨.postTweetNewSubmit, path, params⟩ c ↔
      ¬ LateFailure P env ⟨.postTweetNewSubmit, path, params⟩ c := by
  rw [failsClean_iff_written]
  simp only [LateFailure, written, Ctx.isAuthenticated]
  cases hu : c.session.userId.bind c.world.db.users.find with
  | none => simp [makeTweet_exec_noAuthor hu]
  | some u =>
    by_cases hp : ∃ p, processText c.world.db.users (textOf params.tweetText) = .ok p
    · obtain ⟨p, htext⟩ := hp
      have hchange := makeTweet_changes (P := P) env hw.tidy.wellTyped hu htext
      obtain ⟨w', hmake⟩ : ∃ w', makeTweet P env.now (textOf params.tweetText) c.session.userId
          none c.world = .ok () w' := ⟨_, makeTweet_ok hu⟩
      have hrun : handle P env ⟨.postTweetNewSubmit, path, params⟩ c =
          (orRaise .typeError c.session.userName >>= fun name =>
            pure (.redirect (("user/" : Text) ++ name)) : Handler Response)
              { c with world := w' } :=
        (bind_of_ok getSession_ok).trans (bind_of_ok (onWorld_of_ok hmake))
      rw [hrun]
      cases hname : c.session.userName with
      | none =>
        refine iff_of_false ?_ (by simp [htext])
        rintro (⟨r, c', h⟩ | h)
        · cases h
        · exact hchange h
      | some name => exact iff_of_true (.inl ⟨_, _, rfl⟩) (by simp)
    · simp [hp, makeTweet_exec_unprocessed hp]

section Both

variable {w : World} {now : Ruby.Time} {i : Option ℕ} {n : Option Param} {u v : Row User}

/-- A follow that finds both users counts, whether or not its row is stored. -/
theorem follow_changes (hw : Wf P w.db) (hu : i.bind w.db.users.find = some u)
    (hv : User.findByUserName w.db n = some v) : (follow P now i n).exec w ≠ w := by
  intro hsame
  have hfind : (w.db.users.find u.id).isSome := by rw [(eq_some_of_bind hu).2]; rfl
  rw [EStateM.exec_of_ok (follow_ok hw hu hv)] at hsame
  have hcount := congrArg (fun w : World => count .followings w.db.users u.id) hsame
  rw [World.users_setUsers, count_bump_of_ne (.inl (by decide)), count_bump hfind,
    if_pos ⟨rfl, rfl⟩] at hcount
  omega

/-- An unfollow that finds both users removes a follow, or counts down, if it can. -/
theorem unfollow_changes (hw : Wf P w.db) (hu : i.bind w.db.users.find = some u)
    (hv : User.findByUserName w.db n = some v)
    (hchange : Follow.exists? w.db u.id v.id = true ∨ 0 < u.attrs.followingCount ∨
      0 < v.attrs.followerCount) : (unfollow P now i n).exec w ≠ w := by
  intro hsame
  have hfu := (eq_some_of_bind hu).2
  have hfv := findByUserName_mem hv
  rw [EStateM.exec_of_ok (unfollow_ok hw hu hv)] at hsame
  have hcount : ∀ k a, count k (lower now .followers v (lower now .followings u w.db.users)) a =
      count k w.db.users a := fun k a =>
    congrArg (fun w : World => count k w.db.users a) hsame
  rcases hchange with hexists | hpos | hpos
  · obtain ⟨f, hf, hpair⟩ := List.any_eq_true.1 hexists
    have hrows := congrArg (fun w : World => w.db.follows.rows) hsame
    rw [← show _ = w.db.follows.rows from hrows] at hf
    have hgone := (Table.mem_deleteWhere.1 hf).2
    rw [hpair] at hgone
    exact absurd hgone (by decide)
  · have hu' := hcount .followings u.id
    rw [count_lower_of_ne (by decide), count_lower (by rw [hfu]; rfl),
      if_pos ⟨rfl, rfl, hpos⟩] at hu'
    omega
  · have hv' := hcount .followers v.id
    rw [count_lower (by rw [isSome_find_lower, hfv]; rfl), count_lower_of_ne (by decide),
      if_pos ⟨rfl, rfl, hpos⟩] at hv'
    omega

/-- With no follow to remove and both counters down it leaves the stores alone. -/
theorem unfollow_idle (hw : Wf P w.db) (hu : i.bind w.db.users.find = some u)
    (hv : User.findByUserName w.db n = some v) (hexists : ¬ Follow.exists? w.db u.id v.id = true)
    (hfollowing : ¬ 0 < u.attrs.followingCount) (hfollower : ¬ 0 < v.attrs.followerCount) :
    (unfollow P now i n).exec w = w := by
  have hfollows : (w.db.follows.deleteWhere fun f =>
      f.attrs.followerId = u.id ∧ f.attrs.followedId = v.id) = w.db.follows := by
    refine Table.ext (List.filter_eq_self.2 fun f hf => ?_) rfl
    rw [Bool.not_eq_true']
    by_contra hpair
    exact hexists (List.any_eq_true.2 ⟨f, hf, by simpa using hpair⟩)
  have husers : lower now .followers v (lower now .followings u w.db.users) = w.db.users := by
    have hlow : lower now .followings u w.db.users = w.db.users := if_neg hfollowing
    rw [hlow]
    exact if_neg hfollower
  rw [EStateM.exec_of_ok (unfollow_ok hw hu hv), hfollows, husers]
  rfl

theorem unfollow_exec_eq_iff (hw : Wf P w.db) (hu : i.bind w.db.users.find = some u)
    (hv : User.findByUserName w.db n = some v) :
    (unfollow P now i n).exec w = w ↔
      ¬ (Follow.exists? w.db u.id v.id = true ∨ 0 < u.attrs.followingCount ∨
        0 < v.attrs.followerCount) := by
  constructor
  · exact fun hsame hchange => unfollow_changes hw hu hv hchange hsame
  · intro hnothing
    rw [not_or, not_or] at hnothing
    exact unfollow_idle hw hu hv hnothing.1 hnothing.2.1 hnothing.2.2

end Both

/-- What is left of a route that writes and then adds `user_name` to a text. -/
theorem named_redirect_answers_iff (params : Params) {p : Prog Unit} {w : World}
    (h : p c.world = .ok () w) :
    (∃ r c', (do
        onWorld p
        let name ← orRaise .typeError (textOf params.userName)
        return .redirect (("user/" : Text) ++ name) : Handler Response) c = .ok r c') ↔
      textOf params.userName ≠ none := by
  rw [bind_of_ok (onWorld_of_ok h)]
  cases textOf params.userName with
  | none => exact iff_of_false (fun ⟨r, c', h⟩ => by cases h) (fun h => h rfl)
  | some name => exact iff_of_true ⟨_, _, rfl⟩ (by simp)

theorem failsClean_postUserFollow (hw : Orderly P c.world) (path : Text) (params : Params) :
    FailsClean P env ⟨.postUserFollow, path, params⟩ c ↔
      ¬ LateFailure P env ⟨.postUserFollow, path, params⟩ c := by
  rw [failsClean_iff_written]
  simp only [LateFailure, written, Ctx.isAuthenticated]
  cases hu : c.session.userId.bind c.world.db.users.find with
  | none => simp [follow_exec_nobody (.inl hu)]
  | some u =>
    cases hv : User.findByUserName c.world.db params.userName with
    | none => simp [follow_exec_nobody (.inr hv)]
    | some v =>
      have hfollow : follow P env.now c.session.userId params.userName c.world = _ :=
        follow_ok hw.wf hu hv
      have hrun : handle P env ⟨.postUserFollow, path, params⟩ c = _ := bind_of_ok getSession_ok
      rw [hrun, named_redirect_answers_iff params hfollow, or_iff_left (follow_changes hw.wf hu hv)]
      simp

theorem failsClean_postUserUnfollow (hw : Orderly P c.world) (path : Text) (params : Params) :
    FailsClean P env ⟨.postUserUnfollow, path, params⟩ c ↔
      ¬ LateFailure P env ⟨.postUserUnfollow, path, params⟩ c := by
  rw [failsClean_iff_written]
  simp only [LateFailure, written]
  cases hu : c.session.userId.bind c.world.db.users.find with
  | none => simp [unfollow_exec_nobody hw.wf (.inl hu)]
  | some u =>
    cases hv : User.findByUserName c.world.db params.userName with
    | none => simp [unfollow_exec_nobody hw.wf (.inr hv)]
    | some v =>
      have hunfollow : unfollow P env.now c.session.userId params.userName c.world = _ :=
        unfollow_ok hw.wf hu hv
      have hrun : handle P env ⟨.postUserUnfollow, path, params⟩ c = _ := bind_of_ok getSession_ok
      rw [hrun, named_redirect_answers_iff params hunfollow, unfollow_exec_eq_iff hw.wf hu hv]
      simp only [Option.some.injEq, exists_and_left, exists_eq_left', not_and_or]

/-- A route that runs one operation and then answers fails clean if the operation does. -/
theorem answers_or_written {α : Type} {p : Prog α} {f : α → Response}
    (h : (∃ a w, p c.world = .ok a w) ∨ p.exec c.world = c.world) :
    (∃ r c', (do return f (← onWorld p) : Handler Response) c = .ok r c') ∨
      p.exec c.world = c.world := by
  refine h.imp_left ?_
  rintro ⟨a, w, hrun⟩
  exact ⟨f a, _, bind_of_ok (onWorld_of_ok hrun)⟩

theorem makeTweet_answers_or (now : Ruby.Time) (text : Option Text) (i : Option ℕ)
    (replyId : Option Text) (w : World) :
    (∃ a w', makeTweet P now text i replyId w = .ok a w') ∨
      (makeTweet P now text i replyId).exec w = w := by
  cases hu : i.bind w.db.users.find with
  | none => exact .inr (makeTweet_exec_noAuthor hu)
  | some u => exact .inl ⟨_, _, makeTweet_ok hu⟩

theorem like_answers_or {w : World} (hw : WellTyped w.redis) (now : Ruby.Time) (i : Option ℕ)
    (tweetId : Option Text) :
    (∃ a w', like now i tweetId w = .ok a w') ∨ (like now i tweetId).exec w = w := by
  rcases like_cases hw now i tweetId with ⟨e, he⟩ | ⟨j, t, r, hrun, -⟩
  · exact .inr (EStateM.exec_of_error he)
  · exact .inl ⟨_, _, hrun⟩

/-- **On orderly stores a request fails clean, unless it fails late.** -/
theorem failsClean_iff (hw : Orderly P c.world) (req : Request) :
    FailsClean P env req c ↔ ¬ LateFailure P env req c := by
  obtain ⟨route, path, params⟩ := req
  cases route with
  | getRoot => exact failsClean_getRoot hw path params
  | postTweetNewSubmit => exact failsClean_postTweetNewSubmit hw path params
  | postRegistrationSubmit =>
    refine iff_of_true (failsClean_iff_written.2 (.inl ?_)) id
    cases h : registered P env.now env.salt (params.form P) c.world.db with
    | some u => exact ⟨_, _, bind_of_ok (onWorld_of_ok (register_of_some h))⟩
    | none => exact ⟨_, _, bind_of_ok (onWorld_of_ok (register_of_none h))⟩
  | postUserFollow => exact failsClean_postUserFollow hw path params
  | postUserUnfollow => exact failsClean_postUserUnfollow hw path params
  | postTweetReply =>
    exact iff_of_true (failsClean_iff_written.2 (answers_or_written (makeTweet_answers_or env.now
      (textOf params.tweetText) _ (params.replyId.map (Param.toS P)) _))) id
  | postTweetLike =>
    exact iff_of_true (failsClean_iff_written.2
      (answers_or_written (like_answers_or hw.tidy.wellTyped env.now _ (textOf params.tweetId)))) id
  | postApiNewTweet =>
    refine iff_of_true (failsClean_iff_written.2 ?_) id
    simp only [written]
    cases hu : User.findByUserName c.world.db params.userName with
    | none => exact .inr rfl
    | some u =>
      have hrun : handle P env ⟨.postApiNewTweet, path, params⟩ c =
          (do onWorld (makeTweet P env.now (textOf params.text) (some u.id) none)
              return .json (Json.str "success").render : Handler Response) c :=
        (bind_of_ok getDb_ok).trans (bind_of_ok (orRaise_ok _ hu))
      rw [hrun]
      exact answers_or_written (makeTweet_answers_or env.now (textOf params.text) _ none _)
  | _ => exact iff_of_true (failsClean_iff_written.2 (.inr rfl)) id

/-! ### Runs -/

/-- **A request that fails changes nothing, unless it fails late**: in every state that the
application reaches, and for every session. -/
theorem failed_request_changes_nothing_iff (P : Platform) (es : List Event) (session : Session)
    (env : Env) (req : Request) :
    let c : Ctx := ⟨(Run.run (serve P) (Site.opened World.empty) es).world, session⟩
    FailsClean P env req c ↔ ¬ LateFailure P env req c :=
  failsClean_iff ((always_orderly (s := Site.opened World.empty) (orderly_empty P) es).last) req

/-- A client registers as `ann`. -/
def annRegisters : Event :=
  ⟨0, ⟨0, 0, false, []⟩, .postRegistrationSubmit, "/registration/submit",
    { name := some "Ann", email := some "ann@x.org", userName := some "ann",
      password := some "secret" }⟩

/-- Another client calls `GET /` with the email and the password of `ann`, asks for a random tweet,
and misspells the user. -/
def misspelledUser : Request :=
  ⟨.getRoot, "/",
    { user := some "anna", email := some "ann@x.org", password := some "secret",
      randomtweet := some "100" }⟩

/-- The request raises, and the tweet is stored. -/
theorem failed_request_tweets :
    let c : Ctx := ⟨(Run.run (serve .ascii) (Site.opened World.empty) [annRegisters]).world,
      Session.new⟩
    let env : Env := ⟨1, 0, true, "hi"⟩
    (∃ e c', handle .ascii env misspelledUser c = .error e c' ∧
      c.world.db.tweets.rows.length = 0 ∧ c'.world.db.tweets.rows.length = 1) ∧
      ¬ FailsClean .ascii env misspelledUser c := by
  intro c env
  have hraises : ((handle .ascii env misspelledUser).value? c).isNone = true := by decide +kernel
  have hbefore : c.world.db.tweets.rows.length = 0 := by decide +kernel
  have hafter : ((handle .ascii env misspelledUser).exec c).world.db.tweets.rows.length = 1 := by
    decide +kernel
  cases h : handle .ascii env misspelledUser c with
  | ok r c' =>
    rw [EStateM.value?_of_ok h] at hraises
    exact Bool.noConfusion hraises
  | error e c' =>
    rw [EStateM.exec_of_error h] at hafter
    refine ⟨⟨e, c', rfl, hbefore, hafter⟩, fun hclean => ?_⟩
    rw [hclean e c' h, hbefore] at hafter
    exact absurd hafter (by decide)

end NanoTwitter
