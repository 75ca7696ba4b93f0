import Mathlib.Tactic
import NanoTwitter.Web.Failures

/-!
# Who is shown on the home page

`GET /` shows `my_home` to clients that are logged in, and to clients that log in with the query.
In the second case three things are read from different places: `login` looks for the parameters
`email` and `user_name`, the feed is that of the session's user, and the name and the counters are
those of the user that the parameter `user` names. `rightHome_iff` says on which requests they
belong to the same user, and to the right one.
-/

namespace NanoTwitter

open EStateM

/-- The answer to `GET /` is the home page of the user `u` with the home feed of the user `f`. The
feed is that of the session's user. -/
def ShowsHome (P : Platform) (env : Env) (path : Text) (params : Params) (c : Ctx) (u f : ℕ) :
    Prop :=
  ∃ r pg nav c', getRoot P env path params c = .ok (.page (layout pg nav)) c' ∧
    c'.world.db.users.find u = some r ∧ c'.session.userId = some f ∧
    myHome c'.session (some r) ((view c'.world.redis).feeds (.hfeed f)) = .ok pg

/-- Whose home page a request is for: that of the session's user, or else that of the user whose
name and password the query has. -/
def homeUser (P : Platform) (params : Params) (c : Ctx) : Option (Row User) :=
  match c.session.userId.bind c.world.db.users.find with
  | some u => some u
  | none =>
    if params.user.isSome && params.password.isSome then
      (User.findByUserName c.world.db params.user).filter fun u => passwordOk P u params.password
    else none

/-- **The home page shows one person, the right one.** -/
def RightHome (P : Platform) (env : Env) (path : Text) (params : Params) (c : Ctx) : Prop :=
  ((∃ u f, ShowsHome P env path params c u f) ↔ (homeUser P params c).isSome) ∧
    ∀ u f, ShowsHome P env path params c u f →
      (homeUser P params c).map Row.id = some u ∧ f = u

/-- When a request gets the right home page. A session with a user needs the user's name as well. A
query with a registered `user` and a password needs an email or a name with which the password is
right if and only if it is `user`'s, and then that user's; `randomtweet` has to be a text, if it is
given. -/
def AsksRight (P : Platform) (params : Params) (c : Ctx) : Prop :=
  match c.session.userId.bind c.world.db.users.find with
  | some _ => c.session.userName.isSome
  | none => (params.user.isSome && params.password.isSome) = true →
      ∀ u, User.findByUserName c.world.db params.user = some u →
        (if Plain params.randomtweet then credentials P c.world.db params else none) =
          (some u).filter fun u => passwordOk P u params.password

variable {P : Platform} {env : Env} {c : Ctx}

/-! ### Pages -/

theorem authenticate_of_isAuthenticated (h : c.isAuthenticated = true) (path : Text) :
    authenticate path c = .ok true c := by
  unfold authenticate
  rw [bind_of_ok getSession_ok, bind_of_ok getDb_ok]
  exact congrFun (if_pos h) c

/-- The home page of a client that is logged in. -/
theorem homePage_eq_ok (h : c.isAuthenticated = true) (hw : WellTyped c.world.redis) {f : ℕ}
    (hid : c.session.userId = some f) {path : Text} {user : Option (Row User)} {r : Response}
    {c' : Ctx} :
    homePage path user c = .ok r c' ↔
      c' = c ∧ ∃ pg nav, myHome c.session user ((view c.world.redis).feeds (.hfeed f)) = .ok pg ∧
        navbar c.session true = .ok nav ∧ r = .page (layout pg nav) := by
  have hfeed : onWorld (accessHfeed f) c = .ok ((view c.world.redis).feeds (.hfeed f)) c :=
    onWorld_of_ok (lrange_eq hw (s := .hfeed f) rfl)
  have hauth := authenticate_of_isAuthenticated h path
  unfold homePage
  rw [bind_of_ok getSession_ok, hid]
  dsimp only
  rw [bind_of_ok hfeed, EStateM.bind_eq_ok]
  constructor
  · rintro ⟨html, c₁, hrender, hpure⟩
    obtain ⟨pg, nav, hpage, hauth', hnav, rfl⟩ := render_eq_ok.1 hrender
    cases hpure
    rw [h, hauth] at hauth'
    cases hauth'
    rw [h] at hnav
    exact ⟨rfl, pg, nav, hpage, hnav, rfl⟩
  · rintro ⟨rfl, pg, nav, hpage, hnav, rfl⟩
    refine ⟨layout pg nav, c', render_eq_ok.2 ⟨pg, nav, hpage, ?_, by rw [h, hnav], rfl⟩, rfl⟩
    rw [h, hauth]

theorem navbar_eq_ok {s : Session} : (∃ nav, navbar s true = .ok nav) ↔ s.userName.isSome := by
  unfold navbar
  cases s.userName with
  | none => simp [throw, throwThe, MonadExceptOf.throw]
  | some name => simp [pure, Except.pure]

/-- The name of the user stands in the title of the page. -/
theorem userName_of_layout {s s' : Session} {u v : Row User} {ts ts' : List Text} {pg pg' : Page}
    {nav nav' : Html} (hu : myHome s (some u) ts = .ok pg) (hv : myHome s' (some v) ts' = .ok pg')
    (h : layout pg nav = layout pg' nav') : u.attrs.userName = v.attrs.userName := by
  have hhead : ∀ {s : Session} {u : Row User} {ts : List Text} {pg : Page},
      myHome s (some u) ts = .ok pg →
      pg.head = [.lit .myHome 0, .out u.attrs.userName, .lit .myHome 1] := by
    intro s u ts pg hpg
    obtain ⟨items, -, hpg⟩ := Except.bind_eq_ok.1 hpg
    cases hpg
    rfl
  unfold layout at h
  rw [hhead hu, hhead hv] at h
  simp only [List.append_assoc, List.cons_append, List.nil_append, List.cons.injEq,
    Piece.out.injEq, true_and] at h
  exact h.1

/-- The front page is not the home page. -/
theorem layout_home_ne {s s' : Session} {u : Row User} {b : Bool} {ts ts' : List Text}
    {pg pg' : Page} {nav nav' : Html} (hu : myHome s (some u) ts = .ok pg)
    (hv : home s' b ts' = .ok pg') : layout pg nav ≠ layout pg' nav' := by
  obtain ⟨items, -, hpg⟩ := Except.bind_eq_ok.1 hu
  obtain ⟨items', -, hpg'⟩ := Except.bind_eq_ok.1 hv
  cases hpg
  cases hpg'
  simp [layout]

/-! ### Requests -/

/-- What a request shows that is answered with the home page. -/
theorem showsHome_iff_of_homePage {path : Text} {params : Params} {c₁ : Ctx}
    (horderly : Orderly P c₁.world) {f : ℕ} (hid : c₁.session.userId = some f)
    (hf : (c₁.world.db.users.find f).isSome) {user : Option (Row User)}
    (hmem : ∀ r, user = some r → c₁.world.db.users.find r.id = some r)
    (hroot : getRoot P env path params c = homePage path user c₁) (u g : ℕ) :
    ShowsHome P env path params c u g ↔
      user.map Row.id = some u ∧ g = f ∧ c₁.session.userName.isSome := by
  have hauth : c₁.isAuthenticated = true := by
    rw [Ctx.isAuthenticated, hid]
    exact hf
  unfold ShowsHome
  simp only [hroot, homePage_eq_ok hauth horderly.tidy.wellTyped hid]
  constructor
  · rintro ⟨r, pg, nav, c', ⟨rfl, pg', nav', hpage, hnav, hresp⟩, hr, hg, hpg⟩
    have hg : f = g := Option.some.inj (hid.symm.trans hg)
    refine ⟨?_, hg.symm, navbar_eq_ok.1 ⟨nav', hnav⟩⟩
    cases user with
    | none => exact absurd hpage (by simp [myHome, throw, throwThe, MonadExceptOf.throw])
    | some v =>
      have hname := userName_of_layout hpg hpage (Response.page.inj hresp)
      have hrow := horderly.wf.eq_of_userName (Table.mem_of_find hr).1
        (Table.mem_of_find (hmem v rfl)).1 hname
      rw [Option.map_some, ← hrow, (Table.mem_of_find hr).2]
  · rintro ⟨huser, rfl, hname⟩
    obtain ⟨r, rfl, rfl⟩ := Option.map_eq_some_iff.1 huser
    obtain ⟨nav, hnav⟩ := navbar_eq_ok.2 hname
    obtain ⟨pg, hpage⟩ := myHome_ok horderly.tidy c₁.session r g
    exact ⟨r, pg, nav, c₁, ⟨rfl, pg, nav, hpage, hnav, rfl⟩, hmem r rfl, hid, hpage⟩

/-- The test interface lets a request through that logs in and asks for no tweet, or with a text. -/
theorem testTwoOrThree_eq_true {params : Params} {c' : Ctx}
    (h : testTwoOrThree P env params c = .ok true c') :
    (params.user.isSome && params.password.isSome) = true ∧
      (credentials P c.world.db params).isSome ∧ Plain params.randomtweet := by
  unfold testTwoOrThree at h
  by_cases hgiven : (params.user.isSome && params.password.isSome) = true
  · rw [if_pos hgiven] at h
    cases hcred : credentials P c.world.db params with
    | none =>
      rcases login_of_none hcred with ⟨r, hr, hlogin⟩ | ⟨e, hlogin⟩
      · rw [bind_of_ok hlogin] at h
        cases r with
        | session => exact absurd rfl hr
        | nil | false => cases h
      · rw [bind_of_error hlogin] at h
        cases h
    | some v =>
      refine ⟨hgiven, rfl, fun hasked => ?_⟩
      rw [bind_of_ok (login_of_some hcred)] at h
      dsimp only at h
      rw [if_pos hasked] at h
      cases htext : textOf params.randomtweet with
      | some t => rfl
      | none =>
        rw [bind_of_error (orRaise_error _ htext)] at h
        cases h
  · rw [if_neg hgiven] at h
    cases h

/-- A client that neither is logged in nor gets through does not see a home page. -/
theorem not_showsHome {path : Text} {params : Params} (hauth : c.isAuthenticated = false)
    (hsign : signedIn P env ⟨.getRoot, path, params⟩ c = none ∨ ¬ Plain params.randomtweet)
    (u f : ℕ) : ¬ ShowsHome P env path params c u f := by
  obtain ⟨c₁, hrun, hsame⟩ := authenticate_eq path c
  rintro ⟨r, pg, nav, c', hpage, -, -, hpg⟩
  unfold getRoot at hpage
  rw [bind_of_ok hrun, hauth, if_neg Bool.false_ne_true] at hpage
  obtain ⟨b, c₂, htest, hpage⟩ := EStateM.bind_eq_ok.1 hpage
  cases b with
  | true =>
    obtain ⟨hgiven, hcred, hplain⟩ := testTwoOrThree_eq_true htest
    rcases hsign with hsign | hsign
    · rw [hsame.1] at hcred
      simp only [signedIn, hauth, hgiven, Bool.not_false, Bool.and_self, if_true] at hsign
      rw [hsign] at hcred
      exact absurd hcred (by simp)
    · exact hsign hplain
  | false =>
    rw [if_neg Bool.false_ne_true] at hpage
    unfold frontPage at hpage
    obtain ⟨tweets, c₃, -, hpage⟩ := EStateM.bind_eq_ok.1 hpage
    obtain ⟨html, c₄, hrender, hpure⟩ := EStateM.bind_eq_ok.1 hpage
    obtain ⟨pg', nav', hhome, -, -, rfl⟩ := render_eq_ok.1 hrender
    have hresp : Response.page (layout pg' nav') = .page (layout pg nav) :=
      (EStateM.Result.ok.inj hpure).1
    exact layout_home_ne hpg hhome (Response.page.inj hresp).symm

/-- What a request shows that logs in: the user that `user` names, with the feed of the user that
has logged in. -/
theorem showsHome_iff_of_signedIn (hw : Orderly P c.world) {path : Text} {params : Params}
    (hrandom : Plain params.randomtweet) {v : Row User}
    (h : signedIn P env ⟨.getRoot, path, params⟩ c = some v) (u g : ℕ) :
    ShowsHome P env path params c u g ↔
      (User.findByUserName c.world.db params.user).map Row.id = some u ∧ g = v.id := by
  obtain ⟨c₁, hroot, horderly, hident, hsession⟩ := getRoot_of_signedIn hw hrandom h
  cases hquery : queryError params.user with
  | some e =>
    -- the query cannot be written, and nobody would be found
    rw [bind_of_error (runQuery_error hquery c₁)] at hroot
    rw [findByUserName_of_queryError _ hquery]
    refine iff_of_false ?_ (by simp)
    rintro ⟨r, pg, nav, c', hpage, -⟩
    rw [hroot] at hpage
    cases hpage
  | none =>
    rw [bind_of_ok (runQuery_ok hquery c₁), bind_of_ok getDb_ok] at hroot
    have hid : c₁.session.userId = some v.id := congrArg Prod.fst hsession
    have hname : c₁.session.userName = some v.attrs.userName := congrArg Prod.snd hsession
    have hcred : credentials P c.world.db params = some v := by
      simp only [signedIn] at h
      split_ifs at h
      exact h
    obtain ⟨r, hr, -⟩ := hident.find (credentials_mem hcred)
    have hsame : (User.findByUserName c₁.world.db params.user).map Row.id =
        (User.findByUserName c.world.db params.user).map Row.id := by
      simpa [Function.comp_def, Row.who] using
        congrArg (Option.map Prod.fst) (hident.map_findByUserName params.user)
    rw [showsHome_iff_of_homePage horderly hid (by rw [hr]; rfl)
      (fun u hu => findByUserName_mem hu) hroot, hsame, hname]
    simp

theorem rightHome_iff_of_session (hw : Orderly P c.world) {r : Row User}
    (h : c.session.userId.bind c.world.db.users.find = some r) (path : Text) (params : Params) :
    RightHome P env path params c ↔ c.session.userName.isSome := by
  obtain ⟨i, hid, hr⟩ := Option.bind_eq_some_iff.1 h
  obtain ⟨-, rfl⟩ := Table.mem_of_find hr
  have hauth : c.isAuthenticated = true := by rw [Ctx.isAuthenticated, h]; rfl
  have hroot : getRoot P env path params c = homePage path (some r) c := by
    unfold getRoot
    rw [bind_of_ok (authenticate_of_isAuthenticated hauth path), if_pos rfl,
      bind_of_ok getSession_ok, bind_of_ok getDb_ok, h]
  have hshows :=
    showsHome_iff_of_homePage hw hid (by rw [hr]; rfl) (by rintro r' ⟨⟩; exact hr) hroot
  simp only [RightHome, homeUser, h, hshows]
  simp

/-- Without a session user, the login with the query decides. -/
theorem rightHome_iff_of_query (hw : Orderly P c.world)
    (h : c.session.userId.bind c.world.db.users.find = none) (path : Text) {params : Params}
    (hgiven : (params.user.isSome && params.password.isSome) = true) :
    RightHome P env path params c ↔
      ∀ u, User.findByUserName c.world.db params.user = some u →
        (if Plain params.randomtweet then credentials P c.world.db params else none) =
          (some u).filter fun u => passwordOk P u params.password := by
  have hauth : c.isAuthenticated = false := by rw [Ctx.isAuthenticated, h]; rfl
  have hsign : signedIn P env ⟨.getRoot, path, params⟩ c = credentials P c.world.db params := by
    simp [signedIn, hauth, hgiven]
  have hhome : homeUser P params c = (User.findByUserName c.world.db params.user).filter fun u =>
      passwordOk P u params.password := by
    simp only [homeUser, h, hgiven, if_true]
  unfold RightHome
  rw [hhome]
  cases hcred : if Plain params.randomtweet then credentials P c.world.db params else none with
  | none =>
    have hno : ∀ u f, ¬ ShowsHome P env path params c u f := not_showsHome hauth (by
      rw [hsign]
      by_cases hplain : Plain params.randomtweet
      · exact .inl ((if_pos hplain).symm.trans hcred)
      · exact .inr hplain)
    simp only [hno, exists_false, false_iff, false_implies, implies_true, and_true]
    cases hu : User.findByUserName c.world.db params.user with
    | none => simp
    | some u => cases hok : passwordOk P u params.password <;> simp [hok, Option.filter_some]
  | some v =>
    obtain ⟨hplain, hcred⟩ : Plain params.randomtweet ∧
        credentials P c.world.db params = some v := by
      split_ifs at hcred with hplain
      exact ⟨hplain, hcred⟩
    simp only [showsHome_iff_of_signedIn hw hplain (hsign.trans hcred)]
    cases hu : User.findByUserName c.world.db params.user with
    | none => simp
    | some u =>
      have hrow : v.id = u.id ↔ v = u := by
        refine ⟨fun hid => ?_, fun h => by rw [h]⟩
        have hfind := credentials_mem hcred
        rw [hid, findByUserName_mem hu] at hfind
        exact (Option.some.inj hfind).symm
      cases hok : passwordOk P u params.password with
      | false => simp [hok, Option.filter_some]
      | true => simp [hok, hrow, Option.filter_some]

/-- **The home page is the right one exactly for the requests that ask for it in the right way.** -/
theorem rightHome_iff (P : Platform) (es : List Event) (session : Session) (env : Env)
    (path : Text) (params : Params) :
    RightHome P env path params ⟨(Site.reached P es).world, session⟩ ↔
      AsksRight P params ⟨(Site.reached P es).world, session⟩ := by
  have hw : Orderly P (Ctx.mk (Site.reached P es).world session).world := orderly_reached P es
  generalize (⟨(Site.reached P es).world, session⟩ : Ctx) = c at hw
  unfold AsksRight
  cases h : c.session.userId.bind c.world.db.users.find with
  | some r => exact rightHome_iff_of_session hw h path params
  | none =>
    by_cases hgiven : (params.user.isSome && params.password.isSome) = true
    · rw [rightHome_iff_of_query hw h path hgiven]
      simp only [hgiven, true_implies]
    · have hauth : c.isAuthenticated = false := by rw [Ctx.isAuthenticated, h]; rfl
      have hno : ∀ u f, ¬ ShowsHome P env path params c u f :=
        not_showsHome hauth (.inl (by simp [signedIn, hgiven]))
      simp [RightHome, homeUser, h, hgiven, hno]

/-- `/?user=ann&password=secret`, as documented, shows no home page; with `user_name=bob` in
addition, `ann` is shown with the feed of `bob`. -/
theorem wrong_home_shown :
    let c : Ctx := ⟨(Site.reached .ascii [.joins 0 0 "ann", .joins 1 1 "bob"]).world, Session.new⟩
    let documented : Params := { user := some "ann", password := some "secret" }
    let mixed : Params := { documented with userName := some "bob" }
    (homeUser .ascii documented c).map Row.id = some 1 ∧
      (∀ u f, ¬ ShowsHome .ascii ⟨2, 0, false, []⟩ "/" documented c u f) ∧
      ShowsHome .ascii ⟨2, 0, false, []⟩ "/" mixed c 1 2 ∧
      ¬ RightHome .ascii ⟨2, 0, false, []⟩ "/" documented c ∧
      ¬ RightHome .ascii ⟨2, 0, false, []⟩ "/" mixed c := by
  intro c documented mixed
  have huser : (homeUser .ascii documented c).map Row.id = some 1 := by decide +kernel
  have hnone : ∀ u f, ¬ ShowsHome .ascii ⟨2, 0, false, []⟩ "/" documented c u f :=
    not_showsHome (by decide +kernel) (.inl (by decide +kernel))
  have hmixed : ShowsHome .ascii ⟨2, 0, false, []⟩ "/" mixed c 1 2 := by
    have hsome : (signedIn .ascii ⟨2, 0, false, []⟩ ⟨.getRoot, "/", mixed⟩ c).map Row.id =
        some 2 := by decide +kernel
    obtain ⟨v, hv, hid⟩ := Option.map_eq_some_iff.1 hsome
    rw [showsHome_iff_of_signedIn (orderly_reached _ _) (by decide) hv, hid]
    exact ⟨by decide +kernel, rfl⟩
  refine ⟨huser, hnone, hmixed, fun h => ?_, fun h => ?_⟩
  · obtain ⟨u, f, hshows⟩ := h.1.2 (by
      rw [← Option.isSome_map (f := Row.id), huser]
      rfl)
    exact hnone u f hshows
  · exact absurd (h.2 1 2 hmixed).2 (by decide)

end NanoTwitter
