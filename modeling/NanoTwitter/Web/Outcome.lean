import Mathlib.Tactic
import NanoTwitter.Model.Api
import NanoTwitter.Model.Cache
import NanoTwitter.Sequential.Operations

/-!
# What a request leaves behind

For every route, what its handler does to the stores and to the identity in the client's session
(user id and user name), whether it answers or raises:

* `signedIn`: the user that a request logs in or registers, if any;
* `written`: the stores after a request;
* `handle_outcome`: these two describe every route. In particular the `get` routes other than `/`
  and `/logout` only read.

The other fields of a session (`error`, `original_request`) decide nothing and are left open.
-/

namespace NanoTwitter

open Ruby (Time)
open EStateM (Keeps Reads keeps_pure keeps_throw keeps_mapM)

/-! ### The outcome of a request -/

/-- Who the session says its client is. -/
def Session.identity (s : Session) : Option ℕ × Option Text := (s.userId, s.userName)

/-- The user whose email or name and whose password the parameters carry. -/
def credentials (P : Platform) (db : Db) (params : Params) : Option (Row User) :=
  (loginUser db params).filter fun u => passwordOk P u params.password

/-- The row that a registration stores. -/
def registered (P : Platform) (now : Time) (salt : ℕ) (form : User.Form) (db : Db) :
    Option (Row User) :=
  ((User.new P salt now form).filter fun u => u.valid P db.users none).map fun u =>
    ⟨db.users.nextId, u⟩

/-- The session user exists. -/
def Ctx.isAuthenticated (c : Ctx) : Bool := (c.session.userId.bind c.world.db.users.find).isSome

/-- The user that a request logs in or registers. `GET /` takes the credentials of clients that are
not logged in, if the query has a user and a password. -/
def signedIn (P : Platform) (env : Env) (req : Request) (c : Ctx) : Option (Row User) :=
  match req.route with
  | .postLoginSubmit | .postApiLogin => credentials P c.world.db req.params
  | .getRoot =>
    if !c.isAuthenticated && (req.params.user.isSome && req.params.password.isSome) then
      credentials P c.world.db req.params
    else none
  | .postRegistrationSubmit => registered P env.now env.salt (req.params.form P) c.world.db
  | _ => none

/-- The identity in the session after a request. -/
def identified (P : Platform) (env : Env) (req : Request) (c : Ctx) : Option ℕ × Option Text :=
  if req.route = .getLogout then (none, none)
  else
    match signedIn P env req c with
    | some u => (some u.id, some u.attrs.userName)
    | none => c.session.identity

/-- The stores after a request. -/
def written (P : Platform) (env : Env) (req : Request) (c : Ctx) : World :=
  let params := req.params
  let userId := c.session.userId
  match req.route with
  | .postRegistrationSubmit => (register P env.now env.salt (params.form P)).exec c.world
  | .postUserFollow => (follow P env.now userId params.userName).exec c.world
  | .postUserUnfollow => (unfollow P env.now userId params.userName).exec c.world
  | .postTweetNewSubmit =>
    (makeTweet P env.now (textOf params.tweetText) userId none).exec c.world
  | .postTweetReply =>
    (makeTweet P env.now (textOf params.tweetText) userId
      (params.replyId.map (Param.toS P))).exec c.world
  | .postTweetLike => (like env.now userId (textOf params.tweetId)).exec c.world
  | .postApiNewTweet =>
    match User.findByUserName c.world.db params.userName with
    | some u => (makeTweet P env.now (textOf params.text) (some u.id) none).exec c.world
    | none => c.world
  | .getRoot =>
    match signedIn P env req c with
    | some u =>
      if (textOf params.randomtweet).isSome && env.randHit then
        (makeTweet P env.now (some env.faker) (some u.id) none).exec c.world
      else c.world
    | none => c.world
  | _ => c.world

/-! ### Code that leaves stores and identity alone -/

/-- The same stores and the same identity. -/
def Same (c c' : Ctx) : Prop := c'.world = c.world ∧ c'.session.identity = c.session.identity

instance : IsPreorder Ctx Same where
  refl _ := ⟨rfl, rfl⟩
  trans _ _ _ h h' := ⟨h'.1.trans h.1, h'.2.trans h.2⟩

theorem exec_onWorld {α : Type} (p : Prog α) (c : Ctx) :
    (onWorld p).exec c = { c with world := p.exec c.world } := by
  unfold EStateM.exec onWorld
  cases p c.world <;> rfl

theorem same_onWorld {α : Type} {p : Prog α} (h : Reads p) : Keeps Same (onWorld p) := by
  intro c
  rw [exec_onWorld, ← h c.world]
  exact refl_of Same c

theorem same_getDb : Keeps Same getDb := fun c => refl_of Same c

theorem same_getSession : Keeps Same getSession := fun c => refl_of Same c

theorem reads_orRaise {σ α : Type} (e : Error) (o : Option α) :
    Reads (orRaise e o : EStateM Error σ α) := by
  cases o with
  | some a => exact keeps_pure a
  | none => exact keeps_throw e

theorem reads_runQuery {σ : Type} (v : Option Param) :
    Reads (runQuery v : EStateM Error σ Unit) := by
  unfold runQuery
  cases queryError v with
  | none => exact keeps_pure ()
  | some e => exact keeps_throw e

theorem same_runQuery (v : Option Param) : Keeps Same (runQuery v) := (reads_runQuery v).keeps

theorem same_ofExcept {α : Type} (x : Except Error α) : Keeps Same (ofExcept x) := by
  cases x with
  | ok a => exact keeps_pure a
  | error e => exact keeps_throw e

theorem reads_lrange (s : Slot) : Reads (lrange s.key) := reads_query _

theorem same_lrange (s : Slot) : Keeps Same (onWorld (lrange s.key)) :=
  same_onWorld (reads_lrange s)

theorem reads_accessReplies (tweetId : Text) : Reads (accessReplies tweetId) :=
  (reads_query _).bind fun _ => keeps_mapM (fun _ => reads_orRaise _ _) _

theorem same_authenticate (path : Text) : Keeps Same (authenticate path) := by
  refine same_getSession.bind fun s => same_getDb.bind fun db => ?_
  split_ifs
  · exact keeps_pure true
  · have hmodify : Keeps Same (modifySession fun s => { s with originalRequest := some path }) :=
      fun c => ⟨rfl, rfl⟩
    exact hmodify.bind fun _ => keeps_pure false

theorem same_render (path : Text) (page : Session → Except Error Page) :
    Keeps Same (render path page) :=
  same_getSession.bind fun _ => (same_ofExcept _).bind fun _ =>
    (same_authenticate path).bind fun _ => same_getSession.bind fun _ =>
      (same_ofExcept _).bind fun _ => keeps_pure _

theorem same_page (path : Text) (page : Session → Except Error Page) :
    Keeps Same (do return Response.page (← render path page)) :=
  (same_render path page).bind fun _ => keeps_pure _

theorem same_frontPage (path : Text) (ffeed : Bool) : Keeps Same (frontPage path ffeed) :=
  (same_lrange .ffeed).bind fun _ => same_page path _

theorem same_homePage (path : Text) (user : Option (Row User)) :
    Keeps Same (homePage path user) := by
  refine same_getSession.bind fun s => ?_
  cases s.userId with
  | none => exact (keeps_pure _).bind fun _ => same_page path _
  | some id => exact (same_lrange (.hfeed id)).bind fun _ => same_page path _

theorem same_getUser (path : Text) (params : Params) : Keeps Same (getUser path params) := by
  refine (same_runQuery _).bind fun _ => same_getDb.bind fun db => ?_
  cases User.findByUserName db params.userName with
  | none => exact same_page path _
  | some u =>
    refine same_getSession.bind fun s => ?_
    cases s.userId with
    | none => exact keeps_pure _
    | some id =>
      exact same_getDb.bind fun _ => (same_lrange (.pfeed u.id)).bind fun _ => same_page path _

theorem same_getSearch (P : Platform) (path : Text) (params : Params) :
    Keeps Same (getSearch P path params) := by
  refine same_getSession.bind fun s => ?_
  split_ifs
  · exact same_getDb.bind fun _ => (same_ofExcept _).bind fun _ => same_page path _
  · exact keeps_pure _

theorem same_getTag (P : Platform) (path : Text) (params : Params) :
    Keeps Same (getTag P path params) := by
  refine same_getSession.bind fun s => ?_
  split_ifs
  · exact (same_lrange (.tag _)).bind fun _ => same_page path _
  · exact keeps_pure _

theorem same_getApiTweet (params : Params) : Keeps Same (getApiTweet params) := by
  refine (same_ofExcept _).bind fun id => same_getDb.bind fun db => ?_
  split <;> exact keeps_pure _

theorem same_getApiUser (params : Params) : Keeps Same (getApiUser params) := by
  refine (same_runQuery _).bind fun _ => same_getDb.bind fun db => ?_
  cases User.findByUserName db params.userName <;> exact keeps_pure _

theorem same_getApiFeed {access : ℕ → Prog (List Text)} (h : ∀ u, Reads (access u))
    (params : Params) : Keeps Same (getApiFeed access params) := by
  refine (same_runQuery _).bind fun _ => same_getDb.bind fun db => ?_
  cases User.findByUserName db params.userName with
  | none => exact keeps_pure _
  | some u => exact (same_onWorld (h u.id)).bind fun _ => keeps_pure _

theorem same_findFollows (params : Params) (followers : Bool) :
    Keeps Same (findFollows params followers) := by
  refine (same_runQuery _).bind fun _ => same_getDb.bind fun db => ?_
  cases User.findByUserName db params.userName with
  | none => exact keeps_pure _
  | some u =>
    exact (keeps_mapM (fun _ => (same_onWorld (reads_find _)).bind fun _ => keeps_pure _) _).bind
      fun _ => keeps_pure _

/-! ### Logging in and registering -/

variable {P : Platform} {c : Ctx}

/-- A user that `login` finds is found by a name or an email of the parameters. -/
theorem mem_wanted_of_loginUser {db : Db} {params : Params} {u : Row User}
    (h : loginUser db params = some u) : ∃ s, s ∈ wanted (params.email <|> params.userName) := by
  unfold loginUser at h
  cases hemail : params.email with
  | none =>
    rw [hemail, if_neg (by simp)] at h
    exact ⟨_, of_decide_eq_true (Table.mem_of_findBy h).2⟩
  | some v =>
    rw [hemail, if_pos Option.isSome_some] at h
    exact ⟨_, of_decide_eq_true (Table.mem_of_findBy h).2⟩

theorem login_of_some {params : Params} {u : Row User}
    (h : credentials P c.world.db params = some u) :
    login P params c = .ok .session { c with session := c.session.as u } := by
  obtain ⟨hu, hok⟩ := Option.filter_eq_some_iff.1 h
  obtain ⟨s, hs⟩ := mem_wanted_of_loginUser hu
  have hgiven : (params.email.isNone && params.userName.isNone) = false := by
    -- without email and name the look-up is by a nil name, and finds nobody
    by_contra hnone
    rw [Bool.not_eq_false, Bool.and_eq_true, Option.isNone_iff_eq_none,
      Option.isNone_iff_eq_none] at hnone
    rw [hnone.1, hnone.2] at hs
    exact absurd hs List.not_mem_nil
  unfold login
  rw [hgiven, if_neg Bool.false_ne_true, EStateM.bind_of_ok (runQuery_ok (queryError_of_mem hs) c),
    EStateM.bind_of_ok getDb_ok, hu]
  dsimp only
  rw [if_pos hok]
  rfl

/-- Without the credentials of a user `login` returns no session, or raises on a value that it
cannot look up. -/
theorem login_of_none {params : Params} (h : credentials P c.world.db params = none) :
    (∃ r, r ≠ .session ∧ login P params c = .ok r c) ∨ ∃ e, login P params c = .error e c := by
  unfold login
  by_cases hgiven : (params.email.isNone && params.userName.isNone) = true
  · rw [if_pos hgiven]
    exact .inl ⟨.false, by decide, rfl⟩
  · rw [if_neg hgiven]
    cases hquery : queryError (params.email <|> params.userName) with
    | some e =>
      rw [EStateM.bind_of_error (runQuery_error hquery c)]
      exact .inr ⟨e, rfl⟩
    | none =>
      rw [EStateM.bind_of_ok (runQuery_ok hquery c), EStateM.bind_of_ok getDb_ok]
      refine .inl ⟨.nil, by decide, ?_⟩
      cases hu : loginUser c.world.db params with
      | none => rfl
      | some u =>
        rw [credentials, hu] at h
        have hok : ¬ passwordOk P u params.password = true := fun hok => by
          rw [Option.filter_some, if_pos hok] at h
          exact absurd h (by simp)
        dsimp only
        rw [if_neg hok]
        rfl

theorem register_of_some {now : Time} {salt : ℕ} {form : User.Form} {w : World} {r : Row User}
    (h : registered P now salt form w.db = some r) :
    register P now salt form w = .ok (some r) (w.setUsers (w.db.users.insert r.attrs)) := by
  obtain ⟨u, hu, rfl⟩ := Option.map_eq_some_iff.1 h
  obtain ⟨hnew, hvalid⟩ := Option.filter_eq_some_iff.1 hu
  exact register_of_valid hnew hvalid

theorem register_of_none {now : Time} {salt : ℕ} {form : User.Form} {w : World}
    (h : registered P now salt form w.db = none) : register P now salt form w = .ok none w := by
  rw [registered, Option.map_eq_none_iff, Option.filter_eq_none_iff] at h
  exact register_of_invalid h

/-! ### Every route -/

/-- What is left of a handler that works on the stores and then only reads. -/
theorem same_exec_onWorld {α β : Type} (p : Prog α) {f : α → Handler β}
    (hf : ∀ a, Keeps Same (f a)) (c : Ctx) :
    Same { c with world := p.exec c.world } ((onWorld p >>= f).exec c) := by
  rw [← exec_onWorld]
  exact Keeps.exec_bind (onWorld p) hf c

/-- The same, with the session user as an input. -/
theorem same_exec_session {α β : Type} (p : Option ℕ → Prog α) {f : α → Handler β}
    (hf : ∀ a, Keeps Same (f a)) (c : Ctx) :
    Same { c with world := (p c.session.userId).exec c.world }
      ((getSession >>= fun s => onWorld (p s.userId) >>= f).exec c) := by
  rw [EStateM.exec_bind_of_ok getSession_ok]
  exact same_exec_onWorld _ hf c

theorem postLogin_outcome (params : Params) {f : LoginResult → Handler Response}
    (hf : ∀ r, Keeps Same (f r)) (c : Ctx) :
    ((login P params >>= f).exec c).world = c.world ∧
      ((login P params >>= f).exec c).session.identity =
        match credentials P c.world.db params with
        | some u => (some u.id, some u.attrs.userName)
        | none => c.session.identity := by
  cases h : credentials P c.world.db params with
  | some u =>
    rw [EStateM.exec_bind_of_ok (login_of_some h)]
    exact hf _ _
  | none =>
    obtain ⟨r, -, hr⟩ | ⟨e, he⟩ := login_of_none h
    · rw [EStateM.exec_bind_of_ok hr]
      exact hf r c
    · rw [EStateM.exec_of_error (EStateM.bind_of_error he)]
      exact ⟨rfl, rfl⟩

theorem authenticate_eq (path : Text) (c : Ctx) :
    ∃ c', authenticate path c = .ok c.isAuthenticated c' ∧ Same c c' := by
  unfold authenticate
  rw [EStateM.bind_of_ok getSession_ok,
    EStateM.bind_of_ok getDb_ok]
  by_cases h : c.isAuthenticated = true
  · exact ⟨c, by rw [h]; exact congrFun (if_pos h) c, refl_of Same c⟩
  · refine ⟨{ c with session := { c.session with originalRequest := some path } }, ?_, rfl, rfl⟩
    rw [Bool.eq_false_iff.2 h]
    exact congrFun (if_neg h) c

/-- The test interface of `GET /` logs in, and may tweet. -/
theorem testTwoOrThree_of_some (env : Env) {params : Params} {u : Row User}
    (hgiven : (params.user.isSome && params.password.isSome) = true)
    (h : credentials P c.world.db params = some u) :
    Same
      { world := if (textOf params.randomtweet).isSome && env.randHit then
          (makeTweet P env.now (some env.faker) (some u.id) none).exec c.world else c.world
        session := c.session.as u }
      ((testTwoOrThree P env params).exec c) := by
  unfold testTwoOrThree
  rw [if_pos hgiven, EStateM.exec_bind_of_ok (login_of_some h)]
  dsimp only
  cases hrandom : params.randomtweet with
  | none => exact ⟨rfl, rfl⟩
  | some v =>
    rw [if_pos Option.isSome_some]
    cases htext : v.text? with
    | none =>
      -- the session is there when `to_f` raises
      rw [textOf, Option.bind_some, htext]
      exact ⟨rfl, rfl⟩
    | some t =>
      rw [textOf, Option.bind_some, htext, EStateM.exec_bind_of_ok (orRaise_ok _ rfl),
        Option.isSome_some, Bool.true_and]
      split_ifs
      · exact same_exec_onWorld _ (fun _ => keeps_pure _) _
      · exact ⟨rfl, rfl⟩

theorem testTwoOrThree_of_none (env : Env) {params : Params}
    (h : (params.user.isSome && params.password.isSome) = true →
      credentials P c.world.db params = none) :
    Same c ((testTwoOrThree P env params).exec c) := by
  unfold testTwoOrThree
  by_cases hgiven : (params.user.isSome && params.password.isSome) = true
  · rw [if_pos hgiven]
    obtain ⟨r, hr, hlogin⟩ | ⟨e, he⟩ := login_of_none (h hgiven)
    · rw [EStateM.exec_bind_of_ok hlogin]
      cases r with
      | session => exact absurd rfl hr
      | nil | false => exact ⟨rfl, rfl⟩
    · rw [EStateM.exec_of_error (EStateM.bind_of_error he)]
      exact ⟨rfl, rfl⟩
  · rw [if_neg hgiven]
    exact ⟨rfl, rfl⟩

theorem getRoot_outcome (env : Env) (path : Text) (params : Params) (c : Ctx) :
    ((getRoot P env path params).exec c).world = written P env ⟨.getRoot, path, params⟩ c ∧
      ((getRoot P env path params).exec c).session.identity =
        identified P env ⟨.getRoot, path, params⟩ c := by
  obtain ⟨c', hauth, hsame⟩ := authenticate_eq path c
  unfold getRoot
  rw [EStateM.exec_bind_of_ok hauth]
  by_cases ha : c.isAuthenticated = true
  · have hnone : signedIn P env ⟨.getRoot, path, params⟩ c = none := by simp [signedIn, ha]
    rw [if_pos ha]
    simp only [written, identified, hnone]
    exact trans_of Same hsame ((same_getSession.bind fun _ => same_getDb.bind fun _ =>
      same_homePage path _) c')
  · -- the test interface decides; what follows only reads
    have hrest : ∀ b : Bool, Keeps Same (if b = true then
        do
          runQuery params.user
          homePage path (User.findByUserName (← getDb) params.user)
        else frontPage path true) := by
      intro b
      split_ifs
      · exact (same_runQuery _).bind fun _ => same_getDb.bind fun _ => same_homePage path _
      · exact same_frontPage path true
    have hafter := Keeps.exec_bind (testTwoOrThree P env params) hrest c'
    rw [if_neg ha]
    cases hsign : signedIn P env ⟨.getRoot, path, params⟩ c with
    | none =>
      have htest : Same c' ((testTwoOrThree P env params).exec c') :=
        testTwoOrThree_of_none env fun hgiven => by
          rw [hsame.1]
          simpa [signedIn, ha, hgiven] using hsign
      simp only [written, identified, hsign]
      exact trans_of Same hsame (trans_of Same htest hafter)
    | some u =>
      have hgiven : (params.user.isSome && params.password.isSome) = true := by
        by_contra hno
        simp [signedIn, hno] at hsign
      have hcred : credentials P c'.world.db params = some u := by
        rw [hsame.1]
        simpa [signedIn, ha, hgiven] using hsign
      obtain ⟨hw, hs⟩ := trans_of Same (testTwoOrThree_of_some env hgiven hcred) hafter
      rw [hsame.1] at hw
      simp only [written, identified, hsign]
      exact ⟨hw, hs⟩

theorem onWorld_of_ok {α : Type} {p : Prog α} {a : α} {w : World} (h : p c.world = .ok a w) :
    onWorld p c = .ok a { c with world := w } := by
  unfold onWorld; rw [h]

/-- A registration that is admitted stores the user and logs it in. -/
theorem postRegistrationSubmit_of_some {env : Env} {params : Params} {c : Ctx} {u : Row User}
    (h : registered P env.now env.salt (params.form P) c.world.db = some u) :
    (postRegistrationSubmit P env params).exec c =
      ⟨c.world.setUsers (c.world.db.users.insert u.attrs), c.session.as u⟩ := by
  unfold postRegistrationSubmit
  rw [EStateM.exec_bind_of_ok (onWorld_of_ok (register_of_some h))]
  rfl

theorem postRegistrationSubmit_of_none {env : Env} {params : Params} {c : Ctx}
    (h : registered P env.now env.salt (params.form P) c.world.db = none) :
    (postRegistrationSubmit P env params).exec c = c := by
  unfold postRegistrationSubmit
  rw [EStateM.exec_bind_of_ok (onWorld_of_ok (register_of_none h))]
  rfl

theorem postRegistrationSubmit_outcome (env : Env) (path : Text) (params : Params) (c : Ctx) :
    ((postRegistrationSubmit P env params).exec c).world =
        written P env ⟨.postRegistrationSubmit, path, params⟩ c ∧
      ((postRegistrationSubmit P env params).exec c).session.identity =
        identified P env ⟨.postRegistrationSubmit, path, params⟩ c := by
  simp only [written, identified, signedIn]
  cases h : registered P env.now env.salt (params.form P) c.world.db with
  | some u =>
    rw [postRegistrationSubmit_of_some h, EStateM.exec_of_ok (register_of_some h)]
    exact ⟨rfl, rfl⟩
  | none =>
    rw [postRegistrationSubmit_of_none h, EStateM.exec_of_ok (register_of_none h)]
    exact ⟨rfl, rfl⟩

theorem postApiNewTweet_outcome (env : Env) (path : Text) (params : Params) (c : Ctx) :
    Same ⟨written P env ⟨.postApiNewTweet, path, params⟩ c, c.session⟩
      ((postApiNewTweet P env params).exec c) := by
  simp only [written]
  unfold postApiNewTweet
  rw [EStateM.exec_bind_of_ok getDb_ok]
  cases User.findByUserName c.world.db params.userName with
  | none => exact ⟨rfl, rfl⟩
  | some u =>
    rw [EStateM.exec_bind_of_ok (orRaise_ok _ rfl)]
    exact same_exec_onWorld _ (fun _ => keeps_pure _) c

/-- **What every route leaves behind.** -/
theorem handle_outcome (P : Platform) (env : Env) (req : Request) (c : Ctx) :
    ((handle P env req).exec c).world = written P env req c ∧
      ((handle P env req).exec c).session.identity = identified P env req c := by
  obtain ⟨route, path, params⟩ := req
  cases route with
  | getLoaderioAccded | getLoaderio97e => exact ⟨rfl, rfl⟩
  | getRoot => exact getRoot_outcome env path params c
  | getFront => exact same_frontPage path false c
  | getLogin | getRegistration | getGhPage => exact same_page path _ c
  | postLoginSubmit =>
    refine postLogin_outcome params (fun r => ?_) c
    cases r <;> exact fun _ => ⟨rfl, rfl⟩
  | getLogout => exact ⟨rfl, rfl⟩
  | postRegistrationSubmit =>
    exact postRegistrationSubmit_outcome env path params c
  | getUser => exact same_getUser path params c
  | postUserFollow =>
    -- a name that is an array is found, and raises when it is added to the address
    exact same_exec_session (fun id => follow P env.now id params.userName)
      (fun _ => (reads_orRaise _ _).keeps.bind fun _ => keeps_pure _) c
  | postUserUnfollow =>
    exact same_exec_session (fun id => unfollow P env.now id params.userName)
      (fun _ => (reads_orRaise _ _).keeps.bind fun _ => keeps_pure _) c
  | postTweetNewSubmit =>
    -- without a user name in the session the redirect raises, after the tweet was made
    exact same_exec_session (fun id => makeTweet P env.now (textOf params.tweetText) id none)
      (fun _ => same_getSession.bind fun _ => (reads_orRaise _ _).keeps.bind fun _ => keeps_pure _)
      c
  | getSearch => exact same_getSearch P path params c
  | postTweetLike =>
    exact same_exec_session (fun id => like env.now id (textOf params.tweetId))
      (fun _ => keeps_pure _) c
  | getTag => exact same_getTag P path params c
  | getTweetReplies | getApiReplies =>
    exact (same_onWorld (reads_accessReplies _)).bind (fun _ => keeps_pure _) c
  | postTweetReply =>
    exact same_exec_session (fun id => makeTweet P env.now (textOf params.tweetText) id
      (params.replyId.map (Param.toS P))) (fun _ => keeps_pure _) c
  | getApiTweet => exact same_getApiTweet params c
  | getApiFrontFeed => exact (same_lrange .ffeed).bind (fun _ => keeps_pure _) c
  | getApiUser => exact same_getApiUser params c
  | postApiLogin =>
    refine postLogin_outcome params (fun r => ?_) c
    cases r
    · exact same_getSession.bind fun _ => keeps_pure _
    all_goals exact keeps_pure _
  | postApiNewTweet =>
    exact postApiNewTweet_outcome env path params c
  | getApiTag => exact (same_lrange (.tag _)).bind (fun _ => keeps_pure _) c
  | getApiProfileFeed => exact same_getApiFeed (fun u => reads_lrange (.pfeed u)) params c
  | getApiHomeFeed => exact same_getApiFeed (fun u => reads_lrange (.hfeed u)) params c
  | getApiFollowings => exact same_findFollows params false c
  | getApiFollowers => exact same_findFollows params true c
  | getApiLikes => exact ⟨rfl, rfl⟩
  | getApiSearch =>
    exact same_getDb.bind (fun _ => (same_ofExcept _).bind fun _ => keeps_pure _) c

end NanoTwitter
