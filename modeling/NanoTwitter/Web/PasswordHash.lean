import Mathlib.Tactic
import NanoTwitter.Web.Outcome

/-!
# Answers and password hashes

Two states of the application that differ in `users.password_hash` only, with equal sessions and an
equal cache, are `Blind` to each other. The judgement `EStateM.Agree` follows a handler through two
such states at once: a row of a user is then known up to its hash.

Every `get` route without a password among its parameters answers both states alike, except
`GET /api/v1/users/:user_name`: `User#to_json` leaves out an attribute `password`, which is no
column, and so writes the hash. `answers_eq_iff` is the exact statement, `hash_in_answer` a pair of
states with different answers.
-/

namespace NanoTwitter

open EStateM (Agree agree_pure agree_throw agree_mapM)

/-- What the client receives: the body of the answer, or the page made of the error. -/
inductive Body
  | html (html : Html)
  | text (text : Text)
  | file (name : Text)
  | none
  | error (e : Error)
  deriving DecidableEq

def Response.body : Response → Body
  | .page html => .html html
  | .json text => .text text
  | .file name => .file name
  | .redirect _ => .none
  | .empty => .none

/-- The body of the answer to a request. -/
def answer (P : Platform) (env : Env) (req : Request) (c : Ctx) : Body :=
  match handle P env req c with
  | .ok r _ => r.body
  | .error e _ => .error e

/-! ### States equal but for the hashes -/

/-- A user's row without the password hash. -/
def publicRow (u : Row User) : Row User := ⟨u.id, { u.attrs with passwordHash := [] }⟩

/-- The two databases differ in password hashes only. -/
structure SameButHashes (db db' : Db) : Prop where
  users : db.users.rows.map publicRow = db'.users.rows.map publicRow
  nextId : db.users.nextId = db'.users.nextId
  tweets : db.tweets = db'.tweets
  follows : db.follows = db'.follows

/-- The two states of the stores differ in password hashes only. -/
structure Blind (w w' : World) : Prop where
  db : SameButHashes w.db w'.db
  redis : w.redis = w'.redis

/-- So do the contexts of two requests with equal sessions. -/
structure BlindCtx (c c' : Ctx) : Prop where
  world : Blind c.world c'.world
  session : c.session = c'.session

/-- The rows are of the same user, whose hash may differ. -/
def SamePublic (u v : Row User) : Prop := publicRow u = publicRow v

/-- Two look-ups have found the same user, or none. -/
def SameFound (o o' : Option (Row User)) : Prop := o.map publicRow = o'.map publicRow

theorem SamePublic.id_eq {u v : Row User} (h : SamePublic u v) : u.id = v.id :=
  show (publicRow u).id = (publicRow v).id by rw [h]

theorem SamePublic.userName_eq {u v : Row User} (h : SamePublic u v) :
    u.attrs.userName = v.attrs.userName :=
  show (publicRow u).attrs.userName = (publicRow v).attrs.userName by rw [h]

/-- Two alike look-ups both fail or both succeed. -/
theorem SameFound.cases {o o' : Option (Row User)} (h : SameFound o o') :
    (o = none ∧ o' = none) ∨ ∃ u v, o = some u ∧ o' = some v ∧ SamePublic u v := by
  cases o with
  | none =>
    cases o' with
    | none => exact .inl ⟨rfl, rfl⟩
    | some v => exact absurd h (by simp [SameFound])
  | some u =>
    cases o' with
    | none => exact absurd h (by simp [SameFound])
    | some v => exact .inr ⟨u, v, rfl, rfl, Option.some.inj h⟩

section Queries

variable {db db' : Db} (h : SameButHashes db db')

include h

/-- A look-up that does not read the hash. -/
theorem sameFound_find? {p : Row User → Bool} (hp : ∀ u, p (publicRow u) = p u) :
    SameFound (db.users.rows.find? p) (db'.users.rows.find? p) := by
  have hcomp : p ∘ publicRow = p := funext hp
  have hmap : ∀ l : List (Row User), (l.find? p).map publicRow = (l.map publicRow).find? p := by
    intro l
    rw [List.find?_map, hcomp]
  unfold SameFound
  rw [hmap, hmap, h.users]

theorem sameFound_find (i : ℕ) : SameFound (db.users.find i) (db'.users.find i) :=
  sameFound_find? h fun _ => rfl

theorem sameFound_bind_find (i : Option ℕ) :
    SameFound (i.bind db.users.find) (i.bind db'.users.find) := by
  cases i with
  | none => rfl
  | some i => exact sameFound_find h i

theorem sameFound_findByUserName (n : Option Param) :
    SameFound (User.findByUserName db n) (User.findByUserName db' n) :=
  sameFound_find? h fun _ => rfl

/-- The ids of the users of a name. -/
theorem ids_eq (n : Option Param) :
    (db.users.rows.filter fun u => u.attrs.userName ∈ wanted n).map Row.id =
      (db'.users.rows.filter fun u => u.attrs.userName ∈ wanted n).map Row.id := by
  have hfilter : ∀ l : List (Row User), (l.filter fun u => u.attrs.userName ∈ wanted n).map Row.id =
      ((l.map publicRow).filter fun u => u.attrs.userName ∈ wanted n).map Row.id := by
    intro l
    rw [List.filter_map, List.map_map]
    rfl
  rw [hfilter, hfilter db'.users.rows, h.users]

end Queries

/-! ### Code that cannot tell the hashes -/

theorem agree_onWorld {α β : Type} {V : α → β → Prop} {p : Prog α} {q : Prog β}
    (h : Agree Blind V p q) : Agree BlindCtx V (onWorld p) (onWorld q) := by
  intro c c' hc
  have hw := h c.world c'.world hc.world
  unfold onWorld
  generalize p c.world = r at hw
  generalize q c'.world = r' at hw
  cases hw with
  | ok hv hs => exact .ok hv ⟨hs, hc.session⟩
  | error hs => exact .error ⟨hs, hc.session⟩

theorem agree_query {α : Type} (f : Store Text Text → Option α) :
    Agree Blind Eq (query f) (query f) := by
  intro w w' hw
  unfold query
  rw [hw.redis]
  cases f w'.redis with
  | some a => exact .ok rfl hw
  | none => exact .error hw

theorem agree_lrange (s : Slot) :
    Agree BlindCtx Eq (onWorld (lrange s.key)) (onWorld (lrange s.key)) :=
  agree_onWorld (agree_query _)

theorem agree_orRaise {σ α : Type} {R : σ → σ → Prop} (e : Error) (o : Option α) :
    Agree R Eq (orRaise e o : EStateM Error σ α) (orRaise e o) := by
  cases o with
  | some a => exact agree_pure rfl
  | none => exact agree_throw e

theorem agree_runQuery (v : Option Param) : Agree BlindCtx Eq (runQuery v) (runQuery v) := by
  unfold runQuery
  cases queryError v with
  | none => exact agree_pure rfl
  | some e => exact agree_throw e

theorem agree_accessReplies (tweetId : Text) :
    Agree BlindCtx Eq (onWorld (accessReplies tweetId)) (onWorld (accessReplies tweetId)) := by
  refine agree_onWorld ((agree_query _).bind fun l l' hl => ?_)
  rw [hl]
  exact agree_mapM (fun _ => agree_orRaise _ _) l'

theorem agree_find (i : Option ℕ) : Agree Blind SamePublic (User.find i) (User.find i) := by
  intro w w' hw
  unfold User.find
  obtain ⟨h, h'⟩ | ⟨u, v, h, h', huv⟩ := (sameFound_bind_find hw.db i).cases
  · rw [h, h']; exact .error hw
  · rw [h, h']; exact .ok huv hw

theorem agree_getDb : Agree BlindCtx SameButHashes getDb getDb := fun _ _ hc => .ok hc.world.db hc

theorem agree_getSession : Agree BlindCtx Eq getSession getSession := fun _ _ hc =>
  .ok hc.session hc

theorem agree_ofExcept {α : Type} (x : Except Error α) :
    Agree BlindCtx Eq (ofExcept x) (ofExcept x) := by
  cases x with
  | ok a => exact agree_pure rfl
  | error e => exact agree_throw e

theorem agree_modifySession (f : Session → Session) :
    Agree BlindCtx Eq (modifySession f) (modifySession f) := fun _ _ hc =>
  .ok rfl ⟨hc.world, congrArg f hc.session⟩

theorem agree_authenticate (path : Text) :
    Agree BlindCtx Eq (authenticate path) (authenticate path) := by
  refine agree_getSession.bind fun s s' hs => agree_getDb.bind fun db db' hdb => ?_
  subst hs
  obtain ⟨h, h'⟩ | ⟨u, v, h, h', -⟩ := (sameFound_bind_find hdb s.userId).cases
  · rw [h, h']
    exact (agree_modifySession _).bind fun _ _ _ => agree_pure rfl
  · rw [h, h']
    exact agree_pure rfl

theorem agree_render (path : Text) {page page' : Session → Except Error Page}
    (h : ∀ s, page s = page' s) :
    Agree BlindCtx Eq (do return Response.page (← render path page))
      (do return Response.page (← render path page')) := by
  obtain rfl : page = page' := funext h
  have hrender : Agree BlindCtx Eq (render path page) (render path page) := by
    refine agree_getSession.bind fun s s' hs => ?_
    subst hs
    refine (agree_ofExcept _).bind fun p p' hp => (agree_authenticate path).bind fun b b' hb =>
      agree_getSession.bind fun s s' hs => ?_
    subst hp hb hs
    exact (agree_ofExcept _).bind fun n n' hn => agree_pure (by rw [hn])
  exact hrender.bind fun _ _ h => agree_pure (by rw [h])

/-! ### The routes -/

theorem agree_frontPage (path : Text) (ffeed : Bool) :
    Agree BlindCtx Eq (frontPage path ffeed) (frontPage path ffeed) := by
  refine (agree_lrange .ffeed).bind fun l l' hl => ?_
  subst hl
  exact agree_render path fun _ => rfl

/-- The home page shows name and counters. -/
theorem myHome_congr {o o' : Option (Row User)} (h : SameFound o o') (s : Session)
    (tweets : List Text) : myHome s o tweets = myHome s o' tweets := by
  have hpublic : ∀ o, myHome s o tweets = myHome s (o.map publicRow) tweets := fun o => by
    cases o <;> rfl
  rw [hpublic, h, ← hpublic]

theorem profile_congr {u v : Row User} (h : SamePublic u v) (s : Session) (b : Bool)
    (tweets : List Text) : profile s b u tweets = profile s b v tweets := by
  have hpublic : ∀ u, profile s b u tweets = profile s b (publicRow u) tweets := fun _ => rfl
  rw [hpublic, h, ← hpublic]

theorem agree_homePage (path : Text) {o o' : Option (Row User)} (h : SameFound o o') :
    Agree BlindCtx Eq (homePage path o) (homePage path o') := by
  refine agree_getSession.bind fun s s' hs => ?_
  subst hs
  cases s.userId with
  | none => exact agree_render path fun s => myHome_congr h s []
  | some id =>
    refine (agree_lrange (.hfeed id)).bind fun l l' hl => ?_
    subst hl
    exact agree_render path fun s => myHome_congr h s l

/-- Without a password there is no login. -/
theorem agree_getRoot (P : Platform) (env : Env) (path : Text) {params : Params}
    (hp : params.password = none) :
    Agree BlindCtx Eq (getRoot P env path params) (getRoot P env path params) := by
  have htest : testTwoOrThree P env params = pure false := by
    unfold testTwoOrThree
    rw [hp, Option.isSome_none, Bool.and_false]
    rfl
  refine (agree_authenticate path).bind fun b b' hb => ?_
  subst hb
  rw [htest]
  cases b with
  | true =>
    refine agree_getSession.bind fun s s' hs => agree_getDb.bind fun db db' hdb => ?_
    subst hs
    exact agree_homePage path (sameFound_bind_find hdb s.userId)
  | false => exact agree_frontPage path true

theorem agree_getUser (path : Text) (params : Params) :
    Agree BlindCtx Eq (getUser path params) (getUser path params) := by
  refine (agree_runQuery _).bind fun _ _ _ => agree_getDb.bind fun db db' hdb => ?_
  obtain ⟨h, h'⟩ | ⟨u, v, h, h', huv⟩ := (sameFound_findByUserName hdb params.userName).cases
  · rw [h, h']
    exact agree_render path fun _ => rfl
  · rw [h, h']
    refine agree_getSession.bind fun s s' hs => ?_
    subst hs
    cases s.userId with
    | none => exact agree_pure rfl
    | some id =>
      refine agree_getDb.bind fun db db' hdb => ?_
      have hstatus : Follow.exists? db id u.id = Follow.exists? db' id v.id := by
        unfold Follow.exists?
        rw [hdb.follows, huv.id_eq]
      rw [hstatus, huv.id_eq]
      refine (agree_lrange (.pfeed v.id)).bind fun l l' hl => ?_
      subst hl
      exact agree_render path fun s => profile_congr huv s _ l

theorem searchTweets_congr {db db' : Db} (h : SameButHashes db db') (k : Option Text) :
    searchTweets db k = searchTweets db' k := by
  unfold searchTweets
  rw [h.tweets]

theorem agree_getSearch (P : Platform) (path : Text) (params : Params) :
    Agree BlindCtx Eq (getSearch P path params) (getSearch P path params) := by
  refine agree_getSession.bind fun s s' hs => ?_
  subst hs
  split_ifs
  · refine agree_getDb.bind fun db db' hdb => ?_
    rw [searchTweets_congr hdb]
    refine (agree_ofExcept _).bind fun l l' hl => ?_
    subst hl
    exact agree_render path fun _ => rfl
  · exact agree_pure rfl

theorem agree_getTag (P : Platform) (path : Text) (params : Params) :
    Agree BlindCtx Eq (getTag P path params) (getTag P path params) := by
  refine agree_getSession.bind fun s s' hs => ?_
  subst hs
  split_ifs
  · refine (agree_lrange (.tag _)).bind fun l l' hl => ?_
    subst hl
    exact agree_render path fun _ => rfl
  · exact agree_pure rfl

theorem agree_getApiTweet (params : Params) :
    Agree BlindCtx Eq (getApiTweet params) (getApiTweet params) := by
  refine (agree_ofExcept _).bind fun i i' hi => agree_getDb.bind fun db db' hdb => ?_
  rw [hi, hdb.tweets]
  split <;> exact agree_pure rfl

theorem agree_getApiFeed (slot : ℕ → Slot) (params : Params) :
    Agree BlindCtx Eq (getApiFeed (fun u => lrange (slot u).key) params)
      (getApiFeed (fun u => lrange (slot u).key) params) := by
  refine (agree_runQuery _).bind fun _ _ _ => agree_getDb.bind fun db db' hdb => ?_
  obtain ⟨h, h'⟩ | ⟨u, v, h, h', huv⟩ := (sameFound_findByUserName hdb params.userName).cases
  · rw [h, h']
    exact agree_pure rfl
  · rw [h, h']
    dsimp only
    rw [huv.id_eq]
    exact (agree_lrange _).bind fun l l' hl => agree_pure (by rw [hl])

theorem agree_findFollows (params : Params) (followers : Bool) :
    Agree BlindCtx Eq (findFollows params followers) (findFollows params followers) := by
  refine (agree_runQuery _).bind fun _ _ _ => agree_getDb.bind fun db db' hdb => ?_
  obtain ⟨h, h'⟩ | ⟨u, v, h, h', huv⟩ := (sameFound_findByUserName hdb params.userName).cases
  · rw [h, h']
    exact agree_pure rfl
  · rw [h, h']
    dsimp only
    rw [ids_eq hdb, hdb.follows]
    have hnames : ∀ f : Row Follow, Agree BlindCtx Eq
        (do return (← onWorld (User.find (some (if followers then f.attrs.followerId
          else f.attrs.followedId)))).attrs.userName : Handler Text)
        (do return (← onWorld (User.find (some (if followers then f.attrs.followerId
          else f.attrs.followedId)))).attrs.userName) := fun f =>
      (agree_onWorld (agree_find _)).bind fun _ _ h => agree_pure h.userName_eq
    exact (agree_mapM hnames _).bind fun l l' hl => agree_pure (by rw [hl])

/-- **All `get` routes but one, without a password, cannot tell the hashes.** -/
theorem agree_handle (P : Platform) (env : Env) {req : Request} (hget : req.route.isGet = true)
    (hp : req.params.password = none) (hroute : req.route ≠ .getApiUser) :
    Agree BlindCtx Eq (handle P env req) (handle P env req) := by
  obtain ⟨route, path, params⟩ := req
  cases route with
  | getRoot => exact agree_getRoot P env path hp
  | getFront => exact agree_frontPage path false
  | getLogin | getRegistration | getGhPage => exact agree_render path fun _ => rfl
  | getLogout => exact (agree_modifySession _).bind fun _ _ _ => agree_pure rfl
  | getUser => exact agree_getUser path params
  | getSearch => exact agree_getSearch P path params
  | getTag => exact agree_getTag P path params
  | getTweetReplies | getApiReplies =>
    exact (agree_accessReplies _).bind fun l l' hl => agree_pure (by rw [hl])
  | getApiTweet => exact agree_getApiTweet params
  | getApiFrontFeed => exact (agree_lrange .ffeed).bind fun l l' hl => agree_pure (by rw [hl])
  | getApiTag => exact (agree_lrange (.tag _)).bind fun l l' hl => agree_pure (by rw [hl])
  | getApiProfileFeed => exact agree_getApiFeed .pfeed params
  | getApiHomeFeed => exact agree_getApiFeed .hfeed params
  | getApiFollowings => exact agree_findFollows params false
  | getApiFollowers => exact agree_findFollows params true
  | getApiLikes => exact agree_throw _
  | getApiSearch =>
    refine agree_getDb.bind fun db db' hdb => ?_
    rw [searchTweets_congr hdb]
    exact (agree_ofExcept _).bind fun l l' hl => agree_pure (by rw [hl])
  | getLoaderioAccded | getLoaderio97e => exact agree_pure rfl
  | getApiUser => exact absurd rfl hroute
  | _ => exact absurd hget (by simp [Route.isGet])

theorem answer_eq_of_agree {P : Platform} {env : Env} {req : Request} {c c' : Ctx}
    (h : Agree BlindCtx Eq (handle P env req) (handle P env req)) (hc : BlindCtx c c') :
    answer P env req c = answer P env req c' := by
  have halike := h c c' hc
  unfold answer
  generalize handle P env req c = r at halike
  generalize handle P env req c' = r' at halike
  cases halike with
  | ok hv _ => rw [hv]
  | error _ => rfl

/-! ### The route that shows the hash -/

/-- The columns of `users`. -/
def userColumns : List Text :=
  ["id", "name", "user_name", "email", "password_hash", "follower_count", "following_count",
    "tweet_count", "created_at", "updated_at"]

theorem keys_userAttributes (u : Row User) : (userAttributes u).map Prod.fst = userColumns := rfl

theorem password_notMem_userColumns : ("password" : Text) ∉ userColumns := by decide

/-- No column is called `password`. -/
theorem userJson_eq (u : Row User) : userJson u = .obj (userAttributes u) := by
  have hkeep : ∀ a ∈ userAttributes u, decide (a.1 ≠ ("password" : Text)) = true := by
    intro a ha
    have hkey : a.1 ∈ userColumns := by
      rw [← keys_userAttributes u]
      exact List.mem_map_of_mem ha
    exact decide_eq_true fun h => password_notMem_userColumns (h ▸ hkey)
  unfold userJson
  rw [List.filter_eq_self.2 hkeep]

/-- A row is its public part and its hash. -/
theorem eq_of_samePublic {u v : Row User} (h : SamePublic u v)
    (hash : u.attrs.passwordHash = v.attrs.passwordHash) : u = v := by
  obtain ⟨i, ⟨name, userName, email, hash₁, fr, fg, tw, cr, up⟩⟩ := u
  obtain ⟨i', ⟨name', userName', email', hash₂, fr', fg', tw', cr', up'⟩⟩ := v
  simp only [SamePublic, publicRow, Row.mk.injEq, User.mk.injEq] at h hash ⊢
  tauto

/-- Two rows of one user have the same JSON exactly when they have the same hash. -/
theorem userJson_eq_iff {u v : Row User} (h : SamePublic u v) :
    userJson u = userJson v ↔ u.attrs.passwordHash = v.attrs.passwordHash := by
  constructor
  · intro heq
    rw [userJson_eq, userJson_eq] at heq
    have hattrs : userAttributes u = userAttributes v := Json.obj.inj heq
    simp only [userAttributes, List.cons.injEq, Prod.mk.injEq, Json.str.injEq, true_and] at hattrs
    exact hattrs.2.2.2.2.1
  · intro hash
    rw [eq_of_samePublic h hash]

/-- The hash of the user that a look-up has found. -/
def hashOf (o : Option (Row User)) : Option Text := o.map fun u => u.attrs.passwordHash

/-- The request does not ask the API for a user whose hashes differ. -/
def HashUnread (req : Request) (c c' : Ctx) : Prop :=
  req.route = .getApiUser →
    hashOf (User.findByUserName c.world.db req.params.userName) =
      hashOf (User.findByUserName c'.world.db req.params.userName)

theorem getApiUser_eq (params : Params) (h : queryError params.userName = none) (c : Ctx) :
    getApiUser params c = .ok (((User.findByUserName c.world.db params.userName).map fun u =>
      Response.json (userJson u).render).getD .empty) c := by
  unfold getApiUser
  rw [EStateM.bind_of_ok (runQuery_ok h c), EStateM.bind_of_ok getDb_ok]
  cases User.findByUserName c.world.db params.userName <;> rfl

theorem answer_getApiUser_iff (P : Platform) (env : Env) (path : Text) (params : Params)
    {c c' : Ctx} (hc : BlindCtx c c') :
    answer P env ⟨.getApiUser, path, params⟩ c = answer P env ⟨.getApiUser, path, params⟩ c' ↔
      hashOf (User.findByUserName c.world.db params.userName) =
        hashOf (User.findByUserName c'.world.db params.userName) := by
  cases hquery : queryError params.userName with
  | some e =>
    -- the look-up raises on both sides, and finds nobody
    have hanswer : ∀ c, answer P env ⟨.getApiUser, path, params⟩ c = .error e := by
      intro c
      have hraises : handle P env ⟨.getApiUser, path, params⟩ c = .error e c :=
        EStateM.bind_of_error (runQuery_error hquery c)
      unfold answer
      rw [hraises]
    have hnobody : ∀ db, User.findByUserName db params.userName = none :=
      fun db => findByUserName_of_queryError db hquery
    rw [hanswer, hanswer, hnobody, hnobody]
    exact iff_of_true rfl rfl
  | none =>
    have hanswer : ∀ c, answer P env ⟨.getApiUser, path, params⟩ c =
        (((User.findByUserName c.world.db params.userName).map fun u =>
          Response.json (userJson u).render).getD .empty).body := by
      intro c
      unfold answer
      rw [show handle P env ⟨.getApiUser, path, params⟩ c = _ from getApiUser_eq params hquery c]
    rw [hanswer, hanswer]
    rcases (sameFound_findByUserName hc.world.db params.userName).cases with
      ⟨h, h'⟩ | ⟨u, v, h, h', huv⟩
    · rw [h, h']
      exact iff_of_true rfl rfl
    · rw [h, h']
      simp only [Option.map_some, Option.getD_some, Response.body, Body.text.injEq,
        Json.render_injective.eq_iff, userJson_eq_iff huv, hashOf, Option.some.injEq]

/-- **Answers to `get` requests without a password depend on password hashes exactly where the API
is asked for a user.** -/
theorem answers_eq_iff (P : Platform) (env : Env) (req : Request) (c c' : Ctx)
    (hc : BlindCtx c c') (hget : req.route.isGet = true) (hp : req.params.password = none) :
    answer P env req c = answer P env req c' ↔ HashUnread req c c' := by
  by_cases hroute : req.route = .getApiUser
  · obtain ⟨route, path, params⟩ := req
    subst hroute
    rw [answer_getApiUser_iff P env path params hc]
    exact ⟨fun h _ => h, fun h => h rfl⟩
  · exact iff_of_true (answer_eq_of_agree (agree_handle P env hget hp hroute) hc)
      fun h => absurd h hroute

/-- `ann` is registered, and logged in; the salt decides the hash. -/
def annAlone (salt : ℕ) : Ctx where
  world := (register .ascii 0 salt (.of "ann" "ann@x.org")).exec World.empty
  session := { Session.new with userId := some 1, userName := some "ann" }

theorem blind_annAlone : BlindCtx (annAlone 0) (annAlone 1) where
  world := ⟨⟨by decide +kernel, by decide +kernel, rfl, rfl⟩, rfl⟩
  session := rfl

/-- The profile page does not tell the two hashes. -/
theorem answers_eq_profile :
    annAlone 0 ≠ annAlone 1 ∧
      answer .ascii ⟨1, 0, false, []⟩ ⟨.getUser, "/user/ann", { userName := some "ann" }⟩
          (annAlone 0) =
        answer .ascii ⟨1, 0, false, []⟩ ⟨.getUser, "/user/ann", { userName := some "ann" }⟩
          (annAlone 1) := by
  refine ⟨fun h => ?_, (answers_eq_iff .ascii _ _ _ _ blind_annAlone rfl rfl).2 fun h => ?_⟩
  · have hrows := congrArg (fun c => c.world.db.users.rows) h
    exact absurd hrows (by decide +kernel)
  · exact Route.noConfusion h

/-- The API tells them: the hash is part of its answer. -/
theorem hash_in_answer :
    BlindCtx (annAlone 0) (annAlone 1) ∧
      answer .ascii ⟨1, 0, false, []⟩
          ⟨.getApiUser, "/api/v1/users/ann", { userName := some "ann" }⟩ (annAlone 0) ≠
        answer .ascii ⟨1, 0, false, []⟩
          ⟨.getApiUser, "/api/v1/users/ann", { userName := some "ann" }⟩ (annAlone 1) :=
  ⟨blind_annAlone, by decide +kernel⟩

end NanoTwitter
