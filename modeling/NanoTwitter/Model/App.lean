import Mathlib.Tactic
import NanoTwitter.Model.Views

/-!
# The routes of `app.rb`

Each route is a handler. The writing routes are split in two: what they do to the stores
(`register`, `follow`, `unfollow`, `like`) and the handler around it, which reads the session and
answers.
-/

namespace NanoTwitter

open Ruby (Time decimal)

/-- An answer. A redirect has no body. -/
inductive Response
  | page (html : Html)
  | json (body : Text)
  | file (name : Text)
  | redirect (location : Text)
  | empty
  deriving DecidableEq

/-! ### What the writing routes do to the stores -/

/-- `User.create(…)` and `u.save`: the user when the second save succeeds. A user that `create` has
stored is validated once more; one that it has refused is tried again. -/
def register (P : Platform) (now : Time) (salt : ℕ) (form : User.Form) :
    Prog (Option (Row User)) := do
  let u := User.new P salt now form
  match ← User.saveNew P u with
  | some r => pure (if r.attrs.valid P (← get).db.users (some r.id) then some r else none)
  | none => User.saveNew P u

/-- The first four statements of `POST /user/follow`. -/
def follow (P : Platform) (now : Time) (userId : Option ℕ) (userName : Option Param) :
    Prog Unit := do
  let followed ← orRaise (User.missing userName) (User.findByUserName (← get).db userName)
  Follow.create userId followed.id
  let user ← User.find userId
  incrementFollowings P now user
  incrementFollowers P now followed

/-- The first four statements of `POST /user/unfollow`. -/
def unfollow (P : Platform) (now : Time) (userId : Option ℕ) (userName : Option Param) :
    Prog Unit := do
  let followed ← orRaise (User.missing userName) (User.findByUserName (← get).db userName)
  Follow.destroyAll userId followed.id
  let user ← User.find userId
  decrementFollowings P now user
  decrementFollowers P now followed

/-- `POST /tweet/like`, with the JSON value it answers. -/
def like (now : Time) (userId : Option ℕ) (tweetId : Option Text) : Prog Json := do
  let tweet ← Tweet.find tweetId
  if !(← likedBefore userId tweet.id) then
    let likes ← Tweet.incrementLikes now tweet
    cacheLikes userId tweet.id
    pure (.num likes)
  else
    pure (.str ('a' :: Json.renderInt tweet.attrs.likes))

/-! ### Handlers -/

/-- `home_page(user)`. -/
def homePage (path : Text) (user : Option (Row User)) : Handler Response := do
  let tweets ← match (← getSession).userId with
    | some id => onWorld (accessHfeed id)
    | none => pure [] -- both callers come here with a session user
  return .page (← render path fun session => myHome session user tweets)

/-- `test_2_or_3?(params)`. -/
def testTwoOrThree (P : Platform) (env : Env) (params : Params) : Handler Bool := do
  if params.user.isSome && params.password.isSome then
    match ← login P params with
    | .session =>
      if params.randomtweet.isSome then
        -- an array or a hash has no `to_f`
        let _ ← orRaise .noMethodError (textOf params.randomtweet)
        if env.randHit then
          onWorld (makeTweet P env.now (some env.faker) (← getSession).userId none)
      return true
    | _ => return false
  else
    return false

/-- The front page. -/
def frontPage (path : Text) (ffeed : Bool) : Handler Response := do
  let tweets ← onWorld accessFfeed
  return .page (← render path fun session => home session ffeed tweets)

/-- `GET /`. -/
def getRoot (P : Platform) (env : Env) (path : Text) (params : Params) : Handler Response := do
  if ← authenticate path then
    homePage path ((← getSession).userId.bind (← getDb).users.find)
  else if ← testTwoOrThree P env params then
    runQuery params.user
    homePage path (User.findByUserName (← getDb) params.user)
  else
    frontPage path true

/-- `GET /front`. -/
def getFront (path : Text) : Handler Response := frontPage path false

/-- `POST /login/submit`. -/
def postLoginSubmit (P : Platform) (params : Params) : Handler Response := do
  match ← login P params with
  | .session =>
    modifySession fun s => { s with error := some [] }
    return .redirect "/"
  | _ =>
    modifySession fun s => { s with error := some "Incorrect login information" }
    return .redirect "/login"

/-- `GET /logout`. -/
def getLogout : Handler Response := do
  logOutNow
  return .redirect "/"

/-- `POST /registration/submit`. -/
def postRegistrationSubmit (P : Platform) (env : Env) (params : Params) : Handler Response := do
  match ← onWorld (register P env.now env.salt (params.form P)) with
  | some u =>
    modifySession fun s => s.as u
    return .redirect "/"
  | none => return .redirect "/registration"

/-- `GET /user/:user_name`. A known user is shown to clients with a session user only. -/
def getUser (path : Text) (params : Params) : Handler Response := do
  runQuery params.userName
  match User.findByUserName (← getDb) params.userName with
  | some u =>
    match (← getSession).userId with
    | some id =>
      let followStatus := Follow.exists? (← getDb) id u.id
      let tweets ← onWorld (accessPfeed u.id)
      return .page (← render path fun session => profile session followStatus u tweets)
    | none => return .redirect "/"
  | none => return .page (← render path fun _ => pure (staticPage .error))

/-- `POST /user/follow`. -/
def postUserFollow (P : Platform) (env : Env) (params : Params) : Handler Response := do
  onWorld (follow P env.now (← getSession).userId params.userName)
  -- only a text is added to a text
  let name ← orRaise .typeError (textOf params.userName)
  return .redirect (("user/" : Text) ++ name)

/-- `POST /user/unfollow`. -/
def postUserUnfollow (P : Platform) (env : Env) (params : Params) : Handler Response := do
  onWorld (unfollow P env.now (← getSession).userId params.userName)
  let name ← orRaise .typeError (textOf params.userName)
  return .redirect (("user/" : Text) ++ name)

/-- `POST /tweet/new/submit`. -/
def postTweetNewSubmit (P : Platform) (env : Env) (params : Params) : Handler Response := do
  onWorld (makeTweet P env.now (textOf params.tweetText) (← getSession).userId none)
  let name ← orRaise .typeError (← getSession).userName
  return .redirect (("user/" : Text) ++ name)

/-- `GET /search`. -/
def getSearch (P : Platform) (path : Text) (params : Params) : Handler Response := do
  if (← getSession).userId.isSome then
    -- `include?` raises on an array or a hash as it does on nil
    let tweets ← ofExcept (searchTweets (← getDb) (textOf params.keyword))
    let keyword := params.keyword.map (Param.toS P)
    return .page (← render path fun session => pure (searchPage session keyword tweets))
  else
    return .redirect "/"

/-- `POST /tweet/like`. An array or a hash finds no tweet: `Tweet.find` raises on it, or returns an
array, and an array has no `id`. -/
def postTweetLike (env : Env) (params : Params) : Handler Response := do
  let answer ← onWorld (like env.now (← getSession).userId (textOf params.tweetId))
  return .json answer.render

/-- `GET /tag/:name`. -/
def getTag (P : Platform) (path : Text) (params : Params) : Handler Response := do
  if (← getSession).userId.isSome then
    let tag := shown P params.name
    let tweets ← onWorld (accessTag tag)
    return .page (← render path fun session => tagPage session tag tweets)
  else
    return .redirect "/"

/-- `GET /tweet/replies`. -/
def getTweetReplies (P : Platform) (params : Params) : Handler Response := do
  let replies ← onWorld (accessReplies (shown P params.tweetId))
  return .json (Json.arr replies).render

/-- `POST /tweet/reply/:reply_id`. -/
def postTweetReply (P : Platform) (env : Env) (params : Params) : Handler Response := do
  let replyId := params.replyId.map (Param.toS P)
  onWorld (makeTweet P env.now (textOf params.tweetText) (← getSession).userId replyId)
  return .redirect "/"

end NanoTwitter
