import Mathlib.Tactic
import NanoTwitter.Model.App

/-!
# The routes of `api.rb`, and all routes together

The API answers with the JSON of records, cached entries and lists of names; a route that finds
nothing answers with an empty body. `handle` is the application: it runs the code of a route.
-/

namespace NanoTwitter

open Ruby (Time decimal)

/-! ### Records as JSON -/

/-- The JSON value of a point in time. -/
def jsonTime (t : Time) : Json := .str (Ruby.iso8601 t)

/-- The attributes of a user, in the order of the columns. -/
def userAttributes (u : Row User) : List (Text × Json) :=
  [("id", .num u.id), ("name", .str u.attrs.name), ("user_name", .str u.attrs.userName),
    ("email", .str u.attrs.email), ("password_hash", .str u.attrs.passwordHash),
    ("follower_count", .num u.attrs.followerCount),
    ("following_count", .num u.attrs.followingCount), ("tweet_count", .num u.attrs.tweetCount),
    ("created_at", jsonTime u.attrs.createdAt), ("updated_at", jsonTime u.attrs.updatedAt)]

/-- `User#to_json`: `super(:except => :password)`. -/
def userJson (u : Row User) : Json :=
  .obj ((userAttributes u).filter fun a => a.1 ≠ ("password" : Text))

/-- The JSON value of a tweet. -/
def tweetJson (t : Row Tweet) : Json :=
  .obj [("id", .num t.id), ("text", .str t.attrs.text), ("likes", .num t.attrs.likes),
    ("author_id", .num t.attrs.authorId), ("author_name", .str t.attrs.authorName),
    ("created_at", jsonTime t.attrs.createdAt), ("updated_at", jsonTime t.attrs.updatedAt),
    ("reply_id", match t.attrs.replyId with
      | some n => .num n
      | none => .null)]

/-- The session fields of the application as JSON, those that are set. -/
def sessionJson (s : Session) : Json :=
  let field (k : Text) (v : Option Json) : Option (Text × Json) := v.map fun v => (k, v)
  .obj ([field "user_id" (s.userId.map fun n => .num n), field "user_name" (s.userName.map .str),
    field "error" (s.error.map .str),
    field "original_request" (s.originalRequest.map .str)].filterMap id)

/-- A list of texts as JSON. -/
def textsJson (l : List Text) : Json := .arr (l.map .str)

/-! ### Handlers -/

/-- `params[name].to_i`; nil is zero. -/
def intOf (v : Option Param) : Except Error ℤ :=
  match v with
  | none => .ok 0
  | some (.str s) => .ok (Ruby.toI s)
  | some _ => .error .noMethodError

/-- `GET /api/v1/tweets/:tweet_id`. -/
def getApiTweet (params : Params) : Handler Response := do
  let id ← ofExcept (intOf params.tweetId)
  match (← getDb).tweets.rows.find? fun t => (t.id : ℤ) = id with
  | some t => return .json (Json.arr [tweetJson t]).render
  | none => return .empty

/-- `GET /api/v1/front-feed`. -/
def getApiFrontFeed : Handler Response := do
  return .json (textsJson (← onWorld accessFfeed)).render

/-- `GET /api/v1/users/:user_name`. -/
def getApiUser (params : Params) : Handler Response := do
  runQuery params.userName
  match User.findByUserName (← getDb) params.userName with
  | some u => return .json (userJson u).render
  | none => return .empty

/-- `POST /api/v1/login`. -/
def postApiLogin (P : Platform) (params : Params) : Handler Response := do
  match ← login P params with
  | .session => return .json (sessionJson (← getSession)).render
  | .nil => return .json Json.null.render
  | .false => return .json (Json.bool false).render

/-- `POST /api/v1/users/:user_name/new-tweet`. -/
def postApiNewTweet (P : Platform) (env : Env) (params : Params) : Handler Response := do
  let u ← orRaise (User.missing params.userName) (User.findByUserName (← getDb) params.userName)
  onWorld (makeTweet P env.now (textOf params.text) (some u.id) none)
  return .json (Json.str "success").render

/-- `GET /api/v1/tweets/:tweet_id/replies`. -/
def getApiReplies (P : Platform) (params : Params) : Handler Response := do
  return .json (Json.arr (← onWorld (accessReplies (shown P params.tweetId)))).render

/-- `GET /api/v1/tag/:tag_name`. -/
def getApiTag (P : Platform) (params : Params) : Handler Response := do
  return .json (textsJson (← onWorld (accessTag (shown P params.tagName)))).render

/-- A feed of a user as JSON. -/
def getApiFeed (access : ℕ → Prog (List Text)) (params : Params) : Handler Response := do
  runQuery params.userName
  match User.findByUserName (← getDb) params.userName with
  | some u => return .json (textsJson (← onWorld (access u.id))).render
  | none => return .empty

/-- `GET /api/v1/users/:user_name/profile-feed`. -/
def getApiProfileFeed : Params → Handler Response := getApiFeed accessPfeed

/-- `GET /api/v1/users/:user_name/home-feed`. -/
def getApiHomeFeed : Params → Handler Response := getApiFeed accessHfeed

/-- `get_names(list, followers, names)`. -/
def getNames (list : List (Row Follow)) (followers : Bool) : Handler Response := do
  let names ← list.mapM fun item => do
    let id := if followers then item.attrs.followerId else item.attrs.followedId
    return (← onWorld (User.find (some id))).attrs.userName
  return .json (textsJson names).render

/-- `find_follows(user_name, followers)`: the users of the name form a subquery. -/
def findFollows (params : Params) (followers : Bool) : Handler Response := do
  runQuery params.userName
  let db ← getDb
  match User.findByUserName db params.userName with
  | some _ =>
    let ids := (db.users.rows.filter fun u => u.attrs.userName ∈ wanted params.userName).map Row.id
    let list := db.follows.rows.filter fun f =>
      (if followers then f.attrs.followedId else f.attrs.followerId) ∈ ids
    getNames list followers
  | none => return .empty

/-- `GET /api/v1/tweets/:tweet_id/likes`: `RedisClass.access_likes` is not defined. -/
def getApiLikes : Handler Response := throw .noMethodError

/-- `GET /api/v1/tweets/:key_word/search`. -/
def getApiSearch (params : Params) : Handler Response := do
  let tweets ← ofExcept (searchTweets (← getDb) (textOf params.keyWord))
  return .json (Json.arr (tweets.map Entry.json)).render

/-! ### The application -/

/-- The routes of `app.rb` and `api.rb`. -/
inductive Route
  | getLoaderioAccded | getLoaderio97e
  | getRoot | getFront | getLogin | postLoginSubmit | getLogout | getRegistration
  | postRegistrationSubmit | getUser | postUserFollow | postUserUnfollow | postTweetNewSubmit
  | getSearch | postTweetLike | getTag | getTweetReplies | postTweetReply | getGhPage
  | getApiTweet | getApiFrontFeed | getApiUser | postApiLogin | postApiNewTweet | getApiReplies
  | getApiTag | getApiProfileFeed | getApiHomeFeed | getApiFollowings | getApiFollowers
  | getApiLikes | getApiSearch
  deriving DecidableEq

/-- The routes declared with `get`. -/
def Route.isGet : Route → Bool
  | .postLoginSubmit | .postRegistrationSubmit | .postUserFollow | .postUserUnfollow
  | .postTweetNewSubmit | .postTweetLike | .postTweetReply | .postApiLogin
  | .postApiNewTweet => false
  | _ => true

/-- A request: the route it matches, its path and its parameters. -/
structure Request where
  route : Route
  path : Text
  params : Params

/-- The code of the route that a request matches. -/
def handle (P : Platform) (env : Env) (req : Request) : Handler Response :=
  let path := req.path
  let params := req.params
  match req.route with
  | .getLoaderioAccded => return .file "loaderio-accded2323af55270a8895980c841782.txt"
  | .getLoaderio97e => return .file "loaderio-97e86023c438b5621c512742d95a8419.txt"
  | .getRoot => getRoot P env path params
  | .getFront => getFront path
  | .getLogin => return .page (← render path fun session => pure (loginPage session))
  | .postLoginSubmit => postLoginSubmit P params
  | .getLogout => getLogout
  | .getRegistration =>
      return .page (← render path fun _ => pure (staticPage .registration))
  | .postRegistrationSubmit => postRegistrationSubmit P env params
  | .getUser => getUser path params
  | .postUserFollow => postUserFollow P env params
  | .postUserUnfollow => postUserUnfollow P env params
  | .postTweetNewSubmit => postTweetNewSubmit P env params
  | .getSearch => getSearch P path params
  | .postTweetLike => postTweetLike env params
  | .getTag => getTag P path params
  | .getTweetReplies => getTweetReplies P params
  | .postTweetReply => postTweetReply P env params
  | .getGhPage => return .page (← render path fun _ => pure ghPage)
  | .getApiTweet => getApiTweet params
  | .getApiFrontFeed => getApiFrontFeed
  | .getApiUser => getApiUser params
  | .postApiLogin => postApiLogin P params
  | .postApiNewTweet => postApiNewTweet P env params
  | .getApiReplies => getApiReplies P params
  | .getApiTag => getApiTag P params
  | .getApiProfileFeed => getApiProfileFeed params
  | .getApiHomeFeed => getApiHomeFeed params
  | .getApiFollowings => findFollows params false
  | .getApiFollowers => findFollows params true
  | .getApiLikes => getApiLikes
  | .getApiSearch => getApiSearch params

end NanoTwitter
