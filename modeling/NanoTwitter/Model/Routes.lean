import Mathlib.Tactic
import NanoTwitter.Lib.Traversal
import NanoTwitter.Model.Api

/-!
# The route table

The patterns of the routes of `app.rb` and `api.rb`, and how a method and a path become a `Request`.
Before a route is looked for, the path is cleaned up (`Rack::Protection::PathTraversal`, which
Sinatra puts in front of an application). Then Sinatra tries the routes of a method in the order in
which they were defined; the value of a pattern's variable replaces a parameter of the same name, or
is added to it if that is an array.

`app.rb` loads `api.rb` before it defines routes of its own. A program that loads `api.rb` first
gets the routes of `app.rb` first, since `api.rb` starts by loading `app.rb`.
-/

namespace NanoTwitter

open Path (Seg)

/-- The methods that the application has routes for. -/
inductive Verb
  | get
  | post
  deriving DecidableEq

/-- The variables of the patterns. -/
inductive PathVar
  | userName | name | tweetId | replyId | keyWord | tagName
  deriving DecidableEq

/-- What the value `v` of a variable makes of a parameter of the same name: it goes last in an array
and takes the place of anything else. -/
def capture (v : Text) : Option Param → Option Param
  | some (.arr l) => some (.arr (l.push v))
  | _ => some (.str v)

/-- `params[x] << v` for an array, else `params[x] = v`. -/
def Params.set (params : Params) (x : PathVar) (v : Text) : Params :=
  match x with
  | .userName => { params with userName := capture v params.userName }
  | .name => { params with name := capture v params.name }
  | .tweetId => { params with tweetId := capture v params.tweetId }
  | .replyId => { params with replyId := capture v params.replyId }
  | .keyWord => { params with keyWord := capture v params.keyWord }
  | .tagName => { params with tagName := capture v params.tagName }

/-- The values of the variables, over the parameters of the query or form. -/
def Params.setAll (params : Params) (values : List (PathVar × Text)) : Params :=
  values.foldl (fun params x => params.set x.1 x.2) params

namespace Route

def verb (r : Route) : Verb := if r.isGet then .get else .post

/-- The patterns of a route; a pattern that ends in `/?` stands for two. -/
def patterns : Route → List (List (Seg PathVar))
  | getLoaderioAccded => [[.lit "loaderio-accded2323af55270a8895980c841782.txt"]]
  | getLoaderio97e => [[.lit "loaderio-97e86023c438b5621c512742d95a8419.txt"]]
  | getRoot => [[.lit ""]]
  | getFront => [[.lit "front"]]
  | getLogin => [[.lit "login"]]
  | postLoginSubmit => [[.lit "login", .lit "submit"]]
  | getLogout => [[.lit "logout"]]
  | getRegistration => [[.lit "registration"], [.lit "registration", .lit ""]]
  | postRegistrationSubmit => [[.lit "registration", .lit "submit"]]
  | getUser => [[.lit "user", .var .userName]]
  | postUserFollow => [[.lit "user", .lit "follow"]]
  | postUserUnfollow => [[.lit "user", .lit "unfollow"]]
  | postTweetNewSubmit => [[.lit "tweet", .lit "new", .lit "submit"]]
  | getSearch => [[.lit "search"], [.lit "search", .lit ""]]
  | postTweetLike => [[.lit "tweet", .lit "like"]]
  | getTag => [[.lit "tag", .var .name]]
  | getTweetReplies => [[.lit "tweet", .lit "replies"]]
  | postTweetReply => [[.lit "tweet", .lit "reply", .var .replyId]]
  | getGhPage => [[.lit "gh-page"]]
  | getApiTweet => [[.lit "api", .lit "v1", .lit "tweets", .var .tweetId]]
  | getApiFrontFeed => [[.lit "api", .lit "v1", .lit "front-feed"]]
  | getApiUser => [[.lit "api", .lit "v1", .lit "users", .var .userName]]
  | postApiLogin => [[.lit "api", .lit "v1", .lit "login"]]
  | postApiNewTweet =>
    [[.lit "api", .lit "v1", .lit "users", .var .userName, .lit "new-tweet"]]
  | getApiReplies => [[.lit "api", .lit "v1", .lit "tweets", .var .tweetId, .lit "replies"]]
  | getApiTag => [[.lit "api", .lit "v1", .lit "tag", .var .tagName]]
  | getApiProfileFeed =>
    [[.lit "api", .lit "v1", .lit "users", .var .userName, .lit "profile-feed"]]
  | getApiHomeFeed => [[.lit "api", .lit "v1", .lit "users", .var .userName, .lit "home-feed"]]
  | getApiFollowings =>
    [[.lit "api", .lit "v1", .lit "follows", .var .userName, .lit "followings"]]
  | getApiFollowers =>
    [[.lit "api", .lit "v1", .lit "follows", .var .userName, .lit "followers"]]
  | getApiLikes => [[.lit "api", .lit "v1", .lit "tweets", .var .tweetId, .lit "likes"]]
  | getApiSearch => [[.lit "api", .lit "v1", .lit "tweets", .var .keyWord, .lit "search"]]

/-- The request that a route makes of a method, a path and parameters, if it matches. -/
def request (r : Route) (verb : Verb) (path : Text) (params : Params) : Option Request :=
  if r.verb = verb then
    (r.patterns.findSome? fun p => Path.read p path).map fun values =>
      ⟨r, path, params.setAll values⟩
  else none

end Route

/-- The routes of `api.rb`, in their order. -/
def apiRoutes : List Route :=
  [.getApiTweet, .getApiFrontFeed, .getApiUser, .postApiLogin, .postApiNewTweet, .getApiReplies,
    .getApiTag, .getApiProfileFeed, .getApiHomeFeed, .getApiFollowings, .getApiFollowers,
    .getApiLikes, .getApiSearch]

/-- The routes of `app.rb`, in their order. -/
def appRoutes : List Route :=
  [.getLoaderioAccded, .getLoaderio97e, .getRoot, .getFront, .getLogin, .postLoginSubmit,
    .getLogout, .getRegistration, .postRegistrationSubmit, .getUser, .postUserFollow,
    .postUserUnfollow, .postTweetNewSubmit, .getSearch, .postTweetLike, .getTag, .getTweetReplies,
    .postTweetReply, .getGhPage]

/-- The first route that matches what is left of the path; without one the answer is 404. -/
def dispatch (routes : List Route) (verb : Verb) (path : Text) (params : Params) :
    Option Request :=
  routes.findSome? fun r => r.request verb (Path.cleanup path) params

/-- The application as `config.ru` loads it. -/
def routed (verb : Verb) (path : Text) (params : Params) : Option Request :=
  dispatch (apiRoutes ++ appRoutes) verb path params

end NanoTwitter
