import Mathlib.Tactic
import NanoTwitter.Model.Session

/-!
# The page templates

The `.erb` files under `views/`. A page is the list of its pieces in order: `lit t n` is the `n`-th
stretch of fixed markup of template `t`, `out v` a value that the template writes. Everything a
template reads (instance variables, session, stores) shows in the pieces.

Rendering can raise: on a user that is nil, on a cached entry that is no JSON array, on an author
that is no string, on a session without user name. The navigation bar of every page calls
`authenticate!`, which may write to the session; nothing else in a template does, so the templates
are functions and `render` puts them together.
-/

namespace NanoTwitter

open Ruby (decimal)

/-- The template files. -/
inductive Template
  | layout | navbar | home | feed | myHome | userInfo | writeTweet | profile | followButton
  | login | registration | search | tag | error | ghPage
  deriving DecidableEq

/-- A piece of a page. -/
inductive Piece
  | lit (t : Template) (n : ℕ)
  | out (v : Text)
  deriving DecidableEq

open Piece (lit out)

/-- A page, or a part of one. -/
abbrev Html := List Piece

/-- What a template contributes to the head (`content_for :head`) and to the body of the layout. -/
structure Page where
  head : Html
  body : Html

/-! ### `feed.erb` -/

/-- `tweet[i]` of a parsed entry. -/
def item (j : Json) (i : ℕ) : Except Error Json :=
  match j with
  | .arr l => pure (l.getD i .null)
  | _ => throw .noMethodError

/-- The text a value is written as. -/
def toS : Json → Text
  | .null => []
  | .str s => s
  | j => j.render

/-- One tweet of `feed.erb`: its four fields as texts. -/
structure FeedItem where
  author : Text
  text : Text
  createdAt : Text
  id : Text

/-- The fields of a cached entry; the author must be a string. -/
def feedItem (raw : Text) : Except Error FeedItem :=
  match Json.parse raw with
  | none => throw .parserError
  | some tweet => do
    match ← item tweet 0 with
    | .str author =>
      return ⟨author, toS (← item tweet 1), toS (← item tweet 2), toS (← item tweet 3)⟩
    | _ => throw .typeError

/-- The fields of a search result. -/
def searchItem (e : Entry) : FeedItem :=
  ⟨e.userName, e.text, (e.createdAt.map Ruby.timeToS).getD [], (e.id.map decimal).getD []⟩

/-- The markup of one tweet; `ffeed` is `@ffeed`. -/
def tweetHtml (session : Session) (ffeed : Bool) (i : FeedItem) : Html :=
  [lit .feed 0, out (("/user/" : Text) ++ i.author), lit .feed 1, out i.author, lit .feed 2,
    out i.createdAt, lit .feed 3, out i.text, lit .feed 4] ++
  (if ffeed then [] else
    [lit .feed 5, out i.id, lit .feed 6] ++
    (if session.userName = some i.author then [] else [lit .feed 7, out i.id, lit .feed 8]) ++
    [lit .feed 9, out i.id, lit .feed 10]) ++
  [lit .feed 11]

/-- `feed.erb` for cached tweets. -/
def feed (session : Session) (ffeed : Bool) (tweets : List Text) : Except Error Html := do
  return (← tweets.mapM feedItem).flatMap (tweetHtml session ffeed)

/-! ### The other templates -/

/-- `user_info.erb`; `home` is `@home`. -/
def userInfo (session : Session) (home : Bool) (u : Row User) : Html :=
  let own := decide (session.userName = some u.attrs.userName)
  [lit .userInfo 0, lit .userInfo (if own then 1 else 2), out u.attrs.userName,
    lit .userInfo 3, out (Json.renderInt u.attrs.followerCount),
    lit .userInfo 4, out (Json.renderInt u.attrs.followingCount),
    lit .userInfo 5, out u.attrs.userName, lit .userInfo 6,
    out (Json.renderInt u.attrs.tweetCount), lit .userInfo 7] ++
  (if home && own then [lit .userInfo 8, out (("/user/" : Text) ++ u.attrs.userName)]
    else if own then [lit .userInfo 9] else []) ++
  [lit .userInfo 10]

/-- `follow_button.erb`. -/
def followButton (session : Session) (followStatus : Bool) (u : Row User) : Html :=
  if session.userId.isSome && decide (session.userId ≠ some u.id) then
    [lit .followButton (if followStatus then 0 else 1), out u.attrs.userName,
      lit .followButton (if followStatus then 2 else 3)]
  else []

/-- `home.erb`. -/
def home (session : Session) (ffeed : Bool) (tweets : List Text) : Except Error Page := do
  let items ← feed session ffeed tweets
  return ⟨[lit .home 0], [lit .home 1] ++ items ++ [lit .home 2]⟩

/-- `my_home.erb`. -/
def myHome (session : Session) (user : Option (Row User)) (tweets : List Text) :
    Except Error Page :=
  match user with
  | none => throw .noMethodError
  | some u => do
    let items ← feed session false tweets
    return ⟨[lit .myHome 0, out u.attrs.userName, lit .myHome 1],
      [lit .myHome 2] ++ userInfo session true u ++ [lit .writeTweet 0, lit .myHome 3,
        out u.attrs.userName, lit .myHome 4] ++ items ++ [lit .myHome 5]⟩

/-- `profile.erb`. -/
def profile (session : Session) (followStatus : Bool) (u : Row User) (tweets : List Text) :
    Except Error Page := do
  let items ← feed session false tweets
  return ⟨[lit .profile 0, out u.attrs.userName, lit .profile 1],
    [lit .profile 2] ++ userInfo session false u ++ followButton session followStatus u ++
      [lit .profile 3, out u.attrs.userName, lit .profile 4] ++ items ++ [lit .profile 5]⟩

/-- `login.erb`. -/
def loginPage (session : Session) : Page :=
  ⟨[], [lit .login 0, out (session.error.getD []), lit .login 1]⟩

/-- `search.erb`. The keyword, when there is one, keeps `feed.erb` from parsing the tweets. -/
def searchPage (session : Session) (keyword : Option Text) (tweets : List Entry) : Page :=
  ⟨[lit .search 0],
    [lit .search 1, out (decimal tweets.length), lit .search 2, out (keyword.getD []),
      lit .search 3] ++ (tweets.map searchItem).flatMap (tweetHtml session false) ++
      [lit .search 4]⟩

/-- `tag.erb`. -/
def tagPage (session : Session) (name : Text) (tweets : List Text) : Except Error Page := do
  let items ← feed session false tweets
  return ⟨[lit .tag 0, out name, lit .tag 1],
    [lit .tag 2, out name, lit .tag 3] ++ items ++ [lit .tag 4]⟩

/-- `registration.erb` and `error.erb`, which write no values. -/
def staticPage (t : Template) : Page := ⟨[lit t 0], [lit t 1]⟩

/-- `gh_page.erb`, which has no head of its own. -/
def ghPage : Page := ⟨[], [lit .ghPage 0]⟩

/-- `navbar.erb`, after its call of `authenticate!`. -/
def navbar (session : Session) (authenticated : Bool) : Except Error Html :=
  if authenticated then
    match session.userName with
    | some name => pure [lit .navbar 0, lit .navbar 1, out (("/user/" : Text) ++ name),
        lit .navbar 2, lit .navbar 4]
    | none => throw .typeError
  else pure [lit .navbar 0, lit .navbar 3, lit .navbar 4]

/-- `layout.erb` around a page. -/
def layout (page : Page) (nav : Html) : Html :=
  [lit .layout 0] ++ page.head ++ [lit .layout 1] ++ nav ++ [lit .layout 2] ++ page.body ++
    [lit .layout 3]

/-- `erb`: the page first, then the layout around it with the navigation bar. -/
def render (path : Text) (page : Session → Except Error Page) : Handler Html := do
  let page ← ofExcept (page (← getSession))
  let authenticated ← authenticate path
  let nav ← ofExcept (navbar (← getSession) authenticated)
  return layout page nav

end NanoTwitter
