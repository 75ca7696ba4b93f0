import Mathlib.Tactic
import NanoTwitter.Model.TweetProcessor

/-!
# Requests, sessions and logins

A request reaches a handler as its `Params`; the handler runs on a `Ctx`, the two stores together
with the session of the client that sent the request. `Env` is what the environment decides in the
course of a request: the clock, BCrypt's salt, the outcome of `rand < …` and Faker's sentence.

The functions of `helpers/authentication.rb` follow.
-/

namespace NanoTwitter

open Ruby (Time)

/-- The fields of `session` that the application reads. -/
structure Session where
  userId : Option ℕ
  userName : Option Text
  error : Option Text
  originalRequest : Option Text
  deriving DecidableEq

/-- The session of a client that has sent nothing yet. -/
def Session.new : Session := ⟨none, none, none, none⟩

/-- `session[:user_id] = u.id; session[:user_name] = u.user_name`. -/
def Session.as (s : Session) (u : Row User) : Session :=
  { s with userId := some u.id, userName := some u.attrs.userName }

/-- The parameters the application reads, from the query, the form or the path. -/
structure Params where
  user : Option Param := none
  userName : Option Param := none
  name : Option Param := none
  email : Option Param := none
  password : Option Param := none
  randomtweet : Option Param := none
  tweetText : Option Param := none
  tweetId : Option Param := none
  replyId : Option Param := none
  keyword : Option Param := none
  keyWord : Option Param := none
  tagName : Option Param := none
  text : Option Param := none

/-- The attributes that `POST /registration/submit` hands to `User.create`, as the columns and
BCrypt take them: by `to_s`. -/
def Params.form (P : Platform) (params : Params) : User.Form :=
  ⟨params.name.map (Param.toS P), params.email.map (Param.toS P),
    params.userName.map (Param.toS P), params.password.map (Param.toS P)⟩

/-- What the environment decides during a request. -/
structure Env where
  now : Time
  salt : ℕ
  randHit : Bool
  faker : Text

/-- What a handler works on. -/
structure Ctx where
  world : World
  session : Session

/-- The code of a route. -/
abbrev Handler := EStateM Error Ctx

/-- Run code over the stores inside a handler. -/
def onWorld {α : Type} (p : Prog α) : Handler α := fun c =>
  match p c.world with
  | .ok a w => .ok a { c with world := w }
  | .error e w => .error e { c with world := w }

def getDb : Handler Db := fun c => .ok c.world.db c

theorem getDb_ok {c : Ctx} : getDb c = .ok c.world.db c := rfl

def getSession : Handler Session := fun c => .ok c.session c

theorem getSession_ok {c : Ctx} : getSession c = .ok c.session c := rfl

def modifySession (f : Session → Session) : Handler Unit := fun c =>
  .ok () { c with session := f c.session }

def ofExcept {α : Type} : Except Error α → Handler α
  | .ok a => pure a
  | .error e => throw e

/-! ### `helpers/authentication.rb` -/

/-- `authenticate!` during a request to `path`: a session whose user does not exist (any more)
remembers the path. -/
def authenticate (path : Text) : Handler Bool := do
  let id := (← getSession).userId
  if (id.bind (← getDb).users.find).isSome then
    pure true
  else
    modifySession fun s => { s with originalRequest := some path }
    pure false

/-- The user that `login(params)` looks up: by email when there is one, else by user name. -/
def loginUser (db : Db) (params : Params) : Option (Row User) :=
  if params.email.isSome then User.findByEmail db params.email
  else User.findByUserName db params.userName

/-- The result of `login`: the session, `nil`, or `false`. -/
inductive LoginResult
  | session
  | nil
  | false
  deriving DecidableEq

/-- `u && u.password == params[:password]`. -/
def passwordOk (P : Platform) (u : Row User) (password : Option Param) : Bool :=
  P.passwordMatches u.attrs.passwordHash (shown P password)

/-- `login(params)`. -/
def login (P : Platform) (params : Params) : Handler LoginResult := do
  if params.email.isNone && params.userName.isNone then
    pure .false
  else
    runQuery (params.email <|> params.userName)
    match loginUser (← getDb) params with
    | some u =>
      if passwordOk P u params.password then
        modifySession fun s => s.as u
        pure .session
      -- a session that was logged in before stays so
      else pure .nil
    | none => pure .nil

/-- `log_out_now`. -/
def logOutNow : Handler Unit := modifySession fun s => { s with userId := none, userName := none }

end NanoTwitter
