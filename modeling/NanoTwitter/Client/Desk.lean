import Mathlib.Tactic
import NanoTwitter.Client.Terminal
import NanoTwitter.Lib.Simulation
import NanoTwitter.Web.FeedFormats
import NanoTwitter.Web.FollowViews

/-!
# What a session of the client is for

The session that somebody at the terminal should find, written as a program that looks at the stores
themselves: no addresses, no routes, no JSON. What other clients do happens when a call would arrive
(`arrive`). Nothing is said about names and texts that would not arrive as they are.

The tweets of a feed are named by the texts that Redis holds, so this level is not computable.
-/

namespace NanoTwitter

open ClientLibrary (help)

/-- The user, the lines still to be typed, what was printed, the application, and how many calls
were made. -/
structure Desk where
  user : Option Text
  stdin : List Text
  out : List Printed
  site : Site
  sent : ℕ

/-- What a call of the API has in its address. -/
def ApiCall.word : ApiCall → Option Text
  | .frontFeed => none
  | .tweet t | .profileFeed t | .homeFeed t | .search t => some t

namespace Desk

/-- What happens at the desk. -/
abbrev Shell := EStateM.Spec Stop Desk

/-- Nothing is said about what follows. -/
def unsaid {α : Type} : Shell α := throw none

def say (l : List Printed) : Shell Unit := modify fun d => { d with out := d.out ++ l }

def sayLines (l : List Text) : Shell Unit := say (l.map .line)

/-- The next line; without one the session fails. -/
def ask : Shell Text := fun d =>
  match d.stdin with
  | [] => .error (some (.raised .noMethodError)) d
  | l :: ls => .ok l { d with stdin := ls }

/-- What stands before the line that is typed. -/
def prompt (user : Option Text) : Text :=
  user.elim "nt>" fun name => ("nt " : Text) ++ name ++ (">" : Text)

/-- The lines about an account. -/
def infoLines (u : Row User) : List Text :=
  [("username:\t\t\t" : Text) ++ u.attrs.userName ++ (" " : Text),
    ("tweet count:\t\t\t" : Text) ++ Json.renderInt u.attrs.tweetCount,
    ("# of followers:\t\t\t" : Text) ++ Json.renderInt u.attrs.followerCount,
    ("# of people following:\t\t\t" : Text) ++ Json.renderInt u.attrs.followingCount]

/-- The complaint about a command. -/
def errorLines (word : Text) : List Text :=
  [("command after \"" : Text) ++ word ++ ("\" incorrect or invalid for a logged out user" : Text),
    "(use the \"help\" command for instructions)"]

instance : Nonempty Entry := ⟨⟨[], [], none, none⟩⟩

/-- The tweets of the feeds. -/
noncomputable def cached (w : World) (s : Slot) : List Entry :=
  ((view w.redis).feeds s).map (Function.invFun Entry.toJson)

/-- A name or text that arrives as it is. -/
def addressable (n : Text) : Bool := plain n && decide (n ≠ [])

variable (P : Platform) (S : Surroundings)

/-- The application when the next call arrives. -/
def atCall (d : Desk) : Site := Run.run (serve P) d.site (S.traffic d.sent)

/-- The stores when a call arrives. -/
def arrive : Shell World := fun d =>
  .ok (atCall P S d).world { d with site := atCall P S d, sent := d.sent + 1 }

/-! ### The commands -/

/-- Show tweets, and return whether there were any. -/
noncomputable def list (call : ApiCall) : Shell Bool := do
  if call.word.all addressable then
    let w ← arrive P S
    match call.had w.db (cached w) with
    | none =>
      sayLines [incorrectQuery]
      return false
    | some l =>
      sayLines (l.flatMap (Triple.lines call.close))
      return !l.isEmpty
  else unsaid

/-- `feed`. -/
noncomputable def feed (words : List Text) : Shell Unit := do
  let user := (← get).user
  if words[1]? = some ("profile" : Text) then
    match words[2]?.or user with
    | some n => let _ ← list P S (.profileFeed n)
    | none => pure ()
  else if words[1]? = some ("home" : Text) ∧ user.isSome then
    let _ ← list P S (.homeFeed (user.getD []))
  else if words[1]? = some ("front" : Text) then
    let _ ← list P S .frontFeed
  else sayLines (errorLines (words[0]?.getD []))

/-- The account of a user; for anybody else the session ends. -/
def showInfo (n : Text) : Shell Unit :=
  if addressable n then do
    match User.findByUserName (← arrive P S).db (some n) with
    | some u => sayLines (infoLines u)
    | none => throw (some .nameError)
  else unsaid

/-- `info`. -/
def info (words : List Text) : Shell Unit := do
  match words[1]?.or (← get).user with
  | some n => showInfo P S n
  | none => pure ()

/-- The word of a command about follows. -/
def kindOf (followers : Bool) : Text := if followers then "followers" else "followings"

/-- The names on the other side of the follows of a user. -/
def showFollows (followers : Bool) (n : Text) : Shell Unit :=
  if addressable n then do
    let w ← arrive P S
    match User.findByUserName w.db (some n) with
    | some u => sayLines (followNames w.db followers u.id)
    | none => sayLines (errorLines (kindOf followers))
  else unsaid

/-- `followers` and `followings`. -/
def follows (followers : Bool) (words : List Text) : Shell Unit := do
  match words[1]?.or (← get).user with
  | some n => showFollows P S followers n
  | none => sayLines (errorLines (kindOf followers))

/-- `tweet new`: the text is handed to `make_tweet` in the name of the user. That the tweet was made
is said whatever becomes of the text, unless the JSON gem does not read a text by itself. -/
def tweetNew (n : Text) : Shell Unit := do
  say [.text "tweet text: "]
  let text ← ask
  if addressable n then
    let env := S.env (← get).sent
    let w ← arrive P S
    match User.findByUserName w.db (some n) with
    | some u =>
      let w' := (makeTweet P env.now (some text) (some u.id) none).exec w
      modify fun d => { d with site := { d.site with world := w' } }
      if S.scalars then sayLines ["tweet made succesfully"]
      else throw (some (.raised .parserError))
    | none => pure ()
  else unsaid

/-- `tweet`. -/
noncomputable def tweet (words : List Text) : Shell Unit := do
  let user := (← get).user
  if words[1]? = some ("new" : Text) ∧ user.isSome then tweetNew P S (user.getD [])
  else if Ruby.toI (words[1]?.getD []) ≠ 0 then
    let _ ← list P S (.tweet (words[1]?.getD []))
  else sayLines (errorLines (words[0]?.getD []))

/-- `login`: whoever has given the password of a user is that user from then on. -/
def login : Shell Unit := do
  say [.text "username: "]
  let userName ← ask
  say [.text "password: "]
  let password ← ask
  let w ← arrive P S
  match credentials P w.db { userName := some userName, password := some password } with
  | some _ =>
    sayLines [("Welcome " : Text) ++ userName ++ (", you are now logged in to nanotwitter" : Text)]
    modify fun d => { d with user := some userName }
  | none => sayLines ["incorrect login information"]

/-- `search`. -/
noncomputable def search : Shell Unit := do
  say [.text "search text: "]
  let text ← ask
  if !(← list P S (.search text)) then
    sayLines [("no seach results for the query \"" : Text) ++ text ++ ("\"" : Text)]

/-- The command that the first word names. -/
noncomputable def command (words : List Text) : Shell Unit :=
  if words[0]? = some ("login" : Text) then login P S
  else if words[0]? = some ("help" : Text) then sayLines help
  else if words[0]? = some ("feed" : Text) then feed P S words
  else if words[0]? = some ("search" : Text) then search P S
  else if words[0]? = some ("tweet" : Text) then tweet P S words
  else if words[0]? = some ("info" : Text) then info P S words
  else if words[0]? = some ("followers" : Text) then follows P S true words
  else if words[0]? = some ("followings" : Text) then follows P S false words
  else if words[0]? = some ("exit" : Text) then throw (some .exit)
  else sayLines ["unrecognized command"]

/-- One line is asked for, and what it says is done. -/
noncomputable def round : Shell Unit := do
  say [.text (prompt (← get).user)]
  command P S (Ruby.split (← ask))

/-- A session of at most `n` rounds: how it ends, if it does. -/
noncomputable def session : ℕ → Desk → Option (Option Stop × Desk)
  | 0, _ => none
  | n + 1, d =>
    match round P S d with
    | .ok _ d' => session n d'
    | .error s d' => some (s, d')

/-- The start of a session. -/
def start (site : Site) (stdin : List Text) : Desk :=
  ⟨none, stdin, [.line "welcome to nanotwitter's client libray",
    .line "to view commands press help"], site, 0⟩

end Desk

end NanoTwitter
