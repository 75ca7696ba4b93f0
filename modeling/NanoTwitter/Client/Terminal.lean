import Mathlib.Tactic
import NanoTwitter.Model.Client
import NanoTwitter.Model.Routes
import NanoTwitter.Web.Site

/-!
# A session of the client library

`client_library.rb` as a whole: the loop that reads commands from a terminal, the commands, and the
calls of the API that they make. A session has the application on the other side. Each call is a
request without a cookie, so the application answers it with a new session and forgets that session;
between two calls it answers other clients.

`Surroundings` is what the client does not decide. Its `deliver` stands for Typhoeus, the network
and the web server: an address of letters, digits, hyphens, underscores and slashes arrives as it
is, if it arrives; nothing is assumed about other addresses. The parameters of a call arrive in the
query.

`@input` is a line at first and a list of words once `analyze_input` has split it; the condition of
the loop compares it with a text.
-/

namespace NanoTwitter

/-! ### The terminal -/

/-- What `@input` is. -/
inductive Input
  | line (l : Text)
  | words (ws : List Text)
  deriving DecidableEq

/-- `@input[i]`. -/
def Input.get? : Input → ℕ → Option Text
  | .line l, i => l[i]?.map fun c => [c]
  | .words ws, i => ws[i]?

/-- What was printed: a line, or a text without an end of line. -/
inductive Printed
  | line (t : Text)
  | text (t : Text)
  deriving DecidableEq

/-- What ends a session besides the loop: `exit`, an undefined name, an exception. -/
inductive Stop
  | exit
  | nameError
  | raised (e : Error)
  deriving DecidableEq

/-- A call that reached a route, with what the environment decided and the stores it found. -/
structure Reached where
  env : Env
  req : Request
  found : World

/-- A session: the instance variables, the lines still to be typed as `chomp` leaves them, what was
printed, the application, and how many calls were made. No command reads `calls`, the calls that
reached a route, the last one first. -/
structure Terminal where
  input : Input
  user : Option Text
  stdin : List Text
  out : List Printed
  site : Site
  sent : ℕ
  calls : List Reached

/-- The addresses that arrive as they are. -/
def plain (t : Text) : Bool := t.all fun c => c.isAlphanum || c = '-' || c = '_'

def plainUrl (t : Text) : Bool := t.all fun c => c.isAlphanum || c = '-' || c = '_' || c = '/'

/-- What the client does not decide: how values are inspected, whether `JSON.parse` takes texts and
numbers for documents (from version 2 on), what other clients do before the `n`-th call, what the
environment decides in its course, whether and how it arrives, and whether an answer does. -/
structure Surroundings where
  inspect : Json → Text
  scalars : Bool
  traffic : ℕ → List Event
  env : ℕ → Env
  deliver : ℕ → Verb → Text → Params → Option (Text × Params)
  answered : ℕ → Bool
  deliver_plain : ∀ n verb url params, plainUrl url = true →
    deliver n verb url params = none ∨ deliver n verb url params = some (url, params)

namespace ClientLibrary

/-- Code of the client. -/
abbrev Term := EStateM Stop Terminal

def puts (line : Text) : Term Unit := fun t => .ok () { t with out := t.out ++ [.line line] }

def print (text : Text) : Term Unit := fun t => .ok () { t with out := t.out ++ [.text text] }

/-- `gets.chomp`: at the end of the input `gets` is nil. -/
def gets : Term Text := fun t =>
  match t.stdin with
  | [] => .error (.raised .noMethodError) t
  | l :: ls => .ok l { t with stdin := ls }

/-- Code that only prints lines. -/
def printing {α : Type} (p : Client α) : Term α := fun t =>
  match p [] with
  | .ok a lines => .ok a { t with out := t.out ++ lines.map .line }
  | .error e lines => .error (.raised e) { t with out := t.out ++ lines.map .line }

/-! ### Calls -/

/-- The status and the body of an answer. Without one Typhoeus has status 0. -/
abbrev Reply := ℕ × Option Text

/-- The application answers a call, with a new session that it forgets. -/
def answer (P : Platform) (env : Env) (req : Request) (site : Site) : Reply × Site :=
  match handle P env req ⟨site.world, Session.new⟩ with
  | .ok resp c => ((resp.code, resp.body?), { site with world := c.world })
  | .error _ c => ((500, none), { site with world := c.world })

/-- Send a call. -/
def send (P : Platform) (S : Surroundings) (verb : Verb) (url : Text) (params : Params) :
    Term Reply := fun t =>
  let n := t.sent
  let site := Run.run (serve P) t.site (S.traffic n)
  match S.deliver n verb (("/api/v1" : Text) ++ url) params with
  | none => .ok (0, none) { t with site := site, sent := n + 1 }
  | some (path, params) =>
    match routed verb path params with
    | none => .ok (404, none) { t with site := site, sent := n + 1 }
    | some req =>
      let r := answer P (S.env n) req site
      .ok (if S.answered n then r.1 else (0, none))
        { t with
          site := r.2, sent := n + 1, calls := ⟨S.env n, req, site.world⟩ :: t.calls }

/-- Texts, numbers and truth values. -/
def isScalar : Json → Bool
  | .arr _ | .obj _ => false
  | _ => true

/-- What both calls do with a reply: `nil`, which is `null` here, or the parsed body. Pages and
files are no JSON. -/
def parsed (scalars : Bool) (r : Reply) : Client Json :=
  if r.1 = 200 then
    match r.2 with
    | some body => do
      let value ← apiGetCall r.1 body
      if validateResponse body && isScalar value && !scalars then throw .parserError
      return value
    | none => throw .parserError
  else return .null

/-- `api_get_call(url_cont)`. -/
def getCall (P : Platform) (S : Surroundings) (url : Text) : Term Json := do
  printing (parsed S.scalars (← send P S .get url {}))

/-- `api_post_call(url_cont, params)`. -/
def postCall (P : Platform) (S : Surroundings) (url : Text) (params : Params) : Term Json := do
  printing (parsed S.scalars (← send P S .post url params))

/-- What an `if` takes for true. -/
def truthy : Json → Bool
  | .null | .bool false => false
  | _ => true

/-! ### Printing -/

mutual

/-- `puts value`: an array is printed element by element. -/
def putsValue (inspect : Json → Text) : Json → Client Unit
  | .arr [] => NanoTwitter.puts []
  | .arr (v :: l) => putsValues inspect (v :: l)
  | v => NanoTwitter.puts (interpolated inspect v)

def putsValues (inspect : Json → Text) : List Json → Client Unit
  | [] => pure ()
  | v :: l => do
    putsValue inspect v
    putsValues inspect l

end

/-- `error`. -/
def error : Term Unit := do
  let command := (Input.get? (← get).input 0).getD []
  puts (("command after \"" : Text) ++ command ++
    ("\" incorrect or invalid for a logged out user" : Text))
  puts "(use the \"help\" command for instructions)"

/-- The lines of `commands`. -/
def help : List Text :=
  ["(note: the words after the '+' sign stand for parameters)",
    "command 1: \tlogin (logs you into your nanotwitter account)",
    "command 2: \tfeed front (shows the feed of tweets in the unlogged-in homepage) ",
    "command 3:\ttweet new + text (if you are logged in you can tweet by doing this command",
    "command 4:\ttweet id (find a specific tweet by id)",
    "command 4: \tsearch + string (searches for tweets that include a certain string)",
    "command 5:    feed profile (if logged in this shows your twitter profile feed) ",
    "command 6:    feed home (if logged in this shows your twitter home feed)",
    "command 7:    feed profile + username (returns the profile feed of certain user)",
    "command 8:    info (if logged in, returns the number of tweets, followers and followings",
    ("command 9:    info + username (returns the number of tweets, followers and followings of " ++
      "a certain user)" : String),
    "command 10:   followers (if logged in, returns the username of all that follow you)",
    ("command 11:   followers + username ( returns the username of all the people that follow a " ++
      "certain username)" : String),
    "command 12:   followings (if logged in, returns the username of all that you follow)",
    ("command 13:   followings + username (retuns the username of all the peope that a certain " ++
      "username follows" : String),
    "command 14:   exit (exits the program)"]

/-- `commands`. -/
def commands : Term Unit := help.forM puts

/-- `print_info(data)`; the variable `input` in the message for `nil` is not defined. -/
def printInfo (inspect : Json → Text) (data : Json) : Term Unit :=
  match data with
  | .null => throw .nameError
  | data => printing do
    NanoTwitter.puts (("username:\t\t\t" : Text) ++
      interpolated inspect (← fieldOf data "user_name") ++ (" " : Text))
    NanoTwitter.puts (("tweet count:\t\t\t" : Text) ++
      interpolated inspect (← fieldOf data "tweet_count"))
    NanoTwitter.puts (("# of followers:\t\t\t" : Text) ++
      interpolated inspect (← fieldOf data "follower_count"))
    NanoTwitter.puts (("# of people following:\t\t\t" : Text) ++
      interpolated inspect (← fieldOf data "following_count"))

/-- `print_names(names)`. -/
def printNames (inspect : Json → Text) (names : Json) : Term Unit :=
  match names with
  | .null => error
  | .arr l => printing (l.forM (putsValue inspect))
  | .obj l => printing ((hashPairs l).forM (putsValue inspect))
  | _ => throw (.raised .noMethodError)

/-! ### Commands -/

section Commands

variable (P : Platform) (S : Surroundings)

/-- `print_tweets(api_get_call(url))`. -/
def showCall (url : Text) : Term Json := do
  let tweets ← getCall P S url
  printing (printTweets S.inspect tweets)

/-- `feed`. -/
def feed : Term Unit := do
  let t ← get
  let feedOf (user kind : Text) : Term Unit := do
    let _ ← showCall P S (("/users/" : Text) ++ user ++ kind)
  if t.input.get? 1 = some ("profile" : Text) then
    match t.input.get? 2, t.user with
    | some name, _ => feedOf name "/profile-feed"
    | none, some user => feedOf user "/profile-feed"
    | none, none => pure ()
  else if t.input.get? 1 = some ("home" : Text) ∧ t.user.isSome then
    feedOf (t.user.getD []) "/home-feed"
  else if t.input.get? 1 = some ("front" : Text) then
    let _ ← showCall P S "/front-feed"
  else error

/-- `info`. -/
def info : Term Unit := do
  let t ← get
  match t.input.get? 1, t.user with
  | some name, _ => printInfo S.inspect (← getCall P S (("/users/" : Text) ++ name))
  | none, some user => printInfo S.inspect (← getCall P S (("/users/" : Text) ++ user))
  | none, none => pure ()

/-- `tweet`. -/
def tweet : Term Unit := do
  let t ← get
  if t.input.get? 1 = some ("new" : Text) ∧ t.user.isSome then
    print "tweet text: "
    let text ← gets
    let done ← postCall P S
      (("/users/" : Text) ++ t.user.getD [] ++ ("/new-tweet" : Text)) { text := some text }
    if truthy done then puts "tweet made succesfully"
  else if Ruby.toI ((t.input.get? 1).getD []) ≠ 0 then
    let _ ← showCall P S (("/tweets/" : Text) ++ (t.input.get? 1).getD [])
  else error

/-- `login`. -/
def login : Term Unit := do
  print "username: "
  let userName ← gets
  print "password: "
  let password ← gets
  let done ← postCall P S "/login" { userName := some userName, password := some password }
  if truthy done then
    puts (("Welcome " : Text) ++ userName ++ (", you are now logged in to nanotwitter" : Text))
    modify fun t => { t with user := some userName }
  else puts "incorrect login information"

/-- `search`. -/
def search : Term Unit := do
  print "search text: "
  let text ← gets
  let shown ← showCall P S (("/tweets/" : Text) ++ text ++ ("/search" : Text))
  if shown matches .null then
    puts (("no seach results for the query \"" : Text) ++ text ++ ("\"" : Text))

/-- `follows`. -/
def follows : Term Unit := do
  let t ← get
  let kind := (t.input.get? 0).getD []
  let namesOf (user : Text) : Term Unit := do
    printNames S.inspect (← getCall P S (("/follows/" : Text) ++ user ++ ("/" : Text) ++ kind))
  match t.input.get? 1, t.user with
  | some name, _ => namesOf name
  | none, some user => namesOf user
  | none, none => error

/-- The branches of `analyze_input`. -/
def command (name : Option Text) : Term Unit :=
  if name = some ("login" : Text) then login P S
  else if name = some ("help" : Text) then commands
  else if name = some ("feed" : Text) then feed P S
  else if name = some ("search" : Text) then search P S
  else if name = some ("tweet" : Text) then tweet P S
  else if name = some ("info" : Text) then info P S
  else if name = some ("followers" : Text) then follows P S
  else if name = some ("followings" : Text) then follows P S
  else if name = some ("exit" : Text) then throw .exit
  else puts "unrecognized command"

/-- `analyze_input`. -/
def analyzeInput : Term Unit := do
  match (← get).input with
  | .line l =>
    modify fun t => { t with input := .words (Ruby.split l) }
    command P S ((← get).input.get? 0)
  | .words _ => throw (.raised .noMethodError)

/-- The body of the loop. -/
def iteration : Term Unit := do
  match (← get).user with
  | none => print "nt>"
  | some user => print (("nt " : Text) ++ user ++ (">" : Text))
  let l ← gets
  modify fun t => { t with input := .line l }
  analyzeInput P S

/-- How a session ends. -/
inductive Ended
  | returned (t : Terminal)
  | stopped (s : Stop) (t : Terminal)

def Ended.terminal : Ended → Terminal
  | .returned t => t
  | .stopped _ t => t

/-- What is printed after the loop. -/
def farewell : Text := "thanks for using nanotwitter's client library"

/-- The loop, for at most `n` rounds, and the line after it. -/
def loop : ℕ → Terminal → Option Ended
  | 0, _ => none
  | n + 1, t =>
    if t.input = .line "exit" then
      some (.returned { t with out := t.out ++ [.line farewell] })
    else
      match iteration P S t with
      | .ok _ t' => loop n t'
      | .error s t' => some (.stopped s t')

end Commands

/-- `ClientLibrary.new`, up to the loop. -/
def new (site : Site) (stdin : List Text) : Terminal :=
  ⟨.line "", none, stdin, [.line "welcome to nanotwitter's client libray",
    .line "to view commands press help"], site, 0, []⟩

end ClientLibrary

end NanoTwitter
