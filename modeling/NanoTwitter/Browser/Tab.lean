import Mathlib.Tactic
import NanoTwitter.Model.Client
import NanoTwitter.Model.Routes
import NanoTwitter.Web.Site

/-!
# A page at work

What `likes.js` and `replies.js` do with a page, after it was loaded and while other clients go on.
`feed.erb` gives each tweet a panel with a footer: a `div` with a heart, unless the tweet is the
reader's own, and a link to its replies. Both are links around an icon. The scripts go up from where
the click has landed (`event.target`), by two parents: from the icon they get to what they mean, the
`div` or the footer, and from the link itself one element further, to the footer or the panel.

* `likes.js` listens to the first click on a heart and writes the answer over the `div` — or over
  the footer, and then the link is gone and what it has asked for has nowhere to go;
* `replies.js` opens and closes: it asks for the replies and adds them when they arrive, after the
  link or below the footer; closing removes what stands after the link (`nextAll`).

A call is made by a click; some time later it reaches the application, in any order and among
requests of anybody, and some time after that its answer arrives, if it does.

What jQuery makes of the texts it adds is not looked into, so tweets are taken to bring no scripts.
The three attributes `data-tweet-id` of a footer are written by one expression and are one here.
-/

namespace NanoTwitter

/-- The scripts. -/
inductive Script
  | replies
  | likes
  deriving DecidableEq

/-- Where a click on a link lands: on its icon, or on the link, beside the icon or from the
keyboard. -/
inductive Target
  | icon
  | link
  deriving DecidableEq

/-- What `replies.js` adds to a page: the remark that there are no responses, a reply with its
author, time and text, the form for a new one. -/
inductive Added
  | noResponses
  | reply (author createdAt text : Text)
  | form (action : Text)
  deriving DecidableEq

def Added.isForm : Added → Bool
  | .form _ => true
  | _ => false

/-- The `div` of a footer: empty, with a heart that was not clicked yet or was, or with a text. -/
inductive Heart
  | absent
  | fresh
  | clicked
  | text (t : Text)
  deriving DecidableEq

/-- A footer: the `div`, the link and what was added after it; or a text in their place. -/
inductive Footer
  | links (heart : Heart) (added : List Added)
  | text (t : Text)
  deriving DecidableEq

/-- The panel of a tweet; `replyVisible` says whether `dataset.replyVisible` is `"true"`, and
`below` is what was added after the footer. -/
structure Panel where
  tweetId : Text
  replyVisible : Bool
  footer : Footer
  below : List Added
  deriving DecidableEq

/-- A call that a click has made. -/
structure Ajax where
  panel : ℕ
  script : Script
  target : Target
  tweetId : Text
  deriving DecidableEq

/-- A page in a browser: whose session it has, the panels, the calls under way to the application,
and the answers under way back. -/
structure Tab where
  client : ℕ
  panels : List Panel
  sent : List Ajax
  answered : List (Ajax × Text)

/-! ### Loading -/

/-- The footers that `feed.erb` has written, with their tweets and whether there is a heart. -/
def footers : Html → List (Text × Bool)
  | .lit .feed 5 :: .out id :: .lit .feed 6 :: .lit .feed 7 :: rest => (id, true) :: footers rest
  | .lit .feed 5 :: .out id :: .lit .feed 6 :: .lit .feed 9 :: rest => (id, false) :: footers rest
  | _ :: rest => footers rest
  | [] => []

def Panel.loaded (footer : Text × Bool) : Panel :=
  ⟨footer.1, false, .links (if footer.2 then .fresh else .absent) [], []⟩

/-- A page, just loaded. -/
def Tab.loaded (client : ℕ) (html : Html) : Tab :=
  ⟨client, (footers html).map Panel.loaded, [], []⟩

/-! ### Clicks -/

/-- Whether a click makes a call. -/
def Panel.asks (p : Panel) : Script → Bool
  | .replies =>
    match p.footer with
    | .links _ _ => !p.replyVisible
    | .text _ => false
  | .likes =>
    match p.footer with
    | .links .fresh _ => true
    | _ => false

/-- What a click does to the panel. -/
def Panel.click (p : Panel) : Script → Panel
  | .replies =>
    match p.footer with
    | .links heart _ =>
      if p.replyVisible then { p with replyVisible := false, footer := .links heart [] }
      else { p with replyVisible := true }
    | .text _ => p
  | .likes =>
    match p.footer with
    | .links .fresh added => { p with footer := .links .clicked added }
    | _ => p

namespace Tab

/-- The call that a click makes. -/
def call (t : Tab) (k : ℕ) (script : Script) (target : Target) : Option Ajax :=
  (t.panels[k]?.filter fun p => p.asks script).map fun p => ⟨k, script, target, p.tweetId⟩

def click (t : Tab) (k : ℕ) (script : Script) (target : Target) : Tab :=
  { t with
    panels := t.panels.modify k fun p => p.click script
    sent := t.sent ++ (t.call k script target).toList }

end Tab

/-! ### Answers -/

/-- The text that a field becomes in a sum of texts. No reply has fields of other kinds there. -/
def fieldText : Option Json → Option Text
  | some (.str s) => some s
  | some .null => some "null"
  | none => some "undefined"
  | _ => none

def replyOf : Json → Option Added
  | .arr input => do
    return .reply (← fieldText input[0]?) (← fieldText input[2]?) (← fieldText input[1]?)
  | _ => none

/-- What `handleReplyClick` adds when `data` arrives. -/
def thread (tweetId data : Text) : Option (List Added) :=
  match Json.parse data with
  | some (.arr input) => (input.mapM replyOf).map fun replies =>
      (if input.isEmpty then [.noResponses] else replies) ++
        [.form (("/tweet/reply/" : Text) ++ tweetId)]
  | _ => none

/-- What the answer to a call does to the panel. A footer that was written over has let go of its
links: from there no parent leads to the page. -/
def Panel.receive (p : Panel) (call : Ajax) (data : Text) : Panel :=
  match p.footer with
  | .text _ => p
  | .links heart added =>
    match call.script with
    | .replies =>
      match thread p.tweetId data with
      | none => p
      | some new =>
        match call.target with
        | .icon => { p with footer := .links heart (added ++ new) }
        | .link => { p with below := p.below ++ new }
    | .likes =>
      match call.target with
      | .icon => { p with footer := .links (.text (likesJs data)) added }
      | .link => { p with footer := .text (likesJs data) }

def Tab.receive (t : Tab) (n : ℕ) : Tab :=
  match t.answered[n]? with
  | none => t
  | some (call, data) =>
    { t with
      panels := t.panels.modify call.panel fun p => p.receive call data
      answered := t.answered.eraseIdx n }

/-! ### The page and the application -/

/-- The request that a call sends. -/
def Ajax.request (call : Ajax) : Option Request :=
  match call.script with
  | .replies => routed .get "/tweet/replies" { tweetId := some call.tweetId }
  | .likes => routed .post "/tweet/like" { tweetId := some call.tweetId }

/-- What `success` is called with; a request that raises is answered with an error. -/
def succeeded (P : Platform) (env : Env) (req : Request) (c : Ctx) : Option Text :=
  match handle P env req c with
  | .ok resp _ => resp.body?
  | .error _ _ => none

/-- A page and the application it is a page of. -/
structure Visit where
  site : Site
  tab : Tab

/-- What can happen: a click, the `n`-th call reaches the application, the `n`-th answer arrives,
the application answers somebody's request. -/
inductive Move
  | click (panel : ℕ) (script : Script) (target : Target)
  | reach (n : ℕ) (env : Env)
  | receive (n : ℕ)
  | traffic (e : Event)

namespace Visit

/-- The `n`-th call reaches the application. -/
def reach (P : Platform) (v : Visit) (n : ℕ) (env : Env) : Visit :=
  match v.tab.sent[n]? with
  | none => v
  | some call =>
    match call.request with
    | none => { v with tab := { v.tab with sent := v.tab.sent.eraseIdx n } }
    | some req =>
      { site := serve P v.site ⟨v.tab.client, env, req⟩
        tab := { v.tab with
          sent := v.tab.sent.eraseIdx n
          answered := v.tab.answered ++ ((succeeded P env req (v.site.ctx v.tab.client)).map
            fun data => (call, data)).toList } }

def step (P : Platform) (v : Visit) : Move → Visit
  | .click k script target => { v with tab := v.tab.click k script target }
  | .reach n env => v.reach P n env
  | .receive n => { v with tab := v.tab.receive n }
  | .traffic e => { v with site := serve P v.site e }

/-- A page, just loaded from an application that has answered the requests `es`. -/
def opened (P : Platform) (es : List Event) (client : ℕ) (html : Html) : Visit :=
  ⟨Site.reached P es, Tab.loaded client html⟩

/-- The page and the application after the moves. -/
def reached (P : Platform) (es : List Event) (client : ℕ) (html : Html) (moves : List Move) :
    Visit := Run.run (step P) (opened P es client html) moves

end Visit

end NanoTwitter
