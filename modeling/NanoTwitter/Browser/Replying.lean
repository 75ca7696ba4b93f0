import Mathlib.Tactic
import NanoTwitter.Browser.Threads
import NanoTwitter.Web.Routing

/-!
# A reply is shown

The form under a conversation sends its text to `/tweet/reply/` and the tweet's id. If the sender is
logged in as a user that exists and the text is processed, the reply is filed behind the replies
that the tweet has had until then. From then on, on any page loaded later, every conversation about
the tweet has these replies first and then the new one, whoever reads it and whatever has happened
in between: `reply_shown`.
-/

namespace NanoTwitter

open Path (Seg)
open Ruby (decimal)

/-- What the form under a conversation about `x` sends. -/
def replying (client : ℕ) (env : Env) (x text : Text) : Event :=
  ⟨client, env, .postTweetReply, ("/tweet/reply/" : Text) ++ x,
    { tweetText := some text, replyId := some x }⟩

/-! ### The way of a reply -/

/-- The ids of tweets can be written into paths. -/
theorem carries_decimal (n : ℕ) : Path.carries (decimal n) = true ∧ '\n' ∉ decimal n := by
  have hdigit : ∀ {c : Char}, c.isDigit = false → c ∉ decimal n := fun hc hmem =>
    absurd (Ruby.isDigit_of_mem_decimal hmem) (by rw [hc]; decide)
  have hne : decimal n ≠ [] := Ruby.decimal_ne_nil n
  refine ⟨Bool.and_eq_true_iff.2 ⟨Path.clean_iff.2 ⟨hne, ?_, ?_, ?_⟩, ?_⟩, hdigit (by decide)⟩
  · rintro c hc rfl
    exact hdigit (by decide) hc
  · rw [List.all_eq_true]
    intro c hc
    have hquestion : c ≠ '?' := fun h => hdigit (by decide) (h ▸ hc)
    have hhash : c ≠ '#' := fun h => hdigit (by decide) (h ▸ hc)
    simp [hquestion, hhash]
  · exact Path.hasEscape_of_notMem (hdigit (by decide))
  · have hdots : ∀ t : Text, '.' ∈ t → decimal n ≠ t := fun t ht h =>
      hdigit (c := '.') (by decide) (h ▸ ht)
    simp [Path.ordinary, hne, hdots]

/-- The form leads to the route for replies. -/
theorem routed_replying (n client : ℕ) (env : Env) (text : Text) :
    routed .post (("/tweet/reply/" : Text) ++ decimal n) { tweetText := some text } =
      some (replying client env (decimal n) text).req := by
  have hp : [Seg.lit ("tweet" : Text), .lit "reply", .var PathVar.replyId] ∈
      Route.postTweetReply.patterns := List.mem_cons_self
  have hbuild : Path.build (fun _ => decimal n) [Seg.lit ("tweet" : Text), .lit "reply",
      .var PathVar.replyId] = ("/tweet/reply/" : Text) ++ decimal n := by
    simp [Path.build, Path.Seg.text]
  have hrouted := routed_of_carries hp (f := fun _ => decimal n)
    (fun _ _ => (carries_decimal n).2) (fun _ _ => (carries_decimal n).1)
    { tweetText := some text }
  rw [hbuild] at hrouted
  exact hrouted

/-- The reply is filed under the tweet, behind those that are there. -/
theorem feeds_replying {P : Platform} {s : Site} (h : Orderly P s.world) {client : ℕ}
    {u : Row User} (hu : (s.sessions client).userId.bind s.world.db.users.find = some u)
    {text : Text} {p : Processed} (hp : processText s.world.db.users (some text) = .ok p)
    (env : Env) (x : Text) :
    (view (serve P s (replying client env x text)).world.redis).feeds (.replies x) =
      (view s.world.redis).feeds (.replies x) ++
        [(createdEntry env.now u p.text s.world.db.tweets).toJson] := by
  have hview := (view_makeTweet (P := P) env.now (some x) h.tidy.wellTyped hu hp).2
  rw [Site.world_serve]
  show (view ((makeTweet P env.now (some text) (s.sessions client).userId (some x)).exec
    s.world).redis).feeds (.replies x) = _
  rw [hview, feeds_publishedCache_replies, if_pos rfl]

/-! ### Conversations with the reply -/

/-- The replies `l` begin with the texts `old` and then the reply `e`, which is shown in its
place. -/
structure Contains (old : List Text) (e : Entry) (l : List Entry) : Prop where
  first : old ++ [e.toJson] <+: l.map Entry.toJson
  shown : l[old.length]?.map Entry.added = some e.added

/-- Texts that are the same are shown the same. -/
theorem Entry.added_of_toJson {e e' : Entry} (h : e.toJson = e'.toJson) : e.added = e'.added := by
  have hjson : e.json = e'.json := by
    have hparse := congrArg Json.parse h
    rw [toJson, toJson, Json.parse_render, Json.parse_render] at hparse
    exact Option.some.inj hparse
  have hshown := replyOf_json e
  rw [hjson, replyOf_json] at hshown
  exact (Option.some.inj hshown).symm

theorem contains_of_prefix {old : List Text} {e : Entry} {l : List Entry}
    (h : old ++ [e.toJson] <+: l.map Entry.toJson) : Contains old e l := by
  refine ⟨h, ?_⟩
  have hget : (l.map Entry.toJson)[old.length]? = some e.toJson := by
    rw [List.prefix_iff_getElem?] at h
    simpa using h old.length (by simp)
  rw [List.getElem?_map, Option.map_eq_some_iff] at hget
  obtain ⟨e', he', heq⟩ := hget
  rw [he', Option.map_some, Entry.added_of_toJson heq]

/-- Everything in `added` is part of a conversation about `x` with the reply in its place. -/
def Includes (x : Text) (old : List Text) (e : Entry) (added : List Added) : Prop :=
  ∃ ls : List (List Entry), (∀ l ∈ ls, Contains old e l) ∧ added = ls.flatMap (conversation x)

theorem Shows.includes {w₀ w : World} {x : Text} {added : List Added} (h : Shows w₀ w x added)
    {old : List Text} {e : Entry} (he : old ++ [e.toJson] <+: (view w₀.redis).feeds (.replies x)) :
    Includes x old e added := by
  obtain ⟨ls, hls, rfl⟩ := h
  exact ⟨ls, fun l hl => contains_of_prefix (he.trans (hls l hl).least), rfl⟩

/-- The reply is in every conversation about `x` on every page loaded after `es`, and whoever opens
a link there that is closed gets such a conversation. -/
structure ShownSince (P : Platform) (es : List Event) (x : Text) (old : List Text) (e : Entry) :
    Prop where
  included : ∀ (reader : ℕ) (html : Html) (moves : List Move) (k : ℕ) (p : Panel),
    (Visit.reached P es reader html moves).tab.panels[k]? = some p → p.tweetId = x →
      Includes x old e p.added ∧ Includes x old e p.below
  opens : ∀ (reader : ℕ) (html : Html) (moves : List Move) (v : Visit),
    v = Visit.reached P es reader html moves → ∀ (k : ℕ) (p : Panel) (heart : Heart)
      (added : List Added) (env : Env), v.tab.panels[k]? = some p → p.tweetId = x →
        p.footer = .links heart added → p.replyVisible = false →
          ∃ l : List Entry, Contains old e l ∧
            (Run.run (Visit.step P) v (v.opening k env)).tab.panels[k]? = some { p with
              replyVisible := true
              footer := .links heart (added ++ conversation x l) }

/-- What is filed under `x` is shown. -/
theorem shownSince_of_prefix {P : Platform} {es : List Event} {x : Text} {old : List Text}
    {e : Entry}
    (he : old ++ [e.toJson] <+: (view (Site.reached P es).world.redis).feeds (.replies x)) :
    ShownSince P es x old e := by
  refine ⟨fun reader html moves k p hp hid => ?_,
    fun reader html moves v hv k p heart added env hp hid hfooter hclosed => ?_⟩
  · obtain ⟨hadded, hbelow⟩ := (Visit.inv_reached P es reader html moves).authentic k p hp
    rw [hid] at hadded hbelow
    exact ⟨hadded.includes he, hbelow.includes he⟩
  · have hinv : v.Inv P (Site.reached P es).world := by
      rw [hv]
      exact Visit.inv_reached P es reader html moves
    subst hid
    obtain ⟨l, hl, hshown⟩ := hinv.shows_opening hp hfooter hclosed env
    have hnow := he.trans (hinv.since.replies p.tweetId)
    rw [hl] at hnow
    exact ⟨l, contains_of_prefix hnow, hshown⟩

/-- **A reply that was sent from a page is shown on every page that is loaded later.** The sender is
logged in as the user `u`, and the text is processed; `n` is the id of the tweet. What is shown is
the reply itself, behind those that were there before. -/
theorem reply_shown (P : Platform) (es : List Event) {client : ℕ} {u : Row User}
    (hu : ((Site.reached P es).sessions client).userId.bind
      (Site.reached P es).world.db.users.find = some u) {text : Text} {p : Processed}
    (hp : processText (Site.reached P es).world.db.users (some text) = .ok p) (n : ℕ) (env : Env) :
    routed .post (("/tweet/reply/" : Text) ++ decimal n) { tweetText := some text } =
        some (replying client env (decimal n) text).req ∧
      ∀ later, ShownSince P (es ++ replying client env (decimal n) text :: later) (decimal n)
        ((view (Site.reached P es).world.redis).feeds (.replies (decimal n)))
        (createdEntry env.now u p.text (Site.reached P es).world.db.tweets) := by
  refine ⟨routed_replying n client env text, fun later => shownSince_of_prefix ?_⟩
  have horderly := orderly_reached P es
  have hafter :
      Orderly P (serve P (Site.reached P es) (replying client env (decimal n) text)).world := by
    rw [Site.world_serve]
    exact orderly_written (c := (Site.reached P es).ctx client) env _ horderly
  have hrun : Site.reached P (es ++ replying client env (decimal n) text :: later) =
      Run.run (serve P) (serve P (Site.reached P es) (replying client env (decimal n) text))
        later := Run.run_append _ es _
  rw [hrun, ← feeds_replying horderly hu hp env (decimal n)]
  exact (remembers_run hafter later).replies (decimal n)

/-- `ann` registers and tweets. -/
def annSpeaks : List Event :=
  [.joins 1 1 "ann",
    ⟨1, ⟨2, 0, false, []⟩, .postTweetNewSubmit, "/tweet/new/submit",
      { tweetText := some "hello" }⟩]

/-- `ann` answers the own tweet. -/
def annAnswers : Event := replying 1 ⟨3, 0, false, []⟩ "1" "hi"

/-- The page of an answer, if it is one. -/
def Response.html? : Response → Option Html
  | .page html => some html
  | _ => none

/-- The front page after `es`, for a client without a session. -/
def frontHtml (es : List Event) : Option Html :=
  ((handle .ascii ⟨4, 0, false, []⟩ ⟨.getFront, "/front", {}⟩).value?
    ((Site.reached .ascii es).ctx 2)).bind Response.html?

/-- The tweet is stored, and somebody who opens its link on the front page afterwards finds the
answer under it. -/
theorem ann_reply_shown :
    ((Site.reached .ascii annSpeaks).world.db.tweets.find 1).isSome ∧
      ∃ html l, frontHtml (annSpeaks ++ [annAnswers]) = some html ∧
        Contains [] ⟨"ann", "hi", some 3, some 2⟩ l ∧
        let v := Visit.opened .ascii (annSpeaks ++ [annAnswers]) 2 html
        (Run.run (Visit.step .ascii) v (v.opening 0 ⟨5, 0, false, []⟩)).tab.panels[0]? =
          some ⟨"1", true, .links .fresh (conversation "1" l), []⟩ := by
  have hentry : (((Site.reached .ascii annSpeaks).sessions 1).userId.bind
      (Site.reached .ascii annSpeaks).world.db.users.find).map (fun u =>
        createdEntry 3 u "hi" (Site.reached .ascii annSpeaks).world.db.tweets) =
      some ⟨"ann", "hi", some 3, some 2⟩ := by decide +kernel
  obtain ⟨u, hu, hcreated⟩ := Option.map_eq_some_iff.1 hentry
  have hp : processText (Site.reached .ascii annSpeaks).world.db.users (some "hi") =
      .ok ⟨"hi", [], []⟩ := by decide +kernel
  have hold : (view (Site.reached .ascii annSpeaks).world.redis).feeds (.replies "1") = [] := by
    decide +kernel
  have hshown := (reply_shown .ascii annSpeaks hu hp 1 ⟨3, 0, false, []⟩).2 []
  rw [show decimal 1 = ("1" : Text) by decide, hold, hcreated] at hshown
  have hfooters : (frontHtml (annSpeaks ++ [annAnswers])).map footers =
      some [(("1" : Text), true)] := by decide +kernel
  obtain ⟨html, hhtml, hpanels⟩ := Option.map_eq_some_iff.1 hfooters
  have hpanel : (Visit.opened .ascii (annSpeaks ++ [annAnswers]) 2 html).tab.panels[0]? =
      some ⟨"1", false, .links .fresh [], []⟩ := by
    show ((footers html).map Panel.loaded)[0]? = _
    rw [hpanels]
    rfl
  obtain ⟨l, hl, hopened⟩ := hshown.opens 2 html [] _ rfl 0 _ .fresh [] ⟨5, 0, false, []⟩ hpanel
    rfl rfl rfl
  exact ⟨by decide +kernel, html, l, hhtml, hl, hopened⟩

end NanoTwitter
