import Mathlib.Tactic
import NanoTwitter.Model.Client
import NanoTwitter.Web.Orderly

/-!
# The client shows what the server has

The API sends tweets in three shapes: an array with the object of a row (a single tweet), an array
of JSON texts (the feeds, as Redis holds them) and an array of arrays (search results). `sent` says
which tweets the server has for a call and in which shape, and `had` reads them as triples of
author, text and time; `client_shows_tweets` says that the client prints these triples, in order,
whatever the shape.
-/

namespace NanoTwitter

open Ruby (Time)
open EStateM (bind_of_ok)

/-- Author, text and time of a tweet. -/
structure Triple where
  author : Text
  text : Text
  createdAt : Option Time

/-- The lines that show a triple: the time as JSON writes it, nothing for no time. -/
def Triple.lines (close : Text) (t : Triple) : List Text :=
  [("\"" : Text) ++ t.text ++ ("\"" : Text),
    ("--" : Text) ++ t.author ++ (" (" : Text) ++ (t.createdAt.map Ruby.iso8601).getD [] ++ close,
    []]

def Entry.triple (e : Entry) : Triple := ⟨e.userName, e.text, e.createdAt⟩

/-- The triple of a row. -/
def tripleOf (t : Row Tweet) : Triple := ⟨t.attrs.authorName, t.attrs.text, some t.attrs.createdAt⟩

/-- A tweet in the shape in which the API sends it: the object of a row, a text that Redis holds, or
an array. -/
inductive Sent
  | row (t : Row Tweet)
  | text (e : Entry)
  | array (e : Entry)

def Sent.json : Sent → Json
  | .row t => tweetJson t
  | .text e => .str e.toJson
  | .array e => e.json

def Sent.triple : Sent → Triple
  | .row t => tripleOf t
  | .text e | .array e => e.triple

/-- The tweets that the server sends for a call, if the user or the tweet that the call names
exists; `cached` are the tweets of the feeds. -/
def ApiCall.sent (db : Db) (cached : Slot → List Entry) : ApiCall → Option (List Sent)
  | .tweet id => (db.tweets.rows.find? fun t => (t.id : ℤ) = Ruby.toI id).map fun t => [.row t]
  | .frontFeed => some ((cached .ffeed).map .text)
  | .profileFeed n =>
    (User.findByUserName db (some (.str n))).map fun u => (cached (.pfeed u.id)).map .text
  | .homeFeed n =>
    (User.findByUserName db (some (.str n))).map fun u => (cached (.hfeed u.id)).map .text
  | .search k => (searchTweets db (some k)).toOption.map (List.map .array)

/-- What the server has for a call. -/
def ApiCall.had (db : Db) (cached : Slot → List Entry) (call : ApiCall) : Option (List Triple) :=
  (call.sent db cached).map (List.map Sent.triple)

/-- `print_hash` ends the line of the author with a blank. -/
def ApiCall.close : ApiCall → Text
  | .tweet _ => ") "
  | _ => ")"

/-! ### Printing -/

variable {inspect : Json → Text}

/-- A time is shown as it is written in JSON, whatever that is. -/
theorem interpolated_time (write : Time → Text) (time : Option Time) :
    interpolated inspect ((time.map fun t => Json.str (write t)).getD .null) =
      (time.map write).getD [] := by
  cases time <;> rfl

/-- Whose fields are those of a triple is printed as the triple. -/
theorem putsTweet_eq {t : Triple} {text author createdAt : Client Json}
    (htext : ∀ out, text out = .ok (.str t.text) out)
    (hauthor : ∀ out, author out = .ok (.str t.author) out)
    (htime : ∀ out, createdAt out = .ok ((t.createdAt.map jsonTime).getD .null) out)
    (close : Text) (out : List Text) :
    putsTweet inspect text author createdAt close out = .ok () (out ++ t.lines close) := by
  have hshown : interpolated inspect ((t.createdAt.map jsonTime).getD .null) =
      (t.createdAt.map Ruby.iso8601).getD [] := interpolated_time Ruby.iso8601 t.createdAt
  unfold putsTweet
  rw [bind_of_ok (htext out), bind_of_ok (show puts _ out = .ok () _ from rfl),
    bind_of_ok (hauthor _), bind_of_ok (htime _), bind_of_ok (show puts _ _ = .ok () _ from rfl),
    hshown]
  simp only [puts, Triple.lines, List.append_assoc, List.cons_append, List.nil_append]
  rfl

/-- A loop prints what its body prints for each element. -/
theorem forM_prints {α : Type} {wire : α → Json} {body : Json → Client Unit}
    {lines : α → List Text} (h : ∀ a out, body (wire a) out = .ok () (out ++ lines a))
    (l : List α) (out : List Text) :
    (l.map wire).forM body out = .ok () (out ++ l.flatMap lines) := by
  induction l generalizing out with
  | nil => rw [List.flatMap_nil, List.append_nil]; rfl
  | cons a l ih =>
    show (body (wire a) >>= fun _ => (l.map wire).forM body) out = _
    rw [bind_of_ok (h a out), ih, List.flatMap_cons, List.append_assoc]

/-- `print_hash` shows rows. -/
theorem printHash_eq (rows : List (Row Tweet)) (out : List Text) :
    printHash inspect (rows.map tweetJson) out =
      .ok () (out ++ (rows.map tripleOf).flatMap (Triple.lines ") ")) := by
  rw [List.flatMap_map]
  exact forM_prints (fun t out => putsTweet_eq (t := tripleOf t) (fun _ => rfl) (fun _ => rfl)
    (fun _ => rfl) ") " out) rows out

/-- `print_array` shows tweets, whether they come as arrays or as texts. -/
theorem printArray_eq {wire : Entry → Json}
    (hwire : ∀ e out, parsedTweet (wire e) out = .ok e.json out) (entries : List Entry)
    (out : List Text) :
    printArray inspect (entries.map wire) out =
      .ok () (out ++ (entries.map Entry.triple).flatMap (Triple.lines ")")) := by
  have htime : ∀ (e : Entry) out, elementAt e.json 2 out =
      .ok ((e.triple.createdAt.map jsonTime).getD .null) out := by
    rintro ⟨n, t, time, i⟩ out
    cases time <;> rfl
  rw [List.flatMap_map]
  refine forM_prints (fun e out => ?_) entries out
  rw [bind_of_ok (hwire e out)]
  exact putsTweet_eq (t := e.triple) (fun _ => rfl) (fun _ => rfl) (htime e) ")" out

/-! ### The three shapes -/

/-- `api_get_call` reads what `to_json` has written, and takes only the null value for nothing. -/
theorem apiGetCall_render {l : List Json} (out : List Text) :
    apiGetCall 200 (Json.arr l).render out = .ok (.arr l) out := by
  have hbody : validateResponse (Json.arr l).render = true := by
    simp [validateResponse, Json.render]
  have hread : apiGetCall 200 (Json.arr l).render =
      orRaise .parserError (Json.parse (Json.arr l).render) := if_pos (by rw [hbody]; rfl)
  rw [hread, Json.parse_render]
  rfl

/-- An empty body is taken for nil. -/
theorem showTweets_empty (out : List Text) :
    showTweets inspect 200 [] out = .ok .null (out ++ [incorrectQuery]) := rfl

/-- An array of objects. -/
theorem printTweets_rows (rows : List (Row Tweet)) (out : List Text) :
    ∃ value, printTweets inspect (.arr (rows.map tweetJson)) out =
      .ok value (out ++ (rows.map tripleOf).flatMap (Triple.lines ") ")) := by
  cases rows with
  | nil => exact ⟨.null, by simp; rfl⟩
  | cons t rows =>
    exact ⟨.arr ((t :: rows).map tweetJson), bind_of_ok (printHash_eq (t :: rows) out)⟩

/-- An array of other values that stand for tweets. -/
theorem printTweets_entries (wire : Entry → Json)
    (hwire : ∀ e out, parsedTweet (wire e) out = .ok e.json out) (entries : List Entry)
    (out : List Text) :
    ∃ value, printTweets inspect (.arr (entries.map wire)) out =
      .ok value (out ++ (entries.map Entry.triple).flatMap (Triple.lines ")")) := by
  cases entries with
  | nil => exact ⟨.null, by simp; rfl⟩
  | cons e entries =>
    have hprint : printTweets inspect (.arr ((e :: entries).map wire)) =
        (do printArray inspect ((e :: entries).map wire)
            return .arr ((e :: entries).map wire)) := by
      have hhead := hwire e []
      rw [List.map_cons]
      cases hw : wire e with
      | obj o =>
        -- an object would be read as it is, and the tweet is an array
        rw [hw] at hhead
        exact absurd hhead (by simp [parsedTweet, pure, EStateM.pure, Entry.json])
      | _ => rfl
    exact ⟨_, (congrFun hprint out).trans (bind_of_ok (printArray_eq hwire (e :: entries) out))⟩

/-- A JSON text is read again. -/
theorem parsedTweet_text (e : Entry) (out : List Text) :
    parsedTweet (Sent.text e).json out = .ok e.json out := by
  show orRaise .parserError (Json.parse e.json.render) out = _
  rw [Json.parse_render]
  rfl

/-- **The tweets of a call are printed in whatever shape they come.** -/
theorem printTweets_sent {db : Db} {cached : Slot → List Entry} {call : ApiCall} {l : List Sent}
    (h : call.sent db cached = some l) (out : List Text) :
    ∃ value, printTweets inspect (.arr (l.map Sent.json)) out =
      .ok value (out ++ (l.map Sent.triple).flatMap (Triple.lines call.close)) := by
  have htexts : ∀ entries : List Entry, ∃ value,
      printTweets inspect (.arr ((entries.map Sent.text).map Sent.json)) out =
        .ok value (out ++ ((entries.map Sent.text).map Sent.triple).flatMap
          (Triple.lines ")")) := by
    intro entries
    rw [List.map_map, List.map_map]
    exact printTweets_entries _ parsedTweet_text entries out
  cases call with
  | tweet id =>
    obtain ⟨t, -, rfl⟩ := Option.map_eq_some_iff.1 h
    exact printTweets_rows [t] out
  | frontFeed =>
    obtain rfl := Option.some.inj h
    exact htexts (cached .ffeed)
  | profileFeed n | homeFeed n =>
    obtain ⟨u, -, rfl⟩ := Option.map_eq_some_iff.1 h
    exact htexts _
  | search k =>
    rw [ApiCall.sent] at h
    obtain ⟨entries, -, rfl⟩ := Option.map_eq_some_iff.1 h
    rw [List.map_map, List.map_map]
    exact printTweets_entries Entry.json (fun _ _ => rfl) entries out

/-! ### The calls -/

section Calls

variable {c : Ctx}

theorem getApiTweet_eq {params : Params} {id : ℤ} (h : intOf params.tweetId = .ok id) :
    getApiTweet params c =
      .ok ((c.world.db.tweets.rows.find? fun t => (t.id : ℤ) = id).elim .empty fun t =>
        .json (Json.arr [tweetJson t]).render) c := by
  have hid : ofExcept (intOf params.tweetId) c = .ok id c := by rw [h]; rfl
  unfold getApiTweet
  rw [bind_of_ok hid, bind_of_ok getDb_ok]
  cases c.world.db.tweets.rows.find? fun t => (t.id : ℤ) = id <;> rfl

theorem getApiFeed_eq {access : ℕ → Prog (List Text)} {feed : ℕ → List Text}
    (h : ∀ u, onWorld (access u) c = .ok (feed u) c) {params : Params}
    (hquery : queryError params.userName = none) :
    getApiFeed access params c =
      .ok ((User.findByUserName c.world.db params.userName).elim .empty fun u =>
        .json (textsJson (feed u.id)).render) c := by
  unfold getApiFeed
  rw [bind_of_ok (runQuery_ok hquery c), bind_of_ok getDb_ok]
  cases User.findByUserName c.world.db params.userName with
  | none => rfl
  | some u => exact bind_of_ok (h u.id)

theorem getApiSearch_eq {params : Params} {l : List Entry}
    (h : searchTweets c.world.db (textOf params.keyWord) = .ok l) :
    getApiSearch params c = .ok (.json (Json.arr (l.map Entry.json)).render) c := by
  unfold getApiSearch
  rw [bind_of_ok getDb_ok, h]
  rfl

/-- **The server sends the tweets it has for a call**, and an empty body for what does not exist. -/
theorem handle_call (P : Platform) (env : Env) {cached : Slot → List Entry}
    (hcache : ∀ s, s.isFeed = true →
      c.world.redis.lrange s.key = some ((cached s).map Entry.toJson)) (call : ApiCall) :
    handle P env call.request c =
      .ok ((call.sent c.world.db cached).elim .empty fun l =>
        .json (Json.arr (l.map Sent.json)).render) c := by
  have hread : ∀ s : Slot, s.isFeed = true →
      onWorld (lrange s.key) c = .ok ((cached s).map Entry.toJson) c := fun s hs =>
    onWorld_of_ok (query_of_some (hcache s hs))
  have htexts : ∀ l : List Entry, (l.map Sent.text).map Sent.json =
      (l.map Entry.toJson).map .str := fun l => by rw [List.map_map, List.map_map]; rfl
  cases call with
  | tweet id =>
    refine (getApiTweet_eq rfl).trans ?_
    rw [ApiCall.sent, Option.elim_map]
    rfl
  | frontFeed =>
    refine (bind_of_ok (hread .ffeed rfl)).trans ?_
    rw [ApiCall.sent, Option.elim_some, htexts]
    rfl
  | profileFeed n =>
    refine (getApiFeed_eq (fun u => hread (.pfeed u) rfl) rfl).trans ?_
    rw [ApiCall.sent, Option.elim_map]
    simp only [Function.comp_def, htexts]
    rfl
  | homeFeed n =>
    refine (getApiFeed_eq (fun u => hread (.hfeed u) rfl) rfl).trans ?_
    rw [ApiCall.sent, Option.elim_map]
    simp only [Function.comp_def, htexts]
    rfl
  | search k =>
    obtain ⟨l, hl⟩ : ∃ l, searchTweets c.world.db (some k) = .ok l := ⟨_, rfl⟩
    refine (getApiSearch_eq hl).trans ?_
    have hsent : ApiCall.sent c.world.db cached (.search k) = some (l.map .array) := by
      rw [ApiCall.sent, hl]
      rfl
    rw [hsent, Option.elim_some, List.map_map]
    rfl

/-- The client shows what the server has. -/
theorem showTweets_call (P : Platform) (env : Env) (inspect : Json → Text)
    {cached : Slot → List Entry}
    (hcache : ∀ s, s.isFeed = true →
      c.world.redis.lrange s.key = some ((cached s).map Entry.toJson)) (call : ApiCall) :
    ∃ resp, handle P env call.request c = .ok resp c ∧ ∃ body value, resp.code = 200 ∧
      resp.body? = some body ∧
      showTweets inspect 200 body [] = .ok value ((call.had c.world.db cached).elim [incorrectQuery]
        (List.flatMap (Triple.lines call.close))) := by
  refine ⟨_, handle_call P env hcache call, ?_⟩
  unfold ApiCall.had
  cases hsent : call.sent c.world.db cached with
  | none => exact ⟨[], .null, rfl, rfl, showTweets_empty []⟩
  | some l =>
    obtain ⟨value, hprint⟩ : ∃ value, printTweets inspect (.arr (l.map Sent.json)) [] =
        .ok value _ := printTweets_sent hsent []
    exact ⟨_, value, rfl, rfl, (bind_of_ok (apiGetCall_render [])).trans hprint⟩

end Calls

/-- Nothing is shown for an empty list, and for no list. -/
theorem tweetless_iff (had : Option (List Triple)) (close : Text) :
    (had.elim [incorrectQuery] (List.flatMap (Triple.lines close)) = [] ∨
      had.elim [incorrectQuery] (List.flatMap (Triple.lines close)) = [incorrectQuery]) ↔
      had = none ∨ had = some [] := by
  rcases had with _ | _ | ⟨t, l⟩
  · simp
  · simp
  · simp [Triple.lines]

/-- **The client shows what the server has.** For every database, and every cache whose feeds hold
tweets, every call is answered with 200, and what `api_get_call` and `print_tweets` make of the body
are the lines of the tweets that the server had for the call, one after the other, or the complaint
about the query if the named user or tweet does not exist. No tweet is shown if and only if it does
not exist or the server's list is empty. -/
theorem client_shows_tweets (P : Platform) (env : Env) (session : Session)
    (inspect : Json → Text) (w : World) (cached : Slot → List Entry)
    (hcache : ∀ s, s.isFeed = true → w.redis.lrange s.key = some ((cached s).map Entry.toJson))
    (call : ApiCall) :
    ∃ resp body value lines,
      handle P env call.request ⟨w, session⟩ = .ok resp ⟨w, session⟩ ∧
      resp.code = 200 ∧ resp.body? = some body ∧
      showTweets inspect resp.code body [] = .ok value lines ∧
      lines = (call.had w.db cached).elim [incorrectQuery]
        (List.flatMap (Triple.lines call.close)) ∧
      ((lines = [] ∨ lines = [incorrectQuery]) ↔
        call.had w.db cached = none ∨ call.had w.db cached = some []) := by
  obtain ⟨resp, hrun, body, value, hcode, hbody, hshow⟩ :=
    showTweets_call (c := ⟨w, session⟩) P env inspect hcache call
  rw [← hcode] at hshow
  exact ⟨resp, body, value, _, hrun, hcode, hbody, hshow, rfl, tweetless_iff _ _⟩

/-- The feeds of the application hold tweets. -/
theorem Tidy.exists_cached {r : Store Text Text} (h : Tidy r) :
    ∃ cached : Slot → List Entry, ∀ s, s.isFeed = true →
      r.lrange s.key = some ((cached s).map Entry.toJson) := by
  have hfeed : ∀ s : Slot, ∃ l : List Entry, (view r).feeds s = l.map Entry.toJson := by
    intro s
    have hmem : (view r).feeds s ∈ Set.range (List.map Entry.toJson) := by
      rw [Set.range_list_map]
      intro v hv
      obtain ⟨e, rfl⟩ := h.entries s v hv
      exact ⟨e, rfl⟩
    obtain ⟨l, hl⟩ := hmem
    exact ⟨l, hl.symm⟩
  choose cached hcached using hfeed
  exact ⟨cached, fun s hs => (list?_eq_view h.wellTyped hs).trans (congrArg some (hcached s))⟩

/-- A client registers as `ann` and tweets. -/
def annTweets : List Event :=
  [⟨0, ⟨0, 0, false, []⟩, .postRegistrationSubmit, "/registration/submit",
      { name := some "Ann", email := some "ann@x.org", userName := some "ann",
        password := some "secret" }⟩,
    ⟨0, ⟨1, 0, false, []⟩, .postTweetNewSubmit, "/tweet/new/submit", { tweetText := some "hi" }⟩]

/-- The tweet is shown to whoever asks for the front page. -/
theorem front_feed_shown :
    let w := (Run.run (serve .ascii) (Site.opened World.empty) annTweets).world
    ∃ cached : Slot → List Entry, (cached .ffeed).length = 1 ∧
      ∃ resp body value lines,
        handle .ascii ⟨2, 0, false, []⟩ (ApiCall.request .frontFeed) ⟨w, Session.new⟩ =
          .ok resp ⟨w, Session.new⟩ ∧
        resp.body? = some body ∧
        showTweets Json.render resp.code body [] = .ok value lines ∧
        lines = ((cached .ffeed).map Entry.triple).flatMap (Triple.lines ")") ∧
        lines.length = 3 := by
  intro w
  have horderly : Orderly .ascii w :=
    (always_orderly (s := Site.opened World.empty) (orderly_empty .ascii) annTweets).last
  obtain ⟨cached, hcache⟩ := horderly.tidy.exists_cached
  have hlength : (cached .ffeed).length = 1 := by
    have hread : (w.redis.lrange Slot.ffeed.key).map List.length = some 1 := by decide +kernel
    rw [hcache .ffeed rfl, Option.map_some, List.length_map] at hread
    exact Option.some.inj hread
  obtain ⟨resp, body, value, lines, hrun, -, hbody, hshow, hlines, -⟩ :=
    client_shows_tweets .ascii ⟨2, 0, false, []⟩ Session.new Json.render w cached hcache .frontFeed
  have hhad : ApiCall.had w.db cached .frontFeed = some ((cached .ffeed).map Entry.triple) :=
    congrArg some List.map_map
  rw [hhad] at hlines
  refine ⟨cached, hlength, resp, body, value, lines, hrun, hbody, hshow, hlines, ?_⟩
  obtain ⟨e, he⟩ := List.length_eq_one_iff.1 hlength
  rw [hlines, he]
  rfl

end NanoTwitter
