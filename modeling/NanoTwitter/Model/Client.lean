import Mathlib.Tactic
import NanoTwitter.Model.Api

/-!
# The client library

`client_library.rb`, as far as it asks for tweets and prints them. A call of the API is answered
with a status code and a body; `api_get_call` reads the body, `print_tweets` looks at the class of
the first element and prints objects with `print_hash`, everything else with `print_array`.

What was printed is a list of lines, one for each `puts`. JSON arrives as any value, so the
functions are defined on all values, as Ruby's `[]` is; `inspect` is the text of an array or a hash
inside a string, on which nothing here depends.

In the browser, `likes.js` shows what a like was answered with.
-/

namespace NanoTwitter

/-! ### Calls -/

/-- The calls of the API that return tweets: `tweet id`, `feed front`, `feed profile`, `feed home`
and `search`. -/
inductive ApiCall
  | tweet (id : Text)
  | frontFeed
  | profileFeed (userName : Text)
  | homeFeed (userName : Text)
  | search (keyWord : Text)

/-- The request that a call sends, its parameter as the route receives it. -/
def ApiCall.request : ApiCall → Request
  | .tweet id => ⟨.getApiTweet, ("/api/v1/tweets/" : Text) ++ id, { tweetId := some id }⟩
  | .frontFeed => ⟨.getApiFrontFeed, "/api/v1/front-feed", {}⟩
  | .profileFeed n =>
    ⟨.getApiProfileFeed, ("/api/v1/users/" : Text) ++ n ++ ("/profile-feed" : Text),
      { userName := some n }⟩
  | .homeFeed n =>
    ⟨.getApiHomeFeed, ("/api/v1/users/" : Text) ++ n ++ ("/home-feed" : Text),
      { userName := some n }⟩
  | .search k =>
    ⟨.getApiSearch, ("/api/v1/tweets/" : Text) ++ k ++ ("/search" : Text), { keyWord := some k }⟩

/-- The status of an answer. A request that raises is answered with 500. -/
def Response.code : Response → ℕ
  | .redirect _ => 302
  | _ => 200

/-- The body of an answer of the API. Pages and files are no texts of this model. -/
def Response.body? : Response → Option Text
  | .json body => some body
  | .empty | .redirect _ => some []
  | .page _ | .file _ => none

/-! ### Values -/

/-- Code that prints. -/
abbrev Client := EStateM Error (List Text)

def puts (line : Text) : Client Unit := fun out => .ok () (out ++ [line])

/-- The value of `key` in a parsed object: the last one given. -/
def hashValue (l : List (Text × Json)) (key : Text) : Json :=
  ((l.reverse.find? fun m => m.1 = key).map Prod.snd).getD .null

/-- The pairs that `each` goes through, keys in the order of their first occurrence. -/
def hashPairs (l : List (Text × Json)) : List Json :=
  (l.map Prod.fst).reverse.dedup.reverse.map fun k => .arr [.str k, hashValue l k]

/-- `value[key]` for a string. -/
def fieldOf (value : Json) (key : Text) : Client Json :=
  match value with
  | .obj l => pure (hashValue l key)
  | .str s => pure (if key <:+: s then .str key else .null)
  | .arr _ | .num _ => throw .typeError
  | .null | .bool _ => throw .noMethodError

/-- `value[i]` for a number. -/
def elementAt (value : Json) (i : ℕ) : Client Json :=
  match value with
  | .arr l => pure (l.getD i .null)
  | .obj _ => pure .null
  | .str s => pure ((s[i]?.map fun c => Json.str [c]).getD .null)
  | .num n => pure (.num (n / 2 ^ i % 2)) -- a bit of `n`
  | .null | .bool _ => throw .noMethodError

/-- `"#{value}"`. -/
def interpolated (inspect : Json → Text) : Json → Text
  | .null => []
  | .bool b => if b then "true" else "false"
  | .num n => Json.renderInt n
  | .str s => s
  | value => inspect value

/-! ### `client_library.rb` -/

/-- `validate_response(body)`. -/
def validateResponse (body : Text) : Bool := body.length ≠ 0 && body ≠ ("null" : Text)

/-- `api_get_call`, from the response on; `nil` is `null`. -/
def apiGetCall (code : ℕ) (body : Text) : Client Json :=
  if code = 200 && validateResponse body then orRaise .parserError (Json.parse body)
  else pure .null

/-- The three `puts` of a tweet, reading its fields as they are printed; `close` ends the second
line. -/
def putsTweet (inspect : Json → Text) (text author createdAt : Client Json) (close : Text) :
    Client Unit := do
  puts (("\"" : Text) ++ interpolated inspect (← text) ++ ("\"" : Text))
  puts (("--" : Text) ++ interpolated inspect (← author) ++ (" (" : Text) ++
    interpolated inspect (← createdAt) ++ close)
  puts []

/-- `print_hash(tweets)`. -/
def printHash (inspect : Json → Text) (tweets : List Json) : Client Unit :=
  tweets.forM fun tweet =>
    putsTweet inspect (fieldOf tweet "text") (fieldOf tweet "author_name")
      (fieldOf tweet "created_at") ") "

/-- `tweet = JSON.parse(tweet)` for a text. -/
def parsedTweet : Json → Client Json
  | .str s => orRaise .parserError (Json.parse s)
  | tweet => pure tweet

/-- `print_array(tweets)`. -/
def printArray (inspect : Json → Text) (tweets : List Json) : Client Unit :=
  tweets.forM fun tweet => do
    let tweet ← parsedTweet tweet
    putsTweet inspect (elementAt tweet 1) (elementAt tweet 0) (elementAt tweet 2) ")"

/-- What is printed for `nil`. -/
def incorrectQuery : Text := "incorrect search query"

/-- `print_tweets(tweets)`: it returns `nil` or what it has gone through. -/
def printTweets (inspect : Json → Text) (tweets : Json) : Client Json :=
  match tweets with
  | .null => do
    puts incorrectQuery
    return .null
  | .arr [] => return .null
  | .arr (.obj o :: l) => do
    printHash inspect (.obj o :: l)
    return tweets
  | .arr l => do
    printArray inspect l
    return tweets
  -- the first element of a hash, of a text or of a number is no hash
  | .obj l => do
    printArray inspect (hashPairs l)
    return tweets
  | .str _ | .num _ | .bool _ => throw .noMethodError

/-- The client asks and prints. -/
def showTweets (inspect : Json → Text) (code : ℕ) (body : Text) : Client Json := do
  printTweets inspect (← apiGetCall code body)

/-! ### `public/js/likes.js` -/

/-- `data.substring(i, j)`: the arguments may come in any order. -/
def substring (data : Text) (i j : ℕ) : Text := (data.drop (min i j)).take (max i j - min i j)

/-- The text for a tweet that the user has liked before. -/
def alreadyLiked (num : Text) : Text :=
  (" tweet already liked (current likes = " : Text) ++ num ++ (") " : Text)

/-- The text for a new like. -/
def oneMoreLike (data : Text) : Text := (" 1 more like! total = " : Text) ++ data ++ ("  " : Text)

/-- What the click handler shows for an answer. -/
def likesJs (data : Text) : Text :=
  if data[1]? = some 'a' then alreadyLiked (substring data 2 (data.length - 1))
  else oneMoreLike data

end NanoTwitter
