import Mathlib.Tactic
import Mathlib.Data.List.Sort
import NanoTwitter.Model.RedisOperations

/-!
# Making and searching tweets

`tweetprocessor.rb`. `process_text` walks over the words of a text, turns the mentions of
registered users and the hashtags into links and collects the users and the tags. `make_tweet` looks
the author up, processes the text, and leaves the rest to a background thread: the row, the
counter, the feeds. `search_tweets` scans the table.
-/

namespace NanoTwitter

open Ruby (Time)

/-- `process_text(text).value`. -/
structure Processed where
  text : Text
  mentions : List ℕ
  tags : List Text
  deriving DecidableEq

/-- `<a href="/user/#{name}">#{w}</a>`. -/
def userLink (name w : Text) : Text :=
  ("<a href=\"/user/" : Text) ++ name ++ ("\">" : Text) ++ w ++ ("</a>" : Text)

/-- `<a href="/tag/#{name}">#{w}</a>`. -/
def tagLink (name w : Text) : Text :=
  ("<a href=\"/tag/" : Text) ++ name ++ ("\">" : Text) ++ w ++ ("</a>" : Text)

/-- What a failed substitution raises. -/
def gsubError : Ruby.GsubError → Error
  | .undefinedGroup => .indexError
  | .badGroupFormat => .runtimeError

/-- `w.gsub!(w, template)`. -/
def replaceWord (w template : Text) : Except Error Text :=
  match Ruby.gsub w w template with
  | .ok t => .ok t
  | .error e => .error (gsubError e)

/-- One word: what replaces it, the user it mentions, the tag it carries. -/
structure Word where
  text : Text
  mention : Option ℕ
  tag : Option Text

/-- The body of the loop of `process_text`. -/
def processWord (users : Table User) (w : Text) : Except Error Word :=
  if Ruby.startsWith '@' w then
    let name := Ruby.afterFirst '@' w
    match users.findBy fun u => u.userName = name with
    | some u => do
      let text ← replaceWord w (userLink name w)
      pure ⟨text, some u.id, none⟩
    -- nobody of that name: the word stays as it is
    | none => pure ⟨w, none, none⟩
  else if Ruby.startsWith '#' w then do
    let name := Ruby.afterFirst '#' w
    let text ← replaceWord w (tagLink name w)
    pure ⟨text, none, some name⟩
  else pure ⟨w, none, none⟩

/-- `process_text(text)`, with the value its thread returns or the error it raises. -/
def processText (users : Table User) (text : Option Text) : Except Error Processed :=
  match text with
  | none => .error .noMethodError
  | some text => do
    let words ← (Ruby.split text).mapM (processWord users)
    pure ⟨Ruby.join (words.map Word.text), words.filterMap Word.mention, words.filterMap Word.tag⟩

/-- The user that a word mentions. -/
def mentionOf (users : Table User) (w : Text) : Option ℕ :=
  if Ruby.startsWith '@' w then
    (users.findBy fun u => u.userName = Ruby.afterFirst '@' w).map Row.id
  else none

/-- The tag that a word carries. -/
def tagOf (w : Text) : Option Text :=
  if Ruby.startsWith '#' w then some (Ruby.afterFirst '#' w) else none

/-- The users that a text mentions, word by word. -/
def mentioned (users : Table User) (text : Text) : List ℕ :=
  (Ruby.split text).filterMap (mentionOf users)

/-- The tags of a text, word by word. -/
def tagged (text : Text) : List Text := (Ruby.split text).filterMap tagOf

/-- A word mentions the user whose name follows its `@`. -/
theorem mentionOf_eq_some {users : Table User} {w : Text} {u : ℕ}
    (h : mentionOf users w = some u) :
    ∃ v, users.find u = some v ∧ w = '@' :: v.attrs.userName := by
  unfold mentionOf at h
  split_ifs at h with hat
  obtain ⟨name, rfl⟩ := Ruby.startsWith_iff.1 hat
  rw [Ruby.afterFirst_cons] at h
  obtain ⟨v, hv, rfl⟩ := Option.map_eq_some_iff.1 h
  obtain ⟨hmem, hname⟩ := Table.mem_of_findBy hv
  exact ⟨v, Table.find_of_mem hmem, by rw [of_decide_eq_true hname]⟩

/-- A word carries the tag that follows its `#`. -/
theorem tagOf_eq_some {w name : Text} : tagOf w = some name ↔ w = '#' :: name := by
  unfold tagOf
  constructor
  · intro h
    split_ifs at h with hsharp
    obtain ⟨name', rfl⟩ := Ruby.startsWith_iff.1 hsharp
    rw [Ruby.afterFirst_cons] at h
    rw [Option.some.inj h]
  · rintro rfl
    rw [if_pos (Ruby.startsWith_iff.2 ⟨name, rfl⟩), Ruby.afterFirst_cons]

theorem processWord_marks {users : Table User} {w : Text} {r : Word}
    (h : processWord users w = .ok r) : r.mention = mentionOf users w ∧ r.tag = tagOf w := by
  unfold processWord at h
  unfold mentionOf tagOf
  split_ifs at h with hat htag
  · obtain ⟨name, rfl⟩ := Ruby.startsWith_iff.1 hat
    have hno : Ruby.startsWith '#' ('@' :: name) = false := by simp [Ruby.startsWith]
    rw [if_pos hat, hno, if_neg (by simp)]
    cases hv : users.findBy fun u => u.userName = Ruby.afterFirst '@' ('@' :: name) with
    | none =>
      simp only [hv] at h
      obtain rfl := Except.ok.inj h
      exact ⟨rfl, rfl⟩
    | some v =>
      simp only [hv] at h
      obtain ⟨t, -, h⟩ := Except.bind_eq_ok.1 h
      obtain rfl := Except.ok.inj h
      exact ⟨rfl, rfl⟩
  · obtain ⟨t, -, h⟩ := Except.bind_eq_ok.1 h
    obtain rfl := Except.ok.inj h
    rw [if_neg hat, if_pos htag]
    exact ⟨rfl, rfl⟩
  · obtain rfl := Except.ok.inj h
    rw [if_neg hat, if_neg htag]
    exact ⟨rfl, rfl⟩

/-- `process_text` collects the users and the tags that the words of the text carry. -/
theorem processText_marks {users : Table User} {t : Text} {p : Processed}
    (h : processText users (some t) = .ok p) :
    p.mentions = mentioned users t ∧ p.tags = tagged t := by
  obtain ⟨words, hwords, hp⟩ := Except.bind_eq_ok.1 h
  obtain rfl := Except.ok.inj hp
  exact ⟨Except.filterMap_mapM (fun _ _ hr => (processWord_marks hr).1) hwords,
    Except.filterMap_mapM (fun _ _ hr => (processWord_marks hr).2) hwords⟩

/-- The mentions of a text are users whose names follow an `@` in it. -/
theorem mem_mentions {users : Table User} {text : Option Text} {p : Processed} {u : ℕ}
    (h : processText users text = .ok p) (hu : u ∈ p.mentions) :
    ∃ t v, text = some t ∧ users.find u = some v ∧ '@' :: v.attrs.userName ∈ Ruby.split t := by
  cases text with
  | none => exact absurd h (by simp [processText])
  | some t =>
    rw [(processText_marks h).1] at hu
    obtain ⟨w, hw, hmention⟩ := List.mem_filterMap.1 hu
    obtain ⟨v, hv, rfl⟩ := mentionOf_eq_some hmention
    exact ⟨t, v, rfl, hv, hw⟩

/-- The first branching of the thread of `make_tweet`: a tweet is counted and cached
as such, a reply is filed under the tweet it answers. -/
def publishTweet (P : Platform) (now : Time) (user : Row User) (tweet : Entry) :
    Option Text → Prog Unit
  | none => do
    incrementTweets P now user
    cacheTweet tweet user.id
  | some replyId => cacheReply tweet replyId

/-- The last statement of the thread of `make_tweet`: the mentions, or else the tags. -/
def publishMarks (processed : Processed) (tweet : Entry) (userId : ℕ) : Prog Unit :=
  if processed.mentions.length > 0 then
    cacheMentions processed.mentions tweet userId
  -- an `elsif`: a text with mentions is not filed under its tags
  else if processed.tags.length > 0 then
    cacheTags processed.tags tweet
  else pure ()

/-- The background thread of `make_tweet`, from the value of `process_text` on. -/
def publish (P : Platform) (now : Time) (user : Row User) (replyId : Option Text)
    (processed : Processed) : Prog Unit := do
  let t ← Tweet.create now processed.text user
  let tweet : Entry :=
    ⟨user.attrs.userName, processed.text, t.map fun r => r.attrs.createdAt, t.map Row.id⟩
  publishTweet P now user tweet replyId
  publishMarks processed tweet user.id

/-- `make_tweet(text, id, reply_id)`, its threads run to their end. -/
def makeTweet (P : Platform) (now : Time) (text : Option Text) (id : Option ℕ)
    (replyId : Option Text) : Prog Unit := do
  let user ← User.find id
  let users := (← get).db.users
  Prog.spawn <|
    match processText users text with
    | .ok processed => publish P now user replyId processed
    -- `processed.value` raises again in the second thread
    | .error e => throw e

/-- `search_tweets(keyword)`: newest first. A nil keyword raises at the first tweet. -/
def searchTweets (db : Db) (keyword : Option Text) : Except Error (List Entry) :=
  let all := db.tweets.rows.insertionSort fun a b => b.attrs.createdAt ≤ a.attrs.createdAt
  match keyword with
  | none => if all = [] then .ok [] else .error .typeError
  | some k =>
      .ok ((all.filter fun t => t.attrs.authorName = k ∨ k <:+: t.attrs.text).map fun t =>
        ⟨t.attrs.authorName, t.attrs.text, some t.attrs.createdAt, some t.id⟩)

end NanoTwitter
