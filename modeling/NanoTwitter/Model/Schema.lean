import Mathlib.Tactic
import NanoTwitter.Lib.Json
import NanoTwitter.Lib.State
import NanoTwitter.Lib.Store
import NanoTwitter.Lib.Table

/-!
# The stores of nanotwitter

The tables of `db/schema.rb`, the Redis content behind `$redis`, and the monad in which the
application's code is written down.

* `User`, `Tweet`, `Follow`: the columns of the three tables besides the primary key. The counters
  and `likes` are SQL integers; the columns that every validation requires are never null;
* `World`: the database and the Redis content. Both keys and entries of Redis are texts;
* `Prog α`: code that reads and writes a `World` and returns an `α` or raises. What was written
  before an error stays written: no route of the application uses a transaction;
* `Platform`: what the application calls and does not define, namely SQL's `LOWER`, the hashing and
  comparison of BCrypt, and how Ruby quotes a string that it prints inside an array.
-/

namespace NanoTwitter

open Ruby (Time)

/-- A row of `users`. -/
structure User where
  name : Text
  userName : Text
  email : Text
  passwordHash : Text
  followerCount : ℤ
  followingCount : ℤ
  tweetCount : ℤ
  createdAt : Time
  updatedAt : Time
  deriving DecidableEq

/-- A row of `tweets`. -/
structure Tweet where
  text : Text
  likes : ℤ
  authorId : ℕ
  authorName : Text
  createdAt : Time
  updatedAt : Time
  replyId : Option ℤ
  deriving DecidableEq

/-- A row of `follows`. -/
structure Follow where
  followerId : ℕ
  followedId : ℕ
  deriving DecidableEq

/-- The database. -/
structure Db where
  users : Table User
  tweets : Table Tweet
  follows : Table Follow

/-- The database and the cache. -/
structure World where
  db : Db
  redis : Store Text Text

/-- Nobody registered, nothing cached. -/
def World.empty : World := ⟨⟨Table.empty, Table.empty, Table.empty⟩, Store.empty⟩

/-- What the code raises. -/
inductive Error
  | recordNotFound
  | noMethodError
  | typeError
  | indexError
  | runtimeError
  | parserError
  | commandError
  | statementInvalid
  deriving DecidableEq

/-- Code over the two stores. -/
abbrev Prog := EStateM Error World

/-- SQL's `LOWER`, `BCrypt::Password.create` (with the salt it draws), the comparison
`BCrypt::Password#==` of a stored hash with a secret, and `String#inspect`. -/
structure Platform where
  lower : Text → Text
  hashPassword : ℕ → Text → Text
  passwordMatches : Text → Text → Bool
  inspect : Text → Text

/-- A platform to evaluate the code with: ASCII case folding, a hash made of salt and secret, and
quotes around a text. -/
def Platform.ascii : Platform where
  lower := List.map Char.toLower
  hashPassword salt secret := Ruby.decimal salt ++ '$' :: secret
  passwordMatches hash secret := Ruby.afterFirst '$' hash = secret
  inspect s := Json.dquote :: s ++ [Json.dquote]

namespace World

/-- Replace the rows of one table, or the Redis content. -/
def setUsers (w : World) (t : Table User) : World := { w with db := { w.db with users := t } }

def setTweets (w : World) (t : Table Tweet) : World := { w with db := { w.db with tweets := t } }

def setFollows (w : World) (t : Table Follow) : World := { w with db := { w.db with follows := t } }

def setRedis (w : World) (r : Store Text Text) : World := { w with redis := r }

variable (w : World)

@[simp] theorem users_setUsers (t : Table User) : (w.setUsers t).db.users = t := rfl
@[simp] theorem tweets_setUsers (t : Table User) : (w.setUsers t).db.tweets = w.db.tweets := rfl
@[simp] theorem follows_setUsers (t : Table User) : (w.setUsers t).db.follows = w.db.follows := rfl
@[simp] theorem redis_setUsers (t : Table User) : (w.setUsers t).redis = w.redis := rfl
@[simp] theorem users_setTweets (t : Table Tweet) : (w.setTweets t).db.users = w.db.users := rfl
@[simp] theorem tweets_setTweets (t : Table Tweet) : (w.setTweets t).db.tweets = t := rfl
@[simp] theorem follows_setTweets (t : Table Tweet) :
    (w.setTweets t).db.follows = w.db.follows := rfl
@[simp] theorem redis_setTweets (t : Table Tweet) : (w.setTweets t).redis = w.redis := rfl
@[simp] theorem users_setFollows (t : Table Follow) : (w.setFollows t).db.users = w.db.users := rfl
@[simp] theorem tweets_setFollows (t : Table Follow) :
    (w.setFollows t).db.tweets = w.db.tweets := rfl
@[simp] theorem follows_setFollows (t : Table Follow) : (w.setFollows t).db.follows = t := rfl
@[simp] theorem redis_setFollows (t : Table Follow) : (w.setFollows t).redis = w.redis := rfl
@[simp] theorem db_setRedis (r : Store Text Text) : (w.setRedis r).db = w.db := rfl
@[simp] theorem redis_setRedis (r : Store Text Text) : (w.setRedis r).redis = r := rfl

end World

/-- `Thread.new { p }`, run to its end: an error ends the thread and reaches nobody. -/
def Prog.spawn {α : Type} (p : Prog α) : Prog Unit := fun w => .ok () (p.exec w)

/-- Raise `e` for a missing value. -/
def orRaise {σ α : Type} (e : Error) : Option α → EStateM Error σ α
  | some a => pure a
  | none => throw e

section orRaise

variable {σ α : Type} {s : σ} {o : Option α}

theorem orRaise_ok (e : Error) {a : α} (h : o = some a) : orRaise e o s = .ok a s := by
  rw [h]; rfl

theorem orRaise_error (e : Error) (h : o = none) : orRaise e o s = .error e s := by
  rw [h]; rfl

end orRaise

end NanoTwitter
