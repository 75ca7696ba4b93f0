import Mathlib.Tactic
import NanoTwitter.Model.Values

/-!
# The records: validations and saves

`models/user.rb`, `models/tweet.rb`, `models/follow.rb` and `helpers/follow_validator.rb`. A record
object is a `Row`: the attributes it was loaded with, under its id. `create` and `save` first run
the validations and write only when all of them pass; neither raises when one fails.

A counter method changes one attribute of the object and saves it. The save writes that column (and
`updated_at`), with the value computed from the object, into the row with the object's id.
-/

namespace NanoTwitter

open Ruby (Time blank)

/-! ### Users -/

/-- A uniqueness query: some row other than `own` has the value `v` in column `f`. -/
def taken (users : Table User) (own : Option ℕ) (f : User → Text) (v : Text) : Bool :=
  users.rows.any fun r => some r.id ≠ own ∧ f r.attrs = v

namespace User

/-- The validations of a user that is stored under the id `own`, or not stored yet. -/
def valid (P : Platform) (users : Table User) (own : Option ℕ) (u : User) : Bool :=
  -- `validates_uniqueness_of` compares exactly, the two `uniqueness` options up to case
  !taken users own User.userName u.userName && !taken users own User.email u.email &&
  !blank u.userName && !taken users own (fun v => P.lower v.userName) (P.lower u.userName) &&
  !blank u.email && !taken users own (fun v => P.lower v.email) (P.lower u.email) &&
  !blank u.passwordHash && !blank u.name

/-- The attributes given to `User.create` by `POST /registration/submit`. -/
structure Form where
  name : Option Text
  email : Option Text
  userName : Option Text
  password : Option Text

/-- A form filled in by a user. -/
def Form.of (userName email : Text) : Form :=
  ⟨some userName, some email, some userName, some "secret"⟩

/-- The object `User.new` builds: the password is hashed even when it is absent, the counters are
zero. There is none when an attribute that must be present is absent. -/
def new (P : Platform) (salt : ℕ) (now : Time) (form : Form) : Option User :=
  match form.name, form.email, form.userName with
  | some name, some email, some userName =>
      some { name, userName, email
             passwordHash := P.hashPassword salt (form.password.getD [])
             followerCount := 0
             followingCount := 0
             tweetCount := 0
             createdAt := now
             updatedAt := now }
  | _, _, _ => none

/-- `save` of an object that is not stored yet. -/
def saveNew (P : Platform) (u : Option User) : Prog (Option (Row User)) := fun w =>
  match u with
  | none => .ok none w
  | some u =>
      if u.valid P w.db.users none then
        .ok (some ⟨w.db.users.nextId, u⟩) (w.setUsers (w.db.users.insert u))
      else .ok none w

/-- `User.find(id)`. -/
def find (id : Option ℕ) : Prog (Row User) := fun w =>
  match id.bind w.db.users.find with
  | some u => .ok u w
  | none => .error .recordNotFound w

/-- `User.find_by_user_name(name)`, also as `User.where(user_name: name)[0]`: the first row in the
order of the table. A query that raises has no row. -/
def findByUserName (db : Db) (name : Option Param) : Option (Row User) :=
  db.users.findBy fun u => u.userName ∈ wanted name

/-- `User.find_by_email(email)`. -/
def findByEmail (db : Db) (email : Option Param) : Option (Row User) :=
  db.users.findBy fun u => u.email ∈ wanted email

/-- What a method call on a user that was not found raises: on nil, unless the lookup has raised
before. -/
def missing (name : Option Param) : Error := (queryError name).getD .noMethodError

end User

/-- The counter columns of `users`. -/
inductive Counter
  | followers
  | followings
  | tweets
  deriving DecidableEq

namespace Counter

def get : Counter → User → ℤ
  | .followers => User.followerCount
  | .followings => User.followingCount
  | .tweets => User.tweetCount

def set (k : Counter) (v : ℤ) (u : User) : User :=
  match k with
  | .followers => { u with followerCount := v }
  | .followings => { u with followingCount := v }
  | .tweets => { u with tweetCount := v }

/-- What the `UPDATE` of a counter writes. -/
def write (now : Time) (k : Counter) (v : ℤ) (u : User) : User :=
  { k.set v u with updatedAt := now }

/-- `save` of the object `u` after its counter `k` was set to `v`. -/
def save (P : Platform) (now : Time) (k : Counter) (u : Row User) (v : ℤ) : Prog Unit := fun w =>
  if u.attrs.valid P w.db.users (some u.id) then
    .ok () (w.setUsers (w.db.users.update u.id (k.write now v)))
  -- `save` returns false, which no caller looks at
  else .ok () w

/-- `self.k += 1; self.save`. -/
def increment (P : Platform) (now : Time) (k : Counter) (u : Row User) : Prog Unit :=
  k.save P now u (k.get u.attrs + 1)

/-- `if k > 0; self.k -= 1; self.save; end`. -/
def decrement (P : Platform) (now : Time) (k : Counter) (u : Row User) : Prog Unit :=
  if k.get u.attrs > 0 then k.save P now u (k.get u.attrs - 1) else pure ()

@[simp] theorem get_write (now : Time) (k : Counter) (v : ℤ) (u : User) :
    k.get (k.write now v u) = v := by
  cases k <;> rfl

theorem get_write_of_ne {j k : Counter} (h : j ≠ k) (now : Time) (v : ℤ) (u : User) :
    j.get (k.write now v u) = j.get u := by
  cases j <;> cases k <;> first | rfl | exact absurd rfl h

end Counter

/-- The value of a counter of user `i`; zero when there is no such user. -/
def count (k : Counter) (users : Table User) (i : ℕ) : ℤ :=
  ((users.find i).map fun r => k.get r.attrs).getD 0

theorem count_of_find {k : Counter} {users : Table User} {i : ℕ} {r : Row User}
    (h : users.find i = some r) : count k users i = k.get r.attrs := by
  rw [count, h]; rfl

/-- The `UPDATE` of a counter sets it and no other. -/
theorem count_update {users : Table User} {a : ℕ} (h : (users.find a).isSome) (now : Time)
    (j k : Counter) (v : ℤ) (i : ℕ) :
    count j (users.update i (k.write now v)) a =
      if j = k ∧ a = i then v else count j users a := by
  obtain ⟨r, hr⟩ := Option.isSome_iff_exists.1 h
  have hfind := Table.find_update (t := users) i (k.write now v) a
  rw [hr, Option.map_some] at hfind
  rw [count_of_find hr, count_of_find hfind]
  obtain ⟨-, rfl⟩ := Table.mem_of_find hr
  dsimp only
  by_cases hi : r.id = i
  · by_cases hk : j = k
    · subst hk; simp [hi]
    · simp [hi, hk, Counter.get_write_of_ne hk]
  · simp [hi]

def incrementFollowers (P : Platform) (now : Time) : Row User → Prog Unit :=
  Counter.increment P now .followers

def decrementFollowers (P : Platform) (now : Time) : Row User → Prog Unit :=
  Counter.decrement P now .followers

def incrementTweets (P : Platform) (now : Time) : Row User → Prog Unit :=
  Counter.increment P now .tweets

def incrementFollowings (P : Platform) (now : Time) : Row User → Prog Unit :=
  Counter.increment P now .followings

def decrementFollowings (P : Platform) (now : Time) : Row User → Prog Unit :=
  Counter.decrement P now .followings

/-! ### Tweets -/

namespace Tweet

/-- The validations of a tweet; `author` says whether its author is present. -/
def valid (author : Bool) (t : Tweet) : Bool :=
  !blank t.text && decide (1 ≤ t.text.length ∧ t.text.length ≤ 140) && author &&
    !blank t.authorName

/-- The object `Tweet.new(text: text, author: author, author_name: author.user_name)`, with the
times its `save` would write. -/
def new (now : Time) (text : Text) (author : Row User) : Tweet where
  text := text
  likes := 0
  authorId := author.id
  authorName := author.attrs.userName
  createdAt := now
  updatedAt := now
  replyId := none

/-- `Tweet.create(…)`: the stored row, or nothing when a validation fails. -/
def create (now : Time) (text : Text) (author : Row User) : Prog (Option (Row Tweet)) := fun w =>
  let t := Tweet.new now text author
  if t.valid true then
    .ok (some ⟨w.db.tweets.nextId, t⟩) (w.setTweets (w.db.tweets.insert t))
  else .ok none w

/-- `Tweet.find(id)` with the text of an id. -/
def find (id : Option Text) : Prog (Row Tweet) := fun w =>
  match id.bind fun s => w.db.tweets.rows.find? fun t => (t.id : ℤ) = Ruby.toI s with
  | some t => .ok t w
  | none => .error .recordNotFound w

/-- `self.likes += 1; self.save`; the object's new value is returned. -/
def incrementLikes (now : Time) (t : Row Tweet) : Prog ℤ := fun w =>
  let v := t.attrs.likes + 1
  if t.attrs.valid (w.db.users.find t.attrs.authorId).isSome then
    .ok v (w.setTweets (w.db.tweets.update t.id fun r => { r with likes := v, updatedAt := now }))
  else .ok v w

end Tweet

/-! ### Follows -/

namespace Follow

/-- `Follow.where(follower_id: a, followed_id: b).exists?`. -/
def exists? (db : Db) (a b : ℕ) : Bool :=
  db.follows.rows.any fun f => f.attrs.followerId = a ∧ f.attrs.followedId = b

/-- The validations of a new follow: both users exist, and `FollowValidator#validate` finds them
different and the pair new. -/
def valid (db : Db) (a b : ℕ) : Bool :=
  (db.users.find a).isSome && (db.users.find b).isSome && decide (a ≠ b) && !exists? db a b

/-- `Follow.create(follower_id: a, followed_id: b)`. -/
def create (a : Option ℕ) (b : ℕ) : Prog Unit := fun w =>
  match a with
  -- `validates :follower, presence: true`
  | none => .ok () w
  | some a =>
      if valid w.db a b then .ok () (w.setFollows (w.db.follows.insert ⟨a, b⟩)) else .ok () w

/-- `Follow.where(follower_id: a, followed_id: b).destroy_all`. -/
def destroyAll (a : Option ℕ) (b : ℕ) : Prog Unit := fun w =>
  .ok () (w.setFollows (w.db.follows.deleteWhere fun f =>
    some f.attrs.followerId = a ∧ f.attrs.followedId = b))

/-- The followers of `Follow.where(followed_id: b)`, one for each row. -/
def followersOf (db : Db) (b : ℕ) : List ℕ :=
  (db.follows.rows.filter fun f => f.attrs.followedId = b).map fun f => f.attrs.followerId

end Follow

end NanoTwitter
