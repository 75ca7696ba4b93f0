import Mathlib.Tactic
import NanoTwitter.Lib.Run
import NanoTwitter.Web.Outcome
import NanoTwitter.Web.Writes

/-!
# The application and its clients

A `Site` is the application at work: the stores, and a session for each of any number of clients.
`serve` lets it answer the request of a client; requests are answered one after the other, and a
request that raises keeps what it has written so far, in the stores and in the session.

`loggedIn` is a history variable: whom a client has logged in or registered as, and not logged out
since. No route reads it; `consistent_serve` proves that it is what the session says, and that the
user exists.
-/

namespace NanoTwitter

/-- A request of a client, with what the environment decides in its course. -/
structure Event where
  client : ℕ
  env : Env
  req : Request

/-- A client registers under a name. -/
def Event.joins (client : ℕ) (now : Ruby.Time) (name : Text) : Event :=
  ⟨client, ⟨now, 0, false, []⟩, .postRegistrationSubmit, "/registration/submit",
    { name := some name, email := some (name ++ ("@x.org" : Text)), userName := some name,
      password := some "secret" }⟩

/-- The stores, the sessions of the clients, and whom each client has logged in as. -/
structure Site where
  world : World
  sessions : ℕ → Session
  loggedIn : ℕ → Option ℕ

namespace Site

/-- Before the first request nobody is logged in. -/
def opened (w : World) : Site := ⟨w, fun _ => Session.new, fun _ => none⟩

/-- What the handler of a request of `client` works on. -/
def ctx (s : Site) (client : ℕ) : Ctx := ⟨s.world, s.sessions client⟩

/-- Whom the client of `e` is logged in as once `e` is answered: a login or registration counts
from then on, until the client logs out. -/
def loginAfter (P : Platform) (s : Site) (e : Event) : Option ℕ :=
  if e.req.route = .getLogout then none
  else
    match signedIn P e.env e.req (s.ctx e.client) with
    | some u => some u.id
    | none => s.loggedIn e.client

end Site

/-- Answer a request. -/
def serve (P : Platform) (s : Site) (e : Event) : Site where
  world := ((handle P e.env e.req).exec (s.ctx e.client)).world
  sessions := Function.update s.sessions e.client
    ((handle P e.env e.req).exec (s.ctx e.client)).session
  loggedIn := Function.update s.loggedIn e.client (s.loginAfter P e)

/-- The application after the requests `es`, with stores that were empty at first. -/
def Site.reached (P : Platform) (es : List Event) : Site :=
  Run.run (serve P) (Site.opened World.empty) es

/-! ### Users stay -/

variable {P : Platform}

/-- No request deletes a user. -/
theorem users_written (env : Env) (req : Request) (c : Ctx) {a : ℕ}
    (ha : (c.world.db.users.find a).isSome) :
    ((written P env req c).db.users.find a).isSome := by
  obtain ⟨route, path, params⟩ := req
  have htweet : ∀ text id replyId,
      (((makeTweet P env.now text id replyId).exec c.world).db.users.find a).isSome :=
    fun text id replyId => (calm_makeTweet env.now text id replyId c.world).users a ha
  cases route with
  | postRegistrationSubmit =>
    exact (calm_register env.now env.salt (params.form P) c.world).users a ha
  | postUserFollow =>
    obtain ⟨t, -, h⟩ := calm_follow (P := P) env.now c.session.userId params.userName c.world
    exact h.users a ha
  | postUserUnfollow =>
    obtain ⟨t, -, h⟩ := calm_unfollow (P := P) env.now c.session.userId params.userName c.world
    exact h.users a ha
  | postTweetNewSubmit => exact htweet _ _ _
  | postTweetReply => exact htweet _ _ _
  | postTweetLike =>
    have h := (sameRows_like env.now c.session.userId (textOf params.tweetId) c.world).2.2
    simp only [written, h]
    exact ha
  | postApiNewTweet =>
    simp only [written]
    split
    · exact htweet _ _ _
    · exact ha
  | getRoot =>
    simp only [written]
    split
    · split_ifs
      · exact htweet _ _ _
      · exact ha
    · exact ha
  | _ => exact ha

theorem credentials_mem {db : Db} {params : Params} {u : Row User}
    (h : credentials P db params = some u) : db.users.find u.id = some u := by
  have hu := (Option.filter_eq_some_iff.1 h).1
  unfold loginUser at hu
  split_ifs at hu
  · exact Table.find_of_mem (Table.mem_of_findBy hu).1
  · exact findByUserName_mem hu

/-- A user that logs in or registers exists afterwards. -/
theorem exists_of_signedIn {env : Env} {req : Request} {c : Ctx} {u : Row User}
    (h : signedIn P env req c = some u) :
    ((written P env req c).db.users.find u.id).isSome := by
  have hlogin : credentials P c.world.db req.params = some u →
      ((written P env req c).db.users.find u.id).isSome := fun hc =>
    users_written env req c (by rw [credentials_mem hc]; rfl)
  obtain ⟨route, path, params⟩ := req
  cases route with
  | postLoginSubmit => exact hlogin h
  | postApiLogin => exact hlogin h
  | getRoot =>
    simp only [signedIn] at h
    split_ifs at h
    exact hlogin h
  | postRegistrationSubmit =>
    have hreg := register_of_some (w := c.world) h
    obtain ⟨v, -, rfl⟩ := Option.map_eq_some_iff.1 h
    simp only [written, EStateM.exec_of_ok hreg, World.users_setUsers, Table.find_insert]
    rfl
  | _ => exact absurd h (by simp [signedIn])

namespace Site

variable {s : Site}

theorem world_serve (e : Event) :
    (serve P s e).world = written P e.env e.req (s.ctx e.client) :=
  (handle_outcome P e.env e.req (s.ctx e.client)).1

theorem loggedIn_serve (e : Event) :
    (serve P s e).loggedIn e.client = s.loginAfter P e := Function.update_self _ _ _

/-- The sessions agree with the logins, and the users that are logged in exist. -/
structure Consistent (s : Site) : Prop where
  session : ∀ c, (s.sessions c).userId = s.loggedIn c
  exists_user : ∀ c a, s.loggedIn c = some a → (s.world.db.users.find a).isSome

theorem consistent_opened (w : World) : (opened w).Consistent :=
  ⟨fun _ => rfl, fun _ a h => absurd h (by simp [opened])⟩

/-- Whom a client is logged in as once its request is answered, from the handler's side. -/
theorem loginAfter_eq (h : s.Consistent) (e : Event) :
    s.loginAfter P e = (identified P e.env e.req (s.ctx e.client)).1 := by
  unfold loginAfter identified
  split_ifs
  · rfl
  · cases signedIn P e.env e.req (s.ctx e.client) with
    | some u => rfl
    | none => exact (h.session e.client).symm

theorem exists_loginAfter (h : s.Consistent) (e : Event) {a : ℕ}
    (ha : s.loginAfter P e = some a) : ((serve P s e).world.db.users.find a).isSome := by
  rw [world_serve]
  unfold loginAfter at ha
  split_ifs at ha
  cases hu : signedIn P e.env e.req (s.ctx e.client) with
  | some u =>
    rw [hu] at ha
    obtain rfl := Option.some.inj ha
    exact exists_of_signedIn hu
  | none =>
    rw [hu] at ha
    exact users_written e.env e.req (s.ctx e.client) (h.exists_user e.client a ha)

/-- **A client's session says whom the client has logged in as, and that user exists.** -/
theorem consistent_serve (h : s.Consistent) (e : Event) : (serve P s e).Consistent := by
  refine ⟨fun c => ?_, fun c a ha => ?_⟩
  · by_cases hc : c = e.client
    · subst hc
      rw [loggedIn_serve, loginAfter_eq h]
      simp only [serve, Function.update_self]
      exact congrArg Prod.fst (handle_outcome P e.env e.req (s.ctx e.client)).2
    · simp only [serve, Function.update_of_ne hc]
      exact h.session c
  · by_cases hc : c = e.client
    · subst hc
      rw [loggedIn_serve] at ha
      exact exists_loginAfter h e ha
    · simp only [serve, Function.update_of_ne hc] at ha
      rw [world_serve]
      exact users_written e.env e.req (s.ctx e.client) (h.exists_user c a ha)

end Site

end NanoTwitter
