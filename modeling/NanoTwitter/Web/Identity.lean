import Mathlib.Tactic
import NanoTwitter.Web.Orderly

/-!
# A session is the identity last proved in it

A `Watched` site carries two history variables that no route reads: the password each user has
registered with, and for each client whom it was last proved to be. `Watched.proof` says which
requests prove an identity: registrations that store a user; logins with an email (or else a name)
and the password that its user has registered with, at the two login routes and, for clients that
are nobody yet, at `GET /`; and logouts, after which the client is nobody.

`session_is_last_proof`: whatever requests are sent by whatever clients, every session has the id
and the name of the user its client was last proved to be, who exists, and neither if it is nobody.
BCrypt enters as the assumption that a hash matches the password it was made from and no other.
-/

namespace NanoTwitter

/-- A hash matches exactly the password it was made from. -/
def Platform.Exact (P : Platform) : Prop :=
  ∀ salt p q, P.passwordMatches (P.hashPassword salt p) q = true ↔ p = q

/-- A site with the passwords its users have registered with, and the users its clients were last
proved to be. -/
structure Watched where
  site : Site
  secrets : ℕ → Option Text
  proved : ℕ → Option (ℕ × Text)

/-- The parameters name the user by its email, or else by its user name. -/
def Params.address (params : Params) (u : User) : Bool :=
  if params.email.isSome then u.email ∈ wanted params.email
  else u.userName ∈ wanted params.userName

namespace Watched

/-- Nobody has registered yet. -/
def opened : Watched := ⟨Site.opened World.empty, fun _ => none, fun _ => none⟩

/-- The user that the parameters name, if they carry the user's password. An array names several
users; the first of them counts. -/
def known (P : Platform) (s : Watched) (params : Params) : Option (ℕ × Text) :=
  ((s.site.world.db.users.rows.find? fun r => params.address r.attrs).filter fun r =>
    s.secrets r.id = some (shown P params.password)).map fun r => (r.id, r.attrs.userName)

/-- The user that a request adds to the table. -/
def added (P : Platform) (s : Watched) (e : Event) : Option (ℕ × Text) :=
  ((serve P s.site e).world.db.users.find s.site.world.db.users.nextId).map fun r =>
    (r.id, r.attrs.userName)

/-- What a request proves about its client: that it is a certain user, that it is nobody any more
(`some none`), or nothing. -/
def proof (P : Platform) (s : Watched) (e : Event) : Option (Option (ℕ × Text)) :=
  match e.req.route with
  | .getLogout => some none
  | .postLoginSubmit | .postApiLogin => (s.known P e.req.params).map some
  | .getRoot =>
    if (s.proved e.client).isNone && (e.req.params.user.isSome && e.req.params.password.isSome) then
      (s.known P e.req.params).map some
    else none
  | .postRegistrationSubmit => (s.added P e).map some
  | _ => none

/-- Answer a request, and note who has registered with which password and who has proved what. -/
def watch (P : Platform) (s : Watched) (e : Event) : Watched where
  site := serve P s.site e
  secrets := if (s.added P e).isSome then
      Function.update s.secrets s.site.world.db.users.nextId
        (some (shown P e.req.params.password))
    else s.secrets
  proved := Function.update s.proved e.client ((s.proof P e).getD (s.proved e.client))

/-- What a session says of a client that was proved to be `p`. -/
def pair (p : Option (ℕ × Text)) : Option ℕ × Option Text := (p.map Prod.fst, p.map Prod.snd)

/-- Every session says who its client was last proved to be, and that user exists. -/
def Right (s : Watched) : Prop :=
  ∀ c, (s.site.sessions c).identity = pair (s.proved c) ∧
    ∀ p, s.proved c = some p →
      ∃ r, s.site.world.db.users.find p.1 = some r ∧ r.attrs.userName = p.2

/-- What holds besides: the stores are in order, and every hash was made from its user's
password. -/
structure Inv (P : Platform) (s : Watched) : Prop where
  orderly : Orderly P s.site.world
  secret : ∀ i r, s.site.world.db.users.find i = some r →
    ∃ salt p, s.secrets i = some p ∧ r.attrs.passwordHash = P.hashPassword salt p
  right : s.Right

end Watched

open Watched

variable {P : Platform} {s : Watched}

/-! ### Logins -/

theorem loginUser_eq (db : Db) (params : Params) :
    loginUser db params = db.users.rows.find? fun r => params.address r.attrs := by
  unfold loginUser Params.address
  cases params.email with
  | some e => rfl
  | none => rfl

/-- The password of a user is the one it has registered with. -/
theorem Watched.Inv.passwordOk_iff (h : s.Inv P) (hP : P.Exact) {u : Row User}
    (hu : u ∈ s.site.world.db.users.rows) (password : Option Param) :
    passwordOk P u password = true ↔ s.secrets u.id = some (shown P password) := by
  obtain ⟨salt, p, hsecret, hhash⟩ := h.secret u.id u (Table.find_of_mem hu)
  rw [passwordOk, hhash, hP, hsecret, Option.some.injEq]

/-- **A login succeeds for the user that is named and whose password is given.** -/
theorem Watched.Inv.known_eq (h : s.Inv P) (hP : P.Exact) (params : Params) :
    s.known P params =
      (credentials P s.site.world.db params).map fun u => (u.id, u.attrs.userName) := by
  unfold known
  rw [credentials, loginUser_eq]
  cases hu : s.site.world.db.users.rows.find? fun r => params.address r.attrs with
  | none => rfl
  | some u =>
    have hok := h.passwordOk_iff hP (List.mem_of_find?_eq_some hu) params.password
    rw [Option.filter_some, Option.filter_some]
    simp only [decide_eq_true_eq, ← hok]

/-! ### Registrations -/

theorem added_eq (e : Event) (he : e.req.route = .postRegistrationSubmit) :
    s.added P e = (registered P e.env.now e.env.salt (e.req.params.form P) s.site.world.db).map
      fun u => (u.id, u.attrs.userName) := by
  unfold added
  rw [Site.world_serve]
  simp only [written, he]
  cases hreg : registered P e.env.now e.env.salt (e.req.params.form P) s.site.world.db with
  | some r =>
    rw [EStateM.exec_of_ok (register_of_some (w := (s.site.ctx e.client).world) hreg)]
    obtain ⟨u, -, rfl⟩ := Option.map_eq_some_iff.1 hreg
    simp [Site.ctx, Table.find_insert]
  | none =>
    rw [EStateM.exec_of_ok (register_of_none (w := (s.site.ctx e.client).world) hreg)]
    simp [Site.ctx, Table.find_nextId]

/-- Other requests add nobody. -/
theorem added_eq_none (h : Orderly P s.site.world) {e : Event}
    (he : e.req.route ≠ .postRegistrationSubmit) : s.added P e = none := by
  have hsame := sameIdent_written (c := s.site.ctx e.client) e.env h he
  have hnone : s.site.world.db.users.find s.site.world.db.users.nextId = none :=
    Table.find_nextId
  unfold added
  rw [Site.world_serve, hsame.find_eq_none hnone]
  rfl

/-! ### One request -/

/-- The users after a request: those from before, with a new one if the request was a successful
registration. -/
theorem users_serve (h : Orderly P s.site.world) (e : Event) :
    (s.added P e = none ∧
      SameIdent s.site.world.db.users (serve P s.site e).world.db.users) ∨
    ∃ u, User.new P e.env.salt e.env.now (e.req.params.form P) = some u ∧
      s.added P e = some (s.site.world.db.users.nextId, u.userName) ∧
      (serve P s.site e).world.db.users = s.site.world.db.users.insert u := by
  by_cases he : e.req.route = .postRegistrationSubmit
  · rw [added_eq e he, Site.world_serve]
    simp only [written, he]
    cases hreg : registered P e.env.now e.env.salt (e.req.params.form P) s.site.world.db with
    | none =>
      rw [EStateM.exec_of_ok (register_of_none (w := (s.site.ctx e.client).world) hreg)]
      exact .inl ⟨rfl, .refl _⟩
    | some r =>
      rw [EStateM.exec_of_ok (register_of_some (w := (s.site.ctx e.client).world) hreg)]
      obtain ⟨u, hu, rfl⟩ := Option.map_eq_some_iff.1 hreg
      exact .inr ⟨u, (Option.filter_eq_some_iff.1 hu).1, rfl, rfl⟩
  · rw [Site.world_serve]
    exact .inl ⟨added_eq_none h he, sameIdent_written (c := s.site.ctx e.client) e.env h he⟩

/-- A user stays, with its name. -/
theorem find_serve (h : Orderly P s.site.world) (e : Event) {i : ℕ} {r : Row User}
    (hr : s.site.world.db.users.find i = some r) :
    ∃ r', (serve P s.site e).world.db.users.find i = some r' ∧
      r'.attrs.userName = r.attrs.userName := by
  rcases users_serve h e with ⟨-, hsame⟩ | ⟨u, -, -, hinsert⟩
  · obtain ⟨r', hr', hident⟩ := hsame.find hr
    exact ⟨r', hr', User.userName_of_ident hident⟩
  · have hne : i ≠ s.site.world.db.users.nextId := by
      rintro rfl
      rw [Table.find_nextId] at hr
      exact absurd hr (by simp)
    exact ⟨r, by rw [hinsert, Table.find_insert, if_neg hne, hr], rfl⟩

/-- Every hash was made from the password that was noted. -/
theorem secret_watch (h : s.Inv P) (e : Event) (i : ℕ) (r : Row User)
    (hr : (s.watch P e).site.world.db.users.find i = some r) :
    ∃ salt p, (s.watch P e).secrets i = some p ∧
      r.attrs.passwordHash = P.hashPassword salt p := by
  simp only [watch] at hr ⊢
  rcases users_serve h.orderly e with ⟨hnone, hsame⟩ | ⟨u, hu, hadded, hinsert⟩
  · obtain ⟨r', hr', hident⟩ := SameIdent.find hsame.symm hr
    obtain ⟨salt, p, hsecret, hhash⟩ := h.secret i r' hr'
    refine ⟨salt, p, by rw [hnone]; exact hsecret, ?_⟩
    rw [← hhash]
    exact (congrArg (fun x => x.2.2.2) hident).symm
  · rw [hadded, if_pos (by rfl)]
    rw [hinsert, Table.find_insert] at hr
    by_cases hi : i = s.site.world.db.users.nextId
    · rw [if_pos hi] at hr
      obtain rfl := Option.some.inj hr
      refine ⟨e.env.salt, shown P e.req.params.password, by rw [hi, Function.update_self], ?_⟩
      unfold User.new at hu
      split at hu
      · obtain rfl := Option.some.inj hu
        rfl
      · exact absurd hu (by simp)
    · rw [if_neg hi] at hr
      rw [Function.update_of_ne hi]
      exact h.secret i r hr

/-- A client is logged in if it was proved to be somebody. -/
theorem isAuthenticated_eq (h : s.Right) (c : ℕ) :
    (s.site.ctx c).isAuthenticated = (s.proved c).isSome := by
  obtain ⟨hpair, hrow⟩ := h c
  have hid : (s.site.sessions c).userId = (s.proved c).map Prod.fst := congrArg Prod.fst hpair
  unfold Ctx.isAuthenticated Site.ctx
  rw [hid]
  cases hp : s.proved c with
  | none => rfl
  | some p =>
    obtain ⟨r, hr, -⟩ := hrow p hp
    simp [hr]

/-- **A request proves what its handler signs in.** -/
theorem proof_eq (h : s.Inv P) (hP : P.Exact) {e : Event} (he : e.req.route ≠ .getLogout) :
    s.proof P e = (signedIn P e.env e.req (s.site.ctx e.client)).map fun u =>
      some (u.id, u.attrs.userName) := by
  have hknown : (s.known P e.req.params).map some =
      (credentials P s.site.world.db e.req.params).map fun u => some (u.id, u.attrs.userName) := by
    rw [h.known_eq hP, Option.map_map]
    rfl
  have hadded : e.req.route = .postRegistrationSubmit → (s.added P e).map some =
      (registered P e.env.now e.env.salt (e.req.params.form P) s.site.world.db).map fun u =>
        some (u.id, u.attrs.userName) := by
    intro hreg
    rw [added_eq e hreg, Option.map_map]
    rfl
  unfold proof signedIn
  rw [isAuthenticated_eq h.right]
  cases hroute : e.req.route with
  | getLogout => exact absurd hroute he
  | postLoginSubmit | postApiLogin => exact hknown
  | postRegistrationSubmit => exact hadded hroute
  | getRoot =>
    dsimp only
    rw [← Option.not_isSome]
    split_ifs
    · exact hknown
    · rfl
  | _ => rfl

/-- After a request the session says what the request has proved, or else what it said before. -/
theorem identified_eq (h : s.Inv P) (hP : P.Exact) (e : Event) :
    identified P e.env e.req (s.site.ctx e.client) =
      pair ((s.proof P e).getD (s.proved e.client)) := by
  by_cases he : e.req.route = .getLogout
  · simp [identified, proof, he, pair]
  · rw [proof_eq h hP he, identified, if_neg he]
    cases signedIn P e.env e.req (s.site.ctx e.client) with
    | some u => rfl
    | none => exact (h.right e.client).1

/-- Who is proved by a request exists afterwards. -/
theorem exists_of_proof (h : s.Inv P) (hP : P.Exact) {e : Event} {p : ℕ × Text}
    (hp : s.proof P e = some (some p)) :
    ∃ r, (serve P s.site e).world.db.users.find p.1 = some r ∧ r.attrs.userName = p.2 := by
  have hknown : s.known P e.req.params = some p →
      ∃ r, (serve P s.site e).world.db.users.find p.1 = some r ∧ r.attrs.userName = p.2 := by
    intro hk
    rw [h.known_eq hP] at hk
    obtain ⟨u, hu, rfl⟩ := Option.map_eq_some_iff.1 hk
    exact find_serve h.orderly e (credentials_mem hu)
  have hsome : ∀ o : Option (ℕ × Text), o.map some = some (some p) → o = some p := by
    intro o ho
    obtain ⟨q, rfl, hq⟩ := Option.map_eq_some_iff.1 ho
    rw [Option.some.inj hq]
  unfold proof at hp
  split at hp
  · exact absurd hp (by simp)
  · exact hknown (hsome _ hp)
  · exact hknown (hsome _ hp)
  · split_ifs at hp
    exact hknown (hsome _ hp)
  · obtain ⟨r, hr, rfl⟩ := Option.map_eq_some_iff.1 (hsome _ hp)
    obtain ⟨-, hid⟩ := Table.mem_of_find hr
    exact ⟨r, by rw [hid]; exact hr, rfl⟩
  · exact absurd hp (by simp)

theorem right_watch (h : s.Inv P) (hP : P.Exact) (e : Event) : (s.watch P e).Right := by
  intro c
  have hold : ∀ p, s.proved c = some p →
      ∃ r, (serve P s.site e).world.db.users.find p.1 = some r ∧ r.attrs.userName = p.2 := by
    intro p hp
    obtain ⟨r, hr, hname⟩ := (h.right c).2 p hp
    obtain ⟨r', hr', hname'⟩ := find_serve h.orderly e hr
    exact ⟨r', hr', hname'.trans hname⟩
  by_cases hc : c = e.client
  · subst hc
    simp only [watch, Function.update_self]
    refine ⟨?_, fun p hp => ?_⟩
    · simp only [serve, Function.update_self]
      rw [(handle_outcome P e.env e.req (s.site.ctx e.client)).2]
      exact identified_eq h hP e
    · cases hproof : s.proof P e with
      | none => rw [hproof] at hp; exact hold p hp
      | some q =>
        rw [hproof, Option.getD_some] at hp
        exact exists_of_proof h hP (by rw [hproof, hp])
  · simp only [watch, Function.update_of_ne hc]
    refine ⟨?_, hold⟩
    simp only [serve, Function.update_of_ne hc]
    exact (h.right c).1

theorem inv_watch (h : s.Inv P) (hP : P.Exact) (e : Event) : (s.watch P e).Inv P where
  orderly := by
    simp only [watch, Site.world_serve]
    exact orderly_written (c := s.site.ctx e.client) e.env e.req h.orderly
  secret := secret_watch h e
  right := right_watch h hP e

/-! ### Runs -/

/-- **A session is always the identity last proved in it.** -/
theorem session_is_last_proof (P : Platform) (hP : P.Exact) (es : List Event) :
    Run.Always (watch P) Right Watched.opened es := by
  have hstart : Watched.opened.Inv P := by
    refine ⟨orderly_empty P, fun i r hr => absurd hr (by simp [opened, Site.opened, World.empty,
      Table.find]), fun c => ⟨rfl, fun p hp => absurd hp (by simp [opened])⟩⟩
  intro es' hes'
  exact (Run.always_of_inv (P := Watched.Inv P) (fun _ e h => inv_watch h hP e) hstart es' es'
    (List.prefix_refl es')).right

theorem Platform.exact_ascii : Platform.ascii.Exact := by
  intro salt p q
  have hno : ∀ c ∈ Ruby.decimal salt, decide (c ≠ '$') = true := by
    intro c hc
    refine decide_eq_true fun h => ?_
    have hdigit := Ruby.isDigit_of_mem_decimal hc
    rw [h] at hdigit
    exact absurd hdigit (by decide)
  have hsecret : Ruby.afterFirst '$' (Platform.ascii.hashPassword salt p) = p := by
    unfold Ruby.afterFirst
    show ((Ruby.decimal salt ++ '$' :: p).dropWhile _).drop 1 = p
    rw [List.dropWhile_append_of_pos hno, List.dropWhile_cons_of_neg (by simp)]
    rfl
  show decide (Ruby.afterFirst '$' (Platform.ascii.hashPassword salt p) = q) = true ↔ p = q
  rw [decide_eq_true_eq, hsecret]

/-- One client registers; another one logs in as the new user, by email, after a wrong password. -/
def twoClients : List Event :=
  [⟨0, ⟨0, 0, false, []⟩, .postRegistrationSubmit, "/registration/submit",
      { name := some "Ann", email := some "ann@x.org", userName := some "ann",
        password := some "secret" }⟩,
    ⟨1, ⟨1, 0, false, []⟩, .postLoginSubmit, "/login/submit",
      { email := some "ann@x.org", password := some "guess" }⟩,
    ⟨1, ⟨2, 0, false, []⟩, .postLoginSubmit, "/login/submit",
      { email := some "ann@x.org", password := some "secret" }⟩]

/-- The second client is proved to be the user, and its session says so. -/
theorem login_proves_user :
    let s := Run.run (watch .ascii) Watched.opened twoClients
    s.proved 1 = some (1, ("ann" : Text)) ∧
      (s.site.sessions 1).identity = (some 1, some ("ann" : Text)) := by
  intro s
  have hproved : s.proved 1 = some (1, ("ann" : Text)) := by decide +kernel
  have hsession :=
    ((session_is_last_proof .ascii Platform.exact_ascii twoClients).last 1).1
  exact ⟨hproved, hsession.trans (by rw [show s.proved 1 = _ from hproved]; rfl)⟩

end NanoTwitter
