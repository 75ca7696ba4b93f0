import Mathlib.Tactic
import NanoTwitter.Web.Site

/-!
# Which registrations are admitted

`POST /registration/submit` hands its parameters to `User.create`, whose validations look at the
name, the user name, the email and the password hash. The setter of the password hashes whatever it
is given, so that the hash is there even when the password is not. A registration is admitted if the
other three values are filled in and unclaimed (`registered_isSome_iff`); where that differs from
what registration is for is the password alone (`registersComplete_iff`).
-/

namespace NanoTwitter

open Ruby (Time blank)

/-- A value is given and not blank. -/
def filled (v : Option Text) : Bool := v.any fun t => !blank t

/-- All four values are filled in. -/
def complete (form : User.Form) : Bool :=
  filled form.name && filled form.userName && filled form.email && filled form.password

/-- No user has the user name or the email, ignoring case. -/
def Unclaimed (P : Platform) (form : User.Form) (users : Table User) : Prop :=
  ∀ r ∈ users.rows, P.lower r.attrs.userName ≠ P.lower (form.userName.getD []) ∧
    P.lower r.attrs.email ≠ P.lower (form.email.getD [])

/-- The user that the form describes, with the hash of the password and counters at zero. -/
def Describes (P : Platform) (salt : ℕ) (form : User.Form) (u : User) : Prop :=
  form.name = some u.name ∧ form.userName = some u.userName ∧ form.email = some u.email ∧
    u.passwordHash = P.hashPassword salt (form.password.getD []) ∧ ∀ k : Counter, k.get u = 0

/-- **Registration admits exactly complete, unclaimed accounts**: it adds one row for these, and
leaves users and session alone otherwise. -/
def RegistersComplete (P : Platform) (env : Env) (path : Text) (params : Params) (c : Ctx) : Prop :=
  let form := params.form P
  let c' := (handle P env ⟨.postRegistrationSubmit, path, params⟩).exec c
  (complete form = true ∧ Unclaimed P form c.world.db.users →
    ∃ u, Describes P env.salt form u ∧ c'.world.db.users = c.world.db.users.insert u) ∧
  (¬ (complete form = true ∧ Unclaimed P form c.world.db.users) →
    c'.world.db.users = c.world.db.users ∧ c'.session = c.session)

variable {P : Platform} {env : Env} {form : User.Form} {c : Ctx}

theorem filled_iff {v : Option Text} : filled v = true ↔ ∃ t, v = some t ∧ blank t = false := by
  cases v with
  | none => simp [filled]
  | some t => simp [filled]

theorem describes_of_new {now : Time} {salt : ℕ} {u : User}
    (h : User.new P salt now form = some u) : Describes P salt form u := by
  have hzero := counters_new h
  unfold User.new at h
  split at h
  next name email userName hname hemail huser =>
    cases h
    exact ⟨hname, huser, hemail, rfl, hzero⟩
  next => exact absurd h (by simp)

theorem exists_new {now : Time} {salt : ℕ} {name userName email : Text}
    (hname : form.name = some name) (huser : form.userName = some userName)
    (hemail : form.email = some email) : ∃ u, User.new P salt now form = some u := by
  unfold User.new
  simp only [hname, huser, hemail]
  exact ⟨_, rfl⟩

theorem describes_of_registered {now : Time} {salt : ℕ} {db : Db} {r : Row User}
    (h : registered P now salt form db = some r) : Describes P salt form r.attrs := by
  obtain ⟨u, hu, rfl⟩ := Option.map_eq_some_iff.1 h
  exact describes_of_new (Option.filter_eq_some_iff.1 hu).1

/-- A described user passes the validations if the values but the password are filled in and
unclaimed. -/
theorem valid_iff_of_describes (hhash : ∀ salt secret, blank (P.hashPassword salt secret) = false)
    {salt : ℕ} {u : User} (h : Describes P salt form u) (users : Table User) :
    u.valid P users none = true ↔
      filled form.name = true ∧ filled form.userName = true ∧ filled form.email = true ∧
        Unclaimed P form users := by
  obtain ⟨hname, huser, hemail, hpassword, -⟩ := h
  rw [User.valid_iff, User.complete, hpassword, hhash]
  simp only [hname, huser, hemail, filled, Unclaimed, User.Distinct, Option.any_some,
    Option.getD_some, Bool.and_eq_true, Bool.not_false, and_true, ne_eq, reduceCtorEq,
    not_false_eq_true, true_implies]
  constructor
  · rintro ⟨⟨⟨h1, h2⟩, h3⟩, h4⟩
    exact ⟨h3, h1, h2, h4⟩
  · rintro ⟨h3, h1, h2, h4⟩
    exact ⟨⟨⟨h1, h2⟩, h3⟩, h4⟩

/-- **A registration is admitted if everything but the password is filled in and unclaimed.** -/
theorem registered_isSome_iff (hhash : ∀ salt secret, blank (P.hashPassword salt secret) = false)
    (now : Time) (salt : ℕ) (form : User.Form) (db : Db) :
    (registered P now salt form db).isSome ↔
      filled form.name = true ∧ filled form.userName = true ∧ filled form.email = true ∧
        Unclaimed P form db.users := by
  rw [registered, Option.isSome_map, Option.isSome_iff_exists]
  simp only [Option.filter_eq_some_iff]
  constructor
  · rintro ⟨u, hu, hvalid⟩
    exact (valid_iff_of_describes hhash (describes_of_new hu) db.users).1 hvalid
  · rintro ⟨hname, huser, hemail, hfree⟩
    obtain ⟨name, hn, -⟩ := filled_iff.1 hname
    obtain ⟨userName, hu, -⟩ := filled_iff.1 huser
    obtain ⟨email, he, -⟩ := filled_iff.1 hemail
    obtain ⟨u, hnew⟩ : ∃ u, User.new P salt now form = some u := exists_new hn hu he
    exact ⟨u, hnew, (valid_iff_of_describes hhash (describes_of_new hnew) db.users).2
      ⟨hname, huser, hemail, hfree⟩⟩

/-- **Registration admits exactly complete, unclaimed accounts, apart from those to which only the
password is missing**, which it admits as well. -/
theorem registersComplete_iff (hhash : ∀ salt secret, blank (P.hashPassword salt secret) = false)
    (env : Env) (path : Text) (params : Params) (c : Ctx) :
    RegistersComplete P env path params c ↔
      let form := params.form P
      ¬ (filled form.name = true ∧ filled form.userName = true ∧ filled form.email = true ∧
        Unclaimed P form c.world.db.users ∧ filled form.password = false) := by
  have hadmitted := registered_isSome_iff hhash env.now env.salt (params.form P) c.world.db
  unfold RegistersComplete
  cases h : registered P env.now env.salt (params.form P) c.world.db with
  | none =>
    -- nothing happens, and something other than the password is missing
    have hrun : (handle P env ⟨.postRegistrationSubmit, path, params⟩).exec c = c :=
      postRegistrationSubmit_of_none h
    rw [h] at hadmitted
    rw [hrun]
    have hno : ¬ (filled (params.form P).name = true ∧ filled (params.form P).userName = true ∧
        filled (params.form P).email = true ∧
        Unclaimed P (params.form P) c.world.db.users) := by
      rw [← hadmitted]
      simp
    refine iff_of_true ⟨fun hc => ?_, fun _ => ⟨rfl, rfl⟩⟩ fun hp => ?_
    · simp only [complete, Bool.and_eq_true] at hc
      exact absurd ⟨hc.1.1.1.1, hc.1.1.1.2, hc.1.1.2, hc.2⟩ hno
    · exact hno ⟨hp.1, hp.2.1, hp.2.2.1, hp.2.2.2.1⟩
  | some r =>
    have hrun : (handle P env ⟨.postRegistrationSubmit, path, params⟩).exec c = _ :=
      postRegistrationSubmit_of_some h
    rw [h] at hadmitted
    rw [hrun]
    obtain ⟨hname, huser, hemail, hfree⟩ := hadmitted.1 rfl
    simp only [complete, hname, huser, hemail, hfree, Bool.true_and, and_true, true_and,
      Bool.not_eq_false]
    constructor
    · intro hright
      by_contra hpassword
      exact Table.insert_ne r.attrs (hright.2 hpassword).1
    · intro hpassword
      exact ⟨fun _ => ⟨r.attrs, describes_of_registered h, rfl⟩,
        fun hno => absurd hpassword hno⟩

theorem blank_hashPassword_ascii (salt : ℕ) (secret : Text) :
    blank (Platform.ascii.hashPassword salt secret) = false := by
  have hdollar : Ruby.isSpace '$' = false := by decide
  simp [Platform.ascii, blank, hdollar]

/-- A form without a password. -/
def noPassword : Params :=
  { name := some "Ann", email := some "ann@x.org", userName := some "ann" }

/-- Such a form is admitted, and the client is logged in. -/
theorem admitted_without_password :
    let c : Ctx := ⟨(Site.reached .ascii []).world, Session.new⟩
    let c' := (handle .ascii ⟨0, 0, false, []⟩
      ⟨.postRegistrationSubmit, "/registration/submit", noPassword⟩).exec c
    complete (noPassword.form .ascii) = false ∧
      (c'.world.db.users.rows.map fun r => r.attrs.userName) = [("ann" : Text)] ∧
      c'.session.userId = some 1 ∧
      ¬ RegistersComplete .ascii ⟨0, 0, false, []⟩ "/registration/submit" noPassword c := by
  intro c c'
  have husers : (c'.world.db.users.rows.map fun r => r.attrs.userName) = [("ann" : Text)] := by
    decide +kernel
  have hincomplete : complete (noPassword.form .ascii) = false := by decide +kernel
  refine ⟨hincomplete, husers, by decide +kernel, fun h => ?_⟩
  have hsame := (h.2 (by rw [hincomplete]; simp)).1
  rw [hsame] at husers
  exact absurd husers (by decide)

/-- With a password the form is registered as it should be. -/
theorem complete_registered :
    RegistersComplete .ascii ⟨0, 0, false, []⟩ "/registration/submit"
      { noPassword with password := some "secret" } ⟨(Site.reached .ascii []).world, Session.new⟩ :=
  (registersComplete_iff blank_hashPassword_ascii _ _ _ _).2 fun h =>
    absurd h.2.2.2.2 (by decide +kernel)

end NanoTwitter
