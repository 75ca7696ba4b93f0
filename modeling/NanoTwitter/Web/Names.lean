import Mathlib.Tactic
import NanoTwitter.Web.Orderly

/-!
# Users and their names over time

What a request does to the users: nothing but counters, or one new row if it is a registration. So
users stay, with their names, emails and hashes (`usersStay_run`), and if every registration asks
for a name with some property, then all names have it (`named_run`).
-/

namespace NanoTwitter

variable {P : Platform} {c : Ctx} {N : Text → Bool}

/-! ### Users stay -/

/-- The users of one table are in the other, with the same names, emails and password hashes. -/
def UsersStay (users users' : Table User) : Prop :=
  ∀ i r, users.find i = some r → ∃ r', users'.find i = some r' ∧ r'.attrs.ident = r.attrs.ident

theorem UsersStay.refl (users : Table User) : UsersStay users users := fun _ r hr => ⟨r, hr, rfl⟩

theorem UsersStay.trans {users users' users'' : Table User} (h : UsersStay users users')
    (h' : UsersStay users' users'') : UsersStay users users'' := by
  intro i r hr
  obtain ⟨r', hr', hident⟩ := h i r hr
  obtain ⟨r'', hr'', hident'⟩ := h' i r' hr'
  exact ⟨r'', hr'', hident'.trans hident⟩

theorem UsersStay.insert (users : Table User) (u : User) : UsersStay users (users.insert u) := by
  intro i r hr
  have hne : i ≠ users.nextId := by
    rintro rfl
    rw [Table.find_nextId] at hr
    exact absurd hr (by simp)
  exact ⟨r, by rw [Table.find_insert, if_neg hne, hr], rfl⟩

/-- The users after a request: those from before, and a new one if a registration succeeded. -/
theorem users_written_cases (env : Env) (req : Request) (h : Orderly P c.world) :
    SameIdent c.world.db.users (written P env req c).db.users ∨
      req.route = .postRegistrationSubmit ∧
        ∃ u, User.new P env.salt env.now (req.params.form P) = some u ∧
          (written P env req c).db.users = c.world.db.users.insert u := by
  by_cases hroute : req.route = .postRegistrationSubmit
  · simp only [written, hroute]
    cases hreg : registered P env.now env.salt (req.params.form P) c.world.db with
    | none =>
      rw [EStateM.exec_of_ok (register_of_none hreg)]
      exact .inl (.refl _)
    | some r =>
      rw [EStateM.exec_of_ok (register_of_some hreg)]
      obtain ⟨u, hu, rfl⟩ := Option.map_eq_some_iff.1 hreg
      exact .inr ⟨trivial, u, (Option.filter_eq_some_iff.1 hu).1, rfl⟩
  · exact .inl (sameIdent_written env h hroute)

theorem usersStay_written (env : Env) (req : Request) (h : Orderly P c.world) :
    UsersStay c.world.db.users (written P env req c).db.users := by
  rcases users_written_cases env req h with hsame | ⟨-, u, -, hinsert⟩
  · exact fun i r hr => hsame.find hr
  · rw [hinsert]
    exact .insert _ u

/-- **Users stay, whatever requests are answered.** -/
theorem usersStay_run {s : Site} (h : Orderly P s.world) (es : List Event) :
    UsersStay s.world.db.users (Run.run (serve P) s es).world.db.users := by
  refine Run.rel_run (R := fun s s' : Site => UsersStay s.world.db.users s'.world.db.users)
    (I := fun s => Orderly P s.world) (fun _ => .refl _) (fun _ _ _ => .trans)
    (fun s e h => ?_) h es
  rw [Site.world_serve]
  exact ⟨usersStay_written (c := s.ctx e.client) e.env e.req h,
    orderly_written (c := s.ctx e.client) e.env e.req h⟩

/-! ### Names with a property -/

/-- A name is not empty. -/
theorem Wf.userName_ne_nil {db : Db} (h : Wf P db) {r : Row User} (hr : r ∈ db.users.rows) :
    r.attrs.userName ≠ [] := by
  have hcomplete := (User.valid_iff.1 (h.users r hr)).1
  intro hnil
  simp [User.complete, hnil, Ruby.blank] at hcomplete

/-- All user names have the property `N`. -/
def Named (N : Text → Bool) (db : Db) : Prop := ∀ r ∈ db.users.rows, N r.attrs.userName = true

/-- The request is no registration for a name without the property. -/
def Request.asks (P : Platform) (N : Text → Bool) (req : Request) : Bool :=
  req.route ≠ .postRegistrationSubmit || (req.params.form P).userName.all N

theorem userName_of_new {env : Env} {form : User.Form} {u : User}
    (h : User.new P env.salt env.now form = some u) : form.userName = some u.userName := by
  unfold User.new at h
  split at h
  next name email userName hname hemail huser =>
    cases h
    exact huser
  next => exact absurd h (by simp)

theorem named_written (env : Env) {req : Request} (h : Orderly P c.world)
    (hN : Named N c.world.db) (hreq : req.asks P N = true) : Named N (written P env req c).db := by
  intro r hr
  have hfind := Table.find_of_mem hr
  rcases users_written_cases env req h with hsame | ⟨hroute, u, hu, hinsert⟩
  · obtain ⟨r', hr', hident⟩ := SameIdent.find hsame.symm hfind
    rw [← User.userName_of_ident hident]
    exact hN r' (Table.mem_of_find hr').1
  · rw [hinsert, Table.rows_insert, List.mem_append, List.mem_singleton] at hr
    rcases hr with hr | rfl
    · exact hN r hr
    · have hname := userName_of_new hu
      simpa [Request.asks, hroute, hname] using hreq

/-- **If every registration asks for a name with a property, all names have it.** -/
theorem named_run {s : Site} (h : Orderly P s.world) (hN : Named N s.world.db) {es : List Event}
    (hes : ∀ e ∈ es, e.req.asks P N = true) : Named N (Run.run (serve P) s es).world.db := by
  induction es generalizing s with
  | nil => exact hN
  | cons e es ih =>
    rw [List.forall_mem_cons] at hes
    have hserve : (serve P s e).world = written P e.env e.req (s.ctx e.client) :=
      Site.world_serve e
    rw [Run.run_cons]
    refine ih ?_ ?_ hes.2
    · rw [hserve]
      exact orderly_written e.env e.req (c := s.ctx e.client) h
    · rw [hserve]
      exact named_written e.env (c := s.ctx e.client) h hN hes.1

end NanoTwitter
