import Mathlib.Tactic
import NanoTwitter.Model.App

/-!
# What the validations keep true of the tables

`Wf P db` collects the facts that the validations of `models/` establish row by row: every user
passes its own validations, follows join two different existing users, and no pair is joined twice.

The validations of a user read the other rows only through `Distinct`, and nothing that a counter
method writes; so they do not notice the update of a counter (`valid_update`).
-/

namespace NanoTwitter

open Ruby (Time blank)

namespace User

/-- Neither the user names nor the emails are equal up to case. -/
def Distinct (P : Platform) (u v : User) : Prop :=
  P.lower u.userName ≠ P.lower v.userName ∧ P.lower u.email ≠ P.lower v.email

theorem Distinct.symm {P : Platform} {u v : User} (h : Distinct P u v) : Distinct P v u :=
  ⟨h.1.symm, h.2.symm⟩

/-- The columns that must be filled are. -/
def complete (u : User) : Bool :=
  !blank u.userName && !blank u.email && !blank u.passwordHash && !blank u.name

theorem taken_eq_false_iff {users : Table User} {own : Option ℕ} {f : User → Text} {v : Text} :
    taken users own f v = false ↔ ∀ r ∈ users.rows, some r.id ≠ own → f r.attrs ≠ v := by
  simp [taken]

/-- A user is valid when its columns are filled and it differs from all other rows. -/
theorem valid_iff {P : Platform} {users : Table User} {own : Option ℕ} {u : User} :
    u.valid P users own = true ↔
      u.complete = true ∧ ∀ r ∈ users.rows, some r.id ≠ own → Distinct P r.attrs u := by
  simp only [valid, complete, Bool.and_eq_true, Bool.not_eq_true', taken_eq_false_iff]
  constructor
  · rintro ⟨⟨⟨⟨⟨⟨⟨-, -⟩, h1⟩, hn⟩, h2⟩, he⟩, h3⟩, h4⟩
    exact ⟨⟨⟨⟨h1, h2⟩, h3⟩, h4⟩, fun r hr ho => ⟨hn r hr ho, he r hr ho⟩⟩
  · rintro ⟨⟨⟨⟨h1, h2⟩, h3⟩, h4⟩, h⟩
    -- equal texts are equal up to case, so the plain uniqueness checks follow
    exact ⟨⟨⟨⟨⟨⟨⟨fun r hr ho heq => (h r hr ho).1 (by rw [heq]),
      fun r hr ho heq => (h r hr ho).2 (by rw [heq])⟩, h1⟩, fun r hr ho => (h r hr ho).1⟩, h2⟩,
      fun r hr ho => (h r hr ho).2⟩, h3⟩, h4⟩

/-- The columns that the validations read. -/
def ident (u : User) : Text × Text × Text × Text := (u.name, u.userName, u.email, u.passwordHash)

@[simp] theorem ident_write (now : Time) (k : Counter) (v : ℤ) (u : User) :
    (k.write now v u).ident = u.ident := by
  cases k <;> rfl

theorem userName_of_ident {u v : User} (h : u.ident = v.ident) : u.userName = v.userName :=
  congrArg (fun i => i.2.1) h

theorem complete_congr {u v : User} (h : u.ident = v.ident) : u.complete = v.complete := by
  obtain ⟨h1, h2, h3, h4⟩ : u.name = v.name ∧ u.userName = v.userName ∧ u.email = v.email ∧
      u.passwordHash = v.passwordHash := by simpa [ident] using h
  simp only [complete, h1, h2, h3, h4]

theorem distinct_congr {P : Platform} {u u' v v' : User} (hu : u.ident = u'.ident)
    (hv : v.ident = v'.ident) : Distinct P u v ↔ Distinct P u' v' := by
  have h1 := userName_of_ident hu
  have h2 := userName_of_ident hv
  have h3 : u.email = u'.email := congrArg (fun i => i.2.2.1) hu
  have h4 : v.email = v'.email := congrArg (fun i => i.2.2.1) hv
  simp only [Distinct, h1, h2, h3, h4]

theorem valid_congr {P : Platform} {users : Table User} {own : Option ℕ} {u v : User}
    (h : u.ident = v.ident) : u.valid P users own = v.valid P users own := by
  rw [Bool.eq_iff_iff, valid_iff, valid_iff, complete_congr h]
  exact and_congr_right fun _ => forall₂_congr fun _ _ => imp_congr_right fun _ =>
    distinct_congr rfl h

/-- The validations do not notice a change of other columns, in the object or in the table. -/
theorem valid_update {P : Platform} {users : Table User} {i : ℕ} {f : User → User}
    (hf : ∀ u, (f u).ident = u.ident) {u v : User} (huv : u.ident = v.ident) (own : Option ℕ) :
    u.valid P (users.update i f) own = v.valid P users own := by
  rw [Bool.eq_iff_iff, valid_iff, valid_iff, complete_congr huv]
  refine and_congr_right fun _ => ?_
  constructor
  · intro h r hr ho
    have hmem := Table.mem_update (i := i) (f := f).2 ⟨r, hr, rfl⟩
    refine (distinct_congr ?_ huv).1 (h _ hmem ho)
    dsimp only
    split_ifs
    · exact hf r.attrs
    · rfl
  · intro h r hr ho
    obtain ⟨r', hr', rfl⟩ := Table.mem_update.1 hr
    refine (distinct_congr ?_ huv.symm).1 (h r' hr' ho)
    dsimp only
    split_ifs
    · exact (hf r'.attrs).symm
    · rfl

/-- A user that was valid before it was stored is valid under its id. -/
theorem valid_insert_self {P : Platform} {users : Table User} {u : User}
    (h : u.valid P users none = true) :
    u.valid P (users.insert u) (some users.nextId) = true := by
  obtain ⟨hc, hd⟩ := valid_iff.1 h
  refine valid_iff.2 ⟨hc, fun r hr ho => ?_⟩
  rw [Table.rows_insert, List.mem_append, List.mem_singleton] at hr
  rcases hr with hr | rfl
  · exact hd r hr (by simp)
  · exact absurd rfl ho

end User

namespace Follow

variable {db : Db}

theorem exists?_iff {a b : ℕ} :
    exists? db a b = true ↔ ∃ f ∈ db.follows.rows, f.attrs = ⟨a, b⟩ := by
  simp only [exists?, List.any_eq_true, decide_eq_true_eq]
  refine exists_congr fun f => and_congr_right fun _ => ?_
  constructor
  · rintro ⟨rfl, rfl⟩; rfl
  · intro h; rw [h]; exact ⟨rfl, rfl⟩

theorem valid_iff {a b : ℕ} :
    valid db a b = true ↔ (db.users.find a).isSome ∧ (db.users.find b).isSome ∧ a ≠ b ∧
      exists? db a b = false := by
  simp [valid, and_assoc]

end Follow

/-- The facts about the tables that the validations keep. -/
structure Wf (P : Platform) (db : Db) : Prop where
  users : ∀ r ∈ db.users.rows, r.attrs.valid P db.users (some r.id) = true
  endpoints : ∀ f ∈ db.follows.rows,
    (db.users.find f.attrs.followerId).isSome ∧ (db.users.find f.attrs.followedId).isSome
  simple : ∀ f ∈ db.follows.rows, f.attrs.followerId ≠ f.attrs.followedId
  pairs : (db.follows.rows.map Row.attrs).Nodup

namespace Wf

variable {P : Platform} {db : Db}

theorem empty (P : Platform) : Wf P World.empty.db :=
  ⟨by simp [World.empty], by simp [World.empty], by simp [World.empty], by simp [World.empty]⟩

/-- A new user that passes the validations is stored. -/
theorem insert_user (h : Wf P db) {u : User} (hu : u.valid P db.users none = true) :
    Wf P { db with users := db.users.insert u } := by
  obtain ⟨hc, hd⟩ := User.valid_iff.1 hu
  refine ⟨fun r hr => ?_, fun f hf => ?_, h.simple, h.pairs⟩
  · rw [Table.rows_insert, List.mem_append, List.mem_singleton] at hr
    rw [User.valid_iff]
    rcases hr with hr | rfl
    · obtain ⟨hrc, hrd⟩ := User.valid_iff.1 (h.users r hr)
      refine ⟨hrc, fun r' hr' ho => ?_⟩
      rw [Table.rows_insert, List.mem_append, List.mem_singleton] at hr'
      rcases hr' with hr' | rfl
      · exact hrd r' hr' ho
      · exact (hd r hr (by simp)).symm
    · exact User.valid_iff.1 (User.valid_insert_self hu)
  · exact ⟨Table.isSome_find_insert u (h.endpoints f hf).1,
      Table.isSome_find_insert u (h.endpoints f hf).2⟩

/-- A change of other columns than those the validations read. -/
theorem update_user (h : Wf P db) (i : ℕ) {f : User → User} (hf : ∀ u, (f u).ident = u.ident) :
    Wf P { db with users := db.users.update i f } := by
  refine ⟨fun r hr => ?_, fun g hg => ?_, h.simple, h.pairs⟩
  · obtain ⟨r', hr', rfl⟩ := Table.mem_update.1 hr
    have hid : (if r'.id = i then f r'.attrs else r'.attrs).ident = r'.attrs.ident := by
      split_ifs
      · exact hf r'.attrs
      · rfl
    rw [User.valid_update hf hid]
    exact h.users r' hr'
  · rw [Table.isSome_find_update, Table.isSome_find_update]
    exact h.endpoints g hg

/-- A new follow that passes the validations is stored. -/
theorem insert_follow (h : Wf P db) {a b : ℕ} (hv : Follow.valid db a b = true) :
    Wf P { db with follows := db.follows.insert ⟨a, b⟩ } := by
  obtain ⟨ha, hb, hab, hnew⟩ := Follow.valid_iff.1 hv
  refine ⟨h.users, fun f hf => ?_, fun f hf => ?_, ?_⟩
  · rw [Table.rows_insert, List.mem_append, List.mem_singleton] at hf
    rcases hf with hf | rfl
    · exact h.endpoints f hf
    · exact ⟨ha, hb⟩
  · rw [Table.rows_insert, List.mem_append, List.mem_singleton] at hf
    rcases hf with hf | rfl
    · exact h.simple f hf
    · exact hab
  · rw [Table.rows_insert, List.map_append, List.map_singleton, List.nodup_append]
    refine ⟨h.pairs, List.nodup_singleton _, fun g hg g' hg' heq => ?_⟩
    obtain ⟨f, hf, hfg⟩ := List.mem_map.1 hg
    have : Follow.exists? db a b = true :=
      Follow.exists?_iff.2 ⟨f, hf, by rw [hfg, heq, List.mem_singleton.1 hg']⟩
    rw [hnew] at this
    exact Bool.noConfusion this

/-- `Follow.create` stores the follow or refuses it. -/
theorem create_follow (h : Wf P db) (a b : ℕ) :
    Wf P { db with follows := if Follow.valid db a b then db.follows.insert ⟨a, b⟩
      else db.follows } := by
  by_cases hvalid : Follow.valid db a b = true
  · rw [if_pos hvalid]; exact h.insert_follow hvalid
  · rw [if_neg hvalid]; exact h

theorem delete_follow (h : Wf P db) (p : Row Follow → Bool) :
    Wf P { db with follows := db.follows.deleteWhere p } := by
  have hsub : ∀ f ∈ (db.follows.deleteWhere p).rows, f ∈ db.follows.rows := fun f hf =>
    (Table.mem_deleteWhere.1 hf).1
  exact ⟨h.users, fun f hf => h.endpoints f (hsub f hf), fun f hf => h.simple f (hsub f hf),
    h.pairs.sublist (List.filter_sublist.map Row.attrs)⟩

/-- Two rows are distinct users. -/
theorem distinct (h : Wf P db) {u v : Row User} (hu : u ∈ db.users.rows) (hv : v ∈ db.users.rows)
    (hne : u ≠ v) : User.Distinct P u.attrs v.attrs :=
  (User.valid_iff.1 (h.users v hv)).2 u hu fun hid =>
    hne (Table.eq_of_id_eq hu hv (Option.some.inj hid))

/-- A name belongs to one user. -/
theorem eq_of_userName (h : Wf P db) {u v : Row User} (hu : u ∈ db.users.rows)
    (hv : v ∈ db.users.rows) (huv : u.attrs.userName = v.attrs.userName) : u = v := by
  by_contra hne
  exact (h.distinct hu hv hne).1 (by rw [huv])

theorem findByUserName_iff (h : Wf P db) {n : Text} {u : Row User} :
    User.findByUserName db (some n) = some u ↔ u ∈ db.users.rows ∧ u.attrs.userName = n := by
  unfold User.findByUserName Table.findBy
  simp only [wanted_str, List.mem_singleton]
  rw [List.find?_eq_some_iff_of_unique, decide_eq_true_eq]
  intro a ha b hb han hbn
  exact h.eq_of_userName ha hb ((of_decide_eq_true han).trans (of_decide_eq_true hbn).symm)

theorem findByUserName_eq (h : Wf P db) {v : Row User} (hv : v ∈ db.users.rows) :
    User.findByUserName db (some v.attrs.userName) = some v :=
  h.findByUserName_iff.2 ⟨hv, rfl⟩

theorem set_tweets (h : Wf P db) (t : Table Tweet) : Wf P { db with tweets := t } :=
  ⟨h.users, h.endpoints, h.simple, h.pairs⟩

end Wf

end NanoTwitter
