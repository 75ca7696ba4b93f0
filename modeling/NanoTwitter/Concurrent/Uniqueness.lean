import Mathlib.Tactic
import NanoTwitter.Lib.Interleave
import NanoTwitter.Sequential.Operations

/-!
# Uniqueness under concurrent requests

`POST /registration/submit` and `POST /user/follow` as threads in which every query of a validation
and every `INSERT` is a statement of its own. Run alone they do what the routes do
(`solo_register`, `solo_followRequest`).

No index backs the validations (`db/schema.rb`), so the rows that a thread inserts conflict with
those inserted since its queries. A thread carries the id, `since`, that the next row had when its
queries began. The rows stay unique in all states of an interleaving exactly when no insert meets a
conflicting row of that age (`unique_run_iff`). `double_registration` is an interleaving in which
one does.
-/

namespace NanoTwitter

open Ruby (Time)
open Interleave

/-- The uniqueness queries of a user, in the order of `models/user.rb`. -/
inductive Check
  | userName
  | email
  | userNameFold
  | emailFold
  deriving DecidableEq

namespace Check

/-- The value that the query compares. -/
def column (P : Platform) : Check → User → Text
  | .userName => User.userName
  | .email => User.email
  | .userNameFold => fun u => P.lower u.userName
  | .emailFold => fun u => P.lower u.email

def all : List Check := [.userName, .email, .userNameFold, .emailFold]

/-- The query finds no other row with the value of `u`. -/
def passes (P : Platform) (users : Table User) (own : Option ℕ) (u : User) (c : Check) : Bool :=
  !taken users own (c.column P) (c.column P u)

end Check

/-- The control points of the two routes. In `validate` and `insert`, `again` says that this is the
second save; `own` is the id of the object if it is stored. -/
inductive UniquePc
  | create (salt : ℕ) (form : User.Form)
  | validate (u : User) (own : Option ℕ) (rest : List Check) (ok again : Bool) (since : ℕ)
  | insert (u : User) (again : Bool) (since : ℕ)
  | followLoad (userId : Option ℕ) (userName : Option Param)
  | followFollower (userId : Option ℕ) (followed : Row User)
  | followFollowed (userId : Option ℕ) (followed : Row User) (ok : Bool)
  | followExists (userId : Option ℕ) (followed : Row User) (ok : Bool)
  | followInsert (follower : ℕ) (followed : Row User) (since : ℕ)
  | followCount (userId : Option ℕ) (followed : Row User)
  | done

namespace UniquePc

/-- The statements of `POST /user/follow` after `Follow.create`. -/
def countFollow (P : Platform) (now : Time) (userId : Option ℕ) (followed : Row User) :
    Prog Unit := do
  let user ← User.find userId
  incrementFollowings P now user
  incrementFollowers P now followed

/-- The statement at a control point. -/
def step (P : Platform) (pc : UniquePc) (now : Time) (w : World) : World × UniquePc :=
  match pc with
  | .create salt form =>
      match User.new P salt now form with
      | some u => (w, .validate u none Check.all true false w.db.users.nextId)
      | none => (w, .done)
  -- every query runs, also after one that has failed
  | .validate u own (c :: cs) ok again since =>
      (w, .validate u own cs (ok && c.passes P w.db.users own u) again since)
  | .validate u none [] ok again since =>
      if ok && u.complete then (w, .insert u again since)
      else if again then (w, .done)
      -- `u.save` after a failed `User.create` tries once more
      else (w, .validate u none Check.all true true w.db.users.nextId)
  -- a stored object has nothing to write
  | .validate _ (some _) [] _ _ _ => (w, .done)
  | .insert u again _ =>
      (w.setUsers (w.db.users.insert u),
        if again then .done
        else .validate u (some w.db.users.nextId) Check.all true true (w.db.users.nextId + 1))
  | .followLoad userId userName =>
      match User.findByUserName w.db userName with
      | some followed => (w, .followFollower userId followed)
      | none => (w, .done)
  | .followFollower userId followed =>
      (w, .followFollowed userId followed (userId.bind w.db.users.find).isSome)
  | .followFollowed userId followed ok =>
      (w, .followExists userId followed (ok && (w.db.users.find followed.id).isSome))
  | .followExists userId followed ok =>
      match userId with
      | some a =>
          if ok && decide (a ≠ followed.id) && !Follow.exists? w.db a followed.id then
            (w, .followInsert a followed w.db.follows.nextId)
          else (w, .followCount userId followed)
      | none => (w, .followCount userId followed)
  | .followInsert a followed _ =>
      (w.setFollows (w.db.follows.insert ⟨a, followed.id⟩), .followCount (some a) followed)
  | .followCount userId followed => ((countFollow P now userId followed).exec w, .done)
  | .done => (w, .done)

end UniquePc

/-- A registration or a follow. -/
inductive UniqueRequest
  | register (salt : ℕ) (form : User.Form)
  | follow (userId : Option ℕ) (userName : Option Param)

/-- Where a request starts. -/
def UniqueRequest.start : UniqueRequest → UniquePc
  | .register salt form => .create salt form
  | .follow userId userName => .followLoad userId userName

/-- The requests before their first statement. -/
def startUnique (w : World) (rs : List UniqueRequest) : Config World UniquePc :=
  ⟨w, rs.map UniqueRequest.start⟩

/-! ### Requests that run alone -/

section Alone

variable {P : Platform} {now : Time}

/-- Run alone from the control point `pc`, the thread ends and leaves `w'`. -/
def Concludes (P : Platform) (now : Time) (pc : UniquePc) (w w' : World) : Prop :=
  Ends (UniquePc.step P) now (fun pc => pc = .done) pc w w'

theorem concludes_done (w : World) : Concludes P now .done w w := ⟨0, _, rfl, rfl⟩

theorem concludes_step {pc next : UniquePc} {w w₁ w' : World}
    (hstep : pc.step P now w = (w₁, next)) (h : Concludes P now next w₁ w') :
    Concludes P now pc w w' := by
  refine ends_of_step ?_
  rw [hstep]
  exact h

/-- The queries of a validation, with nothing in between. -/
theorem concludes_validate {u : User} {own : Option ℕ} {again : Bool} {since : ℕ} {w w' : World}
    (cs : List Check) (ok : Bool)
    (h : Concludes P now
      (.validate u own [] (ok && cs.all (Check.passes P w.db.users own u)) again since) w w') :
    Concludes P now (.validate u own cs ok again since) w w' := by
  induction cs generalizing ok with
  | nil => rwa [List.all_nil, Bool.and_true] at h
  | cons c cs ih =>
    refine concludes_step rfl (ih _ ?_)
    rwa [Bool.and_assoc, ← List.all_cons]

theorem valid_eq_checks (users : Table User) (own : Option ℕ) (u : User) :
    u.valid P users own = (Check.all.all (Check.passes P users own u) && u.complete) := by
  simp only [User.valid, Check.all, List.all_cons, List.all_nil, Check.passes, Check.column,
    User.complete]
  grind

/-- A first or second attempt to save a user that is not stored. -/
theorem concludes_attempt {u : User} {again : Bool} {since : ℕ} {w w' : World}
    (h : Concludes P now (if u.valid P w.db.users none then .insert u again since
      else if again then .done
      else .validate u none Check.all true true w.db.users.nextId) w w') :
    Concludes P now (.validate u none Check.all true again since) w w' := by
  refine concludes_validate _ _ (concludes_step ?_ h)
  simp only [UniquePc.step, Bool.true_and, ← valid_eq_checks]
  split_ifs <;> rfl

/-- **Run alone, the thread of a registration does what the route does.** -/
theorem solo_register (salt : ℕ) (form : User.Form) (w : World) :
    Concludes P now (UniqueRequest.register salt form).start w
      ((register P now salt form).exec w) := by
  cases hu : User.new P salt now form with
  | none =>
    rw [EStateM.exec_of_ok (register_of_invalid fun u h => absurd (hu.symm.trans h) (by simp))]
    exact concludes_step (by simp only [UniqueRequest.start, UniquePc.step, hu]) (concludes_done w)
  | some u =>
    refine concludes_step (by simp only [UniqueRequest.start, UniquePc.step, hu]; rfl)
      (concludes_attempt ?_)
    by_cases hv : u.valid P w.db.users none = true
    · rw [if_pos hv, EStateM.exec_of_ok (register_of_valid hu hv)]
      refine concludes_step rfl (concludes_validate _ _ ?_)
      exact concludes_step rfl (concludes_done _)
    · have hrefused : (register P now salt form).exec w = w := by
        refine EStateM.exec_of_ok (register_of_invalid fun u' hu' => ?_)
        obtain rfl := Option.some.inj (hu.symm.trans hu')
        exact hv
      rw [if_neg hv, if_neg Bool.false_ne_true, hrefused]
      refine concludes_attempt ?_
      rw [if_neg hv, if_pos rfl]
      exact concludes_done w

/-- **Run alone, the thread of a follow does what the route does.** -/
theorem solo_followRequest (userId : Option ℕ) (userName : Option Param) (w : World) :
    Concludes P now (UniqueRequest.follow userId userName).start w
      ((follow P now userId userName).exec w) := by
  unfold follow
  rw [EStateM.exec_bind_of_ok EStateM.get_ok]
  cases hv : User.findByUserName w.db userName with
  | none =>
    rw [EStateM.exec_of_error (EStateM.bind_of_error (orRaise_error _ rfl))]
    exact concludes_step (by simp only [UniqueRequest.start, UniquePc.step, hv]) (concludes_done w)
  | some v =>
    rw [EStateM.exec_bind_of_ok (orRaise_ok _ rfl)]
    refine concludes_step (by simp only [UniqueRequest.start, UniquePc.step, hv]; rfl) ?_
    refine concludes_step rfl (concludes_step rfl ?_)
    cases userId with
    | none =>
      rw [EStateM.exec_bind_of_ok (show Follow.create none v.id w = .ok () w from rfl)]
      exact concludes_step rfl (concludes_step rfl (concludes_done _))
    | some a =>
      rw [EStateM.exec_bind_of_ok (create_eq a v.id)]
      by_cases hvalid : Follow.valid w.db a v.id = true
      · rw [if_pos hvalid]
        exact concludes_step (if_pos hvalid)
          (concludes_step rfl (concludes_step rfl (concludes_done _)))
      · rw [if_neg hvalid]
        exact concludes_step (if_neg hvalid) (concludes_step rfl (concludes_done _))

end Alone

/-! ### Rows and their age -/

/-- No two users agree on user name or email up to case, and no pair is followed twice. -/
structure UniqueRows (P : Platform) (db : Db) : Prop where
  users : ∀ r ∈ db.users.rows, ∀ r' ∈ db.users.rows, r.id ≠ r'.id →
    User.Distinct P r.attrs r'.attrs
  follows : (db.follows.rows.map Row.attrs).Nodup

/-- No row inserted since the queries of the thread conflicts with the row it inserts. -/
def UniquePc.NoOverlap (P : Platform) (pc : UniquePc) (db : Db) : Prop :=
  match pc with
  | .insert u _ since => ∀ r ∈ db.users.rows, since ≤ r.id → User.Distinct P r.attrs u
  | .followInsert a v since => ∀ f ∈ db.follows.rows, since ≤ f.id → f.attrs ≠ ⟨a, v.id⟩
  | _ => True

/-- The statement that is taken next is no insert with an overlap. -/
def NoOverlap (P : Platform) (c : Config World UniquePc) (e : ℕ × Time) : Prop :=
  ∀ pc ∈ c.threads[e.1]?, pc.NoOverlap P c.shared.db

instance (P : Platform) (u v : User) : Decidable (User.Distinct P u v) :=
  inferInstanceAs (Decidable (_ ∧ _))

instance (P : Platform) (pc : UniquePc) (db : Db) : Decidable (pc.NoOverlap P db) :=
  match pc with
  | .insert u _ since =>
      inferInstanceAs (Decidable (∀ r ∈ db.users.rows, since ≤ r.id → User.Distinct P r.attrs u))
  | .followInsert a v since =>
      inferInstanceAs (Decidable (∀ f ∈ db.follows.rows, since ≤ f.id → f.attrs ≠ ⟨a, v.id⟩))
  | .create _ _ | .validate _ _ _ _ _ _ | .followLoad _ _ | .followFollower _ _
  | .followFollowed _ _ _ | .followExists _ _ _ | .followCount _ _ | .done => .isTrue trivial

instance (P : Platform) (c : Config World UniquePc) (e : ℕ × Time) : Decidable (NoOverlap P c e) :=
  inferInstanceAs (Decidable (∀ pc ∈ c.threads[e.1]?, pc.NoOverlap P c.shared.db))

/-- What the queries of a thread have established about the older rows. -/
def UniquePc.Checked (P : Platform) (pc : UniquePc) (db : Db) : Prop :=
  match pc with
  | .validate u none rest ok _ since => since ≤ db.users.nextId ∧ (ok = true →
      ∀ c ∈ Check.all, c ∉ rest → ∀ r ∈ db.users.rows, r.id < since →
        c.column P r.attrs ≠ c.column P u)
  | .insert u _ since => since ≤ db.users.nextId ∧
      ∀ r ∈ db.users.rows, r.id < since → User.Distinct P r.attrs u
  | .followInsert a v since => since ≤ db.follows.nextId ∧
      ∀ f ∈ db.follows.rows, f.id < since → f.attrs ≠ ⟨a, v.id⟩
  | _ => True

/-- Old rows keep the columns that the validations read, new rows have new ids. -/
structure Grows (db db' : Db) : Prop where
  nextUser : db.users.nextId ≤ db'.users.nextId
  nextFollow : db.follows.nextId ≤ db'.follows.nextId
  users : ∀ r' ∈ db'.users.rows, r'.id < db.users.nextId →
    ∃ r ∈ db.users.rows, r.id = r'.id ∧ r.attrs.ident = r'.attrs.ident
  follows : ∀ f ∈ db'.follows.rows, f.id < db.follows.nextId → f ∈ db.follows.rows

section Step

variable {P : Platform} {now : Time} {w : World}

theorem Check.column_congr (c : Check) {u v : User} (h : u.ident = v.ident) :
    c.column P u = c.column P v := by
  have hname := User.userName_of_ident h
  have hemail : u.email = v.email := congrArg (fun i => i.2.2.1) h
  cases c <;> simp [Check.column, hname, hemail]

theorem distinct_iff_columns {u v : User} :
    User.Distinct P u v ↔ ∀ c ∈ Check.all, c.column P u ≠ c.column P v := by
  constructor
  · rintro ⟨hname, hemail⟩ c _
    cases c with
    | userName => exact fun h => hname (congrArg P.lower h)
    | email => exact fun h => hemail (congrArg P.lower h)
    | userNameFold => exact hname
    | emailFold => exact hemail
  · intro h
    exact ⟨h .userNameFold (by simp [Check.all]), h .emailFold (by simp [Check.all])⟩

theorem grows_insert_user (db : Db) (u : User) :
    Grows db { db with users := db.users.insert u } := by
  refine ⟨Nat.le_succ _, le_refl _, fun r hr hlt => ?_, fun _ hf _ => hf⟩
  rw [Table.rows_insert, List.mem_append, List.mem_singleton] at hr
  rcases hr with hr | rfl
  · exact ⟨r, hr, rfl, rfl⟩
  · exact absurd hlt (lt_irrefl _)

theorem grows_insert_follow (db : Db) (f : Follow) :
    Grows db { db with follows := db.follows.insert f } := by
  refine ⟨le_refl _, Nat.le_succ _, fun r hr _ => ⟨r, hr, rfl, rfl⟩, fun g hg hlt => ?_⟩
  rw [Table.rows_insert, List.mem_append, List.mem_singleton] at hg
  rcases hg with hg | rfl
  · exact hg
  · exact absurd hlt (lt_irrefl _)

/-- What the queries have established of old rows stays true. -/
theorem UniquePc.Checked.grows {pc : UniquePc} {db db' : Db} (h : pc.Checked P db)
    (hg : Grows db db') : pc.Checked P db' := by
  unfold UniquePc.Checked at h ⊢
  split at h
  · refine ⟨h.1.trans hg.nextUser, fun hok c hc hrest r hr hlt => ?_⟩
    obtain ⟨r₀, hr₀, hid, hident⟩ := hg.users r hr (hlt.trans_le h.1)
    rw [← c.column_congr hident]
    exact h.2 hok c hc hrest r₀ hr₀ (hid ▸ hlt)
  · refine ⟨h.1.trans hg.nextUser, fun r hr hlt => ?_⟩
    obtain ⟨r₀, hr₀, hid, hident⟩ := hg.users r hr (hlt.trans_le h.1)
    exact (User.distinct_congr hident rfl).1 (h.2 r₀ hr₀ (hid ▸ hlt))
  · exact ⟨h.1.trans hg.nextFollow, fun f hf hlt => h.2 f (hg.follows f hf (hlt.trans_le h.1)) hlt⟩
  · trivial

/-- No row comes or goes, and the columns that the validations read stay. -/
structure Quiet (db db' : Db) : Prop where
  nextUser : db'.users.nextId = db.users.nextId
  users : ∀ r' ∈ db'.users.rows, ∃ r ∈ db.users.rows,
    r.id = r'.id ∧ r.attrs.ident = r'.attrs.ident
  follows : db'.follows = db.follows

theorem Quiet.refl (db : Db) : Quiet db db := ⟨rfl, fun r hr => ⟨r, hr, rfl, rfl⟩, rfl⟩

theorem Quiet.trans {db₁ db₂ db₃ : Db} (h : Quiet db₁ db₂) (h' : Quiet db₂ db₃) :
    Quiet db₁ db₃ := by
  refine ⟨h'.nextUser.trans h.nextUser, fun r₃ hr₃ => ?_, h'.follows.trans h.follows⟩
  obtain ⟨r₂, hr₂, hid, hident⟩ := h'.users r₃ hr₃
  obtain ⟨r₁, hr₁, hid', hident'⟩ := h.users r₂ hr₂
  exact ⟨r₁, hr₁, hid'.trans hid, hident'.trans hident⟩

theorem Quiet.grows {db db' : Db} (h : Quiet db db') : Grows db db' :=
  ⟨h.nextUser.ge, by rw [h.follows], fun r hr _ => h.users r hr,
    fun f hf _ => by rwa [h.follows] at hf⟩

theorem UniqueRows.quiet {db db' : Db} (hu : UniqueRows P db) (h : Quiet db db') :
    UniqueRows P db' := by
  refine ⟨fun r hr r' hr' hne => ?_, by rw [h.follows]; exact hu.follows⟩
  obtain ⟨r₀, hr₀, hid, hident⟩ := h.users r hr
  obtain ⟨r₁, hr₁, hid', hident'⟩ := h.users r' hr'
  exact (User.distinct_congr hident hident').1
    (hu.users r₀ hr₀ r₁ hr₁ (by rw [hid, hid']; exact hne))

theorem quiet_save (now : Time) (k : Counter) (u : Row User) (v : ℤ) (w : World) :
    Quiet w.db ((k.save P now u v).exec w).db := by
  rw [exec_save]
  split_ifs
  · refine ⟨rfl, fun r hr => ?_, rfl⟩
    obtain ⟨r₀, hr₀, rfl⟩ := Table.mem_update.1 hr
    refine ⟨r₀, hr₀, rfl, ?_⟩
    dsimp only
    split_ifs
    · rw [User.ident_write]
    · rfl
  · exact Quiet.refl w.db

theorem quiet_countFollow (now : Time) (userId : Option ℕ) (v : Row User) (w : World) :
    Quiet w.db ((UniquePc.countFollow P now userId v).exec w).db := by
  unfold UniquePc.countFollow
  cases hu : userId.bind w.db.users.find with
  | none =>
    rw [EStateM.exec_of_error (EStateM.bind_of_error (find_error hu))]
    exact Quiet.refl w.db
  | some u =>
    rw [EStateM.exec_bind_of_ok (find_ok hu)]
    have hsave := save_ok (P := P) now .followings u (Counter.followings.get u.attrs + 1) w
    rw [show (incrementFollowings P now u >>= fun _ => incrementFollowers P now v).exec w = _ from
      EStateM.exec_bind_of_ok hsave]
    exact (quiet_save now _ _ _ w).trans (quiet_save now _ _ _ _)

/-- A statement inserts a user, inserts a follow or is quiet. -/
theorem unique_step_cases (P : Platform) (now : Time) (w : World) (pc : UniquePc) :
    (∃ u again since, pc = .insert u again since ∧
        (pc.step P now w).1 = w.setUsers (w.db.users.insert u)) ∨
      (∃ a v since, pc = .followInsert a v since ∧
        (pc.step P now w).1 = w.setFollows (w.db.follows.insert ⟨a, v.id⟩)) ∨
      (pc.NoOverlap P w.db ∧ Quiet w.db (pc.step P now w).1.db) := by
  have hquiet : pc.NoOverlap P w.db → (pc.step P now w).1 = w →
      (pc.NoOverlap P w.db ∧ Quiet w.db (pc.step P now w).1.db) := by
    intro h heq
    rw [heq]
    exact ⟨h, Quiet.refl w.db⟩
  cases pc with
  | create salt form =>
    refine .inr (.inr (hquiet trivial ?_))
    cases hu : User.new P salt now form <;> simp only [UniquePc.step, hu]
  | validate u own rest ok again since =>
    refine .inr (.inr (hquiet trivial ?_))
    cases rest with
    | cons c cs => rfl
    | nil =>
      cases own with
      | some i => rfl
      | none => simp only [UniquePc.step]; split_ifs <;> rfl
  | insert u again since => exact .inl ⟨u, again, since, rfl, rfl⟩
  | followLoad userId userName =>
    refine .inr (.inr (hquiet trivial ?_))
    cases hv : User.findByUserName w.db userName <;> simp only [UniquePc.step, hv]
  | followFollower userId v => exact .inr (.inr (hquiet trivial rfl))
  | followFollowed userId v ok => exact .inr (.inr (hquiet trivial rfl))
  | followExists userId v ok =>
    refine .inr (.inr (hquiet trivial ?_))
    cases userId with
    | none => rfl
    | some a => simp only [UniquePc.step]; split_ifs <;> rfl
  | followInsert a v since => exact .inr (.inl ⟨a, v, since, rfl, rfl⟩)
  | followCount userId v => exact .inr (.inr ⟨trivial, quiet_countFollow now userId v w⟩)
  | done => exact .inr (.inr (hquiet trivial rfl))

theorem grows_step (P : Platform) (now : Time) (w : World) (pc : UniquePc) :
    Grows w.db (pc.step P now w).1.db := by
  rcases unique_step_cases P now w pc with ⟨u, again, since, -, h⟩ | ⟨a, v, since, -, h⟩ | ⟨-, h⟩
  · rw [h]; exact grows_insert_user w.db u
  · rw [h]; exact grows_insert_follow w.db _
  · exact h.grows

theorem checked_fresh (u : User) (again : Bool) (db : Db) :
    (UniquePc.validate u none Check.all true again db.users.nextId).Checked P db :=
  ⟨le_refl _, fun _ _ hc hrest => absurd hc hrest⟩

/-- What a thread's queries establish. -/
theorem checked_step (now : Time) {pc : UniquePc} (h : pc.Checked P w.db) :
    (pc.step P now w).2.Checked P (pc.step P now w).1.db := by
  refine UniquePc.Checked.grows ?_ (grows_step P now w pc)
  cases pc with
  | create salt form =>
    cases hu : User.new P salt now form with
    | none => simp only [UniquePc.step, hu]; trivial
    | some u => simp only [UniquePc.step, hu]; exact checked_fresh u false w.db
  | validate u own rest ok again since =>
    cases own with
    | some i => cases rest <;> trivial
    | none =>
      cases rest with
      | cons c cs =>
        -- the query has just read all rows, the older ones among them
        refine ⟨h.1, fun hok c' hc' hrest r hr hlt => ?_⟩
        rw [Bool.and_eq_true] at hok
        by_cases heq : c' = c
        · have hpass := hok.2
          rw [Check.passes, Bool.not_eq_true', User.taken_eq_false_iff] at hpass
          rw [heq]
          exact hpass r hr (by simp)
        · exact h.2 hok.1 c' hc' (by simp [heq, hrest]) r hr hlt
      | nil =>
        simp only [UniquePc.step]
        split_ifs with hok
        · rw [Bool.and_eq_true] at hok
          exact ⟨h.1, fun r hr hlt => distinct_iff_columns.2 fun c hc =>
            h.2 hok.1 c hc (by simp) r hr hlt⟩
        · trivial
        · exact checked_fresh u true w.db
  | insert u again since => cases again <;> trivial
  | followLoad userId userName =>
    cases hv : User.findByUserName w.db userName <;> simp only [UniquePc.step, hv] <;> trivial
  | followFollower userId v => trivial
  | followFollowed userId v ok => trivial
  | followExists userId v ok =>
    cases userId with
    | none => trivial
    | some a =>
      simp only [UniquePc.step]
      split_ifs with hok
      · simp only [Bool.and_eq_true, Bool.not_eq_true'] at hok
        refine ⟨le_refl _, fun f hf _ heq => ?_⟩
        have hex := Follow.exists?_iff.2 ⟨f, hf, heq⟩
        rw [hok.2] at hex
        exact Bool.noConfusion hex
      · trivial
  | followInsert a v since => trivial
  | followCount userId v => trivial
  | done => trivial

theorem uniqueRows_insert_user_iff {db : Db} (h : UniqueRows P db) (u : User) :
    UniqueRows P { db with users := db.users.insert u } ↔
      ∀ r ∈ db.users.rows, User.Distinct P r.attrs u := by
  constructor
  · intro h' r hr
    refine h'.users r (List.mem_append_left _ hr) ⟨db.users.nextId, u⟩ (by simp) ?_
    exact (db.users.ids_lt r hr).ne
  · intro hu
    refine ⟨fun r hr r' hr' hne => ?_, h.follows⟩
    rw [Table.rows_insert, List.mem_append, List.mem_singleton] at hr hr'
    rcases hr with hr | rfl <;> rcases hr' with hr' | rfl
    · exact h.users r hr r' hr' hne
    · exact hu r hr
    · exact (hu r' hr').symm
    · exact absurd rfl hne

theorem uniqueRows_insert_follow_iff {db : Db} (h : UniqueRows P db) (e : Follow) :
    UniqueRows P { db with follows := db.follows.insert e } ↔
      ∀ f ∈ db.follows.rows, f.attrs ≠ e := by
  have hmap : ((db.follows.insert e).rows.map Row.attrs) =
      db.follows.rows.map Row.attrs ++ [e] := by simp
  constructor
  · intro h' f hf heq
    have hnodup := h'.follows
    rw [hmap, List.nodup_append] at hnodup
    exact hnodup.2.2 _ (List.mem_map_of_mem hf) e (List.mem_singleton.2 rfl) heq
  · intro he
    refine ⟨h.users, ?_⟩
    rw [hmap, List.nodup_append]
    refine ⟨h.follows, List.nodup_singleton _, fun g hg g' hg' heq => ?_⟩
    obtain ⟨f, hf, rfl⟩ := List.mem_map.1 hg
    exact he f hf (heq.trans (List.mem_singleton.1 hg'))

/-- One statement keeps the rows unique exactly when it is no insert with an overlap. -/
theorem uniqueRows_step_iff (now : Time) (h : UniqueRows P w.db) {pc : UniquePc}
    (hc : pc.Checked P w.db) :
    UniqueRows P (pc.step P now w).1.db ↔ pc.NoOverlap P w.db := by
  rcases unique_step_cases P now w pc with
    ⟨u, again, since, rfl, hstep⟩ | ⟨a, v, since, rfl, hstep⟩ | ⟨hno, hquiet⟩
  · rw [hstep, show UniqueRows P (w.setUsers (w.db.users.insert u)).db ↔ _ from
      uniqueRows_insert_user_iff h u]
    refine ⟨fun hall r hr _ => hall r hr, fun hno r hr => ?_⟩
    rcases lt_or_ge r.id since with hlt | hge
    · exact hc.2 r hr hlt
    · exact hno r hr hge
  · rw [hstep, show UniqueRows P (w.setFollows (w.db.follows.insert ⟨a, v.id⟩)).db ↔ _ from
      uniqueRows_insert_follow_iff h _]
    refine ⟨fun hall f hf _ => hall f hf, fun hno f hf => ?_⟩
    rcases lt_or_ge f.id since with hlt | hge
    · exact hc.2 f hf hlt
    · exact hno f hf hge
  · exact iff_of_true (h.quiet hquiet) hno

end Step

/-! ### Interleavings -/

/-- Every thread knows what its queries have established. -/
def AllChecked (P : Platform) (c : Config World UniquePc) : Prop :=
  ∀ pc ∈ c.threads, pc.Checked P c.shared.db

theorem allChecked_fire {P : Platform} {c : Config World UniquePc} (h : AllChecked P c)
    (e : ℕ × Time) : AllChecked P (fire (UniquePc.step P) c e) := by
  cases hl : c.threads[e.1]? with
  | none => rw [fire_of_none hl]; exact h
  | some pc =>
    rw [fire_of_some hl]
    intro pc' hpc'
    rcases List.mem_or_eq_of_mem_set hpc' with hold | rfl
    · exact (h pc' hold).grows (grows_step P e.2 c.shared pc)
    · exact checked_step e.2 (h pc (List.mem_of_getElem? hl))

/-- **Uniqueness under any interleaving.** From unique rows, the rows are unique in every state of a
run of registrations and follows exactly when no insert of the run overlaps with a conflicting one.
-/
theorem unique_run_iff {P : Platform} {w : World} (hw : UniqueRows P w.db)
    (rs : List UniqueRequest) (es : List (ℕ × Time)) :
    Run.Always (fire (UniquePc.step P)) (fun c => UniqueRows P c.shared.db)
        (startUnique w rs) es ↔
      Run.EachStep (fire (UniquePc.step P)) (NoOverlap P) (startUnique w rs) es := by
  have hstart : AllChecked P (startUnique w rs) := by
    intro pc hpc
    obtain ⟨r, -, rfl⟩ := List.mem_map.1 hpc
    cases r <;> trivial
  refine Run.always_iff_eachStep (I := AllChecked P)
    (G := fun c : Config World UniquePc => UniqueRows P c.shared.db)
    (fun c e hc _ _ => allChecked_fire hc e) (fun c e hc hu => ?_) hstart hw es
  exact fire_iff (G := fun c : Config World UniquePc => UniqueRows P c.shared.db) hu fun pc hl =>
    uniqueRows_step_iff e.2 hu (hc pc (List.mem_of_getElem? hl))

/-- Two registrations that overlap, under different names. -/
theorem unique_run_two :
    UniqueRows .ascii World.empty.db ∧
      Run.Always (fire (UniquePc.step .ascii)) (fun c => UniqueRows .ascii c.shared.db)
        (startUnique World.empty [.register 0 (.of "ann" "ann@x.org"),
          .register 1 (.of "bob" "bob@x.org")])
        (List.replicate 6 (0, 0) ++ List.replicate 7 (1, 1) ++ [(0, 2)]) := by
  have hempty : UniqueRows .ascii World.empty.db := ⟨by simp [World.empty], by simp [World.empty]⟩
  exact ⟨hempty, (unique_run_iff hempty _ _).2 (by decide +kernel)⟩

/-- One form is sent twice; the queries of both requests come before the inserts. -/
def twoForms : Config World UniquePc :=
  Run.run (fire (UniquePc.step .ascii))
    (startUnique World.empty
      [.register 0 (.of "ann" "ann@x.org"), .register 1 (.of "ann" "ann@x.org")])
    (List.replicate 6 (0, 0) ++ List.replicate 6 (1, 1) ++ [(0, 2), (1, 3)])

/-- Two users of one name. -/
theorem double_registration :
    (twoForms.shared.db.users.rows.map fun r => (r.id, r.attrs.userName)) =
        [(1, ("ann" : Text)), (2, ("ann" : Text))] ∧
      ¬ UniqueRows .ascii twoForms.shared.db := by
  refine ⟨by decide +kernel, fun h => ?_⟩
  have hnot : ¬ ∀ r ∈ twoForms.shared.db.users.rows, ∀ r' ∈ twoForms.shared.db.users.rows,
      r.id ≠ r'.id → User.Distinct .ascii r.attrs r'.attrs := by
    decide +kernel
  exact hnot h.users

end NanoTwitter
