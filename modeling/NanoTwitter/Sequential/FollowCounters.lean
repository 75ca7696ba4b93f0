import Mathlib.Tactic
import NanoTwitter.Sequential.Operations

/-!
# Follower counters and the follow graph

`Synced db`: the two counters of every user agree with the rows of `follows`. The routes move the
counters whether or not they have stored or deleted a row, so a run of operations keeps the
agreement exactly when no follow repeats a row or joins a user to itself, and no unfollow lowers a
counter without a row (`synced_run_iff`). `double_follow_drifts` is a shortest run that loses it.
-/

namespace NanoTwitter

open Ruby (Time)

/-- The number of rows with the user `i` on one of their sides. -/
def rowsAt (side : Follow → ℕ) (follows : Table Follow) (i : ℕ) : ℕ :=
  follows.rows.countP fun f => side f.attrs = i

/-- The counters of every user agree with the rows that follow it and with which it follows. -/
def Synced (db : Db) : Prop :=
  ∀ r ∈ db.users.rows, r.attrs.followerCount = rowsAt Follow.followedId db.follows r.id ∧
    r.attrs.followingCount = rowsAt Follow.followerId db.follows r.id

/-- The steps that keep the counters in agreement: a follow of another user that is not followed
yet, an unfollow of a followed user or between counters at zero, and everything else. -/
def KeepsSync (w : World) : Op → Prop
  | .follow _ i n => ∀ u v, i.bind w.db.users.find = some u → User.findByUserName w.db n = some v →
      u.id ≠ v.id ∧ Follow.exists? w.db u.id v.id = false
  | .unfollow _ i n => ∀ u v, i.bind w.db.users.find = some u →
      User.findByUserName w.db n = some v →
      Follow.exists? w.db u.id v.id = true ∨
        (u.attrs.followingCount = 0 ∧ v.attrs.followerCount = 0)
  | _ => True

theorem synced_iff_count {db : Db} : Synced db ↔ ∀ i, (db.users.find i).isSome →
    count .followers db.users i = rowsAt Follow.followedId db.follows i ∧
      count .followings db.users i = rowsAt Follow.followerId db.follows i := by
  constructor
  · intro h i hi
    obtain ⟨r, hr⟩ := Option.isSome_iff_exists.1 hi
    obtain ⟨hmem, rfl⟩ := Table.mem_of_find hr
    rw [count_of_find hr, count_of_find hr]
    exact h r hmem
  · intro h r hr
    have hf := Table.find_of_mem hr
    have := h r.id (by rw [hf]; rfl)
    rwa [count_of_find hf, count_of_find hf] at this

/-! ### Rows come and go -/

section Rows

variable {P : Platform} {db : Db} (side : Follow → ℕ)

theorem rowsAt_insert (follows : Table Follow) (e : Follow) (i : ℕ) :
    rowsAt side (follows.insert e) i = rowsAt side follows i + if i = side e then 1 else 0 := by
  simp [rowsAt, List.countP_append, eq_comm]

/-- There is at most one row for a pair. -/
theorem count_pair (h : (db.follows.rows.map Row.attrs).Nodup) (a b : ℕ) :
    (db.follows.rows.map Row.attrs).count ⟨a, b⟩ = if Follow.exists? db a b then 1 else 0 := by
  by_cases hex : Follow.exists? db a b = true
  · obtain ⟨f, hf, hfa⟩ := Follow.exists?_iff.1 hex
    rw [if_pos hex]
    exact List.count_eq_one_of_mem h (hfa ▸ List.mem_map_of_mem hf)
  · rw [if_neg hex, List.count_eq_zero]
    intro hmem
    obtain ⟨f, hf, hfa⟩ := List.mem_map.1 hmem
    exact hex (Follow.exists?_iff.2 ⟨f, hf, hfa⟩)

/-- Counting before a filter is counting after it, and counting what it drops. -/
theorem countP_eq_filter_add {α : Type} (p q : α → Bool) (l : List α) :
    l.countP p = (l.filter fun a => !q a).countP p + l.countP fun a => p a && q a := by
  induction l with
  | nil => rfl
  | cons a l ih =>
    by_cases hq : q a = true <;> by_cases hp : p a = true <;> simp [hq, hp] <;> omega

/-- What the deletion of a pair takes from the rows at `i`. -/
theorem rowsAt_delete (h : Wf P db) (a b i : ℕ) :
    rowsAt side db.follows i =
      rowsAt side (db.follows.deleteWhere fun f =>
        f.attrs.followerId = a ∧ f.attrs.followedId = b) i +
      if i = side ⟨a, b⟩ ∧ Follow.exists? db a b then 1 else 0 := by
  have hpair : ∀ f : Row Follow,
      (f.attrs.followerId = a ∧ f.attrs.followedId = b) ↔ f.attrs = ⟨a, b⟩ := by
    rintro ⟨id, ⟨x, y⟩⟩
    simp
  rw [rowsAt, countP_eq_filter_add _
    (fun f => decide (f.attrs.followerId = a ∧ f.attrs.followedId = b))]
  refine congrArg₂ (· + ·) rfl ?_
  by_cases hi : i = side ⟨a, b⟩
  · have hcount : db.follows.rows.countP (fun f => decide (side f.attrs = i) &&
        decide (f.attrs.followerId = a ∧ f.attrs.followedId = b)) =
        (db.follows.rows.map Row.attrs).count ⟨a, b⟩ := by
      rw [List.count, List.countP_map]
      refine List.countP_congr fun f _ => ?_
      simp only [decide_eq_true_eq, Bool.and_eq_true, hpair, Function.comp_apply, beq_iff_eq]
      exact ⟨fun hf => hf.2, fun hf => ⟨by rw [hf, hi], hf⟩⟩
    rw [hcount, count_pair h.pairs]
    simp [hi]
  · rw [if_neg fun hc => hi hc.1, List.countP_eq_zero]
    intro f _ hf
    simp only [decide_eq_true_eq, Bool.and_eq_true, hpair] at hf
    exact hi (by rw [← hf.1, hf.2])

/-- No row mentions a user that does not exist yet. -/
theorem rowsAt_nextId {side : Follow → ℕ}
    (h : ∀ f ∈ db.follows.rows, (db.users.find (side f.attrs)).isSome) :
    rowsAt side db.follows db.users.nextId = 0 := by
  rw [rowsAt, List.countP_eq_zero]
  intro f hf hi
  have hsome := h f hf
  rw [of_decide_eq_true hi, Table.find_nextId] at hsome
  exact Bool.noConfusion hsome

end Rows

/-! ### One operation -/

section Step

variable {P : Platform} {db : Db}

theorem synced_insert_user (h : Wf P db) (hs : Synced db) {salt : ℕ} {now : Time}
    {form : User.Form} {u : User} (hu : User.new P salt now form = some u) :
    Synced { db with users := db.users.insert u } := by
  have hfollowers : u.followerCount = 0 := counters_new hu .followers
  have hfollowings : u.followingCount = 0 := counters_new hu .followings
  intro r hr
  rw [Table.rows_insert, List.mem_append, List.mem_singleton] at hr
  rcases hr with hr | rfl
  · exact hs r hr
  · dsimp only
    rw [rowsAt_nextId fun f hf => (h.endpoints f hf).1, hfollowers, hfollowings,
      rowsAt_nextId fun f hf => (h.endpoints f hf).2]
    exact ⟨rfl, rfl⟩

/-- A follow by `u` of `v` keeps the agreement exactly when it stores a row. -/
theorem synced_follow_iff (hs : Synced db) {u v : Row User}
    (hv : db.users.find v.id = some v) (now : Time) :
    Synced { db with
        users := bump now .followers 1 v.id (bump now .followings 1 u.id db.users)
        follows := if Follow.valid db u.id v.id then db.follows.insert ⟨u.id, v.id⟩
          else db.follows } ↔ Follow.valid db u.id v.id = true := by
  have hcount : ∀ i, (db.users.find i).isSome → ∀ k, count k
      (bump now .followers 1 v.id (bump now .followings 1 u.id db.users)) i =
        count k db.users i + (if k = .followings ∧ i = u.id then 1 else 0) +
          if k = .followers ∧ i = v.id then 1 else 0 := by
    intro i hi k
    rw [count_bump (by simpa using hi), count_bump hi]
  rw [synced_iff_count] at hs ⊢
  constructor
  · -- without a row, the followers of `v` are one too many
    intro h
    by_contra hvalid
    have hi : (db.users.find v.id).isSome := by rw [hv]; rfl
    have hafter := (h v.id (by simpa using hi)).1
    simp only [hcount v.id hi, if_neg hvalid, (hs v.id hi).1] at hafter
    simp at hafter
  · intro hvalid i hi
    have hi' : (db.users.find i).isSome := by simpa using hi
    simp only [if_pos hvalid, hcount i hi', rowsAt_insert, (hs i hi').1, (hs i hi').2]
    simp

/-- A counter that agrees with `n` rows is lowered while the rows go down to `m`. -/
theorem lower_agrees_iff {c : ℤ} {n m : ℕ} {deleted : Bool} (hc : c = n)
    (hn : n = m + if deleted then 1 else 0) :
    c - (if c > 0 then 1 else 0) = m ↔ deleted = true ∨ c = 0 := by
  cases deleted
  · simp only [Bool.false_eq_true, if_false, false_or] at hn ⊢
    split_ifs <;> omega
  · simp only [if_true, true_or, iff_true] at hn ⊢
    split_ifs <;> omega

/-- One side of an unfollow: counters `c` that agree with `n` rows are lowered for one user `x`,
and the rows of the same user go down. -/
theorem lowered_agree_iff {known : ℕ → Prop} {c c' : ℕ → ℤ} {n m : ℕ → ℕ} {x : ℕ} {deleted : Bool}
    (hx : known x) (hc : ∀ i, known i → c i = n i)
    (hn : ∀ i, n i = m i + if i = x ∧ deleted then 1 else 0)
    (hc' : ∀ i, known i → c' i = c i - if i = x ∧ c x > 0 then 1 else 0) :
    (∀ i, known i → c' i = m i) ↔ deleted = true ∨ c x = 0 := by
  have hat : c' x = m x ↔ deleted = true ∨ c x = 0 := by
    rw [hc' x hx]
    simpa only [true_and] using lower_agrees_iff (hc x hx) (by simpa using hn x)
  constructor
  · exact fun h => hat.1 (h x hx)
  · intro h i hi
    by_cases hix : i = x
    · rw [hix]
      exact hat.2 h
    · have hrows := hn i
      rw [if_neg fun hboth => hix hboth.1, Nat.add_zero] at hrows
      rw [hc' i hi, if_neg fun hboth => hix hboth.1, hc i hi, hrows, sub_zero]

/-- An unfollow by `u` of `v` keeps the agreement exactly when it deletes a row, or finds both
counters at zero. -/
theorem synced_unfollow_iff (h : Wf P db) (hs : Synced db) {u v : Row User}
    (hu : db.users.find u.id = some u) (hv : db.users.find v.id = some v) (now : Time) :
    Synced { db with
        users := lower now .followers v (lower now .followings u db.users)
        follows := db.follows.deleteWhere fun f =>
          f.attrs.followerId = u.id ∧ f.attrs.followedId = v.id } ↔
      Follow.exists? db u.id v.id = true ∨
        (u.attrs.followingCount = 0 ∧ v.attrs.followerCount = 0) := by
  set users' := lower now .followers v (lower now .followings u db.users) with husers
  set follows' := db.follows.deleteWhere fun f =>
    f.attrs.followerId = u.id ∧ f.attrs.followedId = v.id
  have hcount : ∀ i, (db.users.find i).isSome → ∀ k, count k users' i =
      count k db.users i -
        (if k = .followings ∧ i = u.id ∧ u.attrs.followingCount > 0 then 1 else 0) -
        if k = .followers ∧ i = v.id ∧ v.attrs.followerCount > 0 then 1 else 0 := by
    intro i hi k
    rw [husers, count_lower (by simpa using hi), count_lower hi]
    rfl
  have hcv : count .followers db.users v.id = v.attrs.followerCount := count_of_find hv
  have hcu : count .followings db.users u.id = u.attrs.followingCount := count_of_find hu
  rw [synced_iff_count] at hs
  have hfollowers : (∀ i, (db.users.find i).isSome →
      count .followers users' i = rowsAt Follow.followedId follows' i) ↔
        Follow.exists? db u.id v.id = true ∨ count .followers db.users v.id = 0 := by
    refine lowered_agree_iff (by rw [hv]; rfl) (fun i hi => (hs i hi).1)
      (rowsAt_delete Follow.followedId h u.id v.id) fun i hi => ?_
    rw [hcount i hi, hcv]
    simp
  have hfollowings : (∀ i, (db.users.find i).isSome →
      count .followings users' i = rowsAt Follow.followerId follows' i) ↔
        Follow.exists? db u.id v.id = true ∨ count .followings db.users u.id = 0 := by
    refine lowered_agree_iff (by rw [hu]; rfl) (fun i hi => (hs i hi).2)
      (rowsAt_delete Follow.followerId h u.id v.id) fun i hi => ?_
    rw [hcount i hi, hcu]
    simp
  rw [or_and_left, ← hcu, ← hcv, ← hfollowings, ← hfollowers, and_comm, synced_iff_count]
  simp only [husers, isSome_find_lower, forall_and]

/-- **One operation from a state in agreement leads to one exactly under `KeepsSync`.** -/
theorem synced_step_iff {w : World} (hw : Sound P w) (hs : Synced w.db) (op : Op) :
    Synced (step P w op).db ↔ KeepsSync w op := by
  have heffect := (effect_step hw op).1
  generalize (step P w op).db = db', view (step P w op).redis = c' at heffect
  cases heffect with
  | rejected => exact iff_of_true hs trivial
  | registered hu hv => exact iff_of_true (synced_insert_user hw.wf hs hu) trivial
  | followNobody h =>
    refine iff_of_true hs fun u v hu hv => ?_
    simp [hu, hv] at h
  | followed hu hv =>
    obtain ⟨-, hfu⟩ := eq_some_of_bind hu
    have hfv := findByUserName_mem hv
    rw [synced_follow_iff hs hfv, Follow.valid_iff]
    constructor
    · rintro ⟨-, -, hne, hnew⟩ u' v' hu' hv'
      obtain rfl := Option.some.inj (hu.symm.trans hu')
      obtain rfl := Option.some.inj (hv.symm.trans hv')
      exact ⟨hne, hnew⟩
    · intro hok
      exact ⟨by rw [hfu]; rfl, by rw [hfv]; rfl, (hok _ _ hu hv).1, (hok _ _ hu hv).2⟩
  | unfollowNobody h =>
    refine iff_of_true hs fun u v hu hv => ?_
    simp [hu, hv] at h
  | unfollowed hu hv =>
    rw [synced_unfollow_iff hw.wf hs (eq_some_of_bind hu).2 (findByUserName_mem hv)]
    constructor
    · intro hok u' v' hu' hv'
      obtain rfl := Option.some.inj (hu.symm.trans hu')
      obtain rfl := Option.some.inj (hv.symm.trans hv')
      exact hok
    · intro hok
      exact hok _ _ hu hv
  | noAuthor hu => exact iff_of_true hs trivial
  | notProcessed hu hp => exact iff_of_true hs trivial
  | @published now text i replyId u p hu hp =>
    refine iff_of_true ?_ trivial
    cases replyId with
    | some j => exact hs
    | none =>
      rw [synced_iff_count] at hs ⊢
      intro i hi
      have hi' : (w.db.users.find i).isSome := by simpa [publishedDb] using hi
      simp only [publishedDb, count_bump hi', (hs i hi').1, (hs i hi').2]
      simp

end Step

/-! ### Whole runs -/

/-- **The counters agree with the graph throughout a run of operations from the empty state
exactly when each of its operations keeps the agreement.** -/
theorem synced_run_iff (P : Platform) (ops : List Op) :
    Run.Always (step P) (fun w => Synced w.db) World.empty ops ↔
      Run.EachStep (step P) KeepsSync World.empty ops :=
  Run.always_iff_eachStep (fun w op (hw : Sound P w) _ _ => (effect_step hw op).2)
    (fun _ op hw hs => synced_step_iff hw hs op) (sound_empty P) (by simp [Synced, World.empty]) ops

/-- A user clicks twice on the button that follows another one. -/
def doubleFollow : List Op :=
  [.register 0 0 (.of "ann" "ann@x.org"), .register 1 1 (.of "bob" "bob@x.org"),
    .follow 2 (some 1) (some "bob"), .follow 3 (some 1) (some "bob")]

instance (db : Db) : Decidable (Synced db) :=
  inferInstanceAs (Decidable (∀ r ∈ db.users.rows, _ ∧ _))

/-- The second click counts again and stores nothing. -/
theorem double_follow_drifts :
    let w := Run.run (step .ascii) World.empty doubleFollow
    count .followers w.db.users 2 = 2 ∧ rowsAt Follow.followedId w.db.follows 2 = 1 ∧
      ¬ Synced w.db := by
  decide +kernel

end NanoTwitter
