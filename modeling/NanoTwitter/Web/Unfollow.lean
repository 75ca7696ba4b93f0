import Mathlib.Tactic
import NanoTwitter.Web.Orderly

/-!
# Unfollow undoes follow

A follow stores a row and counts it on both sides, an unfollow deletes the rows of the pair and
lowers both counters, but not below zero. Counters never are below zero, whatever requests the
application is sent (`nonNegative_reached`), so that the second request takes back what the first
one did, also when the counters have drifted from the rows (`unfollow_undoes_follow`).
-/

namespace NanoTwitter

open Ruby (Time)

/-- All counters are zero at least. -/
def NonNegative (users : Table User) : Prop := ∀ k a, 0 ≤ count k users a

/-- The same follows, counters, tweets and cache. -/
structure Restored (w w' : World) : Prop where
  follows : w'.db.follows.rows = w.db.follows.rows
  counters : ∀ k a, count k w'.db.users a = count k w.db.users a
  tweets : w'.db.tweets = w.db.tweets
  redis : w'.redis = w.redis

variable {P : Platform} {w : World} {users : Table User}

/-! ### Counters stay above zero -/

theorem count_of_not_isSome {a : ℕ} (h : ¬ (users.find a).isSome) (k : Counter) :
    count k users a = 0 := by
  rw [count, Option.not_isSome_iff_eq_none.1 h]
  rfl

theorem NonNegative.bump (h : NonNegative users) (now : Time) (j : Counter) {d : ℤ} (hd : 0 ≤ d)
    (i : ℕ) : NonNegative (bump now j d i users) := by
  intro k a
  by_cases ha : (users.find a).isSome
  · rw [count_bump ha]
    have hk := h k a
    split_ifs
    · omega
    · omega
  · rw [count_of_not_isSome (by rwa [isSome_find_bump])]

/-- A counter is lowered if the row has it above zero. -/
theorem NonNegative.lower (h : NonNegative users) (now : Time) (j : Counter) {u : Row User}
    (hu : count j users u.id = j.get u.attrs) : NonNegative (lower now j u users) := by
  intro k a
  by_cases ha : (users.find a).isSome
  · rw [count_lower ha]
    have hk := h k a
    split_ifs with hpos
    · obtain ⟨rfl, rfl, hpos⟩ := hpos
      omega
    · omega
  · rw [count_of_not_isSome (by rwa [isSome_find_lower])]

theorem nonNegative_step (hw : Sound P w) (h : NonNegative w.db.users) (op : Op) :
    NonNegative (step P w op).db.users := by
  have heffect := (effect_step hw op).1
  generalize (step P w op).db = db' at heffect
  generalize view (step P w op).redis = c' at heffect
  cases heffect with
  | rejected | followNobody | unfollowNobody | noAuthor | notProcessed => exact h
  | registered hu =>
    intro k a
    rw [count_insert (counters_new hu k)]
    exact h k a
  | followed => exact (h.bump _ _ (by decide) _).bump _ _ (by decide) _
  | unfollowed hu hv =>
    have hfu := (eq_some_of_bind hu).2
    refine (h.lower _ _ (count_of_find hfu)).lower _ _ ?_
    rw [count_lower_of_ne (by decide), count_of_find (findByUserName_mem hv)]
  | @published now text i replyId u p hu hp =>
    cases replyId with
    | none => exact h.bump _ _ (by decide) _
    | some j => exact h

theorem nonNegative_written (env : Env) (req : Request) {c : Ctx} (hw : Orderly P c.world)
    (h : NonNegative c.world.db.users) : NonNegative (written P env req c).db.users := by
  have hwrites := written_cases P env req c
  generalize written P env req c = w' at hwrites
  cases hwrites with
  | registration | operation => exact nonNegative_step hw.sound h _
  | liking =>
    rw [(sameRows_like env.now _ _ c.world).2.2]
    exact h
  | nothing => exact h

/-- **No request brings a counter below zero.** -/
theorem nonNegative_reached (P : Platform) (es : List Event) :
    NonNegative (Site.reached P es).world.db.users := by
  have hinv : Run.Always (serve P) (fun s => Orderly P s.world ∧ NonNegative s.world.db.users)
      (Site.opened World.empty) es := by
    refine Run.always_of_inv (fun s e h => ?_) ⟨orderly_empty P, fun k a => le_refl _⟩ es
    rw [Site.world_serve]
    exact ⟨orderly_written e.env e.req h.1, nonNegative_written e.env e.req h.1 h.2⟩
  exact hinv.last.2

/-! ### There and back -/

/-- The rows after storing a pair that was not there and deleting it. -/
theorem rows_deleteWhere_insert {t : Table Follow} {a b : ℕ}
    (h : ∀ f ∈ t.rows, ¬ (f.attrs.followerId = a ∧ f.attrs.followedId = b)) :
    ((t.insert ⟨a, b⟩).deleteWhere fun f =>
      f.attrs.followerId = a ∧ f.attrs.followedId = b).rows = t.rows := by
  have hkept : t.rows.filter (fun f => !decide (f.attrs.followerId = a ∧ f.attrs.followedId = b)) =
      t.rows := List.filter_eq_self.2 fun f hf => by simpa [imp_iff_not_or] using h f hf
  unfold Table.deleteWhere
  dsimp only
  rw [Table.rows_insert, List.filter_append, hkept]
  simp

/-- What goes up by one on both sides comes down again. -/
theorem count_lower_bump (hpos : NonNegative users) {u v : ℕ} (hu : (users.find u).isSome)
    (hv : (users.find v).isSome) (now now' : Time) {users₁ : Table User} {u₁ v₁ : Row User}
    (hbump : users₁ = bump now .followers 1 v (bump now .followings 1 u users))
    (hu₁ : users₁.find u = some u₁) (hv₁ : users₁.find v = some v₁) (k : Counter) (a : ℕ) :
    count k (lower now' .followers v₁ (lower now' .followings u₁ users₁)) a = count k users a := by
  obtain ⟨-, hidu⟩ := Table.mem_of_find hu₁
  obtain ⟨-, hidv⟩ := Table.mem_of_find hv₁
  have hcount : ∀ {j : Counter} {b : ℕ}, (users.find b).isSome → count j users₁ b =
      count j users b + (if j = .followings ∧ b = u then 1 else 0) +
        if j = .followers ∧ b = v then 1 else 0 := by
    intro j b hb
    rw [hbump, count_bump (by rwa [isSome_find_bump]), count_bump hb]
  have hsome : ∀ b, (users₁.find b).isSome = (users.find b).isSome := by
    intro b
    rw [hbump, isSome_find_bump, isSome_find_bump]
  -- both counters were not below zero before, so they are above zero now
  have hfollowings : Counter.followings.get u₁.attrs > 0 := by
    have hget := hcount (j := .followings) hu
    rw [count_of_find hu₁, if_pos ⟨rfl, rfl⟩, if_neg (by simp)] at hget
    have hle := hpos .followings u
    omega
  have hfollowers : Counter.followers.get v₁.attrs > 0 := by
    have hget := hcount (j := .followers) hv
    rw [count_of_find hv₁, if_neg (by simp), if_pos ⟨rfl, rfl⟩] at hget
    have hle := hpos .followers v
    omega
  by_cases ha : (users.find a).isSome
  · rw [count_lower (by rwa [isSome_find_lower, hsome]), count_lower (by rwa [hsome]), hcount ha,
      hidu, hidv]
    simp only [hfollowings, hfollowers, and_true]
    omega
  · rw [count_of_not_isSome ha, count_of_not_isSome]
    rwa [isSome_find_lower, isSome_find_lower, hsome]

theorem restored_unfollow_follow (hw : Orderly P w) (hpos : NonNegative w.db.users) {u v : Row User}
    (hu : w.db.users.find u.id = some u) (hv : w.db.users.find v.id = some v) (hne : u.id ≠ v.id)
    (hno : Follow.exists? w.db u.id v.id = false) (now now' : Time) :
    Restored w ((unfollow P now' (some u.id) (some v.attrs.userName)).exec
      ((follow P now (some u.id) (some v.attrs.userName)).exec w)) := by
  have hname : ∀ {db : Db} {r : Row User}, Wf P db → db.users.find v.id = some r →
      r.attrs.ident = v.attrs.ident →
      User.findByUserName db (some v.attrs.userName) = some r := fun hwf hr hident =>
    hwf.findByUserName_iff.2 ⟨(Table.mem_of_find hr).1, User.userName_of_ident hident⟩
  have hvalid : Follow.valid w.db u.id v.id = true :=
    Follow.valid_iff.2 ⟨by rw [hu]; rfl, by rw [hv]; rfl, hne, hno⟩
  -- the state in between
  have hfollow : follow P now (some u.id) (some v.attrs.userName) w = .ok () _ :=
    follow_ok hw.wf hu (hname hw.wf hv rfl)
  rw [if_pos hvalid] at hfollow
  have hwf₁ : Wf P ((follow P now (some u.id) (some v.attrs.userName)).exec w).db :=
    (orderly_step hw (.follow now (some u.id) (some v.attrs.userName))).wf
  rw [EStateM.exec_of_ok hfollow] at hwf₁ ⊢
  have hident := (sameIdent_bump now .followings 1 u.id w.db.users).trans
    (sameIdent_bump now .followers 1 v.id _)
  obtain ⟨u₁, hu₁, -⟩ := hident.find hu
  obtain ⟨v₁, hv₁, hv₁name⟩ := hident.find hv
  have hunfollow : unfollow P now' (some u.id) (some v.attrs.userName) _ = .ok () _ :=
    unfollow_ok hwf₁ hu₁ (hname hwf₁ hv₁ hv₁name)
  rw [EStateM.exec_of_ok hunfollow, (Table.mem_of_find hu₁).2, (Table.mem_of_find hv₁).2]
  refine ⟨rows_deleteWhere_insert fun f hf hpair => ?_, fun k a => ?_, rfl, rfl⟩
  · exact Bool.eq_false_iff.1 hno (List.any_eq_true.2 ⟨f, hf, decide_eq_true hpair⟩)
  · exact count_lower_bump hpos (by rw [hu]; rfl) (by rw [hv]; rfl) now now' rfl hu₁ hv₁ k a

/-- **Unfollow undoes follow.** Whatever requests came before, a user that follows somebody new and
then unfollows leaves all follows, counters and tweets and the cache as they were. -/
theorem unfollow_undoes_follow (P : Platform) (es : List Event) {u v : Row User} {session : Session}
    (hu : (Site.reached P es).world.db.users.find u.id = some u)
    (hv : (Site.reached P es).world.db.users.find v.id = some v) (hne : u.id ≠ v.id)
    (hno : Follow.exists? (Site.reached P es).world.db u.id v.id = false)
    (hsession : session.userId = some u.id) {params params' : Params}
    (hparams : params.userName = some (.str v.attrs.userName))
    (hparams' : params'.userName = some (.str v.attrs.userName)) (env env' : Env)
    (path path' : Text) :
    let c : Ctx := ⟨(Site.reached P es).world, session⟩
    let c₁ := (handle P env ⟨.postUserFollow, path, params⟩).exec c
    let c₂ := (handle P env' ⟨.postUserUnfollow, path', params'⟩).exec c₁
    Restored c.world c₂.world := by
  intro c c₁ c₂
  have houtcome := handle_outcome P env ⟨.postUserFollow, path, params⟩ c
  have hworld : c₁.world =
      (follow P env.now (some u.id) (some v.attrs.userName)).exec c.world := by
    rw [houtcome.1]
    simp only [written, hparams]
    rw [show c.session.userId = some u.id from hsession]
  have hsame : c₁.session.userId = some u.id :=
    (congrArg Prod.fst houtcome.2).trans hsession
  have hworld₂ : c₂.world = (unfollow P env'.now (some u.id) (some v.attrs.userName)).exec
      c₁.world := by
    rw [(handle_outcome P env' ⟨.postUserUnfollow, path', params'⟩ c₁).1]
    simp only [written, hparams', hsame]
  rw [hworld₂, hworld]
  exact restored_unfollow_follow (orderly_reached P es) (nonNegative_reached P es) hu hv hne hno
    env.now env'.now

/-- `ann` follows `bob` twice and unfollows once, which leaves a count and no row. -/
def drifting : List Event :=
  [.joins 0 0 "ann", .joins 1 1 "bob",
    ⟨0, ⟨2, 0, false, []⟩, .postUserFollow, "/user/follow", { userName := some "bob" }⟩,
    ⟨0, ⟨3, 0, false, []⟩, .postUserFollow, "/user/follow", { userName := some "bob" }⟩,
    ⟨0, ⟨4, 0, false, []⟩, .postUserUnfollow, "/user/unfollow", { userName := some "bob" }⟩]

/-- Following and unfollowing once more leaves the stray count as it is. -/
theorem drift_restored :
    let s := Site.reached .ascii drifting
    let params : Params := { userName := some "bob" }
    let c₁ := (handle .ascii ⟨5, 0, false, []⟩ ⟨.postUserFollow, "/user/follow", params⟩).exec
      ⟨s.world, s.sessions 0⟩
    let c₂ := (handle .ascii ⟨6, 0, false, []⟩
      ⟨.postUserUnfollow, "/user/unfollow", params⟩).exec c₁
    count .followers s.world.db.users 2 = 1 ∧ Follow.exists? s.world.db 1 2 = false ∧
      Follow.exists? c₁.world.db 1 2 = true ∧ Restored s.world c₂.world := by
  intro s params c₁ c₂
  have hno : Follow.exists? s.world.db 1 2 = false := by decide +kernel
  refine ⟨by decide +kernel, hno, by decide +kernel, ?_⟩
  have hfind : ∀ i ∈ [1, 2], (s.world.db.users.find i).isSome := by decide +kernel
  obtain ⟨u, hu⟩ := Option.isSome_iff_exists.1 (hfind 1 (by simp))
  obtain ⟨v, hv⟩ := Option.isSome_iff_exists.1 (hfind 2 (by simp))
  have hbob : (s.world.db.users.find 2).map (fun r => r.attrs.userName) = some ("bob" : Text) := by
    decide +kernel
  rw [hv, Option.map_some, Option.some.injEq] at hbob
  have hidu : u.id = 1 := (Table.mem_of_find hu).2
  have hidv : v.id = 2 := (Table.mem_of_find hv).2
  refine unfollow_undoes_follow .ascii drifting (u := u) (v := v) ?_ ?_ ?_ ?_ ?_ ?_ ?_
    ⟨5, 0, false, []⟩ ⟨6, 0, false, []⟩ "/user/follow" "/user/unfollow"
  · rw [hidu]
    exact hu
  · rw [hidv]
    exact hv
  · rw [hidu, hidv]
    decide
  · rw [hidu, hidv]
    exact hno
  · rw [hidu]
    decide +kernel
  · rw [hbob]
  · rw [hbob]

end NanoTwitter
