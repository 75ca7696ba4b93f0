import Mathlib.Tactic
import NanoTwitter.Browser.Threads
import NanoTwitter.Web.LikeButton

/-!
# What hearts turn into

`likes.js` writes the answer to a like over the heart and never again. By then the answer is old:
the tweet may have got more likes before the answer arrived, and will get more while the page
stands. Whatever is clicked and whoever else likes what, a text in the place of a heart never says
more likes than the tweet has, and the `likes` column is the number of its likers:
`hearts_truthful`.
-/

namespace NanoTwitter

open Ruby (decimal)

/-- The text that was written over a heart. -/
def Panel.label (p : Panel) : Option Text :=
  match p.footer with
  | .links (.text t) _ => some t
  | .links _ _ => none
  | .text t => some t

/-- The text tells of some likes of the tweet `x`, no more than it has. -/
def TrueLikes (w : World) (x t : Text) : Prop :=
  ∃ r ∈ w.db.tweets.rows, (r.id : ℤ) = Ruby.toI x ∧
    ∃ n, 1 ≤ n ∧ n ≤ ((view w.redis).likers r.id).card ∧
      (t = alreadyLiked (decimal n) ∨ t = oneMoreLike (decimal n))

/-- The texts over hearts tell of likes, and rows count the likers. -/
structure Visit.LikesShown (v : Visit) : Prop where
  counted : ∀ r ∈ v.site.world.db.tweets.rows,
    r.attrs.likes = ((view v.site.world.redis).likers r.id).card
  hearts : ∀ (k : ℕ) (p : Panel) (t : Text), v.tab.panels[k]? = some p → p.label = some t →
    TrueLikes v.site.world p.tweetId t

theorem TrueLikes.remembered {w w' : World} (h : Remembers w w') {x t : Text}
    (ht : TrueLikes w x t) : TrueLikes w' x t := by
  obtain ⟨r, hr, hid, n, hpos, hle, htext⟩ := ht
  obtain ⟨r', hr', hid', -⟩ := h.likes r hr
  refine ⟨r', hr', by rw [hid', hid], n, hpos, ?_, htext⟩
  rw [hid']
  exact hle.trans (Finset.card_le_card (h.likers r.id))

/-! ### Likes are counted -/

/-- The likes of a run of requests are those of a run of operations and likes. -/
theorem exists_likeLog (P : Platform) (es : List Event) :
    ∃ s : LikeLog, s.Kept P ∧ s.world = (Site.reached P es).world := by
  refine (Run.always_of_inv (P := fun site : Site => ∃ s : LikeLog, s.Kept P ∧
    s.world = site.world) (fun site e h => ?_) ?_ es).last
  · obtain ⟨s, hs, hworld⟩ := h
    rw [Site.world_serve]
    have hwrites := written_cases P e.env e.req (site.ctx e.client)
    generalize written P e.env e.req (site.ctx e.client) = w' at hwrites
    have hctx : (site.ctx e.client).world = s.world := hworld.symm
    rw [hctx] at hwrites
    cases hwrites with
    | registration =>
      exact ⟨_, LikeLog.kept_op hs (.register e.env.now e.env.salt (e.req.params.form P)), rfl⟩
    | operation op => exact ⟨_, LikeLog.kept_op hs op, rfl⟩
    | liking => exact ⟨_, LikeLog.kept_like hs _ _ _, rfl⟩
    | nothing => exact ⟨s, hs, rfl⟩
  · exact ⟨LikeLog.empty, LikeLog.kept_run P [], rfl⟩

theorem LikeLog.Kept.likes_eq {P : Platform} {s : LikeLog} (h : s.Kept P) {r : Row Tweet}
    (hr : r ∈ s.world.db.tweets.rows) :
    r.attrs.likes = ((view s.world.redis).likers r.id).card := by
  rw [h.counts r.id r (Table.find_of_mem hr), h.sets,
    Finset.card_image_of_injective _ member_injective]

theorem tweetFind_id {x : Text} {w w' : World} {t : Row Tweet}
    (h : Tweet.find (some x) w = .ok t w') : (t.id : ℤ) = Ruby.toI x := by
  unfold Tweet.find at h
  cases hrow : w.db.tweets.rows.find? fun t => (t.id : ℤ) = Ruby.toI x with
  | none =>
    simp only [Option.bind_some, hrow] at h
    exact absurd h (by simp)
  | some t' =>
    simp only [Option.bind_some, hrow] at h
    obtain rfl := (EStateM.Result.ok.inj h).1
    simpa using List.find?_some hrow

/-- The answer to a like tells of likes that the tweet has from then on. -/
theorem LikeLog.Kept.trueLikes {P : Platform} {s : LikeLog} (h : s.Kept P) {now : Ruby.Time}
    {userId : Option ℕ} {x : Text} {j : Json} {w' : World}
    (hrun : like now userId (some x) s.world = .ok j w') :
    TrueLikes w' x (likesJs j.render) := by
  rcases tweetFind_cases (some x) s.world with ⟨t, ht, hfind⟩ | herror
  · have hmem := (Table.mem_of_find hfind).1
    have hid := tweetFind_id ht
    have hcount := h.counts t.id t hfind
    have hcard : ((view s.world.redis).likers t.id).card = (s.likers t.id).card := by
      rw [h.sets, Finset.card_image_of_injective _ member_injective]
    rcases LikeLog.like_of_kept h ht now userId with ⟨hu, hsame⟩ | ⟨hu, r, hnew, -, hv⟩
    · obtain ⟨rfl, rfl⟩ := EStateM.Result.ok.inj (hsame.symm.trans hrun)
      refine ⟨t, hmem, hid, (s.likers t.id).card, Finset.card_pos.2 ⟨_, hu⟩,
        hcard.ge, .inl ?_⟩
      rw [hcount]
      exact likesJs_str _
    · obtain ⟨rfl, rfl⟩ := EStateM.Result.ok.inj (hnew.symm.trans hrun)
      refine ⟨⟨t.id, { t.attrs with likes := t.attrs.likes + 1, updatedAt := now }⟩,
        Table.mem_update.2 ⟨t, hmem, by simp⟩, hid, (s.likers t.id).card + 1,
        Nat.succ_pos _, ?_, .inr ?_⟩
      · -- one liker more
        dsimp only
        rw [hv, Cache.likers_like, if_pos rfl, h.sets,
          Finset.card_insert_of_notMem fun hin => hu (member_injective.mem_finset_image.1 hin),
          Finset.card_image_of_injective _ member_injective]
      · have hlikes : t.attrs.likes + 1 = ((s.likers t.id).card + 1 : ℕ) := by
          rw [hcount]
          push_cast
          rfl
        rw [hlikes]
        exact likesJs_num _
  · have hlike : like now userId (some x) s.world = .error .recordNotFound s.world :=
      EStateM.bind_of_error herror
    exact absurd (hrun.symm.trans hlike) (by simp)

theorem succeeded_likes {P : Platform} (es : List Event) (client : ℕ) (env : Env) {x data : Text}
    {req : Request} (hreq : req = ⟨.postTweetLike, "/tweet/like", { tweetId := some x }⟩)
    (hdata : succeeded P env req ((Site.reached P es).ctx client) = some data) :
    TrueLikes (serve P (Site.reached P es) ⟨client, env, req⟩).world x (likesJs data) := by
  subst hreq
  obtain ⟨s, hs, hworld⟩ := exists_likeLog P es
  set c := (Site.reached P es).ctx client with hc
  have hctx : c.world = s.world := hworld.symm
  cases hlike : like env.now c.session.userId (some x) c.world with
  | ok j w' =>
    have hhandle : handle P env ⟨.postTweetLike, "/tweet/like", { tweetId := some x }⟩ c =
        .ok (.json j.render) ⟨w', c.session⟩ := handle_postTweetLike hlike "/tweet/like"
    have hserved : (serve P (Site.reached P es) ⟨client, env, .postTweetLike, "/tweet/like",
        { tweetId := some x }⟩).world = w' := by
      show ((handle P env _).exec c).world = _
      rw [EStateM.exec_of_ok hhandle]
    obtain rfl : j.render = data := by
      unfold succeeded at hdata
      rw [hhandle] at hdata
      exact Option.some.inj hdata
    rw [hserved]
    rw [hctx] at hlike
    exact hs.trueLikes hlike
  | error e w' =>
    have hworld : onWorld (like env.now c.session.userId (some x)) c =
        .error e ⟨w', c.session⟩ := by
      unfold onWorld
      rw [hlike]
    have hhandle : handle P env ⟨.postTweetLike, "/tweet/like", { tweetId := some x }⟩ c =
        .error e ⟨w', c.session⟩ :=
      (EStateM.bind_of_ok getSession_ok).trans (EStateM.bind_of_error hworld)
    unfold succeeded at hdata
    rw [hhandle] at hdata
    exact absurd hdata (by simp)

/-! ### Steps -/

@[simp] theorem Panel.label_click (p : Panel) (script : Script) :
    (p.click script).label = p.label := by
  obtain ⟨tweetId, visible, footer, below⟩ := p
  cases footer with
  | text t => cases script <;> rfl
  | links heart added =>
    cases script with
    | replies => cases visible <;> cases heart <;> rfl
    | likes => cases heart <;> rfl

/-- Only the answer to a like says something new. -/
theorem Panel.label_receive (p : Panel) (call : Ajax) (data : Text) :
    (p.receive call data).label = p.label ∨
      call.script = .likes ∧ (p.receive call data).label = some (likesJs data) := by
  cases hfooter : p.footer with
  | text t =>
    rw [receive_text hfooter]
    exact .inl rfl
  | links heart added =>
    cases hscript : call.script with
    | likes =>
      refine .inr ⟨rfl, ?_⟩
      rw [receive_likes hscript data hfooter]
      split_ifs <;> rfl
    | replies =>
      refine .inl ?_
      cases hnew : thread p.tweetId data with
      | none => simp only [receive, hfooter, hscript, hnew]
      | some new =>
        rw [receive_replies hscript hnew hfooter]
        unfold label
        split_ifs
        · rw [hfooter]
          cases heart <;> rfl
        · rfl

namespace Visit

/-- Answers to likes under way tell of likes, as the texts over hearts do. -/
structure HeartInv (v : Visit) : Prop where
  answers : ∀ a ∈ v.tab.answered, a.1.script = .likes →
    TrueLikes v.site.world a.1.tweetId (likesJs a.2)
  hearts : ∀ (k : ℕ) (p : Panel) (t : Text), v.tab.panels[k]? = some p → p.label = some t →
    TrueLikes v.site.world p.tweetId t

variable {P : Platform} {w₀ : World} {v : Visit}

theorem HeartInv.serve (h : v.HeartInv) (hinv : v.Inv P w₀) (e : Event) :
    (⟨NanoTwitter.serve P v.site e, v.tab⟩ : Visit).HeartInv :=
  have hremembers := remembers_serve hinv.orderly e
  ⟨fun a ha hscript => (h.answers a ha hscript).remembered hremembers,
    fun k p t hp ht => (h.hearts k p t hp ht).remembered hremembers⟩

theorem HeartInv.click (h : v.HeartInv) (k : ℕ) (script : Script) (target : Target) :
    (v.step P (.click k script target)).HeartInv := by
  refine ⟨h.answers, fun j q t hq ht => ?_⟩
  obtain ⟨p, hp, rfl⟩ := Tab.of_getElem?_modify hq
  split_ifs at ht ⊢
  · rw [Panel.label_click] at ht
    rw [Panel.tweetId_click]
    exact h.hearts j p t hp ht
  · exact h.hearts j p t hp ht

theorem HeartInv.reach (h : v.HeartInv) (hinv : v.Inv P w₀) (n : ℕ) (env : Env) :
    (v.step P (.reach n env)).HeartInv := by
  show (v.reach P n env).HeartInv
  cases hcall : v.tab.sent[n]? with
  | none =>
    rw [reach_of_none hcall]
    exact h
  | some call =>
    obtain ⟨req, hreq⟩ := exists_request call
    have hserved := h.serve hinv ⟨v.tab.client, env, req⟩
    rw [reach_eq hcall hreq]
    refine ⟨fun a ha hscript => ?_, hserved.hearts⟩
    rcases List.mem_append.1 ha with hold | hnew
    · exact hserved.answers a hold hscript
    · obtain ⟨data, hdata, rfl⟩ := Option.map_eq_some_iff.1 (Option.mem_toList.1 hnew)
      obtain ⟨es, hes⟩ := hinv.reached
      have hlikes := Option.some.inj (hreq.symm.trans (request_likes hscript))
      rw [hes] at hdata ⊢
      exact succeeded_likes es v.tab.client env hlikes hdata

theorem HeartInv.receive (h : v.HeartInv) (hinv : v.Inv P w₀) (n : ℕ) :
    (v.step P (.receive n)).HeartInv := by
  show (⟨v.site, v.tab.receive n⟩ : Visit).HeartInv
  unfold Tab.receive
  cases ha : v.tab.answered[n]? with
  | none => exact h
  | some a =>
    have hmem := List.mem_of_getElem? ha
    refine ⟨fun b hb => h.answers b (List.mem_of_mem_eraseIdx hb), fun j q t hq ht => ?_⟩
    obtain ⟨p, hp, rfl⟩ := Tab.of_getElem?_modify hq
    by_cases hj : a.1.panel = j
    · rw [if_pos hj] at ht ⊢
      rw [Panel.tweetId_receive]
      rcases p.label_receive a.1 a.2 with hsame | ⟨hscript, hnew⟩
      · exact h.hearts j p t hp (hsame ▸ ht)
      · obtain rfl := Option.some.inj (hnew.symm.trans ht)
        have hid := hinv.tweetId_answered hmem (hj ▸ hp)
        rw [hid]
        exact h.answers a hmem hscript
    · rw [if_neg hj] at ht ⊢
      exact h.hearts j p t hp ht

theorem HeartInv.step (h : v.HeartInv) (hinv : v.Inv P w₀) (m : Move) :
    (v.step P m).HeartInv := by
  cases m with
  | click k script target => exact h.click k script target
  | reach n env => exact h.reach hinv n env
  | receive n => exact h.receive hinv n
  | traffic e => exact h.serve hinv e

theorem heartInv_opened (P : Platform) (es : List Event) (client : ℕ) (html : Html) :
    (opened P es client html).HeartInv := by
  refine ⟨fun _ h => absurd h List.not_mem_nil, fun k p t hp ht => ?_⟩
  obtain ⟨footer, -, rfl⟩ := List.mem_map.1 (List.mem_of_getElem? hp)
  obtain ⟨id, heart⟩ := footer
  cases heart <;> exact absurd ht (by simp [Panel.label, Panel.loaded])

end Visit

/-- **What stands in the place of hearts is never too much.** -/
theorem hearts_truthful (P : Platform) (es : List Event) (client : ℕ) (html : Html)
    (moves : List Move) : (Visit.reached P es client html moves).LikesShown := by
  have hinv := Visit.inv_reached P es client html moves
  have hhearts : (Visit.reached P es client html moves).Inv P (Site.reached P es).world ∧
      (Visit.reached P es client html moves).HeartInv :=
    (Run.always_of_inv (P := fun v : Visit => v.Inv P (Site.reached P es).world ∧ v.HeartInv)
      (fun v m h => ⟨Visit.inv_step h.1 m, h.2.step h.1 m⟩)
      ⟨Visit.inv_opened P es client html, Visit.heartInv_opened P es client html⟩ moves).last
  refine ⟨fun r hr => ?_, hhearts.2.hearts⟩
  obtain ⟨es', hes'⟩ := hinv.reached
  obtain ⟨s, hs, hworld⟩ := exists_likeLog P es'
  rw [hes', ← hworld] at hr ⊢
  exact hs.likes_eq hr

end NanoTwitter
