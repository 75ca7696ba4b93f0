import Mathlib.Tactic
import NanoTwitter.Browser.Tab
import NanoTwitter.Web.History

/-!
# What a page shows of the replies

Whatever is clicked, in whatever order calls and answers travel, and whatever requests others send
meanwhile, everything that `replies.js` has added to a panel is made of whole conversations about
the panel's tweet: the first replies to it that the application has, in their order, and a form that
answers the same tweet (`threads_authentic`). Opening a link that is closed shows all replies that
the application has by then (`Visit.Inv.shows_opening`).
-/

namespace NanoTwitter

/-! ### Conversations -/

/-- A reply as it is shown. -/
def Entry.added (e : Entry) : Added :=
  .reply e.userName (e.createdAt.elim "null" Ruby.iso8601) e.text

/-- What a page shows of the replies `l`. -/
def conversation (tweetId : Text) (l : List Entry) : List Added :=
  (if l.isEmpty then [.noResponses] else l.map Entry.added) ++
    [.form (("/tweet/reply/" : Text) ++ tweetId)]

theorem replyOf_arr (author text time : Text) (id : Json) :
    replyOf (.arr [.str author, .str text, .str time, id]) = some (.reply author time text) := rfl

theorem replyOf_json (e : Entry) : replyOf e.json = some e.added := by
  obtain ⟨userName, text, createdAt, id⟩ := e
  cases createdAt with
  | none => rfl
  | some t =>
    unfold Entry.added
    rw [Option.elim_some]
    exact replyOf_arr userName text (Ruby.iso8601 t) _

/-- The page shows the replies that the application has sent. -/
theorem thread_render (tweetId : Text) (l : List Entry) :
    thread tweetId (Json.arr (l.map Entry.json)).render = some (conversation tweetId l) := by
  have hreplies : (l.map Entry.json).mapM replyOf = some (l.map Entry.added) := by
    rw [List.mapM_map]
    have hcomp : replyOf ∘ Entry.json = fun e => pure e.added := funext replyOf_json
    rw [hcomp, List.mapM_pure]
    rfl
  unfold thread conversation
  rw [Json.parse_render]
  dsimp only
  rw [hreplies, List.isEmpty_map]
  rfl

/-- `l` are the first replies to `x`, with all that `w₀` has at least. -/
structure Between (w₀ w : World) (x : Text) (l : List Entry) : Prop where
  least : (view w₀.redis).feeds (.replies x) <+: l.map Entry.toJson
  most : l.map Entry.toJson <+: (view w.redis).feeds (.replies x)

/-- `added` is made of conversations about `x`, each of them between `w₀` and `w`. -/
def Shows (w₀ w : World) (x : Text) (added : List Added) : Prop :=
  ∃ ls : List (List Entry), (∀ l ∈ ls, Between w₀ w x l) ∧ added = ls.flatMap (conversation x)

section Shows

variable {w₀ w w' : World} {x : Text} {added : List Added}

theorem Between.remembered (h : Remembers w w') {l : List Entry} (hl : Between w₀ w x l) :
    Between w₀ w' x l := ⟨hl.least, hl.most.trans (h.replies x)⟩

theorem Shows.nil : Shows w₀ w x [] := ⟨[], by simp, rfl⟩

theorem Shows.append (h : Shows w₀ w x added) {l : List Entry} (hl : Between w₀ w x l) :
    Shows w₀ w x (added ++ conversation x l) := by
  obtain ⟨ls, hls, rfl⟩ := h
  refine ⟨ls ++ [l], ?_, by simp⟩
  intro l' hl'
  rcases List.mem_append.1 hl' with hold | hnew
  · exact hls l' hold
  · rw [List.mem_singleton.1 hnew]
    exact hl

theorem Shows.remembered (h : Shows w₀ w x added) (hw : Remembers w w') :
    Shows w₀ w' x added := by
  obtain ⟨ls, hls, rfl⟩ := h
  exact ⟨ls, fun l hl => (hls l hl).remembered hw, rfl⟩

end Shows

/-! ### Answers -/

theorem request_replies {call : Ajax} (h : call.script = .replies) :
    call.request = some ⟨.getTweetReplies, "/tweet/replies", { tweetId := some call.tweetId }⟩ := by
  unfold Ajax.request
  rw [h]
  rfl

theorem request_likes {call : Ajax} (h : call.script = .likes) :
    call.request = some ⟨.postTweetLike, "/tweet/like", { tweetId := some call.tweetId }⟩ := by
  unfold Ajax.request
  rw [h]
  rfl

theorem accessReplies_of_entries {w : World} (hw : WellTyped w.redis) {x : Text} {l : List Entry}
    (hl : (view w.redis).feeds (.replies x) = l.map Entry.toJson) :
    accessReplies x w = .ok (l.map Entry.json) w := by
  have hparse : (fun reply => (orRaise .parserError (Json.parse reply) : Prog Json)) ∘
      Entry.toJson = fun e => pure e.json :=
    funext fun e => by
      show orRaise .parserError (Json.parse e.json.render) = _
      rw [Json.parse_render]
      rfl
  unfold accessReplies
  rw [EStateM.bind_of_ok (lrange_eq hw rfl), hl, List.mapM_map, hparse, List.mapM_pure]
  rfl

/-- The application answers with the replies it has. -/
theorem succeeded_replies (P : Platform) (env : Env) {c : Ctx} (hc : Tidy c.world.redis)
    (path x : Text) : ∃ l : List Entry, (view c.world.redis).feeds (.replies x) =
        l.map Entry.toJson ∧
      succeeded P env ⟨.getTweetReplies, path, { tweetId := some x }⟩ c =
        some (Json.arr (l.map Entry.json)).render := by
  have hmem : (view c.world.redis).feeds (.replies x) ∈ Set.range (List.map Entry.toJson) := by
    rw [Set.range_list_map]
    intro v hv
    obtain ⟨e, rfl⟩ := hc.entries (.replies x) v hv
    exact ⟨e, rfl⟩
  obtain ⟨l, hl'⟩ := hmem
  have hl := hl'.symm
  refine ⟨l, hl, ?_⟩
  have hrun : handle P env ⟨.getTweetReplies, path, { tweetId := some x }⟩ c =
      .ok (.json (Json.arr (l.map Entry.json)).render) c :=
    EStateM.bind_of_ok (onWorld_of_ok (accessReplies_of_entries hc.wellTyped hl))
  unfold succeeded
  rw [hrun]
  rfl

/-! ### Panels -/

namespace Panel

/-- What stands after the link. -/
def added (p : Panel) : List Added :=
  match p.footer with
  | .links _ added => added
  | .text _ => []

variable {p : Panel}

theorem added_of_links {heart : Heart} {added : List Added} (h : p.footer = .links heart added) :
    p.added = added := by
  unfold Panel.added
  rw [h]

@[simp] theorem tweetId_click (p : Panel) (script : Script) :
    (p.click script).tweetId = p.tweetId := by
  unfold click
  cases script with
  | replies =>
    cases p.footer with
    | links heart added => dsimp only; split_ifs <;> rfl
    | text t => rfl
  | likes =>
    cases p.footer with
    | links heart added => cases heart <;> rfl
    | text t => rfl

@[simp] theorem below_click (p : Panel) (script : Script) : (p.click script).below = p.below := by
  unfold click
  cases script with
  | replies =>
    cases p.footer with
    | links heart added => dsimp only; split_ifs <;> rfl
    | text t => rfl
  | likes =>
    cases p.footer with
    | links heart added => cases heart <;> rfl
    | text t => rfl

/-- A click leaves what stands after the link, or removes it. -/
theorem added_click (p : Panel) (script : Script) :
    (p.click script).added = p.added ∨ (p.click script).added = [] := by
  obtain ⟨tweetId, visible, footer, below⟩ := p
  cases script with
  | replies =>
    cases footer with
    | links heart added =>
      cases visible with
      | true => exact .inr rfl
      | false => exact .inl rfl
    | text t => exact .inl rfl
  | likes =>
    cases footer with
    | links heart added => cases heart <;> exact .inl rfl
    | text t => exact .inl rfl

/-- Where the answer to a call for replies goes. -/
theorem receive_replies {call : Ajax} (hscript : call.script = .replies) {data : Text}
    {new : List Added} (hnew : thread p.tweetId data = some new) {heart : Heart}
    {added : List Added} (hfooter : p.footer = .links heart added) :
    p.receive call data =
      if call.target = .icon then { p with footer := .links heart (added ++ new) }
      else { p with below := p.below ++ new } := by
  unfold receive
  rw [hfooter, hscript, hnew]
  cases call.target <;> rfl

theorem receive_text {t : Text} (hfooter : p.footer = .text t) (call : Ajax) (data : Text) :
    p.receive call data = p := by
  unfold receive
  rw [hfooter]

/-- Where the answer to a like goes. -/
theorem receive_likes {call : Ajax} (hscript : call.script = .likes) (data : Text) {heart : Heart}
    {added : List Added} (hfooter : p.footer = .links heart added) :
    p.receive call data =
      if call.target = .icon then { p with footer := .links (.text (likesJs data)) added }
      else { p with footer := .text (likesJs data) } := by
  unfold receive
  rw [hfooter, hscript]
  cases call.target <;> rfl

@[simp] theorem tweetId_receive (p : Panel) (call : Ajax) (data : Text) :
    (p.receive call data).tweetId = p.tweetId := by
  unfold receive
  cases p.footer with
  | text t => rfl
  | links heart added =>
    dsimp only
    cases call.script with
    | replies => cases thread p.tweetId data <;> cases call.target <;> rfl
    | likes => cases call.target <;> rfl

end Panel

namespace Tab

/-- The tweets of the panels. -/
def ids (t : Tab) : List Text := t.panels.map Panel.tweetId

theorem ids_modify (panels : List Panel) (k : ℕ) {f : Panel → Panel}
    (hf : ∀ p, (f p).tweetId = p.tweetId) :
    (panels.modify k f).map Panel.tweetId = panels.map Panel.tweetId := by
  refine List.ext_getElem? fun j => ?_
  rw [List.getElem?_map, List.getElem?_map, List.getElem?_modify]
  cases panels[j]? with
  | none => rfl
  | some p =>
    by_cases hk : k = j
    · simp [hk, hf]
    · simp [hk]

/-- A panel of the list in which the `k`-th was changed is a panel from before, or the changed
one. -/
theorem of_getElem?_modify {panels : List Panel} {k j : ℕ} {f : Panel → Panel} {q : Panel}
    (h : (panels.modify k f)[j]? = some q) :
    ∃ p, panels[j]? = some p ∧ q = if k = j then f p else p := by
  rw [List.getElem?_modify] at h
  obtain ⟨p, hp, hq⟩ := Option.map_eq_some_iff.1 h
  exact ⟨p, hp, hq.symm⟩

end Tab

/-! ### Visits -/

/-- The call asks for the tweet of its panel. -/
def Ajax.Meant (call : Ajax) (ids : List Text) : Prop := ids[call.panel]? = some call.tweetId

namespace Visit

/-- Everything that was added to the panels is made of conversations about their tweets, none of
them older than `w₀`. -/
def Authentic (w₀ : World) (v : Visit) : Prop :=
  ∀ (k : ℕ) (p : Panel), v.tab.panels[k]? = some p →
    Shows w₀ v.site.world p.tweetId p.added ∧ Shows w₀ v.site.world p.tweetId p.below

/-- What holds besides: the application got where it is by requests, after `w₀`; calls ask for the
tweets of their panels, and the answers under way are conversations. -/
structure Inv (P : Platform) (w₀ : World) (v : Visit) : Prop where
  reached : ∃ es, v.site = Site.reached P es
  since : Remembers w₀ v.site.world
  sent : ∀ call ∈ v.tab.sent, call.Meant v.tab.ids
  answered : ∀ a ∈ v.tab.answered, a.1.Meant v.tab.ids
  answers : ∀ a ∈ v.tab.answered, a.1.script = .replies →
    ∃ l, Between w₀ v.site.world a.1.tweetId l ∧ a.2 = (Json.arr (l.map Entry.json)).render
  authentic : v.Authentic w₀

variable {P : Platform} {w₀ : World} {v : Visit}

theorem Inv.orderly (h : v.Inv P w₀) : Orderly P v.site.world := by
  obtain ⟨es, hes⟩ := h.reached
  rw [hes]
  exact orderly_reached P es

/-- Requests of others change nothing on the page, and the application forgets nothing. -/
theorem Inv.serve (h : v.Inv P w₀) (e : Event) :
    (⟨NanoTwitter.serve P v.site e, v.tab⟩ : Visit).Inv P w₀ := by
  have hremembers := remembers_serve h.orderly e
  refine ⟨?_, h.since.trans hremembers, h.sent, h.answered, fun a ha hscript => ?_,
    fun k p hp => ?_⟩
  · obtain ⟨es, hes⟩ := h.reached
    refine ⟨es ++ [e], ?_⟩
    have hrun : Site.reached P (es ++ [e]) = NanoTwitter.serve P (Site.reached P es) e :=
      Run.run_concat _ es e
    rw [hes, hrun]
  · obtain ⟨l, hl, hdata⟩ := h.answers a ha hscript
    exact ⟨l, hl.remembered hremembers, hdata⟩
  · obtain ⟨hadded, hbelow⟩ := h.authentic k p hp
    exact ⟨hadded.remembered hremembers, hbelow.remembered hremembers⟩

theorem Inv.click (h : v.Inv P w₀) (k : ℕ) (script : Script) (target : Target) :
    (v.step P (.click k script target)).Inv P w₀ := by
  have hids : (v.tab.click k script target).ids = v.tab.ids :=
    Tab.ids_modify _ k fun p => p.tweetId_click script
  refine ⟨h.reached, h.since, fun call hcall => ?_, fun a ha => ?_, h.answers, fun j q hq => ?_⟩
  · show call.Meant (v.tab.click k script target).ids
    rw [hids]
    rcases List.mem_append.1 hcall with hold | hnew
    · exact h.sent call hold
    · obtain ⟨p, hp, rfl⟩ := Option.map_eq_some_iff.1 (Option.mem_toList.1 hnew)
      have hpanel := (Option.filter_eq_some_iff.1 hp).1
      unfold Ajax.Meant Tab.ids
      rw [List.getElem?_map, hpanel]
      rfl
  · show a.1.Meant (v.tab.click k script target).ids
    rw [hids]
    exact h.answered a ha
  · obtain ⟨p, hp, rfl⟩ := Tab.of_getElem?_modify hq
    obtain ⟨hadded, hbelow⟩ := h.authentic j p hp
    split_ifs
    · rw [Panel.tweetId_click, Panel.below_click]
      refine ⟨?_, hbelow⟩
      rcases p.added_click script with hsame | hnil
      · rw [hsame]
        exact hadded
      · rw [hnil]
        exact .nil
    · exact ⟨hadded, hbelow⟩

theorem exists_request (call : Ajax) : ∃ req, call.request = some req := by
  cases hscript : call.script with
  | replies => exact ⟨_, request_replies hscript⟩
  | likes => exact ⟨_, request_likes hscript⟩

theorem reach_eq {n : ℕ} {call : Ajax} (hcall : v.tab.sent[n]? = some call) {req : Request}
    (hreq : call.request = some req) (env : Env) :
    v.reach P n env =
      ⟨NanoTwitter.serve P v.site ⟨v.tab.client, env, req⟩,
        { v.tab with
          sent := v.tab.sent.eraseIdx n
          answered := v.tab.answered ++ ((succeeded P env req (v.site.ctx v.tab.client)).map
            fun data => (call, data)).toList }⟩ := by
  unfold reach
  rw [hcall]
  dsimp only
  rw [hreq]

theorem reach_of_none {n : ℕ} (hcall : v.tab.sent[n]? = none) (env : Env) :
    v.reach P n env = v := by
  unfold reach
  rw [hcall]

/-- An answer for replies has the replies of the time when it was made. -/
theorem Inv.answered_between (h : v.Inv P w₀) {call : Ajax} {req : Request}
    (hreq : call.request = some req) (hscript : call.script = .replies) (env : Env) {data : Text}
    (hdata : succeeded P env req (v.site.ctx v.tab.client) = some data) :
    ∃ l, Between w₀ v.site.world call.tweetId l ∧ data = (Json.arr (l.map Entry.json)).render := by
  obtain rfl := Option.some.inj ((request_replies hscript).symm.trans hreq)
  obtain ⟨l, hl, hsucceeded⟩ := succeeded_replies P env
    (c := v.site.ctx v.tab.client) h.orderly.tidy "/tweet/replies" call.tweetId
  refine ⟨l, ⟨?_, ?_⟩, Option.some.inj (hdata.symm.trans hsucceeded)⟩
  · rw [← hl]
    exact h.since.replies call.tweetId
  · rw [← hl]
    exact List.prefix_rfl

theorem Inv.reach (h : v.Inv P w₀) (n : ℕ) (env : Env) : (v.step P (.reach n env)).Inv P w₀ := by
  show (v.reach P n env).Inv P w₀
  cases hcall : v.tab.sent[n]? with
  | none =>
    rw [reach_of_none hcall]
    exact h
  | some call =>
    obtain ⟨req, hreq⟩ := exists_request call
    rw [reach_eq hcall hreq]
    have hserved := h.serve ⟨v.tab.client, env, req⟩
    refine ⟨hserved.reached, hserved.since, fun c hc => h.sent c (List.mem_of_mem_eraseIdx hc),
      fun a ha => ?_, fun a ha hscript => ?_, hserved.authentic⟩
    · rcases List.mem_append.1 ha with hold | hnew
      · exact h.answered a hold
      · obtain ⟨data, -, rfl⟩ := Option.map_eq_some_iff.1 (Option.mem_toList.1 hnew)
        exact h.sent call (List.mem_of_getElem? hcall)
    · rcases List.mem_append.1 ha with hold | hnew
      · exact hserved.answers a hold hscript
      · obtain ⟨data, hdata, rfl⟩ := Option.map_eq_some_iff.1 (Option.mem_toList.1 hnew)
        obtain ⟨l, hl, hrender⟩ := h.answered_between hreq hscript env hdata
        exact ⟨l, hl.remembered (remembers_serve h.orderly _), hrender⟩

theorem Inv.tweetId_answered (h : v.Inv P w₀) {a : Ajax × Text} (ha : a ∈ v.tab.answered)
    {p : Panel} (hp : v.tab.panels[a.1.panel]? = some p) : p.tweetId = a.1.tweetId := by
  have hid : some p.tweetId = some a.1.tweetId := by
    rw [← h.answered a ha, Tab.ids, List.getElem?_map, hp]
    rfl
  exact Option.some.inj hid

/-- An answer for replies is shown as a conversation about the panel's tweet. -/
theorem Inv.thread_answered (h : v.Inv P w₀) {a : Ajax × Text} (ha : a ∈ v.tab.answered)
    (hscript : a.1.script = .replies) {p : Panel} (hp : v.tab.panels[a.1.panel]? = some p) :
    ∃ l, Between w₀ v.site.world p.tweetId l ∧
      thread p.tweetId a.2 = some (conversation p.tweetId l) := by
  obtain ⟨l, hl, hdata⟩ := h.answers a ha hscript
  rw [← h.tweetId_answered ha hp] at hl
  refine ⟨l, hl, ?_⟩
  rw [hdata]
  exact thread_render p.tweetId l

/-- What arrives leaves conversations about the panel's tweet. -/
theorem Inv.shows_receive (h : v.Inv P w₀) {a : Ajax × Text} (ha : a ∈ v.tab.answered) {p : Panel}
    (hp : v.tab.panels[a.1.panel]? = some p) :
    Shows w₀ v.site.world p.tweetId (p.receive a.1 a.2).added ∧
      Shows w₀ v.site.world p.tweetId (p.receive a.1 a.2).below := by
  obtain ⟨hadded, hbelow⟩ := h.authentic _ p hp
  cases hfooter : p.footer with
  | text t =>
    rw [Panel.receive_text hfooter]
    exact ⟨hadded, hbelow⟩
  | links heart added =>
    have hsame := Panel.added_of_links hfooter
    rw [hsame] at hadded
    cases hscript : a.1.script with
    | likes =>
      rw [Panel.receive_likes hscript a.2 hfooter]
      split_ifs
      · exact ⟨hadded, hbelow⟩
      · exact ⟨.nil, hbelow⟩
    | replies =>
      obtain ⟨l, hl, hnew⟩ := h.thread_answered ha hscript hp
      rw [Panel.receive_replies hscript hnew hfooter]
      split_ifs
      · exact ⟨hadded.append hl, hbelow⟩
      · refine ⟨?_, hbelow.append hl⟩
        show Shows _ _ _ p.added
        rw [hsame]
        exact hadded

theorem Inv.receive (h : v.Inv P w₀) (n : ℕ) : (v.step P (.receive n)).Inv P w₀ := by
  show (⟨v.site, v.tab.receive n⟩ : Visit).Inv P w₀
  unfold Tab.receive
  cases ha : v.tab.answered[n]? with
  | none => exact h
  | some a =>
    have hmem := List.mem_of_getElem? ha
    have hids : (v.tab.panels.modify a.1.panel fun p => p.receive a.1 a.2).map Panel.tweetId =
        v.tab.ids := Tab.ids_modify _ _ fun p => p.tweetId_receive a.1 a.2
    refine ⟨h.reached, h.since, fun call hcall => ?_, fun b hb => ?_,
      fun b hb => h.answers b (List.mem_of_mem_eraseIdx hb), fun j q hq => ?_⟩
    · show call.Meant (List.map _ _)
      rw [hids]
      exact h.sent call hcall
    · show b.1.Meant (List.map _ _)
      rw [hids]
      exact h.answered b (List.mem_of_mem_eraseIdx hb)
    · obtain ⟨p, hp, rfl⟩ := Tab.of_getElem?_modify hq
      split_ifs with hk
      · rw [Panel.tweetId_receive]
        exact h.shows_receive hmem (hk ▸ hp)
      · exact h.authentic j p hp

/-- A click on the icon of a closed link, the way of its call and the way back. -/
def opening (v : Visit) (k : ℕ) (env : Env) : List Move :=
  [.click k .replies .icon, .reach v.tab.sent.length env, .receive v.tab.answered.length]

/-- What opening a link shows: all replies that the application has. -/
theorem Inv.shows_opening (h : v.Inv P w₀) {k : ℕ} {p : Panel} (hp : v.tab.panels[k]? = some p)
    {heart : Heart} {added : List Added} (hfooter : p.footer = .links heart added)
    (hclosed : p.replyVisible = false) (env : Env) :
    ∃ l : List Entry, (view v.site.world.redis).feeds (.replies p.tweetId) = l.map Entry.toJson ∧
      (Run.run (step P) v (v.opening k env)).tab.panels[k]? = some { p with
        replyVisible := true
        footer := .links heart (added ++ conversation p.tweetId l) } := by
  obtain ⟨l, hl, hsucceeded⟩ := succeeded_replies P env
    (c := v.site.ctx v.tab.client) h.orderly.tidy "/tweet/replies" p.tweetId
  refine ⟨l, hl, ?_⟩
  have hclick : p.click .replies = { p with replyVisible := true } := by
    unfold Panel.click
    simp [hfooter, hclosed]
  have hcall : v.tab.call k .replies .icon = some ⟨k, .replies, .icon, p.tweetId⟩ := by
    simp [Tab.call, hp, Option.filter, Panel.asks, hfooter, hclosed]
  set v₁ := v.step P (.click k .replies .icon) with hv₁
  have hsent : v₁.tab.sent[v.tab.sent.length]? = some ⟨k, .replies, .icon, p.tweetId⟩ := by
    show (v.tab.sent ++ (v.tab.call k .replies .icon).toList)[v.tab.sent.length]? = _
    rw [hcall]
    simp
  have hreach := reach_eq (P := P) hsent (request_replies rfl) env
  have hanswered : (v₁.reach P v.tab.sent.length env).tab.answered[v.tab.answered.length]? =
      some (⟨k, .replies, .icon, p.tweetId⟩, (Json.arr (l.map Entry.json)).render) := by
    rw [hreach]
    show (v.tab.answered ++ ((succeeded P env _ (v.site.ctx v.tab.client)).map _).toList)[_]? = _
    rw [hsucceeded]
    simp
  have hpanels : (v₁.reach P v.tab.sent.length env).tab.panels =
      v.tab.panels.modify k fun p => p.click .replies := by
    rw [hreach]
    rfl
  show ((v₁.reach P v.tab.sent.length env).tab.receive v.tab.answered.length).panels[k]? = _
  unfold Tab.receive
  rw [hanswered]
  dsimp only
  rw [hpanels, List.getElem?_modify, List.getElem?_modify, hp]
  simp only [if_true, Option.map_eq_map, Option.map_some, hclick]
  have hscript : Ajax.script ⟨k, .replies, .icon, p.tweetId⟩ = .replies := rfl
  have hreceive := Panel.receive_replies (p := { p with replyVisible := true }) hscript
    (thread_render p.tweetId l) hfooter
  rw [hreceive, if_pos rfl]

theorem inv_step (h : v.Inv P w₀) (m : Move) : (v.step P m).Inv P w₀ := by
  cases m with
  | click k script target => exact h.click k script target
  | reach n env => exact h.reach n env
  | receive n => exact h.receive n
  | traffic e => exact h.serve e

theorem inv_opened (P : Platform) (es : List Event) (client : ℕ) (html : Html) :
    (opened P es client html).Inv P (Site.reached P es).world := by
  refine ⟨⟨es, rfl⟩, .refl _, fun _ h => absurd h List.not_mem_nil,
    fun _ h => absurd h List.not_mem_nil, fun _ h => absurd h List.not_mem_nil, fun k p hp => ?_⟩
  obtain ⟨footer, -, rfl⟩ := List.mem_map.1 (List.mem_of_getElem? hp)
  exact ⟨.nil, .nil⟩

theorem inv_reached (P : Platform) (es : List Event) (client : ℕ) (html : Html)
    (moves : List Move) :
    (reached P es client html moves).Inv P (Site.reached P es).world :=
  (Run.always_of_inv (P := fun v : Visit => v.Inv P (Site.reached P es).world)
    (fun _ m h => inv_step h m) (inv_opened P es client html) moves).last

end Visit

/-- **Whatever a page shows as replies, they are the replies to that tweet.** -/
theorem threads_authentic (P : Platform) (es : List Event) (client : ℕ) (html : Html)
    (moves : List Move) :
    (Visit.reached P es client html moves).Authentic (Site.reached P es).world :=
  (Visit.inv_reached P es client html moves).authentic

end NanoTwitter
