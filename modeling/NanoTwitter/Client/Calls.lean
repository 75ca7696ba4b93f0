import Mathlib.Tactic
import NanoTwitter.Client.Authentic
import NanoTwitter.Client.Desk
import NanoTwitter.Web.PasswordHash

/-!
# Calls that are answered

What the client makes of a call whose address is plain, when the call arrives and so does its
answer: the address leads to the route that it was built for (`send_eq`), and a JSON document that
the route has written is read again (`parsed_render`). One lemma for each kind of call says which
value the command then has at hand, in terms of the stores.
-/

namespace NanoTwitter

/-- Every call arrives, and so does its answer. -/
structure Surroundings.Faithful (S : Surroundings) : Prop where
  delivers : ∀ k verb url params, S.deliver k verb url params ≠ none
  answers : ∀ k, S.answered k = true

namespace ClientLibrary

variable {P : Platform} {S : Surroundings} {t : Terminal} {n : Text}

/-! ### From the address to the value -/

/-- The session after a call that has reached a route and left `w` behind. -/
def Terminal.after (P : Platform) (S : Surroundings) (t : Terminal) (req : Request) (w : World) :
    Terminal :=
  { t with
    site := { Terminal.atCall P S t with world := w }
    sent := t.sent + 1
    calls := ⟨S.env t.sent, req, (Terminal.atCall P S t).world⟩ :: t.calls }

theorem answer_of_ok {env : Env} {req : Request} {site : Site} {resp : Response} {c : Ctx}
    (h : handle P env req ⟨site.world, Session.new⟩ = .ok resp c) :
    answer P env req site = ((resp.code, resp.body?), { site with world := c.world }) := by
  rw [answer, h]

theorem answer_of_error {env : Env} {req : Request} {site : Site} {e : Error} {c : Ctx}
    (h : handle P env req ⟨site.world, Session.new⟩ = .error e c) :
    answer P env req site = ((500, none), { site with world := c.world }) := by
  rw [answer, h]

/-- The request that a plain address makes. -/
def reqOf (q : Route) (p : List (Path.Seg PathVar)) (n : Text) (params : Params) : Request :=
  ⟨q, Path.build (fun _ => n) p, params.setAll (Path.values (fun _ => n) p)⟩

theorem addressable_iff : Desk.addressable n = true ↔ plain n = true ∧ n ≠ [] := by
  rw [Desk.addressable, Bool.and_eq_true, decide_eq_true_eq]

/-- A call with a plain address is answered by the route that the address was built for. -/
theorem send_eq (hS : S.Faithful) {url : Text} {q : Route} {p : List (Path.Seg PathVar)}
    (hp : p ∈ q.patterns) (hn : Path.vars p ≠ [] → Desk.addressable n = true)
    (hurl : plainUrl (("/api/v1" : Text) ++ url) = true)
    (hpath : ("/api/v1" : Text) ++ url = Path.build (fun _ => n) p) {params : Params} {r : Reply}
    {w : World} (hanswer : answer P (S.env t.sent) (reqOf q p n params) (Terminal.atCall P S t) =
      (r, { Terminal.atCall P S t with world := w })) :
    send P S q.verb url params t = .ok r (Terminal.after P S t (reqOf q p n params) w) := by
  have hdeliver : S.deliver t.sent q.verb (("/api/v1" : Text) ++ url) params =
      some (Path.build (fun _ => n) p, params) := by
    rw [← hpath]
    exact (S.deliver_plain t.sent q.verb _ params hurl).resolve_left (hS.delivers _ _ _ _)
  have hrouted : routed q.verb (Path.build (fun _ => n) p) params = some (reqOf q p n params) :=
    routed_of_plain hp (fun _ hx => addressable_iff.1 (hn (List.ne_nil_of_mem hx))) params
  simp only [send, hdeliver, hrouted, hS.answers, if_true]
  rw [show Run.run (serve P) t.site (S.traffic t.sent) = Terminal.atCall P S t from rfl, hanswer]
  rfl

theorem printing_of_ok {α : Type} {p : Client α} {a : α} (h : p [] = .ok a []) (t : Terminal) :
    printing p t = .ok a t := by
  rw [printing, h]
  simp only [List.map_nil, List.append_nil]

theorem printing_of_error {α : Type} {p : Client α} {e : Error} (h : p [] = .error e [])
    (t : Terminal) : printing p t = .error (.raised e) t := by
  rw [printing, h]
  simp only [List.map_nil, List.append_nil]

/-- Both versions of the JSON gem read the objects and arrays that the API writes. -/
theorem parsed_render (scalars : Bool) {v : Json} (hv : isScalar v = false) (out : List Text) :
    parsed scalars (200, some v.render) out = .ok v out := by
  have hbody : validateResponse v.render = true := by
    cases v with
    | arr l => simp [validateResponse, Json.render]
    | obj l =>
      have hbrace : Json.lbrace ≠ 'n' := by decide
      simp [validateResponse, Json.render, hbrace]
    | _ => exact absurd hv (by simp [isScalar])
  have hread : apiGetCall 200 v.render out = .ok v out := by
    have hcall : apiGetCall 200 v.render = orRaise .parserError (Json.parse v.render) :=
      if_pos (by rw [hbody]; rfl)
    rw [hcall, Json.parse_render]
    rfl
  unfold parsed
  rw [if_pos rfl]
  refine (EStateM.bind_of_ok hread).trans ?_
  rw [hv, Bool.and_false, Bool.false_and]
  rfl

/-- An answer that is a document, or empty for what does not exist. -/
theorem parsed_elim (scalars : Bool) {α : Type} (o : Option α) {json : α → Json}
    (hjson : ∀ a, isScalar (json a) = false) (out : List Text) :
    parsed scalars ((o.elim .empty fun a => .json (json a).render : Response).code,
        (o.elim .empty fun a => .json (json a).render : Response).body?) out =
      .ok (o.elim .null json) out := by
  cases o with
  | none => rfl
  | some a => exact parsed_render scalars (hjson a) out

/-- The session after a call that only reads. -/
def Terminal.afterRead (P : Platform) (S : Surroundings) (t : Terminal) (req : Request) :
    Terminal := Terminal.after P S t req (Terminal.atCall P S t).world

/-- A route that finds something or nothing, asked by the client. -/
theorem getCall_eq (hS : S.Faithful) {url : Text} {q : Route} {p : List (Path.Seg PathVar)}
    (hq : q.verb = .get) (hp : p ∈ q.patterns)
    (hn : Path.vars p ≠ [] → Desk.addressable n = true)
    (hurl : plainUrl (("/api/v1" : Text) ++ url) = true)
    (hpath : ("/api/v1" : Text) ++ url = Path.build (fun _ => n) p) {α : Type} {o : Option α}
    {json : α → Json} (hjson : ∀ a, isScalar (json a) = false)
    (hrun : handle P (S.env t.sent) (reqOf q p n {}) ⟨(Terminal.atCall P S t).world, Session.new⟩ =
      .ok (o.elim .empty fun a => .json (json a).render)
        ⟨(Terminal.atCall P S t).world, Session.new⟩) :
    getCall P S url t = .ok (o.elim .null json) (Terminal.afterRead P S t (reqOf q p n {})) := by
  have hsend := send_eq hS hp hn hurl hpath (answer_of_ok hrun)
  rw [hq] at hsend
  exact (EStateM.bind_of_ok hsend).trans (printing_of_ok (parsed_elim S.scalars o hjson []) _)

/-! ### Accounts -/

theorem plainUrl_of_addressable (h : Desk.addressable n = true) : plainUrl n = true :=
  plainUrl_of_plain (addressable_iff.1 h).1

/-- The account of a name, as the client receives it. -/
theorem getCall_user (hS : S.Faithful) (hn : Desk.addressable n = true) :
    ∃ req, getCall P S (("/users/" : Text) ++ n) t =
      .ok ((User.findByUserName (Terminal.atCall P S t).world.db (some n)).elim .null userJson)
        (Terminal.afterRead P S t req) := by
  have hurl : plainUrl (("/api/v1" : Text) ++ (("/users/" : Text) ++ n)) = true := by
    simp only [plainUrl_append, plainUrl_of_addressable hn, Bool.and_true]
    decide
  refine ⟨_, getCall_eq (q := .getApiUser) hS rfl List.mem_cons_self
    (fun _ => hn) hurl (by simp [Path.build, Path.Seg.text]) (fun _ => rfl)
    ?_⟩
  refine (getApiUser_eq { userName := some n } rfl _).trans ?_
  cases User.findByUserName (Terminal.atCall P S t).world.db (some n) <;> rfl

/-- The route of the follows. -/
def followsRoute (followers : Bool) : Route :=
  if followers then .getApiFollowers else .getApiFollowings

theorem findFollows_elim {c : Ctx} (hw : Wf P c.world.db) (n : Text) (followers : Bool) :
    findFollows { userName := some n } followers c =
      .ok ((User.findByUserName c.world.db (some n)).elim .empty fun u =>
        .json (textsJson (followNames c.world.db followers u.id)).render) c := by
  cases hu : User.findByUserName c.world.db (some n) with
  | none =>
    unfold findFollows
    rw [EStateM.bind_of_ok (runQuery_ok rfl c), EStateM.bind_of_ok getDb_ok]
    dsimp only
    rw [hu]
    rfl
  | some u =>
    obtain ⟨hmem, hname⟩ := hw.findByUserName_iff.1 hu
    exact findFollows_eq hw hmem (by rw [hname]) followers

/-- The follows of a name, as the client receives them. -/
theorem getCall_follows (hS : S.Faithful) (hn : Desk.addressable n = true)
    (hw : Orderly P (Terminal.atCall P S t).world) (followers : Bool) :
    ∃ req, getCall P S (("/follows/" : Text) ++ n ++ ("/" : Text) ++ Desk.kindOf followers) t =
      .ok ((User.findByUserName (Terminal.atCall P S t).world.db (some n)).elim .null fun u =>
          textsJson (followNames (Terminal.atCall P S t).world.db followers u.id))
        (Terminal.afterRead P S t req) := by
  have hurl : plainUrl (("/api/v1" : Text) ++
      (("/follows/" : Text) ++ n ++ ("/" : Text) ++ Desk.kindOf followers)) = true := by
    simp only [plainUrl_append, plainUrl_of_addressable hn, Bool.and_true]
    cases followers <;> decide
  have hpath : ("/api/v1" : Text) ++
      (("/follows/" : Text) ++ n ++ ("/" : Text) ++ Desk.kindOf followers) =
      Path.build (fun _ => n) [.lit "api", .lit "v1", .lit "follows", .var PathVar.userName,
        .lit (Desk.kindOf followers)] := by
    cases followers <;> simp [Path.build, Path.Seg.text, Desk.kindOf]
  have hp : [.lit "api", .lit "v1", .lit "follows", .var PathVar.userName,
      .lit (Desk.kindOf followers)] ∈ (followsRoute followers).patterns := by
    cases followers <;> exact List.mem_cons_self
  have hverb : (followsRoute followers).verb = .get := by cases followers <;> rfl
  refine ⟨_, getCall_eq hS hverb hp (fun _ => hn) hurl hpath (fun _ => rfl) ?_⟩
  have hrun := findFollows_elim (c := ⟨(Terminal.atCall P S t).world, Session.new⟩) hw.wf n
    followers
  cases followers <;> exact hrun

/-! ### Tweets -/

/-- The end of the address of a call. -/
def urlOf : ApiCall → Text
  | .tweet id => ("/tweets/" : Text) ++ id
  | .frontFeed => "/front-feed"
  | .profileFeed n => ("/users/" : Text) ++ n ++ ("/profile-feed" : Text)
  | .homeFeed n => ("/users/" : Text) ++ n ++ ("/home-feed" : Text)
  | .search k => ("/tweets/" : Text) ++ k ++ ("/search" : Text)

/-- Redis has the texts of the tweets. -/
theorem lrange_cached {w : World} (h : Tidy w.redis) {s : Slot} (hs : s.isFeed = true) :
    w.redis.lrange s.key = some ((Desk.cached w s).map Entry.toJson) := by
  refine (list?_eq_view h.wellTyped hs).trans (congrArg some ?_)
  unfold Desk.cached
  rw [List.map_map]
  refine (List.map_id _).symm.trans (List.map_congr_left fun v hv => ?_)
  obtain ⟨e, rfl⟩ := h.entries s v hv
  exact (Function.invFun_eq ⟨e, rfl⟩).symm

/-- The pattern of the route of a call. -/
def patternOf (call : ApiCall) : List (Path.Seg PathVar) := call.request.route.patterns.headD []

theorem build_patternOf (call : ApiCall) :
    ("/api/v1" : Text) ++ urlOf call =
      Path.build (fun _ => call.word.getD []) (patternOf call) := by
  cases call with
  | frontFeed => rfl
  | tweet | profileFeed | homeFeed | search =>
    conv_rhs => arg 2; whnf
    dsimp only [urlOf, ApiCall.word, Option.getD_some]
    simp [Path.build, Path.Seg.text]

theorem reqOf_eq_request (call : ApiCall) :
    reqOf call.request.route (patternOf call) (call.word.getD []) {} = call.request := by
  rw [reqOf, ← build_patternOf]
  cases call <;> rfl

theorem addressable_of_word {call : ApiCall} (h : call.word.all Desk.addressable = true)
    (hn : call.word = some n) : Desk.addressable n = true := by
  rwa [hn, Option.all_some] at h

theorem plainUrl_urlOf {call : ApiCall} (h : call.word.all Desk.addressable = true) :
    plainUrl (("/api/v1" : Text) ++ urlOf call) = true := by
  have hend : ∀ {a b : Text}, plainUrl a = true → plainUrl b = true →
      plainUrl (a ++ b) = true := fun ha hb => by rw [plainUrl_append, ha, hb]; rfl
  refine hend (by decide) ?_
  cases call with
  | frontFeed => decide
  | tweet id =>
    exact hend (by decide) (plainUrl_of_addressable (addressable_of_word h rfl))
  | profileFeed n | homeFeed n | search n =>
    exact hend (hend (by decide) (plainUrl_of_addressable (addressable_of_word h rfl)))
      (by decide)

/-- What the client reads from the answer to a call. -/
def received (db : Db) (cached : Slot → List Entry) (call : ApiCall) : Json :=
  (call.sent db cached).elim .null fun l => .arr (l.map Sent.json)

/-- The tweets of a call, as the client receives them. -/
theorem getCall_tweets (hS : S.Faithful) {call : ApiCall}
    (hcall : call.word.all Desk.addressable = true)
    (hw : Orderly P (Terminal.atCall P S t).world) :
    ∃ req, getCall P S (urlOf call) t =
      .ok (received (Terminal.atCall P S t).world.db (Desk.cached (Terminal.atCall P S t).world)
        call) (Terminal.afterRead P S t req) := by
  have hrun := handle_call (c := ⟨(Terminal.atCall P S t).world, Session.new⟩) P (S.env t.sent)
    (fun s hs => lrange_cached hw.tidy hs) call
  rw [← reqOf_eq_request] at hrun
  have hp : patternOf call ∈ call.request.route.patterns := by
    cases call <;> exact List.mem_cons_self
  have hverb : call.request.route.verb = .get := by cases call <;> rfl
  have hword : Path.vars (patternOf call) ≠ [] →
      Desk.addressable (call.word.getD []) = true := by
    cases call with
    | frontFeed => exact fun h => absurd rfl h
    | tweet | profileFeed | homeFeed | search => exact fun _ => addressable_of_word hcall rfl
  exact ⟨_, getCall_eq hS hverb hp hword (plainUrl_urlOf hcall) (build_patternOf call)
    (fun _ => rfl) hrun⟩

/-- What `print_tweets` returns for an array tells whether it was empty. -/
theorem printTweets_eq_null {inspect : Json → Text} {l : List Json} {out out' : List Text}
    {value : Json} (h : printTweets inspect (.arr l) out = .ok value out') :
    value = .null ↔ l = [] := by
  have hcons : ∀ {p : Client Unit}, (do p; return Json.arr l : Client Json) out = .ok value out' →
      value = .arr l := by
    intro p hp
    obtain ⟨_, _, -, hreturn⟩ := EStateM.bind_eq_ok.1 hp
    exact (EStateM.Result.ok.inj hreturn).1.symm
  cases l with
  | nil =>
    obtain ⟨rfl, -⟩ := EStateM.Result.ok.inj h
    exact iff_of_true rfl rfl
  | cons v l =>
    have hvalue : value = .arr (v :: l) := by
      cases v with
      | obj o => exact hcons h
      | _ => exact hcons h
    rw [hvalue]
    exact iff_of_false Json.noConfusion (List.cons_ne_nil _ _)

/-- What is printed of an answer, and what `print_tweets` returns. -/
theorem printTweets_received (inspect : Json → Text) (db : Db) (cached : Slot → List Entry)
    (call : ApiCall) :
    ∃ value, printTweets inspect (received db cached call) [] =
        .ok value ((call.had db cached).elim [incorrectQuery]
          (List.flatMap (Triple.lines call.close))) ∧
      (value = .null ↔ (call.had db cached).all List.isEmpty = true) := by
  unfold received ApiCall.had
  cases hsent : call.sent db cached with
  | none => exact ⟨.null, rfl, iff_of_true rfl rfl⟩
  | some l =>
    obtain ⟨value, hprint⟩ : ∃ value, printTweets inspect (.arr (l.map Sent.json)) [] =
        .ok value _ := printTweets_sent hsent []
    refine ⟨value, hprint, (printTweets_eq_null hprint).trans ?_⟩
    simp

/-! ### Calls that write -/

theorem login_refused {c : Ctx} {userName password : Text}
    (h : credentials P c.world.db { userName := some userName, password := some password } =
      none) :
    NanoTwitter.login P { userName := some userName, password := some password } c =
      .ok .nil c := by
  unfold NanoTwitter.login
  rw [if_neg (by simp), EStateM.bind_of_ok (runQuery_ok rfl c), EStateM.bind_of_ok getDb_ok]
  cases hu : loginUser c.world.db { userName := some userName, password := some password } with
  | none => rfl
  | some u =>
    rw [credentials, hu, Option.filter_some, ite_eq_right_iff] at h
    have hok : passwordOk P u (some password) = false :=
      Bool.eq_false_iff.2 fun hok => absurd (h hok) (by simp)
    simp only [hok]
    rfl

/-- A login is answered with an object if the password is right, with nothing if not, and changes no
store. -/
theorem postCall_login (hS : S.Faithful) (userName password : Text) :
    ∃ v req, postCall P S "/login" { userName := some userName, password := some password } t =
        .ok v (Terminal.afterRead P S t req) ∧
      truthy v = (credentials P (Terminal.atCall P S t).world.db
        { userName := some userName, password := some password }).isSome := by
  set params : Params := { userName := some userName, password := some password }
  set req := reqOf .postApiLogin [.lit "api", .lit "v1", .lit "login"] [] params
  have hsend : ∀ {r : Reply}, answer P (S.env t.sent) req (Terminal.atCall P S t) =
      (r, { Terminal.atCall P S t with world := (Terminal.atCall P S t).world }) →
      send P S .post "/login" params t = .ok r (Terminal.afterRead P S t req) := fun hanswer =>
    send_eq (q := .postApiLogin) hS List.mem_cons_self (fun h => absurd rfl h) (by decide) rfl
      hanswer
  have hcall : ∀ {r : Reply} {v : Json}, send P S .post "/login" params t =
      .ok r (Terminal.afterRead P S t req) → parsed S.scalars r [] = .ok v [] →
      postCall P S "/login" params t = .ok v (Terminal.afterRead P S t req) := fun hsend hv =>
    (EStateM.bind_of_ok hsend).trans (printing_of_ok hv _)
  cases hcred : credentials P (Terminal.atCall P S t).world.db params with
  | none =>
    have hrun : handle P (S.env t.sent) req ⟨(Terminal.atCall P S t).world, Session.new⟩ =
        .ok (.json Json.null.render) ⟨(Terminal.atCall P S t).world, Session.new⟩ :=
      EStateM.bind_of_ok (login_refused hcred)
    exact ⟨.null, req, hcall (hsend (answer_of_ok hrun)) rfl, rfl⟩
  | some u =>
    have hrun : handle P (S.env t.sent) req ⟨(Terminal.atCall P S t).world, Session.new⟩ =
        .ok (.json (sessionJson (Session.new.as u)).render)
          ⟨(Terminal.atCall P S t).world, Session.new.as u⟩ :=
      EStateM.bind_of_ok (login_of_some hcred)
    exact ⟨_, req, hcall (hsend (answer_of_ok hrun)) (parsed_render S.scalars rfl []), rfl⟩

/-- A text by itself is read by the newer versions of the JSON gem only. -/
theorem parsed_text (scalars : Bool) (s : Text) (out : List Text) :
    parsed scalars (200, some (Json.str s).render) out =
      if scalars then .ok (.str s) out else .error .parserError out := by
  have hquote : Json.dquote ≠ 'n' := by decide
  have hbody : validateResponse (Json.str s).render = true := by
    simp [validateResponse, Json.render, Json.quote, hquote]
  have hread : apiGetCall 200 (Json.str s).render out = .ok (.str s) out := by
    have hcall : apiGetCall 200 (Json.str s).render =
        orRaise .parserError (Json.parse (Json.str s).render) := if_pos (by rw [hbody]; rfl)
    rw [hcall, Json.parse_render]
    rfl
  unfold parsed
  rw [if_pos rfl]
  refine (EStateM.bind_of_ok hread).trans ?_
  rw [hbody]
  cases scalars <;> rfl

/-- What the client has of a new tweet: a text, if the JSON gem reads texts by themselves. -/
def made (scalars : Bool) (t : Terminal) : EStateM.Result Stop Terminal Json :=
  if scalars then .ok (.str "success") t else .error (.raised .parserError) t

/-- A new tweet is made and answered for a user that exists; for anybody else nothing happens. -/
theorem postCall_newTweet (hS : S.Faithful) (hn : Desk.addressable n = true) (text : Text) :
    ∃ req, postCall P S (("/users/" : Text) ++ n ++ ("/new-tweet" : Text)) { text := some text } t =
      (User.findByUserName (Terminal.atCall P S t).world.db (some n)).elim
        (.ok .null (Terminal.afterRead P S t req)) fun u =>
          made S.scalars (Terminal.after P S t req
            ((makeTweet P (S.env t.sent).now (some text) (some u.id) none).exec
              (Terminal.atCall P S t).world)) := by
  set req := reqOf .postApiNewTweet
    [.lit "api", .lit "v1", .lit "users", .var PathVar.userName, .lit "new-tweet"] n
    { text := some text }
  refine ⟨req, ?_⟩
  have hurl : plainUrl (("/api/v1" : Text) ++
      (("/users/" : Text) ++ n ++ ("/new-tweet" : Text))) = true := by
    simp only [plainUrl_append, plainUrl_of_addressable hn, Bool.and_true]
    decide
  have hpath : ("/api/v1" : Text) ++ (("/users/" : Text) ++ n ++ ("/new-tweet" : Text)) =
      Path.build (fun _ => n) [.lit "api", .lit "v1", .lit "users", .var PathVar.userName,
        .lit "new-tweet"] := by
    simp [Path.build, Path.Seg.text]
  have hsend : ∀ {r : Reply} {w : World}, answer P (S.env t.sent) req (Terminal.atCall P S t) =
      (r, { Terminal.atCall P S t with world := w }) →
      send P S .post (("/users/" : Text) ++ n ++ ("/new-tweet" : Text)) { text := some text } t =
        .ok r (Terminal.after P S t req w) := fun hanswer =>
    send_eq (q := .postApiNewTweet) hS List.mem_cons_self (fun _ => hn) hurl
      hpath hanswer
  cases hu : User.findByUserName (Terminal.atCall P S t).world.db (some n) with
  | none =>
    have hrun : handle P (S.env t.sent) req ⟨(Terminal.atCall P S t).world, Session.new⟩ =
        .error .noMethodError ⟨(Terminal.atCall P S t).world, Session.new⟩ :=
      (EStateM.bind_of_ok getDb_ok).trans (EStateM.bind_of_error (orRaise_error _ hu))
    exact (EStateM.bind_of_ok (hsend (answer_of_error hrun))).trans
      (printing_of_ok (parsed_of_code (r := (500, none)) S.scalars (by simp) []) _)
  | some u =>
    have hauthor : (some u.id).bind (Terminal.atCall P S t).world.db.users.find = some u :=
      findByUserName_mem hu
    have hmake : makeTweet P (S.env t.sent).now (some text) (some u.id) none
        (Terminal.atCall P S t).world = .ok () _ := makeTweet_ok hauthor
    rw [← EStateM.exec_of_ok hmake] at hmake
    have hrun : handle P (S.env t.sent) req ⟨(Terminal.atCall P S t).world, Session.new⟩ =
        .ok (.json (Json.str "success").render)
          ⟨(makeTweet P (S.env t.sent).now (some text) (some u.id) none).exec
            (Terminal.atCall P S t).world, Session.new⟩ :=
      (EStateM.bind_of_ok getDb_ok).trans ((EStateM.bind_of_ok (orRaise_ok _ hu)).trans
        (EStateM.bind_of_ok (onWorld_of_ok hmake)))
    refine (EStateM.bind_of_ok (hsend (answer_of_ok hrun))).trans ?_
    have hparsed := parsed_text S.scalars "success" []
    unfold made
    dsimp only [Option.elim]
    split_ifs at hparsed ⊢ with hscalars
    · exact printing_of_ok hparsed _
    · exact printing_of_error hparsed _

end ClientLibrary

end NanoTwitter
