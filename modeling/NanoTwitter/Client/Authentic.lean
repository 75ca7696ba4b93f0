import Mathlib.Tactic
import NanoTwitter.Client.Sessions

/-!
# The client tweets for nobody whose password it was not given

`POST /api/v1/users/:user_name/new-tweet` asks for no password, so the application lets everybody
tweet for everybody. The client library does ask: it sends a new tweet for the user name of the last
login that was answered with a session. `session_authentic` says what that comes to over a whole
session, with other clients at work and calls and answers getting lost: everything that the calls of
a session write are tweets of users whose password was given in the session before.

The invariant `Sincere` joins the two sides. On the client's side the user of the session has a call
to vouch for it; on the application's side users stay and keep their names, so that the name still
means the user that the password was checked for.
-/

namespace NanoTwitter

/-! ### Plain names in addresses -/

theorem ne_of_plain {v : Text} (h : plain v = true) {d : Char}
    (hd : (d.isAlphanum || d = '-' || d = '_') = false) : ∀ c ∈ v, c ≠ d := by
  rintro c hc rfl
  have hplain := List.all_eq_true.1 h c hc
  rw [hd] at hplain
  exact Bool.false_ne_true hplain

/-- Plain names can be written into paths. -/
theorem carries_of_plain {v : Text} (h : plain v = true) (hne : v ≠ []) :
    Path.carries v = true := by
  have hclean : Path.clean v = true := by
    refine Path.clean_iff.2 ⟨hne, ne_of_plain h (by decide), ?_,
      Path.hasEscape_of_notMem fun hmem => ne_of_plain h (by decide) _ hmem rfl⟩
    rw [List.all_eq_true]
    intro c hc
    simp [ne_of_plain h (by decide : ('?'.isAlphanum || '?' = '-' || '?' = '_') = false) c hc,
      ne_of_plain h (by decide : ('#'.isAlphanum || '#' = '-' || '#' = '_') = false) c hc]
  have hdots : ∀ t : Text, '.' ∈ t → v ≠ t := by
    rintro t ht rfl
    exact ne_of_plain h (by decide) _ ht rfl
  rw [Path.carries, hclean, Bool.true_and]
  simp [Path.ordinary, hne, hdots]

/-- An address with plain names in it leads to the route that it was built for. -/
theorem routed_of_plain {r : Route} {p : List (Path.Seg PathVar)} (hp : p ∈ r.patterns)
    {f : PathVar → Text} (hf : ∀ x ∈ Path.vars p, plain (f x) = true ∧ f x ≠ [])
    (params : Params) :
    routed r.verb (Path.build f p) params =
      some ⟨r, Path.build f p, params.setAll (Path.values f p)⟩ :=
  routed_of_carries hp (fun x hx hmem => ne_of_plain (hf x hx).1 (by decide) _ hmem rfl)
    (fun x hx => carries_of_plain (hf x hx).1 (hf x hx).2) params

theorem plainUrl_of_plain {v : Text} (h : plain v = true) : plainUrl v = true := by
  rw [plainUrl, List.all_eq_true]
  intro c hc
  rw [List.all_eq_true.1 h c hc, Bool.true_or]

theorem plainUrl_append (v w : Text) : plainUrl (v ++ w) = (plainUrl v && plainUrl w) :=
  List.all_append

namespace ClientLibrary

open EStateM (Keeps)

/-! ### What calls write -/

/-- The call writes nothing, or a tweet of a user whose password one of the calls so far gave. -/
def Rightful (P : Platform) (a : Reached) (sofar : List Reached) : Prop :=
  written P a.env a.req ⟨a.found, Session.new⟩ = a.found ∨
    ∃ b ∈ sofar, ∃ u text, credentials P b.found.db b.req.params = some u ∧
      written P a.env a.req ⟨a.found, Session.new⟩ =
        (makeTweet P a.env.now text (some u.id) none).exec a.found

theorem verb_of_routed {verb : Verb} {path : Text} {params : Params} {req : Request}
    (h : routed verb path params = some req) : req.route.verb = verb := by
  obtain ⟨r, hr⟩ := routed_eq_some_iff.1 h
  obtain ⟨hverb, -, -, -, -, rfl⟩ := request_eq_some hr
  exact hverb

/-- Routes declared with `get` write nothing, but that `GET /` makes a tweet for a user whose name
and password it is given. -/
theorem written_of_isGet {P : Platform} (env : Env) {req : Request} (c : Ctx)
    (h : req.route.isGet = true) :
    written P env req c = c.world ∨
      ∃ u, credentials P c.world.db req.params = some u ∧ written P env req c =
        (makeTweet P env.now (some env.faker) (some u.id) none).exec c.world := by
  obtain ⟨route, path, params⟩ := req
  cases route with
  | getRoot =>
    simp only [written]
    cases hsigned : signedIn P env ⟨.getRoot, path, params⟩ c with
    | none => exact .inl rfl
    | some u =>
      simp only [signedIn] at hsigned
      split_ifs at hsigned
      dsimp only
      split_ifs
      · exact .inr ⟨u, hsigned, rfl⟩
      · exact .inl rfl
  | postLoginSubmit | postRegistrationSubmit | postUserFollow | postUserUnfollow
  | postTweetNewSubmit | postTweetLike | postTweetReply | postApiLogin | postApiNewTweet =>
    exact absurd h Bool.false_ne_true
  | _ => exact .inl rfl

/-- `POST /api/v1/users/:user_name/new-tweet` tweets for the user of the name. -/
theorem written_newTweet {P : Platform} (env : Env) {req : Request} {c : Ctx} {v : Row User}
    (hroute : req.route = .postApiNewTweet)
    (hv : User.findByUserName c.world.db req.params.userName = some v) :
    written P env req c =
      (makeTweet P env.now (textOf req.params.text) (some v.id) none).exec c.world := by
  simp only [written, hroute, hv]

theorem isGet_of_verb {r : Route} (h : r.verb = .get) : r.isGet = true := by
  by_contra hno
  rw [Route.verb, if_neg hno] at h
  exact absurd h (by decide)

/-- A call declared with `get` needs no other call to be rightful. -/
theorem rightful_of_get {P : Platform} {path : Text} {params : Params} {req : Request}
    (h : routed .get path params = some req) (env : Env) (w : World) (sofar : List Reached) :
    Rightful P ⟨env, req, w⟩ (⟨env, req, w⟩ :: sofar) := by
  have hget := isGet_of_verb (verb_of_routed h)
  rcases written_of_isGet (P := P) env ⟨w, Session.new⟩ hget with hsame | ⟨u, hu, htweet⟩
  · exact .inl hsame
  · exact .inr ⟨_, List.mem_cons_self, u, _, hu, htweet⟩

/-! ### The invariant -/

/-- The application is in order, with plain names and with the users that the calls found; the user
of the session has a call to vouch for it; and every call was rightful when it was made. -/
structure Sincere (P : Platform) (t : Terminal) : Prop where
  orderly : Orderly P t.site.world
  named : Named plain t.site.world.db
  stay : ∀ b ∈ t.calls, UsersStay b.found.db.users t.site.world.db.users
  user : ∀ n, t.user = some n → ∃ b ∈ t.calls, ∃ u,
    credentials P b.found.db b.req.params = some u ∧ u.attrs.userName = n
  rightful : ∀ a earlier, a :: earlier <:+ t.calls → Rightful P a (a :: earlier)

/-- The user of the session, in the stores. -/
theorem Sincere.exists_user {P : Platform} {t : Terminal} (h : Sincere P t) {n : Text}
    (hn : t.user = some n) {w : World} (hw : Orderly P w)
    (hstay : UsersStay t.site.world.db.users w.db.users) :
    ∃ b ∈ t.calls, ∃ u v, credentials P b.found.db b.req.params = some u ∧
      User.findByUserName w.db (some n) = some v ∧ v.id = u.id := by
  obtain ⟨b, hb, u, hu, rfl⟩ := h.user n hn
  obtain ⟨v, hv, hident⟩ := ((h.stay b hb).trans hstay) u.id u (credentials_mem hu)
  obtain ⟨hmem, hid⟩ := Table.mem_of_find hv
  refine ⟨b, hb, u, v, hu, ?_, hid⟩
  rw [← User.userName_of_ident hident]
  exact hw.wf.findByUserName_eq hmem

/-- What one relation keeps of another. -/
def Preserves (P : Platform) (t t' : Terminal) : Prop := Sincere P t → Sincere P t'

instance (P : Platform) : IsPreorder Terminal (Preserves P) where
  refl _ h := h
  trans _ _ _ h h' hs := h' (h hs)

/-- The invariant is about the user, the application and the calls. -/
theorem Sincere.congr {P : Platform} {t t' : Terminal} (h : Sincere P t) (huser : t'.user = t.user)
    (hsite : t'.site = t.site) (hcalls : t'.calls = t.calls) : Sincere P t' := by
  refine ⟨?_, ?_, ?_, ?_, ?_⟩
  · rw [hsite]
    exact h.orderly
  · rw [hsite]
    exact h.named
  · rw [hcalls, hsite]
    exact h.stay
  · rw [huser, hcalls]
    exact h.user
  · rw [hcalls]
    exact h.rightful

theorem preserves_of_talks {P : Platform} {t t' : Terminal} (h : Talks t t') : Preserves P t t' :=
  fun hsincere => hsincere.congr h.user h.site h.calls

/-- A call with a plain address reaches the route that the address was built for. -/
theorem request_of_plain {S : Surroundings} {n : ℕ} {url path : Text} {params params' : Params}
    {req : Request} {q : Route} {p : List (Path.Seg PathVar)} {f : PathVar → Text}
    (hurl : plainUrl url = true) (hp : p ∈ q.patterns)
    (hf : ∀ x ∈ Path.vars p, plain (f x) = true ∧ f x ≠ []) (hpath : url = Path.build f p)
    (hdeliver : S.deliver n q.verb url params = some (path, params'))
    (hreq : routed q.verb path params' = some req) :
    req = ⟨q, Path.build f p, params.setAll (Path.values f p)⟩ := by
  rcases S.deliver_plain n q.verb url params hurl with hnone | hsome
  · rw [hnone] at hdeliver
    exact absurd hdeliver (by simp)
  · obtain ⟨rfl, rfl⟩ := Prod.mk.inj (Option.some.inj (hsome.symm.trans hdeliver))
    subst hpath
    exact Option.some.inj (hreq.symm.trans (routed_of_plain hp hf params))

section Calls

variable {P : Platform} {S : Surroundings} {verb : Verb} {url : Text} {params : Params}
  {t t' : Terminal} {r : Reply}

variable (htraffic : ∀ n, ∀ e ∈ S.traffic n, e.req.asks P plain = true)
include htraffic

/-- What others do before a call. -/
theorem Sincere.atCall (h : Sincere P t) :
    Orderly P (Terminal.atCall P S t).world ∧ Named plain (Terminal.atCall P S t).world.db ∧
      UsersStay t.site.world.db.users (Terminal.atCall P S t).world.db.users :=
  ⟨(always_orderly h.orderly (S.traffic t.sent)).last,
    named_run h.orderly h.named (htraffic t.sent), usersStay_run h.orderly (S.traffic t.sent)⟩

/-- A call that is rightful and no registration keeps the invariant. -/
theorem Sincere.sends (h : Sincere P t) (hsends : Sends P S verb url params t r t')
    (hcall : ∀ path params' req,
      S.deliver t.sent verb (("/api/v1" : Text) ++ url) params = some (path, params') →
      routed verb path params' = some req → req.route ≠ .postRegistrationSubmit ∧
        Rightful P ⟨S.env t.sent, req, (Terminal.atCall P S t).world⟩
          (⟨S.env t.sent, req, (Terminal.atCall P S t).world⟩ :: t.calls)) :
    Sincere P t' := by
  obtain ⟨horderly, hnamed, hstay⟩ := h.atCall htraffic
  cases hsends with
  | lost =>
    exact ⟨horderly, hnamed, fun b hb => (h.stay b hb).trans hstay, h.user, h.rightful⟩
  | @reached path params' req _ hdeliver hreq hr =>
    obtain ⟨hroute, hrightful⟩ := hcall path params' req hdeliver hreq
    have hworld := world_answer (P := P) (S.env t.sent) req (Terminal.atCall P S t)
    have hlast : UsersStay (Terminal.atCall P S t).world.db.users
        (answer P (S.env t.sent) req (Terminal.atCall P S t)).2.world.db.users := by
      rw [hworld]
      exact usersStay_written (c := ⟨(Terminal.atCall P S t).world, Session.new⟩) _ req horderly
    refine ⟨?_, ?_, fun b hb => ?_, fun n hn => ?_, fun a earlier hsuffix => ?_⟩
    · rw [hworld]
      exact orderly_written (c := ⟨(Terminal.atCall P S t).world, Session.new⟩) _ req horderly
    · rw [hworld]
      exact named_written (c := ⟨(Terminal.atCall P S t).world, Session.new⟩) _ horderly hnamed
        (by simp [Request.asks, hroute])
    · rcases List.mem_cons.1 hb with rfl | hb
      · exact hlast
      · exact ((h.stay b hb).trans hstay).trans hlast
    · obtain ⟨b, hb, u, hu, hname⟩ := h.user n hn
      exact ⟨b, List.mem_cons_of_mem _ hb, u, hu, hname⟩
    · rcases List.suffix_cons_iff.1 hsuffix with heq | hsuffix
      · obtain ⟨rfl, rfl⟩ := List.cons.inj heq
        exact hrightful
      · exact h.rightful a earlier hsuffix

theorem preserves_get (url : Text) : Keeps (Preserves P) (send P S .get url {}) := by
  intro t h
  obtain ⟨r, t', hrun, hsends⟩ := send_cases P S .get url {} t
  rw [EStateM.exec_of_ok hrun]
  refine h.sends htraffic hsends fun path params' req _ hreq => ⟨?_, rightful_of_get hreq _ _ _⟩
  intro hroute
  have hget := isGet_of_verb (verb_of_routed hreq)
  rw [hroute] at hget
  exact absurd hget (by decide)

/-- A new tweet for the user of the session is a tweet of the user that vouched for it. -/
theorem preserves_post {user : Text} (huser : t.user = some user) (text : Text) :
    Preserves P t ((send P S .post (("/users/" : Text) ++ user ++ ("/new-tweet" : Text))
      { text := some text }).exec t) := by
  intro h
  obtain ⟨r, t', hrun, hsends⟩ := send_cases P S .post
    (("/users/" : Text) ++ user ++ ("/new-tweet" : Text)) { text := some text } t
  rw [EStateM.exec_of_ok hrun]
  refine h.sends htraffic hsends fun path params' req hdeliver hreq => ?_
  obtain ⟨horderly, hnamed, hstay⟩ := h.atCall htraffic
  obtain ⟨b, hb, u, v, hu, hv, hid⟩ := h.exists_user huser horderly hstay
  have hmem := (horderly.wf.findByUserName_iff.1 hv).1
  have hname : v.attrs.userName = user := (horderly.wf.findByUserName_iff.1 hv).2
  have hplain : plain user = true := hname ▸ hnamed v hmem
  -- the address arrives as it is, and leads to the route and the user
  have hurl : plainUrl (("/api/v1" : Text) ++
      (("/users/" : Text) ++ user ++ ("/new-tweet" : Text))) = true := by
    simp only [plainUrl_append, plainUrl_of_plain hplain, Bool.and_true]
    decide
  have hne : user ≠ [] := hname ▸ horderly.wf.userName_ne_nil hmem
  obtain rfl := request_of_plain (q := .postApiNewTweet) (f := fun _ => user) hurl
    List.mem_cons_self (fun _ _ => ⟨hplain, hne⟩) rfl hdeliver hreq
  refine ⟨by simp, .inr ⟨b, List.mem_cons_of_mem _ hb, u, some text, hu, ?_⟩⟩
  rw [← hid]
  exact written_newTweet (c := ⟨(Terminal.atCall P S t).world, Session.new⟩) _ rfl hv

/-! ### Logins -/

omit htraffic in
theorem parsed_of_code (scalars : Bool) (hr : r.1 ≠ 200) (out : List Text) :
    parsed scalars r out = .ok .null out := by
  rw [parsed, if_neg hr]
  rfl

omit htraffic in
/-- The answer to a login that was refused is nothing true. -/
theorem not_truthy_of_refused {env : Env} {path : Text} {site : Site}
    (h : credentials P site.world.db params = none) (scalars : Bool) {v : Json} {lines : List Text}
    (hv : parsed scalars (answer P env ⟨.postApiLogin, path, params⟩ site).1 [] = .ok v lines) :
    truthy v = false := by
  rcases login_of_none (c := ⟨site.world, Session.new⟩) h with ⟨res, hres, hlogin⟩ | ⟨e, hlogin⟩
  swap
  · -- a request that raises is answered with 500
    have hrun : handle P env ⟨.postApiLogin, path, params⟩ ⟨site.world, Session.new⟩ =
        .error e ⟨site.world, Session.new⟩ := EStateM.bind_of_error hlogin
    rw [answer, hrun] at hv
    obtain ⟨rfl, -⟩ := EStateM.Result.ok.inj hv
    rfl
  have hrun : handle P env ⟨.postApiLogin, path, params⟩ ⟨site.world, Session.new⟩ =
      .ok (.json (if res = .nil then Json.null.render else (Json.bool false).render))
        ⟨site.world, Session.new⟩ := by
    change (NanoTwitter.login P params >>= _) _ = _
    rw [EStateM.bind_of_ok hlogin]
    cases res with
    | session => exact absurd rfl hres
    | nil => rfl
    | false => rfl
  rw [answer, hrun] at hv
  cases res with
  | session => exact absurd rfl hres
  | nil =>
    obtain ⟨rfl, -⟩ := EStateM.Result.ok.inj hv
    rfl
  | false =>
    cases scalars with
    | false =>
      have hraise : parsed false (200, some (Json.bool false).render) [] =
          .error .parserError [] := rfl
      exact absurd (hraise.symm.trans hv) (by simp)
    | true =>
      obtain ⟨rfl, -⟩ := EStateM.Result.ok.inj hv
      rfl

omit htraffic in
/-- A login that comes to something true was made with the password of the user. -/
theorem vouches_of_truthy {userName password : Text} {v : Json} {lines : List Text}
    (hsends : Sends P S .post "/login"
      { userName := some userName, password := some password } t r t')
    (hv : parsed S.scalars r [] = .ok v lines) (htrue : truthy v = true) :
    ∃ b ∈ t'.calls, ∃ u, credentials P b.found.db b.req.params = some u ∧
      u.attrs.userName = userName := by
  have hcode : r.1 = 200 := by
    by_contra hcode
    rw [parsed_of_code S.scalars hcode] at hv
    obtain ⟨rfl, -⟩ := EStateM.Result.ok.inj hv
    exact absurd htrue (by decide)
  cases hsends with
  | lost hr => exact absurd hcode hr
  | @reached path params' req _ hdeliver hreq hr =>
    obtain rfl := request_of_plain (q := .postApiLogin) (f := fun _ => []) (by decide)
      List.mem_cons_self (fun x hx => absurd hx List.not_mem_nil) rfl hdeliver hreq
    refine ⟨_, List.mem_cons_self, ?_⟩
    rw [hr.resolve_right (not_not_intro hcode)] at hv
    dsimp only
    cases hcred : credentials P (Terminal.atCall P S t).world.db
        { userName := some userName, password := some password } with
    | none =>
      rw [not_truthy_of_refused hcred S.scalars hv] at htrue
      exact absurd htrue Bool.false_ne_true
    | some u =>
      refine ⟨u, hcred, ?_⟩
      have hfound : User.findByUserName (Terminal.atCall P S t).world.db (some userName) =
          some u := (Option.filter_eq_some_iff.1 hcred).1
      simpa using (Table.mem_of_findBy hfound).2

/-- A login keeps the invariant: if it sets the user of the session, the call vouches for it. -/
theorem preserves_login : Keeps (Preserves P) (login P S) := by
  have htalk : ∀ {α : Type} {p : Term α}, Keeps Talks p → Keeps (Preserves P) p :=
    fun hp t => preserves_of_talks (hp t)
  refine (htalk (talks_print _)).bind fun _ => (htalk talks_gets).bind fun userName => ?_
  refine (htalk (talks_print _)).bind fun _ => (htalk talks_gets).bind fun password t h => ?_
  obtain ⟨r, t', hrun, hsends⟩ := send_cases P S .post "/login"
    { userName := some userName, password := some password } t
  have hsincere : Sincere P t' := by
    refine h.sends htraffic hsends fun path params' req hdeliver hreq => ?_
    obtain rfl := request_of_plain (q := .postApiLogin) (f := fun _ => []) (by decide)
      List.mem_cons_self (fun x hx => absurd hx List.not_mem_nil) rfl hdeliver hreq
    exact ⟨by simp, .inl rfl⟩
  have hcall : postCall P S "/login" { userName := some userName, password := some password } t =
      printing (parsed S.scalars r) t' := EStateM.bind_of_ok hrun
  cases hparsed : parsed S.scalars r [] with
  | error e lines =>
    have hprint : printing (parsed S.scalars r) t' =
        .error (.raised e) { t' with out := t'.out ++ lines.map .line } := by
      rw [printing, hparsed]
    rw [EStateM.exec_of_error (EStateM.bind_of_error (hcall.trans hprint))]
    exact hsincere.congr rfl rfl rfl
  | ok v lines =>
    have hprint : printing (parsed S.scalars r) t' =
        .ok v { t' with out := t'.out ++ lines.map .line } := by
      rw [printing, hparsed]
    rw [EStateM.exec_bind_of_ok (hcall.trans hprint)]
    split_ifs with htrue
    · have hvouch := vouches_of_truthy hsends hparsed htrue
      exact ⟨hsincere.orderly, hsincere.named, hsincere.stay,
        fun n hn => Option.some.inj hn ▸ hvouch, hsincere.rightful⟩
    · exact hsincere.congr rfl rfl rfl

theorem allows_preserves : Allows P S (Preserves P) where
  talk := preserves_of_talks
  get := preserves_get htraffic
  post text huser := preserves_post htraffic huser text
  login := preserves_login htraffic

/-! ### Whole sessions -/

theorem sincere_iteration (h : Sincere P t) : Sincere P ((iteration P S).exec t) := by
  cases hstdin : t.stdin with
  | nil =>
    rw [EStateM.exec_of_error (iteration_of_nil hstdin)]
    exact h.congr rfl rfl rfl
  | cons l ls =>
    have hkeep := keeps_command (allows_preserves (P := P) htraffic) (Ruby.split l)[0]?
      (Terminal.typed t l ls)
    rw [EStateM.exec, ← iteration_eq hstdin] at hkeep
    exact hkeep (h.congr rfl rfl rfl)

theorem sincere_loop {n : ℕ} {e : Stop} (h : Sincere P t)
    (hloop : loop P S n t = some (.stopped e t')) : Sincere P t' := by
  induction n generalizing t with
  | zero => exact absurd hloop (by simp [loop])
  | succ n ih =>
    have hround := sincere_iteration htraffic h
    rw [loop] at hloop
    split_ifs at hloop
    · exact absurd hloop (by simp)
    · cases hrun : iteration P S t with
      | ok a t'' =>
        rw [hrun] at hloop
        rw [EStateM.exec_of_ok hrun] at hround
        exact ih hround hloop
      | error e' t'' =>
        rw [hrun] at hloop
        rw [EStateM.exec_of_error hrun] at hround
        obtain ⟨-, rfl⟩ := Ended.stopped.inj (Option.some.inj hloop)
        exact hround

end Calls

/-- **A session writes nothing but tweets of users whose password it was given.** The application is
in order and all user names are plain, also those that others register in the course of the session.
Then, whatever is typed, the session ends, and each of its calls that wrote anything made a tweet of
a user whose name or email and password came with this call or with an earlier one. -/
theorem session_authentic (P : Platform) (S : Surroundings)
    (htraffic : ∀ n, ∀ e ∈ S.traffic n, e.req.asks P plain = true) {site : Site}
    (hsite : Orderly P site.world) (hnamed : Named plain site.world.db) (stdin : List Text) :
    ∃ e t', loop P S (stdin.length + 1) (new site stdin) = some (.stopped e t') ∧
      ∀ later a earlier, t'.calls = later ++ a :: earlier → Rightful P a (a :: earlier) := by
  obtain ⟨e, t', hloop⟩ : ∃ e t', loop P S (stdin.length + 1) (new site stdin) =
      some (.stopped e t') := loop_stops (Nat.lt_succ_self _) (by simp [new])
  have hstart : Sincere P (new site stdin) :=
    ⟨hsite, hnamed, fun b hb => absurd hb List.not_mem_nil, fun n hn => absurd hn (by simp [new]),
      fun a earlier h => absurd (List.suffix_nil.1 h) (by simp)⟩
  refine ⟨e, t', hloop, fun later a earlier hcalls => ?_⟩
  exact (sincere_loop htraffic hstart hloop).rightful a earlier (hcalls ▸ List.suffix_append _ _)

/-- No other clients, and a network that loses nothing. -/
def undisturbed : Surroundings where
  inspect := Json.render
  scalars := true
  traffic _ := []
  env n := ⟨n, 0, false, []⟩
  deliver _ _ url params := some (url, params)
  answered _ := true
  deliver_plain _ _ _ _ _ := .inr rfl

/-- Somebody logs in as `ann`, tweets and leaves. -/
def annTyped : List Text := ["login", "ann", "secret", "tweet new", "hello", "exit"]

/-- The start of that session, after `ann` has registered. -/
def annStart : Terminal := new (Site.reached .ascii [.joins 1 1 "ann"]) annTyped

/-- Both calls of the session of `ann` are rightful. -/
theorem ann_session_authentic :
    ∃ e t', loop .ascii undisturbed 7 annStart = some (.stopped e t') ∧ t'.calls.length = 2 ∧
      ∀ later a earlier, t'.calls = later ++ a :: earlier → Rightful .ascii a (a :: earlier) := by
  have hnamed : Named plain (Site.reached .ascii [.joins 1 1 "ann"]).world.db := by
    unfold Named
    decide +kernel
  obtain ⟨e, t', hloop, hrightful⟩ := session_authentic .ascii undisturbed
    (fun n e he => absurd he List.not_mem_nil) (orderly_reached .ascii _) hnamed annTyped
  refine ⟨e, t', hloop, ?_, hrightful⟩
  have hcalls : (loop .ascii undisturbed 7 annStart).map (fun e => e.terminal.calls.length) =
      some 2 := by decide +kernel
  have hsome : some t'.calls.length = some 2 := by
    rw [← hcalls, show loop .ascii undisturbed 7 annStart = some (.stopped e t') from hloop]
    rfl
  exact Option.some.inj hsome

end ClientLibrary

end NanoTwitter
