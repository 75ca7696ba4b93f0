import Mathlib.Tactic
import NanoTwitter.Client.Calls

/-!
# The client does what it is for

A session of `client_library.rb` (words, addresses, routes, JSON) and a session at the desk (names,
the stores themselves) run side by side. `At` relates their states: the same user, lines, output and
application, with the stores in order. One lemma for each command says that the command of the
client meets the command at the desk, and `session_refines` says the same of whole sessions,
whatever is typed and whatever other clients do: a session of the client ends as the session at the
desk does, with the same output and the same stores, unless it comes to a name or text that does not
arrive as it is.
-/

namespace NanoTwitter

open EStateM (Meets)

namespace ClientLibrary

variable {P : Platform} {S : Surroundings} {t : Terminal} {d : Desk} {i : Input}

/-- What somebody at the terminal has in front of them. -/
def Terminal.desk (t : Terminal) : Desk := ⟨t.user, t.stdin, t.out, t.site, t.sent⟩

/-- The session `t` stands at the desk `d`, with `i` in `@input` and the stores in order. -/
structure At (P : Platform) (i : Input) (t : Terminal) (d : Desk) : Prop where
  desk : Terminal.desk t = d
  input : t.input = i
  orderly : Orderly P t.site.world

/-! ### Printing and reading -/

/-- Code that has printed `l`. -/
theorem meets_say (h : At P i t d) {p : Term Unit} {l : List Printed}
    (hp : p t = .ok () { t with out := t.out ++ l }) :
    Meets (At P i) Eq (p t) (Desk.say l d) := by
  obtain ⟨rfl, rfl, hw⟩ := h
  rw [hp]
  exact .ok rfl ⟨rfl, rfl, hw⟩

theorem meets_puts (h : At P i t d) (l : Text) :
    Meets (At P i) Eq (puts l t) (Desk.sayLines [l] d) := meets_say h rfl

theorem meets_print (h : At P i t d) (l : Text) :
    Meets (At P i) Eq (print l t) (Desk.say [.text l] d) := meets_say h rfl

theorem meets_gets (h : At P i t d) : Meets (At P i) Eq (gets t) (Desk.ask d) := by
  obtain ⟨rfl, rfl, hw⟩ := h
  unfold gets Desk.ask
  rw [show (Terminal.desk t).stdin = t.stdin from rfl]
  cases t.stdin with
  | nil => exact .error ⟨rfl, rfl, hw⟩
  | cons l ls => exact .ok rfl ⟨rfl, rfl, hw⟩

theorem forM_puts (l : List Text) (t : Terminal) :
    l.forM puts t = .ok () { t with out := t.out ++ l.map .line } := by
  induction l generalizing t with
  | nil =>
    rw [List.map_nil, List.append_nil]
    rfl
  | cons a l ih =>
    show (puts a >>= fun _ => l.forM puts) t = _
    rw [EStateM.bind_of_ok (show puts a t = .ok () _ from rfl), ih, List.append_assoc]
    rfl

theorem error_eq (t : Terminal) :
    ClientLibrary.error t = .ok () { t with
      out := t.out ++ (Desk.errorLines ((t.input.get? 0).getD [])).map .line } := by
  unfold ClientLibrary.error
  rw [EStateM.bind_of_ok EStateM.get_ok]
  exact congrArg (fun out => EStateM.Result.ok () { t with out := out })
    (List.append_assoc t.out [_] [_])

/-! ### Calls -/

/-- The stores are in order when the next call arrives. -/
theorem At.atCall (h : At P i t d) : Orderly P (Terminal.atCall P S t).world :=
  (always_orderly h.orderly _).last

/-- After a call that only reads, both have seen the same requests of other clients. -/
theorem At.read (h : At P i t d) (req : Request) :
    Desk.arrive P S d = .ok (Terminal.atCall P S t).world (Terminal.desk
        (Terminal.afterRead P S t req)) ∧
      At P i (Terminal.afterRead P S t req) (Terminal.desk (Terminal.afterRead P S t req)) := by
  have hw := h.atCall (S := S)
  obtain ⟨rfl, rfl, -⟩ := h
  exact ⟨rfl, rfl, rfl, hw⟩

/-- The value of `print_tweets` tells whether tweets were shown. -/
def Listed (v : Json) (b : Bool) : Prop := v = .null ↔ b = false

/-- Tweets are shown as they are. -/
theorem meets_list (hS : S.Faithful) (h : At P i t d) (call : ApiCall) :
    Meets (At P i) Listed (showCall P S (urlOf call) t) (Desk.list P S call d) := by
  unfold Desk.list
  by_cases hcall : call.word.all Desk.addressable = true
  · obtain ⟨req, hget⟩ := getCall_tweets (P := P) hS hcall h.atCall
    obtain ⟨harrive, hat⟩ := h.read (S := S) req
    obtain ⟨value, hprint, hnull⟩ := printTweets_received S.inspect
      (Terminal.atCall P S t).world.db (Desk.cached (Terminal.atCall P S t).world) call
    rw [if_pos hcall, EStateM.bind_of_ok harrive]
    have hshow : showCall P S (urlOf call) t = printing (printTweets S.inspect _)
        (Terminal.afterRead P S t req) := EStateM.bind_of_ok hget
    rw [hshow, printing, hprint]
    dsimp only
    cases hhad : call.had (Terminal.atCall P S t).world.db
        (Desk.cached (Terminal.atCall P S t).world) with
    | none =>
      rw [hhad] at hnull
      exact .ok (iff_of_true (hnull.2 rfl) rfl) ⟨rfl, hat.input, hat.orderly⟩
    | some l =>
      rw [hhad] at hnull
      refine .ok (hnull.trans ?_) ⟨rfl, hat.input, hat.orderly⟩
      rw [Option.all_some, Bool.not_eq_false']
  · rw [if_neg hcall]
    exact .unsaid

/-- An account is shown as it is; for anybody else `print_info` raises. -/
theorem meets_showInfo (hS : S.Faithful) (h : At P i t d) (n : Text) :
    Meets (At P i) Eq ((getCall P S (("/users/" : Text) ++ n) >>= printInfo S.inspect) t)
      (Desk.showInfo P S n d) := by
  unfold Desk.showInfo
  by_cases hn : Desk.addressable n = true
  · obtain ⟨req, hget⟩ := getCall_user (P := P) hS hn
    obtain ⟨harrive, hat⟩ := h.read (S := S) req
    rw [if_pos hn, EStateM.bind_of_ok hget, EStateM.bind_of_ok harrive]
    cases User.findByUserName (Terminal.atCall P S t).world.db (some n) with
    | none => exact .error hat
    | some u =>
      refine meets_say hat ?_
      show printInfo S.inspect (userJson u) _ = _
      rw [userJson_eq]
      rfl
  · rw [if_neg hn]
    exact .unsaid

theorem printNames_texts (inspect : Json → Text) (names : List Text) (t : Terminal) :
    printNames inspect (textsJson names) t =
      .ok () { t with out := t.out ++ names.map .line } := by
  have hputs : ∀ (name : Text) out, putsValue inspect (.str name) out = .ok () (out ++ [name]) :=
    fun _ _ => rfl
  have hprint : (names.map Json.str).forM (putsValue inspect) [] = .ok () names := by
    rw [forM_prints hputs, List.nil_append, List.flatMap_singleton']
  show printing ((names.map Json.str).forM (putsValue inspect)) t = _
  rw [printing, hprint]

/-- The names at the other ends of follows are shown as they are. -/
theorem meets_showFollows (hS : S.Faithful) {followers : Bool} {words : List Text}
    (hword : words[0]? = some (Desk.kindOf followers)) (h : At P (.words words) t d) (n : Text) :
    Meets (At P (.words words)) Eq
      ((getCall P S (("/follows/" : Text) ++ n ++ ("/" : Text) ++ Desk.kindOf followers) >>=
        printNames S.inspect) t) (Desk.showFollows P S followers n d) := by
  unfold Desk.showFollows
  by_cases hn : Desk.addressable n = true
  · obtain ⟨req, hget⟩ := getCall_follows (P := P) hS hn h.atCall followers
    obtain ⟨harrive, hat⟩ := h.read (S := S) req
    rw [if_pos hn, EStateM.bind_of_ok hget, EStateM.bind_of_ok harrive]
    cases User.findByUserName (Terminal.atCall P S t).world.db (some n) with
    | none =>
      refine meets_say hat ((error_eq _).trans ?_)
      rw [hat.input, Input.get?, hword]
      rfl
    | some u =>
      exact meets_say hat (printNames_texts S.inspect _ _)
  · rw [if_neg hn]
    exact .unsaid

/-! ### Commands -/

section Commands

variable {words : List Text}

/-- Tweets are shown, and nothing is made of what `print_tweets` returns. -/
theorem meets_showing (hS : S.Faithful) (h : At P i t d) (call : ApiCall) :
    Meets (At P i) Eq ((showCall P S (urlOf call) >>= fun _ => pure ()) t)
      ((Desk.list P S call >>= fun _ => pure ()) d) :=
  (meets_list hS h call).bind fun _ _ _ _ _ h => .ok rfl h

/-- The complaint about a command. -/
theorem meets_error (h : At P (.words words) t d) :
    Meets (At P (.words words)) Eq (ClientLibrary.error t)
      (Desk.sayLines (Desk.errorLines (words[0]?.getD [])) d) := by
  refine meets_say h ((error_eq t).trans ?_)
  rw [h.input]
  rfl

theorem meets_feed (hS : S.Faithful) (h : At P (.words words) t d) :
    Meets (At P (.words words)) Eq (feed P S t) (Desk.feed P S words d) := by
  have huser : d.user = t.user := by rw [← h.desk]; rfl
  unfold feed Desk.feed
  rw [EStateM.bind_of_ok EStateM.get_ok, EStateM.bind_of_ok EStateM.get_ok, h.input, huser]
  refine .ite (fun _ => ?_) fun _ => .ite (fun _ => ?_) fun _ => .ite (fun _ => ?_) fun _ => ?_
  · simp only [Input.get?]
    cases words[2]? with
    | some n => exact meets_showing hS h (.profileFeed n)
    | none =>
      cases t.user with
      | some u => exact meets_showing hS h (.profileFeed u)
      | none => exact .ok rfl h
  · exact meets_showing hS h (.homeFeed (t.user.getD []))
  · exact meets_showing hS h .frontFeed
  · exact meets_error h

theorem meets_info (hS : S.Faithful) (h : At P (.words words) t d) :
    Meets (At P (.words words)) Eq (info P S t) (Desk.info P S words d) := by
  have huser : d.user = t.user := by rw [← h.desk]; rfl
  unfold info Desk.info
  rw [EStateM.bind_of_ok EStateM.get_ok, EStateM.bind_of_ok EStateM.get_ok, h.input, huser]
  simp only [Input.get?]
  cases words[1]? with
  | some n => exact meets_showInfo hS h n
  | none =>
    cases t.user with
    | some u => exact meets_showInfo hS h u
    | none => exact .ok rfl h

theorem meets_follows (hS : S.Faithful) (followers : Bool)
    (hword : words[0]? = some (Desk.kindOf followers)) (h : At P (.words words) t d) :
    Meets (At P (.words words)) Eq (follows P S t) (Desk.follows P S followers words d) := by
  have huser : d.user = t.user := by rw [← h.desk]; rfl
  unfold follows Desk.follows
  rw [EStateM.bind_of_ok EStateM.get_ok, EStateM.bind_of_ok EStateM.get_ok, h.input, huser]
  simp only [Input.get?, hword, Option.getD_some]
  cases words[1]? with
  | some n => exact meets_showFollows hS hword h n
  | none =>
    cases t.user with
    | some u => exact meets_showFollows hS hword h u
    | none =>
      have herror := meets_error h
      rw [hword] at herror
      exact herror

/-- A tweet is made in the name of the user, and said to be made. -/
theorem meets_tweetNew (hS : S.Faithful) (h : At P i t d) (n : Text) :
    Meets (At P i) Eq
      ((do
        print "tweet text: "
        let text ← gets
        let done ← postCall P S (("/users/" : Text) ++ n ++ ("/new-tweet" : Text))
          { text := some text }
        if truthy done then puts "tweet made succesfully" : Term Unit) t)
      (Desk.tweetNew P S n d) := by
  refine (meets_print h _).bind fun _ _ t d _ h => ?_
  refine (meets_gets h).bind fun text _ t d htext h => ?_
  subst htext
  by_cases hn : Desk.addressable n = true
  · obtain ⟨req, hcall⟩ := postCall_newTweet (P := P) (t := t) hS hn text
    obtain ⟨harrive, hat⟩ := h.read (S := S) req
    have hsent : d.sent = t.sent := by rw [← h.desk]; rfl
    rw [if_pos hn, EStateM.bind_of_ok EStateM.get_ok, EStateM.bind_of_ok harrive, hsent]
    cases hu : User.findByUserName (Terminal.atCall P S t).world.db (some n) with
    | none =>
      rw [hu] at hcall
      rw [EStateM.bind_of_ok hcall]
      exact .ok rfl hat
    | some u =>
      rw [hu] at hcall
      have horderly : Orderly P ((makeTweet P (S.env t.sent).now (some text) (some u.id) none).exec
          (Terminal.atCall P S t).world) :=
        orderly_step h.atCall (.makeTweet (S.env t.sent).now (some text) (some u.id) none)
      have hmade : At P i (Terminal.after P S t req
          ((makeTweet P (S.env t.sent).now (some text) (some u.id) none).exec
            (Terminal.atCall P S t).world)) (Terminal.desk (Terminal.after P S t req
          ((makeTweet P (S.env t.sent).now (some text) (some u.id) none).exec
            (Terminal.atCall P S t).world))) := ⟨rfl, hat.input, horderly⟩
      rw [show (some u).elim _ _ = made S.scalars _ from rfl, made] at hcall
      dsimp only
      rw [EStateM.bind_of_ok (show (modify _ : Desk.Shell Unit) _ = .ok () _ from rfl)]
      split_ifs at hcall ⊢ with hscalars
      · rw [EStateM.bind_of_ok hcall]
        exact meets_puts hmade _
      · rw [EStateM.bind_of_error hcall]
        exact .error hmade
  · rw [if_neg hn]
    exact .unsaid

theorem meets_tweet (hS : S.Faithful) (h : At P (.words words) t d) :
    Meets (At P (.words words)) Eq (tweet P S t) (Desk.tweet P S words d) := by
  have huser : d.user = t.user := by rw [← h.desk]; rfl
  unfold tweet Desk.tweet
  rw [EStateM.bind_of_ok EStateM.get_ok, EStateM.bind_of_ok EStateM.get_ok, h.input, huser]
  refine .ite (fun _ => ?_) fun _ => .ite (fun _ => ?_) fun _ => ?_
  · exact meets_tweetNew hS h _
  · exact meets_showing hS h (.tweet (words[1]?.getD []))
  · exact meets_error h

theorem meets_search (hS : S.Faithful) (h : At P i t d) :
    Meets (At P i) Eq (search P S t) (Desk.search P S d) := by
  refine (meets_print h _).bind fun _ _ t d _ h => ?_
  refine (meets_gets h).bind fun text _ t d htext h => ?_
  subst htext
  refine (meets_list hS h (.search text)).bind fun v b t d hlisted h => ?_
  cases b with
  | false =>
    obtain rfl := hlisted.2 rfl
    exact meets_puts h _
  | true =>
    have hsome : v ≠ .null := fun hv => Bool.noConfusion (hlisted.1 hv)
    cases v with
    | null => exact absurd rfl hsome
    | bool | num | str | arr | obj => exact .ok rfl h

theorem meets_login (hS : S.Faithful) (h : At P i t d) :
    Meets (At P i) Eq (login P S t) (Desk.login P S d) := by
  refine (meets_print h _).bind fun _ _ t d _ h => ?_
  refine (meets_gets h).bind fun userName _ t d hname h => ?_
  refine (meets_print h _).bind fun _ _ t d _ h => ?_
  refine (meets_gets h).bind fun password _ t d hpassword h => ?_
  subst hname hpassword
  obtain ⟨v, req, hcall, htruthy⟩ := postCall_login (P := P) (t := t) hS userName password
  obtain ⟨harrive, hat⟩ := h.read (S := S) req
  rw [EStateM.bind_of_ok hcall, EStateM.bind_of_ok harrive]
  cases hcred : credentials P (Terminal.atCall P S t).world.db
      { userName := some userName, password := some password } with
  | none =>
    rw [hcred] at htruthy
    rw [if_neg (by rw [htruthy]; decide)]
    exact meets_puts hat _
  | some u =>
    rw [hcred] at htruthy
    rw [if_pos (by rw [htruthy]; rfl)]
    refine (meets_puts hat _).bind fun _ _ t d _ h => ?_
    obtain ⟨rfl, rfl, hw⟩ := h
    exact .ok rfl ⟨rfl, rfl, hw⟩

/-- Every command of the client meets the command at the desk. -/
theorem meets_command (hS : S.Faithful) (h : At P (.words words) t d) :
    Meets (At P (.words words)) Eq (command P S words[0]? t) (Desk.command P S words d) := by
  unfold command Desk.command
  refine .ite (fun _ => meets_login hS h) fun _ => .ite (fun _ => ?_) fun _ =>
    .ite (fun _ => meets_feed hS h) fun _ => .ite (fun _ => meets_search hS h) fun _ =>
    .ite (fun _ => meets_tweet hS h) fun _ => .ite (fun _ => meets_info hS h) fun _ =>
    .ite (fun hword => ?_) fun _ => .ite (fun hword => ?_) fun _ =>
    .ite (fun _ => .error h) fun _ => meets_puts h _
  · exact meets_say h (forM_puts help t)
  · exact meets_follows hS true hword h
  · exact meets_follows hS false hword h

end Commands

/-! ### Whole sessions -/

/-- How a session of the client ends is how the session at the desk ends, where anything is said
about that. -/
inductive Agrees : Option Ended → Option (Option Stop × Desk) → Prop
  | running : Agrees none none
  | stopped (s : Stop) (t : Terminal) :
      Agrees (some (.stopped s t)) (some (some s, Terminal.desk t))
  | unsaid (e : Option Ended) (d : Desk) : Agrees e (some (none, d))

theorem meets_round (hS : S.Faithful) (h : Orderly P t.site.world) :
    ∃ i, Meets (At P i) Eq (iteration P S t) (Desk.round P S (Terminal.desk t)) := by
  cases hstdin : t.stdin with
  | nil =>
    refine ⟨t.input, ?_⟩
    have hround : Desk.round P S (Terminal.desk t) = .error (some (.raised .noMethodError))
        (Terminal.desk { t with out := t.out ++ [.text (Desk.prompt t.user)] }) := by
      obtain ⟨input, user, stdin, out, site, sent, calls⟩ := t
      cases hstdin
      rfl
    rw [iteration_of_nil hstdin, hround]
    exact .error ⟨rfl, rfl, h⟩
  | cons l ls =>
    refine ⟨.words (Ruby.split l), ?_⟩
    rw [iteration_eq hstdin]
    have hround : Desk.round P S (Terminal.desk t) =
        Desk.command P S (Ruby.split l) (Terminal.desk (Terminal.typed t l ls)) := by
      obtain ⟨input, user, stdin, out, site, sent, calls⟩ := t
      cases hstdin
      rfl
    rw [hround]
    exact meets_command hS ⟨rfl, rfl, h⟩

theorem session_agrees (hS : S.Faithful) {n : ℕ} (h : Orderly P t.site.world)
    (hinput : t.input ≠ .line "exit") :
    Agrees (loop P S n t) (Desk.session P S n (Terminal.desk t)) := by
  induction n generalizing t with
  | zero => exact .running
  | succ n ih =>
    obtain ⟨i, hmeets⟩ := meets_round (S := S) hS h
    rw [loop, if_neg hinput, Desk.session]
    generalize hround : iteration P S t = r, Desk.round P S (Terminal.desk t) = r' at hmeets ⊢
    cases hmeets with
    | ok hV hat =>
      obtain ⟨-, ws, hws⟩ := iteration_proceeds hround
      dsimp only
      rw [← hat.desk]
      exact ih hat.orderly (by rw [hws]; simp)
    | error hat =>
      dsimp only
      rw [← hat.desk]
      exact .stopped _ _
    | unsaid => exact .unsaid _ _

/-- **The client does what it is for.** Every call arrives and is answered, and the application is
in order. Then a session ends as the session at the desk does: after the same lines, with the same
output, for the same reason, and with the same stores, whatever is typed and whatever other clients
do in between, as long as the names and texts that stand in addresses are plain. -/
theorem session_refines (P : Platform) {S : Surroundings} (hS : S.Faithful) {site : Site}
    (hsite : Orderly P site.world) (stdin : List Text) (n : ℕ) :
    Agrees (loop P S n (new site stdin)) (Desk.session P S n (Desk.start site stdin)) :=
  session_agrees hS hsite (by simp [new])

theorem faithful_undisturbed : undisturbed.Faithful :=
  ⟨fun _ _ _ _ h => Option.some_ne_none _ h, fun _ => rfl⟩

/-- The session of `ann` ends with `exit`, after the tweet was said to be made. -/
theorem ann_session_refines :
    ∃ t', loop .ascii undisturbed 7 annStart = some (.stopped .exit t') ∧
      t'.user = some ("ann" : Text) ∧ Printed.line "tweet made succesfully" ∈ t'.out := by
  have hagrees := session_refines .ascii faithful_undisturbed
    (orderly_reached .ascii [.joins 1 1 "ann"]) annTyped 7
  have hdesk : (Desk.session .ascii undisturbed 7
      (Desk.start (Site.reached .ascii [.joins 1 1 "ann"]) annTyped)).map (fun r =>
        (r.1, r.2.user, decide (Printed.line "tweet made succesfully" ∈ r.2.out))) =
      some (some .exit, some ("ann" : Text), true) := by decide +kernel
  obtain ⟨⟨s, d⟩, hsession, hresult⟩ := Option.map_eq_some_iff.1 hdesk
  obtain ⟨rfl, hrest⟩ := Prod.mk.inj hresult
  obtain ⟨huser, hout⟩ := Prod.mk.inj hrest
  rw [hsession] at hagrees
  generalize hloop : loop .ascii undisturbed 7 (new (Site.reached .ascii [.joins 1 1 "ann"])
    annTyped) = e at hagrees
  cases hagrees with
  | stopped _ t => exact ⟨t, hloop, huser, of_decide_eq_true hout⟩

end ClientLibrary

end NanoTwitter
