import Mathlib.Tactic
import NanoTwitter.Client.Desk
import NanoTwitter.Web.Names
import NanoTwitter.Web.Routing

/-!
# What a session of the client library can do

`keeps_command` goes through the commands once, for any relation that the terminal and the calls
keep. What a session does as a whole follows from it, whatever is typed, whatever other clients do
in between and whichever calls get lost.

The loop is never left by its condition: a session ends with `exit` or an exception, and the line
after the loop is never printed (`session_never_returns`).
-/

namespace NanoTwitter

namespace ClientLibrary

open EStateM (Keeps)

/-! ### Talking to the terminal -/

/-- Only lines were read and printed. -/
structure Talks (t t' : Terminal) : Prop where
  input : t'.input = t.input
  user : t'.user = t.user
  site : t'.site = t.site
  calls : t'.calls = t.calls
  stdin : t'.stdin <:+ t.stdin

instance : IsPreorder Terminal Talks where
  refl _ := ⟨rfl, rfl, rfl, rfl, List.suffix_rfl⟩
  trans _ _ _ h h' := ⟨h'.input.trans h.input, h'.user.trans h.user, h'.site.trans h.site,
    h'.calls.trans h.calls, h'.stdin.trans h.stdin⟩

theorem talks_puts (line : Text) : Keeps Talks (puts line) :=
  fun _ => ⟨rfl, rfl, rfl, rfl, List.suffix_rfl⟩

theorem talks_print (text : Text) : Keeps Talks (print text) :=
  fun _ => ⟨rfl, rfl, rfl, rfl, List.suffix_rfl⟩

theorem talks_gets : Keeps Talks gets := by
  intro t
  unfold EStateM.exec gets
  rcases t with ⟨input, user, - | ⟨l, ls⟩, out, site, sent, calls⟩
  · exact refl_of Talks _
  · exact ⟨rfl, rfl, rfl, rfl, List.suffix_cons l ls⟩

theorem talks_printing {α : Type} (p : Client α) : Keeps Talks (printing p) := by
  intro t
  unfold EStateM.exec printing
  cases p [] <;> exact ⟨rfl, rfl, rfl, rfl, List.suffix_rfl⟩

theorem talks_error : Keeps Talks error :=
  EStateM.keeps_get.bind fun _ => (talks_puts _).bind fun _ => talks_puts _

theorem talks_printInfo (inspect : Json → Text) (data : Json) :
    Keeps Talks (printInfo inspect data) := by
  unfold printInfo
  split
  · exact EStateM.keeps_throw _
  · exact talks_printing _

theorem talks_printNames (inspect : Json → Text) (names : Json) :
    Keeps Talks (printNames inspect names) := by
  cases names with
  | null => exact talks_error
  | arr l => exact talks_printing _
  | obj l => exact talks_printing _
  | _ => exact EStateM.keeps_throw _

/-! ### Through all commands -/

section Commands

variable {P : Platform} {S : Surroundings} {R : Terminal → Terminal → Prop}
  [IsPreorder Terminal R]

/-- What a relation has to allow so that all commands stay within it. -/
structure Allows (P : Platform) (S : Surroundings) (R : Terminal → Terminal → Prop) : Prop where
  talk : ∀ {t t'}, Talks t t' → R t t'
  get : ∀ url, Keeps R (send P S .get url {})
  post : ∀ {t user} (text : Text), t.user = some user →
    R t ((send P S .post (("/users/" : Text) ++ user ++ ("/new-tweet" : Text))
      { text := some text }).exec t)
  login : Keeps R (login P S)

variable (h : Allows P S R)
include h

omit [IsPreorder Terminal R] in
theorem Allows.keeps {α : Type} {p : Term α} (hp : Keeps Talks p) : Keeps R p :=
  fun t => h.talk (hp t)

/-- After a talk the session is where it was, but for the terminal. -/
theorem Allows.exec_talk_bind {α β : Type} {p : Term α} (hp : Keeps Talks p) {f : α → Term β}
    {t : Terminal} (hf : ∀ a t', Talks t t' → R t' ((f a).exec t')) : R t ((p >>= f).exec t) := by
  have htalk := hp t
  cases hrun : p t with
  | ok a t' =>
    rw [EStateM.exec_of_ok hrun] at htalk
    rw [EStateM.exec_bind_of_ok hrun]
    exact trans_of R (h.talk htalk) (hf a t' htalk)
  | error e t' =>
    rw [EStateM.exec_of_error hrun] at htalk
    rw [EStateM.exec_of_error (EStateM.bind_of_error hrun)]
    exact h.talk htalk

theorem keeps_getCall (url : Text) : Keeps R (getCall P S url) :=
  (h.get url).bind fun _ => h.keeps (talks_printing _)

theorem keeps_showCall (url : Text) : Keeps R (showCall P S url) :=
  (keeps_getCall h url).bind fun _ => h.keeps (talks_printing _)

theorem keeps_feed : Keeps R (feed P S) := by
  refine EStateM.keeps_get.bind fun t => ?_
  have hshow : ∀ url, Keeps R (do let _ ← showCall P S url) := fun url =>
    (keeps_showCall h url).bind fun _ => EStateM.keeps_pure _
  dsimp only
  split_ifs
  · split
    · exact hshow _
    · exact hshow _
    · exact EStateM.keeps_pure _
  · exact hshow _
  · exact hshow _
  · exact h.keeps talks_error

theorem keeps_info : Keeps R (info P S) := by
  refine EStateM.keeps_get.bind fun t => ?_
  split
  · exact (keeps_getCall h _).bind fun _ => h.keeps (talks_printInfo _ _)
  · exact (keeps_getCall h _).bind fun _ => h.keeps (talks_printInfo _ _)
  · exact EStateM.keeps_pure _

theorem keeps_follows : Keeps R (follows P S) := by
  refine EStateM.keeps_get.bind fun t => ?_
  dsimp only
  split
  · exact (keeps_getCall h _).bind fun _ => h.keeps (talks_printNames _ _)
  · exact (keeps_getCall h _).bind fun _ => h.keeps (talks_printNames _ _)
  · exact h.keeps talks_error

theorem keeps_search : Keeps R (search P S) := by
  refine (h.keeps (talks_print _)).bind fun _ => (h.keeps talks_gets).bind fun text => ?_
  refine (keeps_showCall h _).bind fun shown => ?_
  split
  · exact h.keeps (talks_puts _)
  · exact EStateM.keeps_pure _

/-- A new tweet is sent for the user of the session. -/
theorem keeps_postTweet {t : Terminal} {user : Text} (huser : t.user = some user)
    (text : Text) :
    R t ((do
      let done ← postCall P S (("/users/" : Text) ++ user ++ ("/new-tweet" : Text))
        { text := some text }
      if truthy done then puts "tweet made succesfully" : Term Unit).exec t) := by
  refine trans_of R (h.post text huser) ?_
  unfold postCall
  rw [bind_assoc]
  refine Keeps.exec_bind (send P S .post _ _) (fun r => ?_) t
  refine (h.keeps (talks_printing _)).bind fun done => ?_
  split_ifs
  · exact h.keeps (talks_puts _)
  · exact EStateM.keeps_pure _

theorem keeps_tweet : Keeps R (tweet P S) := by
  intro t
  unfold tweet
  rw [EStateM.exec_bind_of_ok EStateM.get_ok]
  split_ifs with hnew
  · obtain ⟨user, huser⟩ := Option.isSome_iff_exists.1 hnew.2
    rw [huser, Option.getD_some]
    refine h.exec_talk_bind (talks_print _) fun _ t₁ ht₁ => ?_
    refine h.exec_talk_bind talks_gets fun text t₂ ht₂ => ?_
    exact keeps_postTweet h (by rw [ht₂.user, ht₁.user, huser]) _
  · exact ((keeps_showCall h _).bind fun _ => EStateM.keeps_pure _) t
  · exact h.keeps talks_error t

/-- **All commands stay within a relation that the terminal and the calls keep.** -/
theorem keeps_command (name : Option Text) : Keeps R (command P S name) := by
  unfold command
  split_ifs
  · exact h.login
  · exact EStateM.keeps_forM (fun line => h.keeps (talks_puts line)) help
  · exact keeps_feed h
  · exact keeps_search h
  · exact keeps_tweet h
  · exact keeps_info h
  · exact keeps_follows h
  · exact keeps_follows h
  · exact EStateM.keeps_throw _
  · exact h.keeps (talks_puts _)

end Commands

/-! ### Sending -/

section Sending

variable {P : Platform} {S : Surroundings} {verb : Verb} {url : Text} {params : Params}
  {t t' : Terminal} {r : Reply}

/-- The application when the next call of `t` may arrive. -/
def Terminal.atCall (P : Platform) (S : Surroundings) (t : Terminal) : Site :=
  Run.run (serve P) t.site (S.traffic t.sent)

/-- What sending comes to: no route was reached, or a route answered. An answer that got lost has a
status other than 200. -/
inductive Sends (P : Platform) (S : Surroundings) (verb : Verb) (url : Text) (params : Params)
    (t : Terminal) : Reply → Terminal → Prop
  | lost {r : Reply} (hr : r.1 ≠ 200) :
      Sends P S verb url params t r { t with site := Terminal.atCall P S t, sent := t.sent + 1 }
  | reached {path : Text} {params' : Params} {req : Request} {r : Reply}
      (hdeliver : S.deliver t.sent verb (("/api/v1" : Text) ++ url) params = some (path, params'))
      (hreq : routed verb path params' = some req)
      (hr : r = (answer P (S.env t.sent) req (Terminal.atCall P S t)).1 ∨ r.1 ≠ 200) :
      Sends P S verb url params t r
        { t with
          site := (answer P (S.env t.sent) req (Terminal.atCall P S t)).2
          sent := t.sent + 1
          calls := ⟨S.env t.sent, req, (Terminal.atCall P S t).world⟩ :: t.calls }

theorem send_cases (P : Platform) (S : Surroundings) (verb : Verb) (url : Text) (params : Params)
    (t : Terminal) :
    ∃ r t', send P S verb url params t = .ok r t' ∧ Sends P S verb url params t r t' := by
  cases hdeliver : S.deliver t.sent verb (("/api/v1" : Text) ++ url) params with
  | none => exact ⟨(0, none), _, by simp only [send, hdeliver]; rfl, .lost (by simp)⟩
  | some arrived =>
    obtain ⟨path, params'⟩ := arrived
    cases hreq : routed verb path params' with
    | none => exact ⟨(404, none), _, by simp only [send, hdeliver, hreq]; rfl, .lost (by simp)⟩
    | some req =>
      refine ⟨_, _, by simp only [send, hdeliver, hreq]; rfl, .reached hdeliver hreq ?_⟩
      split_ifs
      · exact .inl rfl
      · exact .inr (by simp)

/-- The stores after a call. -/
theorem world_answer (env : Env) (req : Request) (site : Site) :
    (answer P env req site).2.world = written P env req ⟨site.world, Session.new⟩ := by
  have houtcome := (handle_outcome P env req ⟨site.world, Session.new⟩).1
  unfold answer
  cases hrun : handle P env req ⟨site.world, Session.new⟩ with
  | ok resp c => rwa [EStateM.exec_of_ok hrun] at houtcome
  | error e c => rwa [EStateM.exec_of_error hrun] at houtcome

end Sending

/-! ### How a session ends -/

section Ends

variable {P : Platform} {S : Surroundings} {t t' : Terminal}

/-- The same words, and no line but those that were still to be typed. -/
def Proceeds (t t' : Terminal) : Prop := t'.input = t.input ∧ t'.stdin <:+ t.stdin

instance : IsPreorder Terminal Proceeds where
  refl _ := ⟨rfl, List.suffix_rfl⟩
  trans _ _ _ h h' := ⟨h'.1.trans h.1, h'.2.trans h.2⟩

theorem proceeds_send (verb : Verb) (url : Text) (params : Params) :
    Keeps Proceeds (send P S verb url params) := by
  intro t
  obtain ⟨r, t', hrun, hsends⟩ := send_cases P S verb url params t
  rw [EStateM.exec_of_ok hrun]
  cases hsends with
  | lost => exact ⟨rfl, List.suffix_rfl⟩
  | reached => exact ⟨rfl, List.suffix_rfl⟩

theorem proceeds_of_talks (h : Talks t t') : Proceeds t t' := ⟨h.input, h.stdin⟩

theorem proceeds_login : Keeps Proceeds (login P S) := by
  have htalk : ∀ {α : Type} {p : Term α}, Keeps Talks p → Keeps Proceeds p :=
    fun hp t => proceeds_of_talks (hp t)
  refine (htalk (talks_print _)).bind fun _ => (htalk talks_gets).bind fun userName => ?_
  refine (htalk (talks_print _)).bind fun _ => (htalk talks_gets).bind fun password => ?_
  refine ((proceeds_send _ _ _).bind fun r => htalk (talks_printing _)).bind fun done => ?_
  split_ifs
  · exact (htalk (talks_puts _)).bind fun _ t => ⟨rfl, List.suffix_rfl⟩
  · exact htalk (talks_puts _)

theorem allows_proceeds (P : Platform) (S : Surroundings) : Allows P S Proceeds where
  talk := proceeds_of_talks
  get url := proceeds_send .get url {}
  post _ _ := proceeds_send .post _ _ _
  login := proceeds_login

/-- A session that has read a line. -/
def Terminal.typed (t : Terminal) (l : Text) (ls : List Text) : Terminal :=
  { t with
    out := t.out ++ [.text (Desk.prompt t.user)]
    stdin := ls
    input := .words (Ruby.split l) }

/-- A round reads a line, splits it and runs the command that its first word names. -/
theorem iteration_eq {l : Text} {ls : List Text} (h : t.stdin = l :: ls) :
    iteration P S t = command P S (Ruby.split l)[0]? (Terminal.typed t l ls) := by
  obtain ⟨input, user, stdin, out, site, sent, calls⟩ := t
  cases h
  cases user <;> rfl

/-- Without a line there is nothing to `chomp`. -/
theorem iteration_of_nil (h : t.stdin = []) :
    iteration P S t = .error (.raised .noMethodError)
      { t with out := t.out ++ [.text (Desk.prompt t.user)] } := by
  obtain ⟨input, user, stdin, out, site, sent, calls⟩ := t
  cases h
  cases user <;> rfl

/-- **A round that returns has used up a line, and leaves words behind.** -/
theorem iteration_proceeds (h : iteration P S t = .ok () t') :
    t'.stdin.length < t.stdin.length ∧ ∃ ws, t'.input = .words ws := by
  cases hstdin : t.stdin with
  | nil =>
    rw [iteration_of_nil hstdin] at h
    cases h
  | cons l ls =>
    rw [iteration_eq hstdin] at h
    have hkeep := keeps_command (allows_proceeds P S) (Ruby.split l)[0]? (Terminal.typed t l ls)
    rw [EStateM.exec_of_ok h] at hkeep
    exact ⟨Nat.lt_succ_of_le hkeep.2.length_le, _, hkeep.1⟩

/-- With more rounds than lines the loop stops. -/
theorem loop_stops {n : ℕ} (hn : t.stdin.length < n) (hinput : t.input ≠ .line "exit") :
    ∃ s t', loop P S n t = some (.stopped s t') := by
  induction n generalizing t with
  | zero => omega
  | succ n ih =>
    rw [loop, if_neg hinput]
    cases hround : iteration P S t with
    | error s t' => exact ⟨s, t', rfl⟩
    | ok _ t' =>
      obtain ⟨hlt, ws, hws⟩ := iteration_proceeds hround
      exact ih (by omega) (by rw [hws]; simp)

/-- Rounds that are not needed make no difference. -/
theorem loop_add {n : ℕ} {e : Ended} (h : loop P S n t = some e) (k : ℕ) :
    loop P S (n + k) t = some e := by
  induction n generalizing t with
  | zero => exact absurd h (by simp [loop])
  | succ n ih =>
    rw [Nat.succ_add_eq_add_succ, Nat.add_succ]
    rw [loop] at h ⊢
    split_ifs at h ⊢ with hinput
    · exact h
    · cases hround : iteration P S t with
      | error s t' => rwa [hround] at h
      | ok _ t' =>
        rw [hround] at h
        exact ih h

/-- **The condition of the loop never ends a session.** As soon as a command was read, `@input` is a
list of words and no text, so that the loop goes on until `exit` or an exception: a session stops,
at the latest when there are no more lines, and it never comes to the line after the loop. -/
theorem session_never_returns (P : Platform) (S : Surroundings) (site : Site)
    (stdin : List Text) :
    ∃ s t', (∀ n, stdin.length < n → loop P S n (new site stdin) = some (.stopped s t')) ∧
      ∀ n t'', loop P S n (new site stdin) ≠ some (.returned t'') := by
  obtain ⟨s, t', hloop⟩ : ∃ s t', loop P S (stdin.length + 1) (new site stdin) =
      some (.stopped s t') := loop_stops (Nat.lt_succ_self _) (by simp [new])
  refine ⟨s, t', fun n hn => ?_, fun n t'' hreturned => ?_⟩
  · obtain ⟨k, rfl⟩ := Nat.exists_eq_add_of_lt hn
    rw [Nat.add_right_comm]
    exact loop_add hloop k
  · -- both outcomes are those of a run that is long enough for either
    have h := loop_add hreturned (stdin.length + 1)
    rw [Nat.add_comm, loop_add hloop n] at h
    exact absurd h (by simp)

end Ends

end ClientLibrary

end NanoTwitter
