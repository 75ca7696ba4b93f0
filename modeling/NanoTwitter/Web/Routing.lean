import Mathlib.Tactic
import NanoTwitter.Model.Routes

/-!
# Which route answers

The patterns of the routes of one method are pairwise apart, so that at most one route matches a
path: the order in which `app.rb` and `api.rb` come to define their routes does not matter
(`dispatch_eq_routed`), and a path that was built from the pattern of a route leads back to the
route and to the value it was built from, exactly when the value is clean and no dots
(`routed_build_iff`).
-/

namespace NanoTwitter

open Path (Seg)

/-! ### The table -/

/-- The patterns are well formed and left alone by `cleanup`, those of one method pairwise apart. -/
def tableOk (rs : List Route) : Bool :=
  rs.all fun r => r.patterns.all fun p => (Path.wellFormed p && Path.upright p) && rs.all fun r' =>
    r'.patterns.all fun q => r.verb ≠ r'.verb || (r = r' ∧ p = q) || Path.apart p q

theorem mem_routes (r : Route) : r ∈ apiRoutes ++ appRoutes := by
  cases r <;> decide

theorem tableOk_routes : tableOk (apiRoutes ++ appRoutes) = true := by decide +kernel

theorem pattern_ok {r : Route} {p : List (Seg PathVar)} (hp : p ∈ r.patterns) :
    Path.wellFormed p = true ∧ Path.upright p = true := by
  have h := List.all_eq_true.1 (List.all_eq_true.1 tableOk_routes r (mem_routes r)) p hp
  exact Bool.and_eq_true_iff.1 (Bool.and_eq_true_iff.1 h).1

/-- Two patterns of one method that match one path are the same, and so are their routes. -/
theorem eq_of_read {r r' : Route} (hverb : r.verb = r'.verb) {p q : List (Seg PathVar)}
    (hp : p ∈ r.patterns) (hq : q ∈ r'.patterns) {path : Text} (h : (Path.read p path).isSome)
    (h' : (Path.read q path).isSome) : r = r' ∧ p = q := by
  have hrow := List.all_eq_true.1 (List.all_eq_true.1 tableOk_routes r (mem_routes r)) p hp
  have hpair := List.all_eq_true.1 (List.all_eq_true.1 (Bool.and_eq_true_iff.1 hrow).2 r'
    (mem_routes r')) q hq
  rw [Path.not_apart (pattern_ok hp).1 (pattern_ok hq).1 h h', Bool.or_false] at hpair
  simpa [hverb] using hpair

/-- A route that matches, with the pattern and the values. -/
theorem request_eq_some {r : Route} {verb : Verb} {path : Text} {params : Params} {req : Request}
    (h : r.request verb path params = some req) :
    r.verb = verb ∧ ∃ p ∈ r.patterns, ∃ values, Path.read p path = some values ∧
      req = ⟨r, path, params.setAll values⟩ := by
  unfold Route.request at h
  split_ifs at h with hverb
  obtain ⟨values, hvalues, rfl⟩ := Option.map_eq_some_iff.1 h
  obtain ⟨p, hp, hread⟩ := List.exists_of_findSome?_eq_some hvalues
  exact ⟨hverb, p, hp, values, hread, rfl⟩

theorem request_of_read {r : Route} {p : List (Seg PathVar)} (hp : p ∈ r.patterns) {path : Text}
    {values : List (PathVar × Text)} (h : Path.read p path = some values) (params : Params) :
    r.request r.verb path params = some ⟨r, path, params.setAll values⟩ := by
  have hfind : (r.patterns.findSome? fun q => Path.read q path) = some values := by
    cases hf : r.patterns.findSome? fun q => Path.read q path with
    | none => exact absurd (List.findSome?_eq_none_iff.1 hf p hp) (by simp [h])
    | some v =>
      obtain ⟨q, hq, hread⟩ := List.exists_of_findSome?_eq_some hf
      obtain ⟨-, rfl⟩ := eq_of_read rfl hp hq (by rw [h]; rfl) (by rw [hread]; rfl)
      rw [← hread, h]
  rw [Route.request, if_pos rfl, hfind]
  rfl

/-- **At most one route matches.** -/
theorem eq_of_request {r r' : Route} {verb : Verb} {path : Text} {params : Params}
    {req req' : Request} (h : r.request verb path params = some req)
    (h' : r'.request verb path params = some req') : r = r' := by
  obtain ⟨hverb, p, hp, values, hread, -⟩ := request_eq_some h
  obtain ⟨hverb', q, hq, values', hread', -⟩ := request_eq_some h'
  exact (eq_of_read (hverb.trans hverb'.symm) hp hq (by rw [hread]; rfl) (by rw [hread']; rfl)).1

theorem dispatch_eq_some_iff {rs : List Route} (hrs : ∀ r, r ∈ rs) {verb : Verb} {path : Text}
    {params : Params} {req : Request} :
    dispatch rs verb path params = some req ↔
      ∃ r : Route, r.request verb (Path.cleanup path) params = some req := by
  constructor
  · intro h
    obtain ⟨r, -, hr⟩ := List.exists_of_findSome?_eq_some h
    exact ⟨r, hr⟩
  · rintro ⟨r, hr⟩
    unfold dispatch
    cases hf : rs.findSome? fun r => r.request verb (Path.cleanup path) params with
    | none => exact absurd (List.findSome?_eq_none_iff.1 hf r (hrs r)) (by simp [hr])
    | some req' =>
      obtain ⟨r', -, hr'⟩ := List.exists_of_findSome?_eq_some hf
      obtain rfl := eq_of_request hr hr'
      rw [← hr, ← hr']

theorem routed_eq_some_iff {verb : Verb} {path : Text} {params : Params} {req : Request} :
    routed verb path params = some req ↔
      ∃ r : Route, r.request verb (Path.cleanup path) params = some req :=
  dispatch_eq_some_iff mem_routes

/-- **The order of the routes does not matter.** In whatever order all routes are defined, a request
is answered by the same route with the same parameters. -/
theorem dispatch_eq_routed {rs : List Route} (hrs : ∀ r, r ∈ rs) (verb : Verb) (path : Text)
    (params : Params) : dispatch rs verb path params = routed verb path params := by
  refine Option.ext fun req => ?_
  rw [dispatch_eq_some_iff hrs, routed_eq_some_iff]

/-- A program that loads `api.rb` first defines the routes of `app.rb` first. -/
theorem api_loaded_first :
    dispatch (appRoutes ++ apiRoutes) .get "/user/follow" {} =
        some ⟨.getUser, "/user/follow", { userName := some "follow" }⟩ ∧
      ∀ verb path params,
        dispatch (appRoutes ++ apiRoutes) verb path params = routed verb path params :=
  ⟨rfl, fun verb path params =>
    dispatch_eq_routed (fun r => by cases r <;> decide) verb path params⟩

/-! ### Paths that lead back -/

theorem ParamList.push_injective {l : ParamList} {v v' : Param} (h : l.push v = l.push v') :
    v = v' := by
  fun_induction ParamList.push v l with
  | case1 => exact (ParamList.cons.inj h).1
  | case2 l ih => exact ih (ParamList.absent.inj h)
  | case3 w l ih => exact ih (ParamList.cons.inj h).2

theorem capture_injective {p : Option Param} {v v' : Text} (h : capture v p = capture v' p) :
    v = v' := by
  unfold capture at h
  cases p with
  | none => simpa using h
  | some p =>
    cases p with
    | arr l => exact Param.str.inj (ParamList.push_injective (Param.arr.inj (Option.some.inj h)))
    | str s => simpa using h
    | hash s => simpa using h

theorem Params.set_injective {params : Params} {x : PathVar} {v v' : Text}
    (h : params.set x v = params.set x v') : v = v' := by
  cases x <;> exact capture_injective (by simpa [Params.set] using h)

/-- A pattern with a variable has no other, and is the only pattern of its route. -/
theorem patterns_of_vars {r : Route} {p : List (Seg PathVar)} (hp : p ∈ r.patterns)
    (hvars : Path.vars p ≠ []) : r.patterns = [p] ∧ ∃ x, Path.vars p = [x] := by
  have htable : ∀ r ∈ apiRoutes ++ appRoutes, ∀ p ∈ r.patterns, Path.vars p = [] ∨
      r.patterns = [p] ∧ (Path.vars p).length = 1 := by decide +kernel
  rcases htable r (mem_routes r) p hp with h | ⟨h, hlen⟩
  · exact absurd h hvars
  · exact ⟨h, List.length_eq_one_iff.1 hlen⟩

/-- A path that was built from such values leads back to its route. -/
theorem routed_of_carries {r : Route} {p : List (Seg PathVar)} (hp : p ∈ r.patterns)
    {f : PathVar → Text} (hline : ∀ x ∈ Path.vars p, '\n' ∉ f x)
    (hf : ∀ x ∈ Path.vars p, Path.carries (f x) = true) (params : Params) :
    routed r.verb (Path.build f p) params =
      some ⟨r, Path.build f p, params.setAll (Path.values f p)⟩ := by
  obtain ⟨hwell, hup⟩ := pattern_ok hp
  have hread := (Path.read_cleanup_iff hwell hup hline).2 hf
  rw [Path.cleanup_build hwell hup hline hf] at hread
  refine routed_eq_some_iff.2 ⟨r, ?_⟩
  rw [Path.cleanup_build hwell hup hline hf]
  exact request_of_read hp hread params

/-- **A path that was built for a route leads back to it exactly when its value is clean and no
dots.** -/
theorem routed_build_iff {r : Route} {p : List (Seg PathVar)} (hp : p ∈ r.patterns)
    {f : PathVar → Text} (hline : ∀ x ∈ Path.vars p, '\n' ∉ f x) (params : Params) :
    (∃ path, routed r.verb (Path.build f p) params =
        some ⟨r, path, params.setAll (Path.values f p)⟩) ↔
      ∀ x ∈ Path.vars p, Path.carries (f x) = true := by
  refine ⟨fun ⟨path, h⟩ => ?_, fun h => ⟨_, routed_of_carries hp hline h params⟩⟩
  by_cases hvars : Path.vars p = []
  · exact fun x hx => absurd (hvars ▸ hx) List.not_mem_nil
  · rw [← Path.read_cleanup_iff (pattern_ok hp).1 (pattern_ok hp).2 hline]
    obtain ⟨hsingle, x, hx⟩ := patterns_of_vars hp hvars
    obtain ⟨r', hr'⟩ := routed_eq_some_iff.1 h
    obtain ⟨-, q, hq, values, hread, heq⟩ := request_eq_some hr'
    obtain ⟨rfl, -, hparams⟩ := Request.mk.inj heq
    obtain rfl : q = p := by simpa [hsingle] using hq
    -- the only variable of the pattern has the value it was built from
    obtain ⟨⟨x', v⟩, rfl, rfl⟩ := List.map_eq_singleton_iff.1
      ((Path.map_fst_read hread).trans hx)
    rw [Path.values_eq, hx] at hparams ⊢
    have hv := Params.set_injective (show params.set x' (f x') = params.set x' v from hparams)
    rw [hread, ← hv]
    rfl

/-- The path of the profile of `ann` leads to it; no path leads to a profile of `a/b` or to one
of `..`. -/
theorem ann_led_back :
    (∃ path, routed .get "/user/ann" {} =
        some ⟨.getUser, path, { userName := some "ann" }⟩) ∧
      (∀ path, routed .get "/user/a/b" {} ≠
        some ⟨.getUser, path, { userName := some "a/b" }⟩) ∧
      ∀ path, routed .get "/user/.." {} ≠ some ⟨.getUser, path, { userName := some ".." }⟩ := by
  have hp : [Seg.lit ("user" : Text), .var PathVar.userName] ∈ Route.getUser.patterns :=
    List.mem_cons_self
  exact ⟨(routed_build_iff hp (f := fun _ => "ann") (by decide +kernel) {}).2 (by decide +kernel),
    fun path h => absurd ((routed_build_iff hp (f := fun _ => "a/b") (by decide +kernel) {}).1
      ⟨path, h⟩) (by decide +kernel),
    fun path h => absurd ((routed_build_iff hp (f := fun _ => "..") (by decide +kernel) {}).1
      ⟨path, h⟩) (by decide +kernel)⟩

end NanoTwitter
