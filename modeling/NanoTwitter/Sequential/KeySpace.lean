import Mathlib.Tactic
import NanoTwitter.Lib.Run
import NanoTwitter.Model.Cache

/-!
# The Redis key space

Runs of all cache and access functions of `RedisClass`, in any order, on whatever database there is
at the time, with any texts as tag names and reply targets.

`RedisOp.slots` lists the key families and parameters that an operation stands for. `UsesOnly` says
that the keys of these slots are all it uses: what it returns and writes depends on them only, and
it writes under them only. Since two slots never share a key, operations on different slots do not
see each other (`answer_of_disjoint`), and a key is never used both as a list and as a set
(`returns_of_tidy`). `key_space_separated` puts this together for runs.
-/

namespace NanoTwitter

open EStateM (Agree Keeps Alike)

/-- A call of a cache or access function of `RedisClass`. -/
inductive RedisOp
  | cacheTweet (tweet : Entry) (userId : ℕ)
  | accessPfeed (uId : ℕ)
  | accessHfeed (uId : ℕ)
  | accessFfeed
  | cacheReply (reply : Entry) (tweetId : Text)
  | accessReplies (tweetId : Text)
  | cacheMentions (ids : List ℕ) (tweet : Entry) (userId : ℕ)
  | cacheTags (tags : List Text) (tweet : Entry)
  | accessTag (name : Text)
  | cacheLikes (uId : Option ℕ) (tId : ℕ)
  | likedBefore (uId : Option ℕ) (tId : ℕ)

/-- What a call returns. -/
inductive Answer
  | done
  | texts (l : List Text)
  | values (l : List Json)
  | flag (b : Bool)

namespace RedisOp

/-- The code of a call. -/
def code : RedisOp → Prog Answer
  | .cacheTweet tweet userId => do NanoTwitter.cacheTweet tweet userId; return .done
  | .accessPfeed uId => do return .texts (← NanoTwitter.accessPfeed uId)
  | .accessHfeed uId => do return .texts (← NanoTwitter.accessHfeed uId)
  | .accessFfeed => do return .texts (← NanoTwitter.accessFfeed)
  | .cacheReply reply tweetId => do NanoTwitter.cacheReply reply tweetId; return .done
  | .accessReplies tweetId => do return .values (← NanoTwitter.accessReplies tweetId)
  | .cacheMentions ids tweet userId => do
      NanoTwitter.cacheMentions ids tweet userId; return .done
  | .cacheTags tags tweet => do NanoTwitter.cacheTags tags tweet; return .done
  | .accessTag name => do return .texts (← NanoTwitter.accessTag name)
  | .cacheLikes uId tId => do NanoTwitter.cacheLikes uId tId; return .done
  | .likedBefore uId tId => do return .flag (← NanoTwitter.likedBefore uId tId)

/-- The families, with their parameters, that a call belongs to. -/
def slots (db : Db) : RedisOp → List Slot
  | .cacheTweet _ userId => .ffeed :: .pfeed userId :: (Follow.followersOf db userId).map .hfeed
  | .accessPfeed uId => [.pfeed uId]
  | .accessHfeed uId => [.hfeed uId]
  | .accessFfeed => [.ffeed]
  | .cacheReply _ tweetId => [.replies tweetId]
  | .accessReplies tweetId => [.replies tweetId]
  | .cacheMentions ids _ userId => (removeFollowers ids (Follow.followersOf db userId)).map .hfeed
  | .cacheTags tags _ => tags.map .tag
  | .accessTag name => [.tag name]
  | .cacheLikes _ tId => [.likes tId]
  | .likedBefore _ tId => [.likes tId]

/-- What a call returns on a database and a Redis content; nothing if it raises. -/
def answer (op : RedisOp) (db : Db) (r : Store Text Text) : Option Answer := op.code.value? ⟨db, r⟩

end RedisOp

/-- Run a call on the database `e.1`. -/
def redisStep (w : World) (e : Db × RedisOp) : World := e.2.code.exec ⟨e.1, w.redis⟩

/-! ### Footprints -/

/-- Two worlds with the database `db` agree under the keys of `S`. -/
def AlikeOn (db : Db) (S : List Slot) (w w' : World) : Prop :=
  w.db = db ∧ w'.db = db ∧ Store.SameOn (fun k => ∃ s ∈ S, s.key = k) w.redis w'.redis

/-- From the database `db` on, nothing but the values under the keys of `S` has changed. -/
def ChangedOn (db : Db) (S : List Slot) (w w' : World) : Prop :=
  w.db = db → w'.db = db ∧ Store.SameOn (fun k => ∀ s ∈ S, s.key ≠ k) w.redis w'.redis

instance (db : Db) (S : List Slot) : IsPreorder World (ChangedOn db S) where
  refl _ h := ⟨h, fun _ _ => rfl⟩
  trans _ _ _ h h' hdb := by
    obtain ⟨hdb', hsame⟩ := h hdb
    obtain ⟨hdb'', hsame'⟩ := h' hdb'
    exact ⟨hdb'', fun k hk => (hsame k hk).trans (hsame' k hk)⟩

/-- On the database `db`, the keys of `S` are all that `p` uses. -/
structure UsesOnly {α : Type} (db : Db) (S : List Slot) (p : Prog α) : Prop where
  reads : Agree (AlikeOn db S) Eq p p
  writes : Keeps (ChangedOn db S) p

section UsesOnly

variable {α β : Type} {db : Db} {S : List Slot}

theorem UsesOnly.bind {p : Prog α} {f : α → Prog β} (hp : UsesOnly db S p)
    (hf : ∀ a, UsesOnly db S (f a)) : UsesOnly db S (p >>= f) where
  reads := hp.reads.bind fun a b hab => by rw [hab]; exact (hf b).reads
  writes := hp.writes.bind fun a => (hf a).writes

theorem usesOnly_pure (a : α) : UsesOnly db S (pure a : Prog α) :=
  ⟨EStateM.agree_pure rfl, EStateM.keeps_pure a⟩

theorem usesOnly_orRaise (e : Error) (o : Option α) : UsesOnly db S (orRaise e o : Prog α) := by
  cases o with
  | none => exact ⟨EStateM.agree_throw e, EStateM.keeps_throw e⟩
  | some a => exact usesOnly_pure a

theorem usesOnly_forM {p : α → Prog Unit} {l : List α} (h : ∀ a ∈ l, UsesOnly db S (p a)) :
    UsesOnly db S (l.forM p) := by
  induction l with
  | nil => exact usesOnly_pure ()
  | cons a l ih =>
    exact (h a List.mem_cons_self).bind fun _ => ih fun b hb => h b (List.mem_cons_of_mem a hb)

theorem usesOnly_mapM {p : α → Prog β} (h : ∀ a, UsesOnly db S (p a)) (l : List α) :
    UsesOnly db S (l.mapM p) :=
  ⟨EStateM.agree_mapM (fun a => (h a).reads) l, EStateM.keeps_mapM (fun a => (h a).writes) l⟩

/-- Code that looks something up in the database first. -/
theorem usesOnly_getDb {f : Db → Prog α} (h : UsesOnly db S (f db)) :
    UsesOnly db S (get >>= fun w : World => f w.db) where
  reads := by
    rintro w w' ⟨hdb, hdb', hsame⟩
    rw [EStateM.bind_of_ok EStateM.get_ok,
      EStateM.bind_of_ok EStateM.get_ok, hdb, hdb']
    exact h.reads w w' ⟨hdb, hdb', hsame⟩
  writes := by
    intro w hdb
    rw [EStateM.exec_bind_of_ok EStateM.get_ok, hdb]
    exact h.writes w hdb

theorem usesOnly_command {s : Slot} (hs : s ∈ S) {c : Store Text Text → Option (Store Text Text)}
    (hc : Store.TouchesOnly s.key c) : UsesOnly db S (command c) where
  reads := by
    rintro w w' ⟨hdb, hdb', hsame⟩
    have hrel := hc.sameOn (K := fun k => ∃ s ∈ S, s.key = k) ⟨s, hs, rfl⟩ hsame
    unfold command
    generalize c w.redis = x, c w'.redis = y at hrel
    cases hrel with
    | none => exact .error ⟨hdb, hdb', hsame⟩
    | some h => exact .ok rfl ⟨hdb, hdb', h⟩
  writes := by
    intro w hdb
    cases hrun : c w.redis with
    | none =>
      have : command c w = .error .commandError w := by unfold command; rw [hrun]
      rw [EStateM.exec_of_error this]
      exact ⟨hdb, fun _ _ => rfl⟩
    | some r =>
      rw [EStateM.exec_of_ok (command_of_some hrun)]
      exact ⟨hdb, fun k hk => (hc.get_of_ne hrun (Ne.symm (hk s hs))).symm⟩

theorem usesOnly_query {s : Slot} (hs : s ∈ S) {c : Store Text Text → Option α}
    (hc : ∀ r r' : Store Text Text, r.get s.key = r'.get s.key → c r = c r') :
    UsesOnly db S (query c) where
  reads := by
    rintro w w' ⟨hdb, hdb', hsame⟩
    have hread : c w.redis = c w'.redis := hc _ _ (hsame s.key ⟨s, hs, rfl⟩)
    unfold query
    rw [hread]
    cases c w'.redis with
    | none => exact .error ⟨hdb, hdb', hsame⟩
    | some a => exact .ok rfl ⟨hdb, hdb', hsame⟩
  writes := (reads_query c).keeps

theorem usesOnly_lrange {s : Slot} (hs : s ∈ S) : UsesOnly db S (lrange s.key) :=
  usesOnly_query hs fun r r' h => by rw [Store.lrange, Store.lrange, Store.list?, Store.list?, h]

theorem usesOnly_sismember {s : Slot} (hs : s ∈ S) (v : Text) :
    UsesOnly db S (sismember s.key v) :=
  usesOnly_query hs fun r r' h => by
    rw [Store.sismember, Store.sismember, Store.set?, Store.set?, h]

theorem usesOnly_lpush {s : Slot} (hs : s ∈ S) (v : Text) : UsesOnly db S (lpush s.key v) :=
  usesOnly_command hs (Store.touchesOnly_lpush s.key v)

theorem usesOnly_cacheFfeed (hs : Slot.ffeed ∈ S) (e : Entry) : UsesOnly db S (cacheFfeed e) := by
  refine (usesOnly_lrange hs).bind fun l => ?_
  split_ifs
  · exact (usesOnly_command hs (Store.touchesOnly_rpop _)).bind fun _ => usesOnly_lpush hs _
  · exact usesOnly_lpush hs _

/-- A loop of pushes. -/
theorem usesOnly_pushes (s : α → Slot) {l : List α} (h : ∀ a ∈ l, s a ∈ S) (v : Text) :
    UsesOnly db S (l.forM fun a => lpush (s a).key v) :=
  usesOnly_forM fun a ha => usesOnly_lpush (h a ha) v

end UsesOnly

/-- **A call uses the keys of its slots only.** -/
theorem usesOnly_code (db : Db) (op : RedisOp) : UsesOnly db (op.slots db) op.code := by
  cases op with
  | cacheTweet tweet userId =>
    refine UsesOnly.bind ?_ fun _ => usesOnly_pure _
    refine (usesOnly_cacheFfeed List.mem_cons_self tweet).bind fun _ => ?_
    refine (usesOnly_lpush (List.mem_cons_of_mem _ List.mem_cons_self) _).bind fun _ => ?_
    refine usesOnly_getDb (f := fun db => (Follow.followersOf db userId).forM fun follower =>
      lpush (Slot.hfeed follower).key tweet.toJson) (usesOnly_pushes Slot.hfeed (fun u hu => ?_) _)
    exact List.mem_cons_of_mem _ (List.mem_cons_of_mem _ (List.mem_map_of_mem hu))
  | accessPfeed uId =>
    exact (usesOnly_lrange List.mem_cons_self).bind fun _ => usesOnly_pure _
  | accessHfeed uId =>
    exact (usesOnly_lrange List.mem_cons_self).bind fun _ => usesOnly_pure _
  | accessFfeed => exact (usesOnly_lrange List.mem_cons_self).bind fun _ => usesOnly_pure _
  | cacheReply reply tweetId =>
    exact (usesOnly_command List.mem_cons_self (Store.touchesOnly_rpush _ _)).bind fun _ =>
      usesOnly_pure _
  | accessReplies tweetId =>
    refine UsesOnly.bind ?_ fun _ => usesOnly_pure _
    exact (usesOnly_lrange List.mem_cons_self).bind fun l =>
      usesOnly_mapM (fun v => usesOnly_orRaise _ _) l
  | cacheMentions ids tweet userId =>
    refine UsesOnly.bind ?_ fun _ => usesOnly_pure _
    exact usesOnly_getDb (f := fun db => (removeFollowers ids
      (Follow.followersOf db userId)).forM fun id => lpush (Slot.hfeed id).key tweet.toJson)
      (usesOnly_pushes Slot.hfeed (fun u hu => List.mem_map_of_mem hu) _)
  | cacheTags tags tweet =>
    refine UsesOnly.bind ?_ fun _ => usesOnly_pure _
    exact usesOnly_pushes Slot.tag (fun t ht => List.mem_map_of_mem ht) _
  | accessTag name => exact (usesOnly_lrange List.mem_cons_self).bind fun _ => usesOnly_pure _
  | cacheLikes uId tId =>
    exact (usesOnly_command List.mem_cons_self (Store.touchesOnly_sadd _ _)).bind fun _ =>
      usesOnly_pure _
  | likedBefore uId tId =>
    refine UsesOnly.bind (usesOnly_sismember List.mem_cons_self _) fun _ => usesOnly_pure _

/-- **A call does not change what a call on other slots returns.** -/
theorem answer_of_disjoint {w : World} {e : Db × RedisOp} {db : Db} {op : RedisOp}
    (h : ∀ s ∈ op.slots db, s ∉ e.2.slots e.1) :
    op.answer db (redisStep w e).redis = op.answer db w.redis := by
  have hwrites := ((usesOnly_code e.1 e.2).writes ⟨e.1, w.redis⟩ rfl).2
  refine ((usesOnly_code db op).reads _ _ ⟨rfl, rfl, ?_⟩).value?
  rintro k ⟨s, hs, rfl⟩
  exact (hwrites s.key fun s' hs' => Slot.key_ne fun heq => h s hs (heq ▸ hs')).symm

/-! ### Lists and sets -/

/-- Well typed, and every entry of every feed is the JSON text of a tweet. -/
structure Tidy (r : Store Text Text) : Prop where
  wellTyped : WellTyped r
  entries : (view r).Holds fun v => ∃ e : Entry, v = e.toJson

theorem tidy_empty : Tidy Store.empty := ⟨wellTyped_empty, fun _ _ h => absurd h List.not_mem_nil⟩

/-- The texts of tweets can be parsed. -/
theorem mapM_parse {l : List Text} (h : ∀ v ∈ l, ∃ e : Entry, v = e.toJson) (w : World) :
    ∃ vs, (l.mapM fun v => (orRaise .parserError (Json.parse v) : Prog Json)) w = .ok vs w := by
  induction l with
  | nil => exact ⟨[], rfl⟩
  | cons v l ih =>
    obtain ⟨e, rfl⟩ := h v List.mem_cons_self
    obtain ⟨vs, hvs⟩ := ih fun x hx => h x (List.mem_cons_of_mem _ hx)
    have hparse : Json.parse e.toJson = some e.json := Json.parse_render e.json
    refine ⟨e.json :: vs, ?_⟩
    rw [List.mapM_cons, EStateM.bind_of_ok (orRaise_ok _ hparse), EStateM.bind_of_ok hvs]
    rfl

/-- A refined function returns and keeps the content tidy if it pushes texts of tweets. -/
theorem tidy_of_refines {p : Prog Unit} {f : Db → Cache → Cache} (hp : Refines p f) (db : Db)
    {r : Store Text Text} (h : Tidy r)
    (hf : ∀ c : Cache, c.Holds (fun v => ∃ e : Entry, v = e.toJson) →
      (f db c).Holds fun v => ∃ e : Entry, v = e.toJson) (a : Answer) :
    ∃ r', (p >>= fun _ => pure a) ⟨db, r⟩ = .ok a ⟨db, r'⟩ ∧ Tidy r' := by
  obtain ⟨r', hrun, ht, hv⟩ := hp ⟨db, r⟩ h.wellTyped
  refine ⟨r', EStateM.bind_of_ok hrun, ht, ?_⟩
  rw [hv]
  exact hf _ h.entries

theorem tidy_of_read {α : Type} {p : Prog α} {db : Db} {r : Store Text Text} (h : Tidy r)
    (hp : ∃ a, p ⟨db, r⟩ = .ok a ⟨db, r⟩) (f : α → Answer) :
    ∃ a r', (p >>= fun x => pure (f x)) ⟨db, r⟩ = .ok a ⟨db, r'⟩ ∧ Tidy r' := by
  obtain ⟨x, hx⟩ := hp
  exact ⟨f x, r, EStateM.bind_of_ok hx, h⟩

/-- **On a tidy content every call returns, and leaves a tidy content.** -/
theorem returns_of_tidy {r : Store Text Text} (h : Tidy r) (db : Db) (op : RedisOp) :
    ∃ a r', op.code ⟨db, r⟩ = .ok a ⟨db, r'⟩ ∧ Tidy r' := by
  have hread : ∀ s : Slot, s.isFeed = true →
      ∃ l, lrange s.key ⟨db, r⟩ = .ok l ⟨db, r⟩ := fun s hs => ⟨_, lrange_eq h.wellTyped hs⟩
  cases op with
  | cacheTweet tweet userId =>
    exact ⟨.done, tidy_of_refines (refines_cacheTweet tweet userId) db h
      (fun c hc => hc.cacheTweet ⟨tweet, rfl⟩ _ _) _⟩
  | accessPfeed uId => exact tidy_of_read h (hread (.pfeed uId) rfl) _
  | accessHfeed uId => exact tidy_of_read h (hread (.hfeed uId) rfl) _
  | accessFfeed => exact tidy_of_read h (hread .ffeed rfl) _
  | cacheReply reply tweetId =>
    exact ⟨.done, tidy_of_refines (refines_cacheReply reply tweetId) db h
      (fun c hc => hc.append ⟨reply, rfl⟩ _) _⟩
  | accessReplies tweetId =>
    refine tidy_of_read h ?_ _
    obtain ⟨vs, hvs⟩ := mapM_parse (h.entries (.replies tweetId)) ⟨db, r⟩
    exact ⟨vs, (EStateM.bind_of_ok (lrange_eq h.wellTyped rfl)).trans hvs⟩
  | cacheMentions ids tweet userId =>
    exact ⟨.done, tidy_of_refines (refines_cacheMentions ids tweet userId) db h
      (fun c hc => hc.pushAll ⟨tweet, rfl⟩ _) _⟩
  | cacheTags tags tweet =>
    exact ⟨.done, tidy_of_refines (refines_cacheTags tags tweet) db h
      (fun c hc => hc.pushAll ⟨tweet, rfl⟩ _) _⟩
  | accessTag name => exact tidy_of_read h (hread (.tag name) rfl) _
  | cacheLikes uId tId =>
    exact ⟨.done, tidy_of_refines (refines_cacheLikes uId tId) db h (fun c hc => hc) _⟩
  | likedBefore uId tId => exact tidy_of_read h ⟨_, likedBefore_eq h.wellTyped uId tId⟩ _

theorem tidy_step {w : World} (h : Tidy w.redis) (e : Db × RedisOp) :
    Tidy (redisStep w e).redis := by
  obtain ⟨a, r', hrun, ht⟩ := returns_of_tidy h e.1 e.2
  rw [redisStep, EStateM.exec_of_ok hrun]
  exact ht

/-! ### Runs -/

/-- **The key space never collides.** Two slots have different keys; and in every run from an empty
cache on, every call uses the keys of its slots only, returns (so that no command meets a value of
the wrong type), and leaves what any call on other slots returns as it was. -/
theorem key_space_separated (db : Db) (es : List (Db × RedisOp)) :
    (∀ (d d' : Db) (op op' : RedisOp), ∀ s ∈ op.slots d, ∀ s' ∈ op'.slots d',
      s.key = s'.key → s = s') ∧
    Run.EachStep redisStep (fun w e =>
      UsesOnly e.1 (e.2.slots e.1) e.2.code ∧
      (∃ a, e.2.code ⟨e.1, w.redis⟩ = .ok a (redisStep w e)) ∧
      ∀ (d : Db) (op : RedisOp), (∀ s ∈ op.slots d, s ∉ e.2.slots e.1) →
        op.answer d (redisStep w e).redis = op.answer d w.redis) ⟨db, Store.empty⟩ es := by
  refine ⟨fun _ _ _ _ s _ s' _ h => Slot.key_injective h, fun pre e _ => ?_⟩
  have htidy : Tidy (Run.run redisStep ⟨db, Store.empty⟩ pre).redis :=
    (Run.always_of_inv (P := fun w : World => Tidy w.redis) (fun _ e h => tidy_step h e)
      (s := ⟨db, Store.empty⟩) tidy_empty pre).last
  refine ⟨usesOnly_code e.1 e.2, ?_, fun d op h => answer_of_disjoint h⟩
  obtain ⟨a, r', hrun, -⟩ := returns_of_tidy htidy e.1 e.2
  exact ⟨a, by rw [redisStep, EStateM.exec_of_ok hrun]; exact hrun⟩

end NanoTwitter
