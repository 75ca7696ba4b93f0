import Mathlib.Tactic
import Mathlib.Data.Finset.Basic
import Mathlib.Logic.Function.Basic

/-!
# A key-value store of lists and sets

The part of Redis that a program using lists and sets sees: a key holds a list, a set, or nothing.
A list command on a set (or a set command on a list) is refused (`WRONGTYPE`), which the functions
below report as `none`; a missing key counts as an empty list or an empty set, and a list that
becomes empty is removed together with its key.

`Store.list?` and `Store.set?` are the typed reads; every command is given by what it does to them.
`TouchesOnly k` says of a command that it reads and writes under the key `k` only.
-/

/-- What a key holds. -/
inductive Value (ε : Type) where
  | list (l : List ε)
  | set (s : Finset ε)

/-- What a key holds whose list is `l`: an empty list goes away with its key. -/
def Value.ofList {ε : Type} : List ε → Option (Value ε)
  | [] => none
  | v :: l => some (.list (v :: l))

/-- The content of the store. -/
@[ext] structure Store (κ ε : Type) where
  get : κ → Option (Value ε)

namespace Store

variable {κ ε : Type}

/-- The store without keys. -/
def empty : Store κ ε := ⟨fun _ => none⟩

/-- The list under a key; `none` when the key holds a set. -/
def list? (s : Store κ ε) (k : κ) : Option (List ε) :=
  match s.get k with
  | none => some []
  | some (.list l) => some l
  | some (.set _) => none

/-- The set under a key; `none` when the key holds a list. -/
def set? (s : Store κ ε) (k : κ) : Option (Finset ε) :=
  match s.get k with
  | none => some ∅
  | some (.list _) => none
  | some (.set m) => some m

@[simp] theorem list?_empty (k : κ) : (empty : Store κ ε).list? k = some [] := rfl

@[simp] theorem set?_empty (k : κ) : (empty : Store κ ε).set? k = some ∅ := rfl

/-- Where a set command succeeds there is no entry of a list. -/
theorem list?_of_set? {s : Store κ ε} {k : κ} {m : Finset ε} (h : s.set? k = some m) :
    (s.list? k).getD [] = [] := by
  unfold set? at h
  unfold list?
  cases hg : s.get k with
  | none => rfl
  | some v =>
    cases v with
    | list l => rw [hg] at h; simp at h
    | set m => rfl

variable [DecidableEq κ]

/-- Write a value under a key. -/
def put (s : Store κ ε) (k : κ) (v : Option (Value ε)) : Store κ ε := ⟨Function.update s.get k v⟩

/-- `LRANGE k 0 -1`. -/
def lrange (s : Store κ ε) (k : κ) : Option (List ε) := s.list? k

/-- `LPUSH k v`. -/
def lpush (s : Store κ ε) (k : κ) (v : ε) : Option (Store κ ε) :=
  (s.list? k).map fun l => s.put k (some (.list (v :: l)))

/-- `RPUSH k v`. -/
def rpush (s : Store κ ε) (k : κ) (v : ε) : Option (Store κ ε) :=
  (s.list? k).map fun l => s.put k (some (.list (l ++ [v])))

/-- `RPOP k`. -/
def rpop (s : Store κ ε) (k : κ) : Option (Store κ ε) :=
  (s.list? k).map fun l => match l.dropLast with
    -- a list that becomes empty goes away with its key
    | [] => s.put k none
    | v :: l' => s.put k (some (.list (v :: l')))

/-- `SISMEMBER k v`. -/
def sismember [DecidableEq ε] (s : Store κ ε) (k : κ) (v : ε) : Option Bool :=
  (s.set? k).map fun m => decide (v ∈ m)

/-- `SADD k v`. -/
def sadd [DecidableEq ε] (s : Store κ ε) (k : κ) (v : ε) : Option (Store κ ε) :=
  (s.set? k).map fun m => s.put k (some (.set (insert v m)))

variable {s : Store κ ε}

theorem list?_put_list (k j : κ) (l : List ε) :
    (s.put k (some (.list l))).list? j = if j = k then some l else s.list? j := by
  unfold list? put
  split_ifs with h
  · subst h; simp
  · simp [Function.update_of_ne h]

theorem set?_put_of_ne {k j : κ} (h : j ≠ k) (v : Option (Value ε)) :
    (s.put k v).set? j = s.set? j := by
  unfold set? put
  simp [Function.update_of_ne h]

theorem list?_put_of_ne {k j : κ} (h : j ≠ k) (v : Option (Value ε)) :
    (s.put k v).list? j = s.list? j := by
  unfold list? put
  simp [Function.update_of_ne h]

/-- After a successful `LPUSH` the value heads the list. -/
theorem lpush_of_list? {k : κ} {l : List ε} (h : s.list? k = some l) (v : ε) :
    s.lpush k v = some (s.put k (some (.list (v :: l)))) := by
  rw [lpush, h]; rfl

theorem rpush_of_list? {k : κ} {l : List ε} (h : s.list? k = some l) (v : ε) :
    s.rpush k v = some (s.put k (some (.list (l ++ [v])))) := by
  rw [rpush, h]; rfl

/-- `RPOP` drops the last entry, and nothing from an empty list. -/
theorem rpop_of_list? {k : κ} {l : List ε} (h : s.list? k = some l) :
    ∃ s', s.rpop k = some s' ∧ s'.list? k = some l.dropLast ∧
      (∀ j, j ≠ k → s'.list? j = s.list? j) ∧ ∀ j, j ≠ k → s'.set? j = s.set? j := by
  cases hl : l.dropLast with
  | nil =>
    refine ⟨s.put k none, by rw [rpop, h]; simp [hl], by simp [list?, put],
      fun j hj => list?_put_of_ne hj _, fun j hj => set?_put_of_ne hj _⟩
  | cons v l' =>
    refine ⟨s.put k (some (.list (v :: l'))), by rw [rpop, h]; simp [hl], ?_,
      fun j hj => list?_put_of_ne hj _, fun j hj => set?_put_of_ne hj _⟩
    rw [list?_put_list, if_pos rfl]

/-- A list command writes under its own key only. -/
theorem set?_of_lpush {s' : Store κ ε} {k j : κ} {v : ε} (h : s.lpush k v = some s') (hj : j ≠ k) :
    s'.set? j = s.set? j := by
  obtain ⟨l, -, rfl⟩ := Option.map_eq_some_iff.1 h
  exact set?_put_of_ne hj _

theorem set?_of_rpush {s' : Store κ ε} {k j : κ} {v : ε} (h : s.rpush k v = some s') (hj : j ≠ k) :
    s'.set? j = s.set? j := by
  obtain ⟨l, -, rfl⟩ := Option.map_eq_some_iff.1 h
  exact set?_put_of_ne hj _

theorem set?_of_rpop {s' : Store κ ε} {k j : κ} (h : s.rpop k = some s') (hj : j ≠ k) :
    s'.set? j = s.set? j := by
  obtain ⟨l, hl, -⟩ := Option.map_eq_some_iff.1 h
  obtain ⟨q, hq, -, -, hset⟩ := rpop_of_list? hl
  obtain rfl : q = s' := Option.some.inj (hq.symm.trans h)
  exact hset j hj

theorem sadd_of_set? [DecidableEq ε] {k : κ} {m : Finset ε} (h : s.set? k = some m) (v : ε) :
    s.sadd k v = some (s.put k (some (.set (insert v m)))) := by
  rw [sadd, h]; rfl

theorem set?_put_set (k j : κ) (m : Finset ε) :
    (s.put k (some (.set m))).set? j = if j = k then some m else s.set? j := by
  unfold set? put
  split_ifs with h
  · subst h; simp
  · simp [Function.update_of_ne h]

/-! ### Footprints -/

/-- Two contents agree on the keys of `K`. -/
def SameOn (K : κ → Prop) (s t : Store κ ε) : Prop := ∀ k, K k → s.get k = t.get k

section SameOn

variable {K : κ → Prop} {t : Store κ ε} {k : κ}

theorem SameOn.put (h : SameOn K s t) (k : κ) (v : Option (Value ε)) :
    SameOn K (s.put k v) (t.put k v) := by
  intro j hj
  unfold Store.put
  by_cases hjk : j = k
  · subst hjk; simp
  · simp [Function.update_of_ne hjk, h j hj]

end SameOn

/-- What a command does that reads and writes under the key `k` only: it reads the value there,
refuses it or replaces it by another one. -/
def TouchesOnly (k : κ) (c : Store κ ε → Option (Store κ ε)) : Prop :=
  ∃ g : Option (Value ε) → Option (Option (Value ε)), ∀ s, c s = (g (s.get k)).map (s.put k)

theorem TouchesOnly.sameOn {K : κ → Prop} {k : κ} {c : Store κ ε → Option (Store κ ε)}
    (hc : TouchesOnly k c) (hk : K k) {t : Store κ ε} (h : SameOn K s t) :
    Option.Rel (SameOn K) (c s) (c t) := by
  obtain ⟨g, hg⟩ := hc
  rw [hg, hg, h k hk]
  cases g (t.get k) with
  | none => exact .none
  | some v => exact .some (h.put k v)

theorem TouchesOnly.get_of_ne {k j : κ} {c : Store κ ε → Option (Store κ ε)}
    (hc : TouchesOnly k c) {s' : Store κ ε} (h : c s = some s') (hj : j ≠ k) :
    s'.get j = s.get j := by
  obtain ⟨g, hg⟩ := hc
  rw [hg] at h
  obtain ⟨v, -, rfl⟩ := Option.map_eq_some_iff.1 h
  simp [put, Function.update_of_ne hj]

theorem touchesOnly_of_list? {k : κ} (f : List ε → Option (Value ε)) :
    TouchesOnly k fun s : Store κ ε => (s.list? k).map fun l => s.put k (f l) := by
  refine ⟨fun v => (Store.list? ⟨fun _ : Unit => v⟩ ()).map f, fun s => ?_⟩
  rw [Option.map_map]
  rfl

theorem touchesOnly_lpush (k : κ) (v : ε) : TouchesOnly k fun s => s.lpush k v :=
  touchesOnly_of_list? fun l => some (.list (v :: l))

theorem touchesOnly_rpush (k : κ) (v : ε) : TouchesOnly k fun s => s.rpush k v :=
  touchesOnly_of_list? fun l => some (.list (l ++ [v]))

theorem touchesOnly_rpop (k : κ) : TouchesOnly k fun s : Store κ ε => s.rpop k := by
  have hrpop : (fun s : Store κ ε => s.rpop k) =
      fun s => (s.list? k).map fun l => s.put k (Value.ofList l.dropLast) := by
    funext s
    unfold rpop
    congr 1
    funext l
    cases l.dropLast <;> rfl
  rw [hrpop]
  exact touchesOnly_of_list? fun l => Value.ofList l.dropLast

theorem touchesOnly_sadd [DecidableEq ε] (k : κ) (v : ε) : TouchesOnly k fun s => s.sadd k v := by
  refine ⟨fun w => (Store.set? ⟨fun _ : Unit => w⟩ ()).map fun m => some (.set (insert v m)),
    fun s => ?_⟩
  rw [Option.map_map]
  rfl

end Store
