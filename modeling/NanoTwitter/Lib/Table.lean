import Mathlib.Tactic
import Mathlib.Data.List.Nodup

/-!
# Tables with an auto-increment primary key

A `Table ρ` holds rows in insertion order, each an `id` with its attributes of type `ρ`. The two
facts every statement below rests on are fields of the structure: no two rows share an id, and
every id is below the next one to be handed out. Rows are inserted with a fresh id, changed in
place and deleted, so ids are never used again.
-/

/-- The first element with a property, when no other element has it. -/
theorem List.find?_eq_some_iff_of_unique {α : Type} {l : List α} {p : α → Bool}
    (h : ∀ a ∈ l, ∀ b ∈ l, p a = true → p b = true → a = b) {a : α} :
    l.find? p = some a ↔ a ∈ l ∧ p a = true := by
  constructor
  · exact fun hf => ⟨List.mem_of_find?_eq_some hf, List.find?_some hf⟩
  · rintro ⟨ha, hpa⟩
    cases hf : l.find? p with
    | none => exact absurd hpa (List.find?_eq_none.1 hf a ha)
    | some b => rw [h b (List.mem_of_find?_eq_some hf) a ha (List.find?_some hf) hpa]

/-- A row: its primary key and its other columns. -/
structure Row (ρ : Type) where
  id : ℕ
  attrs : ρ
  deriving DecidableEq, Repr

/-- A table; `nextId` is the next value of the primary key's sequence. -/
@[ext] structure Table (ρ : Type) where
  rows : List (Row ρ)
  nextId : ℕ
  ids_lt : ∀ r ∈ rows, r.id < nextId
  nodup_ids : (rows.map Row.id).Nodup

namespace Table

variable {ρ : Type}

/-- The empty table. Sequences start at `1`. -/
def empty : Table ρ where
  rows := []
  nextId := 1
  ids_lt := by simp
  nodup_ids := by simp

/-- `INSERT`: the new row takes the next id and goes last. -/
def insert (t : Table ρ) (a : ρ) : Table ρ where
  rows := t.rows ++ [⟨t.nextId, a⟩]
  nextId := t.nextId + 1
  ids_lt r hr := by
    rcases List.mem_append.1 hr with hr | hr
    · exact Nat.lt_succ_of_lt (t.ids_lt r hr)
    · rw [List.mem_singleton.1 hr]; exact Nat.lt_succ_self _
  nodup_ids := by
    rw [List.map_append, List.map_singleton, List.nodup_append]
    refine ⟨t.nodup_ids, List.nodup_singleton _, fun i hi j hj => ?_⟩
    obtain ⟨r, hr, rfl⟩ := List.mem_map.1 hi
    rw [List.mem_singleton.1 hj]
    exact (t.ids_lt r hr).ne

/-- `UPDATE … WHERE id = i`. -/
def update (t : Table ρ) (i : ℕ) (f : ρ → ρ) : Table ρ where
  rows := t.rows.map fun r => if r.id = i then ⟨r.id, f r.attrs⟩ else r
  nextId := t.nextId
  ids_lt r hr := by
    obtain ⟨r', hr', rfl⟩ := List.mem_map.1 hr
    have := t.ids_lt r' hr'
    split_ifs <;> exact this
  nodup_ids := by
    have : (fun r : Row ρ => if r.id = i then (⟨r.id, f r.attrs⟩ : Row ρ) else r) = fun r =>
        ⟨r.id, if r.id = i then f r.attrs else r.attrs⟩ := by
      funext r; split_ifs <;> rfl
    rw [this, List.map_map]
    exact t.nodup_ids

/-- `DELETE … WHERE p`. -/
def deleteWhere (t : Table ρ) (p : Row ρ → Bool) : Table ρ where
  rows := t.rows.filter fun r => !p r
  nextId := t.nextId
  ids_lt r hr := t.ids_lt r (List.mem_filter.1 hr).1
  nodup_ids := t.nodup_ids.sublist (List.filter_sublist.map Row.id)

/-- `SELECT … WHERE id = i`. -/
def find (t : Table ρ) (i : ℕ) : Option (Row ρ) := t.rows.find? fun r => r.id = i

/-- `SELECT … WHERE p LIMIT 1`. -/
def findBy (t : Table ρ) (p : ρ → Bool) : Option (Row ρ) := t.rows.find? fun r => p r.attrs

variable {t : Table ρ}

theorem mem_of_find {i : ℕ} {r : Row ρ} (h : t.find i = some r) : r ∈ t.rows ∧ r.id = i :=
  ⟨List.mem_of_find?_eq_some h, by simpa using List.find?_some h⟩

theorem mem_of_findBy {p : ρ → Bool} {r : Row ρ} (h : t.findBy p = some r) :
    r ∈ t.rows ∧ p r.attrs = true :=
  ⟨List.mem_of_find?_eq_some h, by simpa using List.find?_some h⟩

/-- The primary key determines the row. -/
theorem eq_of_id_eq {r r' : Row ρ} (hr : r ∈ t.rows) (hr' : r' ∈ t.rows) (h : r.id = r'.id) :
    r = r' :=
  List.inj_on_of_nodup_map t.nodup_ids hr hr' h

theorem find_eq_some_iff {i : ℕ} {r : Row ρ} : t.find i = some r ↔ r ∈ t.rows ∧ r.id = i := by
  unfold find
  rw [List.find?_eq_some_iff_of_unique, decide_eq_true_eq]
  intro a ha b hb hai hbi
  exact eq_of_id_eq ha hb ((of_decide_eq_true hai).trans (of_decide_eq_true hbi).symm)

theorem find_of_mem {r : Row ρ} (hr : r ∈ t.rows) : t.find r.id = some r :=
  find_eq_some_iff.2 ⟨hr, rfl⟩

theorem find_ne_none {r : Row ρ} (h : r ∈ t.rows) : t.find r.id ≠ none := by
  rw [find_of_mem h]
  exact Option.some_ne_none r

@[simp] theorem rows_empty : (empty : Table ρ).rows = [] := rfl

@[simp] theorem rows_insert (a : ρ) : (t.insert a).rows = t.rows ++ [⟨t.nextId, a⟩] := rfl

@[simp] theorem nextId_insert (a : ρ) : (t.insert a).nextId = t.nextId + 1 := rfl

@[simp] theorem nextId_update (i : ℕ) (f : ρ → ρ) : (t.update i f).nextId = t.nextId := rfl

@[simp] theorem nextId_deleteWhere (p : Row ρ → Bool) :
    (t.deleteWhere p).nextId = t.nextId := rfl

@[simp] theorem mem_deleteWhere {p : Row ρ → Bool} {r : Row ρ} :
    r ∈ (t.deleteWhere p).rows ↔ r ∈ t.rows ∧ p r = false := by
  simp [deleteWhere, List.mem_filter]

/-- The rows after an update are the old ones, with the attributes of row `i` changed. -/
theorem mem_update {i : ℕ} {f : ρ → ρ} {r : Row ρ} :
    r ∈ (t.update i f).rows ↔
      ∃ r' ∈ t.rows, r = ⟨r'.id, if r'.id = i then f r'.attrs else r'.attrs⟩ := by
  simp only [update, List.mem_map]
  constructor
  · rintro ⟨r', hr', rfl⟩
    exact ⟨r', hr', by split_ifs <;> rfl⟩
  · rintro ⟨r', hr', rfl⟩
    exact ⟨r', hr', by split_ifs <;> rfl⟩

theorem find_insert (a : ρ) (i : ℕ) :
    (t.insert a).find i = if i = t.nextId then some ⟨t.nextId, a⟩ else t.find i := by
  split_ifs with h
  · subst h
    exact find_of_mem (t := t.insert a) (r := ⟨t.nextId, a⟩) (by simp)
  · simp [find, List.find?_append, Ne.symm h]

theorem insert_ne (a : ρ) : t.insert a ≠ t := by
  intro h
  have hlen := congrArg (fun t => t.rows.length) h
  simp at hlen

theorem find_update (i : ℕ) (f : ρ → ρ) (j : ℕ) :
    (t.update i f).find j =
      (t.find j).map fun r => ⟨r.id, if r.id = i then f r.attrs else r.attrs⟩ := by
  cases h : t.find j with
  | none =>
    rw [Option.map_none]
    unfold find at h ⊢
    rw [List.find?_eq_none] at h ⊢
    intro r hr
    obtain ⟨r', hr', rfl⟩ := mem_update.1 hr
    exact h r' hr'
  | some r =>
    obtain ⟨hr, rfl⟩ := mem_of_find h
    exact find_eq_some_iff.2 ⟨mem_update.2 ⟨r, hr, rfl⟩, rfl⟩

/-- No row is lost by an insertion. -/
theorem isSome_find_insert (a : ρ) {i : ℕ} (h : (t.find i).isSome) :
    ((t.insert a).find i).isSome := by
  rw [find_insert]
  split_ifs
  · rfl
  · exact h

theorem isSome_find_update (i : ℕ) (f : ρ → ρ) (j : ℕ) :
    ((t.update i f).find j).isSome = (t.find j).isSome := by
  rw [find_update, Option.isSome_map]

/-- Other rows stay. -/
theorem find_update_of_ne {i j : ℕ} (h : j ≠ i) (f : ρ → ρ) : (t.update i f).find j = t.find j := by
  rw [find_update]
  cases hr : t.find j with
  | none => rfl
  | some r => rw [Option.map_some, if_neg (by rw [(mem_of_find hr).2]; exact h)]

/-- Only the attributes of row `i` matter to an update of it. -/
theorem update_congr {i : ℕ} {f g : ρ → ρ} {r : Row ρ} (h : t.find i = some r)
    (hfg : f r.attrs = g r.attrs) : t.update i f = t.update i g := by
  have hrows : (t.update i f).rows = (t.update i g).rows := by
    refine List.map_congr_left fun r' hr' => ?_
    split_ifs with hi
    · rw [eq_of_id_eq hr' (mem_of_find h).1 (hi.trans (mem_of_find h).2.symm), hfg]
    · rfl
  exact Table.ext hrows rfl

theorem update_of_find_none {i : ℕ} (h : t.find i = none) (f : ρ → ρ) : t.update i f = t := by
  have hrows : (t.update i f).rows = t.rows := by
    have hid : ∀ r ∈ t.rows, (if r.id = i then (⟨r.id, f r.attrs⟩ : Row ρ) else r) = r := by
      intro r hr
      rw [if_neg]
      rintro rfl
      rw [find_of_mem hr] at h
      exact absurd h (by simp)
    exact (List.map_congr_left hid).trans (List.map_id _)
  exact Table.ext hrows rfl

/-- A fresh id is the id of no row. -/
theorem find_nextId : t.find t.nextId = none := by
  cases h : t.find t.nextId with
  | none => rfl
  | some r =>
    obtain ⟨hr, hid⟩ := mem_of_find h
    have := t.ids_lt r hr
    omega

end Table
