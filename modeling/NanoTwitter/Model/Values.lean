import Mathlib.Tactic
import NanoTwitter.Model.Schema

/-!
# The values of parameters

What a request says under the name of a parameter is a text (`a=x`), an array (`a[]=x`) or a hash
(`a[k]=x`, or an uploaded file), and the application takes it as it comes:

* `toS` is `to_s`, which keys, pages, stored columns and BCrypt use. A text is itself, an array is
  printed with its elements quoted;
* `names` are the texts that `where(column: value)` compares a column with. ActiveRecord looks for
  any element of an array, and raises where SQL has no literal for a value;
* `text?` is for code that calls a method of strings: an array or a hash has none of `split`,
  `to_f` and `to_i`.
-/

namespace NanoTwitter

mutual

/-- A value of `params`. Nothing in the application looks into a hash, so that one is what `to_s`
makes of it. -/
inductive Param
  | str (s : Text)
  | arr (l : ParamList)
  | hash (shown : Text)
  deriving DecidableEq

/-- The elements of an array, of which some may be nil (`a[]`). -/
inductive ParamList
  | nil
  | absent (l : ParamList)
  | cons (v : Param) (l : ParamList)
  deriving DecidableEq

end

/-- `l << v`. -/
def ParamList.push (v : Param) : ParamList → ParamList
  | nil => cons v nil
  | absent l => absent (l.push v)
  | cons w l => cons w (l.push v)

instance : Coe Text Param := ⟨Param.str⟩

namespace Param

/-- The text, if the value is one. -/
def text? : Param → Option Text
  | str s => some s
  | arr _ => none
  | hash _ => none

/-! ### Printing -/

mutual

/-- `value.inspect`. -/
def inspect (P : Platform) : Param → Text
  | str s => P.inspect s
  | arr l => '[' :: inspectAll P l ++ [']']
  | hash shown => shown

/-- The elements of an array, with commas between them. -/
def inspectAll (P : Platform) : ParamList → Text
  | .nil => []
  | .absent .nil => "nil"
  | .absent l => ("nil, " : Text) ++ inspectAll P l
  | .cons v .nil => v.inspect P
  | .cons v l => v.inspect P ++ (", " : Text) ++ inspectAll P l

end

/-- `value.to_s`. -/
def toS (P : Platform) : Param → Text
  | str s => s
  | v => v.inspect P

@[simp] theorem toS_str (P : Platform) (s : Text) : (str s).toS P = s := rfl

/-! ### Looking up -/

/-- What a condition makes of the elements of an array that are not nil. Each comes with its text
and with the names it would be looked up by alone. -/
def anyOf : List (Option Text × Except Error (List Text)) → Except Error (List Text)
  | [] => .ok []
  | [v] => v.2
  | vs =>
    -- with more than one element the list is quoted, which only texts can be
    match vs.mapM Prod.fst with
    | some names => .ok names
    | none => .error .typeError

mutual

/-- The names that an element of an array is looked up by, if it is the only one. -/
def namesIn : Param → Except Error (List Text)
  | str s => .ok [s]
  | arr l => anyOf (literals l)
  | hash _ => .error .typeError

/-- The elements of an array that are not nil. -/
def literals : ParamList → List (Option Text × Except Error (List Text))
  | .nil => []
  | .absent l => literals l
  | .cons v l => (v.text?, v.namesIn) :: literals l

end

/-- The names that `where(column: value)` compares the column with. A hash stands for the columns of
another table, which there is none of. -/
def names : Param → Except Error (List Text)
  | hash _ => .error .statementInvalid
  | v => v.namesIn

end Param

/-- The names that are looked up: none for nil, since no column that is looked up is null. -/
def wanted (v : Option Param) : List Text := ((v.bind fun v => v.names.toOption).getD [])

instance (v : Option Param) (s : Text) : Decidable (s ∈ wanted v) :=
  inferInstanceAs (Decidable (s ∈ Option.getD _ _))

@[simp] theorem wanted_none : wanted none = [] := rfl

@[simp] theorem wanted_str (s : Text) : wanted (some (.str s)) = [s] := rfl

/-- The error of a query that cannot be written. -/
def queryError (v : Option Param) : Option Error :=
  v.bind fun v =>
    match v.names with
    | .ok _ => none
    | .error e => some e

@[simp] theorem queryError_none : queryError none = none := rfl

@[simp] theorem queryError_str (s : Text) : queryError (some (.str s)) = none := rfl

/-- A query that cannot be written finds nobody. -/
theorem wanted_of_queryError {v : Option Param} {e : Error} (h : queryError v = some e) :
    wanted v = [] := by
  cases v with
  | none => cases h
  | some v =>
    cases hv : v.names with
    | ok l =>
      simp only [queryError, Option.bind_some, hv] at h
      cases h
    | error e' =>
      rw [wanted, Option.bind_some, hv]
      rfl

/-- What is found has been asked for by a query that was run. -/
theorem queryError_of_mem {v : Option Param} {s : Text} (h : s ∈ wanted v) :
    queryError v = none := by
  cases hv : queryError v with
  | none => rfl
  | some e =>
    rw [wanted_of_queryError hv] at h
    exact absurd h List.not_mem_nil

/-- Run the query of a lookup: it raises if it cannot be written. -/
def runQuery {σ : Type} (v : Option Param) : EStateM Error σ Unit :=
  match queryError v with
  | none => pure ()
  | some e => throw e

theorem runQuery_ok {σ : Type} {v : Option Param} (h : queryError v = none) (s : σ) :
    runQuery v s = .ok () s := by
  rw [runQuery, h]
  rfl

theorem runQuery_error {σ : Type} {v : Option Param} {e : Error} (h : queryError v = some e)
    (s : σ) : runQuery v s = .error e s := by
  rw [runQuery, h]
  rfl

/-- `value.to_s` of a parameter that may be absent. -/
def shown (P : Platform) (v : Option Param) : Text := (v.map (Param.toS P)).getD []

@[simp] theorem shown_str (P : Platform) (s : Text) : shown P (some (.str s)) = s := rfl

/-- The parameter, if it is a text. -/
def textOf (v : Option Param) : Option Text := v.bind Param.text?

@[simp] theorem textOf_str (s : Text) : textOf (some (.str s)) = some s := rfl

@[simp] theorem textOf_none : textOf none = none := rfl

example : wanted (some (.arr (.cons (.str "x") (.absent (.cons (.str "bob") .nil))))) =
    ["x", "bob"] := by decide

example : shown .ascii (some (.arr (.cons (.str "x") (.absent .nil)))) =
    ("[\"x\", nil]" : Text) := by decide

end NanoTwitter
