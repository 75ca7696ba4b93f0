import Mathlib.Tactic
import NanoTwitter.Lib.Ruby

/-!
# JSON texts

The JSON that ActiveSupport writes (`to_json`) and the JSON gem reads (`JSON.parse`), for values
whose numbers are integers.

* `render` writes without whitespace; besides the quote, the backslash and the control characters
  it escapes `<`, `>`, `&` and the two Unicode line separators, as ActiveSupport does;
* `parse` reads a text back, whitespace between tokens allowed.

`parse_render`: what was written is read back unchanged; `render_injective`: different values have
different texts.
-/

/-- A JSON value. -/
inductive Json
  | null
  | bool (b : Bool)
  | num (n : ℤ)
  | str (s : Text)
  | arr (l : List Json)
  | obj (l : List (Text × Json))

namespace Json

open Ruby (backslash decimal)

def dquote : Char := Char.ofNat 34
def lbrace : Char := Char.ofNat 123
def rbrace : Char := Char.ofNat 125

/-! ### Writing -/

/-- The hexadecimal digit of `n < 16`. -/
def hexDigit (n : ℕ) : Char := if n < 10 then Char.ofNat (48 + n) else Char.ofNat (87 + n)

/-- The escape `\uXXXX`. -/
def unicodeEscape (n : ℕ) : Text :=
  [backslash, 'u', hexDigit (n / 4096 % 16), hexDigit (n / 256 % 16), hexDigit (n / 16 % 16),
    hexDigit (n % 16)]

/-- The letter of a short escape such as `\n`. -/
def shortEscape (c : Char) : Option Char :=
  if c = dquote then some dquote
  else if c = backslash then some backslash
  else if c.toNat = 8 then some 'b'
  else if c.toNat = 12 then some 'f'
  else if c.toNat = 10 then some 'n'
  else if c.toNat = 13 then some 'r'
  else if c.toNat = 9 then some 't'
  else none

/-- The characters written as `\uXXXX`. -/
def needsUnicode (c : Char) : Bool :=
  c.toNat < 32 ∨ c = '<' ∨ c = '>' ∨ c = '&' ∨ c.toNat = 0x2028 ∨ c.toNat = 0x2029

/-- One character inside a JSON string. -/
def escapeChar (c : Char) : Text :=
  match shortEscape c with
  | some d => [backslash, d]
  | none => if needsUnicode c then unicodeEscape c.toNat else [c]

/-- The inside of a JSON string. -/
def escape (s : Text) : Text := s.flatMap escapeChar

/-- A JSON string. -/
def quote (s : Text) : Text := dquote :: (escape s ++ [dquote])

/-- A JSON integer. -/
def renderInt : ℤ → Text
  | .ofNat n => decimal n
  | .negSucc n => '-' :: decimal (n + 1)

mutual

/-- `value.to_json`. -/
def render : Json → Text
  | .null => "null"
  | .bool true => "true"
  | .bool false => "false"
  | .num n => renderInt n
  | .str s => quote s
  | .arr l => '[' :: (renderElems l ++ [']'])
  | .obj l => lbrace :: (renderFields l ++ [rbrace])

def renderElems : List Json → Text
  | [] => []
  | [v] => render v
  | v :: w :: vs => render v ++ ',' :: renderElems (w :: vs)

def renderFields : List (Text × Json) → Text
  | [] => []
  | [(k, v)] => quote k ++ ':' :: render v
  | (k, v) :: f :: fs => quote k ++ ':' :: (render v ++ ',' :: renderFields (f :: fs))

end

/-! ### Reading -/

/-- Whitespace between tokens. -/
def isWs (c : Char) : Bool := c.toNat = 32 ∨ c.toNat = 9 ∨ c.toNat = 10 ∨ c.toNat = 13

def skipWs (s : Text) : Text := s.dropWhile isWs

/-- The value of a hexadecimal digit. -/
def hexValue (c : Char) : Option ℕ :=
  if c.isDigit then some (c.toNat - 48)
  else if 97 ≤ c.toNat ∧ c.toNat ≤ 102 then some (c.toNat - 87)
  else if 65 ≤ c.toNat ∧ c.toNat ≤ 70 then some (c.toNat - 55)
  else none

/-- The character after the backslash of a short escape. -/
def unescape (d : Char) : Option Char :=
  if d = dquote ∨ d = backslash ∨ d = '/' then some d
  else if d = 'b' then some (Char.ofNat 8)
  else if d = 'f' then some (Char.ofNat 12)
  else if d = 'n' then some (Char.ofNat 10)
  else if d = 'r' then some (Char.ofNat 13)
  else if d = 't' then some (Char.ofNat 9)
  else none

/-- The character written with four hexadecimal digits. -/
def hexChar (a b c d : Char) : Option Char := do
  let a ← hexValue a
  let b ← hexValue b
  let c ← hexValue c
  let d ← hexValue d
  pure (Char.ofNat (((a * 16 + b) * 16 + c) * 16 + d))

/-- The rest of a string, after its opening quote. -/
def parseString : Text → Option (Text × Text)
  | [] => none
  | c :: cs =>
    if c = dquote then some ([], cs)
    else if c = backslash then
      match cs with
      | [] => none
      | d :: ds =>
        if d = 'u' then
          match ds with
          | h₁ :: h₂ :: h₃ :: h₄ :: r => do
            let x ← hexChar h₁ h₂ h₃ h₄
            let (t, r') ← parseString r
            pure (x :: t, r')
          | _ => none
        else do
          let x ← unescape d
          let (t, r') ← parseString ds
          pure (x :: t, r')
    else if c.toNat < 32 then none
    else do
      let (t, r') ← parseString cs
      pure (c :: t, r')

/-- A nonempty run of digits without a superfluous zero in front. -/
def parseNat (s : Text) : Option (ℕ × Text) :=
  let ds := s.takeWhile Char.isDigit
  if ds = [] ∨ (ds.head? = some '0' ∧ 1 < ds.length) then none
  else some (Nat.ofDigitChars 10 ds 0, s.dropWhile Char.isDigit)

def parseInt (s : Text) : Option (ℤ × Text) :=
  if s.head? = some '-' then (parseNat s.tail).map fun p => (-(p.1 : ℤ), p.2)
  else (parseNat s).map fun p => ((p.1 : ℤ), p.2)

/-- The word `w` at the head of `s` stands for `v`. -/
def parseWord (w : Text) (v : Json) (s : Text) : Option (Json × Text) :=
  if w <+: s then some (v, s.drop w.length) else none

mutual

/-- A value at the head of a text, with what follows it. The first argument bounds the depth of
the recursion; the length of the text suffices. -/
def parseValue : ℕ → Text → Option (Json × Text)
  | 0, _ => none
  | n + 1, s =>
    match skipWs s with
    | [] => none
    | c :: cs =>
      if c = dquote then (parseString cs).map fun p => (.str p.1, p.2)
      else if c = '[' then
        if (skipWs cs).head? = some ']' then some (.arr [], (skipWs cs).tail)
        else (parseElems n cs).map fun p => (.arr p.1, p.2)
      else if c = lbrace then
        if (skipWs cs).head? = some rbrace then some (.obj [], (skipWs cs).tail)
        else (parseFields n cs).map fun p => (.obj p.1, p.2)
      else if c = 'n' then parseWord "null" .null (c :: cs)
      else if c = 't' then parseWord "true" (.bool true) (c :: cs)
      else if c = 'f' then parseWord "false" (.bool false) (c :: cs)
      else (parseInt (c :: cs)).map fun p => (.num p.1, p.2)

def parseElems : ℕ → Text → Option (List Json × Text)
  | 0, _ => none
  | n + 1, s => do
    let (v, r) ← parseValue n s
    match skipWs r with
    | [] => none
    | c :: cs =>
      if c = ',' then do
        let (vs, r') ← parseElems n cs
        pure (v :: vs, r')
      else if c = ']' then some ([v], cs)
      else none

def parseFields : ℕ → Text → Option (List (Text × Json) × Text)
  | 0, _ => none
  | n + 1, s =>
    match skipWs s with
    | [] => none
    | q :: qs =>
      if q = dquote then do
        let (k, r) ← parseString qs
        match skipWs r with
        | [] => none
        | c :: cs =>
          if c = ':' then do
            let (v, r) ← parseValue n cs
            match skipWs r with
            | [] => none
            | d :: ds =>
              if d = ',' then do
                let (fs, r') ← parseFields n ds
                pure ((k, v) :: fs, r')
              else if d = rbrace then some ([(k, v)], ds)
              else none
          else none
      else none

end

/-- `JSON.parse(s)`. -/
def parse (s : Text) : Option Json :=
  match parseValue s.length s with
  | some (v, r) => if skipWs r = [] then some v else none
  | none => none

/-! ### Texts without escapes -/

theorem toNat_of_isDigit {c : Char} (h : c.isDigit = true) : 48 ≤ c.toNat ∧ c.toNat ≤ 57 := by
  simp only [Char.isDigit, ge_iff_le, Bool.and_eq_true, decide_eq_true_eq] at h
  exact h

theorem escapeChar_of_isDigit {c : Char} (h : c.isDigit = true) : escapeChar c = [c] := by
  obtain ⟨hlo, hhi⟩ := toNat_of_isDigit h
  have hc : c = Char.ofNat c.toNat := (Char.ofNat_toNat c).symm
  generalize c.toNat = n at hlo hhi hc
  subst hc
  interval_cases n <;> decide

/-- A text whose characters stand for themselves is only put in quotes. -/
theorem quote_of_plain {s : Text} (h : ∀ c ∈ s, escapeChar c = [c]) :
    quote s = dquote :: (s ++ [dquote]) := by
  rw [quote, escape, List.flatMap_congr h, List.flatMap_singleton']

/-! ### Strings are read back -/

theorem hexValue_hexDigit : ∀ n < 16, hexValue (hexDigit n) = some n := by decide

theorem hexChar_hexDigit {n : ℕ} (h : n < 65536) :
    hexChar (hexDigit (n / 4096 % 16)) (hexDigit (n / 256 % 16)) (hexDigit (n / 16 % 16))
      (hexDigit (n % 16)) = some (Char.ofNat n) := by
  have hn : ((n / 4096 % 16 * 16 + n / 256 % 16) * 16 + n / 16 % 16) * 16 + n % 16 = n := by omega
  simp only [hexChar, hexValue_hexDigit _ (Nat.mod_lt _ (by decide : 0 < 16)), Option.bind_eq_bind,
    Option.bind_some, Option.pure_def, hn]

theorem eq_ofNat_of_toNat {c : Char} {n : ℕ} (h : c.toNat = n) : c = Char.ofNat n := by
  rw [← h, Char.ofNat_toNat]

/-- Reading a short escape gives the character that was written with it. -/
theorem unescape_of_shortEscape {c d : Char} (h : shortEscape c = some d) :
    d ≠ 'u' ∧ unescape d = some c := by
  unfold shortEscape at h
  split_ifs at h with h1 h2 h3 h4 h5 h6 h7 <;> cases h
  · subst h1; decide
  · subst h2; decide
  · rw [eq_ofNat_of_toNat h3]; decide
  · rw [eq_ofNat_of_toNat h4]; decide
  · rw [eq_ofNat_of_toNat h5]; decide
  · rw [eq_ofNat_of_toNat h6]; decide
  · rw [eq_ofNat_of_toNat h7]; decide

theorem toNat_lt_of_needsUnicode {c : Char} (h : needsUnicode c = true) : c.toNat < 65536 := by
  simp only [needsUnicode, decide_eq_true_eq] at h
  rcases h with h | h | h | h | h | h
  · omega
  · subst h; decide
  · subst h; decide
  · subst h; decide
  · omega
  · omega

theorem parseString_dquote (s : Text) : parseString (dquote :: s) = some ([], s) := by
  rw [parseString.eq_def]
  simp only [if_true]

theorem parseString_short {d x : Char} (hu : d ≠ 'u') (hd : unescape d = some x) (s : Text) :
    parseString (backslash :: d :: s) = (parseString s).map fun p => (x :: p.1, p.2) := by
  have hb : backslash ≠ dquote := by decide
  rw [parseString.eq_def]
  simp only [if_neg hb, if_true, if_neg hu, hd]
  cases parseString s <;> rfl

theorem parseString_unicode {n : ℕ} (h : n < 65536) (s : Text) :
    parseString (unicodeEscape n ++ s) =
      (parseString s).map fun p => (Char.ofNat n :: p.1, p.2) := by
  have hb : backslash ≠ dquote := by decide
  rw [unicodeEscape, List.cons_append, parseString.eq_def]
  simp only [List.cons_append, List.nil_append, if_neg hb, if_true, hexChar_hexDigit h]
  cases parseString s <;> rfl

theorem parseString_plain {c : Char} (h1 : c ≠ dquote) (h2 : c ≠ backslash) (h3 : ¬ c.toNat < 32)
    (s : Text) : parseString (c :: s) = (parseString s).map fun p => (c :: p.1, p.2) := by
  rw [parseString.eq_def]
  simp only [if_neg h1, if_neg h2, if_neg h3]
  cases parseString s <;> rfl

theorem parseString_escapeChar (c : Char) (s : Text) :
    parseString (escapeChar c ++ s) = (parseString s).map fun p => (c :: p.1, p.2) := by
  unfold escapeChar
  cases h : shortEscape c with
  | some d =>
    obtain ⟨hu, hd⟩ := unescape_of_shortEscape h
    exact parseString_short hu hd s
  | none =>
    simp only
    split_ifs with hn
    · rw [parseString_unicode (toNat_lt_of_needsUnicode hn), Char.ofNat_toNat]
    · have h1 : c ≠ dquote := by rintro rfl; exact absurd h (by decide)
      have h2 : c ≠ backslash := by rintro rfl; exact absurd h (by decide)
      exact parseString_plain h1 h2 (fun h3 => hn (by simp [needsUnicode, h3])) s

theorem parseString_escape (s r : Text) : parseString (escape s ++ dquote :: r) = some (s, r) := by
  induction s with
  | nil => exact parseString_dquote r
  | cons c s ih =>
    rw [escape, List.flatMap_cons, List.append_assoc, parseString_escapeChar]
    rw [← escape, ih]
    rfl

/-! ### Numbers are read back -/

/-- What follows a number does not continue it. -/
def Delimited (r : Text) : Prop := ∀ c, r.head? = some c → c.isDigit = false

theorem delimited_cons {c : Char} {r : Text} (h : c.isDigit = false) : Delimited (c :: r) := by
  intro c' hc'
  obtain rfl : c = c' := by simpa using hc'
  exact h

theorem takeWhile_isDigit {ds r : Text} (hd : ∀ c ∈ ds, c.isDigit = true) (hr : Delimited r) :
    (ds ++ r).takeWhile Char.isDigit = ds ∧ (ds ++ r).dropWhile Char.isDigit = r := by
  have h1 : r.takeWhile Char.isDigit = [] ∧ r.dropWhile Char.isDigit = r := by
    cases r with
    | nil => exact ⟨rfl, rfl⟩
    | cons c r =>
      have hc := hr c rfl
      simp [hc]
  rw [List.takeWhile_append_of_pos hd, List.dropWhile_append_of_pos hd, h1.1, h1.2]
  exact ⟨List.append_nil ds, rfl⟩

theorem head?_decimal_ne_zero {n : ℕ} (hn : 0 < n) : (decimal n).head? ≠ some '0' := by
  induction n using Nat.strong_induction_on with
  | _ n ih =>
    by_cases h : n < 10
    · rw [decimal, Nat.toDigits_of_lt_base h]
      interval_cases n <;> decide
    · have hq : 0 < n / 10 := by omega
      rw [decimal, Nat.toDigits_of_base_le (by decide) (by omega)]
      rw [List.head?_append_of_ne_nil _ Nat.toDigits_ne_nil]
      exact ih (n / 10) (by omega) hq

theorem parseNat_decimal (n : ℕ) {r : Text} (hr : Delimited r) :
    parseNat (decimal n ++ r) = some (n, r) := by
  obtain ⟨h1, h2⟩ := @takeWhile_isDigit (decimal n) r
    (fun c hc => Ruby.isDigit_of_mem_decimal hc) hr
  have hz : ¬ ((decimal n).head? = some '0' ∧ 1 < (decimal n).length) := by
    rintro ⟨h0, hl⟩
    rcases Nat.eq_zero_or_pos n with rfl | hn
    · exact absurd hl (by decide)
    · exact head?_decimal_ne_zero hn h0
  simp only [parseNat, h1, h2, Ruby.decimal_ne_nil n, hz, or_self, if_false]
  rw [decimal, Nat.ofDigitChars_ten_toDigits]

theorem exists_decimal_eq (n : ℕ) : ∃ c cs, decimal n = c :: cs ∧ c.isDigit = true := by
  cases h : decimal n with
  | nil => exact absurd h (Ruby.decimal_ne_nil n)
  | cons c cs =>
    exact ⟨c, cs, rfl, Ruby.isDigit_of_mem_decimal (n := n) (by rw [h]; exact List.mem_cons_self)⟩

theorem parseInt_renderInt (n : ℤ) {r : Text} (hr : Delimited r) :
    parseInt (renderInt n ++ r) = some (n, r) := by
  cases n with
  | ofNat n =>
    obtain ⟨c, cs, hc, hd⟩ := exists_decimal_eq n
    have hne : ¬ (decimal n ++ r).head? = some '-' := by
      rw [hc]
      rintro h
      obtain rfl : c = '-' := by simpa using h
      exact absurd hd (by decide)
    rw [renderInt, parseInt, if_neg hne, parseNat_decimal n hr]
    rfl
  | negSucc n =>
    have hh : ('-' :: (decimal (n + 1) ++ r)).head? = some '-' := rfl
    rw [renderInt, List.cons_append, parseInt, if_pos hh, List.tail_cons, parseNat_decimal _ hr]
    rfl

/-! ### Values are read back -/

mutual

/-- The recursion depth that reading a value needs. -/
def cost : Json → ℕ
  | .null => 1
  | .bool _ => 1
  | .num _ => 1
  | .str _ => 1
  | .arr l => 1 + costElems l
  | .obj l => 1 + costFields l

def costElems : List Json → ℕ
  | [] => 0
  | v :: vs => cost v + costElems vs + 1

def costFields : List (Text × Json) → ℕ
  | [] => 0
  | (_, v) :: fs => cost v + costFields fs + 1

end

theorem skipWs_cons {c : Char} (h : isWs c = false) (s : Text) : skipWs (c :: s) = c :: s := by
  simp [skipWs, h]

/-- A text `t` of a value: it is nonempty, and it starts neither with whitespace nor with a
closing bracket. -/
def Opens (t : Text) : Prop := ∃ c cs, t = c :: cs ∧ isWs c = false ∧ c ≠ ']' ∧ c ≠ rbrace

theorem opens_of_isDigit {c : Char} (h : c.isDigit = true) (s : Text) : Opens (c :: s) := by
  refine ⟨c, s, rfl, ?_, ?_, ?_⟩
  · have h1 := (toNat_of_isDigit h).1
    simp only [isWs, decide_eq_false_iff_not]
    omega
  · rintro rfl; exact absurd h (by decide)
  · rintro rfl; exact absurd h (by decide)

theorem opens_render (v : Json) : Opens (render v) := by
  cases v with
  | null => exact ⟨'n', "ull".toList, rfl, by decide, by decide, by decide⟩
  | bool b =>
    cases b with
    | true => exact ⟨'t', "rue".toList, rfl, by decide, by decide, by decide⟩
    | false => exact ⟨'f', "alse".toList, rfl, by decide, by decide, by decide⟩
  | num n =>
    cases n with
    | ofNat n =>
      obtain ⟨c, cs, hc, hd⟩ := exists_decimal_eq n
      rw [render, renderInt, hc]
      exact opens_of_isDigit hd cs
    | negSucc n => exact ⟨'-', _, rfl, by decide, by decide, by decide⟩
  | str s => exact ⟨dquote, _, rfl, by decide, by decide, by decide⟩
  | arr l => exact ⟨'[', _, rfl, by decide, by decide, by decide⟩
  | obj l => exact ⟨lbrace, _, rfl, by decide, by decide, by decide⟩

theorem opens_renderElems (v : Json) (vs : List Json) : Opens (renderElems (v :: vs)) := by
  obtain ⟨c, cs, hc, h⟩ := opens_render v
  cases vs with
  | nil => exact ⟨c, cs, by rw [renderElems, hc], h⟩
  | cons w vs => exact ⟨c, _, by rw [renderElems, hc]; rfl, h⟩

theorem opens_renderFields (f : Text × Json) (fs : List (Text × Json)) :
    Opens (renderFields (f :: fs)) := by
  obtain ⟨k, v⟩ := f
  cases fs with
  | nil => exact ⟨dquote, _, by rw [renderFields]; rfl, by decide, by decide, by decide⟩
  | cons f fs => exact ⟨dquote, _, by rw [renderFields]; rfl, by decide, by decide, by decide⟩

theorem parseValue_word {w s : Text} {c : Char} {v : Json} {n : ℕ}
    (hc : c = 'n' ∧ w = "null".toList ∧ v = .null ∨ c = 't' ∧ w = "true".toList ∧ v = .bool true ∨
      c = 'f' ∧ w = "false".toList ∧ v = .bool false) :
    parseValue (n + 1) (w ++ s) = some (v, s) := by
  rcases hc with ⟨rfl, rfl, rfl⟩ | ⟨rfl, rfl, rfl⟩ | ⟨rfl, rfl, rfl⟩ <;> rfl

theorem parseValue_quote (t s : Text) (n : ℕ) :
    parseValue (n + 1) (quote t ++ s) = some (.str t, s) := by
  have hq : skipWs (dquote :: (escape t ++ [dquote] ++ s)) =
      dquote :: (escape t ++ [dquote] ++ s) :=
    skipWs_cons (by decide) _
  rw [quote, List.cons_append, parseValue, hq]
  simp only [if_true, List.append_assoc, List.singleton_append, parseString_escape, Option.map_some]

/-- A text that starts like a number is read as one. -/
theorem parseValue_number {c : Char} (hc : c.isDigit = true ∨ c = '-') (s : Text) (n : ℕ) :
    parseValue (n + 1) (c :: s) = (parseInt (c :: s)).map fun p => (.num p.1, p.2) := by
  have hw : isWs c = false := by
    rcases hc with hc | rfl
    · obtain ⟨c', cs', h, hw, -⟩ := opens_of_isDigit hc s
      cases h
      exact hw
    · decide
  have hne : ∀ d : Char, d.isDigit = false → d ≠ '-' → c ≠ d := by
    rintro d hd hd' rfl
    rcases hc with hc | hc
    · rw [hd] at hc; exact absurd hc (by decide)
    · exact hd' hc
  rw [parseValue, skipWs_cons hw]
  simp only [if_neg (hne dquote (by decide) (by decide)), if_neg (hne '[' (by decide) (by decide)),
    if_neg (hne lbrace (by decide) (by decide)), if_neg (hne 'n' (by decide) (by decide)),
    if_neg (hne 't' (by decide) (by decide)), if_neg (hne 'f' (by decide) (by decide))]

theorem parseValue_renderInt (i : ℤ) {s : Text} (hs : Delimited s) (n : ℕ) :
    parseValue (n + 1) (renderInt i ++ s) = some (.num i, s) := by
  have hi := parseInt_renderInt i hs
  have hc : ∃ c cs, renderInt i ++ s = c :: cs ∧ (c.isDigit = true ∨ c = '-') := by
    cases i with
    | ofNat m =>
      obtain ⟨c, cs, hc, hd⟩ := exists_decimal_eq m
      exact ⟨c, cs ++ s, by rw [renderInt, hc]; rfl, Or.inl hd⟩
    | negSucc m => exact ⟨'-', _, rfl, Or.inr rfl⟩
  obtain ⟨c, cs, hcs, hc⟩ := hc
  rw [hcs] at hi ⊢
  rw [parseValue_number hc, hi]
  rfl

mutual

theorem parseValue_render : ∀ (v : Json) {n : ℕ} {r : Text}, cost v ≤ n → Delimited r →
    parseValue n (render v ++ r) = some (v, r)
  | v, 0, _, hn, _ => by cases v <;> simp only [cost] at hn <;> omega
  | .null, n + 1, r, _, _ => parseValue_word (Or.inl ⟨rfl, rfl, rfl⟩)
  | .bool true, n + 1, r, _, _ => parseValue_word (Or.inr (Or.inl ⟨rfl, rfl, rfl⟩))
  | .bool false, n + 1, r, _, _ => parseValue_word (Or.inr (Or.inr ⟨rfl, rfl, rfl⟩))
  | .num i, n + 1, r, _, hr => parseValue_renderInt i hr n
  | .str t, n + 1, r, _, _ => parseValue_quote t r n
  | .arr l, n + 1, r, hn, _ => by
    rw [render, List.cons_append, parseValue, skipWs_cons (by decide)]
    simp only [if_neg (show ¬ '[' = dquote by decide), if_true]
    cases l with
    | nil => simp [renderElems, skipWs_cons (show isWs ']' = false by decide)]
    | cons v vs =>
      obtain ⟨c, cs, hc, hw, hb, -⟩ := opens_renderElems v vs
      have hne : ¬ (skipWs (renderElems (v :: vs) ++ [']'] ++ r)).head? = some ']' := by
        rw [hc, List.cons_append, List.cons_append, skipWs_cons hw]
        simpa using hb
      have ih := parseElems_render (v :: vs) (List.cons_ne_nil v vs) (n := n) (r := r)
        (by simp only [cost] at hn; omega)
      rw [if_neg hne, List.append_assoc, List.singleton_append, ih]
      rfl
  | .obj l, n + 1, r, hn, _ => by
    rw [render, List.cons_append, parseValue, skipWs_cons (by decide)]
    simp only [if_neg (show ¬ lbrace = dquote by decide), if_neg (show ¬ lbrace = '[' by decide),
      if_true]
    cases l with
    | nil => simp [renderFields, skipWs_cons (show isWs rbrace = false by decide)]
    | cons f fs =>
      obtain ⟨c, cs, hc, hw, -, hb⟩ := opens_renderFields f fs
      have hne : ¬ (skipWs (renderFields (f :: fs) ++ [rbrace] ++ r)).head? = some rbrace := by
        rw [hc, List.cons_append, List.cons_append, skipWs_cons hw]
        simpa using hb
      have ih := parseFields_render (f :: fs) (List.cons_ne_nil f fs) (n := n) (r := r)
        (by simp only [cost] at hn; omega)
      rw [if_neg hne, List.append_assoc, List.singleton_append, ih]
      rfl

theorem parseElems_render : ∀ (l : List Json), l ≠ [] → ∀ {n : ℕ} {r : Text}, costElems l ≤ n →
    parseElems n (renderElems l ++ ']' :: r) = some (l, r)
  | [], h, _, _, _ => absurd rfl h
  | _ :: _, _, 0, _, hn => by simp only [costElems] at hn; omega
  | [v], _, n + 1, r, hn => by
    have ih := parseValue_render v (n := n) (r := ']' :: r) (by simp only [costElems] at hn; omega)
      (delimited_cons (by decide))
    rw [renderElems, parseElems, ih]
    simp [skipWs_cons (show isWs ']' = false by decide)]
  | v :: w :: vs, _, n + 1, r, hn => by
    have hv : cost v ≤ n := by simp only [costElems] at hn; omega
    have hvs : costElems (w :: vs) ≤ n := by simp only [costElems] at hn ⊢; omega
    have ih := parseValue_render v (r := ',' :: (renderElems (w :: vs) ++ ']' :: r)) hv
      (delimited_cons (by decide))
    have ihs := parseElems_render (w :: vs) (List.cons_ne_nil w vs) (r := r) hvs
    rw [renderElems, List.append_assoc, List.cons_append, parseElems, ih]
    simp [skipWs_cons (show isWs ',' = false by decide), ihs]

theorem parseFields_render : ∀ (l : List (Text × Json)), l ≠ [] → ∀ {n : ℕ} {r : Text},
    costFields l ≤ n → parseFields n (renderFields l ++ rbrace :: r) = some (l, r)
  | [], h, _, _, _ => absurd rfl h
  | _ :: _, _, 0, _, hn => by simp only [costFields] at hn; omega
  | [(k, v)], _, n + 1, r, hn => by
    have ih := parseValue_render v (n := n) (r := rbrace :: r)
      (by simp only [costFields] at hn; omega) (delimited_cons (by decide))
    have hq : isWs dquote = false := by decide
    have hcol : isWs ':' = false := by decide
    have hb : isWs rbrace = false := by decide
    rw [renderFields, quote, parseFields]
    simp only [List.cons_append, List.append_assoc, List.nil_append, skipWs_cons hq, if_true,
      parseString_escape, Option.bind_eq_bind, Option.bind_some, skipWs_cons hcol, ih,
      skipWs_cons hb, if_neg (show ¬ rbrace = ',' by decide)]
  | (k, v) :: f :: fs, _, n + 1, r, hn => by
    have hv : cost v ≤ n := by simp only [costFields] at hn; omega
    have hfs : costFields (f :: fs) ≤ n := by
      obtain ⟨k', v'⟩ := f
      simp only [costFields] at hn ⊢
      omega
    have ih := parseValue_render v (r := ',' :: (renderFields (f :: fs) ++ rbrace :: r)) hv
      (delimited_cons (by decide))
    have ihs := parseFields_render (f :: fs) (List.cons_ne_nil f fs) (r := r) hfs
    have hq : isWs dquote = false := by decide
    have hcol : isWs ':' = false := by decide
    have hcom : isWs ',' = false := by decide
    rw [renderFields, quote, parseFields]
    simp only [List.cons_append, List.append_assoc, List.nil_append, skipWs_cons hq, if_true,
      parseString_escape, Option.bind_eq_bind, Option.bind_some, skipWs_cons hcol, ih,
      skipWs_cons hcom, ihs, Option.pure_def]

end

mutual

theorem cost_le_length : ∀ v : Json, cost v ≤ (render v).length
  | .null => by decide
  | .bool true => by decide
  | .bool false => by decide
  | .num i => by
    obtain ⟨c, cs, hc, -⟩ := opens_render (.num i)
    rw [hc, cost, List.length_cons]
    omega
  | .str t => by rw [render, quote, cost, List.length_cons]; omega
  | .arr l => by
    have := costElems_le_length l
    simp only [cost, render, List.length_cons, List.length_append, List.length_nil]
    omega
  | .obj l => by
    have := costFields_le_length l
    simp only [cost, render, List.length_cons, List.length_append, List.length_nil]
    omega

theorem costElems_le_length : ∀ l : List Json, costElems l ≤ (renderElems l).length + 1
  | [] => by simp [costElems]
  | [v] => by
    have := cost_le_length v
    simp only [costElems, renderElems]
    omega
  | v :: w :: vs => by
    have h1 := cost_le_length v
    have h2 := costElems_le_length (w :: vs)
    rw [costElems, renderElems, List.length_append, List.length_cons]
    omega

theorem costFields_le_length : ∀ l : List (Text × Json), costFields l ≤ (renderFields l).length + 1
  | [] => by simp [costFields]
  | [(k, v)] => by
    have := cost_le_length v
    simp only [costFields, renderFields, List.length_append, List.length_cons]
    omega
  | (k, v) :: f :: fs => by
    have h1 := cost_le_length v
    have h2 := costFields_le_length (f :: fs)
    rw [costFields, renderFields]
    simp only [List.length_append, List.length_cons]
    omega

end

/-- **Reading undoes writing.** -/
theorem parse_render (v : Json) : parse (render v) = some v := by
  have h := parseValue_render v (r := []) (cost_le_length v) (by intro c hc; simp at hc)
  rw [List.append_nil] at h
  simp [parse, h, skipWs]

/-- Different values have different texts. -/
theorem render_injective : Function.Injective render := by
  intro v w h
  have hp := congrArg parse h
  rwa [parse_render, parse_render, Option.some_inj] at hp

end Json
