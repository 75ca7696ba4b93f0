import Mathlib.Tactic

/-!
# Ruby strings and times

The string operations of Ruby and ActiveSupport that programs over text rest on, with texts as
lists of code points:

* `split`: `String#split` without an argument (words between runs of ASCII whitespace), and
  `join`: `Array#join(" ")`;
* `afterFirst c`: the last part of `String#partition`;
* `gsub`: `String#gsub` with a string pattern. The pattern matches literally, while the replacement
  is a template in which a backslash introduces the match (`\0`, `\&`), a group (`\1` … `\9`), the
  text before or after the match, a backslash, or a named group (`\k<…>`, which a string pattern
  never has and which therefore raises);
* `blank`: ActiveSupport's `blank?`; `toI`: `String#to_i`; `decimal`: `Integer#to_s`;
* `iso8601`: the form in which ActiveSupport writes a UTC time into JSON; `timeToS`: `Time#to_s`.
-/

/-- A Ruby string, as its code points. -/
abbrev Text := List Char

instance : Coe String Text := ⟨String.toList⟩

namespace Ruby

/-! ### Words -/

/-- ASCII whitespace: what separates the words of `String#split`. -/
def isAsciiSpace (c : Char) : Bool := c.toNat = 32 ∨ (9 ≤ c.toNat ∧ c.toNat ≤ 13)

/-- `text.split`. -/
def split (s : Text) : List Text := (s.splitOnP isAsciiSpace).filter fun w => w ≠ []

/-- `words.join(" ")`. -/
def join (ws : List Text) : Text := [' '].intercalate ws

/-- `s.partition(c)[2]`: what follows the first `c`, nothing when there is none. -/
def afterFirst (c : Char) (s : Text) : Text := (s.dropWhile fun d => d ≠ c).drop 1

/-- `s[0] == c`. -/
def startsWith (c : Char) (s : Text) : Bool := s.head? = some c

theorem afterFirst_cons (c : Char) (s : Text) : afterFirst c (c :: s) = s := by
  simp [afterFirst]

theorem startsWith_iff {c : Char} {s : Text} : startsWith c s = true ↔ ∃ r, s = c :: r := by
  cases s with
  | nil => simp [startsWith]
  | cons d s => simp [startsWith]

theorem ne_nil_of_mem_split {s w : Text} (h : w ∈ split s) : w ≠ [] := by
  simpa using (List.mem_filter.1 h).2

/-! ### Substitution -/

/-- What `gsub` raises on a bad reference to a named group. -/
inductive GsubError
  | undefinedGroup
  | badGroupFormat
  deriving DecidableEq, Repr

/-- A match inside a text: what precedes it, the match, what follows it. -/
structure Match where
  pre : Text
  hit : Text
  post : Text

/-- The backslash, the backtick and the apostrophe. -/
def backslash : Char := Char.ofNat 92
def backtick : Char := Char.ofNat 96
def apostrophe : Char := Char.ofNat 39

/-- What the sequence `\d` of a template stands for; `ds` is the rest of the template. -/
def escapeText (m : Match) (d : Char) (ds : Text) : Except GsubError Text :=
  if d = '0' ∨ d = '&' then .ok m.hit
  else if d.isDigit then .ok []
  else if d = backtick then .ok m.pre
  else if d = apostrophe then .ok m.post
  else if d = backslash then .ok [backslash]
  else if d = 'k' ∧ ds.head? = some '<' then
    .error (if '>' ∈ ds then .undefinedGroup else .badGroupFormat)
  else .ok [backslash, d]

/-- The replacement a template gives for a match. -/
def expand (m : Match) : Text → Except GsubError Text
  | [] => .ok []
  | c :: cs =>
    if c = backslash then
      match cs with
      | [] => .ok [backslash]
      | d :: ds => do
        let e ← escapeText m d ds
        let r ← expand m ds
        pure (e ++ r)
    else do
      let r ← expand m cs
      pure (c :: r)

/-- The scan of `gsub`: `pre` has been passed, and `n` characters of the last match are left. -/
def gsubGo (pat tmpl : Text) : Text → ℕ → Text → Except GsubError Text
  | _, _, [] => .ok []
  | pre, n + 1, c :: cs => gsubGo pat tmpl (pre ++ [c]) n cs
  | pre, 0, c :: cs =>
    if pat <+: c :: cs then do
      let e ← expand ⟨pre, pat, (c :: cs).drop pat.length⟩ tmpl
      let r ← gsubGo pat tmpl (pre ++ [c]) (pat.length - 1) cs
      pure (e ++ r)
    else do
      let r ← gsubGo pat tmpl (pre ++ [c]) 0 cs
      pure (c :: r)

/-- `s.gsub(pat, tmpl)` for a nonempty string `pat`. -/
def gsub (s pat tmpl : Text) : Except GsubError Text := gsubGo pat tmpl [] 0 s

theorem gsubGo_of_length_le (pat tmpl : Text) {n : ℕ} {cs : Text} (h : cs.length ≤ n) (pre : Text) :
    gsubGo pat tmpl pre n cs = .ok [] := by
  induction cs generalizing n pre with
  | nil => simp [gsubGo]
  | cons c cs ih =>
    cases n with
    | zero => simp at h
    | succ n => rw [gsubGo]; exact ih (by simpa using h) _

/-- A text substituted for itself is its template, expanded once. -/
theorem gsub_self {w : Text} (hw : w ≠ []) (tmpl : Text) :
    gsub w w tmpl = expand ⟨[], w, []⟩ tmpl := by
  cases w with
  | nil => exact absurd rfl hw
  | cons c cs =>
    rw [gsub, gsubGo, if_pos (List.prefix_refl _), List.drop_length,
      gsubGo_of_length_le _ _ (by simp)]
    cases expand ⟨[], c :: cs, []⟩ tmpl with
    | error e => rfl
    | ok e => exact congrArg Except.ok (List.append_nil e)

/-! ### Blank texts and numbers -/

/-- The characters of the class `[[:space:]]`. -/
def isSpace (c : Char) : Bool :=
  isAsciiSpace c ∨ c.toNat = 0x85 ∨ c.toNat = 0xA0 ∨ c.toNat = 0x1680 ∨
    (0x2000 ≤ c.toNat ∧ c.toNat ≤ 0x200A) ∨ c.toNat = 0x2028 ∨ c.toNat = 0x2029 ∨
    c.toNat = 0x202F ∨ c.toNat = 0x205F ∨ c.toNat = 0x3000

/-- `s.blank?`. -/
def blank (s : Text) : Bool := s.all isSpace

/-- `n.to_s`. -/
def decimal (n : ℕ) : Text := Nat.toDigits 10 n

theorem decimal_injective : Function.Injective decimal := by
  intro m n h
  rw [← Nat.ofDigitChars_ten_toDigits (n := m), ← Nat.ofDigitChars_ten_toDigits (n := n)]
  exact congrArg (fun l => Nat.ofDigitChars 10 l 0) h

theorem isDigit_of_mem_decimal {n : ℕ} {c : Char} (h : c ∈ decimal n) : c.isDigit = true :=
  Nat.isDigit_of_mem_toDigits (by decide) (by decide) h

theorem decimal_ne_nil (n : ℕ) : decimal n ≠ [] := Nat.toDigits_ne_nil

/-- The digits at the head of a text, single underscores between them allowed. -/
def readDigits (acc : ℕ) : Text → ℕ
  | [] => acc
  | c :: cs =>
    if c.isDigit then readDigits (acc * 10 + (c.toNat - 48)) cs
    else if c = '_' ∧ (cs.head?.map Char.isDigit) = some true then readDigits acc cs
    else acc

/-- The number at the head of a text without sign; it may have the prefix `0d`. -/
def readNumber (s : Text) : ℕ :=
  let digits := if s.take 2 = ['0', 'd'] ∨ s.take 2 = ['0', 'D'] then s.drop 2 else s
  if (digits.head?.map Char.isDigit) = some true then readDigits 0 digits else 0

/-- `s.to_i`. -/
def toI (s : Text) : ℤ :=
  match s.dropWhile isAsciiSpace with
  | [] => 0
  | c :: cs =>
    if c = '-' then - (readNumber cs : ℤ)
    else if c = '+' then readNumber cs
    else readNumber (c :: cs)

/-! ### Times -/

/-- A UTC time in microseconds since 1970. -/
abbrev Time := ℕ

/-- `n` with at least `k` digits. -/
def pad (k n : ℕ) : Text := List.replicate (k - (decimal n).length) '0' ++ decimal n

/-- Year, month and day of a day counted from 1970. -/
def civil (days : ℕ) : ℕ × ℕ × ℕ :=
  let z := days + 719468
  let doe := z % 146097
  let yoe := (doe - doe / 1460 + doe / 36524 - doe / 146096) / 365
  let doy := doe - (365 * yoe + yoe / 4 - yoe / 100)
  let mp := (5 * doy + 2) / 153
  let m := if mp < 10 then mp + 3 else mp - 9
  (yoe + z / 146097 * 400 + (if m ≤ 2 then 1 else 0), m, doy - (153 * mp + 2) / 5 + 1)

/-- `time.xmlschema(3)`: the text of a time in JSON, to the millisecond. -/
def iso8601 (t : Time) : Text :=
  let ms := t / 1000
  let s := ms / 1000
  let (y, m, d) := civil (s / 86400)
  pad 4 y ++ ['-'] ++ pad 2 m ++ ['-'] ++ pad 2 d ++ ['T'] ++ pad 2 (s / 3600 % 24) ++ [':'] ++
    pad 2 (s / 60 % 60) ++ [':'] ++ pad 2 (s % 60) ++ ['.'] ++ pad 3 (ms % 1000) ++ ['Z']

/-- `time.to_s`. -/
def timeToS (t : Time) : Text :=
  let s := t / 1000000
  let (y, m, d) := civil (s / 86400)
  pad 4 y ++ ['-'] ++ pad 2 m ++ ['-'] ++ pad 2 d ++ [' '] ++ pad 2 (s / 3600 % 24) ++ [':'] ++
    pad 2 (s / 60 % 60) ++ [':'] ++ pad 2 (s % 60) ++ (" UTC" : Text)

example : iso8601 1481394600123456 = ("2016-12-10T18:30:00.123Z" : Text) := by decide

end Ruby
