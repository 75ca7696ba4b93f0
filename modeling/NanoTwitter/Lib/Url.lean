import Mathlib.Tactic
import NanoTwitter.Lib.Json

/-!
# Percent-encoded texts

A text in an address is read as bytes, `%` and two hexadecimal digits standing for one byte and
every other character for its UTF-8 encoding, and the bytes are read as UTF-8. A text is read as
itself exactly when no `%` in it is followed by two digits, since an escape takes fewer bytes than
its characters would; for the same reason no shorter part of a text is read as the whole text
(`component_sublist`).
-/

namespace Url

/-- The bytes of a text. -/
def utf8 (t : Text) : List UInt8 := t.flatMap String.utf8EncodeChar

/-- The byte that `%ab` stands for. -/
def escapedByte (a b : Char) : Option UInt8 := do
  let a ← Json.hexValue a
  let b ← Json.hexValue b
  pure (UInt8.ofNat (a * 16 + b))

/-- The byte of the escape at the start of a text, if there is one. -/
def startByte : Text → Option UInt8
  | c :: a :: b :: _ => if c = '%' then escapedByte a b else none
  | _ => none

/-- The bytes that a text in an address stands for. -/
def unescape : Text → List UInt8
  | c :: a :: b :: r =>
    match startByte (c :: a :: b :: r) with
    | some x => x :: unescape r
    | none => String.utf8EncodeChar c ++ unescape (a :: b :: r)
  | t => utf8 t

/-- Some `%` of the text is followed by two hexadecimal digits. -/
def hasEscape (t : Text) : Bool := t.tails.any fun r => (startByte r).isSome

/-- A part of an address as the text it stands for, if its bytes are UTF-8. -/
def component (t : Text) : Option Text := (unescape t).toByteArray.utf8Decode?.map Array.toList

/-! ### Bytes -/

@[simp] theorem utf8_cons (c : Char) (t : Text) :
    utf8 (c :: t) = String.utf8EncodeChar c ++ utf8 t := List.flatMap_cons

theorem length_utf8_cons (c : Char) (t : Text) : (utf8 t).length < (utf8 (c :: t)).length := by
  rw [utf8_cons, List.length_append, String.length_utf8EncodeChar]
  have := c.utf8Size_pos
  omega

/-- A part of a text with at least as many bytes is the whole text. -/
theorem eq_of_sublist_of_length_utf8 {s t : Text} (h : s.Sublist t)
    (hlen : (utf8 t).length ≤ (utf8 s).length) : s = t := by
  have hlt : s.length = t.length ∨ (utf8 s).length < (utf8 t).length := by
    clear hlen
    induction h with
    | slnil => exact .inl rfl
    | @cons s t c hst ih =>
      right
      rcases ih with ih | ih
      · rw [hst.eq_of_length ih]
        exact length_utf8_cons c t
      · exact ih.trans (length_utf8_cons c t)
    | cons_cons c _ ih =>
      refine ih.imp (fun ih => by rw [List.length_cons, List.length_cons, ih]) fun ih => ?_
      rw [utf8_cons, utf8_cons, List.length_append, List.length_append]
      omega
  exact h.eq_of_length (hlt.resolve_right (by omega))

/-! ### Escapes -/

theorem hasEscape_cons (c : Char) (t : Text) :
    hasEscape (c :: t) = ((startByte (c :: t)).isSome || hasEscape t) := by
  rw [hasEscape, List.tails_cons, List.any_cons]
  rfl

/-- **An escape has fewer bytes than its characters**; without one, the bytes are those of the
text. -/
theorem unescape_cases (t : Text) :
    hasEscape t = false ∧ unescape t = utf8 t ∨
      hasEscape t = true ∧ (unescape t).length < (utf8 t).length := by
  fun_induction unescape t with
  | case1 c a b r x hx ih =>
    right
    refine ⟨by rw [hasEscape_cons, hx]; rfl, ?_⟩
    have hle : (unescape r).length ≤ (utf8 r).length :=
      ih.elim (fun h => by rw [h.2]) fun h => h.2.le
    have ha := length_utf8_cons a (b :: r)
    have hb := length_utf8_cons b r
    have hc := length_utf8_cons c (a :: b :: r)
    rw [List.length_cons]
    omega
  | case2 c a b r hx ih =>
    rw [hasEscape_cons, hx, Option.isSome_none, Bool.false_or, utf8_cons c, List.length_append,
      List.length_append]
    exact ih.imp (fun h => ⟨h.1, by rw [h.2]⟩) fun h => ⟨h.1, by omega⟩
  | case3 t ht =>
    left
    refine ⟨?_, rfl⟩
    rcases t with - | ⟨c, - | ⟨a, - | ⟨b, r⟩⟩⟩
    · rfl
    · rfl
    · rfl
    · exact absurd rfl (ht c a b r)

theorem unescape_cons_of_ne {c : Char} (h : c ≠ '%') (t : Text) :
    unescape (c :: t) = String.utf8EncodeChar c ++ unescape t := by
  rcases t with - | ⟨a, - | ⟨b, r⟩⟩
  · simp [unescape, utf8]
  · simp [unescape, utf8]
  · rw [unescape, startByte, if_neg h]

theorem unescape_escape {a b : Char} {x : UInt8} (h : escapedByte a b = some x) (t : Text) :
    unescape ('%' :: a :: b :: t) = x :: unescape t := by
  rw [unescape, startByte, if_pos rfl, h]

theorem utf8EncodeChar_of_lt {c : Char} (h : c.toNat < 128) :
    String.utf8EncodeChar c = [UInt8.ofNat c.toNat] := by
  have hle : c.val.toNat ≤ 0x7f := by
    have : c.val.toNat = c.toNat := rfl
    omega
  rw [String.utf8EncodeChar, if_pos hle]
  rfl

/-! ### Components -/

theorem component_eq_some {s t : Text} : component s = some t ↔ unescape s = utf8 t := by
  have hencode : t.utf8Encode = (utf8 t).toByteArray := rfl
  rw [component, Option.map_eq_some_iff]
  constructor
  · rintro ⟨a, ha, rfl⟩
    have hsome : (unescape s).toByteArray.utf8Decode?.isSome := by rw [ha]; rfl
    have hback := ByteArray.utf8Encode_get_utf8Decode? (h := hsome)
    simp only [ha, Option.get_some] at hback
    have hdata := congrArg (fun b => b.data.toList) hback
    simpa [List.utf8Encode, utf8, List.data_toByteArray] using hdata.symm
  · intro h
    refine ⟨t.toArray, ?_, rfl⟩
    rw [h, ← hencode, List.utf8Decode?_utf8Encode]

/-- **A part of a text is read as the text only if it is the whole text and has no escape.** -/
theorem component_sublist {s t : Text} (h : s.Sublist t) :
    component s = some t ↔ s = t ∧ hasEscape t = false := by
  rw [component_eq_some]
  constructor
  · intro hbytes
    rcases unescape_cases s with ⟨hno, hs⟩ | ⟨-, hlt⟩
    · obtain rfl := eq_of_sublist_of_length_utf8 h (by rw [← hbytes, hs])
      exact ⟨rfl, hno⟩
    · rw [hbytes] at hlt
      have := eq_of_sublist_of_length_utf8 h hlt.le
      rw [this] at hlt
      exact absurd hlt (lt_irrefl _)
  · rintro ⟨rfl, hno⟩
    rcases unescape_cases s with ⟨-, hs⟩ | ⟨hyes, -⟩
    · exact hs
    · rw [hno] at hyes
      exact absurd hyes Bool.false_ne_true

end Url
