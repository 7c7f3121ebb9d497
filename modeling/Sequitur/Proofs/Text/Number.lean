import Sequitur.Text.Number

/-!
# Sequitur.Proofs.Text.Number

Numbers that are printed are read back.  The digits of a number are read from
left to right, the value of those already read growing with each of them, so
that a number within bounds never leaves them on the way (`magnitude_digits`).
With the sign this is `read_toString`: every number of a signed word is what is
read from its print.  No other number is ever read (`bounds_of_read`).
-/

namespace Sequitur

/-- Where two steps in a row succeed, the first does, and the second with what
the first gives. -/
theorem exists_of_bind_eq_ok {ε α β : Type} {x : Except ε α} {f : α → Except ε β} {b : β}
    (h : (x >>= f) = .ok b) : ∃ a, x = .ok a ∧ f a = .ok b := by
  cases x with
  | error e => contradiction
  | ok a => exact ⟨a, rfl, h⟩

namespace Number

/-! ## Digits -/

/-- The characters that print a number: digits and the sign. -/
def IsNumeral (c : Char) : Prop := c = '-' ∨ c.isDigit = true

theorem digit?_of_isDigit {c : Char} (h : c.isDigit = true) :
    digit? (.char c) = some (c.toNat - 48) := by
  have hrange : 48 ≤ c.toNat ∧ c.toNat ≤ 57 := Char.isDigit_iff_toNat.mp h
  have hle : '0' ≤ c ∧ c ≤ '9' := by
    simp only [Char.le_def, UInt32.le_iff_toNat_le]
    exact hrange
  simp [digit?, hle]

/-- Reading more digits does not make a value smaller. -/
theorem le_ofDigitChars (value : Nat) (cs : List Char) :
    value ≤ Nat.ofDigitChars 10 cs value := by
  induction cs generalizing value with
  | nil => exact Nat.le_refl value
  | cons c cs ih =>
      rw [Nat.ofDigitChars_cons]
      have hrest := ih (10 * value + (c.toNat - '0'.toNat))
      omega

/-- Digits are read to the value that they have after those already read, if it
fits an unsigned word. -/
theorem magnitude_digits {cs : List Char} {value : Nat} (hdigits : ∀ c ∈ cs, c.isDigit = true)
    (hlimit : Nat.ofDigitChars 10 cs value < unsignedLimit) :
    magnitude value (cs.map Glyph.char) = .ok (Nat.ofDigitChars 10 cs value) := by
  induction cs generalizing value with
  | nil => rfl
  | cons c cs ih =>
      obtain ⟨hc, hcs⟩ := List.forall_mem_cons.mp hdigits
      have hvalue : 10 * value + (c.toNat - '0'.toNat) = value * 10 + (c.toNat - 48) := by
        rw [Nat.mul_comm]
        rfl
      rw [Nat.ofDigitChars_cons, hvalue] at hlimit ⊢
      have hfits : ¬ unsignedLimit ≤ value * 10 + (c.toNat - 48) := by
        have hle := le_ofDigitChars (value * 10 + (c.toNat - 48)) cs
        omega
      rw [List.map_cons, magnitude, digit?_of_isDigit hc]
      simp only [if_neg hfits]
      exact ih hcs hlimit

/-! ## Printed numbers -/

theorem unsigned_repr {n : Nat} (h : n < unsignedLimit) :
    unsigned (Text.ofString n.repr) = .ok n := by
  have hdigits : ∀ c ∈ Nat.toDigits 10 n, c.isDigit = true :=
    fun c hc => Nat.isDigit_of_mem_toDigits (by decide) (by decide) hc
  have hvalue : Nat.ofDigitChars 10 (Nat.toDigits 10 n) 0 = n :=
    Nat.ofDigitChars_toDigits (by decide) (by decide)
  have hmagnitude : magnitude 0 ((Nat.toDigits 10 n).map Glyph.char) = .ok n := by
    rw [magnitude_digits hdigits (by rwa [hvalue]), hvalue]
  rw [Text.ofString, Nat.toList_repr]
  cases hempty : Nat.toDigits 10 n with
  | nil => exact absurd hempty Nat.toDigits_ne_nil
  | cons c cs => rw [← hmagnitude, hempty]; rfl

/-- A number without a minus sign is read as such. -/
theorem read_repr {n : Nat} (h : n < signedLimit) :
    read (Text.ofString n.repr) = .ok (n : Int) := by
  have hunsigned : unsigned (Text.ofString n.repr) = .ok n :=
    unsigned_repr (Nat.lt_trans h (by decide))
  have hpositive : read.positive (Text.ofString n.repr) = .ok (n : Int) := by
    rw [read.positive, hunsigned]
    simp [bind, Except.bind, Nat.not_le.mpr h]
  have hsign : ∀ rest, Text.ofString n.repr ≠ .char '-' :: rest ∧
      Text.ofString n.repr ≠ .char '+' :: rest := by
    intro rest
    constructor <;>
    · intro heq
      rw [Text.ofString, Nat.toList_repr, List.map_eq_cons_iff] at heq
      obtain ⟨c, cs, hcs, hc, -⟩ := heq
      have hdigit : c.isDigit = true :=
        Nat.isDigit_of_mem_toDigits (b := 10) (by decide) (by decide)
          (hcs ▸ List.mem_cons_self : c ∈ Nat.toDigits 10 n)
      rw [Glyph.char.inj hc] at hdigit
      contradiction
  rw [read]
  · exact hpositive
  · exact fun rest => (hsign rest).1
  · exact fun rest => (hsign rest).2

/-- **Printed numbers are read back**, if they fit a signed word. -/
theorem read_toString {i : Int} (hlow : -(signedLimit : Int) ≤ i) (hhigh : i < signedLimit) :
    read (Text.ofString (toString i)) = .ok i := by
  cases i with
  | ofNat n =>
      rw [Int.toString_eq_repr]
      exact read_repr (Int.ofNat_lt.mp hhigh)
  | negSucc n =>
      have hle : n + 1 ≤ signedLimit := by omega
      have hunsigned : unsigned (Text.ofString (n + 1).repr) = .ok (n + 1) :=
        unsigned_repr (Nat.lt_of_le_of_lt hle (by decide))
      have htext : Text.ofString (toString (Int.negSucc n)) =
          .char '-' :: Text.ofString (n + 1).repr := by
        simp [Int.toString_eq_repr, Int.repr, Text.ofString]
      rw [htext, read, hunsigned]
      simp [bind, Except.bind, Nat.not_lt.mpr hle, Int.negSucc_eq]

/-- **Numbers that are read fit a signed word.** -/
theorem bounds_of_read {t : Text} {i : Int} (h : read t = .ok i) :
    -(signedLimit : Int) ≤ i ∧ i < signedLimit := by
  have hlimit : 0 < signedLimit := by decide
  have hpositive : ∀ {digits : Text}, read.positive digits = .ok i →
      -(signedLimit : Int) ≤ i ∧ i < signedLimit := by
    intro digits hdigits
    obtain ⟨n, -, hn⟩ := exists_of_bind_eq_ok hdigits
    split at hn
    · contradiction
    · obtain rfl := Except.ok.inj hn
      omega
  unfold read at h
  split at h
  · obtain ⟨n, -, hn⟩ := exists_of_bind_eq_ok h
    split at hn
    · contradiction
    · obtain rfl := Except.ok.inj hn
      omega
  · exact hpositive h
  · exact hpositive h

/-- A number is printed by digits and the sign. -/
theorem isNumeral_of_mem {i : Int} {c : Char} (h : c ∈ (toString i).toList) : IsNumeral c := by
  have hdigits : ∀ n : Nat, c ∈ n.repr.toList → c.isDigit = true := by
    intro n hc
    rw [Nat.toList_repr] at hc
    exact Nat.isDigit_of_mem_toDigits (by decide) (by decide) hc
  rw [Int.toString_eq_repr] at h
  cases i with
  | ofNat n => exact .inr (hdigits n h)
  | negSucc n =>
      rw [Int.repr, String.toList_append, List.mem_append] at h
      rcases h with hsign | hdigit
      · exact .inl (List.mem_singleton.mp hsign)
      · exact .inr (hdigits _ hdigit)

theorem toList_toString_ne_nil (i : Int) : (toString i).toList ≠ [] := by
  rw [Int.toString_eq_repr]
  cases i with
  | ofNat n =>
      rw [Int.repr, Nat.toList_repr]
      exact Nat.toDigits_ne_nil
  | negSucc n => simp [Int.repr]

end Number

end Sequitur
