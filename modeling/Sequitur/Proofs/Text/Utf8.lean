import Sequitur.Text.Glyph

/-!
# Sequitur.Proofs.Text.Utf8

Reading bytes as text loses nothing and adds nothing:

* `bytes_ofBytes`: the bytes of the text that was read are the bytes it was
  read from, whether they were well-formed or not;
* `ofBytes_bytes_map_char`: the UTF-8 bytes of characters are read as these
  characters, and so are those of a string (`ofBytes_toUTF8`);
* `ofBytes_append`: before an ASCII character the bytes can be cut in two and
  each part read on its own.

All three go through the four lengths a character may have.  Bytes are moved to
natural numbers first, where the encoding is division with remainder.
-/

namespace Sequitur

namespace Text

/-! ## The classes of bytes as ranges of numbers -/

theorem isContinuation_iff {b : UInt8} :
    isContinuation b = true ↔ 0x80 ≤ b.toNat ∧ b.toNat ≤ 0xBF := by
  simp [isContinuation, UInt8.le_iff_toNat_le]

theorem isPair_iff {a b : UInt8} :
    isPair a b = true ↔ 0xC2 ≤ a.toNat ∧ a.toNat ≤ 0xDF ∧ 0x80 ≤ b.toNat ∧ b.toNat ≤ 0xBF := by
  simp [isPair, isContinuation_iff, UInt8.le_iff_toNat_le, and_assoc]

theorem isTriple_iff {a b c : UInt8} :
    isTriple a b c = true ↔
      0xE0 ≤ a.toNat ∧ a.toNat ≤ 0xEF ∧ 0x80 ≤ b.toNat ∧ b.toNat ≤ 0xBF ∧
        0x80 ≤ c.toNat ∧ c.toNat ≤ 0xBF ∧ (a.toNat = 0xE0 → 0xA0 ≤ b.toNat) ∧
        (a.toNat = 0xED → b.toNat ≤ 0x9F) := by
  simp [isTriple, isContinuation_iff, UInt8.le_iff_toNat_le, and_assoc, ← UInt8.toNat_inj,
    Decidable.imp_iff_not_or]

theorem isQuadruple_iff {a b c d : UInt8} :
    isQuadruple a b c d = true ↔
      0xF0 ≤ a.toNat ∧ a.toNat ≤ 0xF4 ∧ 0x80 ≤ b.toNat ∧ b.toNat ≤ 0xBF ∧
        0x80 ≤ c.toNat ∧ c.toNat ≤ 0xBF ∧ 0x80 ≤ d.toNat ∧ d.toNat ≤ 0xBF ∧
        (a.toNat = 0xF0 → 0x90 ≤ b.toNat) ∧ (a.toNat = 0xF4 → b.toNat ≤ 0x8F) := by
  simp [isQuadruple, isContinuation_iff, UInt8.le_iff_toNat_le, and_assoc, ← UInt8.toNat_inj,
    Decidable.imp_iff_not_or]

/-! ## Characters as numbers -/

theorem toNat_ofNat_of_isValidChar {n : Nat} (h : n.isValidChar) : (Char.ofNat n).toNat = n := by
  rw [Char.ofNat, dif_pos h]
  exact UInt32.toNat_ofNatLT ..

/-- The number of a character is no surrogate and at most U+10FFFF. -/
theorem toNat_lt (c : Char) : c.toNat < 0xD800 ∨ 0xDFFF < c.toNat ∧ c.toNat < 0x110000 := c.valid

theorem utf8EncodeChar_eq (c : Char) :
    String.utf8EncodeChar c =
      if c.toNat ≤ 0x7F then [UInt8.ofNat c.toNat]
      else if c.toNat ≤ 0x7FF then
        [UInt8.ofNat (c.toNat / 64 % 0x20 + 0xC0), UInt8.ofNat (c.toNat % 64 + 0x80)]
      else if c.toNat ≤ 0xFFFF then
        [UInt8.ofNat (c.toNat / 4096 % 0x10 + 0xE0), UInt8.ofNat (c.toNat / 64 % 64 + 0x80),
          UInt8.ofNat (c.toNat % 64 + 0x80)]
      else
        [UInt8.ofNat (c.toNat / 262144 % 8 + 0xF0), UInt8.ofNat (c.toNat / 4096 % 64 + 0x80),
          UInt8.ofNat (c.toNat / 64 % 64 + 0x80), UInt8.ofNat (c.toNat % 64 + 0x80)] := rfl

/-- A byte is given by its number. -/
theorem ofNat_eq_of_eq {n : Nat} {b : UInt8} (h : n = b.toNat) : UInt8.ofNat n = b := by
  rw [h, UInt8.ofNat_toNat]

/-! ## What is read has the bytes it was read from -/

theorem bytes_ascii (a : UInt8) : (ofBytes.ascii a).bytes = [a] := by
  rw [ofBytes.ascii]
  split
  · next h =>
      have ha : a.toNat < 128 := UInt8.lt_iff_toNat_lt.mp h
      have hn : (Char.ofNat a.toNat).toNat = a.toNat :=
        toNat_ofNat_of_isValidChar (Or.inl (by omega))
      rw [Glyph.bytes, utf8EncodeChar_eq, hn, if_pos (by omega), UInt8.ofNat_toNat]
  · rfl

theorem bytes_assembled_pair {a b : UInt8} (h : isPair a b = true) :
    (assembled (a.toNat % 32) [b]).bytes = [a, b] := by
  obtain ⟨ha, ha', hb, hb'⟩ := isPair_iff.mp h
  have hn := toNat_ofNat_of_isValidChar (n := a.toNat % 32 * 64 + b.toNat % 64)
    (Or.inl (by omega))
  rw [assembled, List.foldl_cons, List.foldl_nil, Glyph.bytes, utf8EncodeChar_eq, hn,
    if_neg (by omega), if_pos (by omega)]
  congr
  · exact ofNat_eq_of_eq (by omega)
  · exact ofNat_eq_of_eq (by omega)

theorem bytes_assembled_triple {a b c : UInt8} (h : isTriple a b c = true) :
    (assembled (a.toNat % 16) [b, c]).bytes = [a, b, c] := by
  obtain ⟨ha, ha', hb, hb', hc, hc', hlong, hsurrogate⟩ := isTriple_iff.mp h
  have hn := toNat_ofNat_of_isValidChar
    (n := (a.toNat % 16 * 64 + b.toNat % 64) * 64 + c.toNat % 64) (by
      rw [Nat.isValidChar]
      omega)
  rw [assembled, List.foldl_cons, List.foldl_cons, List.foldl_nil, Glyph.bytes,
    utf8EncodeChar_eq, hn, if_neg (by omega), if_neg (by omega), if_pos (by omega)]
  congr
  · exact ofNat_eq_of_eq (by omega)
  · exact ofNat_eq_of_eq (by omega)
  · exact ofNat_eq_of_eq (by omega)

theorem bytes_assembled_quadruple {a b c d : UInt8} (h : isQuadruple a b c d = true) :
    (assembled (a.toNat % 8) [b, c, d]).bytes = [a, b, c, d] := by
  obtain ⟨ha, ha', hb, hb', hc, hc', hd, hd', hlong, hlarge⟩ := isQuadruple_iff.mp h
  have hn := toNat_ofNat_of_isValidChar
    (n := ((a.toNat % 8 * 64 + b.toNat % 64) * 64 + c.toNat % 64) * 64 + d.toNat % 64) (by
      rw [Nat.isValidChar]
      omega)
  rw [assembled, List.foldl_cons, List.foldl_cons, List.foldl_cons, List.foldl_nil, Glyph.bytes,
    utf8EncodeChar_eq, hn, if_neg (by omega), if_neg (by omega), if_neg (by omega)]
  congr
  · exact ofNat_eq_of_eq (by omega)
  · exact ofNat_eq_of_eq (by omega)
  · exact ofNat_eq_of_eq (by omega)
  · exact ofNat_eq_of_eq (by omega)

theorem bytes_cons (g : Glyph) (t : Text) : bytes (g :: t) = g.bytes ++ bytes t := rfl

/-- **Nothing is lost**: a text has the bytes it was read from. -/
theorem bytes_ofBytes (bs : List UInt8) : (ofBytes bs).bytes = bs := by
  fun_induction ofBytes bs with
  | case1 => rfl
  | case2 a => rw [bytes_cons, bytes_ascii]; rfl
  | case3 a b h => rw [bytes_cons, bytes_assembled_pair h]; rfl
  | case4 a b h ih => rw [bytes_cons, bytes_ascii, ih]; rfl
  | case5 a b c h ih => rw [bytes_cons, bytes_assembled_pair h, ih]; rfl
  | case6 a b c _ h => rw [bytes_cons, bytes_assembled_triple h]; rfl
  | case7 a b c _ _ ih => rw [bytes_cons, bytes_ascii, ih]; rfl
  | case8 a b c d rest h ih => rw [bytes_cons, bytes_assembled_pair h, ih]; rfl
  | case9 a b c d rest _ h ih => rw [bytes_cons, bytes_assembled_triple h, ih]; rfl
  | case10 a b c d rest _ _ h ih => rw [bytes_cons, bytes_assembled_quadruple h, ih]; rfl
  | case11 a b c d rest _ _ _ ih => rw [bytes_cons, bytes_ascii, ih]; rfl

/-! ## Characters are read as themselves -/

/-- A byte that starts no well-formed character stands alone. -/
theorem ofBytes_alone {a : UInt8} {rest : List UInt8}
    (hpair : ∀ b r, rest = b :: r → ¬ isPair a b = true)
    (htriple : ∀ b c r, rest = b :: c :: r → ¬ isTriple a b c = true)
    (hquadruple : ∀ b c d r, rest = b :: c :: d :: r → ¬ isQuadruple a b c d = true) :
    ofBytes (a :: rest) = ofBytes.ascii a :: ofBytes rest := by
  match rest with
  | [] => rw [ofBytes, ofBytes]
  | [b] => simp only [ofBytes, if_neg (hpair b _ rfl)]
  | [b, c] => simp only [ofBytes, if_neg (hpair b _ rfl), if_neg (htriple b c _ rfl)]
  | b :: c :: d :: rest =>
      rw [ofBytes, if_neg (hpair b _ rfl), if_neg (htriple b c _ rfl),
        if_neg (hquadruple b c d _ rfl)]

theorem ofBytes_ascii {a : UInt8} (h : a.toNat < 0x80) (rest : List UInt8) :
    ofBytes (a :: rest) = .char (Char.ofNat a.toNat) :: ofBytes rest := by
  have hascii : ofBytes.ascii a = .char (Char.ofNat a.toNat) := by
    rw [ofBytes.ascii, if_pos (UInt8.lt_iff_toNat_lt.mpr h)]
  have hpair (b : UInt8) : ¬ isPair a b = true := by rw [isPair_iff]; omega
  have htriple (b c : UInt8) : ¬ isTriple a b c = true := by rw [isTriple_iff]; omega
  have hquadruple (b c d : UInt8) : ¬ isQuadruple a b c d = true := by rw [isQuadruple_iff]; omega
  rw [ofBytes_alone (fun b _ _ => hpair b) (fun b c _ _ => htriple b c)
    (fun b c d _ _ => hquadruple b c d), hascii]

theorem ofBytes_pair {a b : UInt8} (h : isPair a b = true) (rest : List UInt8) :
    ofBytes (a :: b :: rest) = assembled (a.toNat % 32) [b] :: ofBytes rest := by
  match rest with
  | [] => simp only [ofBytes, if_pos h]
  | [c] => simp only [ofBytes, if_pos h]
  | c :: d :: rest => rw [ofBytes, if_pos h]

theorem ofBytes_triple {a b c : UInt8} (h : isTriple a b c = true) (rest : List UInt8) :
    ofBytes (a :: b :: c :: rest) = assembled (a.toNat % 16) [b, c] :: ofBytes rest := by
  have hpair : ¬ isPair a b = true := by
    rw [isTriple_iff] at h
    rw [isPair_iff]
    omega
  match rest with
  | [] => simp only [ofBytes, if_neg hpair, if_pos h]
  | d :: rest => rw [ofBytes, if_neg hpair, if_pos h]

theorem ofBytes_quadruple {a b c d : UInt8} (h : isQuadruple a b c d = true)
    (rest : List UInt8) :
    ofBytes (a :: b :: c :: d :: rest) = assembled (a.toNat % 8) [b, c, d] :: ofBytes rest := by
  have hlead := isQuadruple_iff.mp h
  have hpair : ¬ isPair a b = true := by rw [isPair_iff]; omega
  have htriple : ¬ isTriple a b c = true := by rw [isTriple_iff]; omega
  rw [ofBytes, if_neg hpair, if_neg htriple, if_pos h]

/-- A text can be read in two parts if the second one starts with an ASCII
character, since no other character has such a byte. -/
theorem ofBytes_append {c : UInt8} (hc : c.toNat < 0x80) (as bs : List UInt8) :
    ofBytes (as ++ c :: bs) = ofBytes as ++ ofBytes (c :: bs) := by
  have hpair (a : UInt8) : ¬ isPair a c = true := by rw [isPair_iff]; omega
  have htriple₂ (a d : UInt8) : ¬ isTriple a c d = true := by rw [isTriple_iff]; omega
  have htriple₃ (a b : UInt8) : ¬ isTriple a b c = true := by rw [isTriple_iff]; omega
  have hquadruple₂ (a d e : UInt8) : ¬ isQuadruple a c d e = true := by
    rw [isQuadruple_iff]; omega
  have hquadruple₃ (a b d : UInt8) : ¬ isQuadruple a b c d = true := by
    rw [isQuadruple_iff]; omega
  have hquadruple₄ (a b d : UInt8) : ¬ isQuadruple a b d c = true := by
    rw [isQuadruple_iff]; omega
  fun_induction ofBytes as with
  | case1 => rfl
  | case2 a =>
      rw [List.singleton_append]
      exact ofBytes_alone (by grind) (by grind) (by grind)
  | case3 a b h => exact ofBytes_pair h _
  | case4 a b h ih =>
      rw [List.cons_append, ofBytes_alone (by grind) (by grind) (by grind), ih]
      rfl
  | case5 a b d h ih => exact (ofBytes_pair h _).trans (congrArg _ ih)
  | case6 a b d _ h => exact ofBytes_triple h _
  | case7 a b d h h' ih =>
      rw [List.cons_append, ofBytes_alone (by grind) (by grind) (by grind), ih]
      rfl
  | case8 a b d e rest h ih => exact (ofBytes_pair h _).trans (congrArg _ ih)
  | case9 a b d e rest _ h ih => exact (ofBytes_triple h _).trans (congrArg _ ih)
  | case10 a b d e rest _ _ h ih => exact (ofBytes_quadruple h _).trans (congrArg _ ih)
  | case11 a b d e rest h h' h'' ih =>
      rw [List.cons_append, ofBytes_alone (by grind) (by grind) (by grind), ih]
      rfl

/-- Numbers below 256 are their own bytes. -/
theorem toNat_ofNat_of_lt {n : Nat} (h : n < 256) : (UInt8.ofNat n).toNat = n :=
  UInt8.toNat_ofNat_of_lt' h

theorem ofBytes_one_append {c : Char} (h : c.toNat ≤ 0x7F) (rest : List UInt8) :
    ofBytes ([UInt8.ofNat c.toNat] ++ rest) = .char c :: ofBytes rest := by
  have ha := toNat_ofNat_of_lt (n := c.toNat) (by omega)
  rw [List.singleton_append, ofBytes_ascii (by omega), ha, Char.ofNat_toNat]

theorem ofBytes_two_append {c : Char} (h : ¬ c.toNat ≤ 0x7F) (h' : c.toNat ≤ 0x7FF)
    (rest : List UInt8) :
    ofBytes ([UInt8.ofNat (c.toNat / 64 % 0x20 + 0xC0), UInt8.ofNat (c.toNat % 64 + 0x80)] ++
      rest) = .char c :: ofBytes rest := by
  have ha := toNat_ofNat_of_lt (n := c.toNat / 64 % 0x20 + 0xC0) (by omega)
  have hb := toNat_ofNat_of_lt (n := c.toNat % 64 + 0x80) (by omega)
  have hn : (c.toNat / 64 % 0x20 + 0xC0) % 32 * 64 + (c.toNat % 64 + 0x80) % 64 = c.toNat := by
    omega
  rw [List.cons_append, List.singleton_append, ofBytes_pair]
  · rw [assembled, List.foldl_cons, List.foldl_nil, ha, hb, hn, Char.ofNat_toNat]
  · rw [isPair_iff, ha, hb]
    omega

theorem ofBytes_three_append {c : Char} (h : ¬ c.toNat ≤ 0x7FF) (h' : c.toNat ≤ 0xFFFF)
    (rest : List UInt8) :
    ofBytes ([UInt8.ofNat (c.toNat / 4096 % 0x10 + 0xE0), UInt8.ofNat (c.toNat / 64 % 64 + 0x80),
      UInt8.ofNat (c.toNat % 64 + 0x80)] ++ rest) = .char c :: ofBytes rest := by
  have hc := toNat_lt c
  have ha := toNat_ofNat_of_lt (n := c.toNat / 4096 % 0x10 + 0xE0) (by omega)
  have hb := toNat_ofNat_of_lt (n := c.toNat / 64 % 64 + 0x80) (by omega)
  have hd := toNat_ofNat_of_lt (n := c.toNat % 64 + 0x80) (by omega)
  have hn : ((c.toNat / 4096 % 0x10 + 0xE0) % 16 * 64 + (c.toNat / 64 % 64 + 0x80) % 64) * 64 +
      (c.toNat % 64 + 0x80) % 64 = c.toNat := by
    omega
  rw [List.cons_append, List.cons_append, List.singleton_append, ofBytes_triple]
  · rw [assembled, List.foldl_cons, List.foldl_cons, List.foldl_nil, ha, hb, hd, hn,
      Char.ofNat_toNat]
  · rw [isTriple_iff, ha, hb, hd]
    omega

theorem ofBytes_four_append {c : Char} (h : ¬ c.toNat ≤ 0xFFFF) (rest : List UInt8) :
    ofBytes ([UInt8.ofNat (c.toNat / 262144 % 8 + 0xF0), UInt8.ofNat (c.toNat / 4096 % 64 + 0x80),
      UInt8.ofNat (c.toNat / 64 % 64 + 0x80), UInt8.ofNat (c.toNat % 64 + 0x80)] ++ rest) =
      .char c :: ofBytes rest := by
  have hc := toNat_lt c
  have ha := toNat_ofNat_of_lt (n := c.toNat / 262144 % 8 + 0xF0) (by omega)
  have hb := toNat_ofNat_of_lt (n := c.toNat / 4096 % 64 + 0x80) (by omega)
  have hd := toNat_ofNat_of_lt (n := c.toNat / 64 % 64 + 0x80) (by omega)
  have he := toNat_ofNat_of_lt (n := c.toNat % 64 + 0x80) (by omega)
  have hn : (((c.toNat / 262144 % 8 + 0xF0) % 8 * 64 + (c.toNat / 4096 % 64 + 0x80) % 64) * 64 +
      (c.toNat / 64 % 64 + 0x80) % 64) * 64 + (c.toNat % 64 + 0x80) % 64 = c.toNat := by
    omega
  rw [List.cons_append, List.cons_append, List.cons_append, List.singleton_append,
    ofBytes_quadruple]
  · rw [assembled, List.foldl_cons, List.foldl_cons, List.foldl_cons, List.foldl_nil, ha, hb, hd,
      he, hn, Char.ofNat_toNat]
  · rw [isQuadruple_iff, ha, hb, hd, he]
    omega

/-- The bytes of a character, with anything after them, are read as the
character. -/
theorem ofBytes_utf8EncodeChar_append (c : Char) (rest : List UInt8) :
    ofBytes (String.utf8EncodeChar c ++ rest) = .char c :: ofBytes rest := by
  rw [utf8EncodeChar_eq]
  split
  · next h => exact ofBytes_one_append h rest
  · split
    · next h h' => exact ofBytes_two_append h h' rest
    · split
      · next h h' => exact ofBytes_three_append h h' rest
      · next h => exact ofBytes_four_append h rest

/-- The bytes of characters, with anything after them, are read as these
characters. -/
theorem ofBytes_bytes_append (cs : List Char) (rest : List UInt8) :
    ofBytes (bytes (cs.map .char) ++ rest) = cs.map .char ++ ofBytes rest := by
  induction cs with
  | nil => rfl
  | cons c cs ih =>
      rw [List.map_cons, bytes_cons, Glyph.bytes, List.append_assoc,
        ofBytes_utf8EncodeChar_append, ih, List.cons_append]

/-- **Nothing is added**: the bytes of characters are read as these
characters. -/
theorem ofBytes_bytes_map_char (cs : List Char) :
    ofBytes (bytes (cs.map .char)) = cs.map .char := by
  have hread := ofBytes_bytes_append cs []
  rwa [List.append_nil, ofBytes, List.append_nil] at hread

theorem bytes_map_char (cs : List Char) :
    bytes (cs.map .char) = cs.flatMap String.utf8EncodeChar := by
  rw [bytes, List.flatMap_map]
  rfl

theorem toUTF8_eq (s : String) : s.toUTF8.data.toList = bytes (ofString s) := by
  rw [ofString, bytes_map_char, String.toUTF8, ← String.utf8Encode_toList, List.utf8Encode,
    List.data_toByteArray]

/-- The bytes of a string are read as the string. -/
theorem ofBytes_toUTF8 (s : String) : ofBytes s.toUTF8.data.toList = ofString s := by
  rw [toUTF8_eq]
  exact ofBytes_bytes_map_char s.toList

/-! ## Sizes -/

theorem length_bytes (t : Text) : t.bytes.length = t.size := by
  induction t with
  | nil => rfl
  | cons g t ih =>
      have hg : g.bytes.length = g.size := by
        cases g with
        | char c => exact String.length_utf8EncodeChar c
        | stray b => rfl
      rw [bytes_cons, List.length_append, hg, ih, size]

/-- The size of a text is the number of bytes it was read from. -/
theorem size_ofBytes (bs : List UInt8) : (ofBytes bs).size = bs.length := by
  rw [← length_bytes, bytes_ofBytes]

end Text

end Sequitur
