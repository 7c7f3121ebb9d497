import Mathlib.Data.List.DropRight
import Sequitur.Text.Blank

/-!
# Sequitur.Proofs.Text.Blank

Blanks at the ends of a text and between its words.  Trimming a text twice is
trimming it once, and a text without blanks at its ends is left as it is
(`Bare`).  Words that are joined by separators are the fields of what they are
joined to (`fields_append`, `fields_word`).
-/

namespace Sequitur

namespace Text

/-! ## Trimming -/

/-- Dropping the blanks at the end keeps a glyph in front that is none. -/
theorem trimRight_cons {g : Glyph} (hg : g.isBlank = false) (t : Text) :
    trimRight (g :: t) = g :: trimRight t := by
  rw [trimRight, List.reverse_cons, List.dropWhile_append]
  split
  · next hempty =>
      rw [List.isEmpty_iff] at hempty
      simp [trimRight, hempty, hg]
  · rw [List.reverse_append]
    rfl

/-- Dropping the blanks at both ends keeps a glyph in front that is none. -/
theorem trim_cons {g : Glyph} (hg : g.isBlank = false) (t : Text) :
    trim (g :: t) = g :: trimRight t := by
  rw [trim, trimLeft, List.dropWhile_cons_of_neg (by simp [hg]), trimRight_cons hg]

/-- A blank in front is dropped. -/
theorem trim_cons_of_isBlank {g : Glyph} (hg : g.isBlank = true) (t : Text) :
    trim (g :: t) = trim t := by
  rw [trim, trimLeft, List.dropWhile_cons_of_pos hg, ← trimLeft, ← trim]

theorem trimRight_trimRight (t : Text) : t.trimRight.trimRight = t.trimRight :=
  List.rdropWhile_idempotent Glyph.isBlank t

/-- What is left without the blanks in front starts with no blank. -/
theorem isBlank_of_trimLeft {t rest : Text} {g : Glyph} (h : t.trimLeft = g :: rest) :
    g.isBlank = false := by
  have hhead := List.head?_dropWhile_not Glyph.isBlank t
  rw [← trimLeft, h] at hhead
  exact hhead

/-- Once trimmed, a text has nothing left to trim. -/
theorem trim_trim (t : Text) : t.trim.trim = t.trim := by
  cases h : t.trimLeft with
  | nil =>
      have htrim : t.trim = [] := by rw [trim, h]; rfl
      rw [htrim]
      rfl
  | cons g rest =>
      have hg : g.isBlank = false := isBlank_of_trimLeft h
      have htrim : t.trim = g :: trimRight rest := by rw [trim, h, trimRight_cons hg]
      rw [htrim, trim_cons hg, trimRight_trimRight]

/-- Blanks in front do not count. -/
theorem trim_append_left {blanks : Text} (h : blanks.isBlank = true) (t : Text) :
    trim (blanks ++ t) = trim t := by
  rw [trim, trimLeft, List.dropWhile_append_of_pos (List.all_eq_true.mp h), ← trimLeft, ← trim]

theorem trimRight_append {blanks : Text} (h : blanks.isBlank = true) (t : Text) :
    trimRight (t ++ blanks) = trimRight t := by
  have hreverse : ∀ g ∈ blanks.reverse, g.isBlank = true := by
    intro g hg
    exact List.all_eq_true.mp h g (List.mem_reverse.mp hg)
  rw [trimRight, List.reverse_append, List.dropWhile_append_of_pos hreverse, ← trimRight]

/-- Blanks at the end do not count. -/
theorem trim_append_right {blanks : Text} (h : blanks.isBlank = true) (t : Text) :
    trim (t ++ blanks) = trim t := by
  rw [trim, trimLeft, List.dropWhile_append]
  split
  · next hempty =>
      have hleft : t.trimLeft = [] := List.isEmpty_iff.mp hempty
      rw [List.dropWhile_eq_nil_iff.mpr (List.all_eq_true.mp h), trim, hleft]
  · rw [trimRight_append h, ← trimLeft, ← trim]

/-- What trimming leaves starts with the first glyph that is no blank. -/
theorem head?_trim (t : Text) : t.trim.head? = t.trimLeft.head? := by
  rw [trim]
  cases h : t.trimLeft with
  | nil => rfl
  | cons g rest =>
      rw [trimRight_cons (isBlank_of_trimLeft h)]
      rfl

theorem trim_eq_nil_iff {t : Text} : t.trim = [] ↔ t.isBlank = true := by
  rw [← List.head?_eq_none_iff, head?_trim, List.head?_eq_none_iff, trimLeft,
    List.dropWhile_eq_nil_iff, isBlank, List.all_eq_true]

/-- The text neither starts nor ends with a blank. -/
structure Bare (t : Text) : Prop where
  head : ∀ g ∈ t.head?, g.isBlank = false
  last : ∀ g ∈ t.getLast?, g.isBlank = false

theorem bare_of_forall {t : Text} (h : ∀ g ∈ t, g.isBlank = false) : t.Bare where
  head g hg := h g (List.mem_of_head? hg)
  last g hg := h g (List.mem_of_getLast? hg)

/-- What stands between two bare texts does not matter. -/
theorem Bare.append {a b : Text} (ha : a.Bare) (hb : b.Bare) (hane : a ≠ []) (hbne : b ≠ [])
    (middle : Text) : Bare (a ++ (middle ++ b)) where
  head g hg := ha.head g (by rwa [List.head?_append_of_ne_nil a hane] at hg)
  last g hg := by
    rw [← List.append_assoc, List.getLast?_append_of_ne_nil _ hbne] at hg
    exact hb.last g hg

/-- A bare text is left as it is. -/
theorem Bare.trim_eq {t : Text} (h : t.Bare) : t.trim = t := by
  cases t with
  | nil => rfl
  | cons g rest =>
      have hg : g.isBlank = false := h.head g rfl
      have hright : trimRight (g :: rest) = g :: rest := by
        apply List.rdropWhile_eq_self_iff.mpr
        intro hne
        simp [h.last _ (List.getLast?_eq_getLast_of_ne_nil hne)]
      rw [trimRight_cons hg] at hright
      rw [trim_cons hg, hright]

/-! ## Words -/

theorem ofString_append (s t : String) : ofString (s ++ t) = ofString s ++ ofString t := by
  rw [ofString, String.toList_append, List.map_append, ofString, ofString]

/-- The first word of a text ends where the first blank is. -/
theorem firstWord_append {word : Text} (hword : ∀ g ∈ word, g.isBlank = false) {b : Glyph}
    (hb : b.isBlank = true) (rest : Text) : firstWord (word ++ b :: rest) = (word, b :: rest) := by
  have hall : ∀ g ∈ word, (!g.isBlank) = true := by simpa using hword
  rw [firstWord, List.takeWhile_append_of_pos hall, List.dropWhile_append_of_pos hall]
  simp [hb]

/-- A text without blanks is a single word. -/
theorem firstWord_word {word : Text} (hword : ∀ g ∈ word, g.isBlank = false) :
    firstWord word = (word, []) := by
  have hall : ∀ g ∈ word, (!g.isBlank) = true := by simpa using hword
  rw [firstWord, List.takeWhile_eq_self_iff.mpr hall, List.dropWhile_eq_nil_iff.mpr hall]

section

variable {sep : Glyph → Bool} {word : Text}

theorem fields_cons_of_sep {b : Glyph} (hb : sep b = true) (rest : Text) :
    fields sep (b :: rest) = fields sep rest := by
  rw [fields.eq_def]
  simp [hb]

/-- A glyph before a separator is a field. -/
theorem fields_cons_cons_of_sep {g b : Glyph} (hg : sep g = false) (hb : sep b = true)
    (rest : Text) : fields sep (g :: b :: rest) = [g] :: fields sep rest := by
  rw [fields.eq_def]
  dsimp only
  rw [fields_cons_of_sep hb]
  cases fields sep rest <;> simp [hg, hb]

/-- A glyph before another one that is no separator belongs to its field. -/
theorem fields_cons_cons {g h : Glyph} (hg : sep g = false) (hh : sep h = false) {rest part : Text}
    {parts : List Text} (hrest : fields sep (h :: rest) = part :: parts) :
    fields sep (g :: h :: rest) = (g :: part) :: parts := by
  rw [fields.eq_def]
  dsimp only
  rw [hrest]
  simp [hg, hh]

/-- A word without separators is its only field. -/
theorem fields_word (hne : word ≠ []) (hword : ∀ g ∈ word, sep g = false) :
    fields sep word = [word] := by
  induction word with
  | nil => contradiction
  | cons g word ih =>
      obtain ⟨hg, hrest⟩ := List.forall_mem_cons.mp hword
      cases word with
      | nil => simp [fields, hg]
      | cons h word =>
          have hh : sep h = false := hrest h List.mem_cons_self
          exact fields_cons_cons hg hh (ih (List.cons_ne_nil h word) hrest)

/-- A word before a separator is the first field. -/
theorem fields_append (hne : word ≠ []) (hword : ∀ g ∈ word, sep g = false) {b : Glyph}
    (hb : sep b = true) (rest : Text) :
    fields sep (word ++ b :: rest) = word :: fields sep rest := by
  induction word with
  | nil => contradiction
  | cons g word ih =>
      obtain ⟨hg, hrest⟩ := List.forall_mem_cons.mp hword
      cases word with
      | nil => exact fields_cons_cons_of_sep hg hb rest
      | cons h word =>
          have hh : sep h = false := hrest h List.mem_cons_self
          exact fields_cons_cons hg hh (ih (List.cons_ne_nil h word) hrest)

end

end Text

end Sequitur
