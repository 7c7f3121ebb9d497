import Mathlib.Data.List.Chain
import Sequitur.Proofs.Formula.Grammar

/-!
# Sequitur.Proofs.Formula.Layout

Lexemes laid out in a text.  Each lexeme is written in one of its spellings, with any
separating characters before it, of which there is at least one between two names; more of
them may stand at the end.  A `Layout` is such a text in its parts, and says at which byte
each lexeme is written.

A layout is a spelling in which the separating characters are gathered: every list of
segments is that of words and what is behind them (`Segment.exists_ofWords_eq`), and names
touch in the segments where they do in the words (`Segment.separated_ofWords_iff`).  So what
is known of spellings carries over, and the scanner undoes exactly the layouts
(`scan_eq_ok_iff_layout`).
-/

namespace Sequitur

/-- Characters in UTF-8. -/
def utf8 (cs : List Char) : List UInt8 := cs.flatMap String.utf8EncodeChar

theorem utf8_append (cs ds : List Char) : utf8 (cs ++ ds) = utf8 cs ++ utf8 ds :=
  List.flatMap_append

theorem size_map_char (cs : List Char) : Text.size (cs.map .char) = (utf8 cs).length := by
  rw [← Text.length_bytes, Text.bytes_map_char, utf8]

/-- A character that separates lexemes. -/
abbrev GapChar := { c : Char // isGap c = true }

/-- A lexeme in a text: what separates it from the one before, and how it is written. -/
structure SpelledLexeme where
  gap : List GapChar
  lexeme : Lexeme
  spelling : List Char
  spelling_mem : spelling ∈ lexeme.spellings

namespace SpelledLexeme

/-- Whether a lexeme is a name. -/
def isName (w : SpelledLexeme) : Bool :=
  match w.lexeme with
  | .name _ => true
  | _ => false

/-- The characters before a lexeme. -/
def gapChars (w : SpelledLexeme) : List Char := w.gap.map (·.val)

/-- The characters of a lexeme and those before it. -/
def chars (w : SpelledLexeme) : List Char := w.gapChars ++ w.spelling

/-- Two lexemes in a row are separated if both are names. -/
def Apart (v w : SpelledLexeme) : Prop := v.isName = true → w.isName = true → w.gap ≠ []

end SpelledLexeme

/-- Lexemes laid out in a text, and what separates the last one from its end. -/
structure Layout where
  words : List SpelledLexeme
  trail : List GapChar
  apart : words.IsChain SpelledLexeme.Apart

namespace Layout

/-- The characters of the text. -/
def chars (l : Layout) : List Char := l.words.flatMap SpelledLexeme.chars ++ l.trail.map (·.val)

/-- The bytes of the text. -/
def bytes (l : Layout) : List UInt8 := utf8 l.chars

/-- The characters before the lexeme at a position, which is the given one. -/
def before (l : Layout) (i : Nat) (w : SpelledLexeme) : List Char :=
  (l.words.take i).flatMap SpelledLexeme.chars ++ w.gapChars

/-- The lexemes, each with the number of bytes before it. -/
def tokens (l : Layout) : List Token :=
  l.words.mapIdx fun i w => ⟨w.lexeme, (utf8 (l.before i w)).length⟩

end Layout

/-! ## Layouts as segments -/

namespace Segment

/-- The segment of a separating character. -/
def ofGapChar (c : GapChar) : Segment := .gap c.val c.property

/-- The segments of a lexeme and of what is before it. -/
def ofWord (w : SpelledLexeme) : List Segment :=
  w.gap.map ofGapChar ++ [.lexeme w.lexeme w.spelling w.spelling_mem]

/-- The segments of lexemes and of what is behind them. -/
def ofWords (ws : List SpelledLexeme) (trail : List GapChar) : List Segment :=
  ws.flatMap ofWord ++ trail.map ofGapChar

theorem ofWords_cons (w : SpelledLexeme) (ws : List SpelledLexeme) (trail : List GapChar) :
    ofWords (w :: ws) trail =
      w.gap.map ofGapChar ++
        .lexeme w.lexeme w.spelling w.spelling_mem :: ofWords ws trail := by
  simp [ofWords, ofWord]

/-- **Every list of segments comes from a layout.** -/
theorem exists_ofWords_eq (ps : List Segment) : ∃ ws trail, ofWords ws trail = ps := by
  induction ps with
  | nil => exact ⟨[], [], rfl⟩
  | cons p ps ih =>
      obtain ⟨ws, trail, rfl⟩ := ih
      cases p with
      | lexeme l cs h => exact ⟨⟨[], l, cs, h⟩ :: ws, trail, rfl⟩
      | gap c h =>
          -- the character joins the gap of the next lexeme, if there is one
          cases ws with
          | nil => exact ⟨[], ⟨c, h⟩ :: trail, rfl⟩
          | cons w ws => exact ⟨{ w with gap := ⟨c, h⟩ :: w.gap } :: ws, trail, rfl⟩

theorem separated_gaps_append (gaps : List GapChar) (ps : List Segment) :
    separated (gaps.map ofGapChar ++ ps) = separated ps := by
  induction gaps with
  | nil => rfl
  | cons c gaps ih =>
      rw [List.map_cons, List.cons_append, separated, ih]
      rfl

theorem isName_lexeme (w : SpelledLexeme) :
    (Segment.lexeme w.lexeme w.spelling w.spelling_mem).isName = w.isName := by
  obtain ⟨gap, l, cs, h⟩ := w
  cases l <;> rfl

theorem startWithName_ofWords_nil (trail : List GapChar) :
    startWithName (ofWords [] trail) = false := by
  cases trail <;> rfl

theorem startWithName_ofWords_cons (w : SpelledLexeme) (ws : List SpelledLexeme)
    (trail : List GapChar) :
    startWithName (ofWords (w :: ws) trail) = (w.gap.isEmpty && w.isName) := by
  rw [ofWords_cons]
  cases hgap : w.gap with
  | nil => simp [startWithName, isName_lexeme]
  | cons c gaps => rfl

/-- **Two names touch** in the segments where they do in the layout. -/
theorem separated_ofWords_iff (ws : List SpelledLexeme) (trail : List GapChar) :
    separated (ofWords ws trail) = true ↔ ws.IsChain SpelledLexeme.Apart := by
  induction ws with
  | nil =>
      have hsep := separated_gaps_append trail []
      simpa [ofWords, separated] using hsep
  | cons w ws ih =>
      rw [ofWords_cons, separated_gaps_append, separated, Bool.and_eq_true, ih, isName_lexeme]
      cases ws with
      | nil => simp [startWithName_ofWords_nil]
      | cons v ws =>
          rw [startWithName_ofWords_cons, List.isChain_cons_cons]
          apply and_congr_left'
          simp only [SpelledLexeme.Apart, Bool.not_eq_true', Bool.and_eq_false_iff,
            List.isEmpty_eq_false_iff, ne_eq]
          grind

theorem textOf_gaps (gaps : List GapChar) :
    textOf (gaps.map ofGapChar) = (gaps.map (·.val)).map .char := by
  induction gaps with
  | nil => rfl
  | cons c gaps ih =>
      rw [List.map_cons, textOf, List.flatMap_cons, ← textOf, ih]
      rfl

/-- The text of the segments of a layout. -/
theorem textOf_ofWords (ws : List SpelledLexeme) (trail : List GapChar) :
    textOf (ofWords ws trail) =
      (ws.flatMap SpelledLexeme.chars ++ trail.map (·.val)).map .char := by
  induction ws with
  | nil => exact textOf_gaps trail
  | cons w ws ih =>
      have hgap := textOf_gaps w.gap
      rw [textOf] at hgap ih ⊢
      rw [ofWords_cons, List.flatMap_append, hgap, List.flatMap_cons, ih]
      simp [SpelledLexeme.chars, SpelledLexeme.gapChars, text, Segment.chars]

theorem tokensFrom_gaps_append (gaps : List GapChar) (ps : List Segment) (pos : Nat) :
    tokensFrom pos (gaps.map ofGapChar ++ ps) =
      tokensFrom (pos + (utf8 (gaps.map (·.val))).length) ps := by
  induction gaps generalizing pos with
  | nil => rfl
  | cons c gaps ih =>
      have hsize : (ofGapChar c).text.size = (utf8 [c.val]).length := size_map_char [c.val]
      have hutf8 : utf8 (c.val :: gaps.map (·.val)) = utf8 [c.val] ++ utf8 (gaps.map (·.val)) :=
        utf8_append [c.val] _
      rw [List.map_cons, List.cons_append, tokensFrom, hsize, ih, List.map_cons, hutf8,
        List.length_append, Nat.add_assoc]
      rfl

/-- The tokens of the segments of a layout, the first character being at offset `pos`. -/
theorem tokensFrom_ofWords (ws : List SpelledLexeme) (trail : List GapChar) (pos : Nat) :
    tokensFrom pos (ofWords ws trail) =
      ws.mapIdx fun i w =>
        ⟨w.lexeme,
          pos + (utf8 ((ws.take i).flatMap SpelledLexeme.chars ++ w.gapChars)).length⟩ := by
  induction ws generalizing pos with
  | nil =>
      have hnone := tokensFrom_gaps_append trail [] pos
      rwa [List.append_nil] at hnone
  | cons w ws ih =>
      have hsize : (Segment.lexeme w.lexeme w.spelling w.spelling_mem).text.size =
          (utf8 w.spelling).length := size_map_char w.spelling
      rw [ofWords_cons, tokensFrom_gaps_append, tokensFrom, hsize, ih, List.mapIdx_cons]
      simp [tokens, SpelledLexeme.chars, SpelledLexeme.gapChars, utf8_append, Nat.add_assoc]

end Segment

/-! ## All texts -/

namespace Layout

/-- The spelling that a layout is. -/
def spelling (l : Layout) : Spelling where
  segments := Segment.ofWords l.words l.trail
  separated := (Segment.separated_ofWords_iff l.words l.trail).mpr l.apart

theorem exists_spelling_eq (w : Spelling) : ∃ l : Layout, l.spelling = w := by
  obtain ⟨ps, hps⟩ := w
  obtain ⟨ws, trail, rfl⟩ := Segment.exists_ofWords_eq ps
  exact ⟨⟨ws, trail, (Segment.separated_ofWords_iff ws trail).mp hps⟩, rfl⟩

theorem text_spelling (l : Layout) : l.spelling.text = l.chars.map .char :=
  Segment.textOf_ofWords l.words l.trail

theorem tokens_spelling (l : Layout) : l.spelling.tokens = l.tokens := by
  have htokens := Segment.tokensFrom_ofWords l.words l.trail 0
  simp only [Nat.zero_add] at htokens
  exact htokens

theorem bytes_spelling (l : Layout) : l.spelling.text.bytes = l.bytes := by
  rw [l.text_spelling, Text.bytes_map_char, bytes, utf8]

end Layout

/-- **The scanner undoes every layout, and nothing else.**  If lexemes are laid out in a text,
in any spellings and with any separating characters, of which there are some between two
names, it finds these lexemes, each at the byte where it is written.  A text in
which it finds tokens is laid out so. -/
theorem scan_eq_ok_iff_layout (bs : List UInt8) (ts : List Token) :
    Token.scan (Text.ofBytes bs) = .ok ts ↔ ∃ l : Layout, l.bytes = bs ∧ l.tokens = ts := by
  constructor
  · intro hscan
    obtain ⟨w, htext, htokens⟩ := Token.scan_eq_ok_iff.mp hscan
    obtain ⟨l, rfl⟩ := Layout.exists_spelling_eq w
    refine ⟨l, ?_, l.tokens_spelling.symm.trans htokens⟩
    rw [← l.bytes_spelling, htext, Text.bytes_ofBytes]
  · rintro ⟨l, rfl, rfl⟩
    rw [← l.bytes_spelling, l.spelling.ofBytes_bytes_text]
    exact Token.scan_eq_ok_iff.mpr ⟨l.spelling, rfl, l.tokens_spelling⟩

end Sequitur
