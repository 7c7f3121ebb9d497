import Sequitur.Formula.Printer
import Sequitur.Proofs.Formula.Grammar

/-!
# Sequitur.Proofs.Formula.RoundTrip

A printed formula is read back as the formula it was, in every style.

The printer compares how loosely formulas bind, as numbers; the grammar has
levels.  A formula as it is displayed has a level (`Formula.level`), whose
rank is its looseness, and what is generated at one level is generated at
every looser one (`Generates.mono`).  So the parentheses the printer leaves
out are those the grammar does without.

* `Prints spans ls`: the text of `spans` spells the lexemes `ls`.  A symbol
  may stand between any two texts (`Prints.symbol`), which is how a formula,
  its parentheses and its negations are put together;
* `Reads level spans p`: the text of `spans` is generated at a level as `p`.
  `reads_format` is the induction over formulas.
-/

namespace Sequitur

/-! ## Levels and how loosely they bind -/

/-- How loosely what a level generates binds. -/
def Level.rank : Level → Nat
  | .chain c => c.looseness
  | .negation => 1
  | .atomic => 0

theorem Connective.rank_operandLevel (c : Connective) :
    c.operandLevel.rank + 1 = c.looseness := by
  cases c <;> rfl

theorem Level.rank_injective {level level' : Level} (h : level.rank = level'.rank) :
    level = level' := by
  rcases level with (_ | _ | _ | _) | _ | _ <;> rcases level' with (_ | _ | _ | _) | _ | _ <;>
    cases h <;> rfl

/-- What is generated at a level is generated at every looser one. -/
theorem Generates.mono {level level' : Level} {ls : List Lexeme} {p : Formula}
    (h : Generates level ls p) (hle : level.rank ≤ level'.rank) : Generates level' ls p := by
  obtain ⟨n, hn⟩ := Nat.exists_eq_add_of_le hle
  clear hle
  induction n generalizing level' with
  | zero =>
      obtain rfl := Level.rank_injective hn
      exact h
  | succ n ih =>
      -- one level tighter, and from there in one step
      cases level' with
      | atomic => rw [Level.rank] at hn; omega
      | negation =>
          rw [Level.rank] at hn
          have htighter : Level.atomic.rank = level.rank + n := by rw [Level.rank]; omega
          exact .atomic (ih htighter)
      | chain c =>
          rw [Level.rank, ← c.rank_operandLevel] at hn
          exact (ih (Nat.succ.inj hn)).operand

/-! ## Printed text and the lexemes it spells -/

/-- The lexemes of a segment: one, or none. -/
def Segment.lexemes : Segment → List Lexeme
  | gap _ _ => []
  | lexeme l _ _ => [l]

theorem Segment.map_lexeme_tokensFrom (pos : Nat) (ps : List Segment) :
    (tokensFrom pos ps).map (·.lexeme) = ps.flatMap lexemes := by
  induction ps generalizing pos with
  | nil => rfl
  | cons p ps ih =>
      have hp : (p.tokens pos).map (·.lexeme) = p.lexemes := by cases p <;> rfl
      rw [tokensFrom, List.map_append, ih, hp, List.flatMap_cons]

theorem Spelling.lexemes_eq (w : Spelling) : w.lexemes = w.segments.flatMap Segment.lexemes :=
  Segment.map_lexeme_tokensFrom 0 w.segments

/-- A segment that is no name may stand between any others. -/
theorem Segment.separated_append_cons {ps qs : List Segment} {q : Segment}
    (hps : separated ps = true) (hq : q.isName = false) (hqs : separated qs = true) :
    separated (ps ++ q :: qs) = true := by
  induction ps with
  | nil => exact Token.separated_cons hq hqs
  | cons p ps ih =>
      rw [separated, Bool.and_eq_true] at hps
      obtain ⟨hp, hps⟩ := hps
      rw [List.cons_append, separated, Bool.and_eq_true]
      refine ⟨?_, ih hps⟩
      cases ps with
      | nil => rw [List.nil_append, startWithName, hq, Bool.and_false, Bool.not_false]
      | cons _ _ => exact hp

theorem Name.isNameChar_of_mem (x : Name) {c : Char} (h : c ∈ x.toString.toList) :
    isNameChar c = true := by
  rw [toString, String.toList_ofList, chars, List.mem_cons, List.mem_map] at h
  rcases h with rfl | ⟨d, -, rfl⟩
  · exact isNameChar_of_isLetter x.first.property
  · exact d.property

/-- The lexeme that a symbol is, if it stands in formulas. -/
def Symbol.lexeme? : Symbol → Option Lexeme
  | lparen => some .lparen
  | rparen => some .rparen
  | falsity => some .falsity
  | conj => some (.op .conj)
  | disj => some (.op .disj)
  | neg => some .neg
  | impl => some (.op .impl)
  | equiv => some (.op .equiv)
  | turnstile => none
  | comma => none

/-- Both spellings of a symbol are spellings of its lexeme. -/
theorem Symbol.spelling_mem {s : Symbol} {l : Lexeme} (h : s.lexeme? = some l) (unicode : Bool) :
    (s.spelling unicode).toList ∈ l.spellings := by
  cases s <;> cases h <;> cases unicode <;> decide

theorem Symbol.isName_eq_false {s : Symbol} {l : Lexeme} (h : s.lexeme? = some l)
    {cs : List Char} (hcs : cs ∈ l.spellings) : (Segment.lexeme l cs hcs).isName = false := by
  cases s <;> cases h <;> rfl

theorem Connective.lexeme?_symbol (c : Connective) : c.symbol.lexeme? = some (.op c) := by
  cases c <;> rfl

theorem Span.toList_plainText_append (left right : List Span) :
    (plainText (left ++ right)).toList = (plainText left).toList ++ (plainText right).toList := by
  induction left with
  | nil => rfl
  | cons s left ih =>
      rw [List.cons_append, plainText, plainText, String.toList_append, ih, String.toList_append,
        List.append_assoc]

/-- `Prints spans ls`: the text of the spans spells the lexemes. -/
def Prints (spans : List Span) (ls : List Lexeme) : Prop :=
  ∃ w : Spelling, w.text = Text.ofString (Span.plainText spans) ∧ w.lexemes = ls

theorem prints_nil : Prints [] [] := ⟨⟨[], rfl⟩, rfl, rfl⟩

theorem prints_name (x : Name) (cls : SpanClass) :
    Prints [{ text := x.toString, cls := cls }] [.name x] := by
  have hspelling : x.chars ∈ (Lexeme.name x).spellings := List.mem_cons_self
  refine ⟨⟨[.lexeme (.name x) x.chars hspelling], rfl⟩, ?_, rfl⟩
  have htext : (Span.plainText [{ text := x.toString, cls := cls }]).toList = x.chars := by
    rw [Span.plainText, Span.plainText, String.toList_append, Name.toString, String.toList_ofList]
    exact List.append_nil _
  rw [Text.ofString, htext]
  exact List.append_nil _

/-- A symbol between two texts. -/
theorem Prints.symbol {left right : List Span} {ls rs : List Lexeme} {s : Symbol} {l : Lexeme}
    (hleft : Prints left ls) (hs : s.lexeme? = some l) (hright : Prints right rs) (st : Style) :
    Prints (left ++ s.span st :: right) (ls ++ l :: rs) := by
  obtain ⟨v, hv, rfl⟩ := hleft
  obtain ⟨w, hw, rfl⟩ := hright
  have hspelling := s.spelling_mem hs st.unicode
  refine ⟨⟨v.segments ++ .lexeme l _ hspelling :: w.segments,
    Segment.separated_append_cons v.separated (s.isName_eq_false hs hspelling) w.separated⟩, ?_, ?_⟩
  · rw [Text.ofString, Span.toList_plainText_append, Span.plainText, String.toList_append,
      List.map_append, List.map_append]
    rw [Text.ofString] at hv hw
    rw [← hv, ← hw, Spelling.text, Segment.textOf, List.flatMap_append, List.flatMap_cons]
    rfl
  · rw [Spelling.lexemes_eq, Spelling.lexemes_eq, Spelling.lexemes_eq, List.flatMap_append,
      List.flatMap_cons]
    rfl

/-! ## Printed formulas -/

/-- `Reads level spans p`: the text of the spans is generated at a level, as
`p`. -/
def Reads (level : Level) (spans : List Span) (p : Formula) : Prop :=
  ∃ ls, Prints spans ls ∧ Generates level ls p

theorem Reads.mono {level level' : Level} {spans : List Span} {p : Formula}
    (h : Reads level spans p) (hle : level.rank ≤ level'.rank) : Reads level' spans p := by
  obtain ⟨ls, hls, hp⟩ := h
  exact ⟨ls, hls, hp.mono hle⟩

theorem rank_le_equiv (level : Level) : level.rank ≤ (Level.chain .equiv).rank := by
  rcases level with (_ | _ | _ | _) | _ | _ <;> decide

/-- Between parentheses any formula is atomic. -/
theorem Reads.parens {level : Level} {spans : List Span} {p : Formula} (h : Reads level spans p)
    (st : Style) : Reads .atomic (Symbol.lparen.span st :: spans ++ [Symbol.rparen.span st]) p := by
  obtain ⟨ls, hls, hp⟩ := h.mono (rank_le_equiv level)
  have hclosed := hls.symbol (s := .rparen) rfl prints_nil st
  exact ⟨_, prints_nil.symbol (s := .lparen) rfl hclosed st, .group hp⟩

/-- A formula that needs no parentheses binds tightly enough to do without. -/
theorem Reads.wrap {level level' : Level} {spans : List Span} {p : Formula} {need : Bool}
    (h : Reads level spans p) (hneed : need = false → level.rank ≤ level'.rank) (st : Style) :
    Reads level' (Formula.wrap st need spans) p := by
  cases need with
  | false => exact h.mono (hneed rfl)
  | true => exact (h.parens st).mono (Nat.zero_le _)

theorem Reads.neg {spans : List Span} {p : Formula} (h : Reads .negation spans p) (st : Style) :
    Reads .negation (Symbol.neg.span st :: spans) p.neg := by
  obtain ⟨ls, hls, hp⟩ := h
  exact ⟨_, prints_nil.symbol (s := .neg) rfl hls st, .neg hp⟩

theorem Reads.bin {c : Connective} {left right : List Span} {l r : Formula}
    (hl : Reads c.operandLevel left l) (hr : Reads (.chain c) right r) (st : Style) :
    Reads (.chain c) (left ++ c.symbol.span st :: right) (.bin c l r) := by
  obtain ⟨ls, hls, hl⟩ := hl
  obtain ⟨rs, hrs, hr⟩ := hr
  exact ⟨_, hls.symbol c.lexeme?_symbol hrs st, hl.cons hr⟩

namespace Formula

/-- The level of a formula as it is displayed. -/
def level (st : Style) : Formula → Level
  | falsity => .atomic
  | var _ => .atomic
  | bin c _ r => if st.negation && c = .impl && r = falsity then .negation else .chain c

theorem rank_level (st : Style) (p : Formula) : (p.level st).rank = p.looseness st := by
  cases p with
  | falsity => rfl
  | var x => rfl
  | bin c l r =>
      rw [level, looseness]
      split <;> rfl

/-- A printed formula is generated at its level. -/
theorem reads_format (st : Style) (p : Formula) : Reads (p.level st) (p.format st) p := by
  induction p with
  | falsity => exact ⟨_, prints_nil.symbol (s := .falsity) rfl prints_nil st, .falsity⟩
  | var x => exact ⟨_, prints_name x .name, .name x⟩
  | bin c l r ihl ihr =>
      rw [level, format]
      split
      · next h =>
          simp only [Bool.and_eq_true, decide_eq_true_eq] at h
          obtain ⟨⟨-, rfl⟩, rfl⟩ := h
          refine (ihl.wrap ?_ st).neg st
          intro hneed
          rw [rank_level]
          exact Nat.not_lt.mp (of_decide_eq_false hneed)
      · refine (ihl.wrap ?_ st).bin (ihr.wrap ?_ st) st
        · intro hneed
          have hlt := Nat.not_le.mp (of_decide_eq_false hneed)
          rw [← c.rank_operandLevel] at hlt
          rw [rank_level]
          exact Nat.le_of_lt_succ hlt
        · intro hneed
          rw [rank_level]
          exact Nat.not_lt.mp (of_decide_eq_false hneed)

theorem parse_of_reads {level : Level} {spans : List Span} {p : Formula}
    (h : Reads level spans p) : parse (Text.ofString (Span.plainText spans)) = .ok p := by
  obtain ⟨_, ⟨w, htext, rfl⟩, hp⟩ := h.mono (rank_le_equiv level)
  exact parse_eq_ok_iff.mpr ⟨w.tokens, Token.scan_eq_ok_iff.mpr ⟨w, htext, rfl⟩, hp⟩

/-- **A printed formula is read back as itself**, in every style, and also
when it is passed on as bytes. -/
theorem parse_print (st : Style) (p : Formula) :
    parse (Text.ofString (p.print st)) = .ok p ∧
      parse (Text.ofBytes (p.print st).toUTF8.data.toList) = .ok p := by
  have hread := parse_of_reads (reads_format st p)
  refine ⟨hread, ?_⟩
  rw [Text.ofBytes_toUTF8]
  exact hread

end Formula

end Sequitur
