import Sequitur.Proofs.Formula.RoundTrip

/-!
# Sequitur.Proofs.Formula.Parentheses

The printer writes no parentheses that could be left out.

The argument is one of counting.  A formula is printed with a number of pairs
of parentheses (`pairs`) and a number of negation signs (`signs`).  However it
is generated by the grammar, if there are that many negation signs then there
are at least that many parentheses (`Generates.pairs_le`).  The signs have to be
counted because an implication to falsity may be written in two ways, and one
of them binds more tightly than the other.

A parenthesis is written in one way and a negation sign in two, and none of
these characters is written for anything else, so both can be counted in the
text (`exists_generates_of_parse`).  A text from which a pair has been deleted
has as many negation signs as before, and too few parentheses.
-/

namespace Sequitur

/-! ## Chains, one operand at a time -/

/-- Induction over the grammar in which a chain is an operand, or an operand in
front of a shorter chain. -/
@[elab_as_elim]
theorem Generates.chainInduction
    {motive : ∀ {level : Level} {ls : List Lexeme} {p : Formula}, Generates level ls p → Prop}
    (operand : ∀ {c ls p} (h : Generates (Connective.operandLevel c) ls p),
      motive h → motive h.operand)
    (cons : ∀ {c ls rest l r} (hl : Generates (Connective.operandLevel c) ls l)
      (hr : Generates (.chain c) rest r), motive hl → motive hr → motive (hl.cons hr))
    (neg : ∀ {ls p} (h : Generates .negation ls p), motive h → motive h.neg)
    (atomic : ∀ {ls p} (h : Generates .atomic ls p), motive h → motive h.atomic)
    (falsity : motive Generates.falsity) (name : ∀ x, motive (Generates.name x))
    (group : ∀ {ls p} (h : Generates (.chain .equiv) ls p), motive h → motive h.group)
    {level : Level} {ls : List Lexeme} {p : Formula} (h : Generates level ls p) : motive h := by
  suffices hall : ∀ h' : Generates level ls p, motive h' from hall h
  induction h with
  | neg h ih => exact fun _ => neg h (ih h)
  | atomic h ih => exact fun _ => atomic h (ih h)
  | falsity => exact fun _ => falsity
  | name x => exact fun _ => name x
  | group h ih => exact fun _ => group h (ih h)
  | chain c first more hoperands ih =>
      induction more generalizing first with
      | nil =>
          rw [List.flatMap_nil, List.append_nil]
          obtain ⟨hfirst, -⟩ := List.forall_mem_cons.mp hoperands
          exact fun _ => operand hfirst (ih first List.mem_cons_self hfirst)
      | cons next more ihmore =>
          obtain ⟨hfirst, hmore⟩ := List.forall_mem_cons.mp hoperands
          obtain ⟨ihfirst, ihnext⟩ := List.forall_mem_cons.mp ih
          have hrest := Generates.chain c next more hmore
          exact fun _ => cons hfirst hrest (ihfirst hfirst) (ihmore next hmore ihnext hrest)

/-! ## Pairs and signs -/

namespace Formula

/-- Whether a formula is printed as a negation if it joins its operands by a
connective. -/
def IsSugared (st : Style) (c : Connective) (r : Formula) : Prop :=
  (st.negation && c = .impl && r = falsity) = true

instance (st : Style) (c : Connective) (r : Formula) : Decidable (IsSugared st c r) :=
  inferInstanceAs (Decidable (_ = true))

/-- The pair of parentheses around a formula that binds too loosely for a level. -/
def outerPair (st : Style) (level : Level) (p : Formula) : Nat :=
  if level.rank < p.looseness st then 1 else 0

/-- The pairs of parentheses that a formula is printed with. -/
def pairs (st : Style) : Formula → Nat
  | falsity => 0
  | var _ => 0
  | bin c l r =>
    if IsSugared st c r then l.outerPair st .negation + l.pairs st
    else
      l.outerPair st c.operandLevel + l.pairs st + (r.outerPair st (.chain c) + r.pairs st)

/-- The negation signs that a formula is printed with. -/
def signs (st : Style) : Formula → Nat
  | falsity => 0
  | var _ => 0
  | bin c l r => if IsSugared st c r then l.signs st + 1 else l.signs st + r.signs st

variable {st : Style} {p l r : Formula} {c : Connective}

theorem IsSugared.eq_falsity (h : IsSugared st c r) : r = falsity := by
  simp only [IsSugared, Bool.and_eq_true, decide_eq_true_eq] at h
  exact h.2

theorem outerPair_le_one (st : Style) (level : Level) (p : Formula) :
    p.outerPair st level ≤ 1 := by
  rw [outerPair]
  split <;> omega

/-- What binds too loosely for a level does so for the tighter ones. -/
theorem outerPair_mono {level level' : Level} (h : level.rank ≤ level'.rank) (st : Style)
    (p : Formula) :
    p.outerPair st level' ≤ p.outerPair st level := by
  rw [outerPair, outerPair]
  split <;> split <;> omega

theorem outerPair_eq_zero {level : Level} (h : p.looseness st ≤ level.rank) :
    p.outerPair st level = 0 :=
  if_neg (Nat.not_lt.mpr h)

theorem looseness_bin_of_isSugared (h : IsSugared st c r) : (bin c l r).looseness st = 1 :=
  if_pos h

theorem looseness_bin (h : ¬ IsSugared st c r) : (bin c l r).looseness st = c.looseness :=
  if_neg h

theorem format_bin_of_isSugared (h : IsSugared st c r) :
    (bin c l r).format st = Symbol.neg.span st :: wrap st (1 < l.looseness st) (l.format st) := by
  rw [format]
  exact if_pos h

theorem format_bin (h : ¬ IsSugared st c r) :
    (bin c l r).format st = wrap st (c.looseness ≤ l.looseness st) (l.format st) ++
      c.symbol.span st :: wrap st (c.looseness < r.looseness st) (r.format st) := by
  rw [format]
  exact if_neg h

/-- Without negations no signs are printed. -/
theorem signs_eq_zero (hst : st.negation = false) (p : Formula) : p.signs st = 0 := by
  induction p with
  | falsity => rfl
  | var x => rfl
  | bin c l r ihl ihr =>
      have hsugar : ¬ IsSugared st c r := by simp [IsSugared, hst]
      rw [signs, if_neg hsugar, ihl, ihr]

end Formula

/-! ## How few parentheses will do -/

namespace Generates

variable {st : Style} {level : Level} {ls rest : List Lexeme} {p l r : Formula} {c : Connective}

/-- There are never more negation signs than where all negations are written
with one. -/
theorem count_neg_le (h : Generates level ls p) (hst : st.negation = true) :
    ls.count .neg ≤ p.signs st := by
  induction h using chainInduction with
  | operand _ ih => exact ih
  | atomic _ ih => exact ih
  | falsity => simp
  | name x => simp
  | group _ ih => simpa using ih
  | neg _ ih =>
      have hsugar : Formula.IsSugared st .impl .falsity := by simp [Formula.IsSugared, hst]
      rw [Formula.signs, if_pos hsugar, List.count_cons_self]
      omega
  | @cons c ls rest l r _ _ ihl ihr =>
      rw [List.count_append, List.count_cons_of_ne (by simp), Formula.signs]
      split
      · next hsugar =>
          -- an implication to falsity that is written as such: one sign less than there could be
          obtain rfl := hsugar.eq_falsity
          have hnone : rest.count .neg ≤ 0 := ihr
          omega
      · omega

/-- If an operand in front of a chain has all the signs that its formula is
printed with, then so have the operand and the chain, and the formula is not
printed as a negation. -/
theorem count_neg_cons (hl : Generates level ls l) (hr : Generates (.chain c) rest r)
    (h : (ls ++ .op c :: rest).count .neg = (Formula.bin c l r).signs st) :
    ls.count .neg = l.signs st ∧ rest.count .neg = r.signs st ∧ ¬ Formula.IsSugared st c r := by
  rw [List.count_append, List.count_cons_of_ne (by simp)] at h
  cases hst : st.negation with
  | false =>
      have hzero := Formula.signs_eq_zero hst
      rw [hzero] at h
      rw [hzero, hzero]
      refine ⟨by omega, by omega, ?_⟩
      simp [Formula.IsSugared, hst]
  | true =>
      have hleft := hl.count_neg_le hst
      have hright := hr.count_neg_le hst
      rw [Formula.signs] at h
      split at h
      · next hsugar =>
          obtain rfl := hsugar.eq_falsity
          have hnone : rest.count .neg ≤ 0 := hright
          omega
      · next hsugar => exact ⟨by omega, by omega, hsugar⟩

/-- **No fewer parentheses will do** than a formula is printed with, and one pair
more where it binds too loosely for its level. -/
theorem pairs_le (h : Generates level ls p) (hsigns : ls.count .neg = p.signs st) :
    p.outerPair st level + p.pairs st ≤ ls.count .lparen := by
  induction h using chainInduction with
  | falsity => exact Nat.zero_le _
  | name x => exact Nat.zero_le _
  | @atomic ls p _ ih =>
      have hpairs := ih hsigns
      have hrank : Level.atomic.rank ≤ Level.negation.rank := Nat.zero_le 1
      have houter := Formula.outerPair_mono hrank st p
      omega
  | @operand c ls p _ ih =>
      have hpairs := ih hsigns
      have hrank : c.operandLevel.rank ≤ (Level.chain c).rank :=
        Nat.le_of_succ_le (Nat.le_of_eq c.rank_operandLevel)
      have houter := Formula.outerPair_mono hrank st p
      omega
  | @group ls p _ ih =>
      have hpairs := ih (by simpa using hsigns)
      have houter := Formula.outerPair_le_one st .atomic p
      rw [List.cons_append, List.count_cons_self, List.count_append]
      omega
  | @neg ls p _ ih =>
      cases hst : st.negation with
      | false => simp [Formula.signs_eq_zero hst] at hsigns
      | true =>
          have hsugar : Formula.IsSugared st .impl .falsity := by simp [Formula.IsSugared, hst]
          rw [Formula.signs, if_pos hsugar, List.count_cons_self] at hsigns
          have hpairs := ih (Nat.succ.inj hsigns)
          have houter : p.neg.outerPair st .negation = 0 :=
            Formula.outerPair_eq_zero (Nat.le_of_eq (Formula.looseness_bin_of_isSugared hsugar))
          rw [houter, Nat.zero_add, Formula.pairs, if_pos hsugar, List.count_cons_of_ne (by simp)]
          exact hpairs
  | @cons c ls rest l r hl hr ihl ihr =>
      obtain ⟨hleft, hright, hsugar⟩ := hl.count_neg_cons hr hsigns
      have houter : (Formula.bin c l r).outerPair st (.chain c) = 0 :=
        Formula.outerPair_eq_zero (Nat.le_of_eq (Formula.looseness_bin hsugar))
      rw [houter, Nat.zero_add, Formula.pairs, if_neg hsugar, List.count_append,
        List.count_cons_of_ne (by simp)]
      exact Nat.add_le_add (ihl hleft) (ihr hright)

end Generates

/-! ## Parentheses and signs in a text -/

/-- The characters that are written for a negation. -/
def isNegSign (c : Char) : Bool := c == '~' || c == '¬'

/-- The lexemes that are no names. -/
def Lexeme.symbols : List Lexeme :=
  [.falsity, .neg, .op .conj, .op .disj, .op .impl, .op .equiv, .lparen, .rparen]

/-- A symbol that is written with one character for which a test holds, while it
holds of no character that is written for anything else. -/
structure Lexeme.WrittenBy (l : Lexeme) (test : Char → Bool) : Prop where
  symbol : ∀ x, l ≠ .name x
  alone : ∀ c, test c = true → isNameChar c = false ∧ isGap c = false
  symbols : ∀ k ∈ symbols, ∀ cs ∈ k.spellings, cs.countP test = if k = l then 1 else 0

theorem lparen_writtenBy : Lexeme.lparen.WrittenBy (· == '(') where
  symbol := by simp
  alone := by simp; decide
  symbols := by decide

theorem neg_writtenBy : Lexeme.neg.WrittenBy isNegSign where
  symbol := by simp
  alone := by
    intro c hc
    rcases Bool.or_eq_true_iff.mp hc with hc | hc <;> rw [beq_iff_eq.mp hc] <;> decide
  symbols := by decide

namespace Lexeme.WrittenBy

variable {l : Lexeme} {test : Char → Bool}

/-- Every spelling shows whether it is one of that lexeme. -/
theorem countP_spelling (h : l.WrittenBy test) {k : Lexeme} {cs : List Char}
    (hcs : cs ∈ k.spellings) : cs.countP test = if k = l then 1 else 0 := by
  cases k with
  | name x =>
      obtain rfl : cs = x.chars := List.mem_singleton.mp hcs
      rw [if_neg (Ne.symm (h.symbol x)), List.countP_eq_zero]
      intro c hc htest
      have hname := x.isNameChar_of_mem (by simpa [Name.toString] using hc)
      rw [(h.alone c htest).1] at hname
      contradiction
  | op c => exact h.symbols _ (by cases c <;> decide) cs hcs
  | _ => exact h.symbols _ (by decide) cs hcs

theorem countP_segment (h : l.WrittenBy test) (p : Segment) :
    p.chars.countP test = p.lexemes.count l := by
  cases p with
  | gap c hc =>
      have htest : test c = false := by
        rw [Bool.eq_false_iff]
        intro htest
        rw [(h.alone c htest).2] at hc
        contradiction
      simp [Segment.chars, Segment.lexemes, htest]
  | lexeme k cs hcs =>
      simp [Segment.chars, Segment.lexemes, h.countP_spelling hcs, List.count_singleton]

/-- Such a lexeme can be counted in the text. -/
theorem countP_text (h : l.WrittenBy test) (w : Spelling) :
    (w.segments.flatMap Segment.chars).countP test = w.lexemes.count l := by
  rw [w.lexemes_eq]
  induction w.segments with
  | nil => rfl
  | cons p ps ih =>
      rw [List.flatMap_cons, List.flatMap_cons, List.countP_append, List.count_append, ih,
        h.countP_segment p]

end Lexeme.WrittenBy

/-- A text that is read as a formula is generated as it, and its parentheses and
negation signs are those of the lexemes. -/
theorem exists_generates_of_parse {t : List Char} {p : Formula}
    (h : Formula.parse (Text.ofString (String.ofList t)) = .ok p) :
    ∃ ls, Generates (.chain .equiv) ls p ∧ ls.count .lparen = t.countP (· == '(') ∧
      ls.count .neg = t.countP isNegSign := by
  obtain ⟨ts, hscan, hp⟩ := Formula.parse_eq_ok_iff.mp h
  obtain ⟨w, htext, rfl⟩ := Token.scan_eq_ok_iff.mp hscan
  have hchars : w.segments.flatMap Segment.chars = t := by
    rw [Text.ofString, String.toList_ofList, w.text_eq] at htext
    exact (List.map_inj_right fun _ _ => Glyph.char.inj).mp htext
  refine ⟨w.lexemes, hp, ?_, ?_⟩
  · rw [← lparen_writtenBy.countP_text, hchars]
  · rw [← neg_writtenBy.countP_text, hchars]

/-! ## Parentheses and signs of a printed formula -/

/-- The characters of printed text for which a test holds, counted. -/
def Span.countP (test : Char → Bool) (spans : List Span) : Nat :=
  (plainText spans).toList.countP test

theorem Span.countP_nil (test : Char → Bool) : countP test [] = 0 := rfl

theorem Span.countP_cons (test : Char → Bool) (s : Span) (spans : List Span) :
    countP test (s :: spans) = s.text.toList.countP test + countP test spans := by
  rw [countP, plainText, String.toList_append, List.countP_append, countP]

theorem Span.countP_append (test : Char → Bool) (left right : List Span) :
    countP test (left ++ right) = countP test left + countP test right := by
  rw [countP, toList_plainText_append, List.countP_append, countP, countP]

namespace Lexeme.WrittenBy

variable {l : Lexeme} {test : Char → Bool}

theorem countP_name (h : l.WrittenBy test) (x : Name) : x.toString.toList.countP test = 0 := by
  have hspelling : x.toString.toList ∈ (Lexeme.name x).spellings := by
    rw [Name.toString, String.toList_ofList]
    exact List.mem_cons_self
  rw [h.countP_spelling hspelling, if_neg (Ne.symm (h.symbol x))]

theorem countP_symbol (h : l.WrittenBy test) {s : Symbol} {k : Lexeme} (hs : s.lexeme? = some k)
    (st : Style) : (s.span st).text.toList.countP test = if k = l then 1 else 0 :=
  h.countP_spelling (s.spelling_mem hs st.unicode)

/-- Parentheses are counted by themselves. -/
theorem countP_wrap (h : l.WrittenBy test) (st : Style) (need : Bool) (spans : List Span) :
    Span.countP test (Formula.wrap st need spans) =
      (bif need then (if .lparen = l then 1 else 0) + (if .rparen = l then 1 else 0) else 0) +
        Span.countP test spans := by
  cases need with
  | false => simp [Formula.wrap]
  | true =>
      have hopen := h.countP_symbol (s := .lparen) rfl st
      have hclose := h.countP_symbol (s := .rparen) rfl st
      simp only [Formula.wrap, if_true, cond_true, List.cons_append, Span.countP_cons,
        Span.countP_append, Span.countP_nil, hopen, hclose]
      omega

end Lexeme.WrittenBy

namespace Formula

variable {st : Style} {need : Bool} {p : Formula}

theorem countP_lparen_wrap (level : Level) (h : need = true ↔ level.rank < p.looseness st) :
    Span.countP (· == '(') (wrap st need (p.format st)) =
      p.outerPair st level + Span.countP (· == '(') (p.format st) := by
  have houter : p.outerPair st level = bif need then 1 else 0 := by
    cases need with
    | true => exact if_pos (h.mp rfl)
    | false => exact if_neg (fun hlt => Bool.false_ne_true (h.mpr hlt))
  rw [lparen_writtenBy.countP_wrap, houter]
  rfl

theorem countP_isNegSign_wrap :
    Span.countP isNegSign (wrap st need (p.format st)) = Span.countP isNegSign (p.format st) := by
  rw [neg_writtenBy.countP_wrap]
  cases need <;> simp

/-- A formula is printed with its pairs of parentheses and its negation signs. -/
theorem countP_format (st : Style) (p : Formula) :
    Span.countP (· == '(') (p.format st) = p.pairs st ∧
      Span.countP isNegSign (p.format st) = p.signs st := by
  induction p with
  | falsity =>
      simp [format, Span.countP_cons, Span.countP_nil, pairs, signs,
        lparen_writtenBy.countP_symbol (s := .falsity) rfl,
        neg_writtenBy.countP_symbol (s := .falsity) rfl]
  | var x =>
      simp [format, Span.countP_cons, Span.countP_nil, pairs, signs, lparen_writtenBy.countP_name,
        neg_writtenBy.countP_name]
  | bin c l r ihl ihr =>
      by_cases hsugar : IsSugared st c r
      · have hneed : decide (1 < l.looseness st) = true ↔ Level.negation.rank < l.looseness st :=
          decide_eq_true_iff
        rw [format_bin_of_isSugared hsugar, pairs, if_pos hsugar, signs, if_pos hsugar,
          Span.countP_cons, Span.countP_cons, countP_lparen_wrap _ hneed, countP_isNegSign_wrap,
          lparen_writtenBy.countP_symbol (s := .neg) rfl,
          neg_writtenBy.countP_symbol (s := .neg) rfl, ihl.1, ihl.2]
        exact ⟨Nat.zero_add _, Nat.add_comm _ _⟩
      · have hleft : decide (c.looseness ≤ l.looseness st) = true ↔
            c.operandLevel.rank < l.looseness st := by
          rw [decide_eq_true_iff, ← c.rank_operandLevel, Nat.succ_le_iff]
        have hright : decide (c.looseness < r.looseness st) = true ↔
            (Level.chain c).rank < r.looseness st := decide_eq_true_iff
        rw [format_bin hsugar, pairs, if_neg hsugar, signs, if_neg hsugar, Span.countP_append,
          Span.countP_append, Span.countP_cons, Span.countP_cons, countP_lparen_wrap _ hleft,
          countP_lparen_wrap _ hright, countP_isNegSign_wrap, countP_isNegSign_wrap,
          lparen_writtenBy.countP_symbol c.lexeme?_symbol,
          neg_writtenBy.countP_symbol c.lexeme?_symbol, ihl.1, ihl.2, ihr.1, ihr.2]
        simp

/-- A text that is read as a formula, and has as many negation signs as the
printed one, has no fewer parentheses. -/
theorem countP_lparen_print_le (st : Style) {p : Formula} {t : List Char}
    (h : parse (Text.ofString (String.ofList t)) = .ok p)
    (hsigns : t.countP isNegSign = (p.print st).toList.countP isNegSign) :
    (p.print st).toList.countP (· == '(') ≤ t.countP (· == '(') := by
  obtain ⟨ls, hp, hparens, hneg⟩ := exists_generates_of_parse h
  obtain ⟨hpairs, hprinted⟩ := p.countP_format st
  have hcount : ls.count .neg = p.signs st := hneg.trans (hsigns.trans hprinted)
  calc (p.print st).toList.countP (· == '(')
      = p.pairs st := hpairs
    _ ≤ p.outerPair st (.chain .equiv) + p.pairs st := Nat.le_add_left _ _
    _ ≤ ls.count .lparen := hp.pairs_le hcount
    _ = t.countP (· == '(') := hparens

/-- **No parentheses are written that could be left out.**  Whichever opening
parenthesis and whichever closing one behind it are deleted from a printed formula,
be they a matching pair or not, what is left is not read as that formula. -/
theorem parse_without_parens_ne (st : Style) (p : Formula) (before inside after : List Char)
    (h : (p.print st).toList = before ++ '(' :: inside ++ ')' :: after) :
    parse (Text.ofString (String.ofList (before ++ inside ++ after))) ≠ .ok p ∧
      parse (Text.ofBytes (String.ofList (before ++ inside ++ after)).toUTF8.data.toList) ≠
        .ok p := by
  have hne : parse (Text.ofString (String.ofList (before ++ inside ++ after))) ≠ .ok p := by
    intro hread
    have hle := countP_lparen_print_le st hread (by simp [h, isNegSign])
    have hlt : (before ++ inside ++ after).countP (· == '(') <
        (p.print st).toList.countP (· == '(') := by
      rw [h]
      simp only [List.countP_append, List.countP_cons, beq_self_eq_true, if_true]
      omega
    exact Nat.not_le.mpr hlt hle
  refine ⟨hne, ?_⟩
  rw [Text.ofBytes_toUTF8]
  exact hne

/-- Without its parentheses, `~(A->B)->C` is the text of another formula, in which
`A` is negated. -/
theorem parse_without_parens_ne_neg :
    let A : Formula := .var ⟨⟨'A', rfl⟩, []⟩
    let B : Formula := .var ⟨⟨'B', rfl⟩, []⟩
    let C : Formula := .var ⟨⟨'C', rfl⟩, []⟩
    let p : Formula := .impl (.neg (.impl A B)) C
    let q : Formula := .impl (.neg A) (.impl B C)
    (p.print .default).toList = ['~'] ++ '(' :: ['A', '-', '>', 'B'] ++ ')' :: ['-', '>', 'C'] ∧
      parse (Text.ofString "~A->B->C") ≠ .ok p ∧ parse (Text.ofString "~A->B->C") = .ok q := by
  intro A B C p q
  have hprint : (p.print .default).toList =
      ['~'] ++ '(' :: ['A', '-', '>', 'B'] ++ ')' :: ['-', '>', 'C'] := by decide +kernel
  have hother : q.print .default = "~A->B->C" := by decide +kernel
  exact ⟨hprint, (parse_without_parens_ne .default p _ _ _ hprint).1,
    hother ▸ parse_of_reads (reads_format .default q)⟩

end Formula

end Sequitur
