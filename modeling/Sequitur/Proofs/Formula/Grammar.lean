import Sequitur.Proofs.Formula.Nesting
import Sequitur.Proofs.Formula.Operator
import Sequitur.Proofs.Formula.Spelling
import Sequitur.Proofs.Text.Number
import Sequitur.Proofs.Text.Utf8

/-!
# Sequitur.Proofs.Formula.Grammar

The grammar of formulas,

```
equivalence := implication ( "<->" implication )*
implication := disjunction ( "->" disjunction )*
disjunction := conjunction ( "\/" conjunction )*
conjunction := negation ( "/\" negation )*
negation    := "~" negation | atomic
atomic      := "!" | name | "(" equivalence ")"
```

and that the parser accepts exactly what it generates.  The parser does not
follow the grammar: it nests the tokens by their parentheses first and then
cuts items at the loosest operator, wherever it stands.  What connects the two
is how loosely the operators of a level may bind (`Level.limit`).

* `generates_of_formula`: what is read from items is generated from their
  lexemes, at every level that allows the operators among them, by induction
  along the cuts;
* `exists_items_of_generates`: what is generated can be nested, and is read
  from the items, by induction over the grammar.  The items are cut where the
  grammar joins them, since the operands of a connective hold none that binds
  as loosely, and what follows it none that binds more loosely.

Since the parser is a function, the grammar is unambiguous
(`Generates.unique`).  Together with what is known of the scanner this says
which bytes are formulas, and which error is reported for the others.
-/

namespace Sequitur

/-! ## The grammar -/

/-- The levels of the grammar: chains of a connective, from equivalences to
conjunctions, then negations and atomic formulas. -/
inductive Level where
  | chain (c : Connective)
  | negation
  | atomic
deriving DecidableEq

/-- The level of the operands of a connective. -/
def Connective.operandLevel : Connective → Level
  | equiv => .chain .impl
  | impl => .chain .disj
  | disj => .chain .conj
  | conj => .negation

/-- Formulas joined by a connective, to the right. -/
def Formula.joined (c : Connective) : Formula → List Formula → Formula
  | p, [] => p
  | p, q :: qs => .bin c p (joined c q qs)

/-- `Generates level ls p`: the grammar generates the lexemes `ls` at a level,
and `p` is the formula they are read as. -/
inductive Generates : Level → List Lexeme → Formula → Prop where
  | chain (c : Connective) (first : List Lexeme × Formula) (more : List (List Lexeme × Formula))
      (h : ∀ operand ∈ first :: more, Generates c.operandLevel operand.1 operand.2) :
      Generates (.chain c) (first.1 ++ more.flatMap fun operand => .op c :: operand.1)
        (.joined c first.2 (more.map (·.2)))
  | neg {ls : List Lexeme} {p : Formula} (h : Generates .negation ls p) :
      Generates .negation (.neg :: ls) p.neg
  | atomic {ls : List Lexeme} {p : Formula} (h : Generates .atomic ls p) :
      Generates .negation ls p
  | falsity : Generates .atomic [.falsity] .falsity
  | name (x : Name) : Generates .atomic [.name x] (.var x)
  | group {ls : List Lexeme} {p : Formula} (h : Generates (.chain .equiv) ls p) :
      Generates .atomic (.lparen :: ls ++ [.rparen]) p

namespace Generates

/-- A chain of one operand. -/
theorem operand {c : Connective} {ls : List Lexeme} {p : Formula}
    (h : Generates c.operandLevel ls p) : Generates (.chain c) ls p := by
  have hchain := Generates.chain c (ls, p) [] (by simpa using h)
  rwa [List.flatMap_nil, List.append_nil] at hchain

/-- A chain with one operand more in front. -/
theorem cons {c : Connective} {ls rest : List Lexeme} {l r : Formula}
    (hl : Generates c.operandLevel ls l) (hr : Generates (.chain c) rest r) :
    Generates (.chain c) (ls ++ .op c :: rest) (.bin c l r) := by
  cases hr with
  | chain _ first more h => exact Generates.chain c (ls, l) (first :: more) (by simpa [hl] using h)

end Generates

/-! ## Levels -/

/-- All operators that may stand outside of parentheses at a level bind
tighter than this. -/
def Level.limit : Level → Nat
  | .chain c => c.looseness + 1
  | .negation => 2
  | .atomic => 1

namespace Level

theorem limit_pos (level : Level) : 0 < level.limit := by
  cases level <;> exact Nat.succ_pos _

theorem limit_operandLevel (c : Connective) : c.operandLevel.limit = c.looseness := by
  cases c <;> rfl

theorem eq_of_limit_eq {level target : Level} (h : level.limit = target.limit) :
    level = target := by
  revert h
  rcases level with (_ | _ | _ | _) | _ | _ <;> rcases target with (_ | _ | _ | _) | _ | _ <;>
    decide

end Level

/-- What is generated at a level is generated at every looser one. -/
theorem Generates.lift {level target : Level} {ls : List Lexeme} {p : Formula}
    (h : Generates level ls p) (hle : level.limit ≤ target.limit) : Generates target ls p := by
  induction hn : target.limit generalizing target with
  | zero => exact absurd hn (Nat.ne_of_gt target.limit_pos)
  | succ n ih =>
      rcases Nat.eq_or_lt_of_le hle with heq | hlt
      · exact Level.eq_of_limit_eq heq ▸ h
      · cases target with
        | chain c =>
            have hlimit := Level.limit_operandLevel c
            rw [Level.limit] at hlt hn
            exact (ih (by omega) (by omega)).operand
        | negation =>
            have hatomic : level = .atomic :=
              Level.eq_of_limit_eq (Nat.le_antisymm (Nat.le_of_lt_succ hlt) level.limit_pos)
            exact .atomic (hatomic ▸ h)
        | atomic => exact absurd level.limit_pos (Nat.not_lt.mpr (Nat.le_of_lt_succ hlt))

namespace Item

/-! ## What is read is generated -/

/-- The lexemes of items. -/
def lexemesOf (items : List Item) : List Lexeme := (marksOf items).map (·.1)

theorem lexemesOf_append (items more : List Item) :
    lexemesOf (items ++ more) = lexemesOf items ++ lexemesOf more := by
  rw [lexemesOf, marksOf_append, List.map_append]
  rfl

theorem lexemesOf_token (t : Token) (items : List Item) :
    lexemesOf (.token t :: items) = t.lexeme :: lexemesOf items := rfl

theorem lexemesOf_group (opening : Nat) (items : List Item) :
    lexemesOf [.group opening items] = .lparen :: lexemesOf items ++ [.rparen] := by
  rw [lexemesOf, marksOf, marksOf, marks, List.append_nil, List.map_append]
  rfl

/-- At the loosest level all operators are allowed. -/
theorem below_limit_equiv (items : List Item) : Below (Level.chain .equiv).limit items := by
  intro item _ m hm
  fun_cases looseness? item with
  | case1 offset =>
      obtain rfl : 1 = m := Option.some.inj hm
      decide
  | case2 c offset =>
      obtain rfl : c.looseness = m := Option.some.inj hm
      cases c <;> decide
  | case3 hneg hop => simp [looseness?] at hm

/-- **What is read is generated**, at every level that allows the operators. -/
theorem generates_of_formula {items : List Item} {p : Formula} (hread : formula items = .ok p)
    {level : Level} (hbelow : Below level.limit items) : Generates level (lexemesOf items) p := by
  fun_induction formula items generalizing p level with
  | case1 => contradiction
  | case2 x offset =>
      obtain rfl := Except.ok.inj hread
      exact (Generates.name x).lift level.limit_pos
  | case3 offset =>
      obtain rfl := Except.ok.inj hread
      exact Generates.falsity.lift level.limit_pos
  | case4 opening items ih =>
      rw [lexemesOf_group]
      exact (Generates.group (ih hread (below_limit_equiv items))).lift level.limit_pos
  | case5 => contradiction
  | case6 => contradiction
  | case7 items _ _ _ _ i hweakest offset hitem hi ih =>
      obtain rfl : i = 0 := Decidable.not_not.mp hi
      obtain ⟨hitems, n, hsplits⟩ := splits_of_weakest? hweakest hitem
      obtain rfl : 1 = n := Option.some.inj hsplits.looseness
      obtain ⟨q, hq, hp⟩ := exists_of_bind_eq_ok hread
      obtain rfl := Except.ok.inj hp
      rw [hitems] at hbelow ⊢
      have hlevel : 1 < level.limit := hbelow _ List.mem_cons_self 1 rfl
      exact (Generates.neg (ih hq hsplits.right)).lift hlevel
  | case8 items _ _ _ _ i hweakest c offset hitem ihl ihr =>
      obtain ⟨hitems, n, hsplits⟩ := splits_of_weakest? hweakest hitem
      obtain rfl : c.looseness = n := Option.some.inj hsplits.looseness
      obtain ⟨l, hl, hread⟩ := exists_of_bind_eq_ok hread
      obtain ⟨r, hr, hp⟩ := exists_of_bind_eq_ok hread
      obtain rfl := Except.ok.inj hp
      have hleft := hsplits.left
      rw [← Level.limit_operandLevel] at hleft
      have hlevel : c.looseness < level.limit :=
        hbelow _ (List.mem_of_getElem? hitem) c.looseness rfl
      rw [hitems, lexemesOf_append, lexemesOf_token]
      exact ((ihl hl hleft).cons (ihr hr hsplits.right)).lift hlevel
  | case9 => contradiction

/-! ## What is generated is read -/

/-- Items that are written as some tokens and read as a formula, and whose
operators are allowed at a level. -/
structure Makes (level : Level) (items : List Item) (ts : List Token) (p : Formula) : Prop where
  written : Written items ts
  read : formula items = .ok p
  below : Below level.limit items

/-- A token that is no parenthesis and no operator makes what it is read as. -/
theorem makes_token {t : Token} {p : Formula} (hopen : t.lexeme ≠ .lparen)
    (hclose : t.lexeme ≠ .rparen) (hitem : (Item.token t).looseness? = none)
    (hread : formula [.token t] = .ok p) : Makes .atomic [.token t] [t] p where
  written := .token hopen hclose
  read := hread
  below := below_cons.mpr ⟨by simp [hitem], below_nil _⟩

theorem Makes.group {items : List Item} {ts : List Token} {p : Formula}
    (h : Makes (.chain .equiv) items ts p) (opening closing : Nat) :
    Makes .atomic [.group opening items] (⟨.lparen, opening⟩ :: ts ++ [⟨.rparen, closing⟩]) p where
  written := h.written.group opening closing
  read := by rw [formula, h.read]
  below := below_cons.mpr ⟨by simp [looseness?], below_nil _⟩

theorem Makes.neg {items : List Item} {ts : List Token} {p : Formula}
    (h : Makes .negation items ts p) (offset : Nat) :
    Makes .negation (.token ⟨.neg, offset⟩ :: items) (⟨.neg, offset⟩ :: ts) p.neg where
  written := (Written.token (t := ⟨.neg, offset⟩) (by simp) (by simp)).append h.written
  read := formula_neg_cons ⟨rfl, below_nil _, h.below⟩ h.read
  below := below_cons.mpr ⟨by simp [looseness?, Level.limit], h.below⟩

theorem Makes.cons {c : Connective} {items more : List Item} {ts rest : List Token}
    {l r : Formula} (hl : Makes c.operandLevel items ts l) (hr : Makes (.chain c) more rest r)
    (offset : Nat) :
    Makes (.chain c) (items ++ .token ⟨.op c, offset⟩ :: more)
      (ts ++ ⟨.op c, offset⟩ :: rest) (.bin c l r) := by
  have hleft := hl.below
  rw [Level.limit_operandLevel] at hleft
  refine ⟨?_, formula_append_op ⟨rfl, hleft, hr.below⟩ hl.read hr.read, ?_⟩
  · have hop : Written [.token ⟨.op c, offset⟩] [⟨.op c, offset⟩] := .token (by simp) (by simp)
    exact hl.written.append (hop.append hr.written)
  · refine List.forall_mem_append.mpr ⟨hleft.mono (Nat.le_succ _), below_cons.mpr ⟨?_, hr.below⟩⟩
    simp [looseness?, Level.limit]

/-- The first of some tokens, by its lexeme. -/
theorem exists_offset_of_map_eq_cons {ts : List Token} {l : Lexeme} {ls : List Lexeme}
    (h : ts.map (·.lexeme) = l :: ls) :
    ∃ offset rest, ts = ⟨l, offset⟩ :: rest ∧ rest.map (·.lexeme) = ls := by
  obtain ⟨⟨_, offset⟩, rest, rfl, rfl, hrest⟩ := List.map_eq_cons_iff.mp h
  exact ⟨offset, rest, rfl, hrest⟩

/-- **What is generated is read**, wherever the tokens stand. -/
theorem exists_items_of_generates {level : Level} {ls : List Lexeme} {p : Formula}
    (h : Generates level ls p) (ts : List Token) (hts : ts.map (·.lexeme) = ls) :
    ∃ items, Makes level items ts p := by
  induction h generalizing ts with
  | chain c first more hoperands ih =>
      -- the operands one by one, from the left
      induction more generalizing first ts with
      | nil =>
          rw [List.flatMap_nil, List.append_nil] at hts
          obtain ⟨items, hitems⟩ := ih first List.mem_cons_self ts hts
          have hlimit : c.operandLevel.limit ≤ (Level.chain c).limit := by
            rw [Level.limit_operandLevel]
            exact Nat.le_succ _
          exact ⟨items, hitems.written, hitems.read, hitems.below.mono hlimit⟩
      | cons next more ihmore =>
          obtain ⟨hfirst, hmore⟩ := List.forall_mem_cons.mp ih
          obtain ⟨-, hoperands⟩ := List.forall_mem_cons.mp hoperands
          rw [List.flatMap_cons, List.cons_append, List.map_eq_append_iff] at hts
          obtain ⟨ts, later, rfl, hts, hlater⟩ := hts
          obtain ⟨offset, rest, rfl, hrest⟩ := exists_offset_of_map_eq_cons hlater
          obtain ⟨items, hitems⟩ := hfirst ts hts
          obtain ⟨others, hothers⟩ := ihmore next hoperands hmore rest hrest
          exact ⟨_, hitems.cons hothers offset⟩
  | neg _ ih =>
      obtain ⟨offset, rest, rfl, hrest⟩ := exists_offset_of_map_eq_cons hts
      obtain ⟨items, hitems⟩ := ih rest hrest
      exact ⟨_, hitems.neg offset⟩
  | atomic _ ih =>
      obtain ⟨items, hitems⟩ := ih ts hts
      exact ⟨items, hitems.written, hitems.read, hitems.below.mono (Nat.le_succ 1)⟩
  | falsity =>
      obtain ⟨offset, rest, rfl, hrest⟩ := exists_offset_of_map_eq_cons hts
      obtain rfl := List.map_eq_nil_iff.mp hrest
      exact ⟨_, makes_token (by simp) (by simp) rfl (by rw [formula])⟩
  | name x =>
      obtain ⟨offset, rest, rfl, hrest⟩ := exists_offset_of_map_eq_cons hts
      obtain rfl := List.map_eq_nil_iff.mp hrest
      exact ⟨_, makes_token (by simp) (by simp) rfl (by rw [formula])⟩
  | group _ ih =>
      rw [List.cons_append] at hts
      obtain ⟨opening, rest, rfl, hrest⟩ := exists_offset_of_map_eq_cons hts
      obtain ⟨inner, last, rfl, hinner, hlast⟩ := List.map_eq_append_iff.mp hrest
      obtain ⟨closing, after, rfl, hafter⟩ := exists_offset_of_map_eq_cons hlast
      obtain rfl := List.map_eq_nil_iff.mp hafter
      obtain ⟨items, hitems⟩ := ih inner hinner
      exact ⟨_, hitems.group opening closing⟩

/-- Tokens are generated as a formula if and only if they can be nested and
the items make that formula. -/
theorem generates_iff {ts : List Token} {p : Formula} :
    Generates (.chain .equiv) (ts.map (·.lexeme)) p ↔
      ∃ items, nest ts = .ok items ∧ formula items = .ok p := by
  constructor
  · intro h
    obtain ⟨items, hitems⟩ := exists_items_of_generates h ts rfl
    exact ⟨items, hitems.written.nest_eq, hitems.read⟩
  · rintro ⟨items, hnest, hread⟩
    rw [(nest_eq_ok_iff.mp hnest).map_lexeme]
    exact generates_of_formula hread (below_limit_equiv items)

end Item

/-- Lexemes are generated as one formula at most. -/
theorem Generates.unique {ls : List Lexeme} {p q : Formula}
    (hp : Generates (.chain .equiv) ls p) (hq : Generates (.chain .equiv) ls q) : p = q := by
  -- where the tokens stand does not matter, so they may all stand at 0
  have hls : (ls.map fun l => Token.mk l 0).map (·.lexeme) = ls := by
    rw [List.map_map]
    exact List.map_id ls
  rw [← hls] at hp hq
  obtain ⟨items, hnest, hp⟩ := Item.generates_iff.mp hp
  obtain ⟨items', hnest', hq⟩ := Item.generates_iff.mp hq
  obtain rfl : items = items' := Except.ok.inj (hnest.symm.trans hnest')
  exact Except.ok.inj (hp.symm.trans hq)

/-! ## Texts -/

namespace Formula

/-- What becomes of a text: it does not scan, its tokens do not nest, its
items make no formula, or they do. -/
theorem parse_cases (t : Text) :
    (∃ e, Token.scan t = .error e ∧ parse t = .error (.lexical e)) ∨
    (∃ ts e, Token.scan t = .ok ts ∧ Item.nest ts = .error e ∧ parse t = .error (.lexical e)) ∨
    (∃ ts items fault, Token.scan t = .ok ts ∧ Item.nest ts = .ok items ∧
      Item.formula items = .error fault ∧ parse t = .error (.grammar fault)) ∨
    (∃ ts items p, Token.scan t = .ok ts ∧ Item.nest ts = .ok items ∧
      Item.formula items = .ok p ∧ parse t = .ok p) := by
  cases hscan : Token.scan t with
  | error e => exact .inl ⟨e, rfl, by simp only [parse, hscan]⟩
  | ok ts =>
      refine .inr ?_
      cases hnest : Item.nest ts with
      | error e => exact .inl ⟨ts, e, rfl, hnest, by simp only [parse, hscan, hnest]⟩
      | ok items =>
          refine .inr ?_
          cases hread : Item.formula items with
          | error fault =>
              exact .inl ⟨ts, items, fault, rfl, hnest, hread,
                by simp only [parse, hscan, hnest, hread]⟩
          | ok p =>
              exact .inr ⟨ts, items, p, rfl, hnest, hread,
                by simp only [parse, hscan, hnest, hread]⟩

theorem parse_eq_ok_iff {t : Text} {p : Formula} :
    parse t = .ok p ↔
      ∃ ts, Token.scan t = .ok ts ∧ Generates (.chain .equiv) (ts.map (·.lexeme)) p := by
  rcases parse_cases t with ⟨e, hscan, hparse⟩ | ⟨ts, e, hscan, hnest, hparse⟩ |
    ⟨ts, items, fault, hscan, hnest, hread, hparse⟩ | ⟨ts, items, q, hscan, hnest, hread, hparse⟩
  · simp [hscan, hparse]
  · simp [hscan, hparse, Item.generates_iff, hnest]
  · simp [hscan, hparse, Item.generates_iff, hnest, hread]
  · simp [hscan, hparse, Item.generates_iff, hnest, hread]

theorem parse_eq_lexical_iff {t : Text} :
    (∃ e, parse t = .error (.lexical e)) ↔
      (¬ ∃ ts, Token.scan t = .ok ts) ∨
        ∃ ts, Token.scan t = .ok ts ∧ ¬ Balanced (ts.map (·.lexeme)) := by
  rcases parse_cases t with ⟨e, hscan, hparse⟩ | ⟨ts, e, hscan, hnest, hparse⟩ |
    ⟨ts, items, fault, hscan, hnest, -, hparse⟩ | ⟨ts, items, q, hscan, hnest, -, hparse⟩
  · simp [hscan, hparse]
  · simp [hscan, hparse, ← Item.nest_isOk_iff, hnest]
  · simp [hscan, hparse, ← Item.nest_isOk_iff, hnest]
  · simp [hscan, hparse, ← Item.nest_isOk_iff, hnest]

theorem parse_eq_grammar_iff {t : Text} :
    (∃ fault, parse t = .error (.grammar fault)) ↔
      ∃ ts, Token.scan t = .ok ts ∧ Balanced (ts.map (·.lexeme)) ∧
        ∀ p, ¬ Generates (.chain .equiv) (ts.map (·.lexeme)) p := by
  rcases parse_cases t with ⟨e, hscan, hparse⟩ | ⟨ts, e, hscan, hnest, hparse⟩ |
    ⟨ts, items, fault, hscan, hnest, hread, hparse⟩ | ⟨ts, items, q, hscan, hnest, hread, hparse⟩
  · simp [hscan, hparse]
  · simp [hscan, hparse, ← Item.nest_isOk_iff, hnest]
  · simp [hscan, hparse, ← Item.nest_isOk_iff, Item.generates_iff, hnest, hread]
  · simp [hscan, hparse, ← Item.nest_isOk_iff, Item.generates_iff, hnest, hread]

end Formula

/-- `Lexes bs ls`: the bytes are those of a text that spells the lexemes. -/
def Lexes (bs : List UInt8) (ls : List Lexeme) : Prop :=
  ∃ w : Spelling, w.text.bytes = bs ∧ w.lexemes = ls

/-- A spelled text is made of the characters of its segments. -/
theorem Spelling.text_eq (w : Spelling) :
    w.text = (w.segments.flatMap Segment.chars).map .char :=
  List.map_flatMap.symm

/-- A spelled text has no stray bytes. -/
theorem Spelling.ofBytes_bytes_text (w : Spelling) : Text.ofBytes w.text.bytes = w.text := by
  rw [w.text_eq, Text.ofBytes_bytes_map_char]

theorem lexes_iff {bs : List UInt8} {ls : List Lexeme} :
    Lexes bs ls ↔ ∃ ts, Token.scan (Text.ofBytes bs) = .ok ts ∧ ts.map (·.lexeme) = ls := by
  constructor
  · rintro ⟨w, rfl, rfl⟩
    refine ⟨w.tokens, ?_, rfl⟩
    rw [w.ofBytes_bytes_text]
    exact Token.scan_eq_ok_iff.mpr ⟨w, rfl, rfl⟩
  · rintro ⟨ts, hscan, rfl⟩
    obtain ⟨w, htext, rfl⟩ := Token.scan_eq_ok_iff.mp hscan
    refine ⟨w, ?_, rfl⟩
    rw [htext, Text.bytes_ofBytes]

theorem exists_scan_iff {bs : List UInt8} (P : List Lexeme → Prop) :
    (∃ ts, Token.scan (Text.ofBytes bs) = .ok ts ∧ P (ts.map (·.lexeme))) ↔
      ∃ ls, Lexes bs ls ∧ P ls := by
  constructor
  · rintro ⟨ts, hscan, h⟩
    exact ⟨_, lexes_iff.mpr ⟨ts, hscan, rfl⟩, h⟩
  · rintro ⟨ls, hlexes, h⟩
    obtain ⟨ts, hscan, rfl⟩ := lexes_iff.mp hlexes
    exact ⟨ts, hscan, h⟩

/-- **The parser accepts exactly the grammar**, and reads as the grammar says.
Bytes that spell no lexemes, or lexemes whose parentheses do not balance, are
a lexical error; any others that are not generated are an error of grammar.
The grammar is unambiguous. -/
theorem Formula.parse_ofBytes_iff (bs : List UInt8) :
    (∀ p, parse (Text.ofBytes bs) = .ok p ↔
      ∃ ls, Lexes bs ls ∧ Generates (.chain .equiv) ls p) ∧
    ((∃ e, parse (Text.ofBytes bs) = .error (.lexical e)) ↔
      (¬ ∃ ls, Lexes bs ls) ∨ ∃ ls, Lexes bs ls ∧ ¬ Balanced ls) ∧
    ((∃ fault, parse (Text.ofBytes bs) = .error (.grammar fault)) ↔
      ∃ ls, Lexes bs ls ∧ Balanced ls ∧ ∀ p, ¬ Generates (.chain .equiv) ls p) ∧
    ∀ ls p q, Generates (.chain .equiv) ls p → Generates (.chain .equiv) ls q → p = q := by
  have hlexes : (∃ ts, Token.scan (Text.ofBytes bs) = .ok ts) ↔ ∃ ls, Lexes bs ls := by
    simpa using exists_scan_iff fun _ => True
  refine ⟨?_, ?_, ?_, fun _ _ _ => Generates.unique⟩
  · intro p
    rw [parse_eq_ok_iff]
    exact exists_scan_iff (Generates (.chain .equiv) · p)
  · rw [parse_eq_lexical_iff, hlexes]
    exact or_congr_right (exists_scan_iff (¬ Balanced ·))
  · rw [parse_eq_grammar_iff]
    exact exists_scan_iff fun ls => Balanced ls ∧ ∀ p, ¬ Generates (.chain .equiv) ls p

end Sequitur
