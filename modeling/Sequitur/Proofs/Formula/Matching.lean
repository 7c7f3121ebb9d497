import Sequitur.Proofs.Formula.Nesting

/-!
# Sequitur.Proofs.Formula.Matching

Which parentheses match, and which one is blamed where they do not.

Nesting that fails has come upon a closing parenthesis behind tokens that
balance, or to the end of the tokens, and then tokens that balance follow an
opening parenthesis (`nest_cases`).  The rest is about balance alone.  An
opening parenthesis is closed by what is behind it if more is closed there
than opened (`closes_of_overclosed`).  So the parenthesis in the first case is
the first that closes nothing (`FirstUnopened`), and the one in the second
case the last that nothing closes (`LastUnclosed`).
-/

namespace Sequitur

/-- The lexemes close a parenthesis that is opened right before them: they have a closing one
up to which the parentheses balance. -/
def Closes (ls : List Lexeme) : Prop :=
  ∃ inside rest, ls = inside ++ .rparen :: rest ∧ Balanced inside

theorem Closes.overclosed {ls : List Lexeme} (h : Closes ls) : Overclosed ls := by
  obtain ⟨inside, rest, rfl, hbalanced⟩ := h
  exact hbalanced.overclosed_rparen rest

/-- Behind an opening parenthesis of a balanced list more is closed than opened. -/
theorem Balanced.overclosed_of_suffix {ls later : List Lexeme} (h : Balanced ls)
    (hlater : .lparen :: later <:+ ls) : Overclosed later := by
  obtain ⟨earlier, rfl⟩ := hlater
  obtain ⟨hall, htotal⟩ := h
  have hearlier := hall earlier (List.prefix_append _ _)
  have hopen : (Lexeme.lparen :: later).count .lparen = later.count .lparen + 1 := by simp
  have hclose : (Lexeme.lparen :: later).count .rparen = later.count .rparen := by simp
  rw [List.count_append, List.count_append, hopen, hclose] at htotal
  exact ⟨later, List.prefix_rfl, by omega⟩

namespace Item

/-- A closing parenthesis is the first that closes nothing: with it more have been closed than
opened, and never before it. -/
structure FirstUnopened (before : List Token) (t : Token) : Prop where
  closing : t.lexeme = .rparen
  within : ¬ Overclosed (before.map (·.lexeme))
  exceeds : Overclosed ((before ++ [t]).map (·.lexeme))

/-- An opening parenthesis is the last that nothing closes: what is behind it does not close
it, but closes every parenthesis opened there. -/
structure LastUnclosed (t : Token) (after : List Token) : Prop where
  opening : t.lexeme = .lparen
  unclosed : ¬ Closes (after.map (·.lexeme))
  closed_behind : ∀ u later, u :: later <:+ after → u.lexeme = .lparen →
    Closes (later.map (·.lexeme))

theorem firstUnopened_of_balanced {before : List Token} (h : Balanced (before.map (·.lexeme)))
    (closing : Nat) : FirstUnopened before ⟨.rparen, closing⟩ where
  closing := rfl
  within := h.not_overclosed
  exceeds := by
    rw [List.map_append]
    exact h.overclosed_rparen []

/-- **Where more is closed than opened**, what balances is followed by a closing parenthesis,
and nesting blames that one. -/
theorem exists_unopened {ts : List Token} (h : Overclosed (ts.map (·.lexeme))) :
    ∃ before closing after, ts = before ++ ⟨.rparen, closing⟩ :: after ∧
      Balanced (before.map (·.lexeme)) ∧ nest ts = .error ⟨closing, .unopened⟩ := by
  rcases nest_cases ts with ⟨items, hitems, _⟩ | hunopened |
    ⟨before, opening, after, rfl, hbefore, hafter, _⟩
  · exact absurd h hitems.balanced.not_overclosed
  · exact hunopened
  · rw [List.map_append] at h
    have hopened := not_overclosed_cons (l := .lparen) (by simp) hafter.not_overclosed
    exact absurd h (not_overclosed_append hbefore hopened)

theorem closes_of_overclosed {ts : List Token} (h : Overclosed (ts.map (·.lexeme))) :
    Closes (ts.map (·.lexeme)) := by
  obtain ⟨before, closing, after, rfl, hbefore, -⟩ := exists_unopened h
  exact ⟨_, _, List.map_append, hbefore⟩

theorem lastUnclosed_of_balanced {after : List Token} (h : Balanced (after.map (·.lexeme)))
    (opening : Nat) : LastUnclosed ⟨.lparen, opening⟩ after where
  opening := rfl
  unclosed := fun hcloses => h.not_overclosed hcloses.overclosed
  closed_behind := by
    intro u later hlater hu
    have hsuffix := hlater.map (·.lexeme)
    rw [List.map_cons, hu] at hsuffix
    exact closes_of_overclosed (h.overclosed_of_suffix hsuffix)

/-- **Where nothing is closed too early but something is left open**, nesting blames the
last parenthesis that nothing closes. -/
theorem exists_lastUnclosed {ts : List Token} (hover : ¬ Overclosed (ts.map (·.lexeme)))
    (hbalanced : ¬ Balanced (ts.map (·.lexeme))) :
    ∃ before t after, ts = before ++ t :: after ∧ LastUnclosed t after ∧
      nest ts = .error ⟨t.offset, .unclosed⟩ := by
  rcases nest_cases ts with ⟨items, hitems, _⟩ | ⟨before, closing, after, rfl, hbefore, _⟩ |
    ⟨before, opening, after, hts, _, hafter, hnest⟩
  · exact absurd hitems.balanced hbalanced
  · rw [List.map_append] at hover
    exact absurd (hbefore.overclosed_rparen _) hover
  · exact ⟨before, _, after, hts, lastUnclosed_of_balanced hafter opening, hnest⟩

/-- **Nesting recognises balanced parentheses, loses nothing and blames the right one.**  It
succeeds if and only if the parentheses balance.  Its result is the one list of items that
has no parenthesis left in it and is written back as the tokens: as the same lexemes, each
at its offset but for the closing parentheses.  If at some point more has been closed than
opened, the first parenthesis that closes nothing is reported; if the parentheses do not
balance otherwise, the last one that nothing closes. -/
theorem nest_matches_parentheses (ts : List Token) :
    ((∃ items, nest ts = .ok items) ↔ Balanced (ts.map (·.lexeme))) ∧
    (∀ items, nest ts = .ok items ↔
      marksOf items = ts.map Token.mark ∧ ∀ item ∈ items, item.Nested) ∧
    (Overclosed (ts.map (·.lexeme)) →
      ∃ before t after, ts = before ++ t :: after ∧ FirstUnopened before t ∧
        nest ts = .error ⟨t.offset, .unopened⟩) ∧
    (¬ Overclosed (ts.map (·.lexeme)) → ¬ Balanced (ts.map (·.lexeme)) →
      ∃ before t after, ts = before ++ t :: after ∧ LastUnclosed t after ∧
        nest ts = .error ⟨t.offset, .unclosed⟩) ∧
    LexFault.unopened.message = "unexpected closing parenthesis" ∧
    LexFault.unclosed.message = "closing parenthesis expected" := by
  refine ⟨nest_isOk_iff, ?_, ?_, exists_lastUnclosed, rfl, rfl⟩
  · intro items
    rw [nest_eq_ok_iff]
    exact ⟨fun h => ⟨h.marks, h.nested⟩, fun ⟨hmarks, hnested⟩ => ⟨hmarks, hnested⟩⟩
  · intro h
    obtain ⟨before, closing, after, hts, hbefore, hnest⟩ := exists_unopened h
    exact ⟨before, _, after, hts, firstUnopened_of_balanced hbefore closing, hnest⟩

-- of the two faults in `())(` the one that is met first is reported
example :
    nest [⟨.lparen, 0⟩, ⟨.rparen, 1⟩, ⟨.rparen, 2⟩, ⟨.lparen, 3⟩] = .error ⟨2, .unopened⟩ := by
  have hgroup : collected (some 0) [] [⟨.rparen, 1⟩, ⟨.rparen, 2⟩, ⟨.lparen, 3⟩] =
      .ok ([], [⟨.rparen, 1⟩, ⟨.rparen, 2⟩, ⟨.lparen, 3⟩]) := collected_rparen_some
  rw [nest, collected_lparen_cons hgroup, collected_rparen_none]
  rfl

end Item

end Sequitur
