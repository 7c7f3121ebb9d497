import Sequitur.Formula.Token

/-!
# Sequitur.Proofs.Formula.Spelling

What texts are made of tokens, said without a scanner.  A lexeme has one or
more spellings.  A spelling of a text is a list of segments, each a lexeme in
one of its spellings or a character that separates, such that no two names
touch.  It says which tokens there are and where.

The scanner and spellings agree (`scan_eq_ok_iff`): the tokens it finds in a
text are those of any spelling of it, and it finds tokens only in texts that
have one.

* `scanFrom_textOf` follows the segments, with one lemma for each kind;
* `completes_of_scanFrom` follows the scanner, and says of each of its
  states what the rest of the text must be for it to succeed.
-/

namespace Sequitur

/-! ## Spellings -/

/-- The ways to write a lexeme. -/
def Lexeme.spellings : Lexeme → List (List Char)
  | .name x => [x.chars]
  | .falsity => [['!'], ['⊥']]
  | .neg => [['~'], ['¬']]
  | .op .conj => [['/', '\\'], ['∧']]
  | .op .disj => [['\\', '/'], ['∨']]
  | .op .impl => [['-', '>'], ['➔'], ['→']]
  | .op .equiv => [['<', '-', '>'], ['↔'], ['⇔']]
  | .lparen => [['(']]
  | .rparen => [[')']]

/-- A segment of a text: a separating character, or a lexeme and how it is
written. -/
inductive Segment where
  | gap (c : Char) (h : isGap c = true)
  | lexeme (l : Lexeme) (cs : List Char) (h : cs ∈ l.spellings)

namespace Segment

/-- The characters of a segment. -/
def chars : Segment → List Char
  | gap c _ => [c]
  | lexeme _ cs _ => cs

/-- A segment as text. -/
def text (p : Segment) : Text := p.chars.map .char

/-- The tokens of a segment at an offset: one, or none. -/
def tokens (pos : Nat) : Segment → List Token
  | gap _ _ => []
  | lexeme l _ _ => [⟨l, pos⟩]

/-- Whether a segment is a name. -/
def isName : Segment → Bool
  | lexeme (.name _) _ _ => true
  | _ => false

/-- The text of segments. -/
def textOf (ps : List Segment) : Text := ps.flatMap text

/-- The tokens of segments, the first of them at offset `pos`. -/
def tokensFrom (pos : Nat) : List Segment → List Token
  | [] => []
  | p :: ps => p.tokens pos ++ tokensFrom (pos + p.text.size) ps

/-- Whether segments start with a name. -/
def startWithName : List Segment → Bool
  | [] => false
  | p :: _ => p.isName

/-- Whether no two names are next to each other. -/
def separated : List Segment → Bool
  | [] => true
  | p :: ps => !(p.isName && startWithName ps) && separated ps

end Segment

/-- Segments in which no two names touch. -/
structure Spelling where
  segments : List Segment
  separated : Segment.separated segments = true

namespace Spelling

/-- The text that is spelled. -/
def text (w : Spelling) : Text := Segment.textOf w.segments

/-- The tokens of a spelling. -/
def tokens (w : Spelling) : List Token := Segment.tokensFrom 0 w.segments

/-- The lexemes of a spelling. -/
def lexemes (w : Spelling) : List Lexeme := w.tokens.map (·.lexeme)

end Spelling

/-! ## Spellings and the alphabet of the scanner -/

theorem isGap_eq_true_iff {c : Char} :
    isGap c = true ↔ c = ' ' ∨ c = '\t' ∨ c = '\n' ∨ c = '\r' := by
  simp [isGap, or_assoc]

/-- A separating character is no part of a name. -/
theorem isNameChar_eq_false_of_isGap {c : Char} (h : isGap c = true) : isNameChar c = false := by
  rcases isGap_eq_true_iff.mp h with rfl | rfl | rfl | rfl <;> decide

theorem isNameChar_of_isLetter {c : Char} (h : isLetter c = true) : isNameChar c = true := by
  rw [isNameChar, h, Bool.true_or, Bool.true_or]

theorem isGap_eq_false_of_isNameChar {c : Char} (h : isNameChar c = true) : isGap c = false := by
  rw [Bool.eq_false_iff]
  intro hgap
  rw [isNameChar_eq_false_of_isGap hgap] at h
  contradiction

theorem isLetter_eq_false_of_not_isNameChar {c : Char} (h : isNameChar c = false) :
    isLetter c = false := by
  rw [Bool.eq_false_iff]
  intro hletter
  rw [isNameChar_of_isLetter hletter] at h
  contradiction

/-- What a lexeme of one character tells about that character. -/
theorem ofChar?_eq_some {c : Char} {l : Lexeme} (h : Lexeme.ofChar? c = some l) :
    isGap c = false ∧ isNameChar c = false ∧ [c] ∈ l.spellings := by
  unfold Lexeme.ofChar? at h
  split at h <;> cases h <;> decide

/-- What an operator of several characters tells about the first one. -/
theorem starting?_eq_some {c next : Char} {more : List Char} {op : Connective}
    (h : Connective.starting? c = some (op, next, more)) :
    isGap c = false ∧ isNameChar c = false ∧ Lexeme.ofChar? c = none ∧
      c :: next :: more ∈ (Lexeme.op op).spellings := by
  unfold Connective.starting? at h
  split at h <;> cases h <;> decide

/-- A lexeme is written as a name, as a single character, or as an operator
of several. -/
theorem spelling_cases {l : Lexeme} {cs : List Char} (h : cs ∈ l.spellings) :
    (∃ x, l = .name x ∧ cs = x.chars) ∨
    (∃ c, cs = [c] ∧ Lexeme.ofChar? c = some l) ∨
    (∃ op c next more, l = .op op ∧ cs = c :: next :: more ∧
      Connective.starting? c = some (op, next, more)) := by
  cases l with
  | name x => exact .inl ⟨x, rfl, List.mem_singleton.mp h⟩
  | falsity =>
      simp only [Lexeme.spellings, List.mem_cons, List.not_mem_nil, or_false] at h
      rcases h with rfl | rfl <;> exact .inr (.inl ⟨_, rfl, rfl⟩)
  | neg =>
      simp only [Lexeme.spellings, List.mem_cons, List.not_mem_nil, or_false] at h
      rcases h with rfl | rfl <;> exact .inr (.inl ⟨_, rfl, rfl⟩)
  | lparen => exact .inr (.inl ⟨_, List.mem_singleton.mp h, rfl⟩)
  | rparen => exact .inr (.inl ⟨_, List.mem_singleton.mp h, rfl⟩)
  | op c =>
      cases c <;> simp only [Lexeme.spellings, List.mem_cons, List.not_mem_nil, or_false] at h
      case conj | disj =>
        rcases h with rfl | rfl
        · exact .inr (.inr ⟨_, _, _, _, rfl, rfl, rfl⟩)
        · exact .inr (.inl ⟨_, rfl, rfl⟩)
      case impl | equiv =>
        rcases h with rfl | rfl | rfl
        · exact .inr (.inr ⟨_, _, _, _, rfl, rfl, rfl⟩)
        · exact .inr (.inl ⟨_, rfl, rfl⟩)
        · exact .inr (.inl ⟨_, rfl, rfl⟩)

/-! ## Sizes -/

/-- Characters are enough bytes, whatever comes after them. -/
theorem Text.shorterThan_map_char_append {n : Nat} {cs : List Char} (h : n ≤ cs.length)
    (rest : Text) : Text.shorterThan n (cs.map .char ++ rest) = false := by
  induction cs generalizing n with
  | nil =>
      obtain rfl : n = 0 := Nat.le_zero.mp h
      rw [Text.shorterThan]
  | cons c cs ih =>
      cases n with
      | zero => rw [Text.shorterThan]
      | succ n =>
          have hc : 0 < c.utf8Size := c.utf8Size_pos
          rw [List.map_cons, List.cons_append, Text.shorterThan]
          apply ih
          rw [Glyph.size]
          rw [List.length_cons] at h
          omega

/-! ## From spellings to tokens -/

namespace Token

/-- One step of the scanner, and the rest. -/
theorem scanFrom_cons {pos : Nat} {state state' : Pending} {g : Glyph} {rest : Text}
    {new : List Token} (h : step pos rest g state = .ok (new, state')) :
    scanFrom pos state (g :: rest) = (scanFrom (pos + g.size) state' rest).map (new ++ ·) := by
  rw [scanFrom, h]
  simp only [bind, Except.bind]
  cases scanFrom (pos + g.size) state' rest <;> rfl

theorem scanFrom_cons_error {pos : Nat} {state : Pending} {g : Glyph} {rest : Text}
    {e : LexError} (h : step pos rest g state = .error e) :
    scanFrom pos state (g :: rest) = .error e := by
  rw [scanFrom, h]
  rfl

theorem step_gap {c : Char} (h : isGap c = true) (pos : Nat) (rest : Text) :
    step pos rest (.char c) .gap = .ok ([], .gap) := by
  rw [step, start, if_pos h]

theorem step_letter (c : Letter) (pos : Nat) (rest : Text) :
    step pos rest (.char c.val) .gap = .ok ([], .name pos c []) := by
  have hgap := isGap_eq_false_of_isNameChar (isNameChar_of_isLetter c.property)
  rw [step, start, if_neg (by simp [hgap]), dif_pos c.property]

theorem step_symbol {c : Char} {l : Lexeme} (h : Lexeme.ofChar? c = some l) (pos : Nat)
    (rest : Text) : step pos rest (.char c) .gap = .ok ([⟨l, pos⟩], .gap) := by
  obtain ⟨hgap, hname, -⟩ := ofChar?_eq_some h
  have hletter := isLetter_eq_false_of_not_isNameChar hname
  rw [step, start, if_neg (by simp [hgap]), dif_neg (by simp [hletter]), h]

theorem step_operator {c next : Char} {more : List Char} {op : Connective} {rest : Text}
    (h : Connective.starting? c = some (op, next, more)) (pos : Nat)
    (hrest : rest.shorterThan (more.length + 1) = false) :
    step pos rest (.char c) .gap = .ok ([], .operator pos op next more) := by
  obtain ⟨hgap, hname, hsymbol, -⟩ := starting?_eq_some h
  have hletter := isLetter_eq_false_of_not_isNameChar hname
  rw [step, start, if_neg (by simp [hgap]), dif_neg (by simp [hletter]), hsymbol, h]
  simp only [hrest, Bool.false_eq_true, if_false]

/-- The rest of an operator is read up to its end. -/
theorem scanFrom_operator {pos begun : Nat} {op : Connective} {next : Char} {more : List Char}
    (rest : Text) :
    scanFrom pos (.operator begun op next more) ((next :: more).map .char ++ rest) =
      (scanFrom (pos + Text.size ((next :: more).map .char)) .gap rest).map
        (⟨.op op, begun⟩ :: ·) := by
  induction more generalizing pos next with
  | nil =>
      have hstep : step pos rest (.char next) (.operator begun op next []) =
          .ok ([⟨.op op, begun⟩], .gap) := by
        rw [step, if_pos rfl]
      exact scanFrom_cons hstep
  | cons c more ih =>
      have hstep : step pos ((c :: more).map .char ++ rest) (.char next)
          (.operator begun op next (c :: more)) = .ok ([], .operator begun op c more) := by
        rw [step, if_pos rfl]
      rw [List.map_cons, List.cons_append, scanFrom_cons hstep, ih, Text.size, Nat.add_assoc]
      cases scanFrom _ .gap rest <;> rfl

/-- The rest of a name is read as far as there are name characters. -/
theorem scanFrom_name {pos begun : Nat} {first : Letter} {later : List NameChar}
    (cs : List NameChar) (rest : Text) :
    scanFrom pos (.name begun first later) (cs.map (fun c => .char c.val) ++ rest) =
      scanFrom (pos + Text.size (cs.map fun c => .char c.val))
        (.name begun first (cs.reverse ++ later)) rest := by
  induction cs generalizing pos later with
  | nil => rfl
  | cons c cs ih =>
      have hstep : step pos (cs.map (fun c => .char c.val) ++ rest) (.char c.val)
          (.name begun first later) = .ok ([], .name begun first (c :: later)) := by
        rw [step, nameChar?, dif_pos c.property]
      rw [List.map_cons, List.cons_append, scanFrom_cons hstep, ih, Text.size, Nat.add_assoc,
        List.reverse_cons, List.append_assoc, List.singleton_append]
      cases scanFrom _ _ rest <;> rfl

/-- A name ends where no name character follows. -/
theorem scanFrom_name_end {pos begun : Nat} {first : Letter} {later : List NameChar} {t : Text}
    (h : ∀ g ∈ t.head?, nameChar? g = none) :
    scanFrom pos (.name begun first later) t =
      (scanFrom pos .gap t).map (⟨.name ⟨first, later.reverse⟩, begun⟩ :: ·) := by
  cases t with
  | nil => rfl
  | cons g rest =>
      have hg : nameChar? g = none := h g rfl
      cases hgap : step pos rest g .gap with
      | error e =>
          have hstart : start pos rest g = .error e := hgap
          have hstep : step pos rest g (.name begun first later) = .error e := by
            simp only [step, hg, hstart, bind, Except.bind]
          rw [scanFrom_cons_error hstep, scanFrom_cons_error hgap]
          rfl
      | ok r =>
          have hstart : start pos rest g = .ok r := hgap
          have hstep : step pos rest g (.name begun first later) =
              .ok (⟨.name ⟨first, later.reverse⟩, begun⟩ :: r.1, r.2) := by
            simp only [step, hg, hstart, bind, Except.bind]
          rw [scanFrom_cons hstep, scanFrom_cons hgap]
          cases scanFrom (pos + g.size) r.2 rest <;> rfl

open Segment

theorem text_name (x : Name) (h : x.chars ∈ (Lexeme.name x).spellings) :
    (Segment.lexeme (.name x) x.chars h).text =
      .char x.first.val :: x.later.map fun c => .char c.val := by
  have htext : (Segment.lexeme (.name x) x.chars h).text = x.chars.map .char := rfl
  rw [htext, Name.chars, List.map_cons, List.map_map]
  rfl

/-- The scanner reads a segment.  After a name no name character may follow. -/
theorem scanFrom_segment (p : Segment) {pos : Nat} {rest : Text}
    (h : p.isName = true → ∀ g ∈ rest.head?, nameChar? g = none) :
    scanFrom pos .gap (p.text ++ rest) =
      (scanFrom (pos + p.text.size) .gap rest).map (p.tokens pos ++ ·) := by
  cases p with
  | gap c hc => exact scanFrom_cons (step_gap hc pos rest)
  | lexeme l cs hcs =>
      -- a name, a symbol of one character or an operator of several
      rcases spelling_cases hcs with
        ⟨x, rfl, rfl⟩ | ⟨c, rfl, hc⟩ | ⟨op, c, next, more, rfl, rfl, hc⟩
      · rw [text_name, List.cons_append, scanFrom_cons (step_letter x.first pos _), scanFrom_name,
          scanFrom_name_end (h rfl), Text.size, Nat.add_assoc, List.append_nil,
          List.reverse_reverse]
        cases scanFrom _ .gap rest <;> rfl
      · exact scanFrom_cons (step_symbol hc pos rest)
      · have hlong :
            Text.shorterThan (more.length + 1) ((next :: more).map .char ++ rest) = false :=
          Text.shorterThan_map_char_append (by simp) rest
        rw [Segment.text, chars, List.map_cons, List.cons_append,
          scanFrom_cons (step_operator hc pos hlong), scanFrom_operator, Text.size, Nat.add_assoc]
        cases scanFrom _ .gap rest <;> rfl

/-- A segment that is no name starts with no name character. -/
theorem nameChar?_head_segment {p : Segment} (h : p.isName = false) (rest : Text) :
    ∀ g ∈ (p.text ++ rest).head?, nameChar? g = none := by
  have hhead : ∃ c cs, p.chars = c :: cs ∧ isNameChar c = false := by
    cases p with
    | gap c hc => exact ⟨c, [], rfl, isNameChar_eq_false_of_isGap hc⟩
    | lexeme l cs hcs =>
        rcases spelling_cases hcs with
          ⟨x, rfl, rfl⟩ | ⟨c, rfl, hc⟩ | ⟨op, c, next, more, rfl, rfl, hc⟩
        · simp [isName] at h
        · exact ⟨c, [], rfl, (ofChar?_eq_some hc).2.1⟩
        · exact ⟨c, next :: more, rfl, (starting?_eq_some hc).2.1⟩
  obtain ⟨c, cs, hchars, hc⟩ := hhead
  rw [Segment.text, hchars]
  rintro g hg
  obtain rfl : Glyph.char c = g := Option.some.inj hg
  rw [nameChar?, dif_neg (by simp [hc])]

theorem nameChar?_head_textOf {ps : List Segment} (h : startWithName ps = false) :
    ∀ g ∈ (textOf ps).head?, nameChar? g = none := by
  cases ps with
  | nil => simp [textOf]
  | cons p ps =>
      rw [textOf, List.flatMap_cons]
      exact nameChar?_head_segment h _

/-- **The scanner undoes every spelling.** -/
theorem scanFrom_textOf {ps : List Segment} (h : separated ps = true) (pos : Nat) :
    scanFrom pos .gap (textOf ps) = .ok (tokensFrom pos ps) := by
  induction ps generalizing pos with
  | nil => rfl
  | cons p ps ih =>
      simp only [separated, Bool.and_eq_true, Bool.not_eq_true', Bool.and_eq_false_iff] at h
      obtain ⟨hfirst, hps⟩ := h
      have hnext : p.isName = true → ∀ g ∈ (textOf ps).head?, nameChar? g = none := by
        intro hname
        rcases hfirst with hp | hps
        · rw [hname] at hp; contradiction
        · exact nameChar?_head_textOf hps
      have htext : textOf (p :: ps) = p.text ++ textOf ps := List.flatMap_cons
      rw [htext, scanFrom_segment p hnext, ih hps, tokensFrom]
      rfl

/-! ## From tokens to spellings -/

/-- What it takes for the scanner to find tokens in a text, from a state. -/
def Completes (pos : Nat) (t : Text) (tokens : List Token) : Pending → Prop
  | .gap =>
    ∃ ps, separated ps = true ∧ textOf ps = t ∧ tokensFrom pos ps = tokens
  | .name begun first later =>
    ∃ (cs : List NameChar) (ps : List Segment), separated ps = true ∧ startWithName ps = false ∧
      cs.map (fun c => Glyph.char c.val) ++ textOf ps = t ∧
      ⟨.name ⟨first, later.reverse ++ cs⟩, begun⟩ ::
        tokensFrom (pos + Text.size (cs.map fun c => .char c.val)) ps = tokens
  | .operator begun op next more =>
    ∃ ps, separated ps = true ∧ (next :: more).map Glyph.char ++ textOf ps = t ∧
      ⟨.op op, begun⟩ :: tokensFrom (pos + Text.size ((next :: more).map .char)) ps = tokens

/-- What a glyph that starts afresh can be. -/
theorem step_gap_eq_ok {pos : Nat} {rest : Text} {g : Glyph} {new : List Token} {state : Pending}
    (h : step pos rest g .gap = .ok (new, state)) :
    (∃ c, g = .char c ∧ isGap c = true ∧ new = [] ∧ state = .gap) ∨
    (∃ c : Letter, g = .char c.val ∧ new = [] ∧ state = .name pos c []) ∨
    (∃ c l, g = .char c ∧ Lexeme.ofChar? c = some l ∧ new = [⟨l, pos⟩] ∧ state = .gap) ∨
    (∃ c op next more, g = .char c ∧ Connective.starting? c = some (op, next, more) ∧
      new = [] ∧ state = .operator pos op next more) := by
  cases g with
  | stray b => simp [step, start] at h
  | char c =>
      rw [step, start] at h
      split at h
      · next hgap =>
          cases h
          exact .inl ⟨c, rfl, hgap, rfl, rfl⟩
      · split at h
        · next hletter =>
            cases h
            exact .inr (.inl ⟨⟨c, hletter⟩, rfl, rfl, rfl⟩)
        · split at h
          · next l hl =>
              cases h
              exact .inr (.inr (.inl ⟨c, l, rfl, hl, rfl, rfl⟩))
          · next op next more _ hop =>
              split at h
              · contradiction
              · cases h
                exact .inr (.inr (.inr ⟨c, op, next, more, rfl, hop, rfl, rfl⟩))
          · contradiction

/-- A lexeme whose spelling starts with no name character is no name. -/
theorem isName_eq_false {l : Lexeme} {c : Char} {cs : List Char} (h : c :: cs ∈ l.spellings)
    (hc : isNameChar c = false) : (Segment.lexeme l (c :: cs) h).isName = false := by
  cases l with
  | name x =>
      have hchars : c :: cs = x.chars := List.mem_singleton.mp h
      obtain ⟨rfl, -⟩ := List.cons.inj hchars
      rw [isNameChar_of_isLetter x.first.property] at hc
      contradiction
  | _ => rfl

/-- Segments whose text starts with no name character start with no name. -/
theorem startWithName_eq_false {ps : List Segment}
    (h : ∀ g ∈ (textOf ps).head?, nameChar? g = none) : startWithName ps = false := by
  cases ps with
  | nil => rfl
  | cons p ps =>
      rw [startWithName]
      cases p with
      | gap c hc => rfl
      | lexeme l cs hcs =>
          cases l with
          | name x =>
              obtain rfl : cs = x.chars := List.mem_singleton.mp hcs
              have hfirst := h (.char x.first.val) rfl
              rw [nameChar?, dif_pos (isNameChar_of_isLetter x.first.property)] at hfirst
              contradiction
          | _ => rfl

theorem nameChar?_eq_some {g : Glyph} {c : NameChar} (h : nameChar? g = some c) :
    g = .char c.val := by
  cases g with
  | stray b => cases h
  | char d =>
      rw [nameChar?] at h
      split at h
      · cases h; rfl
      · contradiction

/-- A segment that is no name may stand in front of any others. -/
theorem separated_cons {p : Segment} {ps : List Segment} (hp : p.isName = false)
    (hps : separated ps = true) : separated (p :: ps) = true := by
  rw [separated, hp, hps]
  rfl

theorem completes_gap_of_step {pos : Nat} {rest : Text} {g : Glyph} {new more : List Token}
    {state : Pending} (hstep : step pos rest g .gap = .ok (new, state))
    (h : Completes (pos + g.size) rest more state) :
    Completes pos (g :: rest) (new ++ more) .gap := by
  rcases step_gap_eq_ok hstep with ⟨c, rfl, hc, rfl, rfl⟩ | ⟨c, rfl, rfl, rfl⟩ |
    ⟨c, l, rfl, hc, rfl, rfl⟩ | ⟨c, op, next, cs, rfl, hc, rfl, rfl⟩
  · obtain ⟨ps, hps, rfl, rfl⟩ := h
    exact ⟨.gap c hc :: ps, separated_cons rfl hps, rfl, rfl⟩
  · obtain ⟨cs, ps, hps, hname, rfl, rfl⟩ := h
    have hspelling : Name.chars ⟨c, cs⟩ ∈ (Lexeme.name ⟨c, cs⟩).spellings := List.mem_cons_self
    refine ⟨.lexeme (.name ⟨c, cs⟩) _ hspelling :: ps, ?_, ?_, ?_⟩
    · rw [separated, hname, hps, Bool.and_false]
      rfl
    · rw [textOf, List.flatMap_cons, text_name]
      rfl
    · rw [tokensFrom, text_name, Text.size, ← Nat.add_assoc]
      rfl
  · obtain ⟨ps, hps, rfl, rfl⟩ := h
    obtain ⟨-, hname, hspelling⟩ := ofChar?_eq_some hc
    exact ⟨.lexeme l [c] hspelling :: ps, separated_cons (isName_eq_false hspelling hname) hps,
      rfl, rfl⟩
  · obtain ⟨ps, hps, rfl, rfl⟩ := h
    obtain ⟨-, -, -, hspelling⟩ := starting?_eq_some hc
    refine ⟨.lexeme (.op op) (c :: next :: cs) hspelling :: ps, separated_cons rfl hps, rfl, ?_⟩
    rw [tokensFrom, Segment.text, chars, List.map_cons, Text.size, ← Nat.add_assoc]
    rfl

/-- One step of the scanner goes back from what the next state asks of the
rest to what the state asks of the text. -/
theorem Completes.of_step {pos : Nat} {rest : Text} {g : Glyph} {new more : List Token}
    {state state' : Pending} (hstep : step pos rest g state = .ok (new, state'))
    (h : Completes (pos + g.size) rest more state') :
    Completes pos (g :: rest) (new ++ more) state := by
  cases state with
  | gap => exact completes_gap_of_step hstep h
  | name begun first later =>
      simp only [step] at hstep
      cases hg : nameChar? g with
      | some c =>
          simp only [hg] at hstep
          cases hstep
          obtain rfl := nameChar?_eq_some hg
          obtain ⟨cs, ps, hps, hname, rfl, rfl⟩ := h
          refine ⟨c :: cs, ps, hps, hname, rfl, ?_⟩
          rw [List.map_cons, Text.size, ← Nat.add_assoc, List.reverse_cons, List.append_assoc]
          rfl
      | none =>
          simp only [hg] at hstep
          cases hstart : start pos rest g with
          | error e => simp [hstart, bind, Except.bind] at hstep
          | ok r =>
              simp only [hstart, bind, Except.bind, Except.ok.injEq, Prod.mk.injEq] at hstep
              obtain ⟨rfl, rfl⟩ := hstep
              obtain ⟨ps, hps, htext, htokens⟩ := completes_gap_of_step hstart h
              have hname : startWithName ps = false := by
                apply startWithName_eq_false
                rw [htext]
                rintro _ ⟨⟩
                exact hg
              refine ⟨[], ps, hps, hname, htext, ?_⟩
              rw [List.append_nil, List.cons_append, ← htokens]
              rfl
  | operator begun op next cs =>
      simp only [step] at hstep
      split at hstep
      · next hg =>
          obtain rfl := hg
          cases cs with
          | nil =>
              cases hstep
              obtain ⟨ps, hps, rfl, rfl⟩ := h
              exact ⟨ps, hps, rfl, rfl⟩
          | cons c cs =>
              cases hstep
              obtain ⟨ps, hps, rfl, rfl⟩ := h
              refine ⟨ps, hps, rfl, ?_⟩
              rw [List.map_cons, Text.size, ← Nat.add_assoc]
              rfl
      · contradiction

theorem completes_of_finish {pos : Nat} {state : Pending} {tokens : List Token}
    (h : finish state = .ok tokens) : Completes pos [] tokens state := by
  cases state with
  | gap =>
      cases h
      exact ⟨[], rfl, rfl, rfl⟩
  | name begun first later =>
      cases h
      exact ⟨[], [], rfl, rfl, rfl, by rw [List.append_nil]; rfl⟩
  | operator begun op next more => cases h

/-- **The scanner succeeds on spellings only.** -/
theorem completes_of_scanFrom {pos : Nat} {state : Pending} {t : Text} {tokens : List Token}
    (h : scanFrom pos state t = .ok tokens) : Completes pos t tokens state := by
  induction t generalizing pos state tokens with
  | nil => exact completes_of_finish h
  | cons g rest ih =>
      cases hstep : step pos rest g state with
      | error e => rw [scanFrom_cons_error hstep] at h; contradiction
      | ok r =>
          rw [scanFrom_cons hstep] at h
          cases hmore : scanFrom (pos + g.size) r.2 rest with
          | error e => rw [hmore] at h; contradiction
          | ok more =>
              rw [hmore] at h
              obtain rfl : r.1 ++ more = tokens := Except.ok.inj h
              exact Completes.of_step hstep (ih hmore)

/-- The tokens of a text are those of its spelling. -/
theorem scan_eq_ok_iff {t : Text} {tokens : List Token} :
    scan t = .ok tokens ↔ ∃ w : Spelling, w.text = t ∧ w.tokens = tokens := by
  constructor
  · intro h
    obtain ⟨ps, hps, htext, htokens⟩ := completes_of_scanFrom h
    exact ⟨⟨ps, hps⟩, htext, htokens⟩
  · rintro ⟨w, rfl, rfl⟩
    exact scanFrom_textOf w.separated 0

end Token

end Sequitur
