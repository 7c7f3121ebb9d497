import Mathlib.Algebra.Group.Nat.Defs
import Sequitur.Proofs.Text.Utf8
import Sequitur.Yaml.Quoting
import Sequitur.Yaml.Scalar

/-!
# Sequitur.Proofs.Yaml.Scalar

Scalars that are written on one line are read back.

A string without breaks is written plain or in quotes (`stringText_cases`).  For
each of the three ways there is a lemma that reads the written characters back:

* `plain_canBePlain`: a plain scalar goes on over the end of its line, up to the
  next token, and stops there since that token is indented less;
* `singleQuoted_inSingleQuotes`: in single quotes a quote is written twice;
* `doubleQuoted_flatMap`: in double quotes each character is written as it is or
  as an escape, and which of them are escaped does not matter.

Blanks are kept back in a gap until another character follows, so each induction
is over all gaps.  `OneLine` sums up the three ways for the modules about tokens,
and by `isWritable_stringText` nothing is written that a stream cannot hold.
-/

namespace Sequitur.Yaml

/-! ## Places -/

namespace Mark

/-- The place `n` characters further on the same line. -/
def right (n : Nat) (m : Mark) : Mark :=
  { m with index := m.index + n, column := m.column + n }

/-- The start of the next line, after a line feed. -/
def down (m : Mark) : Mark := { index := m.index + 1, line := m.line + 1, column := 0 }

/-- The cursor at a place of a stream that has arrived. -/
def cursor (m : Mark) : Cursor := { mark := m }

theorem right_right (a b : Nat) (m : Mark) : (m.right a).right b = m.right (a + b) := by
  simp [right, Nat.add_assoc]

@[simp] theorem mark_cursor (m : Mark) : m.cursor.mark = m := rfl

@[simp] theorem next_cursor (m : Mark) : m.cursor.next = (m.right 1).cursor := rfl

@[simp] theorem need_cursor (m : Mark) (n : Nat) (rest : List Char) :
    m.cursor.need n rest = some m.cursor := rfl

@[simp] theorem lineBreak_cursor (m : Mark) (rest : List Char) :
    lineBreak '\n' m.cursor rest = some m.down.cursor := rfl

@[simp] theorem atWord_cursor (starts : Bool) (m : Mark) (rest : List Char) :
    atWord starts m.cursor rest = some m.cursor := by
  cases starts <;> rfl

end Mark

/-- Inside of a line no document starts or ends. -/
theorem atDocumentIndicator_of_column_pos {m : Mark} (h : 0 < m.column) (cs : List Char) :
    atDocumentIndicator m cs = false := by
  simp [atDocumentIndicator, Nat.pos_iff_ne_zero.mp h]

/-- The gap of blanks on one line. -/
def Gap.ofBlanks (blanks : List Char) : Gap := { blanks }

namespace Gap

@[simp] theorem none_eq : Gap.none = ofBlanks [] := rfl

@[simp] theorem blank_ofBlanks (c : Char) (bs : List Char) :
    (ofBlanks bs).blank c = ofBlanks (bs ++ [c]) := rfl

@[simp] theorem isOpen_ofBlanks (bs : List Char) : (ofBlanks bs).isOpen = !bs.isEmpty := rfl

@[simp] theorem joined_ofBlanks (bs : List Char) : (ofBlanks bs).joined = bs := rfl

@[simp] theorem broken_ofBlanks (bs : List Char) : (ofBlanks bs).broken = false := rfl

end Gap

theorem prepend_prepend (cs ds : List Char) :
    Scanned.prepend cs ∘ Scanned.prepend ds = Scanned.prepend (cs ++ ds) := by
  funext s
  simp [Scanned.prepend]

/-! ## Plain scalars -/

section Plain

variable {indent : Nat} {starts : Bool} {m : Mark}

theorem plain_blank (bs rest : List Char) :
    plain false indent starts m.cursor (.ofBlanks bs) (' ' :: rest) =
      plain false indent starts (m.right 1).cursor (.ofBlanks (bs ++ [' '])) rest := by
  simp [plain, isBlank]

theorem plain_char {c : Char} {bs rest : List Char} (hblank : isBlank c = false)
    (hbreak : isBreak c = false) (hgap : bs ≠ [] → indent ≤ m.column ∧ 0 < m.column ∧ c ≠ '#')
    (hends : endsPlain false c rest = false) :
    plain false indent starts m.cursor (.ofBlanks bs) (c :: rest) =
      (plain false indent false (m.right 1).cursor (.ofBlanks []) rest).map
        (Scanned.prepend (bs ++ [c])) := by
  by_cases hbs : bs = []
  · simp [plain, hblank, hbreak, hbs, hends]
  · obtain ⟨hindent, hcolumn, hc⟩ := hgap hbs
    simp [plain, hblank, hbreak, hbs, hends, Nat.not_lt.mpr hindent, hc,
      atDocumentIndicator_of_column_pos hcolumn]

/-- A colon ends no plain scalar before a character that is no blank. -/
theorem endsPlain_append {c : Char} {cs rest : List Char} (hbreak : ∀ d ∈ cs, isBreak d = false)
    (h : (c = ':' && blankFollows cs) = false) : endsPlain false c (cs ++ rest) = false := by
  cases cs with
  | nil => simp_all [endsPlain, blankFollows]
  | cons d cs => simp_all [endsPlain, blankFollows, atWordEnd]

/-- **Reading a plain scalar** goes through characters that mean nothing in a block. -/
theorem plain_append (bs : List Char) {cs rest : List Char} (hne : cs ≠ [])
    (hlast : isBlank (cs.getLast hne) = false) (htab : ∀ c ∈ cs, c ≠ '\t')
    (hbreak : ∀ c ∈ cs, isBreak c = false) (hholds : holdsIndicator (!bs.isEmpty) cs = false)
    (hcolumn : (bs ≠ [] ∨ ∃ c ∈ cs, isBlank c = true) → indent ≤ m.column ∧ 0 < m.column) :
    plain false indent starts m.cursor (.ofBlanks bs) (cs ++ rest) =
      (plain false indent false (m.right cs.length).cursor (.ofBlanks []) rest).map
        (Scanned.prepend (bs ++ cs)) := by
  induction cs generalizing starts m bs with
  | nil => contradiction
  | cons c cs ih =>
      rw [holdsIndicator, Bool.or_eq_false_iff, Bool.or_eq_false_iff] at hholds
      obtain ⟨⟨hcolon, hsign⟩, hholds⟩ := hholds
      have hcbreak : isBreak c = false := hbreak c List.mem_cons_self
      rw [List.forall_mem_cons] at htab hbreak
      by_cases hblank : isBlank c = true
      · have hc : c = ' ' := by simpa [isBlank, htab.1] using hblank
        subst hc
        -- the last character is no blank, so there are others
        have hcs : cs ≠ [] := by
          rintro rfl
          exact absurd hblank (by simpa using hlast)
        have hplace := hcolumn (.inr ⟨' ', List.mem_cons_self, hblank⟩)
        rw [List.cons_append, plain_blank,
          ih _ hcs (by rwa [List.getLast_cons hcs] at hlast) htab.2 hbreak.2
            (by cases bs <;> exact hholds)
            (fun _ => ⟨Nat.le_add_right_of_le hplace.1, Nat.add_pos_left hplace.2 1⟩),
          Mark.right_right, List.append_assoc, Nat.add_comm]
        rfl
      · rw [Bool.not_eq_true] at hblank
        have hgap : bs ≠ [] → indent ≤ m.column ∧ 0 < m.column ∧ c ≠ '#' := fun hbs =>
          ⟨(hcolumn (.inl hbs)).1, (hcolumn (.inl hbs)).2, by simpa [hbs] using hsign⟩
        rw [List.cons_append, plain_char hblank hcbreak hgap (endsPlain_append hbreak.2 hcolon)]
        cases hcs : cs with
        | nil => rfl
        | cons d ds =>
            subst hcs
            rw [ih _ (by simp) (by rwa [List.getLast_cons] at hlast) htab.2 hbreak.2
              (by simpa [hblank, hcbreak] using hholds) ?_, Option.map_map, prepend_prepend,
              Mark.right_right, Nat.add_comm]
            · simp
            · rintro (h | ⟨e, he, hblank⟩)
              · contradiction
              · have hplace := hcolumn (.inr ⟨e, List.mem_cons_of_mem c he, hblank⟩)
                exact ⟨Nat.le_add_right_of_le hplace.1, Nat.add_pos_left hplace.2 1⟩

/-- A plain scalar ends before a colon with a blank or a break after it. -/
theorem plain_colon {rest : List Char} (hrest : atWordEnd rest = true) :
    plain false indent starts m.cursor (.ofBlanks []) (':' :: rest) =
      some { value := [], cursor := m.cursor, rest := ':' :: rest } := by
  simp [plain, isBlank, isBreak, endsPlain, hrest]

/-- Whether neither a blank, a break nor a comment comes next. -/
def opensToken : List Char → Bool
  | [] => true
  | c :: _ => !isBlank c && !isBreak c && c ≠ '#'

/-- A plain scalar ends at a line that is indented less. -/
theorem plain_indentation {n : Nat} {g : Gap} {tail : List Char} (hg : g.broken = true)
    (hn : m.column + n < indent) (htail : opensToken tail = true) :
    plain false indent starts m.cursor g (List.replicate n ' ' ++ tail) =
      some { value := [], cursor := (m.right n).cursor, rest := tail, broken := true } := by
  induction n generalizing m with
  | zero =>
      cases tail with
      | nil => simp [plain, hg, Mark.right]
      | cons c tail =>
          simp only [opensToken, Bool.and_eq_true, Bool.not_eq_true'] at htail
          have hcolumn : m.column < indent := hn
          simp [plain, htail, Gap.isOpen, hg, hcolumn, Mark.right]
  | succ n ih =>
      have hblank : g.blank ' ' = g := by simp [Gap.blank, hg]
      have hstep := ih (m := m.right 1) (by simp only [Mark.right]; omega)
      simpa [List.replicate_succ, plain, isBlank, hblank, Mark.right_right, Nat.add_comm]
        using hstep

/-- A plain scalar ends at the end of a line before one that is indented less. -/
theorem plain_newline {n : Nat} {tail : List Char} (hn : n < indent)
    (htail : opensToken tail = true) :
    plain false indent starts m.cursor (.ofBlanks []) ('\n' :: (List.replicate n ' ' ++ tail)) =
      some { value := [], cursor := (m.down.right n).cursor, rest := tail, broken := true } := by
  have hcolumn : m.down.column + n < indent := by simpa [Mark.down] using hn
  simp [plain, isBlank, isBreak, plain_indentation (g := (Gap.ofBlanks []).lineBreak '\n') rfl
    hcolumn htail]

/-- What a string is like that can be written without quotes. -/
structure PlainText (c : Char) (cs : List Char) : Prop where
  tab : ∀ d ∈ c :: cs, d ≠ '\t'
  lineBreak : ∀ d ∈ c :: cs, isBreak d = false
  first : isBlank c = false
  last : isBlank ((c :: cs).getLast (List.cons_ne_nil c cs)) = false
  starts : startsIndicator (c :: cs) = false
  holds : holdsIndicator false (c :: cs) = false

theorem plainText_of_canBePlain {c : Char} {cs : List Char} (h : canBePlain (c :: cs) = true) :
    PlainText c cs := by
  simp only [canBePlain, canBeSingle, Bool.and_eq_true, Bool.not_eq_true', Bool.or_eq_false_iff,
    hasIndicator, hasLooseEnd, List.head?_cons, Option.any_some, List.tail_cons,
    List.any_eq_false, decide_eq_true_eq, Bool.not_eq_true] at h
  obtain ⟨⟨⟨⟨⟨-, htab⟩, -⟩, hfirst, hlast⟩, hbreak⟩, ⟨-, hstarts⟩, hholds⟩ := h
  have htabLast := htab _ (List.getLast_mem (List.cons_ne_nil c cs))
  rw [List.getLast?_eq_some_getLast (List.cons_ne_nil c cs)] at hlast
  refine ⟨htab, hbreak, ?_, ?_, hstarts, ?_⟩
  · simp_all [isBlank]
  · simp_all [isBlank]
  · simp only [startsIndicator, Bool.or_eq_false_iff] at hstarts
    simp_all [holdsIndicator]

/-- **A string that can be written without quotes** is read up to the end of its line, and on
to the next token if that is indented less. -/
theorem plain_canBePlain {n : Nat} {c : Char} {cs tail : List Char} (h : PlainText c cs)
    (hindent : indent ≤ m.column) (hcolumn : 0 < m.column) (hn : n < indent)
    (htail : opensToken tail = true) :
    plain false indent starts m.cursor .none
        (c :: cs ++ '\n' :: (List.replicate n ' ' ++ tail)) =
      some { value := c :: cs, cursor := ((m.right (c :: cs).length).down.right n).cursor
             rest := tail, broken := true } := by
  rw [Gap.none_eq, plain_append [] (List.cons_ne_nil c cs) h.last h.tab h.lineBreak h.holds
    (fun _ => ⟨hindent, hcolumn⟩), plain_newline hn htail]
  simp [Scanned.prepend]

end Plain

/-! ## Single quotes -/

section SingleQuotes

variable {starts : Bool} {m : Mark}

theorem singleQuoted_cons (k : Cursor) (g : Gap) (c : Char) (rest : List Char) :
    singleQuoted starts k g (c :: rest) =
      (if isBlank c then do
        let k ← k.next.need 1 rest
        singleQuoted starts k (g.blank c) rest
      else if isBreak c then do
        let k ← (← lineBreak c k rest).need 1 rest
        singleQuoted starts k (g.lineBreak c) rest
      else do
        let k ← atWord (starts || g.isOpen) k (c :: rest)
        if atDocumentIndicator k.mark (c :: rest) then none
        else if c = '\x27' then
          match rest with
          | [] => some { value := g.joined, cursor := k.next, rest := [] }
          | d :: rest' =>
            if d = '\x27' then do
              let k ← k.next.next.need 2 rest'
              (singleQuoted false k .none rest').map (Scanned.prepend (g.joined ++ ['\x27']))
            else some { value := g.joined, cursor := k.next, rest := d :: rest' }
        else do
          let k ← k.next.need 2 rest
          (singleQuoted false k .none rest).map (Scanned.prepend (g.joined ++ [c]))) := by
  -- the second quote is looked for one character ahead
  cases rest <;> rfl

theorem singleQuoted_char {c : Char} {bs rest : List Char} (hcolumn : 0 < m.column)
    (hblank : isBlank c = false) (hbreak : isBreak c = false) (hquote : c ≠ '\x27') :
    singleQuoted starts m.cursor (.ofBlanks bs) (c :: rest) =
      (singleQuoted false (m.right 1).cursor (.ofBlanks []) rest).map
        (Scanned.prepend (bs ++ [c])) := by
  simp [singleQuoted_cons, hblank, hbreak, hquote, atDocumentIndicator_of_column_pos hcolumn]

theorem singleQuoted_quote {bs rest : List Char} (hcolumn : 0 < m.column) :
    singleQuoted starts m.cursor (.ofBlanks bs) ('\x27' :: '\x27' :: rest) =
      (singleQuoted false (m.right 2).cursor (.ofBlanks []) rest).map
        (Scanned.prepend (bs ++ ['\x27'])) := by
  simp [singleQuoted_cons, isBlank, isBreak, Mark.right_right,
    atDocumentIndicator_of_column_pos hcolumn]

theorem singleQuoted_end {c : Char} {bs rest : List Char} (hcolumn : 0 < m.column)
    (hc : c ≠ '\x27') :
    singleQuoted starts m.cursor (.ofBlanks bs) ('\x27' :: c :: rest) =
      some { value := bs, cursor := (m.right 1).cursor, rest := c :: rest } := by
  simp [singleQuoted_cons, isBlank, isBreak, hc, atDocumentIndicator_of_column_pos hcolumn]

/-- **Reading a scalar in single quotes** gives back the characters that were written. -/
theorem singleQuoted_inSingleQuotes {indent : Nat} {c : Char} {cs bs rest : List Char}
    (hcolumn : 0 < m.column) (hbreak : ∀ c ∈ cs, isBreak c = false) (hc : c ≠ '\x27') :
    singleQuoted starts m.cursor (.ofBlanks bs)
        (inSingleQuotes indent false cs ++ '\x27' :: c :: rest) =
      some { value := bs ++ cs
             cursor := (m.right ((inSingleQuotes indent false cs).length + 1)).cursor
             rest := c :: rest } := by
  induction cs generalizing starts m bs with
  | nil => simp [inSingleQuotes, singleQuoted_end hcolumn hc]
  | cons d cs ih =>
      rw [List.forall_mem_cons] at hbreak
      have hright (n : Nat) : 0 < (m.right n).column := Nat.add_pos_left hcolumn n
      by_cases hquote : d = '\x27'
      · subst hquote
        simp [inSingleQuotes, hbreak.1, singleQuoted_quote hcolumn, ih (hright 2) hbreak.2,
          Mark.right_right, Scanned.prepend, Nat.add_comm 2]
      · by_cases hblank : isBlank d = true
        · have hstep : singleQuoted starts m.cursor (.ofBlanks bs)
              (d :: (inSingleQuotes indent false cs ++ '\x27' :: c :: rest)) =
                singleQuoted starts (m.right 1).cursor (.ofBlanks (bs ++ [d]))
                  (inSingleQuotes indent false cs ++ '\x27' :: c :: rest) := by
            simp [singleQuoted_cons, hblank]
          simp [inSingleQuotes, hbreak.1, hquote, hstep, ih (hright 1) hbreak.2,
            Mark.right_right, Nat.add_comm 1]
        · rw [Bool.not_eq_true] at hblank
          simp [inSingleQuotes, hbreak.1, hquote, singleQuoted_char hcolumn hblank hbreak.1 hquote,
            ih (hright 1) hbreak.2, Mark.right_right, Scanned.prepend, Nat.add_comm 1]

end SingleQuotes

/-! ## Double quotes -/

theorem length_hexDigits (width n : Nat) : (hexDigits width n).length = width := by
  induction width generalizing n with
  | zero => rfl
  | succ width ih => simp [hexDigits, ih]

theorem hexValue?_toUpper_hexDigit (n : Nat) : hexValue? (hexDigit n).toUpper = some (n % 16) := by
  have hlt : n % 16 < 16 := Nat.mod_lt n (by decide)
  have hall : ∀ d < 16, hexValue? (Nat.digitChar d).toUpper = some d := by decide
  exact hall (n % 16) hlt

/-- An escape is a letter that stands for the character, or one that announces the digits of
its number. -/
theorem escapeOf_cases (c : Char) :
    (∃ l, escapeOf c = [l] ∧ isWritable l = true ∧ isBreak l = false ∧
        escaped? l = some (.char c)) ∨
      ∃ l width, escapeOf c = l :: (hexDigits (width + 1) c.toNat).map Char.toUpper ∧
        isWritable l = true ∧ isBreak l = false ∧ escaped? l = some (.code (width + 1)) ∧
        c.toNat < 16 ^ (width + 1) := by
  have hmax : c.toNat < 0x110000 := by have := Text.toNat_lt c; omega
  unfold escapeOf
  split
  case h_16 =>
    right
    split
    · exact ⟨'x', 1, rfl, by decide, by decide, rfl, by omega⟩
    · split
      · exact ⟨'u', 3, rfl, by decide, by decide, rfl, by omega⟩
      · exact ⟨'U', 7, rfl, by decide, by decide, rfl, by omega⟩
  all_goals
    next h =>
      left
      rw [← Char.ofNat_toNat c, h]
      exact ⟨_, rfl, by decide, by decide, rfl⟩

section DoubleQuotes

variable {starts : Bool} {m : Mark}

theorem doubleQuoted_outside (k : Cursor) (g : Gap) (c : Char) (rest : List Char) :
    doubleQuoted starts k g .outside (c :: rest) =
      (if isBlank c then do
        let k ← k.next.need 1 rest
        doubleQuoted starts k (g.blank c) .outside rest
      else if isBreak c then do
        let k ← (← lineBreak c k rest).need 1 rest
        doubleQuoted starts k (g.lineBreak c) .outside rest
      else do
        let k ← atWord (starts || g.isOpen) k (c :: rest)
        if atDocumentIndicator k.mark (c :: rest) then none
        else if c = '"' then some { value := g.joined, cursor := k.next, rest }
        else if c = '\\' then
          (doubleQuoted false k.next .none .backslash rest).map (Scanned.prepend g.joined)
        else do
          let k ← k.next.need 2 rest
          (doubleQuoted false k .none .outside rest).map (Scanned.prepend (g.joined ++ [c]))) :=
  rfl

theorem doubleQuoted_blank {c : Char} {bs rest : List Char} (hblank : isBlank c = true) :
    doubleQuoted starts m.cursor (.ofBlanks bs) .outside (c :: rest) =
      doubleQuoted starts (m.right 1).cursor (.ofBlanks (bs ++ [c])) .outside rest := by
  simp [doubleQuoted_outside, hblank]

theorem doubleQuoted_char {c : Char} {bs rest : List Char} (hcolumn : 0 < m.column)
    (hblank : isBlank c = false) (hbreak : isBreak c = false) (hquote : c ≠ '"')
    (hslash : c ≠ '\\') :
    doubleQuoted starts m.cursor (.ofBlanks bs) .outside (c :: rest) =
      (doubleQuoted false (m.right 1).cursor (.ofBlanks []) .outside rest).map
        (Scanned.prepend (bs ++ [c])) := by
  simp [doubleQuoted_outside, hblank, hbreak, hquote, hslash,
    atDocumentIndicator_of_column_pos hcolumn]

theorem doubleQuoted_end {bs rest : List Char} (hcolumn : 0 < m.column) :
    doubleQuoted starts m.cursor (.ofBlanks bs) .outside ('"' :: rest) =
      some { value := bs, cursor := (m.right 1).cursor, rest } := by
  simp [doubleQuoted_outside, isBlank, isBreak, atDocumentIndicator_of_column_pos hcolumn]

theorem doubleQuoted_backslash {bs rest : List Char} (hcolumn : 0 < m.column) :
    doubleQuoted starts m.cursor (.ofBlanks bs) .outside ('\\' :: rest) =
      (doubleQuoted false (m.right 1).cursor (.ofBlanks []) .backslash rest).map
        (Scanned.prepend bs) := by
  simp [doubleQuoted_outside, isBlank, isBreak, atDocumentIndicator_of_column_pos hcolumn]

/-- A letter that stands for a character. -/
theorem doubleQuoted_letter {l c : Char} {rest : List Char} (hbreak : isBreak l = false)
    (h : escaped? l = some (.char c)) :
    doubleQuoted false m.cursor (.ofBlanks []) .backslash (l :: rest) =
      (doubleQuoted false (m.right 1).cursor (.ofBlanks []) .outside rest).map
        (Scanned.prepend [c]) := by
  simp [doubleQuoted, hbreak, h]

/-- A letter that announces digits. -/
theorem doubleQuoted_code {l : Char} {n : Nat} {rest : List Char} (hbreak : isBreak l = false)
    (h : escaped? l = some (.code n)) :
    doubleQuoted false m.cursor (.ofBlanks []) .backslash (l :: rest) =
      doubleQuoted false (m.right 1).cursor (.ofBlanks []) (.digits n 0) rest := by
  simp [doubleQuoted, hbreak, h]

theorem doubleQuoted_digit {n left value : Nat} {rest : List Char} :
    doubleQuoted false m.cursor (.ofBlanks []) (.digits (left + 2) value)
        ((hexDigit n).toUpper :: rest) =
      doubleQuoted false (m.right 1).cursor (.ofBlanks [])
        (.digits (left + 1) (value * 16 + n % 16)) rest := by
  simp [doubleQuoted, hexValue?_toUpper_hexDigit]

theorem doubleQuoted_lastDigit {n value : Nat} {c : Char} {rest : List Char}
    (h : value * 16 + n % 16 = c.toNat) :
    doubleQuoted false m.cursor (.ofBlanks []) (.digits 1 value) ((hexDigit n).toUpper :: rest) =
      (doubleQuoted false (m.right 1).cursor (.ofBlanks []) .outside rest).map
        (Scanned.prepend [c]) := by
  have hvalid : c.toNat.isValidChar := c.valid
  simp [doubleQuoted, hexValue?_toUpper_hexDigit, h, hvalid]

/-- Digits after which there are others. -/
theorem doubleQuoted_hexDigits {width left value n : Nat} {rest : List Char} :
    doubleQuoted false m.cursor (.ofBlanks []) (.digits (width + (left + 1)) value)
        ((hexDigits width n).map Char.toUpper ++ rest) =
      doubleQuoted false (m.right width).cursor (.ofBlanks [])
        (.digits (left + 1) (value * 16 ^ width + n % 16 ^ width)) rest := by
  induction width generalizing left n rest with
  | zero => simp [hexDigits, Nat.mod_one, Mark.right]
  | succ width ih =>
      have hvalue : (value * 16 ^ width + n / 16 % 16 ^ width) * 16 + n % 16 =
          value * 16 ^ (width + 1) + n % 16 ^ (width + 1) := by
        rw [Nat.pow_succ', Nat.mod_mul, Nat.mul_left_comm]
        omega
      rw [hexDigits, List.map_append, List.append_assoc, Nat.add_right_comm width 1,
        Nat.add_assoc width, ih, List.map_cons, List.map_nil, List.singleton_append,
        doubleQuoted_digit, Mark.right_right, hvalue]

/-- **The digits of a character** are read as that character. -/
theorem doubleQuoted_codePoint {width : Nat} {c : Char} {rest : List Char}
    (h : c.toNat < 16 ^ (width + 1)) :
    doubleQuoted false m.cursor (.ofBlanks []) (.digits (width + 1) 0)
        ((hexDigits (width + 1) c.toNat).map Char.toUpper ++ rest) =
      (doubleQuoted false (m.right (width + 1)).cursor (.ofBlanks []) .outside rest).map
        (Scanned.prepend [c]) := by
  have hvalue : c.toNat / 16 % 16 ^ width * 16 + c.toNat % 16 = c.toNat := by
    rw [Nat.pow_succ'] at h
    rw [Nat.mod_eq_of_lt (Nat.div_lt_of_lt_mul h)]
    omega
  rw [hexDigits, List.map_append, List.append_assoc, doubleQuoted_hexDigits, List.map_cons,
    List.map_nil, List.singleton_append, Nat.zero_mul, Nat.zero_add, Nat.zero_add,
    doubleQuoted_lastDigit hvalue, Mark.right_right]

/-- **An escape** is read as the character it was written for. -/
theorem doubleQuoted_escape {c : Char} {bs rest : List Char} (hcolumn : 0 < m.column) :
    doubleQuoted starts m.cursor (.ofBlanks bs) .outside ('\\' :: (escapeOf c ++ rest)) =
      (doubleQuoted false (m.right ((escapeOf c).length + 1)).cursor (.ofBlanks []) .outside
        rest).map (Scanned.prepend (bs ++ [c])) := by
  rw [doubleQuoted_backslash hcolumn]
  obtain ⟨l, hc, -, hbreak, hl⟩ | ⟨l, width, hc, -, hbreak, hl, hlt⟩ := escapeOf_cases c
  · rw [hc, List.singleton_append, doubleQuoted_letter hbreak hl, Option.map_map,
      prepend_prepend, Mark.right_right]
    rfl
  · have hlength : 1 + (1 + (width + 1)) = (escapeOf c).length + 1 := by
      simp [hc, length_hexDigits]
      omega
    rw [← hlength, hc, List.cons_append, doubleQuoted_code hbreak hl, doubleQuoted_codePoint hlt,
      Option.map_map, prepend_prepend, Mark.right_right, Mark.right_right]

/-- **Reading a scalar in double quotes** gives back the characters that were written, whichever
of them are escaped. -/
theorem doubleQuoted_flatMap {written : Char → List Char} {cs bs rest : List Char}
    (hcolumn : 0 < m.column)
    (hwritten : ∀ c ∈ cs, written c = '\\' :: escapeOf c ∨
      written c = [c] ∧ isBreak c = false ∧ c ≠ '"' ∧ c ≠ '\\') :
    doubleQuoted starts m.cursor (.ofBlanks bs) .outside (cs.flatMap written ++ '"' :: rest) =
      some { value := bs ++ cs
             cursor := (m.right ((cs.flatMap written).length + 1)).cursor
             rest } := by
  induction cs generalizing starts m bs with
  | nil => simp [doubleQuoted_end hcolumn]
  | cons c cs ih =>
      rw [List.forall_mem_cons] at hwritten
      have hright (n : Nat) : 0 < (m.right n).column := Nat.add_pos_left hcolumn n
      obtain hc | ⟨hc, hbreak, hquote, hslash⟩ := hwritten.1
      · have hlength : (escapeOf c).length + 1 + ((cs.flatMap written).length + 1) =
            ('\\' :: (escapeOf c ++ cs.flatMap written)).length + 1 := by
          rw [List.length_cons, List.length_append]
          omega
        rw [List.flatMap_cons, hc, List.cons_append, List.cons_append, List.append_assoc,
          doubleQuoted_escape hcolumn, ih (hright _) hwritten.2, Mark.right_right, hlength]
        simp [Scanned.prepend]
      · rw [List.flatMap_cons, hc, List.append_assoc, List.singleton_append]
        by_cases hblank : isBlank c = true
        · rw [doubleQuoted_blank hblank, ih (hright 1) hwritten.2, Mark.right_right]
          simp [Nat.add_comm]
        · rw [Bool.not_eq_true] at hblank
          rw [doubleQuoted_char hcolumn hblank hbreak hquote hslash, ih (hright 1) hwritten.2,
            Mark.right_right]
          simp [Scanned.prepend, Nat.add_comm]

end DoubleQuotes

/-! ## Scalars on one line -/

/-- `OneLine written cs isPlain`: a scalar that stands for the characters `cs` is written on one
line, plain or in quotes. -/
inductive OneLine : List Char → List Char → Bool → Prop where
  | plain {cs : List Char} (hne : cs ≠ []) (h : canBePlain cs = true) : OneLine cs cs true
  | single {indent : Nat} {cs : List Char} (h : ∀ c ∈ cs, isBreak c = false) :
      OneLine (singleQuotedText indent cs) cs false
  | double {written : Char → List Char} {cs : List Char}
      (h : ∀ c ∈ cs, written c = '\\' :: escapeOf c ∨
        written c = [c] ∧ isBreak c = false ∧ c ≠ '"' ∧ c ≠ '\\') :
      OneLine ('"' :: cs.flatMap written ++ ['"']) cs false

theorem oneLine_doubleQuotedText (cs : List Char) : OneLine (doubleQuotedText cs) cs false := by
  apply OneLine.double
  intro c _
  by_cases hmark : cs.head? = some byteOrderMark
  · simp [hmark]
  · simp only [hmark, if_false, inDoubleQuotes]
    split
    · exact .inl rfl
    · next hc => simp_all

/-- Whether a string of one line is written without quotes. -/
def isPlainText (s : String) : Bool := standsForItself s && canBePlain s.toList

/-- The ways in which a string of one line is written. -/
theorem stringText_cases (width indent : Nat) {s : String}
    (h : ∀ c ∈ s.toList, isBreak c = false) :
    (isPlainText s = true ∧ s.toList ≠ [] ∧ stringText width indent s = s.toList) ∨
      isPlainText s = false ∧
        (canBeSingle s.toList = true ∧
            stringText width indent s = singleQuotedText indent s.toList ∨
          stringText width indent s = doubleQuotedText s.toList) := by
  have hnewline : s.toList.any (· = '\n') = false := by
    simp only [List.any_eq_false, decide_eq_true_eq]
    rintro c hc rfl
    exact absurd (h _ hc) (by decide)
  simp only [stringText, isPlainText]
  rw [if_neg (by simp [hnewline])]
  by_cases hitself : standsForItself s = true
  · rw [if_neg (by simp [hitself])]
    by_cases hplain : canBePlain s.toList = true
    · refine .inl ⟨by simp [hitself, hplain], ?_, if_pos hplain⟩
      intro hnil
      have hs : s = "" := String.toList_eq_nil_iff.mp hnil
      subst hs
      exact absurd hitself (by decide)
    · refine .inr ⟨by simp [hplain], ?_⟩
      rw [if_neg hplain]
      split
      · next hsingle => exact .inl ⟨hsingle, rfl⟩
      · exact .inr rfl
  · exact .inr ⟨by simp [hitself], .inr (if_pos (by simp [hitself]))⟩

/-- **A string without breaks is written on one line.** -/
theorem oneLine_stringText (width indent : Nat) {s : String}
    (h : ∀ c ∈ s.toList, isBreak c = false) :
    OneLine (stringText width indent s) s.toList (isPlainText s) := by
  obtain ⟨hplain, hne, htext⟩ | ⟨hplain, ⟨-, htext⟩ | htext⟩ := stringText_cases width indent h
  · rw [htext, hplain]
    rw [isPlainText, Bool.and_eq_true] at hplain
    exact .plain hne hplain.2
  · rw [htext, hplain]
    exact .single h
  · rw [htext, hplain]
    exact oneLine_doubleQuotedText _

/-! ## Characters that are written -/

theorem isWritable_of_canBeSingle {cs : List Char} (h : canBeSingle cs = true) :
    ∀ c ∈ cs, isWritable c = true := by
  intro c hc
  simp only [canBeSingle, Bool.not_eq_true', Bool.or_eq_false_iff, List.any_eq_false,
    decide_eq_true_eq, needsEscape, Bool.and_eq_true, not_and] at h
  simpa using h.2 c hc (by simpa using h.1.2 c hc)

theorem isWritable_hexDigit (n : Nat) : isWritable (hexDigit n).toUpper = true := by
  have hlt : n % 16 < 16 := Nat.mod_lt n (by decide)
  have hall : ∀ d < 16, isWritable (Nat.digitChar d).toUpper = true := by decide
  exact hall (n % 16) hlt

theorem isWritable_hexDigits (width n : Nat) :
    ∀ c ∈ (hexDigits width n).map Char.toUpper, isWritable c = true := by
  induction width generalizing n with
  | zero => simp [hexDigits]
  | succ width ih =>
      intro c hc
      rw [hexDigits, List.map_append, List.mem_append] at hc
      obtain hc | hc := hc
      · exact ih _ c hc
      · simp only [List.map_cons, List.map_nil, List.mem_singleton] at hc
        rw [hc, isWritable_hexDigit]

theorem isWritable_escape (c : Char) : ∀ d ∈ '\\' :: escapeOf c, isWritable d = true := by
  have hdigits (width : Nat) := isWritable_hexDigits (width + 1) c.toNat
  obtain ⟨l, hc, hl, -⟩ | ⟨l, width, hc, hl, -⟩ := escapeOf_cases c
  · rw [hc]
    simp only [List.forall_mem_cons]
    exact ⟨by decide, hl, by simp⟩
  · rw [hc]
    simp only [List.forall_mem_cons]
    exact ⟨by decide, hl, hdigits width⟩

theorem isWritable_inDoubleQuotes (c : Char) : ∀ d ∈ inDoubleQuotes c, isWritable d = true := by
  unfold inDoubleQuotes
  split
  · exact isWritable_escape c
  · next hc => simp_all

theorem isWritable_inSingleQuotes (indent : Nat) {cs : List Char}
    (hbreak : ∀ c ∈ cs, isBreak c = false) (h : ∀ c ∈ cs, isWritable c = true) :
    ∀ c ∈ inSingleQuotes indent false cs, isWritable c = true := by
  have hquote : isWritable '\x27' = true := by decide
  induction cs with
  | nil => simp [inSingleQuotes]
  | cons c cs ih =>
      rw [List.forall_mem_cons] at hbreak h
      have hmore := ih hbreak.2 h.2
      by_cases hc : c = '\x27'
      · subst hc
        simpa [inSingleQuotes, hbreak.1, hquote] using hmore
      · simpa [inSingleQuotes, hbreak.1, hc, h.1] using hmore

theorem isWritable_doubleQuotedText (cs : List Char) :
    ∀ c ∈ doubleQuotedText cs, isWritable c = true := by
  have hquoted {written : Char → List Char} (h : ∀ c ∈ cs, ∀ d ∈ written c, isWritable d = true) :
      ∀ c ∈ '"' :: cs.flatMap written ++ ['"'], isWritable c = true := by
    have hquote : isWritable '"' = true := by decide
    simp only [List.cons_append, List.forall_mem_cons, List.forall_mem_append,
      List.forall_mem_flatMap]
    exact ⟨hquote, h, hquote, by simp⟩
  unfold doubleQuotedText
  split
  · exact hquoted fun c _ => isWritable_escape c
  · exact hquoted fun c _ => isWritable_inDoubleQuotes c

/-- **A string without breaks is written in characters that stand for themselves.** -/
theorem isWritable_stringText (width indent : Nat) {s : String}
    (h : ∀ c ∈ s.toList, isBreak c = false) :
    ∀ c ∈ stringText width indent s, isWritable c = true := by
  have hsingle : isWritable '\x27' = true := by decide
  obtain ⟨hplain, -, htext⟩ | ⟨-, ⟨hcan, htext⟩ | htext⟩ := stringText_cases width indent h
  · rw [htext]
    simp only [isPlainText, canBePlain, Bool.and_eq_true] at hplain
    exact isWritable_of_canBeSingle hplain.2.1.1.1
  · have hchars := isWritable_inSingleQuotes indent h (isWritable_of_canBeSingle hcan)
    rw [htext, singleQuotedText]
    simpa [hsingle, or_imp, forall_and] using hchars
  · rw [htext]
    exact isWritable_doubleQuotedText s.toList

end Sequitur.Yaml
