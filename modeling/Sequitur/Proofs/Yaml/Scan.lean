import Sequitur.Proofs.Yaml.Scalar
import Sequitur.Yaml.Token

/-!
# Sequitur.Proofs.Yaml.Scan

What a scanner does with a key, a colon, a scalar and the end of a stream.

Outside of flow collections, and once a stream has arrived, a scanner is a
`BlockState` at a place.  One lemma for each kind of token says what reading it
changes in that state: `tokenHere_word`, `fetch_colon`, `fetch_oneLine` and
`tokenHere_nil`.

A key is known as such only at its colon.  Until then its token waits in the
queue, and the colon puts the token of the key, and perhaps that of the start of
a mapping, in front of it (`opened`).  Therefore tokens are taken later than they
are read, and what counts in the end is which tokens can be taken: `Emits`, with
`emits_take` for taking a token and `emits_fetch` for reading one.
-/

namespace Sequitur.Yaml

/-- The token of a kind on a line. -/
abbrev TokenKind.onLine (k : TokenKind) (line : Nat) : Token := { kind := k, line }

/-- What a scanner keeps outside of flow collections, apart from where it is. -/
structure BlockState where
  size : Nat
  queue : List Token
  taken : Nat
  indent : Int
  outer : List Int
  place : KeyPlace

namespace BlockState

/-- The level of the key that may have started. -/
def keyLevels (b : BlockState) : List (Nat × Nat) :=
  if b.place.isPossible then [(b.place.number, 0)] else []

/-- The scanner at a place, a key being allowed there or not. -/
def scanner (b : BlockState) (m : Mark) (keyAllowed : Bool) (rest : List Char) : Scanner :=
  { size := b.size, rest, cursor := m.cursor, queue := b.queue, taken := b.taken
    indent := b.indent, outer := b.outer, keys := [b.place], keyLevels := b.keyLevels, keyAllowed }

variable {b : BlockState} {m : Mark} {allowed : Bool} {rest : List Char}

@[simp] theorem inFlow_scanner : (b.scanner m allowed rest).inFlow = false := rfl

@[simp] theorem need_scanner (n : Nat) :
    (b.scanner m allowed rest).need n = some (b.scanner m allowed rest) := rfl

@[simp] theorem mark_scanner : (b.scanner m allowed rest).mark = m := rfl

@[simp] theorem cursor_scanner : (b.scanner m allowed rest).cursor = m.cursor := rfl

@[simp] theorem size_scanner : (b.scanner m allowed rest).size = b.size := rfl

@[simp] theorem rest_scanner : (b.scanner m allowed rest).rest = rest := rfl

@[simp] theorem keyAllowed_scanner : (b.scanner m allowed rest).keyAllowed = allowed := rfl

@[simp] theorem passMark_scanner :
    (b.scanner m allowed rest).passMark = b.scanner m allowed rest := by
  simp [Scanner.passMark, scanner, Mark.cursor, Supply.isMarked]

/-! ## Moving to a token -/

theorem span_spaces {kind : Char → Bool} {n : Nat} {tail : List Char} (hspace : kind ' ' = true)
    (htail : tail.head?.all (!kind ·) = true) :
    span kind m.cursor (List.replicate n ' ' ++ tail) =
      some (List.replicate n ' ', (m.right n).cursor, tail) := by
  induction n generalizing m with
  | zero =>
      cases tail with
      | nil => rfl
      | cons c tail =>
          have hc : kind c = false := by simpa using htail
          simp [span, hc, Mark.right]
  | succ n ih =>
      simp [List.replicate_succ, span, hspace, ih, Mark.right_right, Nat.add_comm]

theorem pass_spaces (kind : Char → Bool) (n : Nat) {tail : List Char} (hspace : kind ' ' = true)
    (htail : tail.head?.all (!kind ·) = true) :
    (b.scanner m allowed (List.replicate n ' ' ++ tail)).pass kind =
      some (List.replicate n ' ', b.scanner (m.right n) allowed tail) := by
  have hspan := span_spaces (m := m) (n := n) hspace htail
  simp only [scanner]
  simp [Scanner.pass, hspan]

/-- Spaces in front of a token are passed over. -/
theorem toToken_spaces (fuel n : Nat) {tail : List Char} (htail : opensToken tail = true) :
    (b.scanner m allowed (List.replicate n ' ' ++ tail)).toToken (fuel + 1) =
      some (b.scanner (m.right n) allowed tail) := by
  have hpass : (b.scanner m allowed (List.replicate n ' ' ++ tail)).pass
      (fun c => decide (c = ' ') || !allowed && decide (c = '\t')) =
        some (List.replicate n ' ', b.scanner (m.right n) allowed tail) := by
    apply pass_spaces _ n (by simp)
    cases tail <;> simp_all [opensToken, isBlank]
  generalize List.replicate n ' ' ++ tail = text at hpass
  cases tail with
  | nil => simp [Scanner.toToken, hpass]
  | cons c tail =>
      simp only [opensToken, Bool.and_eq_true, Bool.not_eq_true', decide_eq_true_eq] at htail
      simp [Scanner.toToken, hpass, htail]

theorem toToken_self (fuel : Nat) (htail : opensToken rest = true) :
    (b.scanner m allowed rest).toToken (fuel + 1) = some (b.scanner m allowed rest) :=
  toToken_spaces fuel 0 htail

/-- So is a break, after which a key may start. -/
theorem toToken_break (fuel : Nat) (text : List Char) :
    (b.scanner m allowed ('\n' :: text)).toToken (fuel + 1) =
      (b.scanner m.down true text).toToken fuel := by
  have hbreak : isBreak '\n' = true := by decide
  have hpass : (b.scanner m allowed ('\n' :: text)).pass
      (fun c => decide (c = ' ') || !allowed && decide (c = '\t')) =
        some ([], b.scanner m allowed ('\n' :: text)) := by
    simp [Scanner.pass, span, scanner]
  simp [Scanner.toToken, hpass, hbreak]
  rfl

theorem toToken_newline (fuel n : Nat) {tail : List Char} (htail : opensToken tail = true) :
    (b.scanner m allowed ('\n' :: (List.replicate n ' ' ++ tail))).toToken (fuel + 2) =
      some (b.scanner (m.down.right n) true tail) := by
  rw [toToken_break, toToken_spaces fuel n htail]

/-! ## What a token changes -/

/-- Adds a token that starts on a line. -/
def push (k : TokenKind) (line : Nat) (b : BlockState) : BlockState :=
  { b with queue := b.queue ++ [k.onLine line] }

/-- Closes the collections that are indented more than a column. -/
def closed (column : Int) (line : Nat) (b : BlockState) : BlockState :=
  let (n, indent, outer) := Scanner.unrolled column b.indent b.outer
  { b with indent, outer, queue := b.queue ++ List.replicate n (TokenKind.blockEnd.onLine line) }

/-- Remembers that a key may start at a place. -/
def keyAt (m : Mark) (b : BlockState) : BlockState :=
  { b with
    place :=
      { isPossible := true, isRequired := b.indent = m.column
        number := b.taken + b.queue.length, mark := m } }

/-- A collection that is indented no more than a column stays open. -/
theorem closed_of_le {column : Int} (h : b.indent ≤ column) (line : Nat) :
    b.closed column line = b := by
  have hunrolled : Scanner.unrolled column b.indent b.outer = (0, b.indent, b.outer) := by
    cases b.outer <;> simp [Scanner.unrolled, h]
  simp [closed, hunrolled]

@[simp] theorem unroll_scanner (column : Int) :
    (b.scanner m allowed rest).unroll column = (b.closed column m.line).scanner m allowed rest :=
  rfl

theorem saveKey_scanner_true (h : b.place.isPossible = false) :
    (b.scanner m true rest).saveKey = some ((b.keyAt m).scanner m true rest) := by
  simp [Scanner.saveKey, Scanner.dropKey, Scanner.keyPlace, scanner, h, Scanner.setKeyPlace,
    Scanner.forget, keyLevels, keyAt, Scanner.nextNumber, Scanner.flowLevel, Scanner.inFlow,
    Scanner.mark]

/-- No comment follows spaces in front of another character. -/
theorem peekComment_spaces {here tail : List Char} (i n : Nat)
    (htail : tail.head?.all (fun c => !isBlank c && c ≠ '#') = true) :
    Scanner.peekComment false here m.cursor i (List.replicate n ' ' ++ tail) =
      (m.cursor, false) := by
  induction n generalizing i with
  | zero =>
      cases tail with
      | nil => rfl
      | cons c tail =>
          simp_all [Scanner.peekComment, Cursor.ask, Mark.cursor, Supply.deliver]
  | succ n ih =>
      simp_all [List.replicate_succ, Scanner.peekComment, Cursor.ask, Mark.cursor, Supply.deliver,
        isBlank]

theorem passLineComment_scanner (n : Nat) (tail : List Char)
    (htail : tail.head?.all (fun c => !isBlank c && c ≠ '#') = true) :
    (b.scanner m allowed (List.replicate n ' ' ++ tail)).passLineComment =
      some (b.scanner m allowed (List.replicate n ' ' ++ tail)) := by
  simp [Scanner.passLineComment, peekComment_spaces 0 n htail]
  rfl

end BlockState

/-! ## Reading a token -/

/-- Reads the token at which a scanner is, and those that its place brings about. -/
def Scanner.tokenHere (s : Scanner) : Option Scanner := do
  let s ← (s.unroll s.mark.column).need 4
  match s.rest with
  | [] => s.endLine.outside 0 .streamEnd
  | c :: rest =>
    if s.mark.column = 0 && c = '%' then do
      let s ← (s.unroll (-1)).dropKey
      { s with keyAllowed := false }.directive
    else if atDocumentIndicator s.mark s.rest then
      s.outside 3 (if c = '-' then .documentStart else .documentEnd)
    else do
      let s ← s.inside c rest
      if s.passesComment then s.passLineComment else return s

theorem Scanner.fetch_eq (s : Scanner) :
    s.fetch = (s.toToken (s.size + 1)).bind Scanner.tokenHere := rfl

/-- `Emits s ts`: the tokens that can be taken from a scanner are `ts`. -/
def Scanner.Emits (s : Scanner) (ts : List Token) : Prop :=
  ∀ fuel, ts.length ≤ fuel → tokensFrom fuel s = ts

theorem Scanner.Emits.of_fill {s s' : Scanner} {ts : List Token} (hts : s'.Emits ts)
    (h : s.fill (s.size + 4) = s'.fill (s'.size + 4)) : s.Emits ts := by
  have hnext : s.next = s'.next := by rw [Scanner.next, h, Scanner.next]
  intro fuel hfuel
  rw [← hts fuel hfuel]
  cases fuel with
  | zero => rfl
  | succ fuel => rw [tokensFrom, hnext, tokensFrom]

/-- What starts as a plain scalar is read as one. -/
theorem Scanner.inside_plain {s : Scanner} {c : Char} {rest : List Char} (hflow : s.inFlow = false)
    (hblank : isBlank c = false)
    (hc : c ∉ ['#', ',', '[', ']', '\x7b', '\x7d', '&', '*', '!', '|', '>', '\x27', '"', '%', '@',
      Char.ofNat 0x60])
    (hword : c = '?' ∨ c = ':' ∨ c = '-' → atWordEnd rest = false) :
    s.inside c rest = s.keyed fun s =>
      s.scalar true (plain s.inFlow (s.indent + 1).toNat true s.cursor .none s.rest) := by
  simp only [List.mem_cons, List.not_mem_nil, or_false, not_or] at hc
  by_cases h : c = '?' ∨ c = ':' ∨ c = '-'
  · have hends := hword h
    have hhead : rest.head?.any isBlank = false := by
      cases rest <;> simp_all [atWordEnd]
    obtain rfl | rfl | rfl := h <;>
      simp [Scanner.inside, Scanner.startsPlain, hflow, hends, hhead]
  · rw [not_or, not_or] at h
    simp [Scanner.inside, Scanner.startsPlain, hc, h, hblank]

/-! ### Keys -/

/-- A word of letters that is short enough for a key. -/
structure IsWord (w : List Char) : Prop where
  ne_nil : w ≠ []
  letters : ∀ c ∈ w, c.isAlpha = true
  short : w.length ≤ 1024

theorem ne_of_isAlpha {c d : Char} (hc : c.isAlpha = true) (hd : d.isAlpha = false) : c ≠ d := by
  rintro rfl
  rw [hc] at hd
  contradiction

theorem isBlank_of_isAlpha {c : Char} (hc : c.isAlpha = true) : isBlank c = false := by
  simp [isBlank, ne_of_isAlpha (d := ' ') hc, ne_of_isAlpha (d := '\t') hc]

theorem isBreak_of_isAlpha {c : Char} (hc : c.isAlpha = true) : isBreak c = false := by
  simp [isBreak, ne_of_isAlpha (d := '\n') hc, ne_of_isAlpha (d := '\r') hc,
    ne_of_isAlpha (d := '\x85') hc, ne_of_isAlpha (d := '\u2028') hc,
    ne_of_isAlpha (d := '\u2029') hc]

theorem holdsIndicator_of_isAlpha {afterBlank : Bool} {w : List Char}
    (h : ∀ c ∈ w, c.isAlpha = true) : holdsIndicator afterBlank w = false := by
  induction w generalizing afterBlank with
  | nil => rfl
  | cons c w ih =>
      rw [List.forall_mem_cons] at h
      simp [holdsIndicator, ne_of_isAlpha (d := ':') h.1, ne_of_isAlpha (d := '#') h.1, ih h.2]

/-- A word with a colon after it is read as a plain scalar. -/
theorem plain_word {indent : Nat} {m : Mark} {w rest : List Char} (hw : IsWord w)
    (hrest : atWordEnd rest = true) :
    plain false indent true m.cursor .none (w ++ ':' :: rest) =
      some { value := w, cursor := (m.right w.length).cursor, rest := ':' :: rest } := by
  have hblank (c : Char) (hc : c ∈ w) : isBlank c = false := isBlank_of_isAlpha (hw.letters c hc)
  rw [Gap.none_eq, plain_append [] hw.ne_nil (hblank _ (List.getLast_mem hw.ne_nil))
    (fun c hc => ne_of_isAlpha (hw.letters c hc) (by decide))
    (fun c hc => isBreak_of_isAlpha (hw.letters c hc)) (holdsIndicator_of_isAlpha hw.letters)
    (by simp_all), plain_colon hrest]
  simp [Scanned.prepend]

theorem atDocumentIndicator_cons {m : Mark} {c : Char} (hdash : c ≠ '-') (hdot : c ≠ '.')
    (cs : List Char) : atDocumentIndicator m (c :: cs) = false := by
  unfold atDocumentIndicator
  split
  · next heq =>
      obtain ⟨rfl, -⟩ := List.cons.inj heq
      simp [hdash, hdot]
  · exact Bool.and_false _

namespace BlockState

variable {b : BlockState} {m : Mark} {allowed : Bool} {rest : List Char}

theorem scalar_scanner (isPlain : Bool) (value : List Char) (n : Mark) (after : List Char)
    (broken : Bool) :
    (b.scanner m allowed rest).scalar isPlain
        (some { value, cursor := n.cursor, rest := after, broken }) =
      some ((b.push (.scalar value isPlain) m.line).scanner n (allowed || broken) after) := rfl

theorem passesComment_push_scalar (isPlain : Bool) (value : List Char) (line : Nat) :
    ((b.push (.scalar value isPlain) line).scanner m allowed rest).passesComment = !allowed := by
  simp [Scanner.passesComment, scanner, push]

/-- Inside of a document, what comes next is read by its first character. -/
theorem tokenHere_inside {c : Char} {cs : List Char} {s : Scanner}
    (hdirective : c = '%' → m.column ≠ 0) (hdocument : atDocumentIndicator m (c :: cs) = false)
    (h : ((b.closed m.column m.line).scanner m allowed (c :: cs)).inside c cs = some s) :
    (b.scanner m allowed (c :: cs)).tokenHere =
      if s.passesComment then s.passLineComment else some s := by
  have hneg : ¬(m.column = 0 ∧ c = '%') := fun hand => hdirective hand.2 hand.1
  simp [Scanner.tokenHere, hneg, hdocument, h]

theorem keyed_scanner_true (read : Scanner → Option Scanner) (h : b.place.isPossible = false) :
    (b.scanner m true rest).keyed read = read ((b.keyAt m).scanner m false rest) := by
  rw [Scanner.keyed, saveKey_scanner_true h]
  rfl

theorem keyed_scanner_false (read : Scanner → Option Scanner) :
    (b.scanner m false rest).keyed read = read (b.scanner m false rest) := rfl

theorem inside_word {c : Char} {cs : List Char} (hw : IsWord (c :: cs))
    (hrest : atWordEnd rest = true) (hplace : b.place.isPossible = false) :
    (b.scanner m true (c :: (cs ++ ':' :: rest))).inside c (cs ++ ':' :: rest) =
      some (((b.keyAt m).push (.scalar (c :: cs) true) m.line).scanner
        (m.right (c :: cs).length) false (':' :: rest)) := by
  have hc : c.isAlpha = true := hw.letters c List.mem_cons_self
  have hsigns : ['#', ',', '[', ']', '\x7b', '\x7d', '&', '*', '!', '|', '>', '\x27', '"', '%', '@',
      Char.ofNat 0x60, '?', ':', '-'].all (!·.isAlpha) = true := by decide
  rw [List.all_eq_true] at hsigns
  have hne : ∀ d ∈ ['#', ',', '[', ']', '\x7b', '\x7d', '&', '*', '!', '|', '>', '\x27', '"', '%',
      '@', Char.ofNat 0x60, '?', ':', '-'], c ≠ d := fun d hd =>
    ne_of_isAlpha hc (by simpa using hsigns d hd)
  have hread : ((b.keyAt m).scanner m false (c :: (cs ++ ':' :: rest))).scalar true
      (plain false ((b.keyAt m).indent + 1).toNat true m.cursor .none (c :: cs ++ ':' :: rest)) =
        some (((b.keyAt m).push (.scalar (c :: cs) true) m.line).scanner
          (m.right (c :: cs).length) false (':' :: rest)) := by
    rw [plain_word hw hrest]
    rfl
  rw [Scanner.inside_plain rfl (isBlank_of_isAlpha hc) (by simp_all) (by simp_all),
    keyed_scanner_true _ hplace]
  exact hread

/-- **A key** closes what is indented more, and may start a mapping. -/
theorem tokenHere_word {w : List Char} (hw : IsWord w) (hrest : atWordEnd rest = true)
    (hplace : b.place.isPossible = false) :
    (b.scanner m true (w ++ ':' :: rest)).tokenHere =
      some ((((b.closed m.column m.line).keyAt m).push (.scalar w true) m.line).scanner
        (m.right w.length) false (':' :: rest)) := by
  obtain ⟨c, cs, rfl⟩ := List.exists_cons_of_ne_nil hw.ne_nil
  have hc : c.isAlpha = true := hw.letters c List.mem_cons_self
  rw [List.cons_append, tokenHere_inside (fun h => absurd h (ne_of_isAlpha hc (by decide)))
    (atDocumentIndicator_cons (ne_of_isAlpha hc (by decide)) (ne_of_isAlpha hc (by decide)) _)
    (inside_word hw hrest hplace), passesComment_push_scalar]
  exact passLineComment_scanner 0 (':' :: rest) (by simp [isBlank])

/-! ### Colons -/

/-- A key is found at the token with the number of its place: the tokens before it are `before`,
those from it on are `since`.  It opens a mapping if it is indented more. -/
def opened (before since : List Token) (b : BlockState) : BlockState :=
  let key := TokenKind.key.onLine b.place.mark.line
  if b.indent < b.place.mark.column then
    { b with
      queue := before ++ TokenKind.blockMappingStart.onLine b.place.mark.line :: key :: since
      indent := b.place.mark.column, outer := b.indent :: b.outer }
  else { b with queue := before ++ key :: since }

/-- A key is found, the colon after it being on a line. -/
def colon (before since : List Token) (line : Nat) (b : BlockState) : BlockState :=
  { b.opened before since with place := { b.place with isPossible := false } }.push .value line

theorem insert_scanner {before since : List Token} {number : Nat} (k : TokenKind) (n : Mark)
    (hqueue : b.queue = before ++ since) (hnumber : number = b.taken + before.length) :
    (b.scanner m allowed rest).insert number k n =
      { b with queue := before ++ k.onLine n.line :: since }.scanner m allowed rest := by
  have hlt : ¬b.taken + before.length < b.taken := by omega
  simp [Scanner.insert, scanner, hqueue, hnumber, hlt, keyLevels]

theorem roll_scanner_of_le {column : Nat} (number : Nat) (k : TokenKind) (n : Mark)
    (h : (column : Int) ≤ b.indent) :
    (b.scanner m allowed rest).roll column number k n = some (b.scanner m allowed rest) := by
  have hindent : (column : Int) ≤ (b.scanner m allowed rest).indent := h
  simp [Scanner.roll, hindent]

theorem roll_scanner_of_lt {before since : List Token} {column number : Nat} (k : TokenKind)
    (n : Mark) (h : b.indent < column) (hdepth : b.outer.length < Scanner.deepest)
    (hqueue : b.queue = before ++ since) (hnumber : number = b.taken + before.length) :
    (b.scanner m allowed rest).roll column number k n =
      some ({ b with
        queue := before ++ k.onLine n.line :: since, indent := column
        outer := b.indent :: b.outer }.scanner m allowed rest) := by
  have hindent : ¬(column : Int) ≤ (b.scanner m allowed rest).indent := Int.not_le.mpr h
  have houter : ¬Scanner.deepest ≤ (b.scanner m allowed rest).outer.length := Nat.not_le.mpr hdepth
  simp [Scanner.roll, hindent, houter, insert_scanner k n hqueue hnumber]
  rfl

theorem roll_insert_scanner {before since : List Token} (hqueue : b.queue = before ++ since)
    (hnumber : b.place.number = b.taken + before.length)
    (hdepth : b.outer.length < Scanner.deepest) :
    ((b.scanner m allowed rest).insert b.place.number .key b.place.mark).roll b.place.mark.column
        b.place.number .blockMappingStart b.place.mark =
      some ((b.opened before since).scanner m allowed rest) := by
  rw [insert_scanner .key b.place.mark hqueue hnumber]
  by_cases hindent : b.indent < b.place.mark.column
  · rw [opened, if_pos hindent]
    exact roll_scanner_of_lt .blockMappingStart b.place.mark hindent hdepth rfl hnumber
  · rw [opened, if_neg hindent]
    exact roll_scanner_of_le b.place.number .blockMappingStart b.place.mark (Int.not_lt.mp hindent)

theorem take_value_scanner (m : Mark) (allowed : Bool) (rest : List Char) (place : KeyPlace)
    (hplace : b.place.isPossible = true) :
    { (((b.scanner m allowed (':' :: rest)).setKeyPlace { place with isPossible := false }).forget
        b.place.number).take 1 .value with keyAllowed := false } =
      ({ b with place := { place with isPossible := false } }.push .value m.line).scanner
        (m.right 1) false rest := by
  simp [scanner, Scanner.setKeyPlace, Scanner.forget, Scanner.take, Scanner.push, Scanner.advance,
    keyLevels, push, hplace, Scanner.mark]

@[simp] theorem place_opened (before since : List Token) :
    (b.opened before since).place = b.place := by
  rw [opened]
  split <;> rfl

theorem value_scanner {before since : List Token} (hpossible : b.place.isPossible = true)
    (hnear : b.place.isNear m = true) (hqueue : b.queue = before ++ since)
    (hnumber : b.place.number = b.taken + before.length)
    (hdepth : b.outer.length < Scanner.deepest) :
    (b.scanner m false (':' :: rest)).value =
      some ((b.colon before since m.line).scanner (m.right 1) false rest) := by
  have hcheck : (b.scanner m false (':' :: rest)).checkKey
      (b.scanner m false (':' :: rest)).keyPlace = some (true, b.place) := by
    simp [Scanner.checkKey, Scanner.keyPlace, scanner, Scanner.mark, hpossible, hnear]
  have htake := take_value_scanner (b := b.opened before since) m false rest b.place
    (by simp [hpossible])
  rw [Scanner.value, hcheck]
  simp only [Option.bind_eq_bind, Option.bind_some, if_true,
    roll_insert_scanner hqueue hnumber hdepth]
  rw [place_opened] at htake
  exact congrArg some htake

/-- What stands behind the colon of a key: spaces and something else than a comment, or a
break. -/
structure AfterColon (text : List Char) : Prop where
  wordEnd : atWordEnd text = true
  noComment : ∃ n tail, text = List.replicate n ' ' ++ tail ∧
    tail.head?.all (fun c => !isBlank c && c ≠ '#') = true

theorem afterColon_newline (text : List Char) : AfterColon ('\n' :: text) :=
  ⟨rfl, 0, '\n' :: text, rfl, by simp [isBlank]⟩

/-- **A colon** makes a key of what stands on its line before it. -/
theorem fetch_colon {before since : List Token} {text : List Char} (htext : AfterColon text)
    (hindent : b.indent ≤ m.column) (hpossible : b.place.isPossible = true)
    (hnear : b.place.isNear m = true) (hqueue : b.queue = before ++ since)
    (hnumber : b.place.number = b.taken + before.length)
    (hdepth : b.outer.length < Scanner.deepest) :
    (b.scanner m false (':' :: text)).fetch =
      some ((b.colon before since m.line).scanner (m.right 1) false text) := by
  have hcomment : ((b.colon before since m.line).scanner (m.right 1) false text).passesComment =
      true := by
    simp [Scanner.passesComment, scanner, colon, push]
  have hinside : ((b.closed m.column m.line).scanner m false (':' :: text)).inside ':' text =
      some ((b.colon before since m.line).scanner (m.right 1) false text) := by
    rw [closed_of_le hindent, ← value_scanner hpossible hnear hqueue hnumber hdepth]
    simp [Scanner.inside, htext.wordEnd]
  obtain ⟨n, tail, rfl, htail⟩ := htext.noComment
  rw [Scanner.fetch_eq, size_scanner, toToken_self b.size (by simp [opensToken, isBlank, isBreak]),
    Option.bind_some, tokenHere_inside (by simp)
    (atDocumentIndicator_cons (by decide) (by decide) _) hinside, if_pos hcomment,
    passLineComment_scanner n tail htail]

/-! ### Scalars -/

/-- `Reaches tail n m allowed rest`: at the place `m` the scanner has read a scalar, and
perhaps the break after it; the next token starts at the place `n`. -/
inductive Reaches (tail : List Char) (n : Mark) : Mark → Bool → List Char → Prop where
  | there : Reaches tail n n true tail
  | before {m : Mark} (i : Nat) (h : m.down.right i = n) :
      Reaches tail n m false ('\n' :: (List.replicate i ' ' ++ tail))

theorem Reaches.toToken {tail : List Char} {n : Mark} (h : Reaches tail n m allowed rest)
    (htail : opensToken tail = true) (fuel : Nat) :
    (b.scanner m allowed rest).toToken (fuel + 2) = some (b.scanner n true tail) := by
  cases h with
  | there => exact toToken_self (fuel + 1) htail
  | before i h => rw [toToken_newline fuel i htail, h]

theorem inside_canBePlain {n : Nat} {c : Char} {cs tail : List Char} (h : PlainText c cs)
    (hindent : b.indent < m.column) (hcolumn : 0 < m.column) (hn : (n : Int) ≤ b.indent)
    (htail : opensToken tail = true) :
    (b.scanner m false (c :: (cs ++ '\n' :: (List.replicate n ' ' ++ tail)))).inside c
        (cs ++ '\n' :: (List.replicate n ' ' ++ tail)) =
      some ((b.push (.scalar (c :: cs) true) m.line).scanner
        ((m.right (c :: cs).length).down.right n) true tail) := by
  have hstarts := h.starts
  simp only [startsIndicator, Bool.or_eq_false_iff, decide_eq_false_iff_not] at hstarts
  have hword : c = '?' ∨ c = ':' ∨ c = '-' →
      atWordEnd (cs ++ '\n' :: (List.replicate n ' ' ++ tail)) = false := by
    intro hc
    have hbreak := h.lineBreak
    have hfollows : blankFollows cs = false := by simpa [hc, or_assoc] using hstarts.2
    cases cs with
    | nil => contradiction
    | cons d ds => simp_all [atWordEnd, blankFollows]
  have hread : (b.scanner m false (c :: (cs ++ '\n' :: (List.replicate n ' ' ++ tail)))).scalar true
      (plain false (b.indent + 1).toNat true m.cursor .none
        (c :: cs ++ '\n' :: (List.replicate n ' ' ++ tail))) =
        some ((b.push (.scalar (c :: cs) true) m.line).scanner
          ((m.right (c :: cs).length).down.right n) true tail) := by
    rw [plain_canBePlain h (by omega) hcolumn (by omega) htail]
    rfl
  rw [Scanner.inside_plain rfl h.first hstarts.1 hword, keyed_scanner_false]
  exact hread

theorem inside_single {indent : Nat} {cs text : List Char} (h : ∀ c ∈ cs, isBreak c = false) :
    (b.scanner m false
        ('\x27' :: (inSingleQuotes indent false cs ++ '\x27' :: '\n' :: text))).inside '\x27'
        (inSingleQuotes indent false cs ++ '\x27' :: '\n' :: text) =
      some ((b.push (.scalar cs false) m.line).scanner
        (m.right ((inSingleQuotes indent false cs).length + 2)) false ('\n' :: text)) := by
  have hread : singleQuoted true (m.right 1).cursor (.ofBlanks [])
      (inSingleQuotes indent false cs ++ '\x27' :: '\n' :: text) =
        some { value := cs, cursor := (m.right ((inSingleQuotes indent false cs).length + 2)).cursor
               rest := '\n' :: text } := by
    rw [singleQuoted_inSingleQuotes (Nat.succ_pos m.column) h (by decide), Mark.right_right,
      Nat.add_comm 1]
    rfl
  simp [Scanner.inside, keyed_scanner_false, hread]
  exact scalar_scanner false cs _ _ false

theorem inside_double {written : Char → List Char} {cs text : List Char}
    (h : ∀ c ∈ cs, written c = '\\' :: escapeOf c ∨
      written c = [c] ∧ isBreak c = false ∧ c ≠ '"' ∧ c ≠ '\\') :
    (b.scanner m false ('"' :: (cs.flatMap written ++ '"' :: text))).inside '"'
        (cs.flatMap written ++ '"' :: text) =
      some ((b.push (.scalar cs false) m.line).scanner
        (m.right ((cs.flatMap written).length + 2)) false text) := by
  have hread : doubleQuoted true (m.right 1).cursor (.ofBlanks []) .outside
      (cs.flatMap written ++ '"' :: text) =
        some { value := cs, cursor := (m.right ((cs.flatMap written).length + 2)).cursor
               rest := text } := by
    rw [doubleQuoted_flatMap (Nat.succ_pos m.column) h, Mark.right_right, Nat.add_comm 1]
    rfl
  simp [Scanner.inside, keyed_scanner_false, hread]
  exact scalar_scanner false cs _ _ false

theorem tokenHere_plain {n : Nat} {c : Char} {cs tail : List Char} (h : PlainText c cs)
    (hindent : b.indent < m.column) (hcolumn : 0 < m.column) (hn : (n : Int) ≤ b.indent)
    (htail : opensToken tail = true) :
    (b.scanner m false (c :: (cs ++ '\n' :: (List.replicate n ' ' ++ tail)))).tokenHere =
      some ((b.push (.scalar (c :: cs) true) m.line).scanner
        ((m.right (c :: cs).length).down.right n) true tail) := by
  have hinside := inside_canBePlain h hindent hcolumn hn htail
  rw [tokenHere_inside (fun _ => Nat.ne_of_gt hcolumn)
    (atDocumentIndicator_of_column_pos hcolumn _)
    (by rwa [closed_of_le (Int.le_of_lt hindent)]), passesComment_push_scalar]
  rfl

theorem tokenHere_quoted {c : Char} {cs value text : List Char} {n : Mark}
    (hc : c = '\x27' ∨ c = '"')
    (h : (b.scanner m false (c :: cs)).inside c cs =
      some ((b.push (.scalar value false) m.line).scanner n false ('\n' :: text)))
    (hindent : b.indent ≤ m.column) :
    (b.scanner m false (c :: cs)).tokenHere =
      some ((b.push (.scalar value false) m.line).scanner n false ('\n' :: text)) := by
  have hne : c ≠ '-' ∧ c ≠ '.' ∧ c ≠ '%' := by
    obtain rfl | rfl := hc <;> decide
  rw [tokenHere_inside (by simp [hne]) (atDocumentIndicator_cons hne.1 hne.2.1 _)
    (by rwa [closed_of_le hindent]), passesComment_push_scalar]
  exact passLineComment_scanner 0 ('\n' :: text) (by simp [isBlank])

theorem fetch_space {text : List Char} (htext : opensToken text = true) :
    (b.scanner m false (' ' :: text)).fetch = (b.scanner (m.right 1) false text).tokenHere := by
  rw [Scanner.fetch_eq, size_scanner]
  exact congrArg (Option.bind · Scanner.tokenHere) (toToken_spaces b.size 1 htext)

/-- A scalar on one line starts with a character that is no blank and starts no comment. -/
theorem opensToken_oneLine {written cs : List Char} {isPlain : Bool}
    (h : OneLine written cs isPlain) (text : List Char) : opensToken (written ++ text) = true := by
  cases h with
  | plain hne h =>
      obtain ⟨c, cs, rfl⟩ := List.exists_cons_of_ne_nil hne
      have hplain := plainText_of_canBePlain h
      have hstarts := hplain.starts
      simp only [startsIndicator, List.mem_cons, Bool.or_eq_false_iff, decide_eq_false_iff_not,
        not_or] at hstarts
      simp [opensToken, hplain.first, hplain.lineBreak c List.mem_cons_self, hstarts.1.1]
  | single h => rfl
  | double h => rfl

theorem afterColon_oneLine {written cs : List Char} {isPlain : Bool}
    (h : OneLine written cs isPlain) (text : List Char) : AfterColon (' ' :: (written ++ text)) := by
  have hopens := opensToken_oneLine h text
  refine ⟨rfl, 1, written ++ text, rfl, ?_⟩
  cases hcs : written ++ text with
  | nil => rfl
  | cons c cs => simp_all [opensToken]

/-- **A scalar on one line** is the next token, and the scanner reaches the next line. -/
theorem fetch_oneLine {written cs : List Char} {isPlain : Bool} {n : Nat} {tail : List Char}
    (h : OneLine written cs isPlain) (hindent : b.indent ≤ m.column) (hn : (n : Int) ≤ b.indent)
    (htail : opensToken tail = true) :
    ∃ k a r,
      (b.scanner m false (' ' :: (written ++ '\n' :: (List.replicate n ' ' ++ tail)))).fetch =
        some ((b.push (.scalar cs isPlain) m.line).scanner k a r) ∧
      Reaches tail ((m.right (written.length + 1)).down.right n) k a r := by
  have hright : b.indent < (m.right 1).column := by
    simp only [Mark.right]
    omega
  cases h with
  | plain hne h =>
      obtain ⟨c, cs, rfl⟩ := List.exists_cons_of_ne_nil hne
      refine ⟨_, true, tail, ?_, .there⟩
      rw [fetch_space (opensToken_oneLine (.plain hne h) _), List.cons_append,
        tokenHere_plain (plainText_of_canBePlain h) hright (Nat.succ_pos m.column) hn htail,
        Mark.right_right, Nat.add_comm 1]
      rfl
  | @single indent _ h =>
      have hlength : 1 + ((inSingleQuotes indent false cs).length + 2) =
          (singleQuotedText indent cs).length + 1 := by
        simp only [singleQuotedText, List.length_cons, List.length_append, List.length_nil]
        omega
      refine ⟨_, false, _, ?_, .before n rfl⟩
      rw [← hlength, singleQuotedText, List.append_assoc, List.cons_append, List.singleton_append,
        fetch_space rfl, tokenHere_quoted (.inl rfl) (inside_single h) (Int.le_of_lt hright),
        Mark.right_right]
      rfl
  | @double written _ h =>
      have hlength : 1 + ((cs.flatMap written).length + 2) =
          ('"' :: cs.flatMap written ++ ['"']).length + 1 := by
        simp only [List.length_cons, List.length_append, List.length_nil]
        omega
      refine ⟨_, false, _, ?_, .before n rfl⟩
      rw [← hlength, List.append_assoc, List.cons_append, List.singleton_append,
        fetch_space rfl, tokenHere_quoted (.inr rfl) (inside_double h) (Int.le_of_lt hright),
        Mark.right_right]
      rfl

/-! ### The end of a stream -/

/-- **The end of a stream** closes all collections. -/
theorem tokenHere_nil (hcolumn : m.column = 0) (hplace : b.place.isPossible = false) :
    (b.scanner m allowed []).tokenHere =
      some ((((b.closed 0 m.line).closed (-1) m.line).push .streamEnd m.line).scanner m false
        []) := by
  have hdrop : (((b.closed 0 m.line).closed (-1) m.line).scanner m allowed []).dropKey =
      some (((b.closed 0 m.line).closed (-1) m.line).scanner m allowed []) := by
    simp [Scanner.dropKey, Scanner.keyPlace, scanner, closed, hplace]
  simp [Scanner.tokenHere, hcolumn, Scanner.endLine, Scanner.outside, hdrop]
  rfl

/-! ## Taking tokens -/

/-- Whether the first token in the queue can be taken. -/
def Ready (b : BlockState) : Prop :=
  2 < b.queue.length ∧ (b.place.isPossible = true → b.place.number ≠ b.taken)

theorem ready_of_not_isPossible (hqueue : 2 < b.queue.length)
    (hplace : b.place.isPossible = false) : b.Ready :=
  ⟨hqueue, fun h => by rw [hplace] at h; contradiction⟩

theorem fill_ready (h : b.Ready) (fuel : Nat) :
    (b.scanner m allowed rest).fill (fuel + 1) = some (b.scanner m allowed rest) := by
  have hawaits : (b.scanner m allowed rest).awaitsKey = some (false, b.scanner m allowed rest) := by
    cases hplace : b.place.isPossible with
    | false => simp [Scanner.awaitsKey, scanner, keyLevels, hplace]
    | true =>
        have hne : b.taken ≠ b.place.number := fun heq => h.2 hplace heq.symm
        simp [Scanner.awaitsKey, scanner, keyLevels, hplace, beq_eq_false_iff_ne.mpr hne]
  have hlong : ¬(b.scanner m allowed rest).queue.length ≤ 2 := Nat.not_le.mpr h.1
  simp [Scanner.fill, hlong, hawaits]

theorem fill_fetch {s : Scanner} (h : b.queue.length ≤ 2)
    (hfetch : (b.scanner m allowed rest).fetch = some s) (fuel : Nat) :
    (b.scanner m allowed rest).fill (fuel + 1) = s.fill fuel := by
  have hshort : (b.scanner m allowed rest).queue.length ≤ 2 := h
  simp [Scanner.fill, hshort, hfetch]

/-- The state after the first token was taken, `queue` being the others. -/
def dropped (queue : List Token) (b : BlockState) : BlockState :=
  { b with queue, taken := b.taken + 1 }

theorem next_ready {t : Token} {queue : List Token} (h : b.Ready) (hqueue : b.queue = t :: queue) :
    (b.scanner m allowed rest).next = some (t, (b.dropped queue).scanner m allowed rest) := by
  have hscanner : (b.scanner m allowed rest).queue = t :: queue := hqueue
  simp [Scanner.next, fill_ready h, hscanner]
  rfl

/-- The first token is taken. -/
theorem emits_take {t : Token} {queue ts : List Token} (h : b.Ready) (hqueue : b.queue = t :: queue)
    (ht : t.kind ≠ .streamEnd) (hts : ((b.dropped queue).scanner m allowed rest).Emits ts) :
    (b.scanner m allowed rest).Emits (t :: ts) := by
  intro fuel hfuel
  cases fuel with
  | zero => contradiction
  | succ fuel =>
      simp [tokensFrom, next_ready h hqueue, ht, hts fuel (Nat.le_of_succ_le_succ hfuel)]

/-- The last token is taken. -/
theorem emits_streamEnd {line : Nat} {queue : List Token} (h : b.Ready)
    (hqueue : b.queue = TokenKind.streamEnd.onLine line :: queue) :
    (b.scanner m allowed rest).Emits [TokenKind.streamEnd.onLine line] := by
  intro fuel hfuel
  cases fuel with
  | zero => contradiction
  | succ fuel => simp [tokensFrom, next_ready h hqueue]

/-- Another token is read first. -/
theorem emits_fetch {c : BlockState} {n : Mark} {allowed' : Bool} {rest' : List Char}
    {ts : List Token} (h : b.queue.length ≤ 2)
    (hfetch : (b.scanner m allowed rest).fetch = some (c.scanner n allowed' rest'))
    (hready : c.Ready) (hts : (c.scanner n allowed' rest').Emits ts) : (b.scanner m allowed rest).Emits ts := by
  apply hts.of_fill
  rw [fill_fetch h hfetch, fill_ready hready, fill_ready hready]

end BlockState

end Sequitur.Yaml
