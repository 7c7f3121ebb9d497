import Sequitur.Proofs.Yaml.Scan

/-!
# Sequitur.Proofs.Yaml.Outline

The tokens of an outline: a mapping of mappings whose values are scalars, each on
a line of its own.

The scanner is two tokens ahead of what is taken from it, and the value of an
entry may end on its own line or, if it is plain, at the first token of the next
one.  `Continues` says what the text after a value has to do, however that value
ended.  It holds for the end of the stream (`continues_nil`), and is handed on
from the text behind an entry to the entry (`continues_entry`), and from the text
behind the first entry of a part to the part (`continues_part`).  So the tokens of
an outline come out by induction from its end (`continues_parts`,
`tokens_outline`).
-/

namespace Sequitur.Yaml

/-- An entry of a mapping: its key, and a scalar that is written on the same line. -/
structure Entry where
  key : List Char
  written : List Char
  value : List Char
  isPlain : Bool
  isWord : IsWord key
  oneLine : OneLine written value isPlain
  isWritable : ∀ c ∈ written, isWritable c = true

/-- A part of an outline: a name, and the entries of the mapping under it. -/
structure Part where
  name : List Char
  first : Entry
  more : List Entry
  isWord : IsWord name

/-! ## Text and tokens -/

namespace Entry

/-- The line of an entry without its indentation, in front of a text. -/
def line (e : Entry) (text : List Char) : List Char :=
  e.key ++ ':' :: ' ' :: (e.written ++ '\n' :: text)

/-- The lines of entries in front of a text. -/
def lines (width : Nat) : List Entry → List Char → List Char
  | [], text => text
  | e :: es, text => List.replicate width ' ' ++ e.line (lines width es text)

/-- The tokens of an entry. -/
def tokens (line : Nat) (e : Entry) : List Token :=
  [TokenKind.key.onLine line, (TokenKind.scalar e.key true).onLine line,
    TokenKind.value.onLine line, (TokenKind.scalar e.value e.isPlain).onLine line]

/-- The tokens of entries, the first of which is on the given line. -/
def allTokens (line : Nat) : List Entry → List Token
  | [] => []
  | e :: es => e.tokens line ++ allTokens (line + 1) es

end Entry

namespace Part

/-- The entries of a part. -/
def entries (p : Part) : List Entry := p.first :: p.more

/-- The number of lines of a part. -/
def height (p : Part) : Nat := p.entries.length + 1

/-- The lines of a part in front of a text. -/
def lines (width : Nat) (p : Part) (text : List Char) : List Char :=
  p.name ++ ':' :: '\n' :: Entry.lines width p.entries text

/-- The tokens of a part whose name is on the given line. -/
def tokens (line : Nat) (p : Part) : List Token :=
  [TokenKind.key.onLine line, (TokenKind.scalar p.name true).onLine line,
    TokenKind.value.onLine line, TokenKind.blockMappingStart.onLine (line + 1)] ++
    Entry.allTokens (line + 1) p.entries ++ [TokenKind.blockEnd.onLine (line + p.height)]

/-- The text of parts. -/
def text (width : Nat) : List Part → List Char
  | [] => []
  | p :: ps => p.lines width (text width ps)

/-- The tokens of parts up to the end of the stream, from a line on. -/
def allTokens (line : Nat) : List Part → List Token
  | [] => [TokenKind.blockEnd.onLine line, TokenKind.streamEnd.onLine line]
  | p :: ps => p.tokens line ++ allTokens (line + p.height) ps

end Part

/-! ## Scanning -/

namespace BlockState

/-- The state in the mapping of all parts. -/
def inOutline (size taken : Nat) (queue : List Token) (place : KeyPlace) : BlockState :=
  { size, queue, taken, indent := 0, outer := [-1], place }

/-- The state in the mapping of a part. -/
def inPart (width size taken : Nat) (queue : List Token) (place : KeyPlace) : BlockState :=
  { size, queue, taken, indent := width, outer := [0, -1], place }

variable {width size : Nat}

/-- `Continues width text line ts`: a scanner that has read the value of an entry, and has only
taken the tokens before the colon of that entry, goes on to read `text` from a line on, and the
tokens that come after the value are `ts`. -/
def Continues (width : Nat) (text : List Char) (line : Nat) (ts : List Token) : Prop :=
  ∃ n tail, text = List.replicate n ' ' ++ tail ∧ n ≤ width ∧ opensToken tail = true ∧
    ∀ (t u : Token) (taken : Nat) {size : Nat} {place : KeyPlace} {m k : Mark} {allowed : Bool}
      {rest : List Char}, t.kind ≠ .streamEnd → u.kind ≠ .streamEnd → 0 < size →
      place.isPossible = false → k.line = line → k.column = n → Reaches tail k m allowed rest →
      ((inPart width size taken [t, u] place).scanner m allowed rest).Emits (t :: u :: ts)

theorem opensToken_word {w : List Char} (hw : IsWord w) (text : List Char) :
    opensToken (w ++ text) = true := by
  obtain ⟨c, cs, rfl⟩ := List.exists_cons_of_ne_nil hw.ne_nil
  have hc : c.isAlpha = true := hw.letters c List.mem_cons_self
  simp [opensToken, isBlank_of_isAlpha hc, isBreak_of_isAlpha hc, ne_of_isAlpha (d := '#') hc]

/-- A key that the scanner reaches is the next token. -/
theorem fetch_word {b : BlockState} {w text rest : List Char} {m k : Mark} {allowed : Bool}
    (hreaches : Reaches (w ++ ':' :: text) k m allowed rest) (hw : IsWord w)
    (htext : atWordEnd text = true) (hsize : 0 < b.size) (hplace : b.place.isPossible = false) :
    (b.scanner m allowed rest).fetch =
      some ((((b.closed k.column k.line).keyAt k).push (.scalar w true) k.line).scanner
        (k.right w.length) false (':' :: text)) := by
  obtain ⟨fuel, hfuel⟩ := Nat.exists_eq_succ_of_ne_zero (Nat.ne_of_gt hsize)
  rw [Scanner.fetch_eq, size_scanner, hfuel, hreaches.toToken (opensToken_word hw _) fuel,
    Option.bind_some, tokenHere_word hw htext hplace]

/-- A scanner is at a colon, and in its queue there are the key and one token before it. -/
structure AtColon (b : BlockState) (m : Mark) (t key : Token) : Prop where
  queue : b.queue = [t, key]
  isPossible : b.place.isPossible = true
  isNear : b.place.isNear m = true
  number : b.place.number = b.taken + 1
  indent : b.indent ≤ m.column
  depth : b.outer.length ≤ 2

section Colon

variable {b : BlockState} {m : Mark} {t key : Token} {text : List Char} {ts : List Token}

theorem atColon_of_word {w : List Char} (hw : IsWord w) (hqueue : b.queue = [t, key])
    (hpossible : b.place.isPossible = true) (hnumber : b.place.number = b.taken + 1)
    (hindent : b.indent ≤ b.place.mark.column) (hdepth : b.outer.length ≤ 2) :
    AtColon b (b.place.mark.right w.length) t key :=
  { queue := hqueue, isPossible := hpossible, number := hnumber, depth := hdepth
    isNear := by simp [KeyPlace.isNear, Mark.right, hw.short]
    indent := by
      simp only [Mark.right]
      omega }

theorem AtColon.fetch (h : AtColon b m t key) (htext : AfterColon text) :
    (b.scanner m false (':' :: text)).fetch =
      some ((b.colon [t] [key] m.line).scanner (m.right 1) false text) := by
  have hqueue : b.queue = [t] ++ [key] := h.queue
  exact fetch_colon htext h.indent h.isPossible h.isNear hqueue h.number
    (Nat.lt_of_le_of_lt h.depth (by decide))

theorem AtColon.ready (b : BlockState) (m : Mark) (t key : Token) :
    (b.colon [t] [key] m.line).Ready := by
  apply ready_of_not_isPossible _ rfl
  unfold colon opened
  split <;> simp [push]

theorem AtColon.emits (h : AtColon b m t key) (htext : AfterColon text)
    (hts : ((b.colon [t] [key] m.line).scanner (m.right 1) false text).Emits ts) :
    (b.scanner m false (':' :: text)).Emits ts :=
  emits_fetch (by simp [h.queue]) (h.fetch htext) (AtColon.ready b m t key) hts

/-- The colon of a key in a mapping that is open. -/
theorem emits_colon (h : AtColon b m t key) (htext : AfterColon text)
    (hindent : b.place.mark.column = b.indent) (ht : t.kind ≠ .streamEnd)
    (hts : ({ b with
        queue := [key, TokenKind.value.onLine m.line], taken := b.taken + 2
        place := { b.place with isPossible := false } }.scanner (m.right 1) false text).Emits ts) :
    (b.scanner m false (':' :: text)).Emits
      (t :: TokenKind.key.onLine b.place.mark.line :: ts) := by
  have hopened : b.opened [t] [key] =
      { b with queue := [t, TokenKind.key.onLine b.place.mark.line, key] } := by
    rw [opened, if_neg (by omega)]
    rfl
  apply h.emits htext
  rw [colon, hopened]
  exact emits_take (ready_of_not_isPossible (by simp [push]) rfl) rfl ht
    (emits_take (ready_of_not_isPossible (by simp [dropped]) rfl) rfl (by simp) hts)

/-- The colon of the first key of a mapping. -/
theorem emits_colon_opening (h : AtColon b m t key) (htext : AfterColon text)
    (hindent : b.indent < b.place.mark.column) (ht : t.kind ≠ .streamEnd)
    (hts : (({ size := b.size, queue := [key, TokenKind.value.onLine m.line], taken := b.taken + 3
               indent := b.place.mark.column, outer := b.indent :: b.outer
               place := { b.place with isPossible := false } } : BlockState).scanner (m.right 1)
          false text).Emits ts) :
    (b.scanner m false (':' :: text)).Emits
      (t :: TokenKind.blockMappingStart.onLine b.place.mark.line ::
        TokenKind.key.onLine b.place.mark.line :: ts) := by
  have hopened : b.opened [t] [key] =
      { b with
        queue := [t, TokenKind.blockMappingStart.onLine b.place.mark.line,
          TokenKind.key.onLine b.place.mark.line, key]
        indent := b.place.mark.column, outer := b.indent :: b.outer } := by
    rw [opened, if_pos hindent]
    rfl
  apply h.emits htext
  rw [colon, hopened]
  exact emits_take (ready_of_not_isPossible (by simp [push]) rfl) rfl ht
    (emits_take (ready_of_not_isPossible (by simp [dropped]) rfl) rfl (by simp)
      (emits_take (ready_of_not_isPossible (by simp [dropped]) rfl) rfl (by simp) hts))

end Colon

/-- **The value of an entry.**  The tokens of its key and its colon have not been taken. -/
theorem emits_value {taken : Nat} {place : KeyPlace} {m : Mark} {t u : Token} (e : Entry)
    {text : List Char} {ts : List Token} (ht : t.kind ≠ .streamEnd) (hu : u.kind ≠ .streamEnd)
    (hsize : 0 < size) (hplace : place.isPossible = false) (hcolumn : width ≤ m.column)
    (htext : Continues width text (m.line + 1) ts) :
    ((inPart width size taken [t, u] place).scanner m false
        (' ' :: (e.written ++ '\n' :: text))).Emits
      (t :: u :: (TokenKind.scalar e.value e.isPlain).onLine m.line :: ts) := by
  obtain ⟨n, tail, rfl, hn, htail, hcontinues⟩ := htext
  obtain ⟨k, a, r, hfetch, hreaches⟩ := fetch_oneLine
    (b := inPart width size taken [t, u] place) (m := m) e.oneLine (by simpa [inPart] using hcolumn)
    (by simpa [inPart] using hn) htail
  have hready : ((inPart width size taken [t, u] place).push (.scalar e.value e.isPlain)
      m.line).Ready := ready_of_not_isPossible (by simp [push, inPart]) hplace
  have hrest := hcontinues u ((TokenKind.scalar e.value e.isPlain).onLine m.line) (taken + 1) hu
    (by simp) hsize hplace rfl (Nat.zero_add n) hreaches
  exact emits_fetch (by simp [inPart]) hfetch hready (emits_take hready rfl ht hrest)

/-- The state after a key was read. -/
def pending (k : Mark) (w : List Char) (b : BlockState) : BlockState :=
  (b.keyAt k).push (.scalar w true) k.line

theorem ready_pending {b : BlockState} {k : Mark} {w : List Char} (h : 2 ≤ b.queue.length) :
    (b.pending k w).Ready := by
  refine ⟨?_, fun _ => ?_⟩
  · simp only [pending, keyAt, push, List.length_append, List.length_singleton]
    omega
  · simp only [pending, keyAt, push]
    omega

/-- **An entry after another one.** -/
theorem continues_entry (e : Entry) {text : List Char} {line : Nat} {ts : List Token}
    (htext : Continues width text (line + 1) ts) :
    Continues width (List.replicate width ' ' ++ e.line text) line (e.tokens line ++ ts) := by
  refine ⟨width, e.line text, rfl, Nat.le_refl width, opensToken_word e.isWord _, ?_⟩
  intro t u taken size place m k allowed rest ht hu hsize hplace hline hcolumn hreaches
  subst hline hcolumn
  have hclosed : (inPart k.column size taken [t, u] place).closed k.column k.line =
      inPart k.column size taken [t, u] place := closed_of_le (Int.le_refl _) _
  have hword := fetch_word (b := inPart k.column size taken [t, u] place) hreaches e.isWord rfl
    hsize hplace
  rw [hclosed] at hword
  apply emits_fetch (by simp [inPart]) hword (ready_pending (by simp [inPart]))
  apply emits_take (ready_pending (by simp [inPart])) rfl ht
  apply emits_colon (atColon_of_word e.isWord rfl rfl rfl (Int.le_refl _) (by exact Nat.le_refl 2))
    (afterColon_oneLine e.oneLine _) rfl hu
  exact emits_value e (by simp) (by simp) hsize rfl
    (Nat.le_add_right_of_le (Nat.le_add_right k.column e.key.length)) htext

/-- **The first entry of a part**, the tokens of the name and its colon being `t` and `u`. -/
theorem emits_first (e : Entry) {taken : Nat} {place : KeyPlace} {m : Mark} {t u : Token}
    {text : List Char} {ts : List Token} (hwidth : 0 < width) (ht : t.kind ≠ .streamEnd)
    (hu : u.kind ≠ .streamEnd) (hsize : 0 < size) (hplace : place.isPossible = false)
    (htext : Continues width text (m.line + 2) ts) :
    ((inOutline size taken [t, u] place).scanner m false
        ('\n' :: (List.replicate width ' ' ++ e.line text))).Emits
      (t :: u :: TokenKind.blockMappingStart.onLine (m.line + 1) ::
        (e.tokens (m.line + 1) ++ ts)) := by
  obtain ⟨k, hcolumn, hline, hreaches⟩ : ∃ k : Mark, k.column = width ∧ k.line = m.line + 1 ∧
      Reaches (e.line text) k m false ('\n' :: (List.replicate width ' ' ++ e.line text)) :=
    ⟨m.down.right width, Nat.zero_add width, rfl, .before width rfl⟩
  have hnext : m.line + 2 = k.line + 1 := by omega
  rw [hnext] at htext
  rw [← hline]
  subst hcolumn
  have hclosed : (inOutline size taken [t, u] place).closed k.column k.line =
      inOutline size taken [t, u] place := closed_of_le (Int.natCast_nonneg _) _
  have hword := fetch_word (b := inOutline size taken [t, u] place) hreaches e.isWord rfl hsize
    hplace
  rw [hclosed] at hword
  apply emits_fetch (by simp [inOutline]) hword (ready_pending (by simp [inOutline]))
  apply emits_take (ready_pending (by simp [inOutline])) rfl ht
  apply emits_colon_opening (atColon_of_word e.isWord rfl rfl rfl (Int.natCast_nonneg _)
    (by exact Nat.le_succ 1)) (afterColon_oneLine e.oneLine _) (Int.natCast_pos.mpr hwidth) hu
  exact emits_value e (by simp) (by simp) hsize rfl
    (Nat.le_add_right_of_le (Nat.le_add_right k.column e.key.length)) htext

theorem closed_inPart (hwidth : 0 < width) (taken : Nat) (queue : List Token) (place : KeyPlace)
    (line : Nat) :
    (inPart width size taken queue place).closed 0 line =
      inOutline size taken (queue ++ [TokenKind.blockEnd.onLine line]) place := by
  simp [closed, inPart, Scanner.unrolled, inOutline, hwidth]

/-- **A part after another one.** -/
theorem continues_part (hwidth : 0 < width) (w : List Char) (hw : IsWord w) (e : Entry)
    {text : List Char} {line : Nat} {ts : List Token} (htext : Continues width text (line + 2) ts) :
    Continues width (w ++ ':' :: '\n' :: (List.replicate width ' ' ++ e.line text)) line
      ([TokenKind.blockEnd.onLine line, TokenKind.key.onLine line,
        (TokenKind.scalar w true).onLine line, TokenKind.value.onLine line,
        TokenKind.blockMappingStart.onLine (line + 1)] ++ e.tokens (line + 1) ++ ts) := by
  refine ⟨0, _, rfl, Nat.zero_le width, opensToken_word hw _, ?_⟩
  intro t u taken size place m k allowed rest ht hu hsize hplace hline hcolumn hreaches
  subst hline
  have hword := fetch_word (b := inPart width size taken [t, u] place) hreaches hw rfl hsize hplace
  rw [hcolumn, Int.natCast_zero, closed_inPart hwidth] at hword
  apply emits_fetch (by simp [inPart]) hword (ready_pending (by simp [inOutline]))
  apply emits_take (ready_pending (by simp [inOutline])) rfl ht
  apply emits_take ⟨by simp [dropped], by simp [dropped, pending, keyAt, push, inOutline]⟩ rfl hu
  apply emits_colon (atColon_of_word hw rfl rfl rfl (Int.natCast_nonneg _) (by exact Nat.le_succ 1))
    (afterColon_newline _) (by simpa [dropped, pending, keyAt, push, inOutline] using hcolumn)
    (by simp)
  exact emits_first e hwidth (by simp) (by simp) hsize rfl htext

/-- The state outside of all mappings. -/
def outermost (size taken : Nat) (queue : List Token) (place : KeyPlace) : BlockState :=
  { size, queue, taken, indent := -1, outer := [], place }

theorem closed_inOutline (taken : Nat) (queue : List Token) (place : KeyPlace) (line : Nat) :
    (inOutline size taken queue place).closed (-1) line =
      outermost size taken (queue ++ [TokenKind.blockEnd.onLine line]) place := by
  simp [closed, inOutline, Scanner.unrolled, outermost]

theorem fetch_outermost {taken : Nat} {queue : List Token} {place : KeyPlace} {m : Mark}
    {allowed : Bool} (hcolumn : m.column = 0) (hplace : place.isPossible = false) :
    ((outermost size taken queue place).scanner m allowed []).fetch =
      some ((outermost size taken (queue ++ [TokenKind.streamEnd.onLine m.line]) place).scanner m
        false []) := by
  have hclosed (column : Int) (h : -1 ≤ column) :
      (outermost size taken queue place).closed column m.line =
        outermost size taken queue place := closed_of_le h m.line
  rw [Scanner.fetch_eq, size_scanner, toToken_self _ rfl, Option.bind_some,
    tokenHere_nil hcolumn hplace, hclosed 0 (by decide), hclosed (-1) (Int.le_refl _)]
  rfl

theorem fetch_end {taken : Nat} {queue : List Token} {place : KeyPlace} {m k : Mark}
    {allowed : Bool} {rest : List Char} (hwidth : 0 < width) (hsize : 0 < size) (hcolumn : k.column = 0)
    (hplace : place.isPossible = false) (hreaches : Reaches [] k m allowed rest) :
    ((inPart width size taken queue place).scanner m allowed rest).fetch =
      some ((outermost size taken (queue ++ [TokenKind.blockEnd.onLine k.line,
        TokenKind.blockEnd.onLine k.line, TokenKind.streamEnd.onLine k.line]) place).scanner k false
          []) := by
  obtain ⟨fuel, rfl⟩ := Nat.exists_eq_succ_of_ne_zero (Nat.ne_of_gt hsize)
  have htoToken := hreaches.toToken (b := inPart width (fuel + 1) taken queue place) rfl fuel
  rw [Scanner.fetch_eq]
  show (Scanner.toToken (fuel + 2) _).bind _ = _
  rw [htoToken, Option.bind_some, tokenHere_nil hcolumn hplace, closed_inPart hwidth,
    closed_inOutline]
  simp [push, outermost]

/-- **The end after the last entry.** -/
theorem continues_nil (hwidth : 0 < width) (line : Nat) :
    Continues width [] line
      [TokenKind.blockEnd.onLine line, TokenKind.blockEnd.onLine line,
        TokenKind.streamEnd.onLine line] := by
  refine ⟨0, [], rfl, Nat.zero_le width, rfl, ?_⟩
  intro t u taken size place m k allowed rest ht hu hsize hplace hline hcolumn hreaches
  subst hline
  have hready {taken : Nat} {queue : List Token} (h : 2 < queue.length) :
      (outermost size taken queue place).Ready := ready_of_not_isPossible h hplace
  apply emits_fetch (by simp [inPart]) (fetch_end hwidth hsize hcolumn hplace hreaches)
    (hready (by simp))
  apply emits_take (hready (by simp)) rfl ht
  apply emits_take (hready (by simp)) rfl hu
  apply emits_take (hready (by simp)) rfl (by simp)
  apply emits_fetch (by simp [outermost]) (fetch_outermost hcolumn hplace) (hready (by simp))
  apply emits_take (hready (by simp)) rfl (by simp)
  apply emits_fetch (by simp [outermost]) (fetch_outermost hcolumn hplace) (hready (by simp))
  exact emits_streamEnd (hready (by simp)) rfl

theorem continues_entries (es : List Entry) {text : List Char} {line : Nat} {ts : List Token}
    (htext : Continues width text (line + es.length) ts) :
    Continues width (Entry.lines width es text) line (Entry.allTokens line es ++ ts) := by
  induction es generalizing line with
  | nil => exact htext
  | cons e es ih =>
      rw [Entry.allTokens, List.append_assoc]
      exact continues_entry e (ih (by rwa [Nat.add_assoc, Nat.add_comm 1]))

theorem height_eq (p : Part) (line : Nat) : line + 2 + p.more.length = line + p.height := by
  simp only [Part.height, Part.entries, List.length_cons]
  omega

theorem continues_parts (hwidth : 0 < width) (ps : List Part) (line : Nat) :
    Continues width (Part.text width ps) line
      (TokenKind.blockEnd.onLine line :: Part.allTokens line ps) := by
  induction ps generalizing line with
  | nil => exact continues_nil hwidth line
  | cons p ps ih =>
      have hmore := ih (line + 2 + p.more.length)
      have hpart := continues_part hwidth p.name p.isWord p.first (continues_entries p.more hmore)
      simpa [height_eq, Part.text, Part.lines, Part.entries, Entry.lines, Part.allTokens,
        Part.tokens, Entry.allTokens, Nat.add_assoc] using hpart

/-- **The start of a document.** -/
theorem emits_start (hwidth : 0 < width) (p : Part) (ps : List Part) (hsize : 0 < size) :
    ((outermost size 0 [TokenKind.streamStart.onLine 0] {}).scanner {} true
        (Part.text width (p :: ps))).Emits
      (TokenKind.streamStart.onLine 0 :: TokenKind.blockMappingStart.onLine 0 ::
        Part.allTokens 0 (p :: ps)) := by
  let start := outermost size 0 [TokenKind.streamStart.onLine 0] {}
  have hindent : start.indent < (0 : Nat) := Int.negSucc_lt_zero 0
  have hclosed : start.closed (0 : Nat) 0 = start := closed_of_le (Int.le_of_lt hindent) 0
  have hword : (start.scanner {} true (Part.text width (p :: ps))).fetch =
      some ((start.pending {} p.name).scanner (Mark.right p.name.length {}) false
        (':' :: '\n' :: Entry.lines width p.entries (Part.text width ps))) := by
    rw [← hclosed]
    exact fetch_word .there p.isWord rfl hsize rfl
  have hcolon : AtColon (start.pending {} p.name) (Mark.right p.name.length {})
      (TokenKind.streamStart.onLine 0) ((TokenKind.scalar p.name true).onLine 0) :=
    atColon_of_word p.isWord rfl rfl rfl (Int.le_of_lt hindent) (Nat.zero_le 2)
  have hmore := continues_entries p.more (continues_parts hwidth ps (0 + 2 + p.more.length))
  have hemits := emits_colon_opening hcolon (afterColon_newline _) hindent (by simp)
    (emits_first p.first hwidth (by simp) (by simp) hsize rfl hmore)
  have htokens : Part.allTokens 0 (p :: ps) =
      TokenKind.key.onLine 0 :: (TokenKind.scalar p.name true).onLine 0 ::
        TokenKind.value.onLine 0 :: TokenKind.blockMappingStart.onLine (0 + 1) ::
          (p.first.tokens (0 + 1) ++ (Entry.allTokens (0 + 2) p.more ++
            TokenKind.blockEnd.onLine (0 + 2 + p.more.length) ::
              Part.allTokens (0 + 2 + p.more.length) ps)) := by
    simp [height_eq, Part.allTokens, Part.tokens, Part.entries, Entry.allTokens]
  rw [htokens]
  -- two tokens are read before the first one can be taken
  have hfill (n : Nat) : ((start.pending {} p.name).scanner (Mark.right p.name.length {}) false
      (':' :: '\n' :: Entry.lines width p.entries (Part.text width ps))).fill (n + 2) = _ :=
    (fill_fetch (Nat.le_of_eq (congrArg List.length hcolon.queue))
      (hcolon.fetch (afterColon_newline _)) (n + 1)).trans (fill_ready (AtColon.ready _ _ _ _) n)
  apply Scanner.Emits.of_fill hemits
  rw [fill_fetch (by simp [start, outermost]) hword]
  exact (hfill _).trans (hfill _).symm

end BlockState

/-! ## Documents -/

theorem Entry.length_allTokens (line : Nat) (es : List Entry) :
    (Entry.allTokens line es).length = 4 * es.length := by
  induction es generalizing line with
  | nil => rfl
  | cons e es ih =>
      simp only [Entry.allTokens, Entry.tokens, List.length_append, List.length_cons,
        List.length_nil, ih]
      omega

theorem Entry.le_length_lines (width : Nat) (es : List Entry) (text : List Char) :
    es.length + text.length ≤ (Entry.lines width es text).length := by
  induction es with
  | nil => simp [Entry.lines]
  | cons e es ih =>
      simp only [Entry.lines, Entry.line, List.length_append, List.length_cons]
      omega

/-- There are enough characters for the tokens. -/
theorem Part.length_allTokens_le (width line : Nat) (ps : List Part) :
    (Part.allTokens line ps).length ≤ 4 * (Part.text width ps).length + 2 := by
  induction ps generalizing line with
  | nil => exact Nat.le_refl 2
  | cons p ps ih =>
      have hlines := Entry.le_length_lines width p.entries (Part.text width ps)
      have hmore := ih (line + p.height)
      simp only [Part.allTokens, Part.tokens, Part.text, Part.lines, Entry.length_allTokens,
        List.length_append, List.length_cons, List.length_nil]
      omega

/-- **An outline is read as its tokens.** -/
theorem tokens_outline {width : Nat} (hwidth : 0 < width) (p : Part) (ps : List Part) :
    tokens ⟨Part.text width (p :: ps), .ample⟩ =
      TokenKind.streamStart.onLine 0 :: TokenKind.blockMappingStart.onLine 0 ::
        Part.allTokens 0 (p :: ps) := by
  have hsize : 0 < (Part.text width (p :: ps)).length := by
    simp only [Part.text, Part.lines, List.length_append, List.length_cons]
    omega
  have hlength := Part.length_allTokens_le width 0 (p :: ps)
  exact BlockState.emits_start hwidth p ps hsize _ (by simpa using hlength)

end Sequitur.Yaml
