import Sequitur.Proofs.Picture.Placement
import Sequitur.Proofs.Text.Lines
import Sequitur.Session.SequentFile

/-!
# Sequitur.Proofs.Session.SequentFile

A file of sequents is read as it was written, and if it cannot be read the right
line is blamed.

What a file says is what its lines say, one after the other and each without the
blanks around it (`load_intercalate`).  A line that is blank or a comment is passed
over, a sequent is taken, and the first line that is neither of these ends the
reading with its number (`loadFrom_eq_error_iff`).  Lines as they are written down,
with blanks around them and comments in between, are described by `WrittenLine`;
no such line is faulty, and each is read as what it was written for
(`WrittenLine.trim_text`).
-/

namespace Sequitur

namespace SequentFile

/-! ## What a line can be -/

/-- Whether the first glyph of a line that is no blank is a number sign. -/
def IsComment (t : Text) : Prop := t.trimLeft.head? = some (.char '#')

/-- Whether a line is neither blank, nor a comment, nor a sequent with blanks around
it. -/
def IsFaulty (t : Text) : Prop :=
  t.isBlank = false ∧ ¬ IsComment t ∧ ∀ s, Sequent.parse t.trim ≠ .ok s

variable {t : Text} {n : Nat}

theorem isIgnored_iff : isIgnored t = true ↔ t = [] ∨ t.head? = some (.char '#') := by
  rw [isIgnored.eq_def]
  split
  · simp
  · simp
  · next hempty hsign =>
      cases t with
      | nil => exact absurd rfl hempty
      | cons g t =>
          simp only [Bool.false_eq_true, List.cons_ne_nil, false_or, List.head?_cons, false_iff]
          intro hg
          exact hsign t (by rw [Option.some.inj hg])

theorem isIgnored_trim_iff : isIgnored t.trim = true ↔ t.isBlank = true ∨ IsComment t := by
  rw [isIgnored_iff, Text.trim_eq_nil_iff, Text.head?_trim, IsComment]

theorem isFaulty_iff :
    IsFaulty t ↔ isIgnored t.trim = false ∧ ∃ cause, Sequent.parse t.trim = .error cause := by
  rw [IsFaulty, ← Bool.not_eq_true (isIgnored _), isIgnored_trim_iff, not_or, Bool.not_eq_true,
    and_assoc]
  cases Sequent.parse t.trim <;> simp

/-! ## One line after the other -/

theorem loadFrom_ignored (h : isIgnored t.trim = true) (ts : List Text) :
    loadFrom n (t :: ts) = loadFrom (n + 1) ts := by
  rw [loadFrom, if_pos h]

theorem loadFrom_error (h : isIgnored t.trim = false) {cause : SequentError}
    (hcause : Sequent.parse t.trim = .error cause) (ts : List Text) :
    loadFrom n (t :: ts) = .error (.line n cause) := by
  rw [loadFrom, if_neg (by simp [h]), hcause]

theorem loadFrom_sequent (h : isIgnored t.trim = false) {s : Sequent}
    (hs : Sequent.parse t.trim = .ok s) (ts : List Text) :
    loadFrom n (t :: ts) = (loadFrom (n + 1) ts).map (s :: ·) := by
  rw [loadFrom, if_neg (by simp [h]), hs]
  cases loadFrom (n + 1) ts <;> rfl

/-- Only what is left of a line without the blanks around it counts. -/
theorem loadFrom_congr {t u : Text} {ts us : List Text} (htrim : t.trim = u.trim)
    (hrest : loadFrom (n + 1) ts = loadFrom (n + 1) us) :
    loadFrom n (t :: ts) = loadFrom n (u :: us) := by
  simp only [loadFrom, htrim, hrest]

theorem loadFrom_read {ls : List Text}
    (h : ∀ l ∈ ls, Glyph.char '\n' ∉ l ∧ l.size < Lines.limit) (n : Nat) :
    (Lines.read ([.char '\n'].intercalate ls)).overlong = false ∧
      loadFrom n (Lines.read ([.char '\n'].intercalate ls)).lines = loadFrom n ls := by
  induction ls generalizing n with
  | nil => exact ⟨rfl, rfl⟩
  | cons l ls ih =>
      obtain ⟨⟨hline, hshort⟩, hrest⟩ := List.forall_mem_cons.mp h
      cases ls with
      | nil =>
          rw [List.intercalate_singleton, Lines.read_of_short hline hshort]
          refine ⟨rfl, ?_⟩
          -- an empty line at the end is not read, and would be passed over
          cases l with
          | nil => exact (loadFrom_ignored rfl []).symm
          | cons g l => exact loadFrom_congr (Lines.trim_dropReturn (g :: l)) rfl
      | cons l' ls =>
          obtain ⟨hoverlong, hlines⟩ := ih hrest (n + 1)
          rw [List.intercalate_cons_cons, List.append_assoc, List.singleton_append,
            Lines.read_append_newline hline hshort]
          exact ⟨hoverlong, loadFrom_congr (Lines.trim_dropReturn l) hlines⟩

/-- **A file says what its lines say.** -/
theorem load_intercalate {ls : List (List UInt8)}
    (h : ∀ l ∈ ls, 0x0A ∉ l ∧ l.length < Lines.limit) :
    load (Text.ofBytes ([0x0A].intercalate ls)) = loadFrom 1 (ls.map Text.ofBytes) := by
  have hlines : ∀ t ∈ ls.map Text.ofBytes, Glyph.char '\n' ∉ t ∧ t.size < Lines.limit := by
    rw [List.forall_mem_map]
    intro l hl
    obtain ⟨hline, hshort⟩ := h l hl
    exact ⟨Text.newline_mem_ofBytes_iff.not.mpr hline, by rwa [Text.size_ofBytes]⟩
  obtain ⟨hoverlong, hread⟩ := loadFrom_read hlines 1
  rw [Text.ofBytes_intercalate, load]
  simp only [hoverlong, hread]
  cases loadFrom 1 (ls.map Text.ofBytes) <;> rfl

/-! ## The first faulty line -/

/-- The line at position `k` is faulty for this cause, and those before it are not. -/
structure FirstFault (ts : List Text) (k : Nat) (cause : SequentError) : Prop where
  before : ∀ t ∈ ts.take k, ¬ IsFaulty t
  line : ∃ t, ts[k]? = some t ∧ IsFaulty t ∧ Sequent.parse t.trim = .error cause

theorem firstFault_zero {ts : List Text} {cause : SequentError} :
    FirstFault (t :: ts) 0 cause ↔ IsFaulty t ∧ Sequent.parse t.trim = .error cause := by
  constructor
  · rintro ⟨-, u, hu, hline⟩
    obtain rfl : t = u := Option.some.inj hu
    exact hline
  · intro hline
    exact ⟨by simp, t, rfl, hline⟩

theorem firstFault_succ {ts : List Text} {k : Nat} {cause : SequentError} :
    FirstFault (t :: ts) (k + 1) cause ↔ ¬ IsFaulty t ∧ FirstFault ts k cause := by
  constructor
  · rintro ⟨hbefore, hline⟩
    rw [List.take_succ_cons, List.forall_mem_cons] at hbefore
    exact ⟨hbefore.1, hbefore.2, hline⟩
  · rintro ⟨ht, hbefore, hline⟩
    refine ⟨?_, hline⟩
    rw [List.take_succ_cons, List.forall_mem_cons]
    exact ⟨ht, hbefore⟩

/-- A line is faulty, or else it is passed over or taken. -/
theorem loadFrom_cons_of_not_isFaulty (h : ¬ IsFaulty t) (n : Nat) (ts : List Text) :
    ∃ found, loadFrom n (t :: ts) = (loadFrom (n + 1) ts).map (found ++ ·) := by
  cases hignored : isIgnored t.trim with
  | true =>
      refine ⟨[], ?_⟩
      rw [loadFrom_ignored hignored]
      cases loadFrom (n + 1) ts <;> rfl
  | false =>
      cases hparse : Sequent.parse t.trim with
      | error cause => exact absurd (isFaulty_iff.mpr ⟨hignored, cause, hparse⟩) h
      | ok s => exact ⟨[s], loadFrom_sequent hignored hparse ts⟩

/-- **The first faulty line is blamed**, and with its number. -/
theorem loadFrom_eq_error_iff {ts : List Text} {e : SequentFileError} :
    loadFrom n ts = .error e ↔ ∃ k cause, FirstFault ts k cause ∧ e = .line (n + k) cause := by
  induction ts generalizing n with
  | nil =>
      constructor
      · intro h
        contradiction
      · rintro ⟨k, cause, ⟨-, t, ht, -⟩, -⟩
        contradiction
  | cons t ts ih =>
      by_cases ht : IsFaulty t
      · obtain ⟨hignored, cause, hcause⟩ := isFaulty_iff.mp ht
        rw [loadFrom_error hignored hcause]
        constructor
        · intro h
          cases h
          exact ⟨0, cause, firstFault_zero.mpr ⟨ht, hcause⟩, rfl⟩
        · rintro ⟨k, cause', hfirst, rfl⟩
          cases k with
          | zero =>
              have hsame := (firstFault_zero.mp hfirst).2
              rw [hcause] at hsame
              cases hsame
              rfl
          | succ k => exact absurd ht (firstFault_succ.mp hfirst).1
      · obtain ⟨found, hfound⟩ := loadFrom_cons_of_not_isFaulty ht n ts
        have herror : loadFrom n (t :: ts) = .error e ↔ loadFrom (n + 1) ts = .error e := by
          rw [hfound]
          cases loadFrom (n + 1) ts with
          | error e' => exact Iff.rfl
          | ok ss => constructor <;> intro h <;> cases h
        rw [herror, ih]
        constructor
        · rintro ⟨k, cause, hfirst, rfl⟩
          exact ⟨k + 1, cause, firstFault_succ.mpr ⟨ht, hfirst⟩, by rw [Nat.add_right_comm]; rfl⟩
        · rintro ⟨k, cause, hfirst, rfl⟩
          cases k with
          | zero => exact absurd (firstFault_zero.mp hfirst).1 ht
          | succ k =>
              exact ⟨k, cause, (firstFault_succ.mp hfirst).2, by rw [Nat.add_right_comm]; rfl⟩

theorem exists_firstFault_iff {ts : List Text} :
    (∃ k cause, FirstFault ts k cause) ↔ ∃ t ∈ ts, IsFaulty t := by
  constructor
  · rintro ⟨k, cause, -, t, ht, hfaulty, -⟩
    exact ⟨t, List.mem_of_getElem? ht, hfaulty⟩
  · induction ts with
    | nil => simp
    | cons t ts ih =>
        intro h
        by_cases ht : IsFaulty t
        · obtain ⟨-, cause, hcause⟩ := isFaulty_iff.mp ht
          exact ⟨0, cause, firstFault_zero.mpr ⟨ht, hcause⟩⟩
        · rw [List.exists_mem_cons_iff] at h
          obtain ⟨k, cause, hfirst⟩ := ih (h.resolve_left ht)
          exact ⟨k + 1, cause, firstFault_succ.mpr ⟨ht, hfirst⟩⟩

/-! ## Lines as they are written -/

/-- A blank within a line. -/
abbrev LineBlank : Type := { c : Char // isBlankChar c = true ∧ c ≠ '\n' }

/-- A byte within a line. -/
abbrev LineByte : Type := { b : UInt8 // b ≠ 0x0A }

/-- What a line is written for. -/
inductive Entry where
  /-- A sequent, printed in a style. -/
  | sequent (s : Sequent) (st : Style)
  | blank
  /-- A comment: any bytes behind a number sign. -/
  | comment (body : List LineByte)

namespace Entry

def bytes : Entry → List UInt8
  | sequent s st => (s.print st).toUTF8.data.toList
  | blank => []
  | comment body => 0x23 :: body.map (·.val)

/-- The sequent that is written down, if there is one. -/
def sequent? : Entry → Option Sequent
  | sequent s _ => some s
  | _ => none

end Entry

/-- A line up to its newline: an entry with blanks around it, and perhaps a carriage
return behind them. -/
structure WrittenLine where
  before : List LineBlank
  entry : Entry
  after : List LineBlank
  withReturn : Bool

namespace WrittenLine

/-- The characters in front of the entry. -/
def head (l : WrittenLine) : List Char := l.before.map (·.val)

/-- The characters behind the entry. -/
def tail (l : WrittenLine) : List Char :=
  l.after.map (·.val) ++ if l.withReturn then ['\r'] else []

def bytes (l : WrittenLine) : List UInt8 :=
  Text.bytes (l.head.map .char) ++ (l.entry.bytes ++ Text.bytes (l.tail.map .char))

def text (l : WrittenLine) : Text := Text.ofBytes l.bytes

end WrittenLine

/-- The bytes of a file: lines with a newline each, and perhaps a last line without
one. -/
def written (lines : List WrittenLine) (last : Option WrittenLine) : List UInt8 :=
  lines.flatMap (fun l => l.bytes ++ [0x0A]) ++ last.elim [] (·.bytes)

end SequentFile

/-! ## Printed sequents in a line -/

/-- A solid text neither starts nor ends with a blank. -/
theorem Solid.bare {cs : List Char} (h : Solid cs) : Text.Bare (cs.map .char) := by
  induction h with
  | word _ hword =>
      apply Text.bare_of_forall
      rw [List.forall_mem_map]
      exact hword
  | join hcs hds ihcs ihds =>
      rw [List.map_append, List.map_cons]
      exact ihcs.append ihds (by simpa using hcs.ne_nil) (by simpa using hds.ne_nil) [.char ' ']

namespace Sequent

/-- **What sequents are printed with**: names, symbols and blanks. -/
theorem forall_mem_print {P : Char → Prop} (hname : ∀ c, isNameChar c = true → P c)
    (hsymbol : ∀ (k : Symbol) (unicode : Bool), ∀ c ∈ (k.spelling unicode).toList, P c)
    (hblank : P ' ') (st : Style) (s : Sequent) : ∀ c ∈ (s.print st).toList, P c := by
  have hformula : ∀ p : Formula, ∀ sp ∈ p.format st, ∀ c ∈ sp.text.toList, P c := by
    apply Formula.forall_mem_format (P := fun sp => ∀ c ∈ sp.text.toList, P c)
    · intro x c hc
      exact hname c (x.isNameChar_of_mem hc)
    · intro k _ _
      exact hsymbol k st.unicode
  have hspace : ∀ c ∈ blankSpan.text.toList, P c := by
    intro c hc
    obtain rfl : c = ' ' := by simpa using hc
    exact hblank
  have hhyps : ∀ sp ∈ formatHyps st s.hyps, ∀ c ∈ sp.text.toList, P c := by
    fun_induction formatHyps st s.hyps with
    | case1 => exact List.forall_mem_nil _
    | case2 h =>
        rw [List.forall_mem_append, List.forall_mem_singleton]
        exact ⟨hformula h, hspace⟩
    | case3 h hs _ ih =>
        rw [List.forall_mem_append, List.forall_mem_cons, List.forall_mem_cons]
        exact ⟨hformula h, hsymbol .comma st.unicode, hspace, ih⟩
  have hspans : ∀ sp ∈ s.format st false, ∀ c ∈ sp.text.toList, P c := by
    rw [format, List.forall_mem_append, List.forall_mem_cons, List.forall_mem_cons]
    exact ⟨hhyps, hsymbol .turnstile st.unicode, hspace, hformula s.concl⟩
  intro c hc
  obtain ⟨sp, hsp, hcsp⟩ := Span.mem_toList_plainText.mp hc
  exact hspans sp hsp c hcsp

/-- A printed sequent is on one line and is no comment. -/
theorem ne_newline_of_mem_print (st : Style) (s : Sequent) :
    ∀ c ∈ (s.print st).toList, c ≠ '\n' ∧ c ≠ '#' := by
  apply forall_mem_print
  · intro c hc
    constructor
    · rintro rfl
      contradiction
    · rintro rfl
      contradiction
  · intro k unicode
    have hall : ((k.spelling unicode).toList.all fun c => c ≠ '\n' ∧ c ≠ '#') = true := by
      cases k <;> cases unicode <;> decide
    exact List.all_iff_forall_prop.mp hall
  · decide

end Sequent

namespace SequentFile

namespace WrittenLine

variable (l : WrittenLine)

theorem text_eq : l.text =
    l.head.map .char ++ Text.ofBytes (l.entry.bytes ++ Text.bytes (l.tail.map .char)) :=
  Text.ofBytes_bytes_append l.head _

theorem isBlank_head : Text.isBlank (l.head.map .char) = true := by
  rw [Text.isBlank, List.all_eq_true, List.forall_mem_map, head, List.forall_mem_map]
  exact fun c _ => c.property.1

theorem isBlank_tail : Text.isBlank (l.tail.map .char) = true := by
  rw [Text.isBlank, List.all_eq_true, List.forall_mem_map, tail, List.forall_mem_append,
    List.forall_mem_map]
  refine ⟨fun c _ => c.property.1, ?_⟩
  cases l.withReturn with
  | false => exact List.forall_mem_nil _
  | true => exact List.forall_mem_singleton.mpr rfl

/-- The bytes of characters have a newline only if one of them is one. -/
theorem newline_not_mem_bytes {cs : List Char} (h : '\n' ∉ cs) :
    0x0A ∉ Text.bytes (cs.map .char) := by
  rw [← Text.newline_mem_ofBytes_iff, Text.ofBytes_bytes_map_char, List.mem_map]
  rintro ⟨c, hc, heq⟩
  cases heq
  exact h hc

theorem newline_not_mem_entry (entry : Entry) : 0x0A ∉ entry.bytes := by
  cases entry with
  | sequent s st =>
      rw [Entry.bytes, Text.toUTF8_eq]
      exact newline_not_mem_bytes fun h => (s.ne_newline_of_mem_print st _ h).1 rfl
  | blank => exact List.not_mem_nil
  | comment body =>
      rw [Entry.bytes, List.mem_cons, not_or]
      refine ⟨by decide, ?_⟩
      rw [List.mem_map]
      rintro ⟨b, -, hb⟩
      exact b.property hb

/-- A line has no newline in it. -/
theorem newline_not_mem : 0x0A ∉ l.bytes := by
  have hhead : '\n' ∉ l.head := by
    rw [head, List.mem_map]
    rintro ⟨c, -, hc⟩
    exact c.property.2 hc
  have htail : '\n' ∉ l.tail := by
    rw [tail, List.mem_append, List.mem_map, not_or]
    constructor
    · rintro ⟨c, -, hc⟩
      exact c.property.2 hc
    · cases l.withReturn <;> decide
  rw [bytes, List.mem_append, List.mem_append, not_or, not_or]
  exact ⟨newline_not_mem_bytes hhead, newline_not_mem_entry l.entry, newline_not_mem_bytes htail⟩

variable {l}

theorem trim_text {s : Sequent} {st : Style} (h : l.entry = .sequent s st) :
    l.text.trim = Text.ofString (s.print st) := by
  have hread := Text.ofBytes_bytes_append (s.print st).toList (Text.bytes (l.tail.map .char))
  rw [Text.ofBytes_bytes_map_char] at hread
  rw [text_eq, Text.trim_append_left l.isBlank_head, h, Entry.bytes, Text.toUTF8_eq,
    Text.ofString, hread, Text.trim_append_right l.isBlank_tail]
  exact (s.solid_print st).bare.trim_eq

theorem isBlank_text (h : l.entry = .blank) : l.text.isBlank = true := by
  rw [text_eq, h, Entry.bytes, List.nil_append, Text.ofBytes_bytes_map_char, Text.isBlank,
    List.all_append, Bool.and_eq_true]
  exact ⟨l.isBlank_head, l.isBlank_tail⟩

theorem isComment_text {body : List LineByte} (h : l.entry = .comment body) :
    IsComment l.text := by
  rw [IsComment, ← Text.head?_trim, text_eq, Text.trim_append_left l.isBlank_head, h, Entry.bytes,
    List.cons_append, Text.ofBytes_ascii (by decide), Text.trim_cons (by decide)]
  rfl

/-- **A line is read as what it was written for.** -/
theorem loadFrom_cons (l : WrittenLine) (n : Nat) (ts : List Text) :
    loadFrom n (l.text :: ts) =
      (loadFrom (n + 1) ts).map (l.entry.sequent?.toList ++ ·) := by
  cases hentry : l.entry with
  | sequent s st =>
      have hignored : isIgnored l.text.trim = false := by
        rw [← Bool.not_eq_true, isIgnored_iff, trim_text hentry, Text.ofString, List.map_eq_nil_iff,
          List.head?_map, Option.map_eq_some_iff, not_or]
        refine ⟨(s.solid_print st).ne_nil, ?_⟩
        rintro ⟨c, hc, heq⟩
        exact (s.ne_newline_of_mem_print st c (List.mem_of_head? hc)).2 (Glyph.char.inj heq)
      exact loadFrom_sequent hignored (by rw [trim_text hentry, s.parse_ofString_print]) ts
  | blank =>
      rw [loadFrom_ignored (isIgnored_trim_iff.mpr (.inl (isBlank_text hentry)))]
      cases loadFrom (n + 1) ts <;> rfl
  | comment body =>
      rw [loadFrom_ignored (isIgnored_trim_iff.mpr (.inr (isComment_text hentry)))]
      cases loadFrom (n + 1) ts <;> rfl

theorem loadFrom_map_text (lines : List WrittenLine) (n : Nat) :
    loadFrom n (lines.map text) = .ok (lines.filterMap (·.entry.sequent?)) := by
  induction lines generalizing n with
  | nil => rfl
  | cons l lines ih =>
      rw [List.map_cons, loadFrom_cons, ih, List.filterMap_cons]
      cases l.entry.sequent? <;> rfl

end WrittenLine

/-! ## Files -/

/-- Lines that end with a newline each, and a last one that does not, are lines joined
by newlines. -/
theorem flatMap_append_eq_intercalate (ls : List (List UInt8)) (last : List UInt8) :
    ls.flatMap (· ++ [0x0A]) ++ last = [0x0A].intercalate (ls ++ [last]) := by
  induction ls with
  | nil => simp
  | cons l ls ih =>
      rw [List.flatMap_cons, List.append_assoc, ih, List.cons_append]
      cases h : ls ++ [last] with
      | nil => simp at h
      | cons l' ls' => rw [List.intercalate_cons_cons]

/-- A last line that is not there is an empty one. -/
def lastLine (last : Option WrittenLine) : WrittenLine := last.getD ⟨[], .blank, [], false⟩

theorem written_eq (lines : List WrittenLine) (last : Option WrittenLine) :
    written lines last = [0x0A].intercalate ((lines ++ [lastLine last]).map (·.bytes)) := by
  have hlast : last.elim [] (·.bytes) = (lastLine last).bytes := by cases last <;> rfl
  have hlines := flatMap_append_eq_intercalate (lines.map (·.bytes)) (lastLine last).bytes
  rw [List.flatMap_map] at hlines
  rw [written, hlast, hlines, List.map_append, List.map_singleton]

/-- **What was written is read.** -/
theorem load_written {lines : List WrittenLine} {last : Option WrittenLine}
    (h : ∀ l ∈ lines ++ last.toList, l.bytes.length < Lines.limit) :
    load (Text.ofBytes (written lines last)) =
      .ok ((lines ++ last.toList).filterMap (·.entry.sequent?)) := by
  rw [List.forall_mem_append] at h
  have hlast : (lastLine last).bytes.length < Lines.limit := by
    cases last with
    | none => decide
    | some l => exact h.2 l (by simp)
  have hlines : ∀ l ∈ (lines ++ [lastLine last]).map (·.bytes),
      0x0A ∉ l ∧ l.length < Lines.limit := by
    rw [List.forall_mem_map, List.forall_mem_append, List.forall_mem_singleton]
    exact ⟨fun l hl => ⟨l.newline_not_mem, h.1 l hl⟩, (lastLine last).newline_not_mem, hlast⟩
  have hfound : (lines ++ [lastLine last]).filterMap (·.entry.sequent?) =
      (lines ++ last.toList).filterMap (·.entry.sequent?) := by
    cases last with
    | none => simp [lastLine, Entry.sequent?]
    | some l => rfl
  rw [written_eq, load_intercalate hlines, List.map_map, ← hfound]
  exact WrittenLine.loadFrom_map_text _ 1

/-- **Which line is blamed.** -/
theorem load_eq_error_iff {bs : List UInt8} (h : ∀ l ∈ bs.splitOn 0x0A, l.length < Lines.limit)
    {e : SequentFileError} :
    load (Text.ofBytes bs) = .error e ↔
      ∃ k cause, FirstFault ((bs.splitOn 0x0A).map Text.ofBytes) k cause ∧
        e = .line (k + 1) cause := by
  have hlines := load_intercalate fun l hl => ⟨Text.newline_not_mem_of_mem_splitOn hl, h l hl⟩
  rw [List.intercalate_splitOn] at hlines
  rw [hlines, loadFrom_eq_error_iff]
  simp only [Nat.add_comm 1]

/-- **Files of sequents are read as they were written, and errors name the right
line.**  Sequents that are printed one on a line, each in any style and with any
blanks around it, with blank lines and comments in between, are read back in order,
whether their lines end in a newline or in a carriage return and a newline, and
whether the last of them ends at all.  Any other file is cut at its newlines too: it
cannot be read exactly if one of its lines is neither blank, nor a comment, nor a
sequent, and the number in the message is that of the first such line, with all lines
counted from 1 on.  A line must have fewer than 65536 bytes before its newline, a
carriage return included. -/
theorem load_reads_lines :
    (∀ (lines : List WrittenLine) (last : Option WrittenLine),
      (∀ l ∈ lines ++ last.toList, l.bytes.length < 65536) →
      load (Text.ofBytes (written lines last)) =
        .ok ((lines ++ last.toList).filterMap (·.entry.sequent?))) ∧
    ∀ bs : List UInt8, (∀ l ∈ bs.splitOn 0x0A, l.length < 65536) →
      let lines : List Text := (bs.splitOn 0x0A).map Text.ofBytes
      ((∃ e, load (Text.ofBytes bs) = .error e) ↔ ∃ t ∈ lines, IsFaulty t) ∧
      ∀ e, load (Text.ofBytes bs) = .error e →
        ∃ k cause, FirstFault lines k cause ∧ e = .line (k + 1) cause ∧
          e.message = "line " ++ toString (k + 1) ++ ": " ++ cause.message := by
  refine ⟨fun _ _ => load_written, fun bs hshort => ⟨?_, fun e he => ?_⟩⟩
  · simp only [load_eq_error_iff hshort, ← exists_firstFault_iff]
    constructor
    · rintro ⟨_, k, cause, hfirst, -⟩
      exact ⟨k, cause, hfirst⟩
    · rintro ⟨k, cause, hfirst⟩
      exact ⟨_, k, cause, hfirst, rfl⟩
  · obtain ⟨k, cause, hfirst, rfl⟩ := (load_eq_error_iff hshort).mp he
    exact ⟨k, cause, hfirst, rfl, rfl⟩

/-- A comment that is no text, a sequent behind a no-break space and before a carriage
return, a blank line and a last line without a newline are read as the two sequents.
Where the third line, after a comment and a blank one, has no turnstile, it is line 3
that is blamed. -/
theorem load_reads_lines_third :
    let A : Formula := .var ⟨⟨'A', rfl⟩, []⟩
    let lines : List WrittenLine :=
      [⟨[], .comment [⟨0xFF, by decide⟩], [], false⟩,
        ⟨[⟨'\u00a0', by decide⟩], .sequent ⟨[A], A⟩ ⟨true, true⟩, [], true⟩,
        ⟨[⟨'\t', by decide⟩], .blank, [], false⟩]
    let last : WrittenLine := ⟨[], .sequent ⟨[], .impl A .falsity⟩ ⟨false, true⟩, [], false⟩
    let bs : List UInt8 := [0x20, 0x23, 0x0A, 0x0D, 0x0A, 0x41, 0x0A, 0x41]
    load (Text.ofBytes (written lines (some last))) = .ok [⟨[A], A⟩, ⟨[], .impl A .falsity⟩] ∧
      load (Text.ofBytes bs) = .error (.line 3 .noTurnstile) ∧
      (∃ t ∈ (bs.splitOn 0x0A).map Text.ofBytes, IsFaulty t) ∧
      FirstFault ((bs.splitOn 0x0A).map Text.ofBytes) 2 .noTurnstile := by
  intro A lines last bs
  have hread := load_reads_lines.1 lines (some last) (by decide +kernel)
  have hbad : load (Text.ofBytes bs) = .error (.line 3 .noTurnstile) := by decide +kernel
  obtain ⟨hfails, hfirst⟩ := load_reads_lines.2 bs (by decide +kernel)
  obtain ⟨k, cause, hfault, heq, -⟩ := hfirst _ hbad
  cases heq
  exact ⟨hread, hbad, hfails.mp ⟨_, hbad⟩, hfault⟩

end SequentFile

end Sequitur
