import Mathlib.Data.Set.Card
import Sequitur.Proofs.Text.Number
import Sequitur.Proofs.Validity.Encoding

/-!
# Sequitur.Proofs.Validity.Size

How large the clause form of a sequent is, and how it is written.

A clause form has a number for each variable, one for falsity and one for each occurrence
of a connective.  So its size can be told from a few counts, and `Tally` keeps them while
formulas are numbered: it holds of the empty clause form, and each definition adds what
belongs to its connectives (`Tally.define`).

A clause form is written in the DIMACS format, a line that tells its size and a line for
each clause.  `Dimacs.read?` reads that format, and gives back what was written
(`read?_dimacs`).
-/

namespace Sequitur

/-! ## Counting in formulas -/

namespace Formula

/-- The occurrences of connectives in a formula. -/
def connectives : Formula → List Connective
  | falsity => []
  | var _ => []
  | bin c l r => c :: (l.connectives ++ r.connectives)

/-- Whether falsity occurs in a formula. -/
def hasFalsity : Formula → Bool
  | falsity => true
  | var _ => false
  | bin _ l r => l.hasFalsity || r.hasFalsity

end Formula

namespace ClauseForm

/-- The number of clauses that define what connectives join: four for an equivalence and
three for any other. -/
def defining (cs : List Connective) : Nat :=
  3 * (cs.count .conj + cs.count .disj + cs.count .impl) + 4 * cs.count .equiv

theorem defining_append (cs ds : List Connective) :
    defining (cs ++ ds) = defining cs + defining ds := by
  simp only [defining, List.count_append]
  omega

theorem length_definition (x a b : Literal) (c : Connective) :
    (definition x a b c).length = defining [c] := by
  cases c <;> rfl

/-- Whether falsity occurs in formulas, as a number. -/
def falsityCount (ps : List Formula) : Nat := if ps.any Formula.hasFalsity then 1 else 0

/-! ## Counting in clause forms -/

variable {f g : ClauseForm} {gates clauses : Nat}

/-- Whether falsity has a number, as a number. -/
def falsities (f : ClauseForm) : Nat := if f.falsity.isSome then 1 else 0

/-- The size of a clause form: a number for each variable, for each of `gates` compound
formulas and for falsity, which has a clause too. -/
structure Tally (f : ClauseForm) (gates clauses : Nat) : Prop where
  count_eq : f.count = f.vars.length + gates + f.falsities
  length_clauses : f.clauses.length = clauses + f.falsities

theorem tally_empty : empty.Tally 0 0 := ⟨rfl, rfl⟩

theorem Tally.add (h : f.Tally gates clauses) (cs : List Clause) :
    (f.add cs).Tally gates (clauses + cs.length) := by
  obtain ⟨hcount, hlength⟩ := h
  refine ⟨hcount, ?_⟩
  rw [ClauseForm.add, List.length_append, hlength]
  exact Nat.add_right_comm _ _ _

theorem Tally.number (h : f.Tally gates clauses) (x : Name) :
    (f.number x).2.Tally gates clauses := by
  obtain ⟨hcount, hlength⟩ := h
  rw [ClauseForm.number]
  split
  · exact ⟨hcount, hlength⟩
  · refine ⟨?_, hlength⟩
    change f.count + 1 = (f.vars ++ [(x, f.count + 1)]).length + gates + f.falsities
    rw [List.length_append, List.length_singleton]
    omega

theorem Tally.falsum (h : f.Tally gates clauses) : f.falsum.2.Tally gates clauses := by
  obtain ⟨hcount, hlength⟩ := h
  cases hf : f.falsity with
  | some n =>
      have hsame : f.falsum.2 = f := by simp [ClauseForm.falsum, hf]
      rw [hsame]
      exact ⟨hcount, hlength⟩
  | none =>
      have hnone : f.falsities = 0 := by simp [falsities, hf]
      rw [hnone] at hcount hlength
      have hnew :
          f.falsum.2 = f.withGate (some (f.count + 1)) [[-((f.count + 1 : Nat) : Int)]] := by
        simp [ClauseForm.falsum, hf, fresh, withGate, ClauseForm.add]
      rw [hnew]
      refine ⟨?_, ?_⟩
      · change f.count + 1 = f.vars.length + gates + 1
        omega
      · change (f.clauses ++ [_]).length = clauses + 1
        rw [List.length_append, hlength]
        rfl

theorem Tally.withGate (h : f.Tally gates clauses) (cs : List Clause) :
    (f.withGate f.falsity cs).Tally (gates + 1) (clauses + cs.length) := by
  obtain ⟨hcount, hlength⟩ := h
  refine ⟨?_, ?_⟩
  · change f.count + 1 = f.vars.length + (gates + 1) + f.falsities
    omega
  · change (f.clauses ++ cs).length = clauses + cs.length + f.falsities
    rw [List.length_append]
    omega

/-- **Numbering a formula** adds a number for each of its connectives, and the clauses that
define them. -/
theorem Tally.define (h : f.Tally gates clauses) (p : Formula) :
    (f.define p).2.Tally (gates + p.connectives.length) (clauses + defining p.connectives) := by
  induction p generalizing f gates clauses with
  | falsity => exact h.falsum
  | var x => exact h.number x
  | bin c l r ihl ihr =>
      have hgate := (ihr (ihl h)).withGate (definition (((f.define l).2.define r).2.count + 1 : Nat)
        (f.define l).1 ((f.define l).2.define r).1 c)
      have hdefining : defining (Formula.bin c l r).connectives =
          defining [c] + (defining l.connectives + defining r.connectives) := by
        rw [Formula.connectives, ← List.singleton_append, defining_append, defining_append]
      rw [hdefining, Formula.connectives, List.length_cons, List.length_append]
      rw [length_definition] at hgate
      have hgates : gates + (l.connectives.length + r.connectives.length + 1) =
          gates + l.connectives.length + r.connectives.length + 1 := by omega
      have hclauses :
          clauses + (defining [c] + (defining l.connectives + defining r.connectives)) =
            clauses + defining l.connectives + defining r.connectives + defining [c] := by omega
      rw [hgates, hclauses]
      exact hgate

theorem isSome_falsity_define (f : ClauseForm) (p : Formula) :
    (f.define p).2.falsity.isSome = (f.falsity.isSome || p.hasFalsity) := by
  induction p generalizing f with
  | falsity =>
      rw [define, falsum]
      split <;> simp [Formula.hasFalsity, ClauseForm.add, *]
  | var x =>
      rw [define, number]
      split <;> simp [Formula.hasFalsity, fresh]
  | bin c l r ihl ihr =>
      change ((f.define l).2.define r).2.falsity.isSome = _
      rw [ihr, ihl, Formula.hasFalsity, Bool.or_assoc]

theorem assertAll_cons_fst (f : ClauseForm) (h : Formula) (hs : List Formula) :
    (f.assertAll (h :: hs)).1 =
      (f.define h).1 :: (((f.define h).2.add [[((f.define h).1 : Int)]]).assertAll hs).1 := rfl

/-- Asserting formulas adds a clause for each of them. -/
theorem Tally.assertAll (h : f.Tally gates clauses) (hs : List Formula) :
    (f.assertAll hs).2.Tally (gates + (hs.flatMap Formula.connectives).length)
      (clauses + (hs.length + defining (hs.flatMap Formula.connectives))) := by
  induction hs generalizing f gates clauses with
  | nil => exact h
  | cons p ps ih =>
      have hrest := ih ((h.define p).add [[((f.define p).1 : Int)]])
      rw [assertAll_cons, List.flatMap_cons, List.length_append, defining_append, List.length_cons]
      convert hrest using 1
      · omega
      · rw [List.length_singleton]
        omega

theorem isSome_falsity_assertAll (f : ClauseForm) (hs : List Formula) :
    (f.assertAll hs).2.falsity.isSome = (f.falsity.isSome || hs.any Formula.hasFalsity) := by
  induction hs generalizing f with
  | nil => simp [assertAll]
  | cons p ps ih =>
      rw [assertAll_cons, ih, List.any_cons, ← Bool.or_assoc]
      congr 1
      exact isSome_falsity_define f p

/-! ## The clauses of hypotheses -/

theorem prefix_clauses_define (f : ClauseForm) (p : Formula) :
    f.clauses <+: (f.define p).2.clauses := by
  induction p generalizing f with
  | falsity =>
      rw [define, falsum]
      split
      · exact List.prefix_rfl
      · exact List.prefix_append _ _
  | var x =>
      rw [define, number]
      split <;> exact List.prefix_rfl
  | bin c l r ihl ihr =>
      exact ((ihl f).trans (ihr _)).trans (List.prefix_append _ _)

theorem prefix_clauses_assertAll (f : ClauseForm) (hs : List Formula) :
    f.clauses <+: (f.assertAll hs).2.clauses := by
  induction hs generalizing f with
  | nil => exact List.prefix_rfl
  | cons p ps ih =>
      rw [assertAll_cons]
      have hadd : (f.define p).2.clauses <+:
          ((f.define p).2.add [[((f.define p).1 : Int)]]).clauses := List.prefix_append _ _
      exact ((prefix_clauses_define f p).trans hadd).trans (ih _)

theorem length_assertAll (f : ClauseForm) (hs : List Formula) :
    (f.assertAll hs).1.length = hs.length := by
  induction hs generalizing f with
  | nil => rfl
  | cons p ps ih => rw [assertAll_cons_fst, List.length_cons, ih, List.length_cons]

/-- The clause that asserts a hypothesis is the last one once it has been asserted. -/
theorem getElem?_assertAll (f : ClauseForm) (hs : List Formula) {i x : Nat}
    (hx : (f.assertAll hs).1[i]? = some x) :
    (f.assertAll hs).2.clauses[(f.assertAll (hs.take (i + 1))).2.clauses.length - 1]? =
      some [(x : Int)] := by
  induction hs generalizing f i with
  | nil => simp [assertAll] at hx
  | cons p ps ih =>
      let g := (f.define p).2.add [[((f.define p).1 : Int)]]
      rw [assertAll_cons_fst] at hx
      rw [List.take_succ_cons, assertAll_cons, assertAll_cons]
      cases i with
      | zero =>
          obtain rfl : (f.define p).1 = x := Option.some.inj hx
          have hlast : g.clauses[g.clauses.length - 1]? = some [((f.define p).1 : Int)] := by
            simp [g, ClauseForm.add]
          have hlt := (List.getElem?_eq_some_iff.mp hlast).1
          rw [List.take_zero, ← hlast]
          obtain ⟨later, hlater⟩ := prefix_clauses_assertAll g ps
          rw [← hlater]
          exact List.getElem?_append_left hlt
      | succ i =>
          rw [List.getElem?_cons_succ] at hx
          exact ih g hx

end ClauseForm

/-! ## The DIMACS format -/

namespace Dimacs

/-- The words of a line. -/
def words (line : List Char) : List (List Char) := (line.splitOn ' ').filter (· ≠ [])

/-- Reads a number without a sign. -/
def nat? (word : List Char) : Option Nat :=
  if word ≠ [] && word.all Char.isDigit then some (Nat.ofDigitChars 10 word 0) else none

/-- Reads a number. -/
def int? : List Char → Option Int
  | '-' :: word => (nat? word).map fun n => -(n : Int)
  | word => (nat? word).map Int.ofNat

/-- The numbers before a zero, which comes last. -/
def upToZero? : List Int → Option Clause
  | [] => none
  | [n] => if n = 0 then some [] else none
  | n :: ns => if n = 0 then none else (upToZero? ns).map (n :: ·)

/-- Reads a clause from a line. -/
def clause? (line : List Char) : Option Clause := ((words line).mapM int?).bind upToZero?

/-- Reads the numbers of variables and of clauses from the first line. -/
def header? (line : List Char) : Option (Nat × Nat) :=
  match words line with
  | [p, cnf, vars, clauses] =>
    if p = ['p'] && cnf = ['c', 'n', 'f'] then do return (← nat? vars, ← nat? clauses) else none
  | _ => none

/-- Reads a text of lines, each ended by a newline: the numbers of variables and of clauses,
and a clause from each line after the first. -/
def read? (s : String) : Option (Nat × Nat × List Clause) :=
  match s.toList.splitOn '\n' with
  | [] => none
  | header :: lines => do
    let (vars, clauses) ← header? header
    if lines.getLast? ≠ some [] then none
    else return (vars, clauses, ← lines.dropLast.mapM clause?)

/-! Numbers. -/

theorem nat?_repr (n : Nat) : nat? n.repr.toList = some n := by
  have hdigits : (Nat.toDigits 10 n).all Char.isDigit = true :=
    List.all_eq_true.mpr fun c hc => Nat.isDigit_of_mem_toDigits (by decide) (by decide) hc
  rw [Nat.toList_repr, nat?, hdigits, if_pos (by simp [Nat.toDigits_ne_nil]),
    Nat.ofDigitChars_toDigits (by decide) (by decide)]

theorem int?_toString (i : Int) : int? (toString i).toList = some i := by
  rw [Int.toString_eq_repr]
  cases i with
  | ofNat n =>
      have hsign : ∀ word, n.repr.toList ≠ '-' :: word := by
        intro word heq
        have hmem : '-' ∈ Nat.toDigits 10 n := by
          rw [← Nat.toList_repr, heq]
          exact List.mem_cons_self
        exact absurd (Nat.isDigit_of_mem_toDigits (by decide) (by decide) hmem) (by decide)
      rw [Int.repr, int?]
      · rw [nat?_repr]
        rfl
      · exact hsign
  | negSucc n =>
      have htext : (Int.repr (Int.negSucc n)).toList = '-' :: (n + 1).repr.toList := by
        simp [Int.repr]
      rw [htext, int?, nat?_repr]
      rfl

/-! Words. -/

/-- Characters that are a word of their own, on one line. -/
structure IsWord (w : List Char) : Prop where
  ne_nil : w ≠ []
  space_not_mem : ' ' ∉ w
  newline_not_mem : '\n' ∉ w

theorem isWord_toString (i : Int) : IsWord (toString i).toList := by
  have hnot (c : Char) (hsign : c ≠ '-') (hdigit : c.isDigit = false) :
      c ∉ (toString i).toList := by
    intro hmem
    rcases Number.isNumeral_of_mem hmem with h | h
    · exact hsign h
    · rw [hdigit] at h
      contradiction
  exact ⟨Number.toList_toString_ne_nil i, hnot ' ' (by decide) (by decide),
    hnot '\n' (by decide) (by decide)⟩

theorem isWord_repr (n : Nat) : IsWord n.repr.toList := isWord_toString (n : Int)

theorem words_append {w : List Char} (h : IsWord w) (rest : List Char) :
    words (w ++ ' ' :: rest) = w :: words rest := by
  have hsplit : (w ++ ' ' :: rest).splitOn ' ' = w :: rest.splitOn ' ' :=
    List.splitOn_append_cons_self_of_not_mem h.space_not_mem rest
  rw [words, hsplit, List.filter_cons_of_pos (by simpa using h.ne_nil), words]

theorem words_eq_singleton {w : List Char} (h : IsWord w) : words w = [w] := by
  have hsplit : w.splitOn ' ' = [w] := List.splitOn_eq_singleton h.space_not_mem
  rw [words, hsplit, List.filter_cons_of_pos (by simpa using h.ne_nil), List.filter_nil]

/-! Clauses. -/

theorem upToZero?_concat {c : Clause} (h : ∀ l ∈ c, l ≠ 0) : upToZero? (c ++ [0]) = some c := by
  induction c with
  | nil => rfl
  | cons l c ih =>
      obtain ⟨hl, hc⟩ := List.forall_mem_cons.mp h
      have hstep : upToZero? (l :: (c ++ [0])) = (upToZero? (c ++ [0])).map (l :: ·) := by
        rw [upToZero?, if_neg hl]
        simp
      rw [List.cons_append, hstep, ih hc]
      rfl

/-- The line of a clause without its newline. -/
def line (c : Clause) : List Char := (Request.joined " " (c.map toString)).toList ++ [' ', '0']

theorem toList_clauseLine (c : Clause) :
    (ClauseForm.clauseLine c).toList = line c ++ ['\n'] := by
  rw [ClauseForm.clauseLine, String.toList_append, line, List.append_assoc]
  rfl

theorem line_singleton (l : Literal) : line [l] = (toString l).toList ++ [' ', '0'] := rfl

theorem line_cons_cons (l m : Literal) (c : Clause) :
    line (l :: m :: c) = (toString l).toList ++ ' ' :: line (m :: c) := by
  have hjoined : Request.joined " " ((l :: m :: c).map toString) =
      toString l ++ " " ++ Request.joined " " ((m :: c).map toString) := rfl
  rw [line, hjoined, String.toList_append, String.toList_append, List.append_assoc,
    List.append_assoc]
  rfl

/-- A line has the numbers of its clause and a zero as words. -/
theorem words_line (c : Clause) : words (line c) = (c ++ [0]).map fun i => (toString i).toList := by
  induction c with
  | nil => decide
  | cons l c ih =>
      have hl := isWord_toString l
      cases c with
      | nil =>
          have hzero : words ['0'] = [(toString (0 : Int)).toList] := by decide
          rw [line_singleton, words_append hl, hzero]
          rfl
      | cons m c =>
          rw [line_cons_cons, words_append hl, ih]
          rfl

theorem newline_not_mem_line (c : Clause) : '\n' ∉ line c := by
  induction c with
  | nil => decide
  | cons l c ih =>
      have hl := (isWord_toString l).newline_not_mem
      cases c with
      | nil =>
          rw [line_singleton, List.mem_append, not_or]
          exact ⟨hl, by decide⟩
      | cons m c =>
          rw [line_cons_cons, List.mem_append, List.mem_cons, not_or, not_or]
          exact ⟨hl, by decide, ih⟩

/-- **A clause is read from its line.** -/
theorem clause?_line {c : Clause} (h : ∀ l ∈ c, l ≠ 0) : clause? (line c) = some c := by
  have hread : ∀ is : List Int, (is.map fun i => (toString i).toList).mapM int? = some is := by
    intro is
    induction is with
    | nil => rfl
    | cons i is ih =>
        rw [List.map_cons, List.mapM_cons, int?_toString, ih]
        rfl
  rw [clause?, words_line, hread, Option.bind_some, upToZero?_concat h]

theorem splitOn_clauseLines (cs : List Clause) :
    (ClauseForm.clauseLines cs).toList.splitOn '\n' = cs.map line ++ [[]] := by
  induction cs with
  | nil => rfl
  | cons c cs ih =>
      rw [ClauseForm.clauseLines, String.toList_append, toList_clauseLine, List.append_assoc,
        List.singleton_append, List.splitOn_append_cons_self_of_not_mem (newline_not_mem_line c),
        ih, List.map_cons, List.cons_append]

/-! The first line. -/

/-- The first line without its newline. -/
def headerLine (f : ClauseForm) : List Char :=
  ['p'] ++ ' ' :: (['c', 'n', 'f'] ++ ' ' ::
    (f.count.repr.toList ++ ' ' :: f.clauses.length.repr.toList))

theorem toList_dimacs (f : ClauseForm) :
    f.dimacs.toList = headerLine f ++ '\n' :: (ClauseForm.clauseLines f.clauses).toList := by
  simp [ClauseForm.dimacs, headerLine]

theorem header?_headerLine (f : ClauseForm) :
    header? (headerLine f) = some (f.count, f.clauses.length) := by
  have hp : IsWord ['p'] := ⟨by decide, by decide, by decide⟩
  have hcnf : IsWord ['c', 'n', 'f'] := ⟨by decide, by decide, by decide⟩
  have hwords : words (headerLine f) =
      [['p'], ['c', 'n', 'f'], f.count.repr.toList, f.clauses.length.repr.toList] := by
    rw [headerLine, words_append hp, words_append hcnf, words_append (isWord_repr _),
      words_eq_singleton (isWord_repr _)]
  simp only [header?, hwords, nat?_repr]
  rfl

theorem newline_not_mem_headerLine (f : ClauseForm) : '\n' ∉ headerLine f := by
  have hnumber (n : Nat) := (isWord_repr n).newline_not_mem
  simp only [headerLine, List.mem_append, List.mem_cons, not_or]
  exact ⟨by decide, by decide, by decide, by decide, hnumber _, by decide, hnumber _⟩

/-- **What is written is read back.** -/
theorem read?_dimacs {f : ClauseForm} (h : ∀ c ∈ f.clauses, ∀ l ∈ c, l ≠ 0) :
    read? f.dimacs = some (f.count, f.clauses.length, f.clauses) := by
  have hsplit : f.dimacs.toList.splitOn '\n' = headerLine f :: (f.clauses.map line ++ [[]]) := by
    rw [toList_dimacs, List.splitOn_append_cons_self_of_not_mem (newline_not_mem_headerLine f),
      splitOn_clauseLines]
  have hclauses : ∀ cs : List Clause, (∀ c ∈ cs, ∀ l ∈ c, l ≠ 0) →
      (cs.map line).mapM clause? = some cs := by
    intro cs hcs
    induction cs with
    | nil => rfl
    | cons c cs ih =>
        obtain ⟨hc, hrest⟩ := List.forall_mem_cons.mp hcs
        rw [List.map_cons, List.mapM_cons, clause?_line hc, ih hrest]
        rfl
  simp [read?, hsplit, header?_headerLine, hclauses f.clauses h]

end Dimacs

/-! ## The size of a sequent -/

namespace Sequent

open ClauseForm

/-- The clause form of a sequent: the hypotheses are asserted and the conclusion is denied. -/
theorem tally_clauseForm (s : Sequent) :
    s.clauseForm.Tally (s.formulas.flatMap Formula.connectives).length
      (s.hyps.length + 1 + defining (s.formulas.flatMap Formula.connectives)) := by
  have htally := ((tally_empty.assertAll s.hyps).define s.concl).add
    [[-(((empty.assertAll s.hyps).2.define s.concl).1 : Int)]]
  have hflat : s.formulas.flatMap Formula.connectives =
      s.hyps.flatMap Formula.connectives ++ s.concl.connectives := by
    simp [formulas]
  have hgates : (s.hyps.flatMap Formula.connectives).length + s.concl.connectives.length =
      0 + (s.hyps.flatMap Formula.connectives).length + s.concl.connectives.length := by omega
  have hclauses :
      s.hyps.length + 1 +
          (defining (s.hyps.flatMap Formula.connectives) + defining s.concl.connectives) =
        0 + (s.hyps.length + defining (s.hyps.flatMap Formula.connectives)) +
          defining s.concl.connectives + 1 := by omega
  rw [hflat, List.length_append, defining_append, hgates, hclauses]
  exact htally

theorem falsities_clauseForm (s : Sequent) :
    s.clauseForm.falsities = falsityCount s.formulas := by
  have hdeny : s.clauseForm.falsity.isSome =
      ((empty.assertAll s.hyps).2.define s.concl).2.falsity.isSome := rfl
  have hnone : empty.falsity.isSome = false := rfl
  rw [falsities, hdeny, isSome_falsity_define, isSome_falsity_assertAll, hnone, Bool.false_or,
    falsityCount, formulas, List.any_append]
  simp

theorem length_vars_clauseForm (s : Sequent) :
    s.clauseForm.vars.length = { x | s.Mentions x }.ncard := by
  obtain ⟨hencodes, hbinds⟩ := s.clauseForm_encodes
  have hset : { x | s.Mentions x } = ((s.clauseForm.vars.map Prod.fst).toFinset : Set Name) := by
    ext x
    rw [Finset.mem_coe, List.mem_toFinset]
    exact (hbinds x).symm
  rw [hset, Set.ncard_coe_finset, List.toFinset_card_of_nodup hencodes.names_nodup,
    List.length_map]

/-- The place of the clause that asserts a hypothesis: behind the clauses that assert those
before it and the definitions of what has been met so far. -/
def assertionIndex (s : Sequent) (i : Nat) : Nat :=
  i + defining ((s.hyps.take (i + 1)).flatMap Formula.connectives) +
    falsityCount (s.hyps.take (i + 1))

theorem getElem?_assertionIndex {s : Sequent} {i x : Nat} (hx : s.encode.1[i]? = some x) :
    s.clauseForm.clauses[s.assertionIndex i]? = some [(x : Int)] := by
  have hlt : i < s.hyps.length := by
    rw [← length_assertAll empty s.hyps]
    exact (List.getElem?_eq_some_iff.mp hx).1
  have htally := (tally_empty.assertAll (s.hyps.take (i + 1))).length_clauses
  have hfalsities : (empty.assertAll (s.hyps.take (i + 1))).2.falsities =
      falsityCount (s.hyps.take (i + 1)) := by
    rw [falsities, isSome_falsity_assertAll, falsityCount]
    rfl
  have hindex : (empty.assertAll (s.hyps.take (i + 1))).2.clauses.length - 1 =
      s.assertionIndex i := by
    rw [htally, hfalsities, List.length_take, Nat.min_eq_left hlt, assertionIndex]
    omega
  have hasserted := getElem?_assertAll empty s.hyps hx
  rw [hindex] at hasserted
  obtain ⟨later, hlater⟩ : (empty.assertAll s.hyps).2.clauses <+: s.clauseForm.clauses :=
    (prefix_clauses_define _ s.concl).trans (List.prefix_append _ _)
  rw [← hlater, List.getElem?_append_left (List.getElem?_eq_some_iff.mp hasserted).1, hasserted]

/-- **The size of a clause form.**  Its literals are numbers that have been given, or their
opposites.  There is a number for each variable of the sequent, for each occurrence of a
connective, and for falsity if it occurs.  There is a clause for each hypothesis and for the
conclusion, there are three for each conjunction, disjunction and implication and four for
each equivalence, and there is one for falsity if it occurs.  The number of a hypothesis
stands alone in the clause that asserts it.  As a text, a clause form tells its size
and its clauses, in order. -/
theorem clauseForm_size (s : Sequent) :
    let f := s.clauseForm
    let cs := s.formulas.flatMap Formula.connectives
    let falsity := if s.formulas.any Formula.hasFalsity then 1 else 0
    (∀ c ∈ f.clauses, ∀ l ∈ c, l ≠ 0 ∧ 1 ≤ l.natAbs ∧ l.natAbs ≤ f.count) ∧
    f.count = { x | s.Mentions x }.ncard + cs.length + falsity ∧
    f.clauses.length = s.hyps.length + 1 +
      (3 * (cs.count .conj + cs.count .disj + cs.count .impl) + 4 * cs.count .equiv) + falsity ∧
    s.encode.1.length = s.hyps.length ∧
    (∀ i x : Nat, s.encode.1[i]? = some x → f.clauses[s.assertionIndex i]? = some [(x : Int)]) ∧
    Dimacs.read? f.dimacs = some (f.count, f.clauses.length, f.clauses) := by
  intro f cs falsity
  obtain ⟨hcount, hlength⟩ := s.tally_clauseForm
  have hliterals := s.clauseForm_encodes.1.literals_mem
  have hnonzero : ∀ c ∈ f.clauses, ∀ l ∈ c, l ≠ 0 := by
    intro c hc l hl hzero
    have hone := (hliterals c hc l hl).1
    rw [hzero] at hone
    contradiction
  refine ⟨?_, ?_, ?_, length_assertAll empty s.hyps, fun i x => getElem?_assertionIndex,
    Dimacs.read?_dimacs hnonzero⟩
  · intro c hc l hl
    exact ⟨hnonzero c hc l hl, hliterals c hc l hl⟩
  · rw [hcount, length_vars_clauseForm, falsities_clauseForm]
    rfl
  · rw [hlength, falsities_clauseForm]
    rfl

/-- In `A <-> !, A /\ A |- ~A` the variable and falsity occur more than once and have one
number each.  The definitions of the first hypothesis take four clauses and falsity takes
one, so that the clause that asserts it is the sixth. -/
theorem clauseForm_size_shared :
    let A : Formula := .var ⟨⟨'A', rfl⟩, []⟩
    let s : Sequent := ⟨[.equiv A .falsity, .conj A A], .neg A⟩
    s.encode.1 = [3, 4] ∧ s.assertionIndex 0 = 5 ∧ s.clauseForm.clauses[5]? = some [3] ∧
      s.clauseForm.clauses.length = 14 ∧
      Dimacs.read? s.clauseForm.dimacs = some (5, 14, s.clauseForm.clauses) := by
  intro A s
  obtain ⟨-, -, hlength, -, hunit, hread⟩ := clauseForm_size s
  have hnumbers : s.encode.1 = [3, 4] := by decide
  have hindex : s.assertionIndex 0 = 5 := by decide
  have hfourteen : s.clauseForm.clauses.length = 14 := by
    rw [hlength]
    decide
  have hfive : s.clauseForm.count = 5 := by decide
  have hfirst := hunit 0 3 (by rw [hnumbers]; rfl)
  rw [hindex] at hfirst
  rw [hfive, hfourteen] at hread
  exact ⟨hnumbers, hindex, hfirst, hfourteen, hread⟩

end Sequent

end Sequitur
