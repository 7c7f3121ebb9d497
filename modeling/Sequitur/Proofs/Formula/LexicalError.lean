import Mathlib.Data.Bool.AllAny
import Sequitur.Proofs.Formula.Grammar

/-!
# Sequitur.Proofs.Formula.LexicalError

Where the scanner stops, and whether the text could have gone on from there.

A text is viable from a state if something can be put behind it that makes the
scanner succeed.  What comes later only decides whether an operator is cut short, so
viability can be followed one glyph at a time (`viable_cons_iff`).  A glyph that
starts nothing, or that does not belong into an operator, ends it: what stands before
the glyph is viable and what ends with the glyph is not (`scanFrom_eq_error`).

An operator that the end of the text cuts short is reported before its characters
are compared.  So the text up to its end need not be viable there: if two characters
are missing and one is left, this may be a wrong one.
-/

namespace Sequitur

/-! ## Sizes -/

namespace Text

theorem shorterThan_iff {n : Nat} {t : Text} : t.shorterThan n = true ↔ t.size < n := by
  induction t generalizing n with
  | nil => cases n <;> simp [shorterThan, size]
  | cons g t ih =>
      cases n with
      | zero => simp [shorterThan]
      | succ n =>
          rw [shorterThan, ih, size]
          omega

theorem length_le_size (t : Text) : t.length ≤ t.size := by
  induction t with
  | nil => exact Nat.le_refl 0
  | cons g t ih =>
      have hg : 1 ≤ g.size := by
        cases g with
        | char c => exact c.utf8Size_pos
        | stray b => exact Nat.le_refl 1
      rw [List.length_cons, size]
      omega

theorem size_append (t u : Text) : size (t ++ u) = t.size + u.size := by
  induction t with
  | nil => simp [size]
  | cons g t ih => rw [List.cons_append, size, ih, size, Nat.add_assoc]

end Text

namespace Token

variable {pos : Nat} {g : Glyph} {rest : Text} {state state' : Pending} {new : List Token}
  {e : LexError}

/-! ## What one step depends on -/

theorem step_operator_cut {c next : Char} {more : List Char} {op : Connective}
    (h : Connective.starting? c = some (op, next, more)) (pos : Nat)
    (hrest : rest.shorterThan (more.length + 1) = true) :
    step pos rest (.char c) .gap = .error ⟨pos, .endInOperator⟩ := by
  obtain ⟨hgap, hname, hsymbol, -⟩ := starting?_eq_some h
  have hletter := isLetter_eq_false_of_not_isNameChar hname
  rw [step, start, if_neg (by simp [hgap]), dif_neg (by simp [hletter]), hsymbol, h]
  simp only [hrest, if_true]

/-- Behind a name, a glyph that does not belong to it starts afresh. -/
theorem step_name {begun : Nat} {first : Letter} {later : List NameChar}
    (h : nameChar? g = none) (pos : Nat) (rest : Text) :
    step pos rest g (.name begun first later) =
      (step pos rest g .gap).map fun r => (⟨.name ⟨first, later.reverse⟩, begun⟩ :: r.1, r.2) := by
  simp only [step, h]
  cases start pos rest g <;> rfl

/-- Behind a name, a glyph goes on with it or starts afresh. -/
theorem step_name_eq_ok {begun : Nat} {first : Letter} {later : List NameChar}
    (h : step pos rest g (.name begun first later) = .ok (new, state')) :
    (∃ c, nameChar? g = some c ∧ new = [] ∧ state' = .name begun first (c :: later)) ∨
    (nameChar? g = none ∧ ∃ new', step pos rest g .gap = .ok (new', state') ∧
      new = ⟨.name ⟨first, later.reverse⟩, begun⟩ :: new') := by
  cases hname : nameChar? g with
  | some c =>
      simp only [step, hname] at h
      cases h
      exact .inl ⟨c, rfl, rfl, rfl⟩
  | none =>
      rw [step_name hname] at h
      cases hok : step pos rest g .gap with
      | error e => rw [hok] at h; contradiction
      | ok r =>
          rw [hok] at h
          cases h
          exact .inr ⟨rfl, r.1, rfl, rfl⟩

/-- An operator starts here, and it is cut short if this comes next. -/
def CutShort (pos : Nat) (g : Glyph) (state' : Pending) (rest : Text) : Prop :=
  ∃ c op next more, g = .char c ∧ Connective.starting? c = some (op, next, more) ∧
    state' = .operator pos op next more ∧ rest.size ≤ more.length

/-- **What comes next** only decides whether an operator is cut short. -/
theorem step_rest (h : step pos rest g state = .ok (new, state')) (rest' : Text) :
    step pos rest' g state = .ok (new, state') ∨
      step pos rest' g state = .error ⟨pos, .endInOperator⟩ ∧ CutShort pos g state' rest' := by
  have hgap : ∀ {new}, step pos rest g .gap = .ok (new, state') →
      step pos rest' g .gap = .ok (new, state') ∨
        step pos rest' g .gap = .error ⟨pos, .endInOperator⟩ ∧ CutShort pos g state' rest' := by
    intro new hok
    rcases step_gap_eq_ok hok with ⟨c, rfl, hc, rfl, rfl⟩ | ⟨c, rfl, rfl, rfl⟩ |
      ⟨c, l, rfl, hc, rfl, rfl⟩ | ⟨c, op, next, more, rfl, hc, rfl, rfl⟩
    · exact .inl (step_gap hc pos rest')
    · exact .inl (step_letter c pos rest')
    · exact .inl (step_symbol hc pos rest')
    · cases hcut : rest'.shorterThan (more.length + 1) with
      | false => exact .inl (step_operator hc pos hcut)
      | true =>
          have hsize := Text.shorterThan_iff.mp hcut
          exact .inr ⟨step_operator_cut hc pos hcut, c, op, next, more, rfl, hc, rfl, by omega⟩
  cases state with
  | gap => exact hgap h
  | name begun first later =>
      rcases step_name_eq_ok h with ⟨c, hc, rfl, rfl⟩ | ⟨hnone, new', hok, rfl⟩
      · exact .inl (by simp only [step, hc])
      · rw [step_name hnone]
        rcases hgap hok with hsame | ⟨hcut, hshort⟩
        · exact .inl (by rw [hsame]; rfl)
        · exact .inr ⟨by rw [hcut]; rfl, hshort⟩
  | operator begun op next more => exact .inl h

/-- How a glyph that starts afresh can fail. -/
theorem step_gap_eq_error (h : step pos rest g .gap = .error e) :
    (e = ⟨pos, .unexpected g⟩ ∧ ∀ rest', step pos rest' g .gap = .error e) ∨
    (e = ⟨pos, .endInOperator⟩ ∧ ∃ state', CutShort pos g state' rest) := by
  cases g with
  | stray b =>
      cases h
      exact .inl ⟨rfl, fun _ => rfl⟩
  | char c =>
      rw [step, start] at h
      split at h
      · contradiction
      · next hgap =>
          split at h
          · contradiction
          · next hletter =>
              split at h
              · contradiction
              · next op next more hsymbol hop =>
                  split at h
                  · next hcut =>
                      have hsize := Text.shorterThan_iff.mp hcut
                      cases h
                      exact .inr ⟨rfl, _, c, op, next, more, rfl, hop, rfl, by omega⟩
                  · contradiction
              · next hsymbol hop =>
                  cases h
                  refine .inl ⟨rfl, fun rest' => ?_⟩
                  rw [step, start, if_neg hgap, dif_neg hletter, hsymbol, hop]

/-- An operator that is cut short could have been begun. -/
theorem CutShort.exists_step (h : CutShort pos g state' rest) :
    ∃ rest', step pos rest' g .gap = .ok ([], state') := by
  obtain ⟨c, op, next, more, rfl, hc, rfl, -⟩ := h
  have hlong : Text.shorterThan (more.length + 1) ((next :: more).map .char ++ []) = false :=
    Text.shorterThan_map_char_append (by simp) []
  exact ⟨_, step_operator hc pos hlong⟩

/-- **How a step fails.**  Either no text makes the glyph right, or an operator starts
with it and is cut short. -/
theorem step_eq_error (h : step pos rest g state = .error e) :
    (e.offset = pos ∧ (e.fault = .inOperator ∨ e.fault = .unexpected g) ∧
      ∀ rest', step pos rest' g state = .error e) ∨
    (e = ⟨pos, .endInOperator⟩ ∧ ∃ state', CutShort pos g state' rest ∧
      ∃ rest' new, step pos rest' g state = .ok (new, state')) := by
  cases state with
  | gap =>
      rcases step_gap_eq_error h with ⟨rfl, hall⟩ | ⟨he, state', hcut⟩
      · exact .inl ⟨rfl, .inr rfl, hall⟩
      · obtain ⟨rest', hok⟩ := hcut.exists_step
        exact .inr ⟨he, state', hcut, rest', [], hok⟩
  | name begun first later =>
      cases hname : nameChar? g with
      | some c =>
          simp only [step, hname] at h
          contradiction
      | none =>
          simp only [step_name hname] at h ⊢
          cases herror : step pos rest g .gap with
          | ok r => rw [herror] at h; contradiction
          | error e' =>
              rw [herror] at h
              cases h
              rcases step_gap_eq_error herror with ⟨rfl, hall⟩ | ⟨he, state', hcut⟩
              · exact .inl ⟨rfl, .inr rfl, fun rest' => by rw [hall rest']; rfl⟩
              · obtain ⟨rest', hok⟩ := hcut.exists_step
                exact .inr ⟨he, state', hcut, rest', _, by rw [hok]; rfl⟩
  | operator begun op next more =>
      simp only [step] at h ⊢
      split at h
      · cases more <;> contradiction
      · next hg =>
          cases h
          exact .inl ⟨rfl, .inl rfl, fun _ => if_neg hg⟩

/-! ## Viable texts -/

/-- Whether something can be put behind a text so that the scanner succeeds. -/
def Viable (pos : Nat) (state : Pending) (t : Text) : Prop :=
  ∃ more tokens, scanFrom pos state (t ++ more) = .ok tokens

/-- In the midst of an operator, what is missing of it must come next. -/
theorem viable_operator_iff {begun : Nat} {op : Connective} {next : Char} {more : List Char}
    (hshort : rest.size ≤ more.length) :
    Viable pos (.operator begun op next more) rest ↔ rest <+: (next :: more).map .char := by
  constructor
  · rintro ⟨later, tokens, hscan⟩
    obtain ⟨ps, -, htext, -⟩ := completes_of_scanFrom hscan
    refine List.prefix_of_prefix_length_le (List.prefix_append rest later)
      ⟨_, htext⟩ ?_
    have hlength := Text.length_le_size rest
    rw [List.length_map, List.length_cons]
    omega
  · rintro ⟨later, hlater⟩
    refine ⟨later, [⟨.op op, begun⟩], ?_⟩
    rw [hlater, ← List.append_nil ((next :: more).map Glyph.char), scanFrom_operator]
    rfl

/-- From any state the scanner can be brought to succeed. -/
theorem viable_nil (pos : Nat) (state : Pending) : Viable pos state [] := by
  cases state with
  | gap => exact ⟨[], [], rfl⟩
  | name begun first later => exact ⟨[], _, rfl⟩
  | operator begun op next more =>
      exact (viable_operator_iff (Nat.zero_le _)).mpr (List.nil_prefix)

/-- **Viability can be followed one glyph at a time.** -/
theorem viable_cons_iff (h : step pos rest g state = .ok (new, state')) (t : Text) :
    Viable pos state (g :: t) ↔ Viable (pos + g.size) state' t := by
  constructor
  · rintro ⟨more, tokens, hscan⟩
    rcases step_rest h (t ++ more) with hsame | ⟨hcut, -⟩
    · rw [List.cons_append, scanFrom_cons hsame] at hscan
      cases hrest : scanFrom (pos + g.size) state' (t ++ more) with
      | error e => rw [hrest] at hscan; contradiction
      | ok tokens' => exact ⟨more, tokens', hrest⟩
    · rw [List.cons_append, scanFrom_cons_error hcut] at hscan
      contradiction
  · rintro ⟨more, tokens, hscan⟩
    rcases step_rest h (t ++ more) with hsame | ⟨-, c, op, next, cs, -, -, hstate, hshort⟩
    · refine ⟨more, new ++ tokens, ?_⟩
      rw [List.cons_append, scanFrom_cons hsame, hscan]
      rfl
    · -- an operator that is completed is not cut short
      obtain rfl : state' = .operator pos op next cs := hstate
      obtain ⟨ps, -, htext, -⟩ := completes_of_scanFrom hscan
      have hlong := Text.length_le_size ((next :: cs).map Glyph.char)
      rw [← htext, Text.size_append] at hshort
      rw [List.length_map, List.length_cons] at hlong
      omega

theorem not_viable_cons (h : ∀ rest, step pos rest g state = .error e) (t : Text) :
    ¬ Viable pos state (g :: t) := by
  rintro ⟨more, tokens, hscan⟩
  rw [List.cons_append, scanFrom_cons_error (h _)] at hscan
  contradiction

/-- A state that the rest of the text does not leave hanging: if an operator has been
begun, there are bytes enough for what is missing of it, which is in ASCII. -/
def Ample (t : Text) : Pending → Prop
  | .operator _ _ next more => (∀ c ∈ next :: more, c.utf8Size = 1) ∧ more.length < t.size
  | _ => True

theorem utf8Size_of_starting? {c next : Char} {more : List Char} {op : Connective}
    (h : Connective.starting? c = some (op, next, more)) : ∀ d ∈ next :: more, d.utf8Size = 1 := by
  have hall : ((next :: more).all fun d => d.utf8Size = 1) = true := by
    unfold Connective.starting? at h
    split at h <;> cases h <;> decide
  exact List.all_iff_forall_prop.mp hall

theorem ample_of_step_gap (h : step pos rest g .gap = .ok (new, state')) : Ample rest state' := by
  rcases step_gap_eq_ok h with ⟨c, -, -, -, rfl⟩ | ⟨c, -, -, rfl⟩ | ⟨c, l, -, -, -, rfl⟩ |
    ⟨c, op, next, more, rfl, hc, -, rfl⟩
  · trivial
  · trivial
  · trivial
  · refine ⟨utf8Size_of_starting? hc, Nat.lt_of_not_le fun hshort => ?_⟩
    have hcut := step_operator_cut hc pos (Text.shorterThan_iff.mpr (Nat.lt_succ_of_le hshort))
    rw [hcut] at h
    contradiction

/-- **The scanner never begins an operator that the end of the text cuts short.** -/
theorem ample_of_step (h : step pos rest g state = .ok (new, state'))
    (hstate : Ample (g :: rest) state) : Ample rest state' := by
  cases state with
  | gap => exact ample_of_step_gap h
  | name begun first later =>
      rcases step_name_eq_ok h with ⟨c, -, -, rfl⟩ | ⟨-, new', hok, -⟩
      · trivial
      · exact ample_of_step_gap hok
  | operator begun op next more =>
      simp only [step] at h
      split at h
      · next hg =>
          subst hg
          cases more with
          | nil =>
              cases h
              trivial
          | cons next' more =>
              cases h
              obtain ⟨hascii, hlong⟩ := hstate
              obtain ⟨hnext, hmore⟩ := List.forall_mem_cons.mp hascii
              refine ⟨hmore, ?_⟩
              rw [Text.size, Glyph.size, hnext, List.length_cons] at hlong
              omega
      · contradiction

/-! ## Where the scanner stops -/

/-- **Where the scanner stops.**  The error is reported at a glyph.  If this is a wrong
one, the text before it is viable, and with it, it no longer is.  Otherwise an operator
starts with it and less is left of the text than of the operator; then the text is viable
if what is left are the next characters of the operator. -/
theorem scanFrom_eq_error {t : Text} (h : scanFrom pos state t = .error e)
    (hstate : Ample t state) :
    ∃ (before : Text) (g : Glyph) (after : Text), t = before ++ g :: after ∧
      e.offset = pos + before.size ∧
      Viable pos state before ∧
      ((e.fault = .inOperator ∨ e.fault = .unexpected g) ∧ ¬ Viable pos state (before ++ [g]) ∨
        e.fault = .endInOperator ∧
          ∃ c op next more, g = .char c ∧ Connective.starting? c = some (op, next, more) ∧
            after.size ≤ more.length ∧
            (Viable pos state t ↔ after <+: (next :: more).map .char)) := by
  induction t generalizing pos state with
  | nil =>
      cases state with
      | gap => contradiction
      | name begun first later => contradiction
      | operator begun op next more =>
          -- an operator is only begun if the text has bytes enough for it
          exact absurd hstate.2 (Nat.not_lt_zero _)
  | cons g rest ih =>
      cases hstep : step pos rest g state with
      | error e' =>
          rw [scanFrom_cons_error hstep] at h
          cases h
          refine ⟨[], g, rest, rfl, ?_⟩
          rcases step_eq_error hstep with ⟨hpos, hfault, hall⟩ | ⟨rfl, state', hcut, rest', new, hok⟩
          · exact ⟨hpos, viable_nil pos state, .inl ⟨hfault, not_viable_cons hall []⟩⟩
          · obtain ⟨c, op, next, more, hg, hc, rfl, hshort⟩ := hcut
            refine ⟨rfl, viable_nil pos state, .inr ⟨rfl, c, op, next, more, hg, hc, hshort, ?_⟩⟩
            rw [viable_cons_iff hok, viable_operator_iff hshort]
      | ok r =>
          rw [scanFrom_cons hstep] at h
          cases hrest : scanFrom (pos + g.size) r.2 rest with
          | ok tokens => rw [hrest] at h; contradiction
          | error e' =>
              rw [hrest] at h
              cases h
              have hviable := viable_cons_iff hstep
              obtain ⟨before, g', after, rfl, hoffset, hbefore, hcases⟩ :=
                ih hrest (ample_of_step hstep hstate)
              refine ⟨g :: before, g', after, rfl, ?_, (hviable before).mpr hbefore, ?_⟩
              · rw [hoffset, Text.size, Nat.add_assoc]
              · rw [List.cons_append, hviable, hviable]
                exact hcases

end Token

/-! ## Strings -/

/-- Whether something can be put behind a string to make a text of lexemes. -/
def Extendable (s : String) : Prop := ∃ more ls, Lexes (s.toUTF8.data.toList ++ more) ls

theorem extendable_iff {s : String} : Extendable s ↔ Token.Viable 0 .gap (Text.ofString s) := by
  constructor
  · rintro ⟨more, ls, hlexes⟩
    obtain ⟨tokens, hscan, -⟩ := lexes_iff.mp hlexes
    rw [Text.toUTF8_eq] at hscan
    refine ⟨Text.ofBytes more, tokens, ?_⟩
    rw [Text.ofString, ← Text.ofBytes_bytes_append]
    exact hscan
  · rintro ⟨more, tokens, hscan⟩
    obtain ⟨w, hw, -⟩ := Token.scan_eq_ok_iff.mp hscan
    refine ⟨more.bytes, w.lexemes, w, ?_, rfl⟩
    rw [hw, Text.toUTF8_eq, Text.bytes, List.flatMap_append]
    rfl

theorem utf8ByteSize_eq (s : String) : s.utf8ByteSize = (Text.ofString s).size := by
  rw [← Text.length_bytes, ← Text.toUTF8_eq]
  rfl

/-- Less than an operator needs is a beginning of it, unless it is a wrong character
where the second one of three should be. -/
theorem prefix_operator_iff {c next : Char} {more after : List Char} {op : Connective}
    (h : Connective.starting? c = some (op, next, more)) (hshort : after.length ≤ more.length) :
    after <+: next :: more ↔ ¬ ∃ x, c = '<' ∧ after = [x] ∧ x ≠ '-' := by
  unfold Connective.starting? at h
  split at h <;> cases h
  case h_4.refl =>
    -- of `<->` two characters are missing, and there may be one
    cases after with
    | nil => simp
    | cons x after =>
        rw [List.length_cons, List.length_singleton] at hshort
        obtain rfl : after = [] := List.length_eq_zero_iff.mp (by omega)
        simp
  all_goals
    obtain rfl : after = [] := List.length_eq_zero_iff.mp (Nat.le_zero.mp hshort)
    simp

/-- A string of which a text is made is cut where the text is. -/
theorem exists_cut {s : String} {left right : Text} {g : Glyph}
    (h : Text.ofString s = left ++ g :: right) :
    ∃ (before : String) (c : Char) (after : String), s = before.push c ++ after ∧
      Text.ofString before = left ∧ g = .char c ∧ Text.ofString after = right := by
  obtain ⟨cs, ds, hs, rfl, hds⟩ := List.map_eq_append_iff.mp h
  obtain ⟨c, es, rfl, rfl, rfl⟩ := List.map_eq_cons_iff.mp hds
  refine ⟨String.ofList cs, c, String.ofList es, ?_, by simp [Text.ofString], rfl,
    by simp [Text.ofString]⟩
  apply String.toList_inj.mp
  simp [hs]

/-- **A lexical error points at the culprit.**  It is reported at a character of the
text, which has offset `e.offset`.  What stands before this character can be extended to a
text that is split into lexemes.  If the character is said to be unexpected, by itself or
in an operator, nothing that starts with the text up to and with it can be split.  If the
text is said to end in an operator, one starts at the character and too little is left for
it, and the text can be extended, with one exception: what is left is a single
character behind `<` that is no dash. -/
theorem scan_stops_at_culprit (s : String) (e : LexError)
    (h : Token.scan (Text.ofString s) = .error e) :
    ∃ (before : String) (c : Char) (after : String), s = before.push c ++ after ∧
      e.offset = before.utf8ByteSize ∧ e.offset < s.utf8ByteSize ∧ Extendable before ∧
      ((e.fault = .inOperator ∨ e.fault = .unexpected (.char c)) ∧
          ¬ Extendable (before.push c) ∨
        e.fault = .endInOperator ∧
          (∃ op cs, c :: cs ∈ (Lexeme.op op).spellings ∧ after.utf8ByteSize < cs.length) ∧
          (Extendable s ↔ ¬ ∃ x, c = '<' ∧ after = String.singleton x ∧ x ≠ '-')) := by
  obtain ⟨left, g, right, ht, hoffset, hleft, hcases⟩ := Token.scanFrom_eq_error h trivial
  obtain ⟨before, c, after, hs, rfl, rfl, rfl⟩ := exists_cut ht
  rw [Nat.zero_add, ← utf8ByteSize_eq] at hoffset
  have hinside : e.offset < s.utf8ByteSize := by
    have hc := c.utf8Size_pos
    rw [hoffset, hs]
    simp
    omega
  refine ⟨before, c, after, hs, hoffset, hinside, extendable_iff.mpr hleft, ?_⟩
  rcases hcases with ⟨hfault, hstops⟩ | ⟨hfault, c', op, next, more, hc', hstarts, hshort, hviable⟩
  · refine .inl ⟨hfault, ?_⟩
    rw [extendable_iff, Text.ofString, String.toList_push, List.map_append]
    exact hstops
  · cases hc'
    have hspelled := (starting?_eq_some hstarts).2.2.2
    have hafter : after.toList.length ≤ more.length := by
      have hlength := Text.length_le_size (Text.ofString after)
      rw [Text.ofString, List.length_map] at hlength
      exact Nat.le_trans hlength hshort
    have hwrong (x : Char) : after = String.singleton x ↔ after.toList = [x] := by
      rw [← String.toList_inj, String.toList_singleton]
    refine .inr ⟨hfault, ⟨op, next :: more, hspelled, ?_⟩, ?_⟩
    · rw [utf8ByteSize_eq, List.length_cons]
      omega
    · rw [extendable_iff]
      simp only [hwrong]
      rw [← prefix_operator_iff hstarts hafter]
      exact hviable.trans (List.prefix_map_iff_of_injective fun _ _ hg => Glyph.char.inj hg)

/-- The third character of the operator in `¬A <- B` is wrong; it has offset 6, the
negation sign taking two bytes. -/
theorem scan_stops_at_culprit_arrow :
    Token.scan (Text.ofString "¬A <- B") = .error ⟨6, .inOperator⟩ ∧
      ∃ (before : String) (c : Char) (after : String), "¬A <- B" = before.push c ++ after ∧
        before.utf8ByteSize = 6 ∧ Extendable before ∧ ¬ Extendable (before.push c) := by
  have hscan : Token.scan (Text.ofString "¬A <- B") = .error ⟨6, .inOperator⟩ := rfl
  obtain ⟨before, c, after, hs, hoffset, -, hbefore, ⟨-, hstops⟩ | ⟨hfault, -⟩⟩ :=
    scan_stops_at_culprit "¬A <- B" ⟨6, .inOperator⟩ hscan
  · exact ⟨hscan, before, c, after, hs, hoffset.symm, hbefore, hstops⟩
  · contradiction

/-- The text `<x` is said to end in an operator, though no operator starts like this. -/
theorem scan_blames_end_of_hopeless :
    Token.scan (Text.ofString "<x") = .error ⟨0, .endInOperator⟩ ∧ ¬ Extendable "<x" := by
  refine ⟨rfl, ?_⟩
  have hstep : Token.step 0 [.char '-', .char '>'] (.char '<') .gap =
      .ok ([], .operator 0 .equiv '-' ['>']) := rfl
  rw [extendable_iff]
  change ¬ Token.Viable 0 .gap [.char '<', .char 'x']
  rw [Token.viable_cons_iff hstep, Token.viable_operator_iff (by decide)]
  decide

end Sequitur
