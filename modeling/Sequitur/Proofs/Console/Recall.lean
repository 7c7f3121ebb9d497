import Sequitur.Proofs.Console.Interleaving

/-!
# Sequitur.Proofs.Console.Recall

Going through the lines that have been executed, and back.

Of a console only a part matters for this, its `Memory`: the line in the prompt, the
lines that have been executed, the position of the recalled one, and the line that was
typed before.  `Change` lists what an event can do to it, and `change_update` is the only
place where the handling of events is opened.

A prompt does not take every text, so what is put into it need not be what stands there
then.  But a line that stood in a prompt once fits into it again (`Fits`), and no line is
ever recalled that did not.

Up and down are functions of the memory.  What `j` steps up and `k` steps down lead to
follows by induction on `j` and on `k` (`line_up_iterate`, `down_iterate`).
-/

namespace Sequitur

/-! ## What a prompt holds -/

theorem take_append_drop_sublist {α : Type} {m n : Nat} (h : m ≤ n) (l : List α) :
    (l.take m ++ l.drop n).Sublist l := by
  calc (l.take m ++ l.drop n).Sublist (l.take m ++ l.drop m) :=
        (List.drop_sublist_drop_left l h).append_left _
    _ = l := List.take_append_drop m l

namespace Prompt

variable {p : Prompt}

@[simp] theorem chars_scrolled (p : Prompt) : p.scrolled.chars = p.chars := by
  simp only [scrolled]
  split_ifs <;> rfl

@[simp] theorem cursor_scrolled (p : Prompt) : p.scrolled.cursor = p.cursor := by
  simp only [scrolled]
  split_ifs <;> rfl

@[simp] theorem chars_moveTo (n : Nat) (p : Prompt) : (p.moveTo n).chars = p.chars := by
  simp [moveTo]

@[simp] theorem cursor_moveTo (n : Nat) (p : Prompt) :
    (p.moveTo n).cursor = min n p.chars.length := by
  simp [moveTo]

@[simp] theorem chars_toEnd (p : Prompt) : p.toEnd.chars = p.chars := chars_moveTo _ p

@[simp] theorem chars_setChars (cs : List Char) (p : Prompt) :
    (p.setChars cs).chars = cs.take limit := by
  simp only [setChars, chars_scrolled]
  split <;> simp

/-! Moving over words changes no character. -/

@[simp] theorem chars_forwardWhile (kind : Char → Bool) (cs : List Char) (p : Prompt) :
    (forwardWhile kind cs p).chars = p.chars := by
  induction cs generalizing p with
  | nil => rfl
  | cons c cs ih =>
      rw [forwardWhile]
      split
      · rw [ih, chars_moveTo]
      · rfl

theorem le_cursor_forwardWhile {kind : Char → Bool} {cs : List Char} {n : Nat}
    (hcursor : n ≤ p.cursor) (hlength : n ≤ p.chars.length) :
    n ≤ (forwardWhile kind cs p).cursor := by
  induction cs generalizing p with
  | nil => exact hcursor
  | cons c cs ih =>
      rw [forwardWhile]
      split
      · apply ih
        · rw [cursor_moveTo]
          omega
        · rwa [chars_moveTo]
      · exact hcursor

@[simp] theorem chars_forward (kind : Char → Bool) (p : Prompt) :
    (p.forward kind).chars = p.chars := chars_forwardWhile kind _ p

theorem le_cursor_forward {kind : Char → Bool} {n : Nat} (hcursor : n ≤ p.cursor)
    (hlength : n ≤ p.chars.length) : n ≤ (p.forward kind).cursor :=
  le_cursor_forwardWhile hcursor hlength

@[simp] theorem chars_back (kind : Char → Bool) (p : Prompt) : (p.back kind).chars = p.chars := by
  rw [back]
  generalize (p.chars.take p.cursor).reverse = cs
  induction cs generalizing p with
  | nil => rfl
  | cons c cs ih =>
      rw [backWhile]
      split
      · rw [ih, chars_moveTo]
      · rfl

theorem backOnto_spec (cs : List Char) (p : Prompt) :
    (backOnto cs p).chars = p.chars ∧ (backOnto cs p).cursor ≤ p.cursor := by
  fun_induction backOnto cs p with
  | case1 p c d rest hc ih =>
      rw [chars_moveTo, cursor_moveTo] at ih
      exact ⟨ih.1, by omega⟩
  | case2 => exact ⟨rfl, Nat.le_refl _⟩
  | case3 => exact ⟨rfl, Nat.le_refl _⟩

theorem backThrough_spec (cs : List Char) (p : Prompt) :
    (backThrough cs p).chars = p.chars ∧ (backThrough cs p).cursor ≤ p.cursor + 1 := by
  fun_induction backThrough cs p with
  | case1 p c d rest hc ih =>
      rw [chars_moveTo, cursor_moveTo] at ih
      exact ⟨ih.1, by omega⟩
  | case2 p =>
      rw [chars_moveTo, cursor_moveTo]
      exact ⟨rfl, Nat.min_le_left _ _⟩
  | case3 => exact ⟨rfl, Nat.le_succ _⟩

theorem chars_deleteWordLeft_sublist (p : Prompt) :
    (p.deleteWordLeft).chars.Sublist p.chars := by
  simp only [deleteWordLeft]
  split
  · exact List.Sublist.refl _
  · next hsome =>
      obtain ⟨hchars, hcursor⟩ := backOnto_spec (p.moveTo (p.cursor - 1)).upToCursor
        (p.moveTo (p.cursor - 1))
      generalize backOnto _ _ = q at hchars hcursor ⊢
      obtain ⟨hchars', hcursor'⟩ := backThrough_spec q.upToCursor q
      rw [hchars', hchars, chars_moveTo]
      rw [cursor_moveTo] at hcursor
      simp only [Bool.or_eq_true, decide_eq_true_eq, not_or] at hsome
      apply take_append_drop_sublist
      omega

theorem chars_deleteWordRight_sublist (p : Prompt) :
    (p.deleteWordRight).chars.Sublist p.chars := by
  simp only [deleteWordRight]
  split
  · exact List.Sublist.refl _
  · next hinside =>
      simp only [chars_moveTo, chars_forward]
      apply take_append_drop_sublist
      apply le_cursor_forward _ (by simp; omega)
      apply le_cursor_forward
      · rw [cursor_moveTo]
        omega
      · rw [chars_moveTo]
        omega

/-- **Editing** only takes characters away. -/
theorem chars_edit_sublist (p : Prompt) (e : Edit) : (p.edit e).chars.Sublist p.chars := by
  cases e with
  | left | right | home | toEnd | wordLeft | wordRight | stay | ignore => simp [edit]
  | backspace =>
      simp only [edit, chars_moveTo]
      exact take_append_drop_sublist (Nat.sub_le _ 1) _
  | delete =>
      simp only [edit, chars_scrolled]
      exact take_append_drop_sublist (Nat.le_succ _) _
  | deleteWordLeft =>
      simp only [edit, chars_scrolled]
      exact chars_deleteWordLeft_sublist p
  | deleteWordRight =>
      simp only [edit, chars_scrolled]
      exact chars_deleteWordRight_sublist p
  | deleteBefore =>
      simp only [edit, chars_moveTo]
      exact List.drop_sublist _ _
  | deleteAfter =>
      simp only [edit, chars_toEnd]
      exact List.take_sublist _ _

/-! ## Lines that fit -/

/-- A text that can be put into a prompt without being changed. -/
def Fits (t : Text) : Prop :=
  ∃ cs : List Char, t = cs.map .char ∧ (∀ c ∈ cs, accepted c = [c]) ∧ cs.length ≤ limit

theorem Fits.of_sublist {t u : Text} (hu : Fits u) (h : t.Sublist u) : Fits t := by
  obtain ⟨cs, rfl, haccepted, hlength⟩ := hu
  obtain ⟨ds, hds, rfl⟩ := List.sublist_map_iff.mp h
  exact ⟨ds, rfl, fun c hc => haccepted c (hds.subset hc), hds.length_le.trans hlength⟩

theorem fits_nil : Fits [] := ⟨[], rfl, nofun, Nat.zero_le _⟩

theorem Fits.trim {t : Text} (h : Fits t) : Fits t.trim := by
  have hright : t.trim.Sublist t.trimLeft := by
    have hdrop := List.dropWhile_sublist (p := Glyph.isBlank) (l := t.trimLeft.reverse)
    simpa [Text.trim, Text.trimRight] using hdrop.reverse
  exact h.of_sublist (hright.trans (List.dropWhile_sublist _))

/-- **What fits is kept.** -/
theorem text_setText {t : Text} (h : Fits t) (p : Prompt) : (p.setText t).text = t := by
  obtain ⟨cs, rfl, haccepted, hlength⟩ := h
  have htypable : typable (cs.map .char) = cs := by
    rw [typable, List.flatMap_map]
    calc cs.flatMap accepted = cs.flatMap fun c => [c] := List.flatMap_congr haccepted
      _ = cs := List.flatMap_singleton' cs
  rw [text, setText, chars_setChars, htypable, List.take_of_length_le hlength]

theorem accepted_of_mem_typable {t : Text} {c : Char} (hc : c ∈ typable t) : accepted c = [c] := by
  obtain ⟨g, -, hg⟩ := List.mem_flatMap.mp hc
  cases g with
  | stray b => exact absurd hg List.not_mem_nil
  | char d =>
      simp only [accepted] at hg
      split at hg
      · obtain rfl := List.mem_singleton.mp hg
        decide
      · split at hg
        · exact absurd hg List.not_mem_nil
        · next hbreak hcontrol =>
            obtain rfl := List.mem_singleton.mp hg
            rw [accepted, if_neg hbreak, if_neg hcontrol]

theorem Fits.edit (h : Fits p.text) (e : Edit) : Fits (p.edit e).text :=
  h.of_sublist ((chars_edit_sublist p e).map _)

theorem Fits.type (h : Fits p.text) (t : Text) : Fits (p.type t).text := by
  obtain ⟨cs, hcs, haccepted, -⟩ := h
  obtain rfl : p.chars = cs := List.map_injective_iff.mpr (fun _ _ => Glyph.char.inj) hcs
  refine ⟨_, rfl, ?_, ?_⟩
  · intro c hc
    simp only [Prompt.type, chars_setChars] at hc
    have hmem := List.mem_of_mem_take hc
    simp only [List.mem_append] at hmem
    rcases hmem with (hbefore | hnew) | hafter
    · exact haccepted c (List.mem_of_mem_take hbefore)
    · exact accepted_of_mem_typable (List.mem_of_mem_take hnew)
    · exact haccepted c (List.mem_of_mem_drop hafter)
  · simp only [Prompt.type, chars_setChars]
    exact List.length_take_le _ _

end Prompt

/-! ## Memories -/

/-- What a console remembers of lines: the one in the prompt, those that have been
executed, the position of the recalled one, and the one that was typed before. -/
structure Memory where
  line : Text
  past : List Text
  recalled : Option Nat
  draft : Text

namespace Memory

/-- Puts the executed line at a position into the prompt. -/
def recallAt (i : Nat) (m : Memory) : Memory :=
  { m with recalled := some i, line := m.past[i]?.getD [] }

/-- Keeps the line in the prompt as the one that was typed. -/
def drafted (m : Memory) : Memory := { m with draft := m.line }

/-- Recalls the line before, or stays at the first one. -/
def up (m : Memory) : Memory :=
  if m.past.isEmpty then m
  else
    match m.recalled with
    | none => m.drafted.recallAt (m.past.length - 1)
    | some i => m.recallAt (i - 1)

/-- Recalls the line after, or goes back to the line that was typed. -/
def down (m : Memory) : Memory :=
  match m.recalled with
  | none => m
  | some i =>
    if i + 1 < m.past.length then m.recallAt (i + 1)
    else { m with recalled := none, line := m.draft }

/-- Executes the line in the prompt. -/
def submit (m : Memory) : Memory :=
  { m with
    line := []
    past := if m.line.trim.isEmpty then m.past else m.past ++ [m.line.trim]
    recalled := none }

/-- Every line fits into the prompt, and a line that is recalled exists. -/
structure Sound (m : Memory) : Prop where
  line_fits : Prompt.Fits m.line
  past_fits : ∀ line ∈ m.past, Prompt.Fits line
  draft_fits : Prompt.Fits m.draft
  recalled_lt : ∀ i, m.recalled = some i → i < m.past.length

/-- What an event can do: change the line in the prompt, execute it, or go up or down. -/
inductive Change (m : Memory) : Memory → Prop where
  | edited {line : Text} (h : Prompt.Fits line) : Change m { m with line }
  | submitted : Change m m.submit
  | up : Change m m.up
  | down : Change m m.down

variable {m m' : Memory}

theorem Sound.of_none (hline : Prompt.Fits m.line) (hpast : ∀ line ∈ m.past, Prompt.Fits line)
    (hdraft : Prompt.Fits m.draft) (hrecalled : m.recalled = none) : m.Sound where
  line_fits := hline
  past_fits := hpast
  draft_fits := hdraft
  recalled_lt := by simp [hrecalled]

theorem Sound.fits_getD (h : m.Sound) (i : Nat) : Prompt.Fits (m.past[i]?.getD []) := by
  cases hi : m.past[i]? with
  | none => exact Prompt.fits_nil
  | some line => exact h.past_fits line (List.mem_of_getElem? hi)

theorem Sound.recallAt (h : m.Sound) {i : Nat} (hi : i < m.past.length) : (m.recallAt i).Sound where
  line_fits := h.fits_getD i
  past_fits := h.past_fits
  draft_fits := h.draft_fits
  recalled_lt := by
    rintro _ ⟨⟩
    exact hi

theorem Sound.drafted (h : m.Sound) : m.drafted.Sound :=
  ⟨h.line_fits, h.past_fits, h.line_fits, h.recalled_lt⟩

theorem Sound.up (h : m.Sound) : m.up.Sound := by
  unfold Memory.up
  split
  · exact h
  · next hsome =>
      have hpos : 0 < m.past.length := by simpa [List.length_pos_iff] using hsome
      split
      · exact h.drafted.recallAt (i := m.past.length - 1) (Nat.sub_lt hpos Nat.one_pos)
      · next i hi =>
          have hlt := h.recalled_lt i hi
          exact h.recallAt (by omega)

theorem Sound.down (h : m.Sound) : m.down.Sound := by
  unfold Memory.down
  split
  · exact h
  · split
    · next hlt => exact h.recallAt hlt
    · exact .of_none h.draft_fits h.past_fits h.draft_fits rfl

theorem Sound.submit (h : m.Sound) : m.submit.Sound := by
  refine .of_none Prompt.fits_nil ?_ h.draft_fits rfl
  simp only [Memory.submit]
  split
  · exact h.past_fits
  · rw [List.forall_mem_append, List.forall_mem_singleton]
    exact ⟨h.past_fits, h.line_fits.trim⟩

/-- **One step** leaves a memory sound. -/
theorem Sound.change (h : m.Sound) (hchange : m.Change m') : m'.Sound := by
  cases hchange with
  | edited hline => exact ⟨hline, h.past_fits, h.draft_fits, h.recalled_lt⟩
  | submitted => exact h.submit
  | up => exact h.up
  | down => exact h.down

/-! Going up and down. -/

theorem up_of_nil (hnone : m.past = []) : m.up = m := by
  simp [up, hnone]

theorem up_of_idle (hsome : m.past ≠ []) (hidle : m.recalled = none) :
    m.up = m.drafted.recallAt (m.past.length - 1) := by
  simp [up, hsome, hidle]

theorem up_of_recalled (hsome : m.past ≠ []) {i : Nat} (hi : m.recalled = some i) :
    m.up = m.recallAt (i - 1) := by
  simp [up, hsome, hi]

/-- **Going up.**  It stops at the first line. -/
theorem up_iterate (hsome : m.past ≠ []) (hidle : m.recalled = none) (j : Nat) :
    up^[j + 1] m = m.drafted.recallAt (m.past.length - min (j + 1) m.past.length) := by
  have hpos : 0 < m.past.length := List.length_pos_iff.mpr hsome
  induction j with
  | zero => rw [Function.iterate_one, up_of_idle hsome hidle, Nat.min_eq_left hpos]
  | succ j ih =>
      have hstep (i : Nat) : (m.drafted.recallAt i).up = m.drafted.recallAt (i - 1) :=
        up_of_recalled (m := m.drafted.recallAt i) hsome rfl
      have hindex : m.past.length - min (j + 1) m.past.length - 1 =
          m.past.length - min (j + 1 + 1) m.past.length := by omega
      rw [Function.iterate_succ_apply', ih, hstep, hindex]

theorem down_of_idle (hidle : m.recalled = none) : m.down = m := by
  rw [down, hidle]

theorem down_of_lt {i : Nat} (hi : m.recalled = some i) (hlt : i + 1 < m.past.length) :
    m.down = m.recallAt (i + 1) := by
  simp [down, hi, hlt]

theorem down_of_not_lt {i : Nat} (hi : m.recalled = some i) (hlast : ¬ i + 1 < m.past.length) :
    m.down = { m with recalled := none, line := m.draft } := by
  simp [down, hi, hlast]

/-- **Going down.**  It leads back to the line that was typed and stops there. -/
theorem down_iterate {i k : Nat} (hi : i < m.past.length) (hk : m.past.length - i ≤ k) :
    down^[k] (m.recallAt i) = { m with recalled := none, line := m.draft } := by
  induction k generalizing i with
  | zero => omega
  | succ k ih =>
      rw [Function.iterate_succ_apply]
      by_cases hlt : i + 1 < m.past.length
      · rw [down_of_lt (m := m.recallAt i) rfl hlt]
        exact ih hlt (by omega)
      · rw [down_of_not_lt (m := m.recallAt i) rfl hlt]
        exact Function.iterate_fixed (down_of_idle rfl) k

/-- Going up and then down far enough. -/
theorem down_iterate_up_iterate (hsome : m.past ≠ []) (hidle : m.recalled = none) {j k : Nat}
    (hk : min j m.past.length ≤ k) :
    (down^[k] (up^[j] m)).recalled = none ∧ (down^[k] (up^[j] m)).line = m.line := by
  have hpos : 0 < m.past.length := List.length_pos_iff.mpr hsome
  cases j with
  | zero =>
      rw [Function.iterate_zero_apply, Function.iterate_fixed (down_of_idle hidle)]
      exact ⟨hidle, rfl⟩
  | succ j =>
      rw [up_iterate hsome hidle, down_iterate]
      · exact ⟨rfl, rfl⟩
      · change m.past.length - min (j + 1) m.past.length < m.past.length
        omega
      · change m.past.length - (m.past.length - min (j + 1) m.past.length) ≤ k
        omega

theorem getElem?_recall {i : Nat} (hi : i < m.past.length) :
    m.past[i]? = some (m.recallAt i).line := by
  simp [recallAt, hi]

/-- The line that going up shows, counted from the latest one. -/
theorem line_up_iterate (hsome : m.past ≠ []) (hidle : m.recalled = none) {i : Nat} (hi : 1 ≤ i) :
    m.past.reverse[min i m.past.length - 1]? = some (up^[i] m).line := by
  have hpos : 0 < m.past.length := List.length_pos_iff.mpr hsome
  obtain ⟨j, rfl⟩ : ∃ j, i = j + 1 := ⟨i - 1, by omega⟩
  have hindex : m.past.length - 1 - (min (j + 1) m.past.length - 1) =
      m.past.length - min (j + 1) m.past.length := by omega
  have hlt : m.past.length - min (j + 1) m.past.length < m.past.length := by omega
  rw [List.getElem?_reverse (by omega), hindex, up_iterate hsome hidle]
  exact getElem?_recall (m := m.drafted) hlt

/-- Going up shows the line at the position it leads to. -/
theorem Sound.line_up (h : m.Sound) {i : Nat} (hi : m.up.recalled = some i) :
    m.past[i]? = some m.up.line := by
  by_cases hnone : m.past = []
  · rw [up_of_nil hnone] at hi
    have hlt := h.recalled_lt i hi
    simp [hnone] at hlt
  · have hpos : 0 < m.past.length := List.length_pos_iff.mpr hnone
    cases hrecalled : m.recalled with
    | none =>
        rw [up_of_idle hnone hrecalled] at hi ⊢
        cases hi
        exact getElem?_recall (m := m.drafted) (Nat.sub_lt hpos Nat.one_pos)
    | some k =>
        have hlt := h.recalled_lt k hrecalled
        rw [up_of_recalled hnone hrecalled] at hi ⊢
        cases hi
        exact getElem?_recall (by omega)

/-- Going down shows the line at the position it leads to. -/
theorem line_down {i : Nat} (hi : m.down.recalled = some i) : m.past[i]? = some m.down.line := by
  cases hrecalled : m.recalled with
  | none =>
      rw [down_of_idle hrecalled, hrecalled] at hi
      contradiction
  | some k =>
      by_cases hlt : k + 1 < m.past.length
      · rw [down_of_lt hrecalled hlt] at hi ⊢
        cases hi
        exact getElem?_recall hlt
      · rw [down_of_not_lt hrecalled hlt] at hi
        contradiction

end Memory

/-! ## The memory of a console -/

namespace Console

variable {c : Console}

/-- What a console remembers of lines. -/
def memory (c : Console) : Memory := ⟨c.prompt.text, c.past, c.recalled, c.draft⟩

@[simp] theorem memory_refreshed (c : Console) : c.refreshed.memory = c.memory := by
  rw [refreshed]
  split <;> rfl

theorem memory_settle (o : Outcome) (c : Console) : (c.settle o).1.memory = c.memory := by
  cases o with
  | help | quit | finished => rfl
  | applied | solved | moved | next _ | negation _ | unicode _ | verdict _ | unneeded _ =>
      exact memory_refreshed _

theorem memory_execLine (line : Text) (c : Console) : (c.execLine line).1.memory = c.memory := by
  rw [execLine]
  split
  · rfl
  · exact memory_settle _ _

theorem memory_ask (q : Query) (c : Console) : (c.ask q).1.memory = c.memory := by
  rw [ask]
  split <;> rfl

theorem memory_submit (line : Text) (c : Console) :
    (c.submit line).1.memory = (c.noted line.trim).memory := by
  cases hquery : query? line.trim with
  | none =>
      rw [submit_of_query?_eq_none hquery]
      exact memory_execLine _ _
  | some q =>
      rw [submit_of_query? hquery]
      split
      · exact memory_execLine _ _
      · exact memory_ask _ _

theorem memory_putLine {line : Text} (h : Prompt.Fits line) (c : Console) :
    (c.putLine line).memory = { c.memory with line } := by
  have htext : ((c.prompt.setText line).toEnd).text = line := by
    rw [Prompt.text, Prompt.chars_toEnd]
    exact Prompt.text_setText h c.prompt
  simp only [memory, putLine, htext]

theorem memory_recallAt (h : c.memory.Sound) (i : Nat) :
    (c.recallAt i).memory = c.memory.recallAt i :=
  memory_putLine (h.fits_getD i) _

theorem memory_recallUp (h : c.memory.Sound) : c.recallUp.memory = c.memory.up := by
  by_cases hnone : c.past = []
  · have hsame : c.recallUp = c := by simp [recallUp, hnone]
    rw [hsame, Memory.up_of_nil hnone]
  · cases hrecalled : c.recalled with
    | none =>
        have hup : c.recallUp = { c with draft := c.prompt.text }.recallAt (c.past.length - 1) := by
          simp [recallUp, hnone, hrecalled]
        have hdrafted : { c with draft := c.prompt.text }.memory.Sound := h.drafted
        rw [hup, Memory.up_of_idle hnone hrecalled, memory_recallAt hdrafted]
        rfl
    | some i =>
        have hup : c.recallUp = c.recallAt (i - 1) := by
          simp [recallUp, hnone, hrecalled]
        rw [hup, Memory.up_of_recalled hnone hrecalled, memory_recallAt h]

theorem memory_recallDown (h : c.memory.Sound) : c.recallDown.memory = c.memory.down := by
  cases hrecalled : c.recalled with
  | none =>
      have hsame : c.recallDown = c := by simp [recallDown, hrecalled]
      rw [hsame, Memory.down_of_idle hrecalled]
  | some i =>
      by_cases hlt : i + 1 < c.past.length
      · have hdown : c.recallDown = c.recallAt (i + 1) := by
          simp [recallDown, hrecalled, hlt]
        rw [hdown, Memory.down_of_lt hrecalled hlt, memory_recallAt h]
      · have hdown : c.recallDown = { c with recalled := none }.putLine c.draft := by
          simp [recallDown, hrecalled, hlt]
        rw [hdown, Memory.down_of_not_lt hrecalled hlt]
        exact memory_putLine h.draft_fits _

/-- What leaves the lines alone is a change to the line there is. -/
theorem change_of_memory_eq {c' : Console} (h : c.memory.Sound) (hsame : c'.memory = c.memory) :
    c.memory.Change c'.memory := by
  rw [hsame]
  exact .edited h.line_fits

theorem change_promptKey (h : c.memory.Sound) (k : Key) :
    c.memory.Change (c.promptKey k).1.memory := by
  cases k with
  | enter =>
      have hempty : (c.prompt.setText []).text = [] := Prompt.text_setText Prompt.fits_nil c.prompt
      have hsubmit : (c.promptKey .enter).1.memory = c.memory.submit := by
        simp only [promptKey, memory_submit]
        simp only [memory, noted, Memory.submit, hempty]
        rfl
      rw [hsubmit]
      exact .submitted
  | up =>
      rw [promptKey, memory_recallUp h]
      exact .up
  | down =>
      rw [promptKey, memory_recallDown h]
      exact .down
  | escape | edit _ => exact .edited (h.line_fits.edit _)
  | pageUp | pageDown | interrupt | endOfInput => exact change_of_memory_eq h rfl

/-- **Every event makes one of the changes.** -/
theorem change_update (h : c.memory.Sound) (e : ConsoleEvent) :
    c.memory.Change (c.update e).1.memory := by
  cases e with
  | resize width height =>
      apply change_of_memory_eq h
      exact memory_refreshed _
  | answered result =>
      apply change_of_memory_eq h
      rw [update, answered_eq]
      rfl
  | typed t =>
      rw [update]
      split
      · exact change_of_memory_eq h rfl
      · rw [typed]
        split
        · exact .edited (h.line_fits.edit _)
        · exact .edited (h.line_fits.type _)
  | key k =>
      rw [update]
      split
      · apply change_of_memory_eq h
        cases k <;> rfl
      · exact change_promptKey h k

/-! ## All runs -/

/-- The console after events. -/
def after (c : Console) (es : List ConsoleEvent) : Console :=
  es.foldl (fun c e => (c.update e).1) c

theorem after_cons (c : Console) (e : ConsoleEvent) (es : List ConsoleEvent) :
    c.after (e :: es) = (c.update e).1.after es := rfl

/-- The console after a key has been pressed a number of times. -/
def press (k : Key) (n : Nat) (c : Console) : Console := c.after (List.replicate n (.key k))

theorem press_succ (k : Key) (n : Nat) (c : Console) :
    c.press k (n + 1) = (c.update (.key k)).1.press k n := by
  rw [press, List.replicate_succ, after_cons, press]

theorem sound_start (s : Session) : (start s).memory.Sound :=
  .of_none Prompt.fits_nil (List.forall_mem_nil _) Prompt.fits_nil rfl

theorem sound_after (h : c.memory.Sound) (es : List ConsoleEvent) : (c.after es).memory.Sound := by
  induction es generalizing c with
  | nil => exact h
  | cons e es ih => exact ih (h.change (change_update h e))

@[simp] theorem showsHelp_recallUp (c : Console) : c.recallUp.showsHelp = c.showsHelp := by
  rw [recallUp]
  split
  · rfl
  · split <;> rfl

@[simp] theorem showsHelp_recallDown (c : Console) : c.recallDown.showsHelp = c.showsHelp := by
  rw [recallDown]
  split
  · rfl
  · split <;> rfl

theorem memory_press_up (h : c.memory.Sound) (hhelp : c.showsHelp = false) (n : Nat) :
    (c.press .up n).memory = Memory.up^[n] c.memory ∧ (c.press .up n).showsHelp = false := by
  induction n generalizing c with
  | zero => exact ⟨rfl, hhelp⟩
  | succ n ih =>
      have hkey : (c.update (.key .up)).1 = c.recallUp := by
        simp [update, hhelp, promptKey]
      have hmemory := memory_recallUp h
      rw [press_succ, hkey, Function.iterate_succ_apply, ← hmemory]
      exact ih (hmemory ▸ h.up) (by rw [showsHelp_recallUp, hhelp])

theorem memory_press_down (h : c.memory.Sound) (hhelp : c.showsHelp = false) (n : Nat) :
    (c.press .down n).memory = Memory.down^[n] c.memory := by
  induction n generalizing c with
  | zero => rfl
  | succ n ih =>
      have hkey : (c.update (.key .down)).1 = c.recallDown := by
        simp [update, hhelp, promptKey]
      have hmemory := memory_recallDown h
      rw [press_succ, hkey, Function.iterate_succ_apply, ← hmemory]
      exact ih (hmemory ▸ h.down) (by rw [showsHelp_recallDown, hhelp])

/-- **Recalling is safe and can be undone.**  After any events, a line that is being
recalled is one of those that have been executed, and going up or down shows the line at
the position it moves to.  If none is being recalled, the `i`th step up shows the `i`th
latest line, or the first one if there are not so many; and as many steps down as there
were lines to go up, or more, bring back the line that had been typed. -/
theorem recall_returns (s : Session) (es : List ConsoleEvent) :
    let c := (start s).after es
    (∀ i, c.recalled = some i → i < c.past.length) ∧
    (c.showsHelp = false → ∀ k ∈ [Key.up, Key.down], ∀ i, (c.press k 1).recalled = some i →
      c.past[i]? = some (c.press k 1).prompt.text) ∧
    (c.showsHelp = false → c.recalled = none → c.past ≠ [] → ∀ j,
      (∀ i, 1 ≤ i → i ≤ j →
        c.past.reverse[min i c.past.length - 1]? = some (c.press .up i).prompt.text) ∧
      ∀ k, min j c.past.length ≤ k →
        ((c.press .up j).press .down k).recalled = none ∧
        ((c.press .up j).press .down k).prompt.text = c.prompt.text) := by
  intro c
  have hsound : c.memory.Sound := sound_after (sound_start s) es
  refine ⟨hsound.recalled_lt, ?_, ?_⟩
  · intro hhelp k hk i hi
    simp only [List.mem_cons, List.not_mem_nil, or_false] at hk
    rcases hk with rfl | rfl
    · have hup : (c.press .up 1).memory = c.memory.up := (memory_press_up hsound hhelp 1).1
      have hline := hsound.line_up (i := i) (by rw [← hup]; exact hi)
      rw [← hup] at hline
      exact hline
    · have hdown : (c.press .down 1).memory = c.memory.down := memory_press_down hsound hhelp 1
      have hline := Memory.line_down (m := c.memory) (i := i) (by rw [← hdown]; exact hi)
      rw [← hdown] at hline
      exact hline
  · intro hhelp hidle hsome j
    constructor
    · intro i hi hij
      have hup := (memory_press_up hsound hhelp i).1
      have hline := Memory.line_up_iterate (m := c.memory) hsome hidle hi
      rw [← hup] at hline
      exact hline
    · intro k hk
      obtain ⟨hup, hhelp'⟩ := memory_press_up hsound hhelp j
      have hsound' : (c.press .up j).memory.Sound := sound_after hsound _
      have hdown := memory_press_down hsound' hhelp' k
      have hback := Memory.down_iterate_up_iterate (m := c.memory) hsome hidle hk
      rw [← hup, ← hdown] at hback
      exact hback

/-- Two lines have been executed and a third one is being typed.  Going up three times
stops at the first line, and going down twice is enough to come back. -/
theorem recall_returns_two_lines :
    let A : Formula := .var ⟨⟨'A', rfl⟩, []⟩
    let q : Sequent := ⟨[A], .impl A A⟩
    let s : Session := ⟨[q], 0, .start (.goal q), { display := { style := .default } }⟩
    let c := (start s).after
      [.typed (Text.ofString " aff 0"), .key .enter, .typed (Text.ofString ":n"), .key .enter,
        .typed (Text.ofString "hyp"), .key .escape]
    c.showsHelp = false ∧ c.recalled = none ∧
      c.past = [Text.ofString "aff 0", Text.ofString ":n"] ∧
      (c.press .up 3).prompt.text = Text.ofString "aff 0" ∧
      ((c.press .up 3).press .down 2).recalled = none ∧
      ((c.press .up 3).press .down 2).prompt.text = Text.ofString "hyp" := by
  intro A q s c
  have hhelp : c.showsHelp = false := by decide +kernel
  have hidle : c.recalled = none := by decide +kernel
  have hpast : c.past = [Text.ofString "aff 0", Text.ofString ":n"] := by decide +kernel
  have hline : c.prompt.text = Text.ofString "hyp" := by decide +kernel
  obtain ⟨-, -, hreturns⟩ := recall_returns s
    [.typed (Text.ofString " aff 0"), .key .enter, .typed (Text.ofString ":n"), .key .enter,
      .typed (Text.ofString "hyp"), .key .escape]
  obtain ⟨hup, hdown⟩ := hreturns hhelp hidle (hpast ▸ List.cons_ne_nil _ _) 3
  have hfirst : c.past.reverse[min 3 c.past.length - 1]? = some (c.press .up 3).prompt.text :=
    hup 3 (by decide) (Nat.le_refl 3)
  obtain ⟨hrecalled, htext⟩ := hdown 2 (hpast ▸ Nat.le_refl 2)
  rw [hpast] at hfirst
  exact ⟨hhelp, hidle, hpast, (Option.some.inj hfirst).symm, hrecalled, htext.trans hline⟩

end Console

end Sequitur
