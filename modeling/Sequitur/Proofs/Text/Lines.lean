import Sequitur.Proofs.Text.Blank
import Sequitur.Proofs.Text.Utf8
import Sequitur.Text.Lines

/-!
# Sequitur.Proofs.Text.Lines

Reading lines undoes joining them.  Lines that are joined by newlines and are
short enough are read back one by one (`read_append_newline`, `read_of_short`);
carriage returns at their ends may be gone, but these are blanks and do not count
once a line is trimmed (`trim_dropReturn`).  Bytes can be joined before or after they are
read as text (`ofBytes_intercalate`), since a newline is no part of any other character.
-/

namespace Sequitur

/-! ## Newlines in bytes -/

namespace Text

theorem ofBytes_append_newline (a b : List UInt8) :
    ofBytes (a ++ 0x0A :: b) = ofBytes a ++ .char '\n' :: ofBytes b := by
  rw [ofBytes_append (by decide), ofBytes_ascii (by decide)]
  rfl

theorem ofBytes_intercalate (ls : List (List UInt8)) :
    ofBytes ([0x0A].intercalate ls) = [.char '\n'].intercalate (ls.map ofBytes) := by
  induction ls with
  | nil => rfl
  | cons l ls ih =>
      cases ls with
      | nil => simp
      | cons l' ls =>
          rw [List.intercalate_cons_cons, List.append_assoc, List.singleton_append,
            ofBytes_append_newline, ih, List.map_cons, List.map_cons, List.map_cons,
            List.intercalate_cons_cons, List.append_assoc, List.singleton_append]

/-- A text has a newline exactly if its bytes have one. -/
theorem newline_mem_ofBytes_iff {bs : List UInt8} :
    Glyph.char '\n' ∈ ofBytes bs ↔ 0x0A ∈ bs := by
  constructor
  · intro h
    have hbyte : (0x0A : UInt8) ∈ (ofBytes bs).bytes :=
      List.mem_flatMap.mpr ⟨.char '\n', h, by decide⟩
    rwa [bytes_ofBytes] at hbyte
  · intro h
    obtain ⟨a, b, rfl⟩ := List.append_of_mem h
    rw [ofBytes_append_newline]
    simp

/-- The parts between newlines have none in them. -/
theorem newline_not_mem_of_mem_splitOn {bs l : List UInt8} (h : l ∈ bs.splitOn 0x0A) :
    0x0A ∉ l := by
  induction bs generalizing l with
  | nil =>
      rw [List.splitOn_nil, List.mem_singleton] at h
      rw [h]
      exact List.not_mem_nil
  | cons b bs ih =>
      rw [List.splitOn_cons_eq_if_modifyHead] at h
      split at h
      · rcases List.mem_cons.mp h with rfl | hl
        · exact List.not_mem_nil
        · exact ih hl
      · next hb =>
          obtain ⟨part, parts, hparts⟩ := List.exists_cons_of_ne_nil (List.splitOn_ne_nil 0x0A bs)
          rw [hparts, List.modifyHead_cons] at h
          rw [hparts] at ih
          rcases List.mem_cons.mp h with rfl | hl
          · rw [List.mem_cons, not_or]
            exact ⟨fun heq => hb (by rw [← heq]; rfl), ih List.mem_cons_self⟩
          · exact ih (List.mem_cons_of_mem part hl)

end Text

/-! ## Reading lines -/

namespace Lines

/-- After a newline the reading starts anew, unless it has stopped before. -/
theorem readFrom_append (line : List Glyph) (used : Nat) (a b : Text) :
    readFrom line used (a ++ .char '\n' :: b) = readFrom line used (a ++ [.char '\n']) ∨
      readFrom line used (a ++ .char '\n' :: b) =
        { lines := (readFrom line used (a ++ [.char '\n'])).lines ++ (read b).lines
          overlong := (read b).overlong } := by
  induction a generalizing line used with
  | nil => exact .inr rfl
  | cons g a ih =>
      simp only [List.cons_append, readFrom]
      split
      · exact (ih [] 0).imp (fun hstopped => by rw [hstopped]) (fun hmore => by rw [hmore]; rfl)
      · split
        · exact .inl rfl
        · exact ih _ _

/-- What fits into a line and has no newline is added to the line. -/
theorem readFrom_of_short {a : Text} (hline : Glyph.char '\n' ∉ a) (line : List Glyph) (used : Nat)
    (hshort : used + a.size < limit) (rest : Text) :
    readFrom line used (a ++ rest) = readFrom (a.reverse ++ line) (used + a.size) rest := by
  induction a generalizing line used with
  | nil => rfl
  | cons g a ih =>
      rw [List.mem_cons, not_or] at hline
      rw [Text.size] at hshort ⊢
      rw [List.cons_append, readFrom, if_neg (Ne.symm hline.1), if_neg (by omega),
        ih hline.2 _ _ (by omega), List.reverse_cons, List.append_assoc, Nat.add_assoc]
      rfl

/-- A short line before a newline is the first that is read. -/
theorem read_append_newline {a : Text} (hline : Glyph.char '\n' ∉ a) (hshort : a.size < limit)
    (rest : Text) :
    read (a ++ .char '\n' :: rest) =
      { read rest with lines := (dropReturn a.reverse).reverse :: (read rest).lines } := by
  rw [read, readFrom_of_short hline [] 0 (by omega), List.append_nil, readFrom, if_pos rfl]
  rfl

/-- A short line without a newline is the only one that is read, unless it is empty. -/
theorem read_of_short {a : Text} (hline : Glyph.char '\n' ∉ a) (hshort : a.size < limit) :
    read a =
      { lines := if a.isEmpty then [] else [(dropReturn a.reverse).reverse]
        overlong := false } := by
  have hread := readFrom_of_short hline [] 0 (by omega) []
  rw [List.append_nil, List.append_nil] at hread
  rw [read, hread, readFrom, List.isEmpty_reverse]

/-- A carriage return at the end of a line is a blank like any other. -/
theorem trim_dropReturn (a : Text) : Text.trim (dropReturn a.reverse).reverse = a.trim := by
  rw [dropReturn.eq_def]
  split
  · next rest hreturn =>
      have ha : a = rest.reverse ++ [.char '\r'] := by
        rw [← List.reverse_cons, ← hreturn, List.reverse_reverse]
      rw [ha, Text.trim_append_right (by decide)]
  · rw [List.reverse_reverse]

end Lines

end Sequitur
