import Mathlib.Data.List.SplitBy
import Sequitur.Picture.Layout

/-!
# Sequitur.Proofs.Picture.Ink

What a reader sees of a line: the characters that are not blank, each in its
column.  Blanks leave no trace, so that it does not matter how a line is made
up, or whether there are blanks at its end.

A mark is a text that stands at a column.  Marks are told apart by the space
between them: inside a solid text there is never more than one blank in a row
(`Solid`), and between two marks there is a wider gap (`InkMark.Apart`).  So the
marks of a line can be read off its ink (`marks_eq_of_ink_eq`).
-/

namespace Sequitur

/-! ## Ink -/

/-- The characters of a text that are not blank, with their columns.  The text
starts at column `x`. -/
def ink (x : Int) : List Char → List (Int × Char)
  | [] => []
  | c :: cs => if c = ' ' then ink (x + 1) cs else (x, c) :: ink (x + 1) cs

@[simp] theorem ink_nil (x : Int) : ink x [] = [] := rfl

@[simp] theorem ink_blank (x : Int) (cs : List Char) : ink x (' ' :: cs) = ink (x + 1) cs := rfl

theorem ink_cons {c : Char} (hc : c ≠ ' ') (x : Int) (cs : List Char) :
    ink x (c :: cs) = (x, c) :: ink (x + 1) cs := by
  rw [ink, if_neg hc]

theorem ink_append (x : Int) (t u : List Char) :
    ink x (t ++ u) = ink x t ++ ink (x + t.length) u := by
  induction t generalizing x with
  | nil => simp
  | cons c t ih =>
      have hcolumn : x + 1 + t.length = x + (c :: t).length := by
        rw [List.length_cons]
        omega
      rw [List.cons_append, ink, ink, ih, hcolumn]
      split <;> rfl

/-- Blanks leave no ink. -/
theorem ink_of_blank {t : List Char} (h : ∀ c ∈ t, c = ' ') (x : Int) : ink x t = [] := by
  induction t generalizing x with
  | nil => rfl
  | cons c t ih =>
      obtain ⟨rfl, ht⟩ := List.forall_mem_cons.mp h
      rw [ink_blank, ih ht]

theorem mem_of_mem_ink {x y : Int} {c : Char} {t : List Char} (h : (y, c) ∈ ink x t) :
    c ∈ t ∧ x ≤ y := by
  induction t generalizing x with
  | nil => simp at h
  | cons d t ih =>
      rw [ink] at h
      split at h
      · obtain ⟨hc, hy⟩ := ih h
        exact ⟨List.mem_cons_of_mem d hc, by omega⟩
      · rcases List.mem_cons.mp h with heq | h
        · cases heq
          exact ⟨List.mem_cons_self, Int.le_refl _⟩
        · obtain ⟨hc, hy⟩ := ih h
          exact ⟨List.mem_cons_of_mem d hc, by omega⟩

/-- Every character but the blank leaves ink. -/
theorem exists_mem_ink {c : Char} {t : List Char} (h : c ∈ t) (hc : c ≠ ' ') (x : Int) :
    ∃ y, (y, c) ∈ ink x t := by
  obtain ⟨before, after, rfl⟩ := List.append_of_mem h
  refine ⟨x + before.length, ?_⟩
  rw [ink_append, ink_cons hc]
  exact List.mem_append_right _ List.mem_cons_self

/-- Texts of one length with the same ink are the same. -/
theorem eq_of_ink_eq {x : Int} {t u : List Char} (hlength : t.length = u.length)
    (h : ink x t = ink x u) : t = u := by
  induction t generalizing x u with
  | nil => exact (List.length_eq_zero_iff.mp hlength.symm).symm
  | cons c t ih =>
      cases u with
      | nil => simp at hlength
      | cons d u =>
          have htail : t.length = u.length := Nat.succ.inj hlength
          -- ink further right is no ink in this column
          have hright : ∀ (e : Char) (v : List Char), (x, e) ∉ ink (x + 1) v := by
            intro e v hmem
            have := (mem_of_mem_ink hmem).2
            omega
          by_cases hc : c = ' ' <;> by_cases hd : d = ' '
          · subst hc hd
            rw [ih htail h]
          · subst hc
            rw [ink_blank, ink_cons hd] at h
            exact absurd (h ▸ List.mem_cons_self) (hright d t)
          · subst hd
            rw [ink_blank, ink_cons hc] at h
            exact absurd (h ▸ List.mem_cons_self) (hright c u)
          · rw [ink_cons hc, ink_cons hd, List.cons.injEq, Prod.mk.injEq] at h
            rw [h.1.2, ih htail h.2]

/-! ## Solid texts -/

/-- Texts made of words, with one space between a word and the next. -/
inductive Solid : List Char → Prop where
  | word {t : List Char} (hne : t ≠ []) (h : ∀ c ∈ t, isBlankChar c = false) : Solid t
  | join {t u : List Char} (ht : Solid t) (hu : Solid u) : Solid (t ++ ' ' :: u)

theorem ne_space {c : Char} (h : isBlankChar c = false) : c ≠ ' ' := by
  rintro rfl
  contradiction

theorem Solid.ne_nil {t : List Char} (ht : Solid t) : t ≠ [] := by
  cases ht with
  | word hne _ => exact hne
  | join _ _ => exact List.append_ne_nil_of_right_ne_nil _ (List.cons_ne_nil _ _)

/-- The only blank in a solid text is the space. -/
theorem Solid.eq_space_of_isBlankChar {t : List Char} (ht : Solid t) {c : Char} (hc : c ∈ t)
    (hblank : isBlankChar c = true) : c = ' ' := by
  induction ht with
  | word _ h => rw [h c hc] at hblank; contradiction
  | join _ _ iht ihu =>
      rw [List.mem_append, List.mem_cons] at hc
      rcases hc with hc | rfl | hc
      · exact iht hc
      · rfl
      · exact ihu hc

theorem ink_join (x : Int) (t u : List Char) :
    ink x (t ++ ' ' :: u) = ink x t ++ ink (x + t.length + 1) u := by
  rw [ink_append, ink_blank]

/-- The ink of a solid text starts where the text starts. -/
theorem Solid.column_head? {t : List Char} (ht : Solid t) (x : Int) :
    (ink x t).head?.map (·.1) = some x := by
  induction ht generalizing x with
  | @word t hne h =>
      cases t with
      | nil => contradiction
      | cons c t => rw [ink_cons (ne_space (h c List.mem_cons_self))]; rfl
  | @join t u _ _ iht _ =>
      have hhead := iht x
      rw [ink_join, List.head?_append]
      cases hink : (ink x t).head? with
      | none => rw [hink] at hhead; contradiction
      | some p => rwa [hink] at hhead

theorem Solid.ink_ne_nil {t : List Char} (ht : Solid t) (x : Int) : ink x t ≠ [] := by
  intro hnil
  have hhead := ht.column_head? x
  rw [hnil] at hhead
  contradiction

/-- The ink of a solid text ends where the text ends. -/
theorem Solid.column_getLast? {t : List Char} (ht : Solid t) (x : Int) :
    (ink x t).getLast?.map (·.1) = some (x + t.length - 1) := by
  induction ht generalizing x with
  | @word t hne h =>
      obtain ⟨front, c, rfl⟩ := (List.eq_nil_or_concat' t).resolve_left hne
      rw [ink_append, ink_cons (ne_space (h c (by simp))), ink_nil, List.getLast?_concat]
      simp
      omega
  | @join t u _ _ _ ihu =>
      have hlast := ihu (x + t.length + 1)
      rw [ink_join, List.getLast?_append]
      cases hink : (ink (x + t.length + 1) u).getLast? with
      | none => rw [hink] at hlast; contradiction
      | some p =>
          rw [hink, Option.map_some, Option.some.injEq] at hlast
          simp [hlast]
          omega

/-- Whether ink is next to other ink, with one blank between them at most. -/
def near (p q : Int × Char) : Bool := q.1 ≤ p.1 + 2

theorem isChain_ink_of_word {t : List Char} (h : ∀ c ∈ t, isBlankChar c = false) (x : Int) :
    (ink x t).IsChain fun p q => near p q = true := by
  induction t generalizing x with
  | nil => exact .nil
  | cons c t ih =>
      obtain ⟨hc, ht⟩ := List.forall_mem_cons.mp h
      rw [ink_cons (ne_space hc)]
      cases t with
      | nil => exact .singleton _
      | cons d t =>
          have hrest := ih ht (x + 1)
          rw [ink_cons (ne_space (ht d List.mem_cons_self))] at hrest ⊢
          exact .cons_cons (by simp [near]) hrest

/-- There are no gaps in the ink of a solid text. -/
theorem Solid.isChain_ink {t : List Char} (ht : Solid t) (x : Int) :
    (ink x t).IsChain fun p q => near p q = true := by
  induction ht generalizing x with
  | word _ h => exact isChain_ink_of_word h x
  | @join t u ht hu iht ihu =>
      rw [ink_join, List.isChain_append]
      refine ⟨iht x, ihu _, ?_⟩
      intro p hp q hq
      have hlast := ht.column_getLast? x
      have hfirst := hu.column_head? (x + t.length + 1)
      rw [hp, Option.map_some, Option.some.injEq] at hlast
      rw [hq, Option.map_some, Option.some.injEq] at hfirst
      rw [near, decide_eq_true_eq]
      omega

/-! ## Marks -/

/-- A text that stands at a column. -/
structure InkMark where
  column : Int
  text : List Char
deriving DecidableEq

namespace InkMark

/-- The column behind a mark. -/
def stop (m : InkMark) : Int := m.column + m.text.length

/-- The ink of a mark. -/
def ink (m : InkMark) : List (Int × Char) := Sequitur.ink m.column m.text

/-- Two marks with a gap between them, the first one on the left. -/
def Apart (m n : InkMark) : Prop := m.stop + premiseGap ≤ n.column

end InkMark

/-- The ink of a mark tells what it is and where. -/
theorem InkMark.ink_injective {m n : InkMark} (hm : Solid m.text) (hn : Solid n.text)
    (h : m.ink = n.ink) : m = n := by
  obtain ⟨x, t⟩ := m
  obtain ⟨y, u⟩ := n
  have hfirst : x = y := by
    have hx := hm.column_head? x
    have hy := hn.column_head? y
    rw [show Sequitur.ink x t = Sequitur.ink y u from h, hy] at hx
    exact (Option.some.inj hx).symm
  subst hfirst
  have hlength : t.length = u.length := by
    have hx := hm.column_getLast? x
    have hy := hn.column_getLast? x
    rw [show Sequitur.ink x t = Sequitur.ink x u from h, hy, Option.some.injEq] at hx
    dsimp only at hx
    omega
  rw [eq_of_ink_eq hlength h]

/-- Cutting ink where there is a gap gives the ink of the marks. -/
theorem splitBy_flatMap_ink {ms : List InkMark} (hsolid : ∀ m ∈ ms, Solid m.text)
    (hapart : ms.Pairwise InkMark.Apart) :
    (ms.flatMap InkMark.ink).splitBy near = ms.map InkMark.ink := by
  rw [List.flatMap_def]
  apply List.splitBy_flatten
  · intro hnil
    obtain ⟨m, hm, hink⟩ := List.mem_map.mp hnil
    exact (hsolid m hm).ink_ne_nil m.column hink
  · intro t ht
    obtain ⟨m, hm, rfl⟩ := List.mem_map.mp ht
    exact (hsolid m hm).isChain_ink m.column
  · have hgap : ms.Pairwise fun m n =>
        ∃ hm hn, near (m.ink.getLast hm) (n.ink.head hn) = false := by
      apply hapart.imp_of_mem
      intro m n hm hn hmn
      have hmne : m.ink ≠ [] := (hsolid m hm).ink_ne_nil m.column
      have hnne : n.ink ≠ [] := (hsolid n hn).ink_ne_nil n.column
      have hlast : m.ink.getLast?.map (·.1) = some (m.stop - 1) :=
        (hsolid m hm).column_getLast? m.column
      have hfirst : n.ink.head?.map (·.1) = some n.column := (hsolid n hn).column_head? n.column
      rw [List.getLast?_eq_some_getLast hmne, Option.map_some, Option.some.injEq] at hlast
      rw [List.head?_eq_some_head hnne, Option.map_some, Option.some.injEq] at hfirst
      rw [InkMark.Apart, premiseGap] at hmn
      refine ⟨hmne, hnne, ?_⟩
      rw [near, decide_eq_false_iff_not, hlast, hfirst]
      omega
    exact (List.pairwise_map.mpr hgap).isChain

/-- **Marks can be read off their ink.** -/
theorem marks_eq_of_ink_eq {ms ns : List InkMark} (hms : ∀ m ∈ ms, Solid m.text)
    (hns : ∀ n ∈ ns, Solid n.text) (hmsApart : ms.Pairwise InkMark.Apart)
    (hnsApart : ns.Pairwise InkMark.Apart) (h : ms.flatMap InkMark.ink = ns.flatMap InkMark.ink) :
    ms = ns := by
  have hmap : ms.map InkMark.ink = ns.map InkMark.ink := by
    rw [← splitBy_flatMap_ink hms hmsApart, h, splitBy_flatMap_ink hns hnsApart]
  clear h hmsApart hnsApart
  induction ms generalizing ns with
  | nil => exact (List.map_eq_nil_iff.mp hmap.symm).symm
  | cons m ms ih =>
      cases ns with
      | nil => simp at hmap
      | cons n ns =>
          rw [List.map_cons, List.map_cons, List.cons.injEq] at hmap
          rw [List.forall_mem_cons] at hms hns
          rw [InkMark.ink_injective hms.1 hns.1 hmap.1, ih hms.2 hns.2 hmap.2]

end Sequitur
