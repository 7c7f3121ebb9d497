import Sequitur.Derivation.Basic

/-!
# Sequitur.Picture.Layout

Where the parts of a derivation go when it is drawn.  The conclusion is on
the bottom row.  Above a proved sequent runs an inference line with the
label of its rule, and above the line stand the premises, side by side,
each drawn the same way.

A node and all above it fill a box.  Boxes are measured from the leaves to
the root: the sequent of a node is centred below the span from the start of
its first premise's sequent to the end of its last premise's sequent.  All
measures are numbers of columns, every printed character being one column
wide; they are integers, and so are the amounts of blank space that the
drawing computes from them.

A row of the drawing is a list of pieces.  Only sequents carry styled text,
so colouring a drawing cannot move anything in it.
-/

namespace Sequitur

/-- The number of columns between two premises. -/
def premiseGap : Int := 4

/-- The measures of a box. -/
structure Measures where
  /-- The whole width of the box. -/
  width : Int
  /-- The number of rows of the box. -/
  height : Nat
  /-- The column where the sequent starts. -/
  bottomX : Int
  /-- The width of the sequent. -/
  bottomWidth : Int
  /-- The column on which the sequent and the premises are centred. -/
  center : Int
deriving DecidableEq

/-- A measured node: its sequent's text, the label of its rule if it has
one, its measures and the boxes of its premises. -/
inductive Box where
  | mk (text : List Span) (label : Option String) (measures : Measures) (upper : List Box)

namespace Box

/-- The printed sequent of a box. -/
def text : Box → List Span
  | mk text _ _ _ => text

/-- The label of the rule. -/
def label : Box → Option String
  | mk _ label _ _ => label

/-- The measures of a box. -/
def measures : Box → Measures
  | mk _ _ measures _ => measures

/-- The boxes of the premises. -/
def upper : Box → List Box
  | mk _ _ _ upper => upper

/-- The whole width of a box. -/
def width (b : Box) : Int := b.measures.width

/-- The number of rows of a box. -/
def height (b : Box) : Nat := b.measures.height

/-- The column where the sequent of a box starts. -/
def bottomX (b : Box) : Int := b.measures.bottomX

/-- The width of the sequent of a box. -/
def bottomWidth (b : Box) : Int := b.measures.bottomWidth

/-- The column on which a box is centred. -/
def center (b : Box) : Int := b.measures.center

/-! ## Premises side by side -/

/-- The width of boxes side by side, with gaps between them. -/
def rowWidth : List Box → Int
  | [] => 0
  | [b] => b.width
  | b :: bs => b.width + premiseGap + rowWidth bs

/-- The number of rows of the tallest box. -/
def rowHeight : List Box → Nat
  | [] => 0
  | b :: bs => max b.height (rowHeight bs)

/-- The column where the sequent of the first box starts. -/
def spanX : List Box → Int
  | [] => 0
  | b :: _ => b.bottomX

/-- The column where the sequent of the last box ends. -/
def spanEnd : List Box → Int
  | [] => 0
  | [b] => b.bottomX + b.bottomWidth
  | b :: bs => b.width + premiseGap + spanEnd bs

/-- The distance from the start of the first box's sequent to the end of the
last box's sequent. -/
def spanWidth (upper : List Box) : Int := spanEnd upper - spanX upper

/-- The part of the premises to the left of the middle of their span. -/
def upperLeft (upper : List Box) : Int := spanX upper + spanWidth upper / 2

/-- The part of the premises to the right of the middle of their span. -/
def upperRight (upper : List Box) : Int := rowWidth upper - upperLeft upper

/-- The left half of a width, rounded down. -/
def leftHalf (width : Int) : Int := width / 2

/-- The right half of a width, rounded up. -/
def rightHalf (width : Int) : Int := width - width / 2

/-! ## Measuring -/

/-- The number of columns of printed text. -/
def columns (text : List Span) : Int := (Span.plainText text).length

/-- The box of a goal. -/
def ofGoal (text : List Span) : Box :=
  mk text none
    { width := columns text, height := 1, bottomX := 0, bottomWidth := columns text,
      center := leftHalf (columns text) }
    []

/-- The box of a proved sequent below the boxes of its premises. -/
def ofRule (text : List Span) (label : String) (upper : List Box) : Box :=
  let bottom := columns text
  let center := max (upperLeft upper) (leftHalf bottom)
  let lineEnd := center + max (rightHalf bottom) (rightHalf (spanWidth upper))
  mk text (some label)
    { width := max (center + max (upperRight upper) (rightHalf bottom)) (lineEnd + label.length)
      height := rowHeight upper + 2
      bottomX := center - leftHalf bottom
      bottomWidth := bottom
      center := center }
    upper

mutual

/-- Measures the derivation at a path.  The conclusion of the sequent at
the path `marked`, if any, is emphasized. -/
def ofDerivation {ν : Type} [DecidableEq ν] [ToString ν] (st : Style) (marked : Option Path)
    (path : Path) : Derivation ν → Box
  | .goal s => ofGoal (s.format st (marked = some path))
  | .node s k ds =>
    ofRule (s.format st (marked = some path)) (k.label st.unicode)
      (ofPremises st marked path 0 ds)

/-- Measures premises, the first of them at position `i` below `path`. -/
def ofPremises {ν : Type} [DecidableEq ν] [ToString ν] (st : Style) (marked : Option Path)
    (path : Path) (i : Nat) : List (Derivation ν) → List Box
  | [] => []
  | d :: ds =>
    ofDerivation st marked (path ++ [(i : Int)]) d :: ofPremises st marked path (i + 1) ds

end

end Box

/-! ## Rows -/

/-- A piece of a row. -/
inductive Piece where
  /-- Blank columns. -/
  | blank (n : Int)
  /-- Columns of an inference line. -/
  | line (n : Int)
  /-- The label of a rule. -/
  | label (s : String)
  /-- A sequent. -/
  | sequent (text : List Span)
deriving DecidableEq

namespace Box

/-- The column where the inference line of a box starts. -/
def lineStart (b : Box) : Int :=
  b.center - max (leftHalf b.bottomWidth) (leftHalf (spanWidth b.upper))

/-- The column where the inference line of a box ends. -/
def lineEnd (b : Box) : Int :=
  b.center + max (rightHalf b.bottomWidth) (rightHalf (spanWidth b.upper))

mutual

/-- A row of a box, row 0 being its sequent.  Rows above the box are blank. -/
def row (n : Nat) : Box → List Piece
  | mk text label m upper =>
    let b := mk text label m upper
    match n, label with
    | 0, _ => [.blank b.bottomX, .sequent text, .blank (b.width - b.bottomX - b.bottomWidth)]
    | _ + 1, none => [.blank b.width]
    | 1, some label =>
      [.blank b.lineStart, .line (b.lineEnd - b.lineStart), .label label,
        .blank (b.width - b.lineEnd - label.length)]
    | n + 2, some _ =>
      .blank (b.center - upperLeft upper) ::
        (rowAcross n upper ++ [.blank (b.width - b.center - upperRight upper)])

/-- A row of boxes side by side. -/
def rowAcross (n : Nat) : List Box → List Piece
  | [] => []
  | b :: bs => row n b ++ (if bs.isEmpty then [] else [.blank premiseGap]) ++ rowAcross n bs

end

end Box

end Sequitur
