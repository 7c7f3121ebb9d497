import Sequitur.Proofs.Yaml.Outline
import Sequitur.Yaml.Node

/-!
# Sequitur.Proofs.Yaml.Tree

An outline is read as a document.

The characters of an outline stand for themselves, so they arrive as they are
(`ofText_map_char`).  From the tokens of its entries and of its parts the nodes
are read one after the other (`blockEntries_entries`, `blockEntries_parts`); the
reader is given one step for each token, and that is more than it needs.
-/

namespace Sequitur.Yaml

/-! ## Streams -/

theorem ofGlyphs_map_char {cs : List Char} (h : ∀ c ∈ cs, isAllowed c = true) :
    Decoded.ofGlyphs (cs.map .char) = { chars := cs.map fun c => (c, c.utf8Size) } := by
  induction cs with
  | nil => rfl
  | cons c cs ih =>
      rw [List.forall_mem_cons] at h
      simp [Decoded.ofGlyphs, h.1, ih h.2, Decoded.cons]

theorem normalize_eq_self {cs : List Char} (h : ∀ c ∈ cs, c ≠ '\r') : normalize cs = cs := by
  induction cs with
  | nil => rfl
  | cons c cs ih =>
      rw [List.forall_mem_cons] at h
      cases cs with
      | nil => simp [normalize, h.1]
      | cons d cs => simp [normalize, h.1, ih h.2]

theorem isAllowed_of_isWritable {c : Char} (h : isWritable c = true) : isAllowed c = true := by
  simp only [isWritable, isAllowed, Bool.or_eq_true, Bool.and_eq_true, decide_eq_true_eq] at *
  omega

/-- **Characters that stand for themselves** arrive as they are. -/
theorem ofText_map_char {cs : List Char} (h : ∀ c ∈ cs, isWritable c = true) :
    Source.ofText (cs.map .char) = ⟨cs, .ample⟩ := by
  have hne (d : Char) (hd : isWritable d = false) : ∀ c ∈ cs, c ≠ d := by
    rintro c hc rfl
    rw [h c hc] at hd
    contradiction
  have hmark := hne byteOrderMark (by decide)
  have hdecoded : Source.ofDecoded Decoded.portionSize (.ofGlyphs (cs.map .char)) =
      ⟨cs, .ample⟩ := by
    have hcontains : byteOrderMark ∉ cs := fun hc => hmark _ hc rfl
    rw [ofGlyphs_map_char fun c hc => isAllowed_of_isWritable (h c hc)]
    simp [Source.ofDecoded, Function.comp_def, hcontains, normalize_eq_self (hne '\r' (by decide))]
  cases cs with
  | nil => rfl
  | cons c cs =>
      have hc : c ≠ '\ufeff' := hmark c List.mem_cons_self
      unfold Source.ofText
      split
      · next heq => simp at heq
      · next heq => simp at heq
      · next heq => simp [hc] at heq
      · exact hdecoded

/-! ## Nodes -/

/-- The node of a scalar without a tag that is written. -/
def scalarNode (line : Nat) (value : List Char) (isPlain : Bool) : Node :=
  .scalar (line + 1) (scalarTag [] isPlain (String.ofList value)) (String.ofList value)

/-- The node of a mapping without a tag that is written. -/
def mappingNode (line : Nat) (entries : List (Node × Node)) : Node :=
  .mapping (line + 1) (effectiveTag [] mappingTag) entries

namespace Entry

/-- The nodes of an entry on a line. -/
def nodes (line : Nat) (e : Entry) : Node × Node :=
  (scalarNode line e.key true, scalarNode line e.value e.isPlain)

/-- The nodes of entries, the first of which is on the given line. -/
def allNodes (line : Nat) : List Entry → List (Node × Node)
  | [] => []
  | e :: es => e.nodes line :: allNodes (line + 1) es

end Entry

namespace Part

/-- The nodes of a part whose name is on the given line. -/
def nodes (line : Nat) (p : Part) : Node × Node :=
  (scalarNode line p.name true, mappingNode (line + 1) (Entry.allNodes (line + 1) p.entries))

/-- The nodes of parts, the first of which is on the given line. -/
def allNodes (line : Nat) : List Part → List (Node × Node)
  | [] => []
  | p :: ps => p.nodes line :: allNodes (line + p.height) ps

/-- The line after parts, the first of which is on the given line. -/
def lastLine (line : Nat) : List Part → Nat
  | [] => line
  | p :: ps => lastLine (line + p.height) ps

end Part

namespace Reader

/-- Tokens in a stream without directives and anchors. -/
def feed (tokens : List Token) : Feed := { tokens, handles := knownHandles }

theorem blockPart_scalar (fuel line n : Nat) (isPlain : Bool) (value : List Char)
    (ts : List Token) :
    blockPart (fuel + 2) n (feed ((TokenKind.scalar value isPlain).onLine line :: ts)) =
      some (scalarNode line value isPlain, feed ts) := rfl

theorem blockEntries_nil (fuel line : Nat) (ts : List Token) :
    blockEntries (fuel + 1) (feed (TokenKind.blockEnd.onLine line :: ts)) = some ([], feed ts) :=
  rfl

theorem blockEntries_cons {fuel line colon : Nat} {k v : Node} {ts ts' ts'' : List Token}
    {es : List (Node × Node)} {f : Feed}
    (hkey : blockPart fuel line (feed ts) = some (k, feed (TokenKind.value.onLine colon :: ts')))
    (hvalue : blockPart fuel colon (feed ts') = some (v, feed ts''))
    (hmore : blockEntries fuel (feed ts'') = some (es, f)) :
    blockEntries (fuel + 1) (feed (TokenKind.key.onLine line :: ts)) = some ((k, v) :: es, f) := by
  have hpeek (t : Token) (ts : List Token) : peek (feed (t :: ts)) = some (t, feed (t :: ts)) := rfl
  have hdrop (t : Token) (ts : List Token) : drop (feed (t :: ts)) = some ((), feed ts) := rfl
  simp [blockEntries, bind, StateT.bind, hpeek, hdrop, hkey, hvalue, hmore]
  rfl

theorem node_mapping {fuel line : Nat} (indentless : Bool) {es : List (Node × Node)}
    {ts ts' : List Token} (h : blockEntries fuel (feed ts) = some (es, feed ts')) :
    node (fuel + 1) true indentless (feed (TokenKind.blockMappingStart.onLine line :: ts)) =
      some (mappingNode line es, feed ts') := by
  show (blockEntries fuel (feed ts)).bind _ = _
  rw [h]
  rfl

/-- **The entries of a part** are read as their nodes. -/
theorem blockEntries_entries (es : List Entry) (line last : Nat) (ts : List Token) {fuel : Nat}
    (hfuel : es.length + 3 ≤ fuel) :
    blockEntries fuel
        (feed (Entry.allTokens line es ++ TokenKind.blockEnd.onLine last :: ts)) =
      some (Entry.allNodes line es, feed ts) := by
  induction es generalizing line fuel with
  | nil =>
      obtain ⟨fuel, rfl⟩ := Nat.exists_eq_add_of_le' hfuel
      exact blockEntries_nil (fuel + 2) last ts
  | cons e es ih =>
      rw [List.length_cons] at hfuel
      obtain ⟨fuel, rfl⟩ : ∃ n, fuel = n + 3 := ⟨fuel - 3, by omega⟩
      exact blockEntries_cons (blockPart_scalar fuel line line true e.key _)
        (blockPart_scalar fuel line line e.isPlain e.value _) (ih (line + 1) (by omega))

/-- **Parts** are read as their nodes. -/
theorem blockEntries_parts (ps : List Part) (line : Nat) {fuel : Nat}
    (hfuel : (Part.allTokens line ps).length + 3 ≤ fuel) :
    blockEntries fuel (feed (Part.allTokens line ps)) =
      some (Part.allNodes line ps, feed [TokenKind.streamEnd.onLine (Part.lastLine line ps)]) := by
  induction ps generalizing line fuel with
  | nil =>
      obtain ⟨fuel, rfl⟩ := Nat.exists_eq_add_of_le' hfuel
      exact blockEntries_nil _ line _
  | cons p ps ih =>
      have htokens : Part.allTokens line (p :: ps) =
          TokenKind.key.onLine line :: (TokenKind.scalar p.name true).onLine line ::
            TokenKind.value.onLine line :: TokenKind.blockMappingStart.onLine (line + 1) ::
              (Entry.allTokens (line + 1) p.entries ++
                TokenKind.blockEnd.onLine (line + p.height) ::
                  Part.allTokens (line + p.height) ps) := by
        simp [Part.allTokens, Part.tokens]
      rw [htokens] at hfuel ⊢
      simp only [List.length_cons, List.length_append, Entry.length_allTokens] at hfuel
      obtain ⟨fuel, rfl⟩ : ∃ n, fuel = n + 3 := ⟨fuel - 3, by omega⟩
      have hentries : blockEntries fuel (feed (Entry.allTokens (line + 1) p.entries ++
          TokenKind.blockEnd.onLine (line + p.height) :: Part.allTokens (line + p.height) ps)) =
            some (Entry.allNodes (line + 1) p.entries,
              feed (Part.allTokens (line + p.height) ps)) :=
        blockEntries_entries p.entries (line + 1) _ _ (by omega)
      exact blockEntries_cons (blockPart_scalar fuel line line true p.name _)
        (node_mapping true hentries) (ih (line + p.height) (by omega))

end Reader

/-- **An outline is read as its nodes.** -/
theorem document_outline (p : Part) (ps : List Part) :
    Reader.document (TokenKind.blockMappingStart.onLine 0 :: Part.allTokens 0 (p :: ps)) =
      some (mappingNode 0 (Part.allNodes 0 (p :: ps)),
        Reader.feed [TokenKind.streamEnd.onLine (Part.lastLine 0 (p :: ps))]) := by
  apply Reader.node_mapping false
  apply Reader.blockEntries_parts
  rw [List.length_cons]
  omega

theorem isWritable_word {w : List Char} (hw : IsWord w) : ∀ c ∈ w, isWritable c = true := by
  intro c hc
  have halpha : (decide (65 ≤ c.val ∧ c.val ≤ 90) ||
      decide (97 ≤ c.val) && decide (c.val ≤ 122)) = true := hw.letters c hc
  simp only [Bool.or_eq_true, Bool.and_eq_true, decide_eq_true_eq,
    UInt32.le_iff_toNat_le] at halpha
  have hrange : 65 ≤ c.toNat ∧ c.toNat ≤ 90 ∨ 97 ≤ c.toNat ∧ c.toNat ≤ 122 := halpha
  simp only [isWritable, Bool.or_eq_true, Bool.and_eq_true, decide_eq_true_eq]
  omega

theorem Entry.isWritable_lines (width : Nat) (es : List Entry) {text : List Char}
    (htext : ∀ c ∈ text, Yaml.isWritable c = true) :
    ∀ c ∈ Entry.lines width es text, Yaml.isWritable c = true := by
  induction es with
  | nil => exact htext
  | cons e es ih =>
      have hspaces : ∀ c ∈ List.replicate width ' ', Yaml.isWritable c = true := by
        intro c hc
        rw [List.eq_of_mem_replicate hc]
        decide
      simp only [Entry.lines, Entry.line, List.forall_mem_append, List.forall_mem_cons]
      exact ⟨hspaces, isWritable_word e.isWord, by decide, by decide, e.isWritable, by decide, ih⟩

theorem Part.isWritable_text (width : Nat) (ps : List Part) :
    ∀ c ∈ Part.text width ps, isWritable c = true := by
  induction ps with
  | nil => simp [Part.text]
  | cons p ps ih =>
      simp only [Part.text, Part.lines, List.forall_mem_append, List.forall_mem_cons]
      exact ⟨isWritable_word p.isWord, by decide, by decide, Entry.isWritable_lines width _ ih⟩

/-- **An outline is read as a document.** -/
theorem read?_outline {width : Nat} (hwidth : 0 < width) (p : Part) (ps : List Part) :
    Document.read? ((Part.text width (p :: ps)).map .char) =
      some (some { root := mappingNode 0 (Part.allNodes 0 (p :: ps)) }) := by
  simp [Document.read?, ofText_map_char (Part.isWritable_text width (p :: ps)),
    tokens_outline hwidth, document_outline]
  rfl

end Sequitur.Yaml
