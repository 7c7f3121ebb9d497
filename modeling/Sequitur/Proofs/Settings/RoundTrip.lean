import Sequitur.Proofs.Text.Utf8
import Sequitur.Proofs.Yaml.Tree
import Sequitur.Settings.Printer
import Sequitur.Settings.Reader

/-!
# Sequitur.Proofs.Settings.RoundTrip

Printed settings are read back unchanged (`read_print_eq`).

Settings are printed as an outline of two parts (`document_eq_text`), and an
outline is read as a document, so what is left is how the nodes of that document
are read as settings.  A `Field` is an entry together with what reading it does to
the settings so far.  A mapping of fields with different names does this for one
field after the other (`nested_fields`), and is then a field of its own
(`Field.ofFields`), which serves for both levels of the document.

A document without references is never refused for its repetitions, whatever
the number of nodes that have been read; hence that number is left open.
-/

namespace Sequitur

open Yaml (Node Entry Part IsWord scalarNode mappingNode)

namespace SettingsReader

/-! ## Reading without faults -/

/-- The progress in a document without faults and references. -/
def progress (d : SettingsDraft) (visits : Nat) : Progress := { draft := d, visits }

variable {place : Place} {d : SettingsDraft} {n : Nat}

theorem visit_progress : (progress d n).visit false = some (progress d (n + 1)) := by
  simp [Progress.visit, Progress.isExcessive, progress]

theorem enter_scalar (h : place.through = []) (line : Nat) (tag : Text) (value : String) :
    enter place (.scalar line tag value) (progress d n) =
      some (place, .scalar line tag value, progress d (n + 1)) := by
  simp [enter, h, visit_progress]

theorem enter_mapping (h : place.through = []) (line : Nat) (tag : Text) (es : List (Node × Node)) :
    enter place (.mapping line tag es) (progress d n) =
      some (place, .mapping line tag es, progress d (n + 1)) := by
  simp [enter, h, visit_progress]

/-- The tag of a string.  A plain `<<` has the tag of a merge, but is a string as a value. -/
theorem scalarTag_text {isPlain : Bool} {value : String}
    (h : isPlain = true → Yaml.standsForItself value = true) :
    Yaml.scalarTag [] isPlain value = Text.ofString "!!str" ∨
      Yaml.scalarTag [] isPlain value = Text.ofString Yaml.mergeTag := by
  cases isPlain with
  | false => exact .inl rfl
  | true =>
      have htext : Yaml.Value.ofText true value = .text := by
        have hitself := h rfl
        simp only [Yaml.standsForItself, Bool.and_eq_true, decide_eq_true_eq] at hitself
        exact hitself.1.1
      by_cases hmerge : value = "<<"
      · right
        simp [Yaml.scalarTag, Yaml.effectiveTag, hmerge]
      · left
        simp [Yaml.scalarTag, Yaml.effectiveTag, hmerge, htext, Yaml.Value.tag]

theorem meaning?_text {tag : Text}
    (h : tag = Text.ofString "!!str" ∨ tag = Text.ofString Yaml.mergeTag) (value : String) :
    meaning? tag value = some (.text (Text.ofString value)) := by
  obtain rfl | rfl := h <;> rfl

/-- **A string is read as itself**, whether it is plain or in quotes. -/
theorem text?_scalarNode (hplace : place.through = []) {value : List Char} {isPlain : Bool}
    (h : isPlain = true → Yaml.standsForItself (String.ofList value) = true) (line : Nat) :
    text? place (scalarNode line value isPlain) (progress d n) =
      some (some (Text.ofString (String.ofList value)), progress d (n + 1)) := by
  simp [text?, scalarNode, enter_scalar hplace, meaning?_text (scalarTag_text h)]

theorem text_scalarNode (hplace : place.through = []) {value : List Char} {isPlain : Bool}
    (h : isPlain = true → Yaml.standsForItself (String.ofList value) = true) (line : Nat)
    (set : Text → SettingsDraft → SettingsDraft) :
    text set place (scalarNode line value isPlain) (progress d n) =
      some (progress (set (Text.ofString (String.ofList value)) d) (n + 1)) := by
  simp [text, text?_scalarNode hplace h]
  rfl

/-- The characters of a boolean. -/
def flagText (b : Bool) : List Char := if b then "true".toList else "false".toList

theorem meaning?_flagText (b : Bool) :
    meaning? (Yaml.scalarTag [] true (String.ofList (flagText b))) (String.ofList (flagText b)) =
      some (.bool b) := by
  cases b <;> decide

theorem flag_scalarNode (hplace : place.through = []) (line : Nat) (b : Bool)
    (set : Bool → SettingsDraft → SettingsDraft) :
    flag set place (scalarNode line (flagText b) true) (progress d n) =
      some (progress (set b d) (n + 1)) := by
  simp [flag, scalarNode, enter_scalar hplace, meaning?_flagText]
  rfl

/-! ## Fields -/

/-- A word that is the key of a field. -/
structure FieldKey where
  word : List Char
  isWord : IsWord word
  isText : Yaml.standsForItself (String.ofList word) = true

namespace FieldKey

/-- The name that a key gives. -/
def name (k : FieldKey) : Text := Text.ofString (String.ofList k.word)

/-- The key that is written as a string. -/
def ofString (s : String) (h : s.toList ≠ [] ∧ s.toList.all Char.isAlpha = true ∧
    s.toList.length ≤ 1024 ∧ Yaml.standsForItself (String.ofList s.toList) = true) : FieldKey where
  word := s.toList
  isWord := ⟨h.1, List.all_eq_true.mp h.2.1, h.2.2.1⟩
  isText := h.2.2.2

-- The keys of settings.
def unicode : FieldKey := ofString "unicode" (by decide)
def negation : FieldKey := ofString "negation" (by decide)
def highlight : FieldKey := ofString "highlight" (by decide)
def emphasis : FieldKey := ofString "emphasis" (by decide)
def level : FieldKey := ofString "level" (by decide)
def file : FieldKey := ofString "file" (by decide)
def json : FieldKey := ofString "json" (by decide)
def style : FieldKey := ofString "style" (by decide)
def log : FieldKey := ofString "log" (by decide)

theorem isMerge_scalarNode (k : FieldKey) (line : Nat) :
    isMerge (scalarNode line k.word true) = false := by
  have hne : String.ofList k.word ≠ "<<" := by
    intro heq
    have hword : k.word = ['<', '<'] := String.ofList_injective heq
    have hletter := k.isWord.letters '<' (by simp [hword])
    revert hletter
    decide
  simp [isMerge, scalarNode, hne]

theorem text?_key (hplace : place.through = []) (k : FieldKey) (line : Nat) :
    text? place (scalarNode line k.word true) (progress d n) =
      some (some k.name, progress d (n + 1)) :=
  text?_scalarNode hplace (fun _ => k.isText) line

end FieldKey

/-- A field of a mapping on a line: its key, its value, and what reading the value does. -/
structure Field (r : Record) where
  line : Nat
  key : FieldKey
  value : Node
  update : SettingsDraft → SettingsDraft
  reads : ∃ step, r.field? key.name = some step ∧
    ∀ (place : Place) (d : SettingsDraft) (n : Nat), place.through = [] →
      ∃ n', step place value (progress d n) = some (progress (update d) n')

namespace Field

variable {r : Record}

/-- The nodes of a field. -/
def nodes (f : Field r) : Node × Node := (scalarNode f.line f.key.word true, f.value)

/-- The name of a field. -/
def name (f : Field r) : Text := f.key.name

/-- What reading fields does, the first one first. -/
def updateAll (fs : List (Field r)) (d : SettingsDraft) : SettingsDraft :=
  fs.foldl (fun d f => f.update d) d

/-- An entry of the mapping's own, whose name is new, is read as its field. -/
theorem entries_cons {k v : Node} {rest : List (Node × Node)} {set : List Text} {key : Text}
    {step : Step} {p q s : Progress} (hmerge : isMerge k = false)
    (hkey : text? place k p = some (some key, q)) (hfound : r.field? key = some step)
    (hnew : key ∉ set) (hread : step place v q = some s) :
    entries r place set { taken := none } ((k, v) :: rest) p =
      entries r place (key :: set) { taken := none } rest s := by
  show (if isMerge k = true then _ else _) = _
  rw [if_neg (by simp [hmerge]), hkey]
  show (if (none : Option (List Text)).any (key ∈ ·) = true then _ else _) = _
  rw [if_neg (by simp), hfound]
  show (if key ∈ set then _ else _) = _
  rw [if_neg hnew, hread]
  rfl

theorem entries_fields (hplace : place.through = []) (fs : List (Field r)) (set : List Text)
    (hnew : ∀ f ∈ fs, f.name ∉ set) (hnodup : (fs.map name).Nodup) (d : SettingsDraft) (n : Nat) :
    ∃ n', entries r place set { taken := none } (fs.map nodes) (progress d n) =
      some ({ taken := none }, progress (updateAll fs d) n') := by
  induction fs generalizing set d n with
  | nil => exact ⟨n, rfl⟩
  | cons f fs ih =>
      rw [List.forall_mem_cons] at hnew
      rw [List.map_cons, List.nodup_cons] at hnodup
      obtain ⟨step, hfound, hstep⟩ := f.reads
      obtain ⟨n', hread⟩ := hstep place d (n + 1) hplace
      have hset : f.key.name ∉ set := hnew.1
      have hrest : ∀ g ∈ fs, g.name ∉ f.name :: set := by
        intro g hg
        rw [List.mem_cons, not_or]
        refine ⟨fun heq => hnodup.1 ?_, hnew.2 g hg⟩
        rw [← heq]
        exact List.mem_map_of_mem hg
      obtain ⟨n'', hentries⟩ := ih (f.name :: set) hrest hnodup.2 (f.update d) n'
      refine ⟨n'', ?_⟩
      rw [List.map_cons, nodes, entries_cons (f.key.isMerge_scalarNode f.line)
        (f.key.text?_key hplace f.line) hfound hset hread]
      exact hentries

theorem duplicates_fields (fs : List (Field r)) (hnodup : (fs.map name).Nodup) :
    duplicates (fs.map nodes) = [] := by
  induction fs with
  | nil => rfl
  | cons f fs ih =>
      rw [List.map_cons, List.nodup_cons] at hnodup
      have hword : ∀ g ∈ fs, String.ofList f.key.word ≠ String.ofList g.key.word := by
        intro g hg heq
        apply hnodup.1
        rw [name, FieldKey.name, heq]
        exact List.mem_map_of_mem hg
      rw [List.map_cons, nodes, duplicates, ih hnodup.2, List.append_nil, List.filterMap_eq_nil_iff]
      intro kv hkv
      obtain ⟨g, hg, rfl⟩ := List.mem_map.mp hkv
      simp [nodes, scalarNode, Node.word, hword g hg]

/-- **A mapping of fields with different names is read field by field.** -/
theorem nested_fields (hplace : place.through = []) (line : Nat) (fs : List (Field r))
    (hnodup : (fs.map name).Nodup) (d : SettingsDraft) (n : Nat) :
    ∃ n', nested r place (mappingNode line (fs.map nodes)) (progress d n) =
      some (progress (updateAll fs d) n') := by
  obtain ⟨n', hentries⟩ := entries_fields hplace fs [] (by simp) hnodup d (n + 1)
  refine ⟨n', ?_⟩
  rw [nested, Nat.mul_succ, Nat.add_succ]
  simp [record, mappingNode, enter_mapping hplace, duplicates_fields fs hnodup, hentries]

/-- A field whose value is a boolean. -/
def ofFlag (line : Nat) (key : FieldKey) (b : Bool) (set : Bool → SettingsDraft → SettingsDraft)
    (hfound : r.field? key.name = some (flag set)) : Field r where
  line
  key
  value := scalarNode line (flagText b) true
  update := set b
  reads := ⟨_, hfound, fun _ _ n hplace => ⟨n + 1, flag_scalarNode hplace line b set⟩⟩

theorem standsForItself_of_isPlainText {s : String} (h : Yaml.isPlainText s = true) :
    Yaml.standsForItself (String.ofList s.toList) = true := by
  simp only [Yaml.isPlainText, Bool.and_eq_true] at h
  rw [String.ofList_toList]
  exact h.1

/-- A field whose value is a string. -/
def ofString (line : Nat) (key : FieldKey) (s : String) (set : Text → SettingsDraft → SettingsDraft)
    (hfound : r.field? key.name = some (text set)) : Field r where
  line
  key
  value := scalarNode line s.toList (Yaml.isPlainText s)
  update := set (Text.ofString s)
  reads := ⟨_, hfound, fun _ _ n hplace => ⟨n + 1, by
    rw [text_scalarNode hplace standsForItself_of_isPlainText, String.ofList_toList]⟩⟩

/-- A field whose value is a mapping of fields. -/
def ofFields {inner : Record} (line : Nat) (key : FieldKey) (fs : List (Field inner))
    (hnodup : (fs.map name).Nodup) (hfound : r.field? key.name = some (nested inner)) :
    Field r where
  line
  key
  value := mappingNode (line + 1) (fs.map nodes)
  update := updateAll fs
  reads := ⟨_, hfound, fun _ d n hplace => nested_fields hplace (line + 1) fs hnodup d n⟩

end Field

end SettingsReader

/-! ## The outline of settings -/

namespace Yaml

theorem scalarText_ofString (width indent : Nat) (s : String) :
    scalarText width indent (Text.ofString s) = stringText width indent s := by
  simp [scalarText, Text.ofString, Text.shown, Function.comp_def, Glyph.shown]

/-- A scalar that is written on one line does not end in a break. -/
theorem OneLine.ended {written cs : List Char} {isPlain : Bool} (h : OneLine written cs isPlain) :
    ended written = written ++ ['\n'] := by
  have hlast : written.getLast?.any isBreak = false := by
    cases h with
    | plain hne hplain =>
        rw [List.getLast?_eq_some_getLast hne]
        simp only [canBePlain, Bool.and_eq_true, Bool.not_eq_true'] at hplain
        simpa using List.any_eq_false.mp hplain.1.2 _ (List.getLast_mem hne)
    | single _ =>
        rw [singleQuotedText, List.getLast?_concat]
        rfl
    | double _ =>
        rw [List.getLast?_concat]
        rfl
  simp [Yaml.ended, hlast]

end Yaml

namespace Settings

open SettingsReader (FieldKey Field flagText)

/-- The line of a boolean. -/
def flagLine (key : FieldKey) (b : Bool) : Entry where
  key := key.word
  written := flagText b
  value := flagText b
  isPlain := true
  isWord := key.isWord
  oneLine := .plain (by cases b <;> decide) (by cases b <;> decide)
  isWritable := Yaml.isWritable_of_canBeSingle (by cases b <;> decide)

/-- The line of a string. -/
def stringLine (key : FieldKey) (s : String) (h : ∀ c ∈ s.toList, Yaml.isBreak c = false) :
    Entry where
  key := key.word
  written := Yaml.stringText 4 8 s
  value := s.toList
  isPlain := Yaml.isPlainText s
  isWord := key.isWord
  oneLine := Yaml.oneLine_stringText 4 8 h
  isWritable := Yaml.isWritable_stringText 4 8 h

theorem entry_append (e : Entry) {key : String} (hkey : key.toList = e.key) (text : List Char) :
    entry key e.written ++ text = Entry.lines 4 [e] text := by
  have hindent : "    ".toList = List.replicate 4 ' ' := by decide
  unfold entry
  simp [hindent, e.oneLine.ended, hkey, Entry.lines, Entry.line]

theorem isBreak_highlight (mode : ColorMode) : ∀ c ∈ mode.name.toList, Yaml.isBreak c = false := by
  have hall : mode.name.toList.all (!Yaml.isBreak ·) = true := by cases mode <;> decide
  simpa using hall

theorem isBreak_level (level : LogLevel) : ∀ c ∈ level.name.toList, Yaml.isBreak c = false := by
  have hall : level.name.toList.all (!Yaml.isBreak ·) = true := by cases level <;> decide
  simpa using hall

/-- The part of the style. -/
def stylePart (s : Settings) : Part where
  name := FieldKey.style.word
  first := flagLine FieldKey.unicode s.unicode
  more :=
    [flagLine FieldKey.negation s.negation,
      stringLine FieldKey.highlight s.highlight.name (isBreak_highlight s.highlight),
      flagLine FieldKey.emphasis s.emphasis]
  isWord := FieldKey.style.isWord

/-- The part of the log, given the name of its file. -/
def logPart (s : Settings) (file : String) (h : ∀ c ∈ file.toList, Yaml.isBreak c = false) :
    Part where
  name := FieldKey.log.word
  first := stringLine FieldKey.level s.level.name (isBreak_level s.level)
  more := [stringLine FieldKey.file file h, flagLine FieldKey.json s.json]
  isWord := FieldKey.log.isWord

theorem flagEntry_append (name : String) (key : FieldKey) (hname : name.toList = key.word)
    (b : Bool) (text : List Char) :
    flagEntry name b ++ text = Entry.lines 4 [flagLine key b] text :=
  entry_append (flagLine key b) hname text

theorem textEntry_append (name : String) (key : FieldKey) (hname : name.toList = key.word)
    {v : String} (hline : ∀ c ∈ v.toList, Yaml.isBreak c = false) (text : List Char) :
    textEntry name (Text.ofString v) ++ text = Entry.lines 4 [stringLine key v hline] text := by
  rw [textEntry, Yaml.scalarText_ofString]
  exact entry_append (stringLine key v hline) hname text

section File

variable {s : Settings} {file : String} (hfile : s.file = Text.ofString file)
  (hline : ∀ c ∈ file.toList, Yaml.isBreak c = false)

include hfile

/-- **Settings are printed as an outline.** -/
theorem document_eq_text : s.document = Part.text 4 [s.stylePart, s.logPart file hline] := by
  have hstyle : "style:\n".toList = FieldKey.style.word ++ [':', '\n'] := by decide
  have hlog : "log:\n".toList = FieldKey.log.word ++ [':', '\n'] := by decide
  unfold document
  rw [hfile, hstyle, hlog, ← List.append_nil (flagEntry "json" s.json)]
  simp only [List.append_assoc]
  rw [flagEntry_append "unicode" .unicode rfl, flagEntry_append "negation" .negation rfl,
    textEntry_append "highlight" .highlight rfl (isBreak_highlight s.highlight),
    flagEntry_append "emphasis" .emphasis rfl,
    textEntry_append "level" .level rfl (isBreak_level s.level),
    textEntry_append "file" .file rfl hline, flagEntry_append "json" .json rfl]
  simp [Part.text, Part.lines, Part.entries, stylePart, logPart, Entry.lines]

end File

/-- The fields of the style, the name of which is on the first line. -/
def styleFields (s : Settings) : List (Field SettingsReader.style) :=
  [.ofFlag 1 .unicode s.unicode _ rfl, .ofFlag 2 .negation s.negation _ rfl,
    .ofString 3 .highlight s.highlight.name _ rfl, .ofFlag 4 .emphasis s.emphasis _ rfl]

/-- The fields of the log, the name of which is on the sixth line. -/
def logFields (s : Settings) (file : String) : List (Field SettingsReader.log) :=
  [.ofString 6 .level s.level.name _ rfl, .ofString 7 .file file _ rfl,
    .ofFlag 8 .json s.json _ rfl]

theorem nodup_styleFields (s : Settings) : (s.styleFields.map Field.name).Nodup := by
  show [FieldKey.unicode.name, FieldKey.negation.name, FieldKey.highlight.name,
    FieldKey.emphasis.name].Nodup
  decide

theorem nodup_logFields (s : Settings) (file : String) :
    ((s.logFields file).map Field.name).Nodup := by
  show [FieldKey.level.name, FieldKey.file.name, FieldKey.json.name].Nodup
  decide

/-- The fields of settings. -/
def fields (s : Settings) (file : String) : List (Field SettingsReader.settings) :=
  [.ofFields 0 .style s.styleFields s.nodup_styleFields rfl,
    .ofFields 5 .log (s.logFields file) (s.nodup_logFields file) rfl]

theorem nodup_fields (s : Settings) (file : String) : ((s.fields file).map Field.name).Nodup := by
  show [FieldKey.style.name, FieldKey.log.name].Nodup
  decide

/-- **The nodes of the outline are those of the fields.** -/
theorem allNodes_eq_map_fields (s : Settings) {file : String}
    (hline : ∀ c ∈ file.toList, Yaml.isBreak c = false) :
    Part.allNodes 0 [s.stylePart, s.logPart file hline] = (s.fields file).map Field.nodes := by
  have hstyle : Entry.allNodes 1 s.stylePart.entries = s.styleFields.map Field.nodes := rfl
  have hlog : Entry.allNodes 6 (s.logPart file hline).entries =
      (s.logFields file).map Field.nodes := rfl
  show [(scalarNode 0 FieldKey.style.word true,
        mappingNode 1 (Entry.allNodes 1 s.stylePart.entries)),
      (scalarNode 5 FieldKey.log.word true,
        mappingNode 6 (Entry.allNodes 6 (s.logPart file hline).entries))] = _
  rw [hstyle, hlog]
  rfl

theorem updateAll_fields {s : Settings} {file : String} (hfile : s.file = Text.ofString file) :
    Field.updateAll (s.fields file) {} = s.toDraft := by
  rw [toDraft, hfile]
  rfl

/-- What is printed is read as the settings, with the names of the colour mode and the level. -/
theorem draft_read_print {s : Settings} {file : String} (hfile : s.file = Text.ofString file)
    (hline : ∀ c ∈ file.toList, Yaml.isBreak c = false) :
    SettingsDraft.read (Text.ofString s.print) = .ok s.toDraft := by
  have htext : Text.ofString s.print =
      (Part.text 4 [s.stylePart, s.logPart file hline]).map .char := by
    rw [Text.ofString, print, String.toList_ofList, document_eq_text hfile hline]
  let root := mappingNode 0 ((s.fields file).map Field.nodes)
  obtain ⟨n, hread⟩ : ∃ n, SettingsReader.nested SettingsReader.settings { document := { root } }
      root (SettingsReader.progress {} 1) = some (SettingsReader.progress s.toDraft n) := by
    rw [← updateAll_fields hfile]
    exact Field.nested_fields rfl 0 (s.fields file) (s.nodup_fields file) {} 1
  have hstart : SettingsReader.progress {} 1 = { visits := 1 } := rfl
  rw [SettingsDraft.read, htext, Yaml.read?_outline (by decide), allNodes_eq_map_fields]
  simp only [← hstart, root] at hread ⊢
  rw [hread]
  rfl

end Settings

/-- What passes the check are settings with the names of the colour mode and the level. -/
theorem SettingsDraft.eq_toDraft {d : SettingsDraft} {s : Settings} (h : d.check = .ok s) :
    d = s.toDraft := by
  unfold check at h
  split at h
  · cases h
  · next highlight hhighlight =>
    split at h
    · cases h
    · next level hlevel =>
      have hmode : Text.ofString highlight.name = d.highlight := by
        simpa using List.find?_some hhighlight
      have hname : Text.ofString level.name = d.level := by
        simpa using List.find?_some hlevel
      cases h
      simp [Settings.toDraft, hmode, hname]

/-- **Printed settings are read back unchanged.**  The name of the log file may be any text on one
line, with printable characters or others, whatever it means as a part of a document. -/
theorem Settings.read_print_eq {d : SettingsDraft} {s : Settings} (hcheck : d.check = .ok s)
    {file : String} (hfile : d.file = Text.ofString file)
    (hline : ∀ c ∈ file.toList, Yaml.isBreak c = false) :
    SettingsDraft.read (Text.ofBytes s.print.toUTF8.data.toList) = .ok d ∧
      Settings.read (Text.ofBytes s.print.toUTF8.data.toList) = .ok s := by
  obtain rfl := SettingsDraft.eq_toDraft hcheck
  have hdraft := draft_read_print hfile hline
  rw [Text.ofBytes_toUTF8]
  refine ⟨hdraft, ?_⟩
  rw [Settings.read, hdraft]
  show (s.toDraft.check.mapError _) = _
  rw [hcheck]
  rfl

/-- Settings whose log file has a name that looks like an entry with a comment. -/
theorem Settings.read_print_eq_entry :
    let s : Settings := { unicode := true, level := .warn, file := Text.ofString "json: yes #1" }
    s.toDraft.check = .ok s ∧ "json: yes #1".toList.all (!Yaml.isBreak ·) = true ∧
      SettingsDraft.read (Text.ofBytes s.print.toUTF8.data.toList) = .ok s.toDraft ∧
      Settings.read (Text.ofBytes s.print.toUTF8.data.toList) = .ok s := by
  have hline : "json: yes #1".toList.all (!Yaml.isBreak ·) = true := by decide
  exact ⟨SettingsDraft.check_toDraft _, hline,
    Settings.read_print_eq (SettingsDraft.check_toDraft _) rfl (by simpa using hline)⟩

end Sequitur
