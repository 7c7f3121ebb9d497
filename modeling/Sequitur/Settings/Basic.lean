import Sequitur.Picture.Theme
import Sequitur.Log.Logger

/-!
# Sequitur.Settings.Basic

The settings of the program: how formulas and proofs are shown, and what is
logged where.

Settings as they are written, in a file or on a command line, name the
colour mode and the log level.  Such a `SettingsDraft` becomes `Settings`
once the two names are known ones.
-/

namespace Sequitur

/-- Settings as they are written. -/
structure SettingsDraft where
  unicode : Bool := false
  negation : Bool := true
  highlight : Text := Text.ofString "auto"
  emphasis : Bool := true
  level : Text := Text.ofString "info"
  file : Text := []
  json : Bool := false
deriving DecidableEq

/-- The settings of the program. -/
structure Settings where
  /-- Whether formulas have symbols beyond ASCII. -/
  unicode : Bool := false
  /-- Whether an implication of falsity is written as a negation. -/
  negation : Bool := true
  /-- When colours are written. -/
  highlight : ColorMode := .auto
  /-- Whether the current goal is emphasized. -/
  emphasis : Bool := true
  /-- The least important level that is logged. -/
  level : LogLevel := .info
  /-- The name of the log file; empty for none. -/
  file : Text := []
  /-- Whether logs are written as JSON. -/
  json : Bool := false
deriving DecidableEq

/-- A name in the settings that is unknown. -/
inductive SettingsFault where
  | highlight (name : Text)
  | level (name : Text)
deriving DecidableEq

/-- The message of a fault. -/
def SettingsFault.message : SettingsFault → String
  | highlight name =>
    "invalid style.highlight " ++ name.quoted ++ ", expected auto, always or never"
  | level name => "invalid log.level " ++ name.quoted ++ ", expected debug, info, warn or error"

namespace Settings

/-- Settings with the names of the colour mode and the level. -/
def toDraft (s : Settings) : SettingsDraft :=
  { unicode := s.unicode, negation := s.negation, highlight := Text.ofString s.highlight.name,
    emphasis := s.emphasis, level := Text.ofString s.level.name, file := s.file, json := s.json }

/-- The way formulas are written. -/
def style (s : Settings) : Style := { unicode := s.unicode, negation := s.negation }

end Settings

namespace SettingsDraft

/-- The level with a name, which is written in small letters here. -/
def level? (name : Text) : Option LogLevel :=
  LogLevel.all.find? fun level => Text.ofString level.name = name

/-- Looks up the names, the colour mode first. -/
def check (d : SettingsDraft) : Except SettingsFault Settings :=
  match ColorMode.ofName? d.highlight with
  | none => .error (.highlight d.highlight)
  | some highlight =>
    match level? d.level with
    | none => .error (.level d.level)
    | some level =>
      .ok { unicode := d.unicode, negation := d.negation, highlight, emphasis := d.emphasis,
            level, file := d.file, json := d.json }

/-- The names of settings are known. -/
theorem check_toDraft (s : Settings) : s.toDraft.check = .ok s := by
  obtain ⟨_, _, highlight, _, level, _, _⟩ := s
  have mode : ColorMode.ofName? (Text.ofString highlight.name) = some highlight := by
    cases highlight <;> decide
  have found : level? (Text.ofString level.name) = some level := by cases level <;> decide
  simp only [check, Settings.toDraft, mode, found]

end SettingsDraft

end Sequitur
