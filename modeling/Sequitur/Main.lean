import Sequitur.Program.Run

/-!
# Sequitur.Main

The command `prove`: the program on the files of the machine.
-/

namespace Sequitur.Machine

/-- Why a file cannot be used. -/
def fault (e : IO.Error) : FileFault :=
  match e with
  | .noFileOrDirectory _ _ _ => .missing
  | .inappropriateType _ _ _ => .isDirectory
  | e => .other (toString e)

/-- The text of bytes. -/
def textOf (bytes : ByteArray) : Text := Text.ofBytes bytes.data.toList

/-- Reads a file. -/
def read (path : Text) : IO (Except FileError Text) := do
  try
    let bytes ← IO.FS.readBinFile path.shown
    return .ok (textOf bytes)
  catch e => return .error ⟨fault e == .isDirectory, path, fault e⟩

/-- Appends to a file. -/
def append (path : Text) (more : String) : IO (Except FileError Unit) := do
  try
    let handle ← IO.FS.Handle.mk path.shown .append
    handle.putStr more
    return .ok ()
  catch e => return .error ⟨false, path, fault e⟩

/-- Reads a stream to its end. -/
partial def drain (stream : IO.FS.Stream) (bytes : ByteArray) : IO ByteArray := do
  let more ← stream.read 65536
  if more.isEmpty then return bytes else drain stream (bytes ++ more)

/-- The directory of the user's settings. -/
def settingsDirectory : IO (Option Text) := do
  match ← IO.getEnv "XDG_CONFIG_HOME" with
  | some path =>
    if path.isEmpty then home
    else return if path.startsWith "/" then some (Text.ofString path) else none
  | none => home
where
  /-- The directory below the user's home. -/
  home : IO (Option Text) := do
    match ← IO.getEnv "HOME" with
    | some path =>
      return if path.isEmpty then none else some (Text.ofString (path ++ "/.config"))
    | none => return none

/-- The machine as a host. -/
def host : IO (Host IO) := do
  let directory ← settingsDirectory
  return {
    settingsDirectory := directory
    input := do return textOf (← drain (← IO.getStdin) .empty)
    read
    append }

end Sequitur.Machine

/-- Runs the program on the arguments of the command. -/
def main (args : List String) : IO UInt32 := do
  let result ← Sequitur.Program.run (← Sequitur.Machine.host) (args.map Sequitur.Text.ofString)
  (← IO.getStdout).putStr result.output
  (← IO.getStderr).putStr result.errors
  return result.code.toUInt32
