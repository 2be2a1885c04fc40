import Baby.Shell.Command

/-! The program: the command line over the files and streams of the system. -/
namespace Baby.Main

def readFault : IO.Error → ReadFault
  | .noFileOrDirectory .. => .notFound
  | .inappropriateType .. => .isDirectory
  | e => .other (toString e)

def readFile (path : String) : IO (Except ReadFault (List UInt8)) := do
  try
    return .ok (← IO.FS.readBinFile path).toList
  catch e =>
    return .error (readFault e)

def filesFor : Option String → IO Files
  | none => return fun _ => .error .notFound
  | some path => do
      let found ← if path.contains (Char.ofNat 0) then pure (.error .notFound) else readFile path
      return fun _ => found

def crash (c : Crash) : IO UInt32 := do
  IO.eprintln c.message
  return 1

partial def talk (input output : IO.FS.Stream) (sh : Shell) : IO UInt32 := do
  output.putStr Shell.prompt
  output.flush
  let line ← input.getLine
  if line.isEmpty then
    output.putStr "\n"
    return 0
  if Shell.isExit line then
    return 0
  let line := Shell.chomp line
  match sh.handle (← filesFor (Shell.scriptOf? line)) line with
  | .ok (written, sh) =>
      output.putStr written
      talk input output sh
  | .error c => crash c

def run (args : List String) : IO UInt32 := do
  let debug := ((← IO.getEnv "BABYDEBUG").getD "") ≠ ""
  let output ← IO.getStdout
  match Command.Action.ofArgs args with
  | .shell =>
      output.putStr Command.banner
      talk (← IO.getStdin) output (.new debug)
  | .help =>
      output.putStr Command.usage
      return 0
  | .misuse =>
      output.putStr Command.usage
      return 1
  | .script path =>
      let result := Command.runScript (← filesFor (some path)) debug path
      output.putStr result.out
      match result.exit with
      | .code code => return code.toUInt32
      | .crash cause => crash cause

end Baby.Main

def main (args : List String) : IO UInt32 := Baby.Main.run args
