import Baby.Shell

/-! The command line: no argument starts the shell, one runs a script. -/
namespace Baby.Command

def usage : String :=
  outputLines
    ["", "Baby Language Interpreter", "", "Usage:", "    baby <script.baby>", "", "Arguments:",
      "    <script.baby>", "        Path to a Baby language source file to execute.", "", "Example:",
      "    baby hello.baby", "", "Or run with no arguments to enter interactive mode (REPL).", "",
      "Options:", "    -h, --help", "        Show this help message and exit."]

def banner : String :=
  outputLines ["Baby Language Interpreter - REPL", "Type `exit` or `quit` to leave."]

def interrupted : String := outputLines ["\nInterrupted."]

inductive Exit where
  | code (code : Nat)
  | crash (cause : Crash)
  deriving DecidableEq, Repr

structure Result where
  out : String
  exit : Exit
  deriving DecidableEq, Repr

/-- Runs a script. Of its result only an error is shown. -/
def runScript (files : Files) (debug : Bool) (path : String) : Result :=
  if path.contains (Char.ofNat 0) then ⟨"", .crash .nullInPath⟩
  else
    match files.load path with
    | .error f => ⟨outputLines [loadMessage path (some f.reason)], .code 1⟩
    | .ok source =>
        match (Shell.new debug).evaluate source with
        | (.finished none, out, _) => ⟨out, .code 0⟩
        | (.finished (some v), out, sh) =>
            let st := sh.session.store
            if st.tag v = .error then ⟨out ++ outputLines [st.inspect v], .code 1⟩ else ⟨out, .code 0⟩
        | (.refused errors, out, _) =>
            ⟨out ++ outputLines [refusalMessage errors.length (some path) ++ ":"] ++ Shell.complaints errors,
              .code 1⟩
        | (.tooDeep, out, _) => ⟨out ++ outputLines [depthMessage], .code 1⟩
        | (.unread halt, out, _) => ⟨out, .crash (.unread halt)⟩
        | (.endless, out, _) => ⟨out, .crash .endless⟩

def runShell (files : Files) (debug interrupt : Bool) (input : String) : Result :=
  let c := Shell.start files debug interrupt input
  match c.close with
  | .crash cause => ⟨banner ++ c.out, .crash cause⟩
  | .interrupt => ⟨banner ++ c.out ++ interrupted, .code 0⟩
  | .input | .exit => ⟨banner ++ c.out, .code 0⟩

inductive Action where
  | shell | help | script (path : String) | misuse
  deriving DecidableEq, Repr

def Action.ofArgs : List String → Action
  | [] => .shell
  | [arg] => if arg = "-h" || arg = "--help" then .help else .script arg
  | _ => .misuse

def run (files : Files) (debug interrupt : Bool) (input : String) (args : List String) : Result :=
  match Action.ofArgs args with
  | .shell => runShell files debug interrupt input
  | .help => ⟨usage, .code 0⟩
  | .script path => runScript files debug path
  | .misuse => ⟨usage, .code 1⟩

end Baby.Command
