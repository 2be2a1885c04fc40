import Baby.Session
import Baby.Shell.Script
import Baby.Text.Blank
import Baby.Text.Lines

/-! The shell: each line is a source text or the path of a script, and all run in one session. -/
namespace Baby

inductive Crash where
  | unread (halt : Halt)
  | nullInPath
  | endless
  deriving DecidableEq, Repr

def Crash.message : Crash → String
  | unread halt => halt.message
  | nullInPath => "embedded null byte"
  | endless => "too many rounds"

def depthMessage : String := "ERROR: maximum recursion depth exceeded"

def outputLines (ls : List String) : String := String.join (ls.map (· ++ "\n"))

structure Shell where
  session : Session
  debug : Bool

namespace Shell

def new (debug : Bool) : Shell := ⟨.new, debug⟩

def trace (source : String) (t : Tree) : String :=
  outputLines ["\nTokens:\n", Token.renderAll (tokenize source), "\nAST:\n", t.render, " "]

def evaluate (sh : Shell) (source : String) : Ending × String × Shell :=
  match parse source with
  | .error halt => (.unread halt, "", sh)
  | .ok ⟨tree, []⟩ =>
      let (ending, session) := sh.session.execute tree
      let (printed, session) := session.takePrinted
      let traced := if sh.debug then trace source tree else ""
      (ending, traced ++ printed, { sh with session := session })
  | .ok ⟨_, errors⟩ => (.refused errors, "", sh)

def complaints (errors : List SyntaxError) : String :=
  outputLines (errors.map fun e => "\t" ++ e.message)

def isScriptPath (text : String) : Bool :=
  let cs := text.toList
  ".baby".toList.isSuffixOf cs && 5 < cs.length && cs.all fun c => !Text.isBlank c

def scriptOf? (line : String) : Option String :=
  let text := Text.strip line
  if isScriptPath text then some text else none

def source (files : Files) (line : String) : Except Crash (Except String String) :=
  match scriptOf? line with
  | none => .ok (.ok line)
  | some path =>
      if path.contains (Char.ofNat 0) then .error .nullInPath
      else
        match files.load path with
        | .ok text => .ok (.ok text)
        | .error f => .ok (.error (loadMessage path (some f.reason)))

/-- The line that shows a result. It is printed under the limit that the run was under. -/
def shown (sh : Shell) (v : Value) : String :=
  (sh.session.store.inspectWithin sh.session.limits.depth [] v).getD depthMessage

def handle (files : Files) (sh : Shell) (line : String) : Except Crash (String × Shell) :=
  if Text.strip line = "" then .ok ("", sh)
  else do
    match ← source files line with
    | .error message => return (outputLines [message], sh)
    | .ok text =>
        match sh.evaluate text with
        | (.finished none, out, sh) => return (out, sh)
        | (.finished (some v), out, sh) => return (out ++ outputLines [sh.shown v], sh)
        | (.refused errors, out, sh) => return (out ++ complaints errors, sh)
        | (.tooDeep, out, sh) => return (out ++ outputLines [depthMessage], sh)
        | (.unread halt, _, _) => throw (.unread halt)
        | (.endless, _, _) => throw .endless

def prompt : String := ">> "

def isExit (line : String) : Bool := Text.strip line = "exit" || Text.strip line = "quit"

def chomp (line : String) : String :=
  String.ofList (Text.dropEndWhile (fun c => c = '\r' || c = '\n') line.toList)

inductive Close where
  | input | exit | interrupt
  | crash (cause : Crash)
  deriving DecidableEq, Repr

structure Conversation where
  out : String
  close : Close
  deriving DecidableEq, Repr

def converse (files : Files) (atEnd : Close) (sh : Shell) (out : String) : List String → Conversation
  | [] => ⟨out ++ prompt, atEnd⟩
  | line :: lines =>
      if isExit line then ⟨out ++ prompt, .exit⟩
      else
        match sh.handle files (chomp line) with
        | .ok (written, sh) => converse files atEnd sh (out ++ prompt ++ written) lines
        | .error cause => ⟨out ++ prompt, .crash cause⟩

def start (files : Files) (debug interrupt : Bool) (input : String) : Conversation :=
  let c := converse files (if interrupt then .interrupt else .input) (new debug) "" (Text.lines input)
  if c.close = .input then { c with out := c.out ++ "\n" } else c

end Shell
end Baby
