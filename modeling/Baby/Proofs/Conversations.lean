import Baby.Proofs.Lexemes
import Baby.Proofs.Relining
import Baby.Proofs.Termination
import Baby.Shell

/-! Conversations with the shell. Whatever a line says, the shell answers it and goes on to the next, but for
three things it has no answer to: a script's path with a null in it, an integer that is too long to be read,
and a run that never ends. -/
namespace Baby
open Text.Digit (isDigit)

/-! Long integers -/

namespace Shell

inductive Runs (files : Files) (line : String) : String → Prop where
  | itself (some : Text.strip line ≠ "") (plain : scriptOf? line = none) : Runs files line line
  | script {path text} (asked : scriptOf? line = some path) (proper : path.contains (Char.ofNat 0) = false)
      (loaded : files.load path = .ok text) : Runs files line text

inductive Fatal (files : Files) (sh : Shell) (line : String) : Crash → Prop where
  | path {path} (asked : scriptOf? line = some path) (null : path.contains (Char.ofNat 0) = true) :
      Fatal files sh line .nullInPath
  | literal {text o} (runs : Runs files line text) (long : parse text = .error (.oversize o)) :
      Fatal files sh line (.unread (.oversize o))
  | endless {text} (runs : Runs files line text) (never : (sh.session.run text).1 = .endless) :
      Fatal files sh line .endless

section
variable {files : Files} {sh : Shell} {line text : String} {cause : Crash}

end

/-! Conversations -/

inductive Handles (files : Files) : Shell → List String → String → Shell → Prop where
  | none {sh} : Handles files sh [] "" sh
  | next {sh sh' last line lines written out}
      (handled : sh.handle files (chomp line) = .ok (written, sh'))
      (rest : Handles files sh' lines out last) :
      Handles files sh (line :: lines) (prompt ++ written ++ out) last

def spoken (lines : List String) : List String := lines.takeWhile fun line => !isExit line

/- A conversation gets through those lines, or comes to a fatal one among them. -/
inductive Course (files : Files) (atEnd : Close) (sh : Shell) (lines : List String) :
    String → Close → Prop where
  | whole {written last} (handled : Handles files sh (spoken lines) written last) :
      Course files atEnd sh lines (written ++ prompt) (if lines.any isExit then .exit else atEnd)
  | fatal {front line back written sh' cause} (place : spoken lines = front ++ line :: back)
      (handled : Handles files sh front written sh') (fatal : Fatal files sh' (chomp line) cause) :
      Course files atEnd sh lines (written ++ prompt) (.crash cause)

section
variable {files : Files} {atEnd close : Close} {sh sh' : Shell} {line written rest : String}
  {lines : List String}

theorem spokenMore (goes : isExit line = false) : spoken (line :: lines) = line :: spoken lines := by
  simp [spoken, goes]

theorem Course.after (goes : isExit line = false)
    (handled : sh.handle files (chomp line) = .ok (written, sh'))
    (h : Course files atEnd sh' lines rest close) :
    Course files atEnd sh (line :: lines) (prompt ++ written ++ rest) close := by
  cases h with
  | whole others =>
    have through := Handles.next handled others
    rw [← spokenMore goes] at through
    have course : Course files atEnd sh (line :: lines) _ _ := .whole through
    rw [← String.append_assoc]
    simpa [goes] using course
  | @fatal front stop back _ _ _ place others fatal =>
    have further : spoken (line :: lines) = (line :: front) ++ stop :: back := by
      rw [spokenMore goes, place]
      rfl
    rw [← String.append_assoc]
    exact .fatal further (.next handled others) fatal

end

end Shell

end Baby
