import Microprocessor.Control.StepControl
import Microprocessor.Text.Blank

/-! # Commands of a single-step session

    At the prompt a line holds one command, with white space around it or not;
    an empty line steps. -/

namespace Microprocessor.Terminal

/-- What a session can be told. -/
inductive Command
  | step
  /-- Run on with step mode off. -/
  | go
  | toggle
  | quit
  deriving DecidableEq

namespace Command

/-- The command on a line. -/
def ofLine? (line : String) : Option Command :=
  match trimmed line with
  | "" | "s" => some .step
  | "c" => some .go
  | "t" => some .toggle
  | "q" => some .quit
  | _ => none

/-- What the command does. -/
def apply (command : Command) (control : StepControl) : StepControl :=
  match command with
  | .step => control.resume
  | .go => control.setArmed false
  | .toggle => control.toggle.2
  | .quit => control.requestStop

/-- The complaint about a line that holds no command. -/
def complaint (line : String) : String :=
  "unknown command '" ++ line ++ "' (try s, c, t or q)"

end Command

end Microprocessor.Terminal
