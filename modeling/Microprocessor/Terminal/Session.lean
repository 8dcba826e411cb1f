import Microprocessor.Terminal.Command
import Microprocessor.Terminal.Console
import Microprocessor.Terminal.Summary
import Microprocessor.Terminal.Worker

/-! # Sessions

    A session runs a machine whose console, and whose prompts in step mode,
    share one screen.  Before each instruction in step mode it shows the
    instruction and the registers, and prompts.  Lines may be typed at any time,
    and a command among them is obeyed at once.

      * `Happening` is what can happen: the machine makes a move, a line is
        typed, or the input ends;
      * `Session.take` is what comes of one of them, and `Session.play` of one
        after another;
      * `Session.playLines` plays given lines, each where the machine waits. -/

namespace Microprocessor.Terminal

/-- What has been shown, on the screen and beside it. -/
structure Screen where
  output : Array UInt8
  errors : String
  deriving DecidableEq

namespace Screen

/-- Nothing shown. -/
def blank : Screen := ⟨#[], ""⟩

/-- Shows a text. -/
def print (screen : Screen) (text : String) : Screen :=
  { screen with output := screen.output ++ text.toUTF8.data }

/-- Shows a line of complaint. -/
def complain (screen : Screen) (line : String) : Screen :=
  { screen with errors := screen.errors ++ line ++ "\n" }

end Screen

/-- What can happen in a session. -/
inductive Happening
  /-- The machine makes a move. -/
  | turn
  /-- A line is typed. -/
  | line (text : String)
  /-- The input ends. -/
  | close
  deriving DecidableEq

/-- A machine with a console, and its screen. -/
structure Session (κ ι : Type) where
  pipeline : Pipeline κ ι Console InterruptLine
  /-- How many instructions may be executed, if there is a limit. -/
  limit : Option UInt64
  /-- How much of the console's output the screen has shown. -/
  shown : Nat
  screen : Screen

namespace Session

variable {κ ι : Type} [Core κ ι] [Decoded ι]

/-- A session that has not begun. -/
def of (pipeline : Pipeline κ ι Console InterruptLine) (limit : Option UInt64) : Session κ ι :=
  ⟨pipeline, limit, 0, .blank⟩

/-- Applies a function to the step control. -/
def mapControl (session : Session κ ι) (f : StepControl → StepControl) : Session κ ι :=
  { session with pipeline := { session.pipeline with step := f session.pipeline.step } }

/-- What the console has been written. -/
def consoleOutput (pipeline : Pipeline κ ι Console InterruptLine) : Array UInt8 :=
  match pipeline.bus.ports.attachments with
  | [] => #[]
  | attachment :: _ => attachment.device.output

/-- Shows what the console has been written since. -/
def catchUp (session : Session κ ι) : Session κ ι :=
  let output := consoleOutput session.pipeline
  if output.size = session.shown then session
  else
    { session with
      shown := output.size
      screen :=
        { session.screen with
          output := session.screen.output ++ output.extract session.shown output.size } }

/-! ## Prompts -/

/-- The prompt. -/
def prompt : String := "[s]tep [c]ontinue [t]oggle [q]uit> "

/-- The instruction about to be executed, the registers, and the prompt. -/
def promptText (event : StepEvent) : String :=
  hex 8 event.address.toNat ++ "  " ++ event.disassembly ++ "\n"
    ++ event.snapshot.text ++ "\n" ++ prompt

/-- Shows what is about to be executed. -/
def showPrompt (session : Session κ ι) : Session κ ι :=
  match session.pipeline.pendingStep? with
  | some event => { session with screen := session.screen.print (promptText event) }
  | none => session

/-- The line without the line feed it ends with, and without a carriage return
    before that. -/
def lineText (line : String) : String :=
  match line.toList.reverse with
  | '\n' :: '\r' :: rest => String.ofList rest.reverse
  | '\n' :: rest => String.ofList rest.reverse
  | _ => line

/-- Obeys the command on a line, or complains. -/
def obey (session : Session κ ι) (line : String) : Session κ ι :=
  match Command.ofLine? (lineText line) with
  | some command => session.mapControl command.apply
  | none =>
    { session with screen := session.screen.complain (Command.complaint (lineText line)) }

/-- Without further input nobody can step, and step mode ends. -/
def endOfInput (session : Session κ ι) : Session κ ι :=
  session.mapControl fun control => control.setArmed false

/-! ## Moves -/

/-- Makes a move, and says what the session ends with if it does.  It prompts where a
    wait begins. -/
def move (session : Session κ ι) : Session κ ι × Option (Except Fault TickOutcome) :=
  let (pipeline, result) := session.pipeline.tick
  let stepped := catchUp { session with pipeline }
  match result with
  | .ok .executed => (stepped, none)
  | .ok .waiting =>
    if session.pipeline.step.waiting then (stepped, none) else (stepped.showPrompt, none)
  | result => (stepped, some result)

/-- Takes what happens.  The limit goes before everything else. -/
def take (session : Session κ ι) (happening : Happening) :
    Session κ ι × Option (Except Fault TickOutcome) :=
  if limitReached session.limit session.pipeline then (session, some (.ok .executed))
  else
    match happening with
    | .turn => session.move
    | .line text => (session.obey text, none)
    | .close => (session.endOfInput, none)

/-- Takes one thing after another, until the session ends. -/
def play : List Happening → Session κ ι → Session κ ι × Option (Except Fault TickOutcome)
  | [], session =>
    (session, if limitReached session.limit session.pipeline then some (.ok .executed) else none)
  | happening :: later, session =>
    match session.take happening with
    | (session, none) => play later session
    | (session, some result) => (session, some result)

/-! ## Given lines -/

/-- Whether the machine waits for a command. -/
def isBlocked (session : Session κ ι) : Bool :=
  session.pipeline.step.waiting && session.pipeline.step.settle.isNone

/-- What happens next if a line is typed wherever the machine waits for a command, and
    the lines that are left.  When there are none the input ends. -/
def next (session : Session κ ι) (lines : List String) : Happening × List String :=
  if session.isBlocked then
    match lines with
    | [] => (.close, [])
    | line :: rest => (.line line, rest)
  else (.turn, lines)

/-- Takes up to `count` things that happen so. -/
def playLines : Nat → List String → Session κ ι → Session κ ι × Except Fault TickOutcome
  | 0, _, session => (session, .ok .executed)
  | count + 1, lines, session =>
    let (happening, lines) := session.next lines
    match session.take happening with
    | (session, none) => playLines count lines session
    | (session, some result) => (session, result)

/-- Plays lines to the end.  An instruction takes two moves at most, and beside the
    moves there are the lines and the end of the input. -/
def playAll (session : Session κ ι) (lines : List String) :
    Session κ ι × Except Fault TickOutcome :=
  playLines (2 * UInt64.size + lines.length + 1) lines session

end Session

end Microprocessor.Terminal
