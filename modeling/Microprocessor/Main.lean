import Microprocessor.Terminal.Launch
import Microprocessor.Terminal.Pace

/-! # The command line

    Reads the image, runs it, and prints what the session shows as it goes.  Lines of
    input are read beside the run, so that a command is obeyed whenever it is typed. -/

namespace Microprocessor

open Terminal

/-! ## Output -/

/-- What is shown on a screen that was not shown before. -/
def shownSince (earlier screen : Screen) : Screen where
  output := screen.output.extract earlier.output.size screen.output.size
  errors := String.ofList (screen.errors.toList.drop earlier.errors.length)

/-- Prints what is shown. -/
def printScreen (screen : Screen) : IO Unit := do
  unless screen.output.isEmpty do
    let stdout ← IO.getStdout
    stdout.write ⟨screen.output⟩
    stdout.flush
  unless screen.errors.isEmpty do
    (← IO.getStderr).putStr screen.errors

/-- Prints what an ending shows beside what has been printed, and gives its status. -/
def printEnding (printed : Screen) (ending : Ending) : IO UInt32 := do
  printScreen (shownSince printed ending.screen)
  return UInt32.ofNat ending.exitCode

/-! ## Input -/

/-- A line of input that is being read. -/
abbrev Reading : Type := Task (Except IO.Error String)

/-- Begins to read a line of input, on a thread of its own.  The program does not end
    before a read that is still going on. -/
def beginReading : IO Reading := do
  let stdin ← IO.getStdin
  IO.asTask stdin.getLine .dedicated

/-- What happens next: a line has been typed, the input has ended, or else the machine
    makes a move.  Where it waits for a command nothing happens before the input has
    something.  After the end of the input there is nothing more to be read. -/
def nextHappening {κ ι : Type} (session : Session κ ι) :
    Option Reading → IO (Happening × Option Reading)
  | none => return (.turn, none)
  | some reading => do
    unless session.isBlocked do
      unless ← IO.hasFinished reading do
        return (.turn, reading)
    match ← IO.wait reading with
    | .error _ => return (.close, none)
    | .ok line =>
      if line.isEmpty then return (.close, none) else return (.line line, ← beginReading)

/-! ## Running -/

/-- Sleeps as long as is owed. -/
def settleDebt (debt : SleepDebt) : IO SleepDebt := do
  if debt.due = 0 then return debt
  let start ← IO.monoNanosNow
  IO.sleep (UInt32.ofNat debt.due)
  return debt.pay ((← IO.monoNanosNow) - start)

/-- Lets the session take one thing after another to the end. -/
partial def interact {κ ι : Type} [Core κ ι] [Decoded ι] (options : Options)
    (reading : Option Reading) (debt : SleepDebt) (session : Session κ ι) : IO UInt32 := do
  let (happening, reading) ← nextHappening session reading
  let (after, result) := session.take happening
  printScreen (shownSince session.screen after.screen)
  match result with
  | some result => printEnding after.screen (conclude options after result)
  | none =>
    let passed : Duration :=
      ⟨after.pipeline.clock.elapsed.nanoseconds - session.pipeline.clock.elapsed.nanoseconds⟩
    let debt ← settleDebt (debt.charge (options.speed.realNanoseconds passed))
    interact options reading debt after

/-- Runs a session that may have been launched. -/
def runLaunched {κ ι : Type} [Core κ ι] [Decoded ι] (options : Options) :
    Except LaunchError (Session κ ι) → IO UInt32
  | .ok session => do interact options (← beginReading) .none session
  | .error failure => printEnding .blank (failing .blank failure.message)

/-- Reads the contents of a file. -/
def readImage (name : String) : IO (Except LaunchError (List UInt8)) := do
  try
    return .ok (← IO.FS.readBinFile name).data.toList
  catch
    | .noFileOrDirectory .. => return .error .noSuchFile
    | failure => return .error (.unreadable (toString failure))

/-- Runs what the options ask for. -/
def runOptions (options : Options) : IO UInt32 := do
  match ← readImage options.image with
  | .error failure => printEnding .blank (failing .blank failure.message)
  | .ok image =>
    match options.processor with
    | .x86 => runLaunched options (launchX86 options image)
    | .arm => runLaunched options (launchArm options image)

end Microprocessor

open Microprocessor Terminal in
/-- Runs the program that the arguments name. -/
def main (arguments : List String) : IO UInt32 := do
  match Options.ofArguments arguments with
  | .error failure =>
    (← IO.getStderr).putStrLn failure.message
    return 2
  | .ok options => runOptions options
