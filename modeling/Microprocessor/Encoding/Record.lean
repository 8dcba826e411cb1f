import Microprocessor.Encoding.Decoded
import Microprocessor.Text.Json
import Microprocessor.Word.Width

/-! # Records of decoded instructions

    A record shows an instruction field by field, as JSON.  What follows is
    common to every instruction set. -/

namespace Microprocessor

/-- A mnemonic as records write it: a capital, then small letters. -/
def capitalised (mnemonic : String) : String :=
  match mnemonic.toList with
  | [] => ""
  | first :: rest => String.ofList (first.toUpper :: rest.map Char.toLower)

/-- The name of a width in records. -/
def Width.name : Width → String
  | .byte => "Byte"
  | .word => "Word"

instance : JsonForm Width := ⟨fun width => width.name⟩

/-- A record: first the fields of the instruction set, then those that every
    instruction has. -/
def instructionRecord {ι : Type} [Decoded ι] (fields : List (String × Json)) (instruction : ι) :
    Json :=
  let common : List (String × Json) :=
    [("text", Decoded.text instruction),
      ("number", Decoded.opcodeNumber instruction),
      ("length", Decoded.length instruction),
      ("clocks", Decoded.clocks instruction),
      ("writes_pc", Decoded.writesProgramCounter instruction),
      ("static_target", Decoded.hasStaticTarget instruction),
      ("unknown", Decoded.isUnknown instruction)]
  .object (fields ++ common)

end Microprocessor
