import Microprocessor.Storage.PortMap
import Microprocessor.Word.LittleEndian

/-! # The console

    A device that keeps what is written to it.  Of a word it takes the low
    byte.  It has no input: it reads as ones. -/

namespace Microprocessor.Terminal

/-- Everything that has been written. -/
structure Console where
  output : Array UInt8
  deriving DecidableEq

namespace Console

/-- Nothing written. -/
def initial : Console := ⟨#[]⟩

/-- The port unless another is asked for. -/
def defaultPort : UInt16 := 0xE9

end Console

instance : PortDevice Console where
  name _ := "console"
  input console width _ := (width.mask, console)
  output console _ _ value := ⟨console.output.push (lowByte value)⟩

end Microprocessor.Terminal
