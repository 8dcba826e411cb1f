import Microprocessor.X86.RegisterFile

/-! # The 8086 registers by name

    The general registers of both widths, the segment registers, IP and FLAGS
    are read and set as words.  A byte register is set to the low byte. -/

namespace Microprocessor.X86

/-- A register that has a name. -/
inductive NamedRegister
  | general (register : Register)
  | segment (register : SegmentRegister)
  | ip
  | flags
  deriving DecidableEq

namespace NamedRegister

/-- The register's name. -/
def name : NamedRegister → String
  | .general register => register.name
  | .segment register => register.name
  | .ip => "IP"
  | .flags => "FLAGS"

/-- Every register. -/
def all : List NamedRegister :=
  let numbers : List UInt8 := [0, 1, 2, 3, 4, 5, 6, 7]
  numbers.map (fun n => .general (.byte (.ofIndex n)))
    ++ numbers.map (fun n => .general (.word (.ofIndex n)))
    ++ (numbers.take 4).map (fun n => .segment (.ofIndex n))
    ++ [.ip, .flags]

/-- The register with a name. -/
def ofName? (name : String) : Option NamedRegister :=
  all.find? fun register => register.name == name

end NamedRegister

namespace RegisterFile

/-- The value of a register. -/
def get (regs : RegisterFile) : NamedRegister → UInt16
  | .general register => regs.read register
  | .segment register => regs.segment register
  | .ip => regs.ip
  | .flags => regs.flags.word

/-- Replaces the value of a register. -/
def put (regs : RegisterFile) (register : NamedRegister) (value : UInt16) : RegisterFile :=
  match register with
  | .general register => regs.write register value
  | .segment register => regs.setSegment register value
  | .ip => regs.setIp value
  | .flags => regs.setFlags (.restore value)

end RegisterFile

end Microprocessor.X86
