import Microprocessor.Word.LittleEndian
import Microprocessor.X86.Flags
import Microprocessor.X86.Register

/-! # The 8086 register file

    Four word registers are divided into bytes that share their storage; four
    more hold pointers and indices; four hold segments.  Beside them are the
    instruction pointer and the flags. -/

namespace Microprocessor.X86

/-- A word whose bytes are registers too. -/
structure DividableRegister where
  word : UInt16
  deriving DecidableEq

namespace DividableRegister

/-- The low byte. -/
def low (register : DividableRegister) : UInt8 :=
  lowByte register.word

/-- The high byte. -/
def high (register : DividableRegister) : UInt8 :=
  highByte register.word

/-- Replaces the low byte. -/
def setLow (register : DividableRegister) (value : UInt8) : DividableRegister :=
  ⟨(register.word &&& (0xFF00 : UInt16)) ||| value.toUInt16⟩

/-- Replaces the high byte. -/
def setHigh (register : DividableRegister) (value : UInt8) : DividableRegister :=
  ⟨(register.word &&& (0x00FF : UInt16)) ||| (value.toUInt16 <<< 8)⟩

end DividableRegister

/-- The registers of the processor. -/
structure RegisterFile where
  ax : DividableRegister
  cx : DividableRegister
  dx : DividableRegister
  bx : DividableRegister
  sp : UInt16
  bp : UInt16
  si : UInt16
  di : UInt16
  es : UInt16
  cs : UInt16
  ss : UInt16
  ds : UInt16
  ip : UInt16
  flags : Flags
  deriving DecidableEq

namespace RegisterFile

/-- Every register zero, every flag clear. -/
def zero : RegisterFile where
  ax := ⟨0⟩
  cx := ⟨0⟩
  dx := ⟨0⟩
  bx := ⟨0⟩
  sp := 0
  bp := 0
  si := 0
  di := 0
  es := 0
  cs := 0
  ss := 0
  ds := 0
  ip := 0
  flags := .clear

/-- The value of a word register. -/
def word (regs : RegisterFile) : WordRegister → UInt16
  | .ax => regs.ax.word
  | .cx => regs.cx.word
  | .dx => regs.dx.word
  | .bx => regs.bx.word
  | .sp => regs.sp
  | .bp => regs.bp
  | .si => regs.si
  | .di => regs.di

/-- Replaces the value of a word register. -/
def setWord (regs : RegisterFile) (register : WordRegister) (value : UInt16) : RegisterFile :=
  match register with
  | .ax => { regs with ax := ⟨value⟩ }
  | .cx => { regs with cx := ⟨value⟩ }
  | .dx => { regs with dx := ⟨value⟩ }
  | .bx => { regs with bx := ⟨value⟩ }
  | .sp => { regs with sp := value }
  | .bp => { regs with bp := value }
  | .si => { regs with si := value }
  | .di => { regs with di := value }

/-- The value of a byte register. -/
def byte (regs : RegisterFile) : ByteRegister → UInt8
  | .al => regs.ax.low
  | .cl => regs.cx.low
  | .dl => regs.dx.low
  | .bl => regs.bx.low
  | .ah => regs.ax.high
  | .ch => regs.cx.high
  | .dh => regs.dx.high
  | .bh => regs.bx.high

/-- Replaces the value of a byte register. -/
def setByte (regs : RegisterFile) (register : ByteRegister) (value : UInt8) : RegisterFile :=
  match register with
  | .al => { regs with ax := regs.ax.setLow value }
  | .cl => { regs with cx := regs.cx.setLow value }
  | .dl => { regs with dx := regs.dx.setLow value }
  | .bl => { regs with bx := regs.bx.setLow value }
  | .ah => { regs with ax := regs.ax.setHigh value }
  | .ch => { regs with cx := regs.cx.setHigh value }
  | .dh => { regs with dx := regs.dx.setHigh value }
  | .bh => { regs with bx := regs.bx.setHigh value }

/-- The value of a general register. -/
def read (regs : RegisterFile) : Register → UInt16
  | .byte register => (regs.byte register).toUInt16
  | .word register => regs.word register

/-- Replaces the value of a general register by the low bits of `value`. -/
def write (regs : RegisterFile) (register : Register) (value : UInt16) : RegisterFile :=
  match register with
  | .byte r => regs.setByte r (lowByte value)
  | .word r => regs.setWord r value

/-- The value of a segment register. -/
def segment (regs : RegisterFile) : SegmentRegister → UInt16
  | .es => regs.es
  | .cs => regs.cs
  | .ss => regs.ss
  | .ds => regs.ds

/-- Replaces the value of a segment register. -/
def setSegment (regs : RegisterFile) (register : SegmentRegister) (value : UInt16) :
    RegisterFile :=
  match register with
  | .es => { regs with es := value }
  | .cs => { regs with cs := value }
  | .ss => { regs with ss := value }
  | .ds => { regs with ds := value }

/-- Replaces the instruction pointer. -/
def setIp (regs : RegisterFile) (value : UInt16) : RegisterFile :=
  { regs with ip := value }

/-- Replaces the flags. -/
def setFlags (regs : RegisterFile) (flags : Flags) : RegisterFile :=
  { regs with flags }

end RegisterFile

end Microprocessor.X86
