import Microprocessor.Word.Width

/-! # 8086 registers

    The general registers by byte and by word, and the segment registers, in
    the order of their numbers in encodings. -/

namespace Microprocessor.X86

/-- The byte registers, in encoding order. -/
inductive ByteRegister
  | al | cl | dl | bl | ah | ch | dh | bh
  deriving DecidableEq

/-- The word registers, in encoding order. -/
inductive WordRegister
  | ax | cx | dx | bx | sp | bp | si | di
  deriving DecidableEq

/-- The segment registers, in encoding order. -/
inductive SegmentRegister
  | es | cs | ss | ds
  deriving DecidableEq

namespace ByteRegister

/-- The register with a number, of which the low three bits count. -/
def ofIndex (n : UInt8) : ByteRegister :=
  match n.toNat % 8 with
  | 0 => .al
  | 1 => .cl
  | 2 => .dl
  | 3 => .bl
  | 4 => .ah
  | 5 => .ch
  | 6 => .dh
  | _ => .bh

/-- The word register that holds the byte, and whether as its high half. -/
def container : ByteRegister → WordRegister × Bool
  | .al => (.ax, false)
  | .cl => (.cx, false)
  | .dl => (.dx, false)
  | .bl => (.bx, false)
  | .ah => (.ax, true)
  | .ch => (.cx, true)
  | .dh => (.dx, true)
  | .bh => (.bx, true)

/-- The register's name. -/
def name : ByteRegister → String
  | .al => "AL"
  | .cl => "CL"
  | .dl => "DL"
  | .bl => "BL"
  | .ah => "AH"
  | .ch => "CH"
  | .dh => "DH"
  | .bh => "BH"

end ByteRegister

namespace WordRegister

/-- The register with a number, of which the low three bits count. -/
def ofIndex (n : UInt8) : WordRegister :=
  match n.toNat % 8 with
  | 0 => .ax
  | 1 => .cx
  | 2 => .dx
  | 3 => .bx
  | 4 => .sp
  | 5 => .bp
  | 6 => .si
  | _ => .di

/-- The register's number. -/
def index : WordRegister → Nat
  | .ax => 0
  | .cx => 1
  | .dx => 2
  | .bx => 3
  | .sp => 4
  | .bp => 5
  | .si => 6
  | .di => 7

/-- The register's name. -/
def name : WordRegister → String
  | .ax => "AX"
  | .cx => "CX"
  | .dx => "DX"
  | .bx => "BX"
  | .sp => "SP"
  | .bp => "BP"
  | .si => "SI"
  | .di => "DI"

end WordRegister

namespace SegmentRegister

/-- The register with a number, of which the low two bits count. -/
def ofIndex (n : UInt8) : SegmentRegister :=
  match n.toNat % 4 with
  | 0 => .es
  | 1 => .cs
  | 2 => .ss
  | _ => .ds

/-- The register's number. -/
def index : SegmentRegister → Nat
  | .es => 0
  | .cs => 1
  | .ss => 2
  | .ds => 3

/-- The register's name. -/
def name : SegmentRegister → String
  | .es => "ES"
  | .cs => "CS"
  | .ss => "SS"
  | .ds => "DS"

end SegmentRegister

/-- A general register of either width. -/
inductive Register
  | byte (register : ByteRegister)
  | word (register : WordRegister)
  deriving DecidableEq

namespace Register

/-- The register of a width with a number, of which the low three bits count. -/
def ofIndex : Width → UInt8 → Register
  | .byte, n => .byte (.ofIndex n)
  | .word, n => .word (.ofIndex n)

/-- The width of the register. -/
def width : Register → Width
  | .byte _ => .byte
  | .word _ => .word

/-- AL or AX, as the width says. -/
def accumulator : Width → Register
  | .byte => .byte .al
  | .word => .word .ax

/-- The register's name. -/
def name : Register → String
  | .byte register => register.name
  | .word register => register.name

end Register

end Microprocessor.X86
