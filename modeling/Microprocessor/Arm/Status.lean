import Microprocessor.Arm.Operand

/-! # Program status

    A status register holds the condition flags N, Z, C and V, the masks I
    and F of the two interrupts, the state bit T and a mode of five bits.
    Most modes have a stack pointer and a link register of their own: their
    bank.  User and System mode share one, which every mode that is not
    assigned uses too. -/

namespace Microprocessor.Arm

/-- The single bits of a status register. -/
inductive StatusBit
  | negative
  | zero
  | carry
  | overflow
  /-- The interrupt request is masked. -/
  | irqMask
  /-- The fast interrupt request is masked. -/
  | fiqMask
  /-- Instructions are of the 16-bit set. -/
  | thumb
  deriving DecidableEq

/-- The bit alone. -/
def StatusBit.mask : StatusBit → UInt32
  | .negative => 0x80000000
  | .zero => 0x40000000
  | .carry => 0x20000000
  | .overflow => 0x10000000
  | .irqMask => 0x80
  | .fiqMask => 0x40
  | .thumb => 0x20

/-- The assigned modes. -/
inductive Mode
  | user | fiq | irq | supervisor | abort | undefined | system
  deriving DecidableEq

/-- The modes with registers of their own; User stands for System too. -/
inductive Bank
  | user | fiq | irq | supervisor | abort | undefined
  deriving DecidableEq

namespace Mode

/-- The mode's number. -/
def field : Mode → UInt32
  | .user => 0x10
  | .fiq => 0x11
  | .irq => 0x12
  | .supervisor => 0x13
  | .abort => 0x17
  | .undefined => 0x1B
  | .system => 0x1F

/-- The mode with a number. -/
def ofField? (n : UInt32) : Option Mode :=
  match n.toNat with
  | 0x10 => some .user
  | 0x11 => some .fiq
  | 0x12 => some .irq
  | 0x13 => some .supervisor
  | 0x17 => some .abort
  | 0x1B => some .undefined
  | 0x1F => some .system
  | _ => none

/-- The mode's short name. -/
def name : Mode → String
  | .user => "usr"
  | .fiq => "fiq"
  | .irq => "irq"
  | .supervisor => "svc"
  | .abort => "abt"
  | .undefined => "und"
  | .system => "sys"

/-- The bank that the mode uses. -/
def bank : Mode → Bank
  | .user | .system => .user
  | .fiq => .fiq
  | .irq => .irq
  | .supervisor => .supervisor
  | .abort => .abort
  | .undefined => .undefined

end Mode

/-- A program status register. -/
structure Status where
  word : UInt32
  deriving DecidableEq

namespace Status

/-- The condition flags. -/
def flagsMask : UInt32 := 0xF0000000

/-- The bits of the mode. -/
def modeMask : UInt32 := 0x1F

/-- The mode, if it is assigned. -/
def mode? (status : Status) : Option Mode :=
  Mode.ofField? (status.word &&& modeMask)

/-- The bank in use. -/
def bank (status : Status) : Bank :=
  match status.mode? with
  | some mode => mode.bank
  | none => .user

/-- The value of a bit. -/
def get (status : Status) (bit : StatusBit) : Bool :=
  status.word &&& bit.mask != 0

/-- Replaces the value of a bit. -/
def set (status : Status) (bit : StatusBit) (value : Bool) : Status :=
  ⟨if value then status.word ||| bit.mask else status.word &&& ~~~bit.mask⟩

/-- Makes N and Z describe a value. -/
def describe (status : Status) (value : UInt32) : Status :=
  (status.set .negative (bit value 31)).set .zero (value = 0)

/-- Replaces the bits under a mask by those of `value`. -/
def replace (status : Status) (mask value : UInt32) : Status :=
  ⟨(status.word &&& ~~~mask) ||| (value &&& mask)⟩

/-- Whether a condition holds. -/
def satisfies (status : Status) (condition : Condition) : Bool :=
  condition.holds (status.get .negative) (status.get .zero) (status.get .carry)
    (status.get .overflow)

/-- The flags, the masks and the mode as text. -/
def text (status : Status) : String :=
  let letter (bit : StatusBit) (c : Char) : Char := if status.get bit then c else '-'
  let mode := match status.mode? with
    | some mode => mode.name
    | none => "???"
  String.ofList [letter .negative 'N', letter .zero 'Z', letter .carry 'C', letter .overflow 'V',
      ' ', letter .irqMask 'I', letter .fiqMask 'F', ' ']
    ++ mode

end Status

/-- The exceptions that are taken. -/
inductive Exception
  | supervisorCall
  | irq
  | fiq
  deriving DecidableEq

namespace Exception

/-- The mode of the handler. -/
def mode : Exception → Mode
  | .supervisorCall => .supervisor
  | .irq => .irq
  | .fiq => .fiq

/-- The address of the handler. -/
def vector : Exception → UInt32
  | .supervisorCall => 0x08
  | .irq => 0x18
  | .fiq => 0x1C

/-- The status that the handler starts with: its mode, with interrupts
    masked, and the fast ones too if it handles one. -/
def handlerStatus (exception : Exception) (status : Status) : Status :=
  let kept := status.word &&& ~~~(Status.modeMask ||| StatusBit.thumb.mask)
  let entered : Status := ⟨kept ||| exception.mode.field ||| StatusBit.irqMask.mask⟩
  match exception with
  | .fiq => entered.set .fiqMask true
  | _ => entered

end Exception

end Microprocessor.Arm
