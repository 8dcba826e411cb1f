import Microprocessor.Word.Hexadecimal

/-! # Register snapshots

    A copy of the visible registers between two instructions, by name, with
    its text: eight registers to a line, and the flags on a line of their
    own. -/

namespace Microprocessor

/-- A register's name and value. -/
structure NamedValue where
  name : String
  value : UInt32
  deriving DecidableEq

/-- The register as text: four hexadecimal digits, or eight for a value that
    needs more. -/
def NamedValue.text (register : NamedValue) : String :=
  register.name ++ "=" ++ hex (if 0xFFFF < register.value then 8 else 4) register.value.toNat

/-- The visible registers. -/
structure RegisterSnapshot where
  architecture : String
  /-- The linear address of the next instruction. -/
  programCounter : UInt32
  registers : List NamedValue
  flags : String
  deriving DecidableEq

namespace RegisterSnapshot

/-- The value of the register with a name. -/
def get? (snapshot : RegisterSnapshot) (name : String) : Option UInt32 :=
  (snapshot.registers.find? fun register => register.name == name).map NamedValue.value

/-- What stands before the register with `index` others in front of it. -/
def separator (index : Nat) : String :=
  if index = 0 then "" else if index % 8 = 0 then "\n" else " "

/-- The snapshot as text. -/
def text (snapshot : RegisterSnapshot) : String :=
  let parts := snapshot.registers.mapIdx fun index register => separator index ++ register.text
  String.join parts ++ "\nflags=" ++ snapshot.flags

end RegisterSnapshot

end Microprocessor
