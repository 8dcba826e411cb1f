import Microprocessor.Word.Hexadecimal
import Microprocessor.Word.Width

/-! # Input and output ports

    Devices answer on ranges of port numbers.  A transfer goes to the device
    with the greatest first port that is not past the addressed one, if its
    range reaches that far.

      * `PortDevice` is what a device can do;
      * `PortMap.attach` adds a device unless its range meets another;
      * `PortMap.input` and `PortMap.output` route a transfer. -/

namespace Microprocessor

/-- Devices that answer port transfers. -/
class PortDevice (δ : Type) where
  /-- The device's name. -/
  name : δ → String
  /-- Reads a port; the low bits of the value count. -/
  input : δ → Width → UInt16 → UInt16 × δ
  /-- Writes a value to a port. -/
  output : δ → Width → UInt16 → UInt16 → δ

/-- A range of ports from the first to the last. -/
structure PortRange where
  first : UInt16
  last : UInt16
  deriving DecidableEq

namespace PortRange

/-- Whether two ranges meet, for ranges that hold a port. -/
def meets (a b : PortRange) : Bool :=
  a.first ≤ b.last && b.first ≤ a.last

/-- The range as text. -/
def text (range : PortRange) : String :=
  markedHex 4 range.first.toNat ++ "..=" ++ markedHex 4 range.last.toNat

end PortRange

/-- A requested range that meets one in use. -/
structure AttachError where
  requested : PortRange
  existing : PortRange
  existingName : String
  deriving DecidableEq

/-- The report for a range that meets one in use. -/
def AttachError.message (failure : AttachError) : String :=
  "ports " ++ failure.requested.text ++ " overlap ports " ++ failure.existing.text
    ++ " already used by " ++ failure.existingName

/-- No device answers on the port. -/
structure UnattachedPort where
  port : UInt16
  deriving DecidableEq

/-- A device and the range it answers on. -/
structure Attachment (δ : Type) where
  range : PortRange
  device : δ

/-- The attached devices, by ascending first port. -/
structure PortMap (δ : Type) where
  attachments : List (Attachment δ)

namespace PortMap

variable {δ : Type}

/-- No devices. -/
def empty : PortMap δ := ⟨[]⟩

/-- Puts an attachment in its place among others.  One with the same first
    port gives way. -/
def insert (attachment : Attachment δ) : List (Attachment δ) → List (Attachment δ)
  | [] => [attachment]
  | other :: rest =>
    if attachment.range.first < other.range.first then attachment :: other :: rest
    else if attachment.range.first = other.range.first then attachment :: rest
    else other :: insert attachment rest

/-- Attaches a device to a range of ports. -/
def attach [PortDevice δ] (ports : PortMap δ) (range : PortRange) (device : δ) :
    Except AttachError (PortMap δ) :=
  match ports.attachments.find? fun other => other.range.meets range with
  | some other => .error ⟨range, other.range, PortDevice.name other.device⟩
  | none => .ok ⟨insert ⟨range, device⟩ ports.attachments⟩

/-- The ranges in use and the names of their devices. -/
def attached [PortDevice δ] (ports : PortMap δ) : List (PortRange × String) :=
  ports.attachments.map fun attachment => (attachment.range, PortDevice.name attachment.device)

/-- The last attachment that starts at or before a port. -/
def candidate? (port : UInt16) (attachments : List (Attachment δ)) : Option (Attachment δ) :=
  (attachments.filter fun attachment => attachment.range.first ≤ port).getLast?

/-- The attachment that answers on a port. -/
def attachmentFor? (ports : PortMap δ) (port : UInt16) : Option (Attachment δ) :=
  (candidate? port ports.attachments).filter fun attachment => port ≤ attachment.range.last

/-- Replaces the device of the attachment that starts where another does. -/
def replaceDevice (ports : PortMap δ) (range : PortRange) (device : δ) : PortMap δ :=
  ⟨ports.attachments.map fun attachment =>
    if attachment.range.first = range.first then { attachment with device } else attachment⟩

/-- Reads a port, down to the width. -/
def input [PortDevice δ] (ports : PortMap δ) (width : Width) (port : UInt16) :
    Except UnattachedPort (UInt16 × PortMap δ) :=
  match ports.attachmentFor? port with
  | some ⟨range, device⟩ =>
    let (value, device) := PortDevice.input device width port
    .ok (value &&& width.mask, ports.replaceDevice range device)
  | none => .error ⟨port⟩

/-- Writes a value, down to the width, to a port. -/
def output [PortDevice δ] (ports : PortMap δ) (width : Width) (port value : UInt16) :
    Except UnattachedPort (PortMap δ) :=
  match ports.attachmentFor? port with
  | some ⟨range, device⟩ =>
    .ok (ports.replaceDevice range (PortDevice.output device width port (value &&& width.mask)))
  | none => .error ⟨port⟩

end PortMap

end Microprocessor
