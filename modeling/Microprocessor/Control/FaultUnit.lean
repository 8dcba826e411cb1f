import Microprocessor.Control.Fault

/-! # The fault unit

    The fault unit records faults and knows which kinds are masked.  A masked
    fault is recorded and the run goes on; any other stops it.  A new unit
    masks every kind that can be masked.

      * `FaultUnit.fire` records a fault and says whether it stops the run;
      * `FaultUnit.fireAlways` is for faults that cannot be gone on from: if
        the kind turns out to be masked, that is a bug of its own. -/

namespace Microprocessor

/-- One value for each kind of fault. -/
structure FaultTable (α : Type) where
  undefinedInstruction : α
  unattachedPort : α
  queue : α
  bug : α
  deriving DecidableEq

namespace FaultTable

variable {α : Type}

/-- The value for a kind. -/
def get (table : FaultTable α) : FaultKind → α
  | .undefinedInstruction => table.undefinedInstruction
  | .unattachedPort => table.unattachedPort
  | .queue => table.queue
  | .bug => table.bug

/-- Replaces the value for a kind. -/
def set (table : FaultTable α) (kind : FaultKind) (value : α) : FaultTable α :=
  match kind with
  | .undefinedInstruction => { table with undefinedInstruction := value }
  | .unattachedPort => { table with unattachedPort := value }
  | .queue => { table with queue := value }
  | .bug => { table with bug := value }

/-- The same function of the kind, as a table. -/
def ofFunction (f : FaultKind → α) : FaultTable α :=
  ⟨f .undefinedInstruction, f .unattachedPort, f .queue, f .bug⟩

end FaultTable

/-- What is known of one kind of fault. -/
structure FaultStatus where
  kind : FaultKind
  masked : Bool
  /-- The latest fault of the kind, if any. -/
  active : Option Fault
  deriving DecidableEq

/-- The masked kinds and the recorded faults. -/
structure FaultUnit where
  masked : FaultTable Bool
  active : FaultTable (Option Fault)
  deriving DecidableEq

namespace FaultUnit

/-- Every maskable kind masked, nothing recorded. -/
def initial : FaultUnit :=
  ⟨.ofFunction FaultKind.maskable, .ofFunction fun _ => none⟩

/-- The status of a kind. -/
def status (faults : FaultUnit) (kind : FaultKind) : FaultStatus :=
  ⟨kind, faults.masked.get kind, faults.active.get kind⟩

/-- The status of every kind. -/
def statuses (faults : FaultUnit) : List FaultStatus :=
  FaultKind.all.map faults.status

/-- Whether faults of a kind let the run go on. -/
def isMasked (faults : FaultUnit) (kind : FaultKind) : Bool :=
  kind.maskable && faults.masked.get kind

/-- Whether a fault of a kind that is not masked has been recorded. -/
def unmaskedActive (faults : FaultUnit) : Bool :=
  FaultKind.all.any fun kind => (faults.active.get kind).isSome && !faults.isMasked kind

/-- Forgets every recorded fault. -/
def clearAll (faults : FaultUnit) : FaultUnit :=
  { faults with active := .ofFunction fun _ => none }

/-- Records a fault. -/
def record (faults : FaultUnit) (fault : Fault) : FaultUnit :=
  { faults with active := faults.active.set fault.kind (some fault) }

/-- Records a fault, and gives it back if it stops the run. -/
def fire (faults : FaultUnit) (fault : Fault) : FaultUnit × Option Fault :=
  (faults.record fault, if faults.isMasked fault.kind then none else some fault)

/-- Records a fault that stops the run whatever is masked, and gives the fault
    that stops it. -/
def fireAlways (faults : FaultUnit) (fault : Fault) : FaultUnit × Fault :=
  if faults.isMasked fault.kind then
    let bug : Fault :=
      ⟨fault.address, .bug ("fault " ++ fault.kind.name
        ++ " is masked, but the caller assumed it could not be")⟩
    ((faults.record fault).record bug, bug)
  else (faults.record fault, fault)

/-- Masks a kind.  To mask a kind that cannot be masked is a bug, which is
    recorded and given back. -/
def mask (faults : FaultUnit) (kind : FaultKind) : FaultUnit × Option Fault :=
  if kind.maskable then ({ faults with masked := faults.masked.set kind true }, none)
  else
    let (faults, bug) :=
      faults.fireAlways (.bug ("attempt to mask unmaskable fault " ++ kind.name))
    (faults, some bug)

/-- Unmasks a kind. -/
def unmask (faults : FaultUnit) (kind : FaultKind) : FaultUnit :=
  { faults with masked := faults.masked.set kind false }

end FaultUnit

end Microprocessor
