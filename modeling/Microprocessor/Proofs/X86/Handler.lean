import Microprocessor.Proofs.X86.CodeAddress
import Microprocessor.Proofs.X86.Flags
import Microprocessor.Proofs.X86.Nesting

/-! # Entering a handler

    Whatever takes the 8086 into a handler, it is entered in one way: FLAGS, CS
    and IP are saved on the stack, IF and TF are cleared, and the unit goes on
    where the entry of the vector in low memory says.

      * `Machine.EntersHandler` is all that entering a handler comes to;
      * `Machine.enterInterrupt_enters`: the one way into every handler is that. -/

namespace Microprocessor.X86.Machine

variable {δ : Type}

/-- The bus after FLAGS, CS and IP have been written below the top of the stack,
    one after another. -/
def savedBus (machine : Machine δ) : Bus δ :=
  ((machine.bus.write .word (machine.unit.stack.retreat 2) machine.regs.flags.word).write .word
    (machine.unit.stack.retreat 4) (machine.regs.segment .cs)).write .word
    (machine.unit.stack.retreat 6) machine.regs.ip

/-- A machine has entered the handler of a vector. -/
structure EntersHandler (before : Machine δ) (vector : UInt8) (after : Machine δ) : Prop where
  /-- Where there is room FLAGS, CS and IP lie on the stack, IP on top. -/
  saves : before.Room 6 →
    before.Stacked after [before.regs.ip, before.regs.segment .cs, before.regs.flags.word]
  /-- With room or without, nothing else is written. -/
  bus : after.bus = before.savedBus
  stack : after.unit.stack = before.unit.stack.retreat 6
  /-- The offset and then the segment of the handler are at four times the vector. -/
  ip : after.regs.ip = after.bus.memory.readWidth .word (vector.toUInt32 * 4)
  cs : after.regs.segment .cs = after.bus.memory.readWidth .word (vector.toUInt32 * 4 + 2)
  interruptEnable : after.regs.flags.get .interruptEnable = false
  trap : after.regs.flags.get .trap = false
  flags : ∀ flag, flag ≠ .interruptEnable → flag ≠ .trap →
    after.regs.flags.get flag = before.regs.flags.get flag
  words : ∀ register, register ≠ .sp → after.regs.word register = before.regs.word register
  segments : ∀ register, register ≠ .cs →
    after.regs.segment register = before.regs.segment register
  /-- A halt is over. -/
  halted : after.unit.halted = false

/-- What a machine is saved with are its registers and its bus. -/
theorem EntersHandler.congr {before machine after : Machine δ} {vector : UInt8}
    (h : before.EntersHandler vector after) (hregs : machine.regs = before.regs)
    (hbus : machine.bus = before.bus) : machine.EntersHandler vector after := by
  obtain ⟨unit, bus⟩ := before
  obtain rfl : machine.bus = bus := hbus
  have hstack : machine.unit.stack = unit.stack :=
    congrArg (fun regs => MemoryLocator.mk (regs.segment .ss) (regs.word .sp)) hregs
  have hsaved : machine.savedBus = Machine.savedBus ⟨unit, machine.bus⟩ := by
    rw [savedBus, hregs, hstack]
    rfl
  constructor
  case saves =>
    intro hroom
    obtain ⟨hlimit, hwritable⟩ := hroom
    rw [hstack] at hwritable
    obtain ⟨hafter, hholds, hkept⟩ := h.saves ⟨hlimit, hwritable⟩
    rw [hregs]
    exact ⟨hafter.trans (congrArg (MemoryLocator.retreat · _) hstack.symm), hholds, hkept⟩
  case bus => exact h.bus.trans hsaved.symm
  case stack => exact h.stack.trans (congrArg (MemoryLocator.retreat · 6) hstack.symm)
  case ip => exact h.ip
  case cs => exact h.cs
  case interruptEnable => exact h.interruptEnable
  case trap => exact h.trap
  case flags => rw [hregs]; exact h.flags
  case words => rw [hregs]; exact h.words
  case segments => rw [hregs]; exact h.segments
  case halted => exact h.halted

/-- The machine as it stands when FLAGS, CS and IP have been pushed. -/
def interrupted (machine : Machine δ) : Machine δ :=
  (((machine.push machine.regs.flags.word).setFlags
    ((machine.regs.flags.set .interruptEnable false).set .trap false)).push
    (machine.regs.segment .cs)).push machine.regs.ip

/-- From there the unit goes on at an address that is read. -/
theorem enterInterrupt_eq_interrupted (machine : Machine δ) (vector : UInt8) :
    machine.enterInterrupt vector = machine.interrupted.mapUnit fun unit =>
      { unit.farJump
          (machine.interrupted.bus.memory.readWidth .word (vector.toUInt32 * 4 + 2))
          (machine.interrupted.bus.memory.readWidth .word (vector.toUInt32 * 4)) with
        halted := false } :=
  machine.enterInterrupt_eq vector

@[simp] theorem stack_push (machine : Machine δ) (value : UInt16) :
    (machine.push value).unit.stack = machine.unit.stack.retreat 2 := rfl

@[simp] theorem bus_push (machine : Machine δ) (value : UInt16) :
    (machine.push value).bus = machine.bus.write .word (machine.unit.stack.retreat 2) value := rfl

@[simp] theorem regs_push (machine : Machine δ) (value : UInt16) :
    (machine.push value).regs
      = machine.regs.setWord .sp (machine.unit.stack.retreat 2).offset := rfl

@[simp] theorem stack_setFlags (machine : Machine δ) (flags : Flags) :
    (machine.setFlags flags).unit.stack = machine.unit.stack := rfl

@[simp] theorem regs_setFlags (machine : Machine δ) (flags : Flags) :
    (machine.setFlags flags).regs = machine.regs.setFlags flags := rfl

/-- Three words have been pushed. -/
theorem stack_interrupted (machine : Machine δ) :
    machine.interrupted.unit.stack = machine.unit.stack.retreat 6 := by
  rw [interrupted, stack_push, stack_push, stack_setFlags, stack_push,
    MemoryLocator.retreat_retreat, MemoryLocator.retreat_retreat]
  rfl

theorem bus_interrupted (machine : Machine δ) : machine.interrupted.bus = machine.savedBus := by
  rw [interrupted, bus_push, bus_push, stack_push, stack_setFlags, bus_setFlags, stack_push,
    bus_push, MemoryLocator.retreat_retreat, MemoryLocator.retreat_retreat]
  rfl

/-- Of the registers SP has moved, and of the flags IF and TF are cleared. -/
theorem regs_interrupted (machine : Machine δ) :
    machine.interrupted.regs
      = (machine.regs.setFlags ((machine.regs.flags.set .interruptEnable false).set .trap
          false)).setWord .sp (machine.unit.stack.retreat 6).offset := by
  have hstack := machine.stack_interrupted
  rw [interrupted, stack_push] at hstack
  rw [interrupted, regs_push, regs_push, regs_setFlags, regs_push, hstack]
  rfl

/-- The one way into every handler enters it. -/
theorem enterInterrupt_enters (machine : Machine δ) (vector : UInt8) :
    machine.EntersHandler vector (machine.enterInterrupt vector) := by
  have hstack := machine.stack_interrupted
  have hbus := machine.bus_interrupted
  have hregs := machine.regs_interrupted
  constructor
  case saves =>
    intro hroom
    exact (Stacked.refl machine).opening hroom (.interrupt vector) (Nat.le_refl 6)
  -- The rest is about the registers and the bus after the pushes, however they came about.
  all_goals
    rw [enterInterrupt_eq_interrupted]
    generalize machine.interrupted = saved at *
  case bus => exact hbus
  case stack => exact hstack
  case ip => rfl
  case cs => rfl
  case interruptEnable =>
    show saved.regs.flags.get .interruptEnable = false
    rw [hregs]
    exact (Flags.get_set _ _ _ _).trans (Flags.get_set _ _ _ _)
  case trap =>
    show saved.regs.flags.get .trap = false
    rw [hregs]
    exact Flags.get_set _ _ _ _
  case flags =>
    intro flag hinterruptEnable htrap
    show saved.regs.flags.get flag = _
    rw [hregs]
    refine (Flags.get_set _ _ _ _).trans ((if_neg htrap.symm).trans ?_)
    exact (Flags.get_set _ _ _ _).trans (if_neg hinterruptEnable.symm)
  case words =>
    intro register hregister
    show saved.regs.word register = _
    rw [hregs]
    cases register <;> first | rfl | exact absurd rfl hregister
  case segments =>
    intro register hregister
    have hsaved : saved.regs.segment register = machine.regs.segment register := by
      rw [hregs]
      cases register <;> rfl
    rw [← hsaved]
    cases register <;> first | rfl | exact absurd rfl hregister
  case halted => rfl

end Microprocessor.X86.Machine
