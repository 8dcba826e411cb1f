import Mathlib.Data.List.Basic
import Microprocessor.Proofs.X86.Stack
import Microprocessor.Terminal.Console

/-! # Calls, interrupts and data nest on the stack

    A step opens a frame on the stack or closes the newest one.  In a sequence
    of steps whose frames are well nested, whatever lies between the two steps
    of a frame, the closing step finds the words that the opening step saved.

      * `WellNested` are the sequences, `peak` is the most they have on the
        stack at a time;
      * `Machine.Stacked.opening` and `Machine.Stacked.closing` are what one
        step does to the pushed words, `Machine.Stacked.run` what a run does;
      * `stack_nests` says what every closing step gives back. -/

namespace Microprocessor.X86

/-! ## Steps -/

/-- The steps that open a frame. -/
inductive Opening
  | push (value : UInt16)
  | callRelative (displacement : Int16)
  | callIndirect (instruction : Instruction) (target : Operand)
  | callFar (segment offset : UInt16)
  | interrupt (vector : UInt8)

/-- The steps that close a frame. -/
inductive Closing
  | pop
  | ret
  | retFar
  | interruptReturn
  deriving DecidableEq

/-- A step that works on the stack. -/
inductive StackStep
  | opens (opening : Opening)
  | closes (closing : Closing)

/-- The step that closes what a step opens. -/
def Opening.closing : Opening → Closing
  | .push _ => .pop
  | .callRelative _ | .callIndirect _ _ => .ret
  | .callFar _ _ => .retFar
  | .interrupt _ => .interruptReturn

/-- The number of words in the frame that a step closes. -/
def Closing.words : Closing → Nat
  | .pop | .ret => 1
  | .retFar => 2
  | .interruptReturn => 3

/-- The sequences in which every step that closes a frame closes the newest one,
    and every frame is closed. -/
inductive WellNested : List StackStep → Prop
  | nil : WellNested []
  | nest {body rest : List StackStep} (opening : Opening) (hbody : WellNested body)
      (hrest : WellNested rest) :
      WellNested (.opens opening :: (body ++ .closes opening.closing :: rest))

/-- The number of bytes on the stack after a step. -/
def StackStep.depthAfter (depth : Nat) : StackStep → Nat
  | .opens opening => depth + 2 * opening.closing.words
  | .closes closing => depth - 2 * closing.words

/-- The greatest number of bytes on the stack at a time, from some depth on. -/
def peak (depth : Nat) : List StackStep → Nat
  | [] => depth
  | step :: rest => max depth (peak (step.depthAfter depth) rest)

namespace Machine

variable {δ : Type}

/-- Takes a step that opens a frame. -/
def takeOpening (machine : Machine δ) : Opening → Machine δ
  | .push value => machine.push value
  | .callRelative displacement => machine.callRelative displacement
  | .callIndirect instruction target => machine.callIndirect instruction target
  | .callFar segment offset => machine.callFar segment offset
  | .interrupt vector => machine.enterInterrupt vector

/-- Takes a step that closes a frame. -/
def takeClosing (machine : Machine δ) : Closing → Machine δ
  | .pop => machine.pop.2
  | .ret => machine.ret 0
  | .retFar => machine.retFar 0
  | .interruptReturn => machine.interruptReturn

/-- Takes a step. -/
def take (machine : Machine δ) : StackStep → Machine δ
  | .opens opening => machine.takeOpening opening
  | .closes closing => machine.takeClosing closing

/-- Takes steps one after another. -/
def takeAll (machine : Machine δ) (steps : List StackStep) : Machine δ :=
  steps.foldl take machine

/-- What the step that closes a frame gives back, on a machine about to take it,
    of the machine that was about to open it. -/
def GivesBack (closing before : Machine δ) : Opening → Prop
  | .push value => closing.pop.1 = value
  | .callRelative _ | .callIndirect _ _ => (closing.ret 0).regs.ip = before.regs.ip
  | .callFar _ _ =>
    (closing.retFar 0).regs.segment .cs = before.regs.segment .cs
      ∧ (closing.retFar 0).regs.ip = before.regs.ip
  | .interrupt _ =>
    closing.interruptReturn.regs.segment .cs = before.regs.segment .cs
      ∧ closing.interruptReturn.regs.ip = before.regs.ip
      ∧ ∀ flag, closing.interruptReturn.regs.flags.get flag = before.regs.flags.get flag

/-- The words that a step saves, the top of the stack first. -/
def saves (machine : Machine δ) : Opening → List UInt16
  | .push value => [value]
  | .callRelative _ | .callIndirect _ _ => [machine.regs.ip]
  | .callFar _ _ => [machine.regs.ip, machine.regs.segment .cs]
  | .interrupt _ => [machine.regs.ip, machine.regs.segment .cs, machine.regs.flags.word]

/-! ## One step -/

/-- A near return, pop by pop. -/
theorem ret_eq (machine : Machine δ) (count : UInt16) :
    machine.ret count
      = (machine.pop.2.mapRegs fun regs => regs.setIp machine.pop.1).releaseStack count := rfl

/-- Entering a handler, push by push. -/
theorem enterInterrupt_eq (machine : Machine δ) (vector : UInt8) :
    machine.enterInterrupt vector
      = (let saved := ((((machine.push machine.regs.flags.word).setFlags
          ((machine.regs.flags.set .interruptEnable false).set .trap false)).push
          (machine.regs.segment .cs)).push machine.regs.ip)
        saved.mapUnit fun unit =>
          { unit.farJump (saved.bus.memory.readWidth .word (vector.toUInt32 * 4 + 2))
              (saved.bus.memory.readWidth .word (vector.toUInt32 * 4)) with
            halted := false }) := rfl

/-- To release no bytes changes nothing. -/
theorem releaseStack_zero (machine : Machine δ) : machine.releaseStack 0 = machine := by
  show (machine.mapRegs fun regs => { regs with sp := regs.sp + 0 }) = machine
  simp only [UInt16.add_zero]
  rfl

theorem length_saves (machine : Machine δ) (opening : Opening) :
    (machine.saves opening).length = opening.closing.words := by
  cases opening <;> rfl

/-- A step that opens a frame makes the stack as much deeper as it saves words. -/
theorem depthAfter_opens (machine : Machine δ) (opening : Opening) (saved : List UInt16) :
    StackStep.depthAfter (2 * saved.length) (.opens opening)
      = 2 * (machine.saves opening ++ saved).length := by
  rw [StackStep.depthAfter, List.length_append, length_saves]
  omega

/-- A step that closes a frame makes the stack as much less deep as it takes
    words. -/
theorem depthAfter_closes {words : List UInt16} {closing : Closing}
    (hwords : words.length = closing.words) (saved : List UInt16) :
    StackStep.depthAfter (2 * (words ++ saved).length) (.closes closing) = 2 * saved.length := by
  rw [StackStep.depthAfter, List.length_append, hwords]
  omega

/-- A step that opens a frame puts the words it saves on the stack. -/
theorem Stacked.opening {start machine : Machine δ} {saved : List UInt16} {limit : Nat}
    (h : start.Stacked machine saved) (hroom : start.Room limit) (opening : Opening)
    (hfits : 2 * saved.length + 2 * opening.closing.words ≤ limit) :
    start.Stacked (machine.takeOpening opening) (machine.saves opening ++ saved) := by
  cases opening with
  | push value =>
      have hfits : 2 * saved.length + 2 * 1 ≤ limit := hfits
      exact h.push hroom (by omega) value
  | callRelative displacement =>
      have hfits : 2 * saved.length + 2 * 1 ≤ limit := hfits
      exact (h.push hroom (by omega) machine.regs.ip).congr rfl rfl
  | callIndirect instruction target =>
      have hfits : 2 * saved.length + 2 * 1 ≤ limit := hfits
      exact (h.push hroom (by omega) machine.regs.ip).congr rfl rfl
  | callFar segment offset =>
      have hfits : 2 * saved.length + 2 * 2 ≤ limit := hfits
      have hsegment := h.push hroom (by omega) (machine.regs.segment .cs)
      have hoffset := hsegment.push hroom (by rw [List.length_cons]; omega) machine.regs.ip
      exact hoffset.congr rfl rfl
  | interrupt vector =>
      have hfits : 2 * saved.length + 2 * 3 ≤ limit := hfits
      have hflags := h.push hroom (by omega) machine.regs.flags.word
      rw [takeOpening, enterInterrupt_eq]
      -- The flags are saved before they are masked.
      have hmasked : start.Stacked ((machine.push machine.regs.flags.word).setFlags
          ((machine.regs.flags.set .interruptEnable false).set .trap false))
          (machine.regs.flags.word :: saved) := hflags.congr rfl rfl
      have hsegment := hmasked.push hroom (by rw [List.length_cons]; omega)
        (machine.regs.segment .cs)
      have hoffset := hsegment.push hroom (by rw [List.length_cons, List.length_cons]; omega)
        machine.regs.ip
      generalize Machine.push _ machine.regs.ip = saved at hoffset ⊢
      exact hoffset.congr rfl rfl

/-- A step that closes a frame takes its words off the stack. -/
theorem Stacked.closing {start machine : Machine δ} {words saved : List UInt16}
    (h : start.Stacked machine (words ++ saved)) {closing : Closing}
    (hwords : words.length = closing.words) :
    start.Stacked (machine.takeClosing closing) saved := by
  cases closing with
  | pop =>
      obtain ⟨value, rfl⟩ := List.length_eq_one_iff.mp hwords
      exact h.pop.2
  | ret =>
      obtain ⟨offset, rfl⟩ := List.length_eq_one_iff.mp hwords
      rw [takeClosing, ret_eq, releaseStack_zero]
      exact h.pop.2.congr rfl rfl
  | retFar =>
      obtain ⟨offset, segment, rfl⟩ := List.length_eq_two.mp hwords
      have hpopped := h.pop.2.pop.2
      rw [takeClosing, retFar_eq, releaseStack_zero]
      generalize machine.pop.2.pop.2 = popped at hpopped ⊢
      exact hpopped.congr rfl rfl
  | interruptReturn =>
      obtain ⟨offset, segment, flags, rfl⟩ := List.length_eq_three.mp hwords
      have hpopped := h.pop.2.pop.2.pop.2
      rw [takeClosing, interruptReturn_eq]
      -- What has been popped is named, so that it is not computed.
      generalize machine.pop.2.pop.2.pop.2 = popped at hpopped ⊢
      exact hpopped.congr rfl rfl

/-- On the words that a step saved, the step that closes its frame gives back
    what it should. -/
theorem Stacked.givesBack {start machine before : Machine δ} {saved : List UInt16}
    (opening : Opening) (h : start.Stacked machine (before.saves opening ++ saved)) :
    machine.GivesBack before opening := by
  cases opening with
  | push value => exact h.pop.1
  | callRelative displacement =>
      rw [GivesBack, ret_eq, releaseStack_zero]
      exact h.pop.1
  | callIndirect instruction target =>
      rw [GivesBack, ret_eq, releaseStack_zero]
      exact h.pop.1
  | callFar segment offset =>
      rw [GivesBack, retFar_eq, releaseStack_zero]
      exact ⟨h.pop.2.pop.1, h.pop.1⟩
  | interrupt vector =>
      rw [GivesBack, interruptReturn_eq, h.pop.1, h.pop.2.pop.1, h.pop.2.pop.2.pop.1]
      generalize machine.pop.2.pop.2.pop.2 = popped
      exact ⟨rfl, rfl, before.regs.flags.get_restore_word⟩

end Machine

/-! ## Sequences of steps -/

/-- The frames that are open after steps, by the steps that will close them,
    newest first; none if a step closes another frame than the newest. -/
def pendingAfter (pending : List Closing) : List StackStep → Option (List Closing)
  | [] => some pending
  | .opens opening :: rest => pendingAfter (opening.closing :: pending) rest
  | .closes closing :: rest =>
    match pending with
    | [] => none
    | newest :: pending => if newest = closing then pendingAfter pending rest else none

theorem pendingAfter_append (steps rest : List StackStep) (pending : List Closing) :
    pendingAfter pending (steps ++ rest)
      = (pendingAfter pending steps).bind fun pending => pendingAfter pending rest := by
  induction steps generalizing pending with
  | nil => rfl
  | cons step steps ih =>
      cases step with
      | opens opening => exact ih (opening.closing :: pending)
      | closes closing =>
          cases pending with
          | nil => rfl
          | cons newest pending =>
              rw [List.cons_append, pendingAfter, pendingAfter]
              split
              · exact ih pending
              · rfl

/-- A well-nested sequence leaves the open frames as they were. -/
theorem WellNested.pendingAfter_eq {steps : List StackStep} (h : WellNested steps)
    (pending : List Closing) : pendingAfter pending steps = some pending := by
  induction h generalizing pending with
  | nil => rfl
  | nest opening _ _ ihbody ihrest =>
      rw [pendingAfter, pendingAfter_append, ihbody, Option.bind_some, pendingAfter, if_pos rfl]
      exact ihrest pending

/-- In a well-nested sequence every step that closes a frame has its partner, and
    what lies between them is well nested. -/
theorem WellNested.exists_opening {steps : List StackStep} (h : WellNested steps) :
    ∀ {before after : List StackStep} {closing : Closing},
      steps = before ++ .closes closing :: after →
      ∃ (earlier body : List StackStep) (opening : Opening),
        before = earlier ++ .opens opening :: body ∧ WellNested body
          ∧ opening.closing = closing := by
  induction h with
  | nil =>
      intro before after closing hsteps
      cases before with
      | nil => cases hsteps
      | cons _ _ => cases hsteps
  | @nest body rest opening hbody _ ihbody ihrest =>
      intro before after closing hsteps
      cases before with
      | nil => cases hsteps
      | cons step before =>
          rw [List.cons_append, List.cons.injEq] at hsteps
          obtain ⟨rfl, hsteps⟩ := hsteps
          obtain ⟨middle, rfl, hmiddle⟩ | ⟨middle, rfl, hmiddle⟩ :=
            List.append_eq_append_iff.mp hsteps
          · cases middle with
            | nil =>
                -- It is the partner of the first step.
                cases hmiddle
                exact ⟨[], body, opening, by rw [List.append_nil]; rfl, hbody, rfl⟩
            | cons step middle =>
                -- It comes after the frame of the first step.
                cases hmiddle
                obtain ⟨earlier, inner, partner, rfl, hinner, hpartner⟩ := ihrest rfl
                refine ⟨.opens opening :: (body ++ .closes opening.closing :: earlier), inner,
                  partner, ?_, hinner, hpartner⟩
                simp only [List.cons_append, List.append_assoc]
          · cases middle with
            | nil =>
                cases hmiddle
                exact ⟨[], before, opening, rfl, by rwa [List.append_nil] at hbody, rfl⟩
            | cons step middle =>
                -- It lies within the frame of the first step.
                cases hmiddle
                obtain ⟨earlier, inner, partner, rfl, hinner, hpartner⟩ := ihbody rfl
                exact ⟨.opens opening :: earlier, inner, partner, rfl, hinner, hpartner⟩

theorem le_peak (depth : Nat) (steps : List StackStep) : depth ≤ peak depth steps := by
  cases steps with
  | nil => exact Nat.le_refl _
  | cons step rest => exact Nat.le_max_left _ _

/-- The peak of a part is within the peak of the whole. -/
theorem peak_append (steps rest : List StackStep) (depth : Nat) :
    peak depth steps ≤ peak depth (steps ++ rest)
      ∧ peak (steps.foldl StackStep.depthAfter depth) rest ≤ peak depth (steps ++ rest) := by
  induction steps generalizing depth with
  | nil => exact ⟨le_peak depth rest, Nat.le_refl _⟩
  | cons step steps ih =>
      obtain ⟨hsteps, hrest⟩ := ih (step.depthAfter depth)
      constructor
      · exact Nat.max_le.mpr ⟨Nat.le_max_left _ _, Nat.le_trans hsteps (Nat.le_max_right _ _)⟩
      · exact Nat.le_trans hrest (Nat.le_max_right _ _)

namespace Machine

variable {δ : Type}

/-- Along a run, the pushed words are those that the open frames saved, over
    those that were there before. -/
theorem Stacked.run {start : Machine δ} {limit : Nat} (hroom : start.Room limit)
    {saved : List UInt16} {steps : List StackStep} {left : List Closing} :
    ∀ {machine : Machine δ} {frames : List (List UInt16)} {pending : List Closing},
      start.Stacked machine (frames.flatten ++ saved) →
      frames.map List.length = pending.map Closing.words →
      pendingAfter pending steps = some left →
      peak (2 * (frames.flatten ++ saved).length) steps ≤ limit →
      ∃ frames' : List (List UInt16), frames'.map List.length = left.map Closing.words
        ∧ start.Stacked (machine.takeAll steps) (frames'.flatten ++ saved)
        ∧ 2 * (frames'.flatten ++ saved).length
            = steps.foldl StackStep.depthAfter (2 * (frames.flatten ++ saved).length) := by
  -- The open frames and the words they saved match up at every step.
  induction steps with
  | nil =>
      intro machine frames pending h hframes hpending _
      cases hpending
      exact ⟨frames, hframes, h, rfl⟩
  | cons step steps ih =>
      intro machine frames pending h hframes hpending hpeak
      obtain ⟨-, hpeak⟩ := Nat.max_le.mp hpeak
      cases step with
      | opens opening =>
          have hopened := h.opening hroom opening (Nat.le_trans (le_peak _ steps) hpeak)
          have hdepth := depthAfter_opens machine opening (frames.flatten ++ saved)
          rw [hdepth] at hpeak
          rw [← List.append_assoc, ← List.flatten_cons] at hopened hpeak hdepth
          have hlengths : (machine.saves opening :: frames).map List.length
              = (opening.closing :: pending).map Closing.words := by
            rw [List.map_cons, List.map_cons, length_saves, hframes]
          rw [List.foldl_cons, hdepth]
          exact ih hopened hlengths hpending hpeak
      | closes closing =>
          cases pending with
          | nil => cases hpending
          | cons newest pending =>
              cases frames with
              | nil => cases hframes
              | cons frame frames =>
                  rw [pendingAfter] at hpending
                  split at hpending
                  · rename_i hnewest
                    rw [List.map_cons, List.map_cons, List.cons.injEq, hnewest] at hframes
                    rw [List.flatten_cons, List.append_assoc] at h hpeak ⊢
                    rw [depthAfter_closes hframes.1] at hpeak
                    rw [List.foldl_cons, depthAfter_closes hframes.1]
                    exact ih (h.closing hframes.1) hframes.2 hpending hpeak
                  · cases hpending

/-- A run that closes every frame it opens leaves the pushed words as they
    were. -/
theorem Stacked.wellNested {start machine : Machine δ} {limit : Nat} {saved : List UInt16}
    {steps : List StackStep} (h : start.Stacked machine saved) (hroom : start.Room limit)
    (hnested : WellNested steps) (hpeak : peak (2 * saved.length) steps ≤ limit) :
    start.Stacked (machine.takeAll steps) saved := by
  obtain ⟨frames, hlengths, hstacked, -⟩ := Stacked.run hroom
    (show start.Stacked machine (List.flatten [] ++ saved) from h) rfl
    (hnested.pendingAfter_eq []) hpeak
  obtain rfl : frames = [] := List.map_eq_nil_iff.mp hlengths
  exact hstacked

/-- At every point of a run the pushed words are those of the open frames. -/
theorem Stacked.of_prefix {start : Machine δ} {limit : Nat} {steps : List StackStep}
    {left : List Closing} (hroom : start.Room limit) (hpending : pendingAfter [] steps = some left)
    (hpeak : peak 0 steps ≤ limit) :
    ∃ saved, start.Stacked (start.takeAll steps) saved
      ∧ 2 * saved.length = steps.foldl StackStep.depthAfter 0 := by
  obtain ⟨frames, -, hstacked, hdepth⟩ := Stacked.run hroom
    (show start.Stacked start (List.flatten [] ++ []) from .refl start) rfl hpending hpeak
  exact ⟨_, hstacked, hdepth⟩

theorem takeAll_append (machine : Machine δ) (steps rest : List StackStep) :
    machine.takeAll (steps ++ rest) = (machine.takeAll steps).takeAll rest :=
  List.foldl_append

end Machine

/-- In a well-nested sequence of steps, with room on the stack, every step that
    closes a frame has its partner, and gives back what was there before the
    partner opened the frame: the pushed value, IP, CS and IP, or CS, IP and every
    flag.  Afterwards the stack is where it was. -/
theorem stack_nests {δ : Type} (start : Machine δ) (steps : List StackStep)
    (hnested : WellNested steps) (hsegment : peak 0 steps ≤ 0x10000)
    (hwritable : ∀ i, i < peak 0 steps →
      start.bus.memory.Writable (start.unit.stack.retreat (UInt16.ofNat (i + 1))).address) :
    (∀ (before after : List StackStep) (closing : Closing),
      steps = before ++ .closes closing :: after →
      ∃ (earlier body : List StackStep) (opening : Opening),
        before = earlier ++ .opens opening :: body ∧ WellNested body
          ∧ opening.closing = closing)
    ∧ (∀ (before body after : List StackStep) (opening : Opening), WellNested body →
      steps = before ++ .opens opening :: (body ++ .closes opening.closing :: after) →
      (start.takeAll (before ++ .opens opening :: body)).GivesBack (start.takeAll before) opening)
    ∧ (start.takeAll steps).regs.segment .ss = start.regs.segment .ss
    ∧ (start.takeAll steps).regs.word .sp = start.regs.word .sp := by
  have hroom : start.Room (peak 0 steps) := ⟨hsegment, hwritable⟩
  refine ⟨fun _ _ _ => hnested.exists_opening, ?_, ?_⟩
  · rintro before body after opening hbody rfl
    -- The words of the frames that are open before the step stay below its own.
    have hpending := hnested.pendingAfter_eq []
    rw [pendingAfter_append] at hpending
    obtain ⟨left, hpending, -⟩ := Option.bind_eq_some_iff.mp hpending
    obtain ⟨hbefore, hrest⟩ :=
      peak_append before (.opens opening :: (body ++ .closes opening.closing :: after)) 0
    obtain ⟨saved, hstacked, hdepth⟩ := Machine.Stacked.of_prefix hroom hpending hbefore
    rw [← hdepth] at hrest
    obtain ⟨-, hrest⟩ := Nat.max_le.mp hrest
    -- Its own words are on top again when the body has run.
    have hopened := hstacked.opening hroom opening (Nat.le_trans (le_peak _ _) hrest)
    rw [Machine.depthAfter_opens (start.takeAll before) opening saved] at hrest
    rw [Machine.takeAll_append]
    refine (hopened.wellNested hroom hbody ?_).givesBack opening
    exact Nat.le_trans (peak_append body _ _).1 hrest
  · have hstack := ((Machine.Stacked.refl start).wellNested hroom hnested (Nat.le_refl _)).stack_eq
    exact ⟨congrArg MemoryLocator.base hstack, congrArg MemoryLocator.offset hstack⟩

/-- A machine whose stack pointer is odd, and passes through zero with the first
    push. -/
def wrappingStart : Machine Terminal.Console where
  unit := ExecutionUnit.initial.setStack 0 1
  bus := .of (.ofConfiguration ⟨0x10000, none⟩) .empty 6 2

/-- An interrupt whose handler pushes a word and pops it again. -/
def interruptedSteps : List StackStep :=
  [.opens (.interrupt 3), .opens (.push 5), .closes .pop, .closes .interruptReturn]

/-- The return from the handler finds what the interrupt saved. -/
theorem stack_nests_wrapping :
    (wrappingStart.takeAll [.opens (.interrupt 3), .opens (.push 5), .closes .pop]).GivesBack
        wrappingStart (.interrupt 3)
      ∧ (wrappingStart.takeAll interruptedSteps).regs.word .sp = 1 := by
  have hbody : WellNested [.opens (.push 5), .closes .pop] := .nest (.push 5) .nil .nil
  have hnested : WellNested interruptedSteps := .nest (.interrupt 3) hbody .nil
  have hwritable : ∀ i, i < peak 0 interruptedSteps → wrappingStart.bus.memory.Writable
      (wrappingStart.unit.stack.retreat (UInt16.ofNat (i + 1))).address := by
    intro i _
    have hoffset := (1 - UInt16.ofNat (i + 1)).toNat_lt
    refine ⟨?_, rfl⟩
    show (linearAddress 0 (1 - UInt16.ofNat (i + 1))).toNat
      < (Array.replicate 0x10000 (0 : UInt8)).size
    rw [toNat_linearAddress, Array.size_replicate]
    show (0 * 16 + _) % addressSpace < _
    rw [Nat.zero_mul, Nat.zero_add, addressSpace]
    omega
  have h := stack_nests wrappingStart interruptedSteps hnested (by decide) hwritable
  exact ⟨h.2.1 [] _ [] (.interrupt 3) hbody rfl, h.2.2.2⟩

end Microprocessor.X86
