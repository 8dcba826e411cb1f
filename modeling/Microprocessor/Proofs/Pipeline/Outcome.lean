import Microprocessor.Proofs.Pipeline.Order

/-! # How a move ends

    A move reports what came of it.  That an instruction was executed, it
    reports as such, as a halt or as a fault; everything else it reports says
    that none was.

      * `Pipeline.executeNext_performed` says once what executing the oldest
        decoded instruction can come to;
      * `Pipeline.Counts` compares what a move reports with the count of
        executed instructions (`Pipeline.tick_counts`). -/

namespace Microprocessor

namespace Pipeline

variable {κ ι δ γ : Type} [Core κ ι] [Decoded ι] [PortDevice δ] [InterruptController γ]

/-- What executing the oldest decoded instruction leaves behind. -/
inductive Performed (ready : Pipeline κ ι δ γ) :
    Pipeline κ ι δ γ × Except Fault TickOutcome → Prop
  /-- None has been decoded. -/
  | lacks (hempty : ready.decoded.isEmpty = true) (faults : FaultUnit) (fault : Fault) :
      Performed ready ({ ready with stage := .executing, faults }, .error fault)
  | faults {address : UInt32} {instruction : ι} {decoded : DecodedQueue (UInt32 × ι)}
      (hpop : ready.decoded.pop = .ok ((address, instruction), decoded)) {fault : Fault}
      (hfault : (execute { ready with decoded } address instruction).2 = some fault) :
      Performed ready ((execute { ready with decoded } address instruction).1, .error fault)
  | halts {address : UInt32} {instruction : ι} {decoded : DecodedQueue (UInt32 × ι)}
      (hpop : ready.decoded.pop = .ok ((address, instruction), decoded))
      (hfault : (execute { ready with decoded } address instruction).2 = none)
      (hhalted :
        Core.isHalted (execute { ready with decoded } address instruction).1.core = true) :
      Performed ready
        ({ (execute { ready with decoded } address instruction).1 with stage := .halted },
          .ok .halted)
  | goesOn {address : UInt32} {instruction : ι} {decoded : DecodedQueue (UInt32 × ι)}
      (hpop : ready.decoded.pop = .ok ((address, instruction), decoded))
      (hfault : (execute { ready with decoded } address instruction).2 = none)
      (hhalted :
        Core.isHalted (execute { ready with decoded } address instruction).1.core = false) :
      Performed ready
        ({ (execute { ready with decoded } address instruction).1 with stage := .fetching },
          .ok .executed)

omit [InterruptController γ] in
/-- Executing comes to one of these. -/
theorem executeNext_performed (ready : Pipeline κ ι δ γ) : Performed ready ready.executeNext := by
  rw [executeNext]
  cases hpop : ready.decoded.pop with
  | error failure =>
      have hempty : ready.decoded.isEmpty = true := by
        rw [DecodedQueue.pop] at hpop
        rw [DecodedQueue.isEmpty]
        cases hitems : ready.decoded.items with
        | nil => rfl
        | cons item rest =>
            rw [hitems] at hpop
            cases hpop
      exact .lacks hempty _ _
  | ok popped =>
      obtain ⟨⟨address, instruction⟩, decoded⟩ := popped
      simp only
      cases hexecute : execute { ready with decoded } address instruction with
      | mk after fault =>
          obtain rfl : (execute { ready with decoded } address instruction).1 = after := by
            rw [hexecute]
          have hfault : (execute { ready with decoded } address instruction).2 = fault := by
            rw [hexecute]
          cases fault with
          | some fault => exact .faults hpop hfault
          | none =>
              cases hhalted :
                  Core.isHalted (execute { ready with decoded } address instruction).1.core with
              | true =>
                  simp only [hhalted, if_true]
                  exact .halts hpop hfault hhalted
              | false =>
                  simp only [hhalted, Bool.false_eq_true, if_false]
                  exact .goesOn hpop hfault hhalted

omit [InterruptController γ] in
/-- Executing an instruction reports that it went through, a halt or a fault, and nothing
    else. -/
theorem executeNext_ne (ready : Pipeline κ ι δ γ) {outcome : TickOutcome}
    (hexecuted : outcome ≠ .executed) (hhalted : outcome ≠ .halted) :
    ready.executeNext.2 ≠ .ok outcome := by
  have h := executeNext_performed ready
  generalize ready.executeNext = result at h
  intro hreports
  cases h with
  | lacks _ _ _ => cases hreports
  | faults _ _ => cases hreports
  | halts _ _ _ =>
      cases hreports
      exact hhalted rfl
  | goesOn _ _ _ =>
      cases hreports
      exact hexecuted rfl

omit [PortDevice δ] in
/-- Decoding executes nothing. -/
theorem executed_prepare (pipeline : Pipeline κ ι δ γ) :
    pipeline.prepare.1.executed = pipeline.executed := by
  have h := prepare_prepared pipeline
  generalize pipeline.prepare = prepared at h
  cases h <;> rfl

omit [PortDevice δ] in
/-- With nothing to execute, a move reports a halt, the end of memory or a fault. -/
theorem result_of_prepare_some {pipeline prepared : Pipeline κ ι δ γ}
    {result : Except Fault TickOutcome} (h : pipeline.prepare = (prepared, some result)) :
    result = .ok .halted ∨ result = .ok .endOfStream ∨ ∃ fault, result = .error fault := by
  have hprepared := prepare_prepared pipeline
  rw [h] at hprepared
  cases hprepared with
  | halts _ _ => exact .inl rfl
  | ends _ _ => exact .inr (.inl rfl)
  | overflows _ _ _ _ fault => exact .inr (.inr ⟨fault, rfl⟩)

/-! ## Counting -/

/-- What a move reports goes with how many instructions it executes, from a count
    of `before` to one of `after`. -/
inductive Counts (before after : UInt64) : Except Fault TickOutcome → Prop
  | executed (h : after = before + 1) : Counts before after (.ok .executed)
  | halted (h : after = before ∨ after = before + 1) : Counts before after (.ok .halted)
  | fault (h : after = before ∨ after = before + 1) (fault : Fault) :
      Counts before after (.error fault)
  | endOfStream (h : after = before) : Counts before after (.ok .endOfStream)
  | stopped (h : after = before) : Counts before after (.ok .stopped)
  | waiting (h : after = before) : Counts before after (.ok .waiting)

/-- A move executes one instruction at most. -/
theorem Counts.eq_or_eq_add_one {before after : UInt64} {result : Except Fault TickOutcome}
    (h : Counts before after result) : after = before ∨ after = before + 1 := by
  cases h with
  | executed h => exact .inr h
  | halted h => exact h
  | fault h _ => exact h
  | endOfStream h => exact .inl h
  | stopped h => exact .inl h
  | waiting h => exact .inl h

/-- One more is no overflow where a greater count is. -/
theorem toNat_add_one {count target : UInt64} (h : count < target) :
    (count + 1).toNat = count.toNat + 1 := by
  have hbound := target.toNat_lt
  rw [UInt64.lt_iff_toNat_lt] at h
  rw [UInt64.toNat_add]
  exact Nat.mod_eq_of_lt (by simp only [UInt64.toNat_one]; omega)

/-- So a move gets no further than a count that had not been reached. -/
theorem Counts.le {before after target : UInt64} {result : Except Fault TickOutcome}
    (h : Counts before after result) (hbelow : before < target) :
    before ≤ after ∧ after ≤ target := by
  have hone := toNat_add_one hbelow
  rw [UInt64.lt_iff_toNat_lt] at hbelow
  rw [UInt64.le_iff_toNat_le, UInt64.le_iff_toNat_le]
  obtain rfl | rfl := h.eq_or_eq_add_one
  · exact ⟨Nat.le_refl _, Nat.le_of_lt hbelow⟩
  · omega

theorem Counts.of_executed {before after : UInt64} (h : Counts before after (.ok .executed)) :
    after = before + 1 := by
  cases h
  assumption

omit [InterruptController γ] in
/-- What executing an instruction reports. -/
theorem executeNext_counts (ready : Pipeline κ ι δ γ) :
    Counts ready.executed ready.executeNext.1.executed ready.executeNext.2 := by
  have h := executeNext_performed ready
  generalize ready.executeNext = result at h
  cases h with
  | lacks _ _ fault => exact .fault (.inl rfl) fault
  | @faults _ _ _ _ fault _ => exact .fault (.inr rfl) fault
  | halts _ _ _ => exact .halted (.inr rfl)
  | goesOn _ _ _ => exact .executed rfl

/-- What a move reports. -/
theorem tick_counts (pipeline : Pipeline κ ι δ γ) :
    Counts pipeline.executed pipeline.tick.1.executed pipeline.tick.2 := by
  have h := tick_move pipeline
  have hprepare := executed_prepare pipeline
  generalize pipeline.tick = result at h
  cases h with
  | waits _ _ => exact .waiting rfl
  | leaves _ _ => exact .stopped rfl
  | @proceeds step _ _ => exact executeNext_counts { pipeline with step }
  | stops _ _ => exact .stopped rfl
  | idles _ _ hidle =>
      rw [hidle] at hprepare
      obtain rfl | rfl | ⟨fault, rfl⟩ := result_of_prepare_some hidle
      · exact .halted (.inl hprepare)
      · exact .endOfStream hprepare
      · exact .fault (.inl hprepare) fault
  | holds _ _ hdecode _ =>
      rw [hdecode] at hprepare
      exact .waiting hprepare
  | @executes prepared _ _ hdecode _ =>
      rw [hdecode] at hprepare
      rw [← hprepare]
      exact executeNext_counts prepared

end Pipeline

end Microprocessor
