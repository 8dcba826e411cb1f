import Microprocessor.Pipeline.Report

/-! # The log of faults

    Kinds of fault are masked and unmasked, faults are fired, and what has been
    recorded is cleared, in any order.  Two things that such a history gives tell all
    that a fault unit shows and answers: which kinds were masked last, and the log of
    the faults recorded since the log was last cleared.

      * `FaultUnit.maskedBy` and `FaultUnit.logged` are what a history gives;
      * `FaultUnit.Accounts` relates a fault unit to its history:
        `FaultUnit.Accounts.after` is one action, `FaultUnit.accounts_afterAll` any
        number of them;
      * `FaultUnit.fireTwice` goes on if the second fault is masked too;
        `FaultUnit.fireTwice_eq` says that it never is. -/

namespace Microprocessor

/-! ## Tables -/

namespace FaultTable

variable {α : Type}

theorem get_set (table : FaultTable α) (kind other : FaultKind) (value : α) :
    (table.set kind value).get other = if kind = other then value else table.get other := by
  cases kind <;> cases other <;> rfl

@[simp] theorem get_ofFunction (f : FaultKind → α) (kind : FaultKind) :
    (ofFunction f).get kind = f kind := by
  cases kind <;> rfl

end FaultTable

theorem FaultKind.mem_all (kind : FaultKind) : kind ∈ all := by
  cases kind <;> decide

namespace FaultUnit

/-! ## Bugs -/

/-- The bug of masking a kind that cannot be masked. -/
def maskingBug (kind : FaultKind) : Fault :=
  .bug ("attempt to mask unmaskable fault " ++ kind.name)

/-- The bug of a fault that cannot be gone on from and is masked. -/
def maskedBug (fault : Fault) : Fault :=
  ⟨fault.address, .bug ("fault " ++ fault.kind.name
    ++ " is masked, but the caller assumed it could not be")⟩

/-- Faults of a kind that cannot be masked stop the run, whatever the masks are. -/
theorem isMasked_of_not_maskable (faults : FaultUnit) {kind : FaultKind}
    (h : kind.maskable = false) : faults.isMasked kind = false := by
  rw [isMasked, h, Bool.false_and]

theorem mask_of_not_maskable (faults : FaultUnit) {kind : FaultKind}
    (h : kind.maskable = false) :
    faults.mask kind = (faults.record (maskingBug kind), some (maskingBug kind)) := by
  rw [mask, if_neg (Bool.eq_false_iff.mp h)]
  rfl

theorem fireAlways_of_masked (faults : FaultUnit) {fault : Fault}
    (h : faults.isMasked fault.kind = true) :
    faults.fireAlways fault
      = ((faults.record fault).record (maskedBug fault), maskedBug fault) := by
  rw [fireAlways, if_pos h]
  rfl

theorem fireAlways_of_not_masked (faults : FaultUnit) {fault : Fault}
    (h : faults.isMasked fault.kind = false) :
    faults.fireAlways fault = (faults.record fault, fault) := by
  rw [fireAlways, if_neg (Bool.eq_false_iff.mp h)]

/-- Fires a fault and, if the run goes on, the bug that it does.  No fault is given
    back if the run goes on after that too. -/
def fireTwice (faults : FaultUnit) (fault : Fault) : FaultUnit × Option Fault :=
  match faults.fire fault with
  | (fired, some stopping) => (fired, some stopping)
  | (fired, none) => fired.fire (maskedBug fault)

/-- The run never goes on after both. -/
theorem fireTwice_eq (faults : FaultUnit) (fault : Fault) :
    faults.fireTwice fault = ((faults.fireAlways fault).1, some (faults.fireAlways fault).2) := by
  rw [fireTwice, fire]
  cases h : faults.isMasked fault.kind with
  | true =>
      rw [faults.fireAlways_of_masked h]
      have hbug : (faults.record fault).isMasked (maskedBug fault).kind = false :=
        isMasked_of_not_maskable _ rfl
      show (faults.record fault).fire (maskedBug fault) = _
      rw [fire, hbug]
      rfl
  | false =>
      rw [faults.fireAlways_of_not_masked h]
      rfl

/-! ## Histories -/

/-- What is done to a fault unit. -/
inductive Action
  | mask (kind : FaultKind)
  | unmask (kind : FaultKind)
  | fire (fault : Fault)
  | fireAlways (fault : Fault)
  | clearAll

/-- The fault unit after an action. -/
def after (faults : FaultUnit) : Action → FaultUnit
  | .mask kind => (faults.mask kind).1
  | .unmask kind => faults.unmask kind
  | .fire fault => (faults.fire fault).1
  | .fireAlways fault => (faults.fireAlways fault).1
  | .clearAll => faults.clearAll

/-- What actions, the latest first, make of a new fault unit. -/
def afterAll : List Action → FaultUnit
  | [] => initial
  | action :: earlier => (afterAll earlier).after action

/-- Whether a kind is masked after actions, the latest first: from the start, if it
    can be, until it is unmasked, and again once it is masked. -/
def maskedBy (kind : FaultKind) : List Action → Bool
  | [] => kind.maskable
  | .mask other :: earlier => if other = kind then kind.maskable else maskedBy kind earlier
  | .unmask other :: earlier => if other = kind then false else maskedBy kind earlier
  | .fire _ :: earlier | .fireAlways _ :: earlier | .clearAll :: earlier => maskedBy kind earlier

/-- The faults recorded since the last clearing by actions, the latest first.  To mask
    what cannot be masked is recorded as a bug, and so is a masked fault that cannot be
    gone on from, after the fault itself. -/
def logged : List Action → List Fault
  | [] => []
  | .mask kind :: earlier =>
    if kind.maskable then logged earlier else maskingBug kind :: logged earlier
  | .unmask _ :: earlier => logged earlier
  | .fire fault :: earlier => fault :: logged earlier
  | .fireAlways fault :: earlier =>
    if maskedBy fault.kind earlier then maskedBug fault :: fault :: logged earlier
    else fault :: logged earlier
  | .clearAll :: _ => []

/-- The latest fault of a kind in a log. -/
def latest? (kind : FaultKind) (log : List Fault) : Option Fault :=
  log.find? fun fault => fault.kind = kind

/-- Only what can be masked ever is. -/
theorem maskable_of_maskedBy {kind : FaultKind} {actions : List Action}
    (h : maskedBy kind actions = true) : kind.maskable = true := by
  induction actions with
  | nil => exact h
  | cons action earlier ih =>
      cases action with
      | mask other =>
          rw [maskedBy] at h
          split at h
          · exact h
          · exact ih h
      | unmask other =>
          rw [maskedBy] at h
          split at h
          · cases h
          · exact ih h
      | fire _ | fireAlways _ | clearAll => exact ih h

/-! ## Keeping account -/

/-- The active faults are the latest of their kinds in a log. -/
def Shows (faults : FaultUnit) (log : List Fault) : Prop :=
  ∀ kind, faults.active.get kind = latest? kind log

/-- A recorded fault is the latest of its kind. -/
theorem Shows.record {faults : FaultUnit} {log : List Fault} (h : faults.Shows log)
    (fault : Fault) : (faults.record fault).Shows (fault :: log) := by
  intro kind
  show (faults.active.set fault.kind (some fault)).get kind = latest? kind (fault :: log)
  rw [FaultTable.get_set, latest?, List.find?_cons]
  by_cases hkind : fault.kind = kind
  · simp [hkind]
  · simp [hkind, h kind, latest?]

/-- The fault unit is as a history tells. -/
structure Accounts (faults : FaultUnit) (actions : List Action) : Prop where
  masked : ∀ kind, faults.masked.get kind = maskedBy kind actions
  active : faults.Shows (logged actions)

/-- A kind shown as masked is masked. -/
theorem Accounts.isMasked {faults : FaultUnit} {actions : List Action}
    (h : faults.Accounts actions) (kind : FaultKind) :
    faults.isMasked kind = maskedBy kind actions := by
  rw [FaultUnit.isMasked, h.masked kind]
  cases hmasked : maskedBy kind actions with
  | true => rw [maskable_of_maskedBy hmasked, Bool.and_self]
  | false => exact Bool.and_false _

/-- Each action leaves it so. -/
theorem Accounts.after {faults : FaultUnit} {earlier : List Action} (h : faults.Accounts earlier)
    (action : Action) : (faults.after action).Accounts (action :: earlier) := by
  cases action with
  | mask kind =>
      cases hmaskable : kind.maskable with
      | true =>
          rw [FaultUnit.after, mask, if_pos hmaskable]
          refine ⟨?_, ?_⟩
          · intro other
            show (faults.masked.set kind true).get other = _
            rw [FaultTable.get_set, maskedBy, h.masked other]
            split
            case isTrue hkind => exact hmaskable.symm.trans (congrArg _ hkind)
            case isFalse => rfl
          · rw [logged, if_pos hmaskable]
            exact h.active
      | false =>
          rw [FaultUnit.after, faults.mask_of_not_maskable hmaskable]
          refine ⟨?_, ?_⟩
          · intro other
            show faults.masked.get other = _
            rw [h.masked other, maskedBy]
            split
            case isTrue hkind =>
              -- What cannot be masked was not masked before either.
              subst hkind
              rw [hmaskable]
              exact Bool.eq_false_iff.mpr fun hmasked =>
                Bool.false_ne_true (hmaskable.symm.trans (maskable_of_maskedBy hmasked))
            case isFalse => rfl
          · rw [logged, if_neg (Bool.eq_false_iff.mp hmaskable)]
            exact h.active.record (maskingBug kind)
  | unmask kind =>
      refine ⟨?_, h.active⟩
      intro other
      show (faults.masked.set kind false).get other = _
      rw [FaultTable.get_set, maskedBy, h.masked other]
  | fire fault => exact ⟨h.masked, h.active.record fault⟩
  | fireAlways fault =>
      rw [FaultUnit.after]
      cases hmasked : maskedBy fault.kind earlier with
      | true =>
          rw [faults.fireAlways_of_masked ((h.isMasked _).trans hmasked)]
          refine ⟨h.masked, ?_⟩
          rw [logged, if_pos hmasked]
          exact (h.active.record fault).record (maskedBug fault)
      | false =>
          rw [faults.fireAlways_of_not_masked ((h.isMasked _).trans hmasked)]
          refine ⟨h.masked, ?_⟩
          rw [logged, if_neg (Bool.eq_false_iff.mp hmasked)]
          exact h.active.record fault
  | clearAll =>
      refine ⟨h.masked, ?_⟩
      intro kind
      exact FaultTable.get_ofFunction _ kind

/-- So a fault unit is as its whole history tells. -/
theorem accounts_afterAll (actions : List Action) : (afterAll actions).Accounts actions := by
  induction actions with
  | nil => exact ⟨FaultTable.get_ofFunction _, FaultTable.get_ofFunction _⟩
  | cons action earlier ih => exact ih.after action

/-! ## What is shown and answered -/

theorem active_status_record (faults : FaultUnit) (fault : Fault) (kind : FaultKind) :
    ((faults.record fault).status kind).active
      = if fault.kind = kind then some fault else (faults.status kind).active :=
  FaultTable.get_set _ _ _ _

/-- A fault unit answers as it shows. -/
structure AnswersAsShown (faults : FaultUnit) : Prop where
  /-- What cannot be masked is not shown as masked. -/
  maskable : ∀ kind, (faults.status kind).masked = true → kind.maskable = true
  /-- To mask it is a bug. -/
  masks : ∀ kind, (faults.mask kind).2 = if kind.maskable then none else some (maskingBug kind)
  /-- That bug is recorded. -/
  recordsMasking : ∀ kind, kind.maskable = false →
    ((faults.mask kind).1.status .bug).active = some (maskingBug kind)
  /-- A fault stops the run unless its kind is shown as masked. -/
  fires : ∀ fault,
    (faults.fire fault).2 = if (faults.status fault.kind).masked then none else some fault
  /-- Something that is not shown as masked is active. -/
  unmasked : faults.unmaskedActive = true
    ↔ ∃ kind fault, (faults.status kind).active = some fault ∧ (faults.status kind).masked = false
  /-- A fault that cannot be gone on from stops the run, or the bug does that it is masked. -/
  firesAlways : ∀ fault,
    (faults.fireAlways fault).2
        = (if (faults.status fault.kind).masked then maskedBug fault else fault)
      ∧ faults.fireTwice fault = ((faults.fireAlways fault).1, some (faults.fireAlways fault).2)
  /-- Both are recorded. -/
  recordsAlways : ∀ fault,
    ((faults.fireAlways fault).1.status fault.kind).active = some fault
      ∧ ((faults.status fault.kind).masked = true →
        ((faults.fireAlways fault).1.status .bug).active = some (maskedBug fault))

/-- Some active kind is not masked just if the statuses say so. -/
theorem unmaskedActive_iff (faults : FaultUnit) :
    faults.unmaskedActive = true
      ↔ ∃ kind fault, (faults.status kind).active = some fault ∧ faults.isMasked kind = false := by
  rw [unmaskedActive, List.any_eq_true]
  constructor
  · rintro ⟨kind, -, hboth⟩
    obtain ⟨hactive, hmasked⟩ := Bool.and_eq_true_iff.mp hboth
    obtain ⟨fault, hfault⟩ := Option.isSome_iff_exists.mp hactive
    rw [Bool.not_eq_true'] at hmasked
    exact ⟨kind, fault, hfault, hmasked⟩
  · rintro ⟨kind, fault, hactive, hmasked⟩
    refine ⟨kind, kind.mem_all, Bool.and_eq_true_iff.mpr ⟨?_, ?_⟩⟩
    · exact Option.isSome_iff_exists.mpr ⟨fault, hactive⟩
    · rw [hmasked]
      rfl

/-- Where only what can be masked is, answers are as shown. -/
theorem Accounts.answersAsShown {faults : FaultUnit} {actions : List Action}
    (h : faults.Accounts actions) : faults.AnswersAsShown := by
  have hshown : ∀ kind, faults.isMasked kind = (faults.status kind).masked :=
    fun kind => (h.isMasked kind).trans (h.masked kind).symm
  constructor
  case maskable =>
    intro kind hmasked
    exact maskable_of_maskedBy ((h.masked kind).symm.trans hmasked)
  case masks =>
    intro kind
    cases hmaskable : kind.maskable with
    | true =>
        rw [mask, if_pos hmaskable]
        rfl
    | false =>
        rw [faults.mask_of_not_maskable hmaskable]
        rfl
  case recordsMasking =>
    intro kind hmaskable
    rw [faults.mask_of_not_maskable hmaskable]
    exact active_status_record faults (maskingBug kind) .bug
  case fires =>
    intro fault
    rw [fire, hshown]
  case unmasked =>
    simp only [unmaskedActive_iff, hshown]
  case firesAlways =>
    intro fault
    refine ⟨?_, faults.fireTwice_eq fault⟩
    cases hmasked : (faults.status fault.kind).masked with
    | true =>
        rw [faults.fireAlways_of_masked ((hshown _).trans hmasked)]
        rfl
    | false =>
        rw [faults.fireAlways_of_not_masked ((hshown _).trans hmasked)]
        rfl
  case recordsAlways =>
    intro fault
    cases hmasked : (faults.status fault.kind).masked with
    | true =>
        -- The bug is of another kind, so that the fault stays shown.
        have hkind : (maskedBug fault).kind ≠ fault.kind := by
          intro heq
          have hmaskable := maskable_of_maskedBy ((h.masked _).symm.trans hmasked)
          rw [← heq] at hmaskable
          cases hmaskable
        rw [faults.fireAlways_of_masked ((hshown _).trans hmasked)]
        refine ⟨?_, fun _ => active_status_record _ (maskedBug fault) .bug⟩
        rw [active_status_record, if_neg hkind, active_status_record, if_pos rfl]
    | false =>
        rw [faults.fireAlways_of_not_masked ((hshown _).trans hmasked)]
        exact ⟨(active_status_record _ _ _).trans (if_pos rfl), nofun⟩

/-- Whatever is done to a fault unit, in any order: a kind is shown as masked if its history
    masks it, and as active if a fault of the kind has been recorded since the last clearing,
    with the latest such fault and its message; and what is answered agrees with what is
    shown. -/
theorem statuses_tell_history (actions : List Action) :
    (∀ kind, (afterAll actions).status kind
        = ⟨kind, maskedBy kind actions, latest? kind (logged actions)⟩)
    ∧ (∀ kind, ((afterAll actions).status kind).active.isSome = true
        ↔ ∃ fault ∈ logged actions, fault.kind = kind)
    ∧ (∀ kind fault, latest? kind (logged actions) = some fault →
        ((afterAll actions).status kind).message = fault.message)
    ∧ (afterAll actions).AnswersAsShown := by
  have haccounts := accounts_afterAll actions
  have hactive : ∀ kind, ((afterAll actions).status kind).active = latest? kind (logged actions) :=
    haccounts.active
  refine ⟨?_, ?_, ?_, haccounts.answersAsShown⟩
  · intro kind
    rw [status, haccounts.masked kind, haccounts.active kind]
  · intro kind
    rw [hactive, latest?, List.find?_isSome]
    simp
  · intro kind fault hlatest
    rw [FaultStatus.message, hactive, hlatest]
    rfl

/-- An undefined instruction at 0x100. -/
def undefinedAt : Fault :=
  ⟨some 0x100, .undefinedInstruction 0x0F "(bad) 0x0F"⟩

/-- Queue faults were to be masked, port faults are not any more, and an undefined instruction was
    fired as if it were not masked. -/
def insisted : List Action :=
  [.fireAlways undefinedAt, .unmask .unattachedPort, .mask .queue]

/-- The undefined instruction is active and masked, the latest bug is the one that it is masked,
    at the same address, and bugs are not masked.  A port fault would stop the run. -/
theorem statuses_tell_history_insisted :
    (afterAll insisted).status .undefinedInstruction
        = ⟨.undefinedInstruction, true, some undefinedAt⟩
      ∧ (afterAll insisted).status .bug = ⟨.bug, false, some (maskedBug undefinedAt)⟩
      ∧ ((afterAll insisted).status .undefinedInstruction).message = undefinedAt.message
      ∧ (afterAll insisted).unmaskedActive = true
      ∧ ((afterAll insisted).fire ⟨none, .unattachedPort 0x60 none⟩).2
        = some ⟨none, .unattachedPort 0x60 none⟩ := by
  obtain ⟨hstatus, -, hmessage, hanswers⟩ := statuses_tell_history insisted
  have hbug := hstatus .bug
  refine ⟨hstatus .undefinedInstruction, hbug, ?_, ?_, ?_⟩
  · exact hmessage .undefinedInstruction undefinedAt (by decide +kernel)
  · exact hanswers.unmasked.mpr ⟨.bug, maskedBug undefinedAt, congrArg FaultStatus.active hbug,
      congrArg FaultStatus.masked hbug⟩
  · exact (hanswers.fires _).trans (by decide +kernel)

end FaultUnit

end Microprocessor
