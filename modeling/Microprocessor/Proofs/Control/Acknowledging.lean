import Microprocessor.Control.Interrupt

/-! # Acknowledging

    A processor that accepts a maskable request has the controller acknowledge
    it, which gives the vector and may change the controller in any way.

      * `InterruptInputs.request?` is the vector that is waiting;
        `InterruptInputs.acknowledge_of_request?` and
        `InterruptInputs.acknowledge_of_none` say what accepting it comes to;
      * `Watched` is a controller that keeps an account of what it was asked to
        acknowledge, which tells it from one that was asked more often. -/

namespace Microprocessor

namespace InterruptInputs

variable {γ : Type} [InterruptController γ] {inputs : InterruptInputs γ}

/-! ## Accepting a request -/

/-- The vector that the controller gives if it is asked to, while it requests an
    interrupt. -/
def request? (inputs : InterruptInputs γ) : Option UInt8 :=
  (inputs.controller.filter InterruptController.pending).map fun controller =>
    (InterruptController.acknowledge controller).1

/-- The inputs after the controller has been asked to acknowledge. -/
def acknowledged (inputs : InterruptInputs γ) : InterruptInputs γ :=
  { inputs with
    controller := inputs.controller.map fun controller =>
      (InterruptController.acknowledge controller).2 }

/-- A vector is waiting exactly if a request is. -/
theorem isSome_request? (inputs : InterruptInputs γ) :
    inputs.request?.isSome = inputs.requestPending := by
  obtain ⟨_ | controller, nmi⟩ := inputs
  · rfl
  · simp only [request?, requestPending, Option.isSome_map, Option.isSome_filter]

/-- A request that is waiting is accepted, and acknowledged once. -/
theorem acknowledge_of_request? {vector : UInt8} (h : inputs.request? = some vector) :
    inputs.acknowledge = (some vector, inputs.acknowledged) := by
  obtain ⟨controller, hpending, rfl⟩ := Option.map_eq_some_iff.mp h
  obtain ⟨hcontroller, hpending⟩ := Option.filter_eq_some_iff.mp hpending
  rw [acknowledge, acknowledged, hcontroller]
  simp only [hpending, if_true, Option.map_some]

/-- Where no request is waiting, the controller is not asked. -/
theorem acknowledge_of_none (h : inputs.request? = none) :
    inputs.acknowledge = (none, inputs) := by
  rw [acknowledge]
  cases hcontroller : inputs.controller with
  | none => rfl
  | some controller =>
      have hquiet := Option.filter_eq_none_iff.mp (Option.map_eq_none_iff.mp h)
      simp only [if_neg (hquiet controller hcontroller)]

end InterruptInputs

/-! ## Watched controllers -/

/-- A controller, and the vectors it has given, the newest first. -/
structure Watched (γ : Type) where
  controller : γ
  given : List UInt8

instance {γ : Type} [InterruptController γ] : InterruptController (Watched γ) where
  pending watched := InterruptController.pending watched.controller
  acknowledge watched :=
    let (vector, controller) := InterruptController.acknowledge watched.controller
    (vector, ⟨controller, vector :: watched.given⟩)

namespace InterruptInputs

variable {γ : Type}

/-- The inputs, with an account of what is acknowledged from now on. -/
def watched (inputs : InterruptInputs γ) : InterruptInputs (Watched γ) :=
  ⟨inputs.controller.map (⟨·, []⟩), inputs.nmi⟩

/-- The inputs without the account. -/
def unwatched (inputs : InterruptInputs (Watched γ)) : InterruptInputs γ :=
  ⟨inputs.controller.map Watched.controller, inputs.nmi⟩

/-- The vectors that the controller has given, the newest first. -/
def given (inputs : InterruptInputs (Watched γ)) : List UInt8 :=
  inputs.controller.elim [] Watched.given

@[simp] theorem nmi_watched (inputs : InterruptInputs γ) : inputs.watched.nmi = inputs.nmi :=
  rfl

@[simp] theorem unwatched_watched (inputs : InterruptInputs γ) :
    inputs.watched.unwatched = inputs := by
  obtain ⟨_ | controller, nmi⟩ := inputs <;> rfl

@[simp] theorem given_watched (inputs : InterruptInputs γ) : inputs.watched.given = [] := by
  obtain ⟨_ | controller, nmi⟩ := inputs <;> rfl

variable [InterruptController γ]

/-- Being watched does not change what a controller asks for. -/
@[simp] theorem request?_watched (inputs : InterruptInputs γ) :
    inputs.watched.request? = inputs.request? := by
  rw [request?, watched, Option.filter_map, Option.map_map]
  rfl

/-- Nor what becomes of it. -/
@[simp] theorem unwatched_acknowledged_watched (inputs : InterruptInputs γ) :
    inputs.watched.acknowledged.unwatched = inputs.acknowledged := by
  obtain ⟨_ | controller, nmi⟩ := inputs <;> rfl

/-- One acknowledgement is one more vector given. -/
theorem given_acknowledged_watched {inputs : InterruptInputs γ} {vector : UInt8}
    (h : inputs.request? = some vector) : inputs.watched.acknowledged.given = [vector] := by
  obtain ⟨controller, hpending, rfl⟩ := Option.map_eq_some_iff.mp h
  obtain ⟨hcontroller, -⟩ := Option.filter_eq_some_iff.mp hpending
  rw [given, acknowledged, watched, hcontroller]
  rfl

end InterruptInputs

end Microprocessor
