import Microprocessor.Control.StepControl

/-! # Grants and intervals of step mode

    While step mode is on, an instruction goes through for a grant and for nothing else.
    From the moment at which step mode is turned on, as many go through as have been let
    through since, and one more if a grant was left over: one that was given while step
    mode was off, and that nothing has used up or withdrawn.  Turning step mode off
    withdraws a grant; turning it on does not.

      * `Runs` is a history of step control, in which a condition holds throughout;
      * `count_resumed_add_granted_le` is the budget that every event keeps to while
        step mode is on;
      * `granted_iff_leftOver` tells when a grant is left over;
      * `resumed_within_resumes_unless_leftOver` is about intervals after any history. -/

namespace Microprocessor.StepControl

/-! ## Histories -/

/-- What can happen to step control. -/
inductive Event
  | setArmed (armed : Bool)
  | toggle
  | resume
  | requestStop
  | clearStop
  /-- A wait begins. -/
  | wait
  /-- A wait ends. -/
  | returns (wake : Wake)
  deriving DecidableEq

/-- The control after an event, if it can happen.  A wait ends when there is a way for it
    to end, at once or with any delay, and there may be several at a time. -/
def after? (control : StepControl) : Event → Option StepControl
  | .setArmed armed => some (control.setArmed armed)
  | .toggle => some control.toggle.2
  | .resume => some control.resume
  | .requestStop => some control.requestStop
  | .clearStop => some control.clearStop
  | .wait => some control.beginWait
  | .returns wake =>
    match control.settle with
    | some (how, next) => if how = wake then some next else none
    | none => none

/-- A history that leads from one control to another, where every control on the way
    satisfies a condition. -/
inductive Runs (always : StepControl → Prop) :
    StepControl → List Event → StepControl → Prop
  | nil {control : StepControl} (h : always control) : Runs always control [] control
  | cons {control next last : StepControl} {event : Event} {rest : List Event}
      (h : always control) (hstep : control.after? event = some next)
      (hrest : Runs always next rest last) : Runs always control (event :: rest) last

variable {always : StepControl → Prop} {control next last : StepControl} {event : Event}
  {events : List Event}

theorem Runs.first (h : Runs always control events last) : always control := by
  cases h with
  | nil h => exact h
  | cons h _ _ => exact h

/-- A history can be cut anywhere. -/
theorem Runs.split {first second : List Event} (h : Runs always control (first ++ second) last) :
    ∃ middle, Runs always control first middle ∧ Runs always middle second last := by
  induction first generalizing control with
  | nil => exact ⟨control, .nil h.first, h⟩
  | cons event first ih =>
      cases h with
      | cons hfirst hstep hrest =>
          obtain ⟨middle, hleft, hright⟩ := ih hrest
          exact ⟨middle, .cons hfirst hstep hleft, hright⟩

/-! ## One event -/

/-- How a wait can end: stopped, on a grant that it uses up, or with step mode off. -/
theorem after?_returns {wake : Wake} (h : control.after? (.returns wake) = some next) :
    (wake = .stopped ∧ next = { control with waiting := false })
      ∨ (wake = .resumed ∧ control.granted = true
        ∧ next = { control with granted := false, waiting := false })
      ∨ (wake = .resumed ∧ control.granted = false ∧ control.armed = false
        ∧ next = { control with waiting := false }) := by
  rw [after?, settle] at h
  by_cases hstop : control.stop = true
  · rw [if_pos hstop] at h
    cases wake with
    | stopped => exact .inl ⟨rfl, (Option.some.inj h).symm⟩
    | resumed => cases h
  · rw [if_neg hstop] at h
    by_cases hgranted : control.granted = true
    · rw [if_pos hgranted] at h
      cases wake with
      | stopped => cases h
      | resumed => exact .inr (.inl ⟨rfl, hgranted, (Option.some.inj h).symm⟩)
    · rw [if_neg hgranted] at h
      by_cases hon : control.armed = true
      · rw [if_pos hon] at h
        cases h
      · rw [if_neg hon] at h
        cases wake with
        | stopped => cases h
        | resumed =>
            exact .inr (.inr ⟨rfl, Bool.eq_false_iff.mpr hgranted, Bool.eq_false_iff.mpr hon,
              (Option.some.inj h).symm⟩)

/-- Whether an event leaves a grant where it is: it changes no setting of step mode and
    lets no instruction through. -/
def Event.keepsGrant : Event → Bool
  | .setArmed _ | .toggle | .returns .resumed => false
  | .resume | .requestStop | .clearStop | .wait | .returns .stopped => true

/-- Such an event leaves step mode alone, and brings a grant only if it is `resume`. -/
theorem after?_keepsGrant (hkeeps : event.keepsGrant = true)
    (h : control.after? event = some next) :
    next.armed = control.armed
      ∧ next.granted = (control.granted || decide (event = .resume)) := by
  cases event with
  | setArmed _ | toggle => cases hkeeps
  | resume | requestStop | clearStop | wait =>
      obtain rfl := Option.some.inj h
      simp [resume, requestStop, clearStop, beginWait]
  | returns wake =>
      obtain ⟨rfl, rfl⟩ | ⟨rfl, -, -⟩ | ⟨rfl, -, -, -⟩ := after?_returns h
      · simp
      · cases hkeeps
      · cases hkeeps

/-- Any other event leaves step mode on with the grant where it was, or leaves nothing
    granted and turns nothing on. -/
theorem after?_setting (hkeeps : event.keepsGrant = false)
    (h : control.after? event = some next) :
    (next.armed = true ∧ next.granted = control.granted ∧ next.stop = control.stop
        ∧ event ≠ .returns .resumed)
      ∨ (next.granted = false ∧ (next.armed = true → control.armed = true)) := by
  have hset (armed : Bool) : ((control.setArmed armed).armed = true
        ∧ (control.setArmed armed).granted = control.granted
        ∧ (control.setArmed armed).stop = control.stop)
      ∨ ((control.setArmed armed).granted = false
        ∧ ((control.setArmed armed).armed = true → control.armed = true)) := by
    cases armed with
    | true => exact .inl ⟨rfl, rfl, rfl⟩
    | false => exact .inr ⟨rfl, nofun⟩
  cases event with
  | resume | requestStop | clearStop | wait => cases hkeeps
  | setArmed armed =>
      obtain rfl := Option.some.inj h
      exact (hset armed).imp_left fun ⟨hon, hgranted, hstop⟩ => ⟨hon, hgranted, hstop, nofun⟩
  | toggle =>
      obtain rfl := Option.some.inj h
      exact (hset !control.armed).imp_left
        fun ⟨hon, hgranted, hstop⟩ => ⟨hon, hgranted, hstop, nofun⟩
  | returns wake =>
      obtain ⟨rfl, rfl⟩ | ⟨rfl, -, rfl⟩ | ⟨rfl, hgranted, -, rfl⟩ := after?_returns h
      · cases hkeeps
      · exact .inr ⟨rfl, id⟩
      · exact .inr ⟨hgranted, id⟩

/-! ## Intervals -/

/-- While step mode is on, an instruction goes through only for a grant. -/
theorem granted_of_resumed (hon : control.armed = true)
    (h : control.after? (.returns .resumed) = some next) :
    control.granted = true ∧ next.granted = false := by
  obtain ⟨hwake, -⟩ | ⟨-, hgranted, rfl⟩ | ⟨-, -, hoff, -⟩ := after?_returns h
  · cases hwake
  · exact ⟨hgranted, rfl⟩
  · rw [hon] at hoff
    cases hoff

/-- While step mode is on, an event that lets an instruction through uses a grant up, and
    only `resume` brings one. -/
theorem resumed_add_granted_le (hon : control.armed = true)
    (h : control.after? event = some next) :
    [event].count (.returns .resumed) + next.granted.toNat
      ≤ [event].count .resume + control.granted.toNat := by
  by_cases hresumed : event = .returns .resumed
  · subst hresumed
    obtain ⟨hgranted, hused⟩ := granted_of_resumed hon h
    rw [hgranted, hused]
    decide
  · have hcount : [event].count (.returns .resumed) = 0 :=
      List.count_eq_zero.mpr (by simpa using Ne.symm hresumed)
    rw [hcount]
    cases hkeeps : event.keepsGrant with
    | true =>
        rw [(after?_keepsGrant hkeeps h).2]
        cases control.granted <;> by_cases hresume : event = .resume <;> simp [hresume]
    | false =>
        obtain ⟨-, hgranted, -⟩ | ⟨hgranted, -⟩ := after?_setting hkeeps h
        · rw [hgranted, Nat.zero_add]
          exact Nat.le_add_left _ _
        · rw [hgranted]
          exact Nat.zero_le _

/-- So a history in step mode lets as many instructions through as have been let through,
    and one more only if there was a grant before it. -/
theorem count_resumed_add_granted_le (h : Runs (·.armed = true) control events last) :
    events.count (.returns .resumed) + last.granted.toNat
      ≤ events.count .resume + control.granted.toNat := by
  induction h with
  | nil _ => exact Nat.le_refl _
  | @cons control next last event rest hon hstep _ ih =>
      have hevent := resumed_add_granted_le hon hstep
      rw [List.count_cons, List.count_cons]
      simp only [List.count_cons, List.count_nil, Nat.zero_add] at hevent
      omega

/-- Between two instructions that go through there is a `resume`. -/
theorem resume_between {first between rest : List Event}
    (h : Runs (·.armed = true) control
      (first ++ .returns .resumed :: (between ++ .returns .resumed :: rest)) last) :
    .resume ∈ between := by
  obtain ⟨middle, -, hmiddle⟩ := h.split
  cases hmiddle with
  | cons hon hstep hrest =>
      obtain ⟨reached, hbetween, hsecond⟩ := hrest.split
      have hbudget := count_resumed_add_granted_le hbetween
      rw [(granted_of_resumed hon hstep).2] at hbudget
      cases hsecond with
      | cons hon' hstep' _ =>
          rw [(granted_of_resumed hon' hstep').1] at hbudget
          refine List.count_pos_iff.mp ?_
          simp only [Bool.toNat_true, Bool.toNat_false] at hbudget
          omega

/-! ## What is left over -/

/-- A grant is left over: after some `resume` nothing has changed a setting of step mode
    and no instruction has gone through. -/
def LeftOver (before : List Event) : Prop :=
  ∃ earlier later, before = earlier ++ .resume :: later
    ∧ ∀ event ∈ later, event.keepsGrant = true

theorem LeftOver.cons {before : List Event} (h : LeftOver before) (event : Event) :
    LeftOver (event :: before) := by
  obtain ⟨earlier, later, rfl, hlater⟩ := h
  exact ⟨event :: earlier, later, rfl, hlater⟩

theorem granted_of_keepsGrant (h : Runs always control events last)
    (hkeeps : ∀ event ∈ events, event.keepsGrant = true) (hgranted : control.granted = true) :
    last.granted = true := by
  induction h with
  | nil _ => exact hgranted
  | cons _ hstep _ ih =>
      obtain ⟨hevent, hrest⟩ := List.forall_mem_cons.mp hkeeps
      exact ih hrest (by rw [(after?_keepsGrant hevent hstep).2, hgranted, Bool.true_or])

/-- With step mode off at the end, a grant comes from a `resume` that is left over, or it
    was there all along. -/
theorem leftOver_or_granted (h : Runs always control events last) (hoff : last.armed = false)
    (hgranted : last.granted = true) :
    LeftOver events
      ∨ (control.armed = false ∧ control.granted = true
        ∧ ∀ event ∈ events, event.keepsGrant = true) := by
  induction h with
  | nil _ => exact .inr ⟨hoff, hgranted, nofun⟩
  | @cons control next last event rest _ hstep _ ih =>
      obtain hleft | ⟨hnextOff, hnextGranted, hrest⟩ := ih hoff hgranted
      · exact .inl (hleft.cons event)
      · cases hkeeps : event.keepsGrant with
        | true =>
            obtain ⟨hsame, hbrings⟩ := after?_keepsGrant hkeeps hstep
            by_cases hresume : event = .resume
            · subst hresume
              exact .inl ⟨[], rest, rfl, hrest⟩
            · have hbefore : control.granted = true := by
                rw [← hnextGranted, hbrings, decide_eq_false hresume, Bool.or_false]
              exact .inr ⟨hsame.symm.trans hnextOff, hbefore,
                List.forall_mem_cons.mpr ⟨hkeeps, hrest⟩⟩
        | false =>
            obtain ⟨hon, -⟩ | ⟨hnone, -⟩ := after?_setting hkeeps hstep
            · rw [hnextOff] at hon
              cases hon
            · rw [hnextGranted] at hnone
              cases hnone

/-- With step mode off, there is a grant just if one is left over. -/
theorem granted_iff_leftOver (h : Runs always initial events last) (hoff : last.armed = false) :
    last.granted = true ↔ LeftOver events := by
  constructor
  · intro hgranted
    obtain hleft | ⟨-, hinitial, -⟩ := leftOver_or_granted h hoff hgranted
    · exact hleft
    · cases hinitial
  · rintro ⟨earlier, later, rfl, hlater⟩
    obtain ⟨middle, -, hmiddle⟩ := h.split
    cases hmiddle with
    | cons _ hstep hrest =>
        refine granted_of_keepsGrant hrest hlater ?_
        rw [(after?_keepsGrant rfl hstep).2]
        exact Bool.or_true _

/-- What turns step mode on leaves a grant and a request to stop where they are. -/
theorem after?_arming (hoff : control.armed = false) (hon : next.armed = true)
    (h : control.after? event = some next) :
    next.granted = control.granted ∧ next.stop = control.stop := by
  cases hkeeps : event.keepsGrant with
  | true =>
      rw [(after?_keepsGrant hkeeps h).1, hoff] at hon
      cases hon
  | false =>
      obtain ⟨-, hgranted, hstop, -⟩ | ⟨-, hwas⟩ := after?_setting hkeeps h
      · exact ⟨hgranted, hstop⟩
      · rw [hwas hon] at hoff
        cases hoff

/-- In an interval that begins when step mode is turned on and lasts while it stays on, at
    most as many instructions go through as there are `resume`s in it, unless a grant is
    left over, and then at most one more.  The one that is left over does let the first
    instruction through that nobody stops.  Either way there is a `resume` between two
    instructions that go through. -/
theorem resumed_within_resumes_unless_leftOver {before during : List Event} {arming : Event}
    {off start last : StepControl} (hbefore : Runs (fun _ => True) initial before off)
    (hoff : off.armed = false) (harming : off.after? arming = some start)
    (hduring : Runs (·.armed = true) start during last) :
    (¬ LeftOver before → during.count (.returns .resumed) ≤ during.count .resume)
      ∧ during.count (.returns .resumed) ≤ during.count .resume + 1
      ∧ (LeftOver before → off.stop = false →
        ∃ last, Runs (·.armed = true) start [.wait, .returns .resumed] last)
      ∧ ∀ first between rest,
        during = first ++ .returns .resumed :: (between ++ .returns .resumed :: rest) →
        .resume ∈ between := by
  have hon : start.armed = true := hduring.first
  obtain ⟨hgranted, hstop⟩ := after?_arming hoff hon harming
  have hbudget := count_resumed_add_granted_le hduring
  have hleft := granted_iff_leftOver hbefore hoff
  rw [← hgranted] at hleft
  refine ⟨?_, ?_, ?_, ?_⟩
  · intro hnone
    rw [Bool.eq_false_iff.mpr (mt hleft.mp hnone)] at hbudget
    exact Nat.le_of_add_right_le hbudget
  · have hone := start.granted.toNat_le
    omega
  · intro hover hfree
    have hends : start.beginWait.after? (.returns .resumed)
        = some { start.beginWait with granted := false, waiting := false } := by
      simp [after?, settle, beginWait, hleft.mpr hover, hstop, hfree]
    exact ⟨_, .cons hon rfl (.cons hon hends (.nil hon))⟩
  · rintro first between rest rfl
    exact resume_between hduring

/-- A `resume` that comes before step mode is turned on lets an instruction through
    afterwards, without a `resume`.  Where step mode has been turned off in between, that
    takes another `resume`. -/
theorem resumed_within_resumes_unless_leftOver_early :
    (LeftOver [.resume] ∧ [Event.wait, .returns .resumed].count .resume = 0
        ∧ [Event.wait, .returns .resumed].count (.returns .resumed) = 1
        ∧ ∃ last, Runs (·.armed = true) ⟨true, true, false, false⟩ [.wait, .returns .resumed] last)
      ∧ [Event.resume, .wait, .returns .resumed].count (.returns .resumed)
        ≤ [Event.resume, .wait, .returns .resumed].count .resume := by
  have hover : LeftOver [.resume] := ⟨[], [], rfl, nofun⟩
  constructor
  · obtain ⟨-, -, hfirst, -⟩ := @resumed_within_resumes_unless_leftOver [.resume] [] (.setArmed true)
      _ _ _ (.cons trivial rfl (.nil trivial)) rfl rfl (.nil rfl)
    exact ⟨hover, by decide, by decide, hfirst hover rfl⟩
  · have hnone : ¬ LeftOver [.resume, .setArmed false] := by
      have hgranted := @granted_iff_leftOver (fun _ => True) _ [.resume, .setArmed false]
        (.cons trivial rfl (.cons trivial rfl (.nil trivial))) rfl
      exact mt hgranted.mpr nofun
    exact (@resumed_within_resumes_unless_leftOver [.resume, .setArmed false]
      [.resume, .wait, .returns .resumed] .toggle _ _ _
      (.cons trivial rfl (.cons trivial rfl (.nil trivial))) rfl rfl
      (.cons rfl rfl (.cons rfl rfl (.cons rfl rfl (.nil rfl))))).1 hnone

end Microprocessor.StepControl
