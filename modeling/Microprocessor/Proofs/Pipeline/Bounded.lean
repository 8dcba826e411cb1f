import Microprocessor.Proofs.Pipeline.Amid

/-! # Bounded runs

    A run for a number of instructions ends as soon as as many have been
    executed, or when a move reports something other than an execution.  So a
    longer run is a shorter one, continued if that got as far as it might.

      * `Pipeline.runMoves_add_of_executed` and `Pipeline.runMoves_add_of_ne`
        are how moves add up for a pipeline left alone;
      * `Pipeline.runUntilAmid_of_le`: a run amid events is a shorter one, continued,
        and `Pipeline.result_eq_executed_iff` says when it gets as far as it
        might;
      * `Pipeline.ComposesAlone` and `Pipeline.ComposesAmid` are the outcome for
        either kind of run. -/

namespace Microprocessor

namespace Pipeline

variable {κ ι δ γ : Type} [Core κ ι] [Decoded ι] [PortDevice δ] [InterruptController γ]

/-! ## Left alone -/

theorem runMoves_of_executed {pipeline : Pipeline κ ι δ γ} (h : pipeline.tick.2 = .ok .executed)
    (count : Nat) : runMoves (count + 1) pipeline = runMoves count pipeline.tick.1 := by
  rw [runMoves]
  generalize pipeline.tick = ticked at h
  obtain ⟨next, result⟩ := ticked
  subst h
  rfl

theorem runMoves_of_ne {pipeline : Pipeline κ ι δ γ} (h : pipeline.tick.2 ≠ .ok .executed)
    (count : Nat) : runMoves (count + 1) pipeline = pipeline.tick := by
  rw [runMoves]
  split
  · rename_i next htick
    rw [htick] at h
    exact absurd rfl h
  · rename_i htick
    exact htick.symm

/-- Moves that all execute an instruction are counted, and may be followed by more. -/
theorem runMoves_add_of_executed {m : Nat} (n : Nat) :
    ∀ {pipeline : Pipeline κ ι δ γ}, (runMoves m pipeline).2 = .ok .executed →
      (runMoves m pipeline).1.executed = pipeline.executed + UInt64.ofNat m
        ∧ runMoves (m + n) pipeline = runMoves n (runMoves m pipeline).1 := by
  induction m with
  | zero =>
      intro pipeline _
      rw [Nat.zero_add, runMoves]
      exact ⟨(UInt64.add_zero _).symm, rfl⟩
  | succ m ih =>
      intro pipeline h
      by_cases hexecuted : pipeline.tick.2 = .ok .executed
      · have hcount : pipeline.tick.1.executed = pipeline.executed + 1 := by
          have hcounts := pipeline.tick_counts
          rw [hexecuted] at hcounts
          exact hcounts.of_executed
        rw [runMoves_of_executed hexecuted] at h
        rw [Nat.succ_add, runMoves_of_executed hexecuted, runMoves_of_executed hexecuted]
        obtain ⟨hmore, hrest⟩ := ih h
        refine ⟨?_, hrest⟩
        rw [hmore, hcount, UInt64.add_assoc, Nat.add_comm, UInt64.ofNat_add]
        rfl
      · rw [runMoves_of_ne hexecuted] at h
        exact absurd h hexecuted

/-- A move that reports something else ends the run, however long it might be. -/
theorem runMoves_add_of_ne {m : Nat} (n : Nat) :
    ∀ {pipeline : Pipeline κ ι δ γ}, (runMoves m pipeline).2 ≠ .ok .executed →
      runMoves (m + n) pipeline = runMoves m pipeline := by
  induction m with
  | zero =>
      intro pipeline h
      exact absurd rfl h
  | succ m ih =>
      intro pipeline h
      rw [Nat.succ_add]
      by_cases hexecuted : pipeline.tick.2 = .ok .executed
      · rw [runMoves_of_executed hexecuted] at h
        rw [runMoves_of_executed hexecuted, runMoves_of_executed hexecuted]
        exact ih h
      · rw [runMoves_of_ne hexecuted, runMoves_of_ne hexecuted]

/-! ## Amid events -/

omit [Core κ ι] [Decoded ι] [PortDevice δ] [InterruptController γ] in
theorem hasReached_iff {target : UInt64} {pipeline : Pipeline κ ι δ γ} :
    pipeline.hasReached target = true ↔ target ≤ pipeline.executed :=
  decide_eq_true_iff

omit [Core κ ι] [Decoded ι] [PortDevice δ] [InterruptController γ] in
theorem hasReached_eq_false_iff {target : UInt64} {pipeline : Pipeline κ ι δ γ} :
    pipeline.hasReached target = false ↔ pipeline.executed < target := by
  rw [← Bool.not_eq_true, hasReached_iff, UInt64.not_le]

/-- A run does not execute more than it may. -/
theorem executed_runUntilAmid {target : UInt64} {events : List (Event κ δ γ)}
    {pipeline : Pipeline κ ι δ γ} {ended : Ended κ ι δ γ}
    (h : runUntilAmid (hasReached target) events pipeline = some ended) :
    pipeline.executed ≤ target →
      pipeline.executed ≤ ended.pipeline.executed ∧ ended.pipeline.executed ≤ target := by
  refine runUntilAmid_induction (fun _ => True) (fun pipeline ended =>
    pipeline.executed ≤ target →
      pipeline.executed ≤ ended.pipeline.executed ∧ ended.pipeline.executed ≤ target)
    ?reached ?ends ?moves ?event (fun _ _ => trivial) h
  case reached =>
    intro pipeline later _ hle
    exact ⟨UInt64.le_refl _, hle⟩
  case ends =>
    intro pipeline later hbelow _ _
    exact pipeline.tick_counts.le (hasReached_eq_false_iff.mp hbelow)
  case moves =>
    intro pipeline ended hbelow _ ih _
    obtain ⟨hleast, hmost⟩ := pipeline.tick_counts.le (hasReached_eq_false_iff.mp hbelow)
    obtain ⟨hfrom, hto⟩ := ih hmost
    exact ⟨UInt64.le_trans hleast hfrom, hto⟩
  case event =>
    intro pipeline event ended _ hmove _ ih hle
    obtain ⟨-, -, hexecuted, -⟩ := keeps_of_ne_move pipeline hmove
    rw [hexecuted] at ih
    exact ih hle

/-- A run has executed all the instructions up to a count, and every move that
    executed one reported so. -/
def Ended.Completes (ended : Ended κ ι δ γ) (target : UInt64) : Prop :=
  ended.pipeline.executed = target ∧
    ∀ before ∈ ended.moved, before.tick.1.executed = before.executed + 1 →
      before.tick.2 = .ok .executed

/-- A run gets as far as it might exactly if it executes as many instructions as it
    may and every one of them goes on. -/
theorem result_eq_executed_iff {target : UInt64} {events : List (Event κ δ γ)}
    {pipeline : Pipeline κ ι δ γ} {ended : Ended κ ι δ γ}
    (h : runUntilAmid (hasReached target) events pipeline = some ended) :
    pipeline.executed ≤ target → (ended.result = .ok .executed ↔ ended.Completes target) := by
  refine runUntilAmid_induction (fun _ => True) (fun pipeline ended =>
    pipeline.executed ≤ target → (ended.result = .ok .executed ↔ ended.Completes target))
    ?reached ?ends ?moves ?event (fun _ _ => trivial) h
  case reached =>
    intro pipeline later hreached hle
    refine iff_of_true rfl ⟨UInt64.le_antisymm hle (hasReached_iff.mp hreached), ?_⟩
    intro before hbefore
    cases hbefore
  case ends =>
    intro pipeline later hbelow hends _
    refine iff_of_false ?_ ?_
    · intro (hexecuted : pipeline.tick.2 = _)
      rw [hexecuted] at hends
      cases hends
    · rintro ⟨hreached, hall⟩
      -- The last move would have executed the last instruction.
      obtain hsame | hone := pipeline.tick_counts.eq_or_eq_add_one
      · refine UInt64.lt_irrefl target ?_
        have hbelow := hasReached_eq_false_iff.mp hbelow
        rw [← hsame] at hbelow
        exact hreached ▸ hbelow
      · rw [hall pipeline List.mem_cons_self hone] at hends
        cases hends
  case moves =>
    intro pipeline ended hbelow hgoes ih _
    have hbelow := hasReached_eq_false_iff.mp hbelow
    have hcounts := pipeline.tick_counts
    have hone : pipeline.tick.1.executed = pipeline.executed + 1 →
        pipeline.tick.2 = .ok .executed := by
      intro hmore
      obtain ⟨-, hresult⟩ | ⟨hsame, -⟩ := hcounts.of_goesOn hgoes
      · exact hresult
      · -- A wait counts nothing, and below the target a count cannot wrap around to itself.
        have hcount := congrArg UInt64.toNat (hsame.symm.trans hmore)
        rw [toNat_add_one hbelow] at hcount
        exact absurd hcount (Nat.ne_of_lt (Nat.lt_succ_self _))
    rw [Ended.Completes] at ih ⊢
    refine (ih (hcounts.le hbelow).2).trans (and_congr_right fun _ => ?_)
    show _ ↔ ∀ before ∈ pipeline :: ended.moved, _
    rw [List.forall_mem_cons]
    exact (and_iff_right hone).symm
  case event =>
    intro pipeline event ended _ hmove _ ih hle
    obtain ⟨-, -, hexecuted, -⟩ := keeps_of_ne_move pipeline hmove
    rw [hexecuted] at ih
    exact ih hle

/-- What becomes of a run whose target is moved on: it goes on if it had reached the
    one it had. -/
def Ended.onward (further : UInt64) (ended : Ended κ ι δ γ) : Option (Ended κ ι δ γ) :=
  match ended.result with
  | .ok .executed =>
    (runUntilAmid (hasReached further) ended.later ended.pipeline).map (.since ended.moved)
  | _ => some ended

theorem Ended.onward_of_executed {further : UInt64} {ended : Ended κ ι δ γ}
    (h : ended.result = .ok .executed) :
    ended.onward further
      = (runUntilAmid (hasReached further) ended.later ended.pipeline).map
          (.since ended.moved) := by
  rw [onward, h]

theorem Ended.onward_of_ne {further : UInt64} {ended : Ended κ ι δ γ}
    (h : ended.result ≠ .ok .executed) : ended.onward further = some ended := by
  rw [onward]
  split
  · rename_i hexecuted
    exact absurd hexecuted h
  · rfl

/-- Moves made before are made before in any case. -/
theorem Ended.onward_since {further : UInt64} (earlier : List (Pipeline κ ι δ γ))
    (ended : Ended κ ι δ γ) :
    (ended.since earlier).onward further = (ended.onward further).map (.since earlier) := by
  have hsince : (ended.since earlier).result = ended.result := rfl
  by_cases h : ended.result = .ok .executed
  · rw [onward_of_executed h, onward_of_executed (hsince.trans h), Option.map_map]
    congr 1
    funext rest
    exact (since_since earlier ended.moved rest).symm
  · rw [onward_of_ne h, onward_of_ne fun hsame => h (hsince.symm.trans hsame)]
    rfl

/-- A run to a further target is one to a nearer target, continued. -/
theorem runUntilAmid_of_le {target further : UInt64} (hle : target ≤ further)
    {events : List (Event κ δ γ)} :
    ∀ {pipeline : Pipeline κ ι δ γ},
      runUntilAmid (hasReached further) events pipeline
        = (runUntilAmid (hasReached target) events pipeline).bind (Ended.onward further) := by
  have hreached : ∀ {pipeline : Pipeline κ ι δ γ} {events : List (Event κ δ γ)},
      pipeline.hasReached target = true →
        runUntilAmid (hasReached further) events pipeline
          = (runUntilAmid (hasReached target) events pipeline).bind (Ended.onward further) := by
    intro pipeline events h
    rw [runUntilAmid_of_done h, Option.bind_some, Ended.onward_of_executed rfl]
    exact (Option.map_id' ..).symm
  have hfurther : ∀ {pipeline : Pipeline κ ι δ γ}, pipeline.hasReached target = false →
      pipeline.hasReached further = false := by
    intro pipeline h
    exact hasReached_eq_false_iff.mpr (UInt64.lt_of_lt_of_le (hasReached_eq_false_iff.mp h) hle)
  induction events with
  | nil =>
      intro pipeline
      cases h : pipeline.hasReached target with
      | true => exact hreached h
      | false => rw [runUntilAmid_nil h, runUntilAmid_nil (hfurther h), Option.bind_none]
  | cons event later ih =>
      intro pipeline
      cases h : pipeline.hasReached target with
      | true => exact hreached h
      | false =>
          by_cases hmove : event = .move
          · rw [hmove, runUntilAmid_move h, runUntilAmid_move (hfurther h)]
            split
            · rw [ih]
              cases runUntilAmid (hasReached target) later pipeline.tick.1 with
              | none => rfl
              | some ended => exact (Ended.onward_since [pipeline] ended).symm
            · rename_i hends
              rw [Option.bind_some, Ended.onward_of_ne]
              intro (hexecuted : pipeline.tick.2 = _)
              rw [hexecuted] at hends
              exact hends rfl
          · rw [runUntilAmid_event h hmove, runUntilAmid_event (hfurther h) hmove]
            exact ih

/-- Left alone, a run makes as many moves as it may, unless it comes to wait. -/
theorem runUntilAmid_moves {target : UInt64} {m : Nat} :
    ∀ {pipeline : Pipeline κ ι δ γ}, pipeline.executed.toNat + m = target.toNat →
      (runMoves m pipeline).2 ≠ .ok .waiting →
      ∃ moved later, runUntilAmid (hasReached target) (List.replicate m .move) pipeline
        = some ⟨(runMoves m pipeline).1, (runMoves m pipeline).2, moved, later⟩ := by
  induction m with
  | zero =>
      intro pipeline htarget _
      refine ⟨[], [], runUntilAmid_of_done (hasReached_iff.mpr ?_) []⟩
      exact UInt64.le_iff_toNat_le.mpr (Nat.le_of_eq htarget.symm)
  | succ m ih =>
      intro pipeline htarget h
      have hcounts := pipeline.tick_counts
      have hbelow : pipeline.executed < target := UInt64.lt_iff_toNat_lt.mpr (by omega)
      rw [List.replicate_succ, runUntilAmid_move (hasReached_eq_false_iff.mpr hbelow)]
      by_cases hexecuted : pipeline.tick.2 = .ok .executed
      · rw [hexecuted] at hcounts
        rw [runMoves_of_executed hexecuted] at h ⊢
        have hmore : pipeline.tick.1.executed.toNat + m = target.toNat := by
          rw [hcounts.of_executed, toNat_add_one hbelow]
          omega
        obtain ⟨moved, later, hrest⟩ := ih hmore h
        rw [hexecuted, hrest]
        exact ⟨pipeline :: moved, later, rfl⟩
      · rw [runMoves_of_ne hexecuted] at h ⊢
        rw [if_neg]
        · exact ⟨[pipeline], _, rfl⟩
        · intro hgoes
          obtain ⟨-, hresult⟩ | ⟨-, hresult⟩ := hcounts.of_goesOn hgoes
          · exact hexecuted hresult
          · exact h hresult

/-! ## The limit -/

omit [Core κ ι] [Decoded ι] [PortDevice δ] [InterruptController γ] in
/-- Counts that can be represented are not cut off. -/
theorem target_eq {pipeline : Pipeline κ ι δ γ} {limit : UInt64}
    (h : pipeline.executed.toNat + limit.toNat < UInt64.size) :
    pipeline.target limit = pipeline.executed + limit :=
  if_pos h

/-- Nor do they overflow. -/
theorem toNat_add_of_lt {count more : UInt64} (h : count.toNat + more.toNat < UInt64.size) :
    (count + more).toNat = count.toNat + more.toNat := by
  rw [UInt64.toNat_add]
  exact Nat.mod_eq_of_lt h

theorem runFor_eq {pipeline : Pipeline κ ι δ γ} {limit : UInt64}
    (h : pipeline.executed.toNat + limit.toNat < UInt64.size) :
    pipeline.runFor limit = runMoves limit.toNat pipeline := by
  rw [runFor, runUntil, target_eq h, toNat_add_of_lt h, Nat.add_sub_cancel_left]

/-- How a run of `m` instructions and one of `n` more compare with a run of both, if
    nothing else happens. -/
structure ComposesAlone (pipeline : Pipeline κ ι δ γ) (m n : UInt64) : Prop where
  /-- A run that does not come to wait makes its moves and nothing more. -/
  alone : (pipeline.runFor m).2 ≠ .ok .waiting →
    ∃ moved later, pipeline.runForAmid m (List.replicate m.toNat .move)
      = some ⟨(pipeline.runFor m).1, (pipeline.runFor m).2, moved, later⟩
  onward : (pipeline.runFor m).2 = .ok .executed →
    (pipeline.runFor m).1.runFor n = pipeline.runFor (m + n)
  ended : (pipeline.runFor m).2 ≠ .ok .executed →
    pipeline.runFor (m + n) = pipeline.runFor m

/-- How a run of `m` instructions and one of `n` more compare with a run of both,
    amid the same events. -/
structure ComposesAmid (pipeline : Pipeline κ ι δ γ) (m n : UInt64)
    (events : List (Event κ δ γ)) : Prop where
  bounded : ∀ ended, pipeline.runForAmid m events = some ended →
    pipeline.executed ≤ ended.pipeline.executed ∧ ended.pipeline.executed ≤ pipeline.executed + m
  completes : ∀ ended, pipeline.runForAmid m events = some ended →
    (ended.result = .ok .executed ↔ ended.Completes (pipeline.executed + m))
  onward : ∀ ended, pipeline.runForAmid m events = some ended → ended.result = .ok .executed →
    (ended.pipeline.runForAmid n ended.later).map (.since ended.moved)
      = pipeline.runForAmid (m + n) events
  ended : ∀ ended, pipeline.runForAmid m events = some ended → ended.result ≠ .ok .executed →
    pipeline.runForAmid (m + n) events = some ended
  /-- A run that has not ended would not have ended with a higher limit either. -/
  unfinished : pipeline.runForAmid m events = none → pipeline.runForAmid (m + n) events = none

theorem composesAlone {pipeline : Pipeline κ ι δ γ} {m n : UInt64}
    (h : pipeline.executed.toNat + m.toNat + n.toNat < UInt64.size) :
    pipeline.ComposesAlone m n := by
  have hsum : (m + n).toNat = m.toNat + n.toNat := toNat_add_of_lt (by omega)
  have hfirst : pipeline.runFor m = runMoves m.toNat pipeline := runFor_eq (by omega)
  have hboth : pipeline.runFor (m + n) = runMoves (m.toNat + n.toNat) pipeline :=
    (runFor_eq (by omega)).trans (by rw [hsum])
  constructor
  case alone =>
    intro hwaiting
    rw [hfirst] at hwaiting ⊢
    rw [runForAmid, target_eq (by omega)]
    exact runUntilAmid_moves (toNat_add_of_lt (by omega)).symm hwaiting
  case onward =>
    intro hexecuted
    rw [hfirst] at hexecuted
    obtain ⟨hcount, hrest⟩ := runMoves_add_of_executed n.toNat hexecuted
    rw [UInt64.ofNat_toNat] at hcount
    have hthen : (runMoves m.toNat pipeline).1.executed.toNat
        = pipeline.executed.toNat + m.toNat := by
      rw [hcount]
      exact toNat_add_of_lt (by omega)
    rw [hfirst, hboth, hrest, runFor_eq (by omega)]
  case ended =>
    intro hended
    rw [hfirst] at hended
    rw [hfirst, hboth]
    exact runMoves_add_of_ne n.toNat hended

theorem composesAmid {pipeline : Pipeline κ ι δ γ} {m n : UInt64}
    (h : pipeline.executed.toNat + m.toNat + n.toNat < UInt64.size)
    (events : List (Event κ δ γ)) : pipeline.ComposesAmid m n events := by
  have hsum : (m + n).toNat = m.toNat + n.toNat := toNat_add_of_lt (by omega)
  have hmore : (pipeline.executed + m).toNat = pipeline.executed.toNat + m.toNat :=
    toNat_add_of_lt (by omega)
  have hmost : (pipeline.executed + (m + n)).toNat
      = pipeline.executed.toNat + (m.toNat + n.toNat) :=
    hsum ▸ toNat_add_of_lt (by omega)
  have hfirst : pipeline.target m = pipeline.executed + m := target_eq (by omega)
  have hboth : pipeline.target (m + n) = pipeline.executed + (m + n) := target_eq (by omega)
  have hbegins : pipeline.executed ≤ pipeline.executed + m :=
    UInt64.le_iff_toNat_le.mpr (by omega)
  have hcompletes : ∀ ended, pipeline.runForAmid m events = some ended →
      (ended.result = .ok .executed ↔ ended.Completes (pipeline.executed + m)) := by
    intro ended hrun
    rw [runForAmid, hfirst] at hrun
    exact result_eq_executed_iff hrun hbegins
  have hcontinued : pipeline.runForAmid (m + n) events
      = (pipeline.runForAmid m events).bind (Ended.onward (pipeline.executed + (m + n))) := by
    rw [runForAmid, runForAmid, hfirst, hboth]
    exact runUntilAmid_of_le (UInt64.le_iff_toNat_le.mpr (by omega))
  constructor
  case bounded =>
    intro ended hrun
    rw [runForAmid, hfirst] at hrun
    exact executed_runUntilAmid hrun hbegins
  case completes => exact hcompletes
  case onward =>
    intro ended hrun hexecuted
    obtain ⟨hcount, -⟩ := (hcompletes ended hrun).mp hexecuted
    rw [hcontinued, hrun, Option.bind_some, Ended.onward_of_executed hexecuted, runForAmid,
      target_eq (by rw [hcount]; omega), hcount, UInt64.add_assoc]
  case ended =>
    intro ended hrun hended
    rw [hcontinued, hrun, Option.bind_some, Ended.onward_of_ne hended]
  case unfinished =>
    intro hrun
    rw [hcontinued, hrun, Option.bind_none]

end Pipeline

end Microprocessor
