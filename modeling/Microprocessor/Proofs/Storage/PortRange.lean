import Microprocessor.Storage.PortMap

/-! # Ranges of ports

    Two ranges meet if neither starts past the other's end.  For ranges that
    hold ports this says that they share one; a range that holds none, its last
    port before its first, may start within another without meeting it.

      * `PortRange.shares_of_meets`, `PortRange.isEmpty_of_holds_first` compare
        meeting with sharing;
      * `PortRange.Admitted` is how ranges come to be accepted one after another,
        and `PortRange.Current` says which of them are in use;
      * `PortRange.Admitted.apart`: those do not meet, and
        `PortRange.Admitted.current`: only empty ranges displace others. -/

namespace Microprocessor

namespace PortRange

/-! ## Ranges -/

/-- The ports of a range. -/
def Holds (range : PortRange) (port : UInt16) : Prop :=
  range.first ≤ port ∧ port ≤ range.last

instance (range : PortRange) (port : UInt16) : Decidable (range.Holds port) :=
  inferInstanceAs (Decidable (_ ∧ _))

/-- The last port lies before the first, so that there are none. -/
def IsEmpty (range : PortRange) : Prop :=
  range.last < range.first

instance (range : PortRange) : Decidable range.IsEmpty :=
  inferInstanceAs (Decidable (_ < _))

/-- Some port is in both ranges. -/
def Shares (a b : PortRange) : Prop :=
  ∃ port, a.Holds port ∧ b.Holds port

theorem meets_iff {a b : PortRange} :
    a.meets b = true ↔ a.first ≤ b.last ∧ b.first ≤ a.last := by
  simp [meets]

theorem meets_comm (a b : PortRange) : a.meets b = b.meets a :=
  Bool.and_comm ..

/-- A range that holds a port is not empty. -/
theorem not_isEmpty_of_holds {range : PortRange} {port : UInt16} (h : range.Holds port) :
    ¬ range.IsEmpty := by
  simp only [Holds, IsEmpty, UInt16.le_iff_toNat_le, UInt16.lt_iff_toNat_lt] at *
  omega

/-- A range that is not empty holds its first port. -/
theorem holds_first {range : PortRange} (h : ¬ range.IsEmpty) : range.Holds range.first := by
  simp only [Holds, IsEmpty, UInt16.le_iff_toNat_le, UInt16.lt_iff_toNat_lt] at *
  omega

/-- Ranges that share a port meet. -/
theorem Shares.meets {a b : PortRange} (h : a.Shares b) : a.meets b = true := by
  obtain ⟨port, ha, hb⟩ := h
  rw [meets_iff]
  simp only [Holds, UInt16.le_iff_toNat_le] at *
  omega

/-- Ranges that meet share a port, unless one of them is empty. -/
theorem shares_of_meets {a b : PortRange} (h : a.meets b = true) (ha : ¬ a.IsEmpty)
    (hb : ¬ b.IsEmpty) : a.Shares b := by
  rw [meets_iff] at h
  have hfirst : a.Holds b.first ∨ b.Holds a.first := by
    simp only [Holds, IsEmpty, UInt16.le_iff_toNat_le, UInt16.lt_iff_toNat_lt] at *
    omega
  rcases hfirst with hfirst | hfirst
  · exact ⟨b.first, hfirst, holds_first hb⟩
  · exact ⟨a.first, holds_first ha, hfirst⟩

/-- A range that starts within another without meeting it is empty. -/
theorem isEmpty_of_holds_first {a b : PortRange} (hapart : a.meets b = false)
    (h : a.Holds b.first) : b.IsEmpty := by
  rw [IsEmpty, ← UInt16.not_le]
  intro hb
  have hmeets := Shares.meets ⟨b.first, h, UInt16.le_refl b.first, hb⟩
  rw [hapart] at hmeets
  cases hmeets

/-! ## Accepted ranges

    The newest stands first. -/

/-- Of the ranges accepted with the same first port, the newest. -/
def Current (accepted : List PortRange) (range : PortRange) : Prop :=
  accepted.find? (fun other => other.first = range.first) = some range

/-- Every range was accepted when it met none of those in use. -/
inductive Admitted : List PortRange → Prop
  | nil : Admitted []
  | cons {range : PortRange} {older : List PortRange} (earlier : Admitted older)
      (apart : ∀ other, Current older other → other.meets range = false) :
      Admitted (range :: older)

theorem current_cons {range other : PortRange} {older : List PortRange} :
    Current (range :: older) other ↔
      other = range ∨ range.first ≠ other.first ∧ Current older other := by
  rw [Current, List.find?_cons]
  by_cases hfirst : range.first = other.first
  · simp only [hfirst, decide_true, ne_eq, not_true_eq_false, false_and, or_false,
      Option.some.injEq]
    exact eq_comm
  · have hne : other ≠ range := fun h => hfirst (congrArg PortRange.first h).symm
    simp [hfirst, hne, Current]

/-- What is in use has been accepted. -/
theorem Current.mem {accepted : List PortRange} {range : PortRange} (h : Current accepted range) :
    range ∈ accepted :=
  List.mem_of_find?_eq_some h

/-- Something in use starts where an accepted range does. -/
theorem exists_current {accepted : List PortRange} {range : PortRange} (h : range ∈ accepted) :
    ∃ other, Current accepted other ∧ other.first = range.first := by
  have hsome : (accepted.find? fun other => other.first = range.first).isSome :=
    List.find?_isSome.mpr ⟨range, h, decide_eq_true rfl⟩
  obtain ⟨other, hother⟩ := Option.isSome_iff_exists.mp hsome
  have hfirst : other.first = range.first := by simpa using List.find?_some hother
  refine ⟨other, ?_, hfirst⟩
  rw [Current, hfirst]
  exact hother

/-- A range is no longer in use once another is accepted that starts where it does. -/
theorem not_current_of_newer {newer older : List PortRange} {range other : PortRange}
    (hother : other ∈ newer) (hsame : other.first = range.first) (hnew : range ∉ newer) :
    ¬ Current (newer ++ older) range := by
  intro h
  obtain ⟨current, hcurrent, hfirst⟩ := exists_current hother
  rw [Current, hfirst, hsame] at hcurrent
  rw [Current, List.find?_append, hcurrent, Option.some_or, Option.some.injEq] at h
  exact hnew (h ▸ List.mem_of_find?_eq_some hcurrent)

/-- Ranges in use that start at different ports do not meet. -/
theorem Admitted.apart {accepted : List PortRange} (h : Admitted accepted) :
    ∀ {a b : PortRange}, Current accepted a → Current accepted b → a.first ≠ b.first →
      a.meets b = false := by
  induction h with
  | nil =>
      intro a b ha _ _
      cases ha.mem
  | @cons range older _ hrange ih =>
      intro a b ha hb hne
      rw [current_cons] at ha hb
      rcases ha with rfl | ⟨-, ha⟩
      · rcases hb with rfl | ⟨-, hb⟩
        · exact absurd rfl hne
        · rw [meets_comm]
          exact hrange b hb
      · rcases hb with rfl | ⟨-, hb⟩
        · exact hrange a ha
        · exact ih ha hb hne

/-- A range gives way only to an empty one that starts where it does. -/
theorem Admitted.current {newer older : List PortRange} {range : PortRange}
    (hrange : ¬ range.IsEmpty) (h : Admitted (newer ++ range :: older))
    (hnewer : ∀ other ∈ newer, other.IsEmpty → other.first ≠ range.first) :
    Current (newer ++ range :: older) range := by
  induction newer with
  | nil => exact current_cons.mpr (.inl rfl)
  | cons other newer ih =>
      obtain ⟨hother, hnewer⟩ := List.forall_mem_cons.mp hnewer
      cases h with
      | cons hearlier hapart =>
          have hcurrent := ih hearlier hnewer
          refine current_cons.mpr (.inr ⟨?_, hcurrent⟩)
          intro hfirst
          refine hother (isEmpty_of_holds_first (hapart range hcurrent) ?_) hfirst
          rw [hfirst]
          exact holds_first hrange

end PortRange

end Microprocessor
