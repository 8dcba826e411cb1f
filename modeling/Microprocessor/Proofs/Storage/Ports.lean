import Mathlib.Data.List.Nodup
import Microprocessor.Proofs.Storage.PortRange
import Microprocessor.Terminal.Console

/-! # Who answers on a port

    A port map looks at one attachment only, the last that starts at or before
    the addressed port.  That finds the right device as long as no other range
    starts within the device's own.  The test for overlaps keeps such ranges
    out if they hold a port; an empty one gets past it.

      * `PortMap.Tracks` relates a port map to the ranges it has accepted;
      * `PortMap.attachmentFor?_eq_some_iff` says who is found for a port, and
        `PortMap.Tracks.reaches` what a transfer does with it;
      * `PortMap.tracks_afterAll` and `PortMap.mem_afterAll` go along any
        sequence of attachments and transfers, and
        `PortMap.answers_unless_emptyRange` puts them together. -/

namespace Microprocessor

open PortRange

namespace PortMap

variable {δ : Type}

/-! ## What a port map has accepted -/

/-- The ranges in use. -/
def ranges (ports : PortMap δ) : List PortRange :=
  ports.attachments.map fun attachment => attachment.range

/-- The ranges in use start at ascending ports. -/
def Ascending (ports : PortMap δ) : Prop :=
  ports.ranges.Pairwise fun a b => a.first < b.first

theorem Ascending.attachments {ports : PortMap δ} (h : ports.Ascending) :
    ports.attachments.Pairwise fun a b => a.range.first < b.range.first := by
  rw [Ascending, ranges, List.pairwise_map] at h
  exact h

/-- A port map with the ranges it has accepted. -/
structure Tracks (ports : PortMap δ) (accepted : List PortRange) : Prop where
  ascending : ports.Ascending
  inUse : ∀ range, range ∈ ports.ranges ↔ Current accepted range
  admitted : Admitted accepted

theorem mem_ranges {ports : PortMap δ} {attachment : Attachment δ}
    (h : attachment ∈ ports.attachments) : attachment.range ∈ ports.ranges :=
  List.mem_map.mpr ⟨attachment, h, rfl⟩

/-- No two attachments start at the same port. -/
theorem Ascending.eq_of_first_eq {ports : PortMap δ} (h : ports.Ascending) {a b : Attachment δ}
    (ha : a ∈ ports.attachments) (hb : b ∈ ports.attachments)
    (hfirst : a.range.first = b.range.first) : a = b := by
  have hnodup : (ports.attachments.map fun attachment => attachment.range.first).Nodup := by
    refine List.pairwise_map.mpr (h.attachments.imp ?_)
    intro a b hlt
    exact UInt16.ne_of_lt hlt
  exact List.inj_on_of_nodup_map hnodup ha hb hfirst

theorem mem_insert {attachment other : Attachment δ} {attachments : List (Attachment δ)}
    (h : attachments.Pairwise fun a b => a.range.first < b.range.first) :
    other ∈ insert attachment attachments ↔
      other = attachment ∨
        attachment.range.first ≠ other.range.first ∧ other ∈ attachments := by
  induction attachments with
  | nil => simp [insert]
  | cons next rest ih =>
      obtain ⟨hnext, hrest⟩ := List.pairwise_cons.mp h
      rw [insert]
      split
      next hlt =>
        have hne : ∀ other ∈ next :: rest, attachment.range.first ≠ other.range.first := by
          intro other hother
          rcases List.mem_cons.mp hother with rfl | hother
          · exact UInt16.ne_of_lt hlt
          · exact UInt16.ne_of_lt (UInt16.lt_trans hlt (hnext other hother))
        rw [List.mem_cons]
        exact or_congr_right ⟨fun hother => ⟨hne other hother, hother⟩, And.right⟩
      next hlt =>
        split
        next heq =>
          have hne : ∀ other ∈ rest, attachment.range.first ≠ other.range.first := by
            intro other hother
            rw [heq]
            exact UInt16.ne_of_lt (hnext other hother)
          rw [List.mem_cons, List.mem_cons]
          refine or_congr_right ⟨fun hother => ⟨hne other hother, .inr hother⟩, ?_⟩
          rintro ⟨hfirst, rfl | hother⟩
          · exact absurd heq hfirst
          · exact hother
        next hne =>
          rw [List.mem_cons, List.mem_cons, ih hrest, or_left_comm, and_or_left]
          refine or_congr_right (or_congr_left ⟨?_, And.right⟩)
          rintro rfl
          exact ⟨hne, rfl⟩

theorem ascending_insert {attachment : Attachment δ} {attachments : List (Attachment δ)}
    (h : attachments.Pairwise fun a b => a.range.first < b.range.first) :
    (insert attachment attachments).Pairwise fun a b => a.range.first < b.range.first := by
  induction attachments with
  | nil => exact List.pairwise_singleton ..
  | cons next rest ih =>
      obtain ⟨hnext, hrest⟩ := List.pairwise_cons.mp h
      rw [insert]
      split
      next hlt =>
        refine List.pairwise_cons.mpr ⟨?_, h⟩
        intro other hother
        rcases List.mem_cons.mp hother with rfl | hother
        · exact hlt
        · exact UInt16.lt_trans hlt (hnext other hother)
      next hlt =>
        split
        next heq =>
          refine List.pairwise_cons.mpr ⟨?_, hrest⟩
          rw [heq]
          exact hnext
        next hne =>
          refine List.pairwise_cons.mpr ⟨?_, ih hrest⟩
          intro other hother
          rcases (mem_insert hrest).mp hother with rfl | ⟨-, hother⟩
          · rw [UInt16.lt_iff_toNat_lt] at hlt ⊢
            rw [← UInt16.toNat_inj] at hne
            omega
          · exact hnext other hother

@[simp] theorem ranges_replaceDevice (ports : PortMap δ) (range : PortRange) (device : δ) :
    (ports.replaceDevice range device).ranges = ports.ranges := by
  rw [ranges, replaceDevice, List.map_map]
  refine List.map_congr_left ?_
  intro attachment _
  show (if attachment.range.first = range.first then _ else attachment : Attachment δ).range = _
  split <;> rfl

/-- Nothing is attached at first, and nothing has been accepted. -/
theorem tracks_empty : (empty : PortMap δ).Tracks [] := by
  constructor
  case ascending => exact List.Pairwise.nil
  case inUse =>
    intro range
    exact ⟨fun h => absurd h List.not_mem_nil, fun h => absurd h.mem List.not_mem_nil⟩
  case admitted => exact .nil

/-- What a port map has accepted depends on the ranges in use only. -/
theorem Tracks.of_ranges_eq {ports later : PortMap δ} {accepted : List PortRange}
    (h : ports.Tracks accepted) (hranges : later.ranges = ports.ranges) :
    later.Tracks accepted := by
  constructor
  case ascending =>
    rw [Ascending, hranges]
    exact h.ascending
  case inUse =>
    rw [hranges]
    exact h.inUse
  case admitted => exact h.admitted

variable [PortDevice δ]

/-- A device is attached if its range meets none in use. -/
theorem attach_eq_ok_iff {ports later : PortMap δ} {range : PortRange} {device : δ} :
    ports.attach range device = .ok later ↔
      (∀ other ∈ ports.ranges, other.meets range = false) ∧
        later = ⟨insert ⟨range, device⟩ ports.attachments⟩ := by
  have hnone : (ports.attachments.find? fun other => other.range.meets range) = none ↔
      ∀ other ∈ ports.ranges, other.meets range = false := by
    simp [ranges]
  rw [attach, ← hnone]
  cases ports.attachments.find? fun other => other.range.meets range with
  | none => simp [eq_comm]
  | some other => simp

/-- An attached range is in use, in place of one that started where it does. -/
theorem Tracks.attach {ports later : PortMap δ} {accepted : List PortRange}
    {range : PortRange} {device : δ} (h : ports.Tracks accepted)
    (hattach : ports.attach range device = .ok later) : later.Tracks (range :: accepted) := by
  obtain ⟨hapart, rfl⟩ := attach_eq_ok_iff.mp hattach
  have hascending := h.ascending.attachments
  constructor
  case ascending => exact List.pairwise_map.mpr (ascending_insert hascending)
  case inUse =>
    intro other
    rw [current_cons, ← h.inUse, ranges, List.mem_map, ranges, List.mem_map]
    constructor
    · rintro ⟨attachment, hmem, rfl⟩
      rcases (mem_insert hascending).mp hmem with rfl | ⟨hne, hmem⟩
      · exact .inl rfl
      · exact .inr ⟨hne, attachment, hmem, rfl⟩
    · rintro (rfl | ⟨hne, attachment, hmem, rfl⟩)
      · exact ⟨⟨other, device⟩, (mem_insert hascending).mpr (.inl rfl), rfl⟩
      · exact ⟨attachment, (mem_insert hascending).mpr (.inr ⟨hne, hmem⟩), rfl⟩
  case admitted =>
    exact .cons h.admitted fun other hother => hapart other ((h.inUse other).mpr hother)

/-! ## Who answers -/

omit [PortDevice δ] in
/-- The candidate for a port starts at or before it, and no other starts between. -/
theorem candidate?_eq_some_iff {ports : PortMap δ} (h : ports.Ascending) {port : UInt16}
    {attachment : Attachment δ} :
    candidate? port ports.attachments = some attachment ↔
      attachment ∈ ports.attachments ∧ attachment.range.first ≤ port ∧
        ∀ other ∈ ports.attachments, other.range.first ≤ port →
          other.range.first ≤ attachment.range.first := by
  have hsound : ∀ {found : Attachment δ}, candidate? port ports.attachments = some found →
      found ∈ ports.attachments ∧ found.range.first ≤ port ∧
        ∀ other ∈ ports.attachments, other.range.first ≤ port →
          other.range.first ≤ found.range.first := by
    intro found hfound
    obtain ⟨before, heq⟩ := List.getLast?_eq_some_iff.mp hfound
    have hmem : ∀ other, other ∈ ports.attachments ∧ other.range.first ≤ port ↔
        other ∈ before ++ [found] := by
      intro other
      rw [← heq, List.mem_filter, decide_eq_true_eq]
    obtain ⟨hin, hfirst⟩ := (hmem found).mpr (by simp)
    refine ⟨hin, hfirst, ?_⟩
    intro other hother hle
    have hsorted := h.attachments.filter fun other => decide (other.range.first ≤ port)
    rw [heq] at hsorted
    rcases List.mem_append.mp ((hmem other).mp ⟨hother, hle⟩) with hbefore | hlast
    · exact UInt16.le_of_lt ((List.pairwise_append.mp hsorted).2.2 other hbefore found (by simp))
    · rw [List.mem_singleton.mp hlast]
      exact UInt16.le_refl _
  refine ⟨hsound, ?_⟩
  rintro ⟨hmem, hfirst, hlast⟩
  cases hcandidate : candidate? port ports.attachments with
  | none =>
      rw [candidate?, List.getLast?_eq_none_iff, List.filter_eq_nil_iff] at hcandidate
      exact absurd (decide_eq_true hfirst) (hcandidate attachment hmem)
  | some found =>
      obtain ⟨hin, hle, hgreatest⟩ := hsound hcandidate
      have hsame := UInt16.le_antisymm (hlast found hin hle) (hgreatest attachment hmem hfirst)
      rw [h.eq_of_first_eq hin hmem hsame]

omit [PortDevice δ] in
/-- The device that answers on a port is the one whose range holds it, unless an
    empty range was accepted that starts between. -/
theorem attachmentFor?_eq_some_iff {ports : PortMap δ} {accepted : List PortRange}
    (h : ports.Tracks accepted) {port : UInt16} {attachment : Attachment δ} :
    ports.attachmentFor? port = some attachment ↔
      attachment ∈ ports.attachments ∧ attachment.range.Holds port ∧
        ∀ other ∈ accepted, other.IsEmpty →
          ¬ (attachment.range.first < other.first ∧ other.first ≤ port) := by
  rw [attachmentFor?, Option.filter_eq_some_iff, candidate?_eq_some_iff h.ascending,
    decide_eq_true_eq]
  constructor
  · rintro ⟨⟨hmem, hfirst, hlast⟩, hport⟩
    refine ⟨hmem, ⟨hfirst, hport⟩, ?_⟩
    rintro other hother - ⟨hafter, hle⟩
    -- What is in use from there on would have been found instead.
    obtain ⟨current, hcurrent, hsame⟩ := exists_current hother
    obtain ⟨later, hlater, rfl⟩ := List.mem_map.mp ((h.inUse current).mpr hcurrent)
    rw [← hsame] at hafter hle
    exact UInt16.not_lt.mpr (hlast later hlater hle) hafter
  · rintro ⟨hmem, ⟨hfirst, hport⟩, hempty⟩
    refine ⟨⟨hmem, hfirst, ?_⟩, hport⟩
    intro other hother hle
    rw [← UInt16.not_lt]
    intro hafter
    have ha := (h.inUse _).mp (mem_ranges hmem)
    have hb := (h.inUse _).mp (mem_ranges hother)
    have hwithin : attachment.range.Holds other.range.first :=
      ⟨UInt16.le_of_lt hafter, UInt16.le_trans hle hport⟩
    have hapart := h.admitted.apart ha hb (UInt16.ne_of_lt hafter)
    exact hempty _ hb.mem (isEmpty_of_holds_first hapart hwithin) ⟨hafter, hle⟩

omit [PortDevice δ] in
/-- A device answers on all its ports if no empty range starts within its own. -/
theorem attachmentFor?_of_mem {ports : PortMap δ} {accepted : List PortRange}
    (h : ports.Tracks accepted) {port : UInt16} {attachment : Attachment δ}
    (hmem : attachment ∈ ports.attachments) (hport : attachment.range.Holds port)
    (hempty : ∀ other ∈ accepted, other.IsEmpty → ¬ attachment.range.Holds other.first) :
    ports.attachmentFor? port = some attachment := by
  refine (attachmentFor?_eq_some_iff h).mpr ⟨hmem, hport, ?_⟩
  rintro other hother hnone ⟨hafter, hle⟩
  exact hempty other hother hnone ⟨UInt16.le_of_lt hafter, UInt16.le_trans hle hport.2⟩

/-- Another device on a range, and everything else as before. -/
def exchange (ports : PortMap δ) (range : PortRange) (device : δ) : PortMap δ :=
  ⟨ports.attachments.map fun other => if other.range = range then ⟨range, device⟩ else other⟩

omit [PortDevice δ] in
/-- The first port tells which device is replaced. -/
theorem replaceDevice_eq_exchange {ports : PortMap δ} (h : ports.Ascending)
    {attachment : Attachment δ} (hmem : attachment ∈ ports.attachments) (device : δ) :
    ports.replaceDevice attachment.range device = ports.exchange attachment.range device := by
  rw [replaceDevice, exchange, PortMap.mk.injEq]
  refine List.map_congr_left ?_
  intro other hother
  by_cases hsame : other.range.first = attachment.range.first
  · rw [h.eq_of_first_eq hother hmem hsame, if_pos rfl, if_pos rfl]
  · rw [if_neg hsame, if_neg fun heq => hsame (congrArg PortRange.first heq)]

/-- Transfers on a port go to a device: it answers, and only it changes. -/
structure Reaches (ports : PortMap δ) (port : UInt16) (range : PortRange) (device : δ) : Prop where
  found : ports.attachmentFor? port = some ⟨range, device⟩
  input : ∀ width, ports.input width port =
    .ok ((PortDevice.input device width port).1 &&& width.mask,
      ports.exchange range (PortDevice.input device width port).2)
  output : ∀ width value, ports.output width port value =
    .ok (ports.exchange range (PortDevice.output device width port (value &&& width.mask)))

/-- Transfers on a port fail. -/
structure Unanswered (ports : PortMap δ) (port : UInt16) : Prop where
  input : ∀ width, ports.input width port = .error ⟨port⟩
  output : ∀ width value, ports.output width port value = .error ⟨port⟩

/-- Transfers go to the device that is found. -/
theorem Tracks.reaches {ports : PortMap δ} {accepted : List PortRange}
    (h : ports.Tracks accepted) {port : UInt16} {range : PortRange} {device : δ}
    (hfound : ports.attachmentFor? port = some ⟨range, device⟩) :
    ports.Reaches port range device := by
  obtain ⟨hmem, -, -⟩ := (attachmentFor?_eq_some_iff h).mp hfound
  have hexchange := replaceDevice_eq_exchange h.ascending hmem
  constructor
  case found => exact hfound
  case input =>
    intro width
    rw [PortMap.input, hfound, ← hexchange]
  case output =>
    intro width value
    rw [PortMap.output, hfound, ← hexchange]

/-- On a port that no accepted range holds, transfers fail. -/
theorem Tracks.unanswered {ports : PortMap δ} {accepted : List PortRange}
    (h : ports.Tracks accepted) {port : UInt16} (hport : ∀ range ∈ accepted, ¬ range.Holds port) :
    ports.Unanswered port := by
  have hnone : ports.attachmentFor? port = none := by
    rw [Option.eq_none_iff_forall_ne_some]
    intro attachment hfound
    obtain ⟨hmem, hholds, -⟩ := (attachmentFor?_eq_some_iff h).mp hfound
    exact hport _ ((h.inUse _).mp (mem_ranges hmem)).mem hholds
  constructor
  case input =>
    intro width
    rw [PortMap.input, hnone]
  case output =>
    intro width value
    rw [PortMap.output, hnone]

/-- An attachment fails if its range meets one in use. -/
theorem attach_eq_error_iff {ports : PortMap δ} {range : PortRange} {device : δ} :
    (∃ failure, ports.attach range device = .error failure) ↔
      ∃ other ∈ ports.ranges, other.meets range = true := by
  cases hattach : ports.attach range device with
  | ok later =>
      obtain ⟨hapart, -⟩ := attach_eq_ok_iff.mp hattach
      simp only [reduceCtorEq, exists_false, false_iff, not_exists, not_and, Bool.not_eq_true]
      exact hapart
  | error failure =>
      refine iff_of_true ⟨failure, rfl⟩ ?_
      by_contra hapart
      simp only [not_exists, not_and, Bool.not_eq_true] at hapart
      rw [attach_eq_ok_iff.mpr ⟨hapart, rfl⟩] at hattach
      cases hattach

/-- Among ranges that hold ports, an attachment fails if its range shares one with
    an accepted range. -/
theorem Tracks.attach_fails_iff {ports : PortMap δ} {accepted : List PortRange}
    (h : ports.Tracks accepted) {range : PortRange} {device : δ}
    (hempty : ∀ other ∈ range :: accepted, ¬ other.IsEmpty) :
    (∃ failure, ports.attach range device = .error failure) ↔
      ∃ other ∈ accepted, other.Shares range := by
  obtain ⟨hrange, hempty⟩ := List.forall_mem_cons.mp hempty
  rw [attach_eq_error_iff]
  constructor
  · rintro ⟨other, hother, hmeets⟩
    have hmem := ((h.inUse other).mp hother).mem
    exact ⟨other, hmem, shares_of_meets hmeets (hempty other hmem) hrange⟩
  · rintro ⟨other, hother, hshares⟩
    -- With no empty ranges, what was accepted is still in use.
    obtain ⟨newer, older, rfl⟩ := List.append_of_mem hother
    have hcurrent := h.admitted.current (hempty other hother)
      fun newest hnewest hnone => absurd hnone (hempty newest (List.mem_append_left _ hnewest))
    exact ⟨other, (h.inUse other).mpr hcurrent, hshares.meets⟩

/-! ## Attaching and transfers in any order -/

/-- What may be asked of a port map. -/
inductive Event (δ : Type) where
  | attach (range : PortRange) (device : δ)
  | input (width : Width) (port : UInt16)
  | output (width : Width) (port value : UInt16)

/-- The port map after an event.  One that fails leaves it alone. -/
def after (ports : PortMap δ) : Event δ → PortMap δ
  | .attach range device =>
    match ports.attach range device with
    | .ok later => later
    | .error _ => ports
  | .input width port =>
    match ports.input width port with
    | .ok (_, later) => later
    | .error _ => ports
  | .output width port value =>
    match ports.output width port value with
    | .ok later => later
    | .error _ => ports

/-- The port map after events, the newest of which stands first. -/
def afterAll : List (Event δ) → PortMap δ
  | [] => empty
  | event :: earlier => (afterAll earlier).after event

/-- The ranges accepted up to an event, given those accepted before. -/
def accept (ports : PortMap δ) (earlier : List PortRange) : Event δ → List PortRange
  | .attach range device =>
    match ports.attach range device with
    | .ok _ => range :: earlier
    | .error _ => earlier
  | .input _ _ | .output _ _ _ => earlier

/-- The ranges with which a device was attached, the newest first. -/
def accepted : List (Event δ) → List PortRange
  | [] => []
  | event :: earlier => accept (afterAll earlier) (accepted earlier) event

/-- The device on a range after an event, which is for it if it is a transfer on a
    port of the range. -/
def serve (range : PortRange) (device : δ) : Event δ → δ
  | .attach _ _ => device
  | .input width port =>
    if range.Holds port then (PortDevice.input device width port).2 else device
  | .output width port value =>
    if range.Holds port then PortDevice.output device width port (value &&& width.mask)
    else device

/-- The device on a range after events, the newest of which stands first. -/
def served (range : PortRange) (device : δ) : List (Event δ) → δ
  | [] => device
  | event :: earlier => serve range (served range device earlier) event

/-- What a transfer comes to: the device that answers on the port, if one does, goes over to
    another state. -/
def relay (ports : PortMap δ) (port : UInt16) (answer : δ → δ) : PortMap δ :=
  match ports.attachmentFor? port with
  | some ⟨range, device⟩ => ports.replaceDevice range (answer device)
  | none => ports

theorem after_input (ports : PortMap δ) (width : Width) (port : UInt16) :
    ports.after (.input width port)
      = ports.relay port fun device => (PortDevice.input device width port).2 := by
  rw [after, PortMap.input, relay]
  cases ports.attachmentFor? port <;> rfl

theorem after_output (ports : PortMap δ) (width : Width) (port value : UInt16) :
    ports.after (.output width port value)
      = ports.relay port fun device =>
          PortDevice.output device width port (value &&& width.mask) := by
  rw [after, PortMap.output, relay]
  cases ports.attachmentFor? port <;> rfl

omit [PortDevice δ] in
/-- A transfer leaves the ranges in use alone. -/
@[simp] theorem ranges_relay (ports : PortMap δ) (port : UInt16) (answer : δ → δ) :
    (ports.relay port answer).ranges = ports.ranges := by
  rw [relay]
  cases ports.attachmentFor? port with
  | none => rfl
  | some attachment => exact ranges_replaceDevice ..

theorem Tracks.after {ports : PortMap δ} {earlier : List PortRange} (h : ports.Tracks earlier)
    (event : Event δ) : (ports.after event).Tracks (accept ports earlier event) := by
  cases event with
  | attach range device =>
      rw [PortMap.after, accept]
      cases hattach : ports.attach range device with
      | ok later => exact h.attach hattach
      | error failure => exact h
  | input width port =>
      rw [after_input]
      exact h.of_ranges_eq (ranges_relay ..)
  | output width port value =>
      rw [after_output]
      exact h.of_ranges_eq (ranges_relay ..)

/-- Whatever is asked of a port map, it is in line with what it has accepted. -/
theorem tracks_afterAll (events : List (Event δ)) :
    (afterAll events).Tracks (accepted events) := by
  induction events with
  | nil => exact tracks_empty
  | cons event earlier ih => exact ih.after event

/-- What was accepted before an event still was afterwards. -/
theorem mem_accept {ports : PortMap δ} {earlier : List PortRange} {range : PortRange}
    (h : range ∈ earlier) (event : Event δ) : range ∈ accept ports earlier event := by
  cases event with
  | attach requested device =>
      rw [accept]
      cases ports.attach requested device with
      | ok later => exact List.mem_cons_of_mem _ h
      | error failure => exact h
  | input width port => exact h
  | output width port value => exact h

omit [PortDevice δ] in
/-- A transfer is for the device that is found for the port, and leaves the others where they
    are. -/
theorem Tracks.mem_relay {ports : PortMap δ} {accepted : List PortRange}
    (h : ports.Tracks accepted) {range : PortRange} {device : δ} {port : UInt16}
    (hfound : range.Holds port → ports.attachmentFor? port = some ⟨range, device⟩)
    (hmem : ⟨range, device⟩ ∈ ports.attachments) (answer : δ → δ) :
    ⟨range, if range.Holds port then answer device else device⟩
      ∈ (ports.relay port answer).attachments := by
  rw [relay]
  by_cases hport : range.Holds port
  · rw [hfound hport, if_pos hport]
    exact List.mem_map.mpr ⟨⟨range, device⟩, hmem, if_pos rfl⟩
  · rw [if_neg hport]
    cases hother : ports.attachmentFor? port with
    | none => exact hmem
    | some other =>
        obtain ⟨hin, hholds, -⟩ := (attachmentFor?_eq_some_iff h).mp hother
        refine List.mem_map.mpr ⟨⟨range, device⟩, hmem, if_neg ?_⟩
        intro hsame
        obtain rfl := h.ascending.eq_of_first_eq hmem hin hsame
        exact hport hholds

/-- A device stays on its range, and takes the transfers on its ports. -/
theorem Tracks.mem_after {ports : PortMap δ} {earlier : List PortRange} (h : ports.Tracks earlier)
    {range : PortRange} {device : δ} (hrange : ¬ range.IsEmpty) {event : Event δ}
    (hempty : ∀ other ∈ accept ports earlier event, other.IsEmpty → ¬ range.Holds other.first)
    (hmem : ⟨range, device⟩ ∈ ports.attachments) :
    ⟨range, serve range device event⟩ ∈ (ports.after event).attachments := by
  have hfound : ∀ {port}, range.Holds port → ports.attachmentFor? port = some ⟨range, device⟩ :=
    fun hport => attachmentFor?_of_mem h hmem hport
      fun other hother => hempty other (mem_accept hother event)
  cases event with
  | attach requested other =>
      rw [PortMap.after, serve]
      rw [accept] at hempty
      cases hattach : ports.attach requested other with
      | error failure => exact hmem
      | ok later =>
          rw [hattach] at hempty
          obtain ⟨hapart, rfl⟩ := attach_eq_ok_iff.mp hattach
          refine (mem_insert h.ascending.attachments).mpr (.inr ⟨?_, hmem⟩)
          -- A range that starts where this one does would be empty.
          intro (hsame : requested.first = range.first)
          have hwithin : range.Holds requested.first := by
            rw [hsame]
            exact holds_first hrange
          have hnone := isEmpty_of_holds_first (hapart range (mem_ranges hmem)) hwithin
          exact hempty requested List.mem_cons_self hnone hwithin
  | input width port =>
      rw [after_input]
      exact h.mem_relay hfound hmem _
  | output width port value =>
      rw [after_output]
      exact h.mem_relay hfound hmem _

/-- A device that was attached stays on its range, whatever follows. -/
theorem mem_afterAll {later earlier : List (Event δ)} {range : PortRange} {device : δ}
    {ports : PortMap δ} (hrange : ¬ range.IsEmpty)
    (hattach : (afterAll earlier).attach range device = .ok ports)
    (hempty : ∀ other ∈ accepted (later ++ .attach range device :: earlier), other.IsEmpty →
      ¬ range.Holds other.first) :
    ⟨range, served range device later⟩
      ∈ (afterAll (later ++ .attach range device :: earlier)).attachments := by
  induction later with
  | nil =>
      show _ ∈ ((afterAll earlier).after (.attach range device)).attachments
      rw [after, hattach]
      obtain ⟨-, rfl⟩ := attach_eq_ok_iff.mp hattach
      have hascending := (tracks_afterAll earlier).ascending
      exact (mem_insert hascending.attachments).mpr (.inl rfl)
  | cons event later ih =>
      have hmem := ih fun other hother => hempty other (mem_accept hother event)
      exact (tracks_afterAll _).mem_after hrange hempty hmem

omit [PortDevice δ] in
/-- Which accepted range a port is answered from, if several have held it. -/
theorem Tracks.answers_iff {ports : PortMap δ} {newer older : List PortRange} {range : PortRange}
    (h : ports.Tracks (newer ++ range :: older)) {port : UInt16} (hport : range.Holds port)
    (hnew : range ∉ newer) :
    (∃ device, ports.attachmentFor? port = some ⟨range, device⟩) ↔
      (∀ other ∈ newer, other.IsEmpty → ¬ (range.first ≤ other.first ∧ other.first ≤ port)) ∧
        ∀ other ∈ older, other.IsEmpty → ¬ (range.first < other.first ∧ other.first ≤ port) := by
  have hrange := not_isEmpty_of_holds hport
  constructor
  · rintro ⟨device, hfound⟩
    obtain ⟨hmem, -, hempty⟩ := (attachmentFor?_eq_some_iff h).mp hfound
    constructor
    · rintro other hother hnone ⟨hstart, hle⟩
      refine hempty other (List.mem_append_left _ hother) hnone ⟨?_, hle⟩
      refine UInt16.lt_of_le_of_ne hstart fun hsame => ?_
      exact not_current_of_newer hother hsame.symm hnew ((h.inUse range).mp (mem_ranges hmem))
    · rintro other hother hnone hwithin
      exact hempty other (by simp [hother]) hnone hwithin
  · rintro ⟨hnewer, holder⟩
    have hcurrent := h.admitted.current hrange fun other hother hnone hsame =>
      hnewer other hother hnone ⟨hsame ▸ UInt16.le_refl _, hsame ▸ hport.1⟩
    obtain ⟨attachment, hmem, hsame⟩ := List.mem_map.mp ((h.inUse range).mpr hcurrent)
    subst hsame
    refine ⟨attachment.device, (attachmentFor?_eq_some_iff h).mpr ⟨hmem, hport, ?_⟩⟩
    intro other hother hnone hwithin
    rcases List.mem_append.mp hother with hother | hother
    · exact hnewer other hother hnone ⟨UInt16.le_of_lt hwithin.1, hwithin.2⟩
    · rcases List.mem_cons.mp hother with rfl | hother
      · exact hrange hnone
      · exact holder other hother hnone hwithin

/-- Whatever is attached and transferred, in any order:
      * a device that was attached takes all the transfers on its ports from then
        on, unless an empty range that starts within its own is accepted;
      * a port of an accepted range is answered from there exactly if no empty
        range was accepted since that starts between, nor one before, the same
        first port apart;
      * on a port that no accepted range holds transfers fail;
      * a failed attachment changes nothing;
      * among ranges that hold ports, an attachment fails exactly if its range
        shares one with an accepted range. -/
theorem answers_unless_emptyRange (events : List (Event δ)) :
    (∀ later range device earlier ports, events = later ++ .attach range device :: earlier →
      (afterAll earlier).attach range device = .ok ports →
      (∀ other ∈ accepted events, other.IsEmpty → ¬ range.Holds other.first) →
      ∀ port, range.Holds port →
        (afterAll events).Reaches port range (served range device later)) ∧
    (∀ newer range older port, accepted events = newer ++ range :: older → range.Holds port →
      range ∉ newer →
      ((∃ device, (afterAll events).Reaches port range device) ↔
        (∀ other ∈ newer, other.IsEmpty → ¬ (range.first ≤ other.first ∧ other.first ≤ port)) ∧
        (∀ other ∈ older, other.IsEmpty → ¬ (range.first < other.first ∧ other.first ≤ port)))) ∧
    (∀ port, (∀ range ∈ accepted events, ¬ range.Holds port) →
      (afterAll events).Unanswered port) ∧
    (∀ range device failure, (afterAll events).attach range device = .error failure →
      afterAll (.attach range device :: events) = afterAll events) ∧
    (∀ range device, (∀ other ∈ range :: accepted events, ¬ other.IsEmpty) →
      ((∃ failure, (afterAll events).attach range device = .error failure) ↔
        ∃ other ∈ accepted events, other.Shares range)) := by
  have htracks := tracks_afterAll events
  refine ⟨?_, ?_, ?_, ?_, ?_⟩
  · rintro later range device earlier ports rfl hattach hempty port hport
    have hmem := mem_afterAll (not_isEmpty_of_holds hport) hattach hempty
    exact htracks.reaches (attachmentFor?_of_mem htracks hmem hport hempty)
  · intro newer range older port haccepted hport hnew
    rw [haccepted] at htracks
    rw [← htracks.answers_iff hport hnew]
    exact exists_congr fun device => ⟨Reaches.found, htracks.reaches⟩
  · intro port hport
    exact htracks.unanswered hport
  · intro range device failure hattach
    rw [afterAll, after, hattach]
  · intro range device hempty
    exact htracks.attach_fails_iff hempty

/-- A console on sixteen ports that has been sent a letter. -/
def lettered : List (Event Terminal.Console) :=
  [.output .byte 0x62 0x41, .attach ⟨0x60, 0x6F⟩ Terminal.Console.initial]

/-- An empty range is accepted that starts half way. -/
def cutShort : List (Event Terminal.Console) :=
  .attach ⟨0x68, 0x30⟩ Terminal.Console.initial :: lettered

theorem answers_unless_emptyRange_console :
    (afterAll lettered).Reaches 0x6F ⟨0x60, 0x6F⟩ ⟨#[0x41]⟩ ∧
      (∃ failure, (afterAll lettered).attach ⟨0x6F, 0x80⟩ Terminal.Console.initial
        = .error failure) ∧
      afterAll (.attach ⟨0x6F, 0x80⟩ Terminal.Console.initial :: lettered)
        = afterAll lettered ∧
      (∃ device, (afterAll cutShort).Reaches 0x67 ⟨0x60, 0x6F⟩ device) ∧
      (¬ ∃ device, (afterAll cutShort).Reaches 0x68 ⟨0x60, 0x6F⟩ device) ∧
      (afterAll cutShort).Unanswered 0x70 := by
  obtain ⟨hreaches, -, -, hfailed, hfails⟩ := answers_unless_emptyRange lettered
  obtain ⟨-, hexact, hunanswered, -, -⟩ := answers_unless_emptyRange cutShort
  have hlong := hexact [⟨0x68, 0x30⟩] ⟨0x60, 0x6F⟩ []
  refine ⟨?_, ?_, ?_, ?_, ?_, ?_⟩
  · exact hreaches [.output .byte 0x62 0x41] ⟨0x60, 0x6F⟩ _ [] _ rfl rfl (by decide) 0x6F (by decide)
  · exact (hfails ⟨0x6F, 0x80⟩ _ (by decide)).mpr ⟨⟨0x60, 0x6F⟩, by decide, 0x6F, by decide⟩
  · exact hfailed ⟨0x6F, 0x80⟩ _ _ rfl
  · exact (hlong 0x67 (by decide) (by decide) (by decide)).mpr (by decide)
  · rw [hlong 0x68 (by decide) (by decide) (by decide)]
    decide
  · exact hunanswered 0x70 (by decide)

end PortMap

end Microprocessor
