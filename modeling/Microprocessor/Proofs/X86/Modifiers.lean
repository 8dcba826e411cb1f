import Microprocessor.Proofs.Encoding.Taken
import Microprocessor.Proofs.X86.Decoding

/-! # Modifiers in front of an instruction

    Bytes in front of an opcode change how an instruction is executed and never
    which one it is.

      * `Prefixes.ofBytes` says what a list of them asks for: the last segment, the
        last kind of repetition, and a lock if there is one anywhere;
      * `readUpTo_modifiers` is the loop that takes them, whose invariant is that
        what has been gathered is what the bytes so far ask for;
      * `decode_modified` is about whole instructions, with up to four modifiers
        or with more. -/

namespace Microprocessor.X86

open ByteReader

/-! ## What the bytes ask for -/

/-- The bytes that are modifiers. -/
def modifierBytes : List UInt8 :=
  [0x26, 0x2E, 0x36, 0x3E, 0xF0, 0xF2, 0xF3]

/-- The segment that a byte asks for, if any. -/
def segmentOverride? (byte : UInt8) : Option SegmentRegister :=
  if byte = 0x26 then some .es
  else if byte = 0x2E then some .cs
  else if byte = 0x36 then some .ss
  else if byte = 0x3E then some .ds
  else none

/-- The kind of repetition that a byte asks for, if any. -/
def repetition? (byte : UInt8) : Option Repeat :=
  if byte = 0xF2 then some .notEqual
  else if byte = 0xF3 then some .equal
  else none

/-- What several bytes ask for: the last of a kind counts. -/
def Prefixes.ofBytes (bytes : List UInt8) : Prefixes where
  segment := (bytes.filterMap segmentOverride?).getLast?
  repetition := (bytes.filterMap repetition?).getLast?
  lock := bytes.contains 0xF0
  count := bytes.length

/-- A byte taken for a modifier asks for what the modifier says. -/
theorem Modifier.ofByte?_eq_some {byte : UInt8} {modifier : Modifier}
    (h : Modifier.ofByte? byte = some modifier) :
    byte ∈ modifierBytes
      ∧ match modifier with
        | .segment register =>
          segmentOverride? byte = some register ∧ repetition? byte = none ∧ byte ≠ 0xF0
        | .repetition kind =>
          segmentOverride? byte = none ∧ repetition? byte = some kind ∧ byte ≠ 0xF0
        | .lock => segmentOverride? byte = none ∧ repetition? byte = none ∧ byte = 0xF0 := by
  rw [ofByte?] at h
  split at h
  case h_8 => cases h
  all_goals
    rename_i hnumber
    have hbyte := congrArg UInt8.ofNat hnumber
    rw [UInt8.ofNat_toNat] at hbyte
    subst hbyte
    cases h
    decide

/-- A byte not taken for one is none of them. -/
theorem Modifier.ofByte?_eq_none {byte : UInt8} :
    Modifier.ofByte? byte = none ↔ byte ∉ modifierBytes := by
  constructor
  · intro hnone hmem
    simp only [modifierBytes, List.mem_cons, List.not_mem_nil, or_false] at hmem
    rcases hmem with rfl | rfl | rfl | rfl | rfl | rfl | rfl
    all_goals cases hnone
  · intro hmem
    cases hbyte : Modifier.ofByte? byte with
    | none => rfl
    | some modifier => exact absurd (ofByte?_eq_some hbyte).1 hmem

/-- One byte more asks for one thing more. -/
theorem Prefixes.ofBytes_append {byte : UInt8} {modifier : Modifier}
    (h : Modifier.ofByte? byte = some modifier) (bytes : List UInt8) :
    ofBytes (bytes ++ [byte]) = (ofBytes bytes).add modifier := by
  have hasks := (Modifier.ofByte?_eq_some h).2
  cases modifier with
  | segment register =>
      obtain ⟨hsegment, hrepetition, hlock⟩ := hasks
      simp [ofBytes, add, hsegment, hrepetition, hlock.symm]
  | repetition kind =>
      obtain ⟨hsegment, hrepetition, hlock⟩ := hasks
      simp [ofBytes, add, hsegment, hrepetition, hlock.symm]
  | lock =>
      obtain ⟨hsegment, hrepetition, rfl⟩ := hasks
      simp [ofBytes, add, hsegment, hrepetition]

/-- No modifier is the opcode of anything. -/
theorem readOperation_modifier {byte : UInt8} (h : byte ∈ modifierBytes) :
    readOperation byte = pure .unknown := by
  have hunclaimed : findTemplate byte = none ∧ Extension.reader? byte = none := by
    simp only [modifierBytes, List.mem_cons, List.not_mem_nil, or_false] at h
    rcases h with rfl | rfl | rfl | rfl | rfl | rfl | rfl
    all_goals exact ⟨rfl, rfl⟩
  rw [readOperation, hunclaimed.1, hunclaimed.2]

/-! ## The loop -/

/-- Modifiers that fit are all taken, and what has been gathered is what the bytes so far
    ask for. -/
theorem readUpTo_modifiers {α : Type} (rest : Prefixes → UInt8 → ByteReader α) (room : Nat)
    {modifiers : List UInt8} (hmodifiers : ∀ byte ∈ modifiers, byte ∈ modifierBytes)
    (before : List UInt8) {source : ByteSource} {position : Nat}
    (hcarries : source.Carries position modifiers) :
    (Prefixes.readUpTo (modifiers.length + room) (.ofBytes before) >>= fun prefixes =>
        nextByte >>= rest prefixes) source position
      = (Prefixes.readUpTo room (.ofBytes (before ++ modifiers)) >>= fun prefixes =>
          nextByte >>= rest prefixes) source (position + modifiers.length) := by
  induction modifiers generalizing before position with
  | nil => simp
  | cons byte modifiers ih =>
      obtain ⟨hfirst, hlater⟩ := hcarries.of_cons
      have hmem := hmodifiers byte List.mem_cons_self
      rw [List.length_cons, Nat.add_right_comm, readUpTo_bind, nextByte_bind_of_some hfirst]
      cases hbyte : Modifier.ofByte? byte with
      | none => exact absurd hmem (Modifier.ofByte?_eq_none.mp hbyte)
      | some modifier =>
          have hstep := ih (fun other hother => hmodifiers other (List.mem_cons_of_mem _ hother))
            (before ++ [byte]) hlater
          rw [Prefixes.ofBytes_append hbyte, List.append_assoc] at hstep
          rw [Nat.add_comm modifiers.length 1, ← Nat.add_assoc]
          exact hstep

/-- The loop ends before a byte that is no modifier, and where there is no byte. -/
theorem readUpTo_of_not_modifier {α : Type} (rest : Prefixes → UInt8 → ByteReader α)
    (room : Nat) (prefixes : Prefixes) {source : ByteSource} {position : Nat}
    (h : ∀ byte, source position = some byte → byte ∉ modifierBytes) :
    (Prefixes.readUpTo room prefixes >>= fun prefixes => nextByte >>= rest prefixes) source
        position
      = (nextByte >>= rest prefixes) source position := by
  cases room with
  | zero => rw [Prefixes.readUpTo, pure_bind]
  | succ room =>
      rw [readUpTo_bind]
      cases hbyte : source position with
      | none => rw [nextByte_bind_of_none hbyte, nextByte_bind_of_none hbyte]
      | some byte =>
          rw [nextByte_bind_of_some hbyte, nextByte_bind_of_some hbyte,
            Modifier.ofByte?_eq_none.mpr (h byte hbyte)]

/-! ## Instructions -/

/-- Reads the operation of an opcode, once the modifiers are known. -/
def readModified (prefixes : Prefixes) (opcode : UInt8) :
    ByteReader (Prefixes × UInt8 × Operation) := do
  let operation ← readOperation opcode
  return (prefixes, opcode, operation)

theorem readModified_sequential (prefixes : Prefixes) :
    Sequential 1 6 (nextByte >>= readModified prefixes) :=
  .next fun opcode => (readOperation_sequential opcode).compute _

/-- What is read does not depend on the modifiers. -/
theorem readModified_apply (prefixes other : Prefixes) (source : ByteSource) (position : Nat) :
    (nextByte >>= readModified prefixes) source position
      = match (nextByte >>= readModified other) source position with
        | .ok ((_, opcode, operation), stop) => .ok ((prefixes, opcode, operation), stop)
        | .error failure => .error failure := by
  cases hbyte : source position with
  | none => rw [nextByte_bind_of_none hbyte, nextByte_bind_of_none hbyte]
  | some opcode =>
      rw [nextByte_bind_of_some hbyte, nextByte_bind_of_some hbyte, readModified, readModified,
        bind_apply, bind_apply]
      cases readOperation opcode source (position + 1) with
      | ok read => rfl
      | error failure => rfl

/-- With four modifiers, or with fewer before a byte that is none, the opcode comes next. -/
theorem readEncoding_modifiers {modifiers rest : List UInt8}
    (hmodifiers : ∀ byte ∈ modifiers, byte ∈ modifierBytes) (hlength : modifiers.length ≤ 4)
    (hrest : modifiers.length = 4 ∨ ∀ byte, rest.head? = some byte → byte ∉ modifierBytes) :
    readEncoding (.ofList (modifiers ++ rest)) 0
      = (nextByte >>= readModified (.ofBytes modifiers)) (.ofList (modifiers ++ rest))
          modifiers.length := by
  have hloop := readUpTo_modifiers readModified (4 - modifiers.length) hmodifiers []
    (ByteSource.carries_append modifiers rest)
  rw [Nat.add_sub_cancel' hlength, Nat.zero_add] at hloop
  refine hloop.trans ?_
  rcases hrest with hfull | hrest
  · rw [hfull, Nat.sub_self, Prefixes.readUpTo, pure_bind]
    rfl
  · refine readUpTo_of_not_modifier _ _ _ ?_
    intro byte hbyte
    have hbyte : (modifiers ++ rest)[modifiers.length]? = some byte := hbyte
    rw [List.getElem?_append_right (Nat.le_refl _), Nat.sub_self, ← List.head?_eq_getElem?]
      at hbyte
    exact hrest byte hbyte

/-- Up to four modifiers change an instruction in what they ask for, and in its length; five or
    more are an instruction of their own, which nothing recognises. -/
theorem decode_modified :
    (∀ modifiers rest : List UInt8, (∀ byte ∈ modifiers, byte ∈ modifierBytes) →
      modifiers.length ≤ 4 → (∀ byte, rest.head? = some byte → byte ∉ modifierBytes) →
      decode (.ofList (modifiers ++ rest)) 0
        = match decode (.ofList rest) 0 with
          | .ok instruction =>
            .ok ⟨instruction.opcode, .ofBytes modifiers, instruction.operation,
              instruction.length + modifiers.length,
              Timing.estimate instruction.operation (.ofBytes modifiers)⟩
          | .error failure => .error ⟨failure.position + modifiers.length⟩)
    ∧ (∀ modifiers rest : List UInt8, (∀ byte ∈ modifiers, byte ∈ modifierBytes) →
      5 ≤ modifiers.length →
      ∃ instruction, decode (.ofList (modifiers ++ rest)) 0 = .ok instruction
        ∧ instruction.operation = .unknown ∧ instruction.length = 5
        ∧ instruction.prefixes = .ofBytes (modifiers.take 4) ∧ instruction.prefixes.count = 4
        ∧ modifiers[4]? = some instruction.opcode) := by
  constructor
  · intro modifiers rest hmodifiers hlength hrest
    have hbare : readEncoding (.ofList rest) 0
        = (nextByte >>= readModified .none) (.ofList rest) 0 :=
      readEncoding_modifiers (fun _ h => absurd h List.not_mem_nil) (Nat.zero_le _) (.inr hrest)
    have hread := (readModified_sequential (.ofBytes modifiers)).apply_append modifiers rest
    rw [readModified_apply _ .none (.ofList rest), ← hbare] at hread
    rw [decode, decode, readEncoding_modifiers hmodifiers hlength (.inr hrest), hread]
    cases readEncoding (.ofList rest) 0 with
    | error failure =>
        show Except.error _ = Except.error _
        rw [Nat.add_comm]
    | ok read =>
        show Except.ok (Instruction.mk _ _ _ _ _) = Except.ok (Instruction.mk _ _ _ _ _)
        congr 2
        exact Nat.add_comm modifiers.length read.2
  · intro modifiers rest hmodifiers hlength
    have hfour : (modifiers.take 4).length = 4 := by
      rw [List.length_take]
      omega
    -- The fifth byte is where the opcode should be.
    have hsplit : modifiers ++ rest = modifiers.take 4 ++ (modifiers.drop 4 ++ rest) := by
      rw [← List.append_assoc, List.take_append_drop]
    have hfifth : (ByteSource.ofList (modifiers ++ rest)) 4 = some modifiers[4] := by
      show (modifiers ++ rest)[4]? = _
      rw [List.getElem?_append_left (by omega), List.getElem?_eq_getElem (by omega)]
    have hread : readEncoding (.ofList (modifiers.take 4 ++ (modifiers.drop 4 ++ rest))) 0 = _ :=
      readEncoding_modifiers
        (fun byte hbyte => hmodifiers byte (List.mem_of_mem_take hbyte)) (Nat.le_of_eq hfour)
        (.inl hfour)
    rw [← hsplit, hfour, nextByte_bind_of_some hfifth, readModified,
      readOperation_modifier (hmodifiers _ (List.getElem_mem _)), pure_bind] at hread
    exact ⟨_, by rw [decode, hread]; rfl, rfl, rfl, rfl, hfour, List.getElem?_eq_getElem _⟩

/-- Of two segments the later one counts, a lock counts wherever it is, and of five modifiers
    the last is no more than an unknown opcode. -/
theorem decode_modified_movs :
    decode (.ofList [0x26, 0xF0, 0x2E, 0xF3, 0xA4]) 0
        = .ok ⟨0xA4, ⟨some .cs, some .equal, true, 4⟩, .string .movs .byte, 5,
            Timing.estimate (.string .movs .byte) ⟨some .cs, some .equal, true, 4⟩⟩
      ∧ ∃ instruction, decode (.ofList [0x26, 0xF0, 0x2E, 0xF3, 0x26, 0xA4]) 0 = .ok instruction
          ∧ instruction.operation = .unknown ∧ instruction.length = 5 := by
  constructor
  · exact decode_modified.1 [0x26, 0xF0, 0x2E, 0xF3] [0xA4] (by simp [modifierBytes])
      (by decide) (by simp [modifierBytes])
  · obtain ⟨instruction, hdecode, hoperation, hlength, -⟩ :=
      decode_modified.2 [0x26, 0xF0, 0x2E, 0xF3, 0x26] [0xA4] (by simp [modifierBytes])
        (by decide)
    exact ⟨instruction, hdecode, hoperation, hlength⟩

end Microprocessor.X86
