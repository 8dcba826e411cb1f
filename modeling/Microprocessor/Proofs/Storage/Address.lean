import Microprocessor.Storage.Locator

/-! # Moving along code and data

    Moves add up: within a segment modulo 2^16, in flat memory modulo 2^32.
    The offsets of one segment have different linear addresses, also where the
    segment runs past the end of the 20-bit address space.

      * `CodeAddress.advance_advance`, `MemoryLocator.advance_advance`;
      * `linearAddress_injective`: a linear address determines the offset, and
        `MemoryLocator.eq_of_address_eq` the place;
      * `MemoryLocator.address_advance_ne`: places of a segment differ. -/

namespace Microprocessor

/-! ## Data -/

/-- The linear address as a number. -/
theorem toNat_linearAddress (base offset : UInt16) :
    (linearAddress base offset).toNat
      = (base.toNat * 16 + offset.toNat) % addressSpace := by
  have hbase := base.toNat_lt
  have hoffset := offset.toNat_lt
  have hshift : (base.toUInt32 <<< 4).toNat = base.toNat * 16 := by
    rw [UInt32.toNat_shiftLeft]
    show (base.toNat <<< 4) % UInt32.size = base.toNat * 16
    rw [Nat.shiftLeft_eq]
    exact Nat.mod_eq_of_lt (by show base.toNat * 16 < 4294967296; omega)
  have hsum : ((base.toUInt32 <<< 4) + offset.toUInt32).toNat
      = base.toNat * 16 + offset.toNat := by
    rw [UInt32.toNat_add, hshift]
    exact Nat.mod_eq_of_lt (by show base.toNat * 16 + offset.toNat < 4294967296; omega)
  rw [linearAddress, UInt32.toNat_and, hsum]
  exact Nat.and_two_pow_sub_one_eq_mod (base.toNat * 16 + offset.toNat) 20

/-- Within a segment the linear address determines the offset. -/
theorem linearAddress_injective {base a b : UInt16}
    (h : linearAddress base a = linearAddress base b) : a = b := by
  have hnat := congrArg UInt32.toNat h
  rw [toNat_linearAddress, toNat_linearAddress] at hnat
  have ha := a.toNat_lt
  have hb := b.toNat_lt
  rw [addressSpace] at hnat
  exact UInt16.toNat_inj.mp (by omega)

namespace MemoryLocator

@[simp] theorem advance_zero (locator : MemoryLocator) : locator.advance 0 = locator := by
  rw [advance, UInt16.add_zero]

/-- Within a segment the address determines the place. -/
theorem eq_of_address_eq {place other : MemoryLocator} (hbase : place.base = other.base)
    (h : place.address = other.address) : place = other := by
  obtain ⟨base, offset⟩ := place
  obtain ⟨base', offset'⟩ := other
  obtain rfl : base = base' := hbase
  exact congrArg (MemoryLocator.mk base) (linearAddress_injective h)

/-- Moves within a segment add up. -/
theorem advance_advance (locator : MemoryLocator) (m n : UInt16) :
    (locator.advance m).advance n = locator.advance (m + n) := by
  unfold advance
  rw [UInt16.add_assoc]

/-- Places from which the same move leads to one place are one. -/
theorem eq_of_advance_eq {place other : MemoryLocator} {delta : UInt16}
    (h : place.advance delta = other.advance delta) : place = other := by
  obtain ⟨base, offset⟩ := place
  obtain ⟨base', offset'⟩ := other
  obtain ⟨rfl, hoffset⟩ := MemoryLocator.mk.inj h
  exact congrArg (MemoryLocator.mk base) ((UInt16.add_left_inj delta).mp hoffset)

@[simp] theorem retreat_zero (locator : MemoryLocator) : locator.retreat 0 = locator := by
  rw [retreat, UInt16.sub_zero]

/-- Moves back within a segment add up. -/
theorem retreat_retreat (locator : MemoryLocator) (m n : UInt16) :
    (locator.retreat m).retreat n = locator.retreat (m + n) := by
  have hoffset : locator.offset - m - n = locator.offset - (m + n) := by grind
  exact congrArg (MemoryLocator.mk locator.base) hoffset

/-- A move back, and part of the way on again. -/
theorem advance_retreat_add (locator : MemoryLocator) (m n : UInt16) :
    (locator.retreat (m + n)).advance n = locator.retreat m := by
  have hoffset : locator.offset - (m + n) + n = locator.offset - m := by grind
  exact congrArg (MemoryLocator.mk locator.base) hoffset

/-- Places of a segment that are less than a segment apart have different
    addresses. -/
theorem address_advance_ne (place : MemoryLocator) {i j : Nat}
    (hi : i < 0x10000) (hj : j < 0x10000) (hne : i ≠ j) :
    (place.advance (UInt16.ofNat i)).address ≠ (place.advance (UInt16.ofNat j)).address := by
  intro heq
  have hoffset : UInt16.ofNat i = UInt16.ofNat j :=
    (UInt16.add_right_inj place.offset).mp (linearAddress_injective heq)
  have hnat := congrArg UInt16.toNat hoffset
  rw [UInt16.toNat_ofNat_of_lt' hi, UInt16.toNat_ofNat_of_lt' hj] at hnat
  exact hne hnat

/-- The two bytes of a word have different addresses. -/
theorem address_advance_one_ne (place : MemoryLocator) :
    (place.advance 1).address ≠ place.address := by
  have h : (place.advance 1).address ≠ (place.advance 0).address :=
    place.address_advance_ne (show 1 < 0x10000 by decide) (show 0 < 0x10000 by decide)
      Nat.one_ne_zero
  rw [advance_zero] at h
  exact h

end MemoryLocator

/-! ## Code -/

namespace CodeAddress

@[simp] theorem advance_zero (code : CodeAddress) : code.advance 0 = code := by
  cases code with
  | flat address =>
      show CodeAddress.flat (address + 0) = .flat address
      rw [UInt32.add_zero]
  | segmented locator =>
      show CodeAddress.segmented (locator.advance 0) = .segmented locator
      rw [MemoryLocator.advance_zero]

/-- Moves along code add up, whichever way the code wraps. -/
theorem advance_advance (code : CodeAddress) (m n : Nat) :
    (code.advance m).advance n = code.advance (m + n) := by
  cases code with
  | flat address =>
      show CodeAddress.flat (address + UInt32.ofNat m + UInt32.ofNat n)
        = .flat (address + UInt32.ofNat (m + n))
      rw [UInt32.ofNat_add, UInt32.add_assoc]
  | segmented locator =>
      show CodeAddress.segmented ((locator.advance (UInt16.ofNat m)).advance (UInt16.ofNat n))
        = .segmented (locator.advance (UInt16.ofNat (m + n)))
      rw [MemoryLocator.advance_advance, UInt16.ofNat_add]

end CodeAddress

end Microprocessor
