import Mathlib.Data.Nat.Digits.Defs
import Microprocessor.Proofs.Storage.Runs
import Microprocessor.Proofs.Storage.Words

/-! # What memory holds

    Memory is a map from addresses to bytes.  It begins full of zeros and has, at every
    address, what was stored there last.  A value is stored byte by byte, low byte first,
    modulo 2^32, except where memory is read-only; an image is stored whole, read-only
    memory included, or not at all.

      * `Memory.Update` is a call that stores something, and
        `Memory.Update.stored?` the byte that it leaves at an address;
      * `Memory.Tracks` relates memory to the updates made: `Memory.Tracks.after` is one
        update, `Memory.tracks_afterAll` any number of them;
      * `Memory.toNat_readWidth` and `Memory.toNat_readDouble` are the values read. -/

namespace Microprocessor

/-- The bytes of a value, as many as wanted, low byte first. -/
def littleEndian (count value : Nat) : List UInt8 :=
  (List.range count).map fun i => UInt8.ofNat (value / Nat.pow 256 i)

/-- The value whose bytes these are, low byte first. -/
def valueOfBytes (bytes : List UInt8) : Nat :=
  Nat.ofDigits 256 (bytes.map UInt8.toNat)

theorem length_littleEndian (count value : Nat) : (littleEndian count value).length = count := by
  rw [littleEndian, List.length_map, List.length_range]

theorem littleEndian_byte (value : UInt8) : littleEndian 1 value.toNat = [value] := by
  show [UInt8.ofNat (value.toNat / 1)] = [value]
  rw [Nat.div_one, UInt8.ofNat_toNat]

theorem littleEndian_lowByte (value : UInt16) :
    littleEndian 1 value.toNat = [lowByte value] := by
  show [UInt8.ofNat (value.toNat / 1)] = [lowByte value]
  rw [Nat.div_one]
  rfl

theorem littleEndian_word (value : UInt16) : littleEndian 2 value.toNat = bytesOfWord value := by
  have hhigh : UInt8.ofNat (value.toNat / 256) = highByte value := by
    apply UInt8.toNat_inj.mp
    rw [highByte, UInt16.toNat_toUInt8, UInt16.toNat_shiftRight]
    show value.toNat / 256 % 256 = (value.toNat >>> 8) % 256
    rw [Nat.shiftRight_eq_div_pow]
  show [UInt8.ofNat (value.toNat / 1), UInt8.ofNat (value.toNat / 256)] = _
  rw [Nat.div_one, hhigh]
  rfl

theorem littleEndian_double (value : UInt32) :
    littleEndian 4 value.toNat = bytesOfDouble value := by
  have hbyte : ∀ shift : UInt32, shift.toNat < 32 →
      UInt8.ofNat (value.toNat / 2 ^ shift.toNat) = (value >>> shift).toUInt8 := by
    intro shift hshift
    apply UInt8.toNat_inj.mp
    rw [UInt32.toNat_toUInt8, UInt32.toNat_shiftRight, Nat.mod_eq_of_lt hshift,
      Nat.shiftRight_eq_div_pow]
    rfl
  have hsecond := hbyte 8 (by decide)
  have hthird := hbyte 16 (by decide)
  have hfourth := hbyte 24 (by decide)
  show [UInt8.ofNat (value.toNat / 1), UInt8.ofNat (value.toNat / 2 ^ (8 : UInt32).toNat),
    UInt8.ofNat (value.toNat / 2 ^ (16 : UInt32).toNat),
    UInt8.ofNat (value.toNat / 2 ^ (24 : UInt32).toNat)] = _
  rw [hsecond, hthird, hfourth, Nat.div_one]
  rfl

namespace Memory

/-! ## Runs of bytes -/

/-- Every byte of a run has its place. -/
theorem mem_consecutive {bytes : List UInt8} :
    ∀ {address : UInt32} {i : Nat} {byte : UInt8}, bytes[i]? = some byte →
      (address + UInt32.ofNat i, byte) ∈ consecutive address bytes := by
  induction bytes with
  | nil =>
      intro address i byte h
      cases h
  | cons first rest ih =>
      intro address i byte h
      cases i with
      | zero =>
          obtain rfl := Option.some.inj h
          rw [show UInt32.ofNat 0 = 0 from rfl, UInt32.add_zero]
          exact List.mem_cons_self
      | succ i =>
          have hlater := @ih (address + 1) i byte h
          rw [UInt32.add_assoc, UInt32.add_comm 1] at hlater
          rw [UInt32.ofNat_add]
          exact List.mem_cons_of_mem _ hlater

/-- A run that is stored leaves its bytes where memory can be written, and the others alone. -/
theorem fetch?_writeBytes (memory : Memory) {bytes : List UInt8}
    (hlength : bytes.length ≤ UInt32.size) (place : UInt32) {address : UInt32}
    (hpopulated : address.toNat < memory.size) :
    (memory.writeBytes place bytes).fetch? address
      = if memory.isRom address then memory.fetch? address
        else bytes[(address - place).toNat]?.or (memory.fetch? address) := by
  have hoverwritten := memory.overwritten_writeBytes place hlength
  have haddress : place + UInt32.ofNat (address - place).toNat = address := by
    rw [UInt32.ofNat_toNat, UInt32.add_comm, UInt32.sub_add_cancel]
  split
  case isTrue hrom => exact hoverwritten.readOnly address hrom
  case isFalse hrom =>
    cases hbyte : bytes[(address - place).toNat]? with
    | some byte =>
        have hwritten := hoverwritten.written _ (mem_consecutive hbyte)
        rw [haddress] at hwritten
        exact hwritten ⟨hpopulated, Bool.eq_false_iff.mpr hrom⟩
    | none =>
        refine hoverwritten.elsewhere address ?_
        intro byte hmem hsame
        obtain ⟨i, hi, hplace⟩ := fst_of_mem_consecutive (List.mem_map_of_mem hmem)
        have hlarge := List.getElem?_eq_none_iff.mp hbyte
        rw [← hsame, hplace, UInt32.add_comm, UInt32.add_sub_cancel,
          UInt32.toNat_ofNat_of_lt' (Nat.lt_of_lt_of_le hi hlength)] at hlarge
        omega

/-! ## Images -/

/-- An image that fits is copied to where it belongs. -/
theorem getElem?_copyFrom_of_covered (image : List UInt8) :
    ∀ (bytes : Array UInt8) (index i : Nat), index + image.length ≤ bytes.size →
      index ≤ i → i < index + image.length →
      (copyFrom bytes index image)[i]? = image[i - index]? := by
  induction image with
  | nil =>
      intro bytes index i _ hlow hhigh
      rw [List.length_nil] at hhigh
      omega
  | cons byte rest ih =>
      intro bytes index i hfits hlow hhigh
      rw [List.length_cons] at hfits hhigh
      rw [copyFrom]
      by_cases hfirst : i = index
      · subst hfirst
        rw [getElem?_copyFrom_of_outside rest _ _ _ (by omega), Nat.sub_self,
          Array.getElem?_setIfInBounds_self_of_lt (by omega)]
        rfl
      · rw [ih _ _ _ (by rw [Array.size_setIfInBounds]; omega) (by omega) (by omega),
          show i - index = i - (index + 1) + 1 by omega]
        rfl

theorem size_copyFrom (image : List UInt8) :
    ∀ (bytes : Array UInt8) (index : Nat), (copyFrom bytes index image).size = bytes.size := by
  induction image with
  | nil => exact fun _ _ => rfl
  | cons byte rest ih =>
      intro bytes index
      rw [copyFrom, ih, Array.size_setIfInBounds]

/-- An image is loaded just if it fits. -/
theorem exists_load_iff (memory : Memory) (base : UInt32) (image : List UInt8) :
    (∃ loaded, memory.load base image = .ok loaded) ↔ base.toNat + image.length ≤ memory.size := by
  rw [load]
  split
  case isTrue hfits => exact ⟨fun _ => hfits, fun _ => ⟨_, rfl⟩⟩
  case isFalse hlarge =>
    constructor
    · rintro ⟨_, hloaded⟩
      cases hloaded
    · intro hfits
      exact absurd hfits hlarge

/-- An image that is refused is reported with what there is room for. -/
theorem failure_of_load {memory : Memory} {base : UInt32} {image : List UInt8}
    {failure : ImageTooLarge} (h : memory.load base image = .error failure) :
    failure = ⟨base, image.length, memory.size⟩ := by
  rw [load] at h
  split at h
  case isTrue => cases h
  case isFalse => exact (Except.error.inj h).symm

/-! ## Updates -/

/-- A call that stores something. -/
inductive Update
  | write (address : UInt32) (value : UInt8)
  | writeWidth (width : Width) (address : UInt32) (value : UInt16)
  | writeDouble (address value : UInt32)
  | load (base : UInt32) (image : List UInt8)

/-- Memory after an update.  One that fails leaves it as it was. -/
def after (memory : Memory) : Update → Memory
  | .write address value => memory.write address value
  | .writeWidth width address value => memory.writeWidth width address value
  | .writeDouble address value => memory.writeDouble address value
  | .load base image =>
    match memory.load base image with
    | .ok loaded => loaded
    | .error _ => memory

/-- Memory after updates, the latest first. -/
def afterAll (configuration : MemoryConfiguration) : List Update → Memory
  | [] => ofConfiguration configuration
  | update :: earlier => (afterAll configuration earlier).after update

end Memory

/-- Writes to the address are dropped. -/
def MemoryConfiguration.isReadOnly (configuration : MemoryConfiguration) (address : UInt32) :
    Bool :=
  configuration.romStart.any fun start => start ≤ address

/-- The byte at an address of a value that is written to a place, if it has one there and it
    can be written.  The bytes of the value go on from the place modulo 2^32. -/
def MemoryConfiguration.written? (configuration : MemoryConfiguration) (address place : UInt32)
    (count value : Nat) : Option UInt8 :=
  if configuration.isReadOnly address then none
  else (littleEndian count value)[(address - place).toNat]?

namespace Memory

/-- The byte that an update stores at an address, if it stores one there. -/
def Update.stored? (configuration : MemoryConfiguration) (address : UInt32) :
    Update → Option UInt8
  | .write place value => configuration.written? address place 1 value.toNat
  | .writeWidth width place value =>
    configuration.written? address place width.bytes.toNat value.toNat
  | .writeDouble place value => configuration.written? address place 4 value.toNat
  | .load base image =>
    if base.toNat + image.length ≤ configuration.size ∧ base ≤ address then
      image[address.toNat - base.toNat]?
    else none

/-- What memory holds at an address after updates, the latest first. -/
def contents? (configuration : MemoryConfiguration) (updates : List Update) (address : UInt32) :
    Option UInt8 :=
  if address.toNat < configuration.size then
    some ((updates.findSome? (Update.stored? configuration address)).getD 0)
  else none

/-- Memory is as updates have left it. -/
structure Tracks (memory : Memory) (configuration : MemoryConfiguration) (updates : List Update) :
    Prop where
  size : memory.size = configuration.size
  romStart : memory.romStart = configuration.romStart
  holds : ∀ address, memory.fetch? address = contents? configuration updates address

theorem Tracks.isRom {memory : Memory} {configuration : MemoryConfiguration}
    {updates : List Update} (h : memory.Tracks configuration updates) (address : UInt32) :
    memory.isRom address = configuration.isReadOnly address := by
  rw [Memory.isRom, h.romStart, MemoryConfiguration.isReadOnly]
  cases configuration.romStart <;> rfl

/-- Where there is no memory there is no byte. -/
theorem fetch?_eq_none (memory : Memory) {address : UInt32} (h : memory.size ≤ address.toNat) :
    memory.fetch? address = none :=
  Array.getElem?_eq_none h

/-! ## One update -/

section

variable {memory : Memory} {configuration : MemoryConfiguration} {updates : List Update}

/-- What an update stores comes before what was stored earlier. -/
theorem Tracks.store (h : memory.Tracks configuration updates) {update : Update} {stored : Memory}
    (hsize : stored.size = memory.size) (hromStart : stored.romStart = memory.romStart)
    (hbytes : ∀ address, address.toNat < memory.size →
      stored.fetch? address
        = (update.stored? configuration address).or (memory.fetch? address)) :
    stored.Tracks configuration (update :: updates) := by
  refine ⟨hsize.trans h.size, hromStart.trans h.romStart, ?_⟩
  intro address
  rw [contents?]
  split
  case isTrue hpopulated =>
    rw [hbytes address (h.size ▸ hpopulated), h.holds address, contents?, if_pos hpopulated,
      List.findSome?_cons]
    cases update.stored? configuration address <;> rfl
  case isFalse hpopulated =>
    rw [stored.fetch?_eq_none (by rw [hsize, h.size]; omega)]

/-- So it is with a value written byte by byte. -/
theorem Tracks.writeBytes (h : memory.Tracks configuration updates) {update : Update}
    {place : UInt32} {count value : Nat} (hcount : count ≤ UInt32.size)
    (hupdate : ∀ address,
      update.stored? configuration address = configuration.written? address place count value) :
    (memory.writeBytes place (littleEndian count value)).Tracks configuration
      (update :: updates) := by
  have hlength : (littleEndian count value).length ≤ UInt32.size :=
    (length_littleEndian count value).trans_le hcount
  have hkept := (Stores.writeBytes (littleEndian count value) memory place).readOnlyKept
  refine h.store hkept.size hkept.romStart ?_
  intro address hpopulated
  rw [memory.fetch?_writeBytes hlength place hpopulated, h.isRom, hupdate,
    MemoryConfiguration.written?]
  split <;> rfl

/-- So it is with an image that fits. -/
theorem Tracks.load (h : memory.Tracks configuration updates) {base : UInt32}
    {image : List UInt8} {loaded : Memory} (hload : memory.load base image = .ok loaded) :
    loaded.Tracks configuration (.load base image :: updates) := by
  rw [Memory.load] at hload
  split at hload
  case isFalse => cases hload
  case isTrue hfits =>
    obtain rfl := Except.ok.inj hload
    refine h.store (size_copyFrom image memory.bytes base.toNat) rfl ?_
    intro address _
    have hconfigured : base.toNat + image.length ≤ configuration.size := h.size ▸ hfits
    have hstored : (Update.load base image).stored? configuration address
        = if base ≤ address then image[address.toNat - base.toNat]? else none := by
      rw [Update.stored?]
      simp only [hconfigured, true_and]
    rw [hstored]
    show (copyFrom memory.bytes base.toNat image)[address.toNat]? = _
    by_cases hlow : base ≤ address
    · have hbase := UInt32.le_iff_toNat_le.mp hlow
      rw [if_pos hlow]
      by_cases hhigh : address.toNat < base.toNat + image.length
      · rw [getElem?_copyFrom_of_covered image _ _ _ hfits hbase hhigh,
          List.getElem?_eq_getElem (by omega)]
        rfl
      · rw [getElem?_copyFrom_of_outside image _ _ _ (by omega),
          List.getElem?_eq_none (by omega)]
        rfl
    · rw [if_neg hlow]
      have hbelow := mt UInt32.le_iff_toNat_le.mpr hlow
      exact getElem?_copyFrom_of_outside image _ _ _ (by omega)

/-- So it is with every update. -/
theorem Tracks.after (h : memory.Tracks configuration updates) (update : Update) :
    (memory.after update).Tracks configuration (update :: updates) := by
  cases update with
  | write place value =>
      have hstored : memory.write place value
          = memory.writeBytes place (littleEndian 1 value.toNat) := by
        rw [littleEndian_byte]
        rfl
      rw [Memory.after, hstored]
      exact h.writeBytes (by decide) fun _ => rfl
  | writeWidth width place value =>
      have hstored : memory.writeWidth width place value
          = memory.writeBytes place (littleEndian width.bytes.toNat value.toNat) := by
        cases width with
        | byte =>
            show _ = memory.writeBytes place (littleEndian 1 value.toNat)
            rw [littleEndian_lowByte]
            rfl
        | word =>
            show _ = memory.writeBytes place (littleEndian 2 value.toNat)
            rw [littleEndian_word]
            rfl
      rw [Memory.after, hstored]
      exact h.writeBytes (by cases width <;> decide) fun _ => rfl
  | writeDouble place value =>
      rw [Memory.after, writeDouble, ← littleEndian_double]
      exact h.writeBytes (by decide) fun _ => rfl
  | load base image =>
      rw [Memory.after]
      cases hload : memory.load base image with
      | ok loaded => exact h.load hload
      | error failure =>
          refine h.store rfl rfl ?_
          intro address _
          rw [Memory.load] at hload
          split at hload
          case isTrue => cases hload
          case isFalse hlarge =>
            rw [h.size] at hlarge
            rw [Update.stored?, if_neg (fun hboth => hlarge hboth.1)]
            rfl

end

/-- So it is with any updates. -/
theorem tracks_afterAll (configuration : MemoryConfiguration) (updates : List Update) :
    (afterAll configuration updates).Tracks configuration updates := by
  induction updates with
  | nil =>
      refine ⟨Array.size_replicate, rfl, ?_⟩
      intro address
      exact Array.getElem?_replicate
  | cons update earlier ih => exact ih.after update

/-! ## Reading -/

theorem toNat_readWidth (memory : Memory) (width : Width) (address : UInt32) :
    (memory.readWidth width address).toNat
      = valueOfBytes (memory.dump address width.bytes.toNat) := by
  cases width with
  | byte =>
      show (memory.read address).toUInt16.toNat = valueOfBytes [memory.read (address + 0)]
      rw [UInt32.add_zero, UInt8.toNat_toUInt16]
      exact Nat.ofDigits_singleton.symm
  | word =>
      show (wordOfBytes (memory.read address) (memory.read (address + 1))).toNat
        = valueOfBytes [memory.read (address + 0), memory.read (address + 1)]
      rw [UInt32.add_zero, toNat_wordOfBytes, valueOfBytes, List.map_cons, List.map_singleton,
        Nat.ofDigits_cons, Nat.ofDigits_singleton, Nat.add_comm]

theorem toNat_readDouble (memory : Memory) (address : UInt32) :
    (memory.readDouble address).toNat = valueOfBytes (memory.dump address 4) := by
  show (doubleOfWords (wordOfBytes (memory.read address) (memory.read (address + 1)))
      (wordOfBytes (memory.read (address + 2)) (memory.read (address + 2 + 1)))).toNat
    = valueOfBytes [memory.read (address + 0), memory.read (address + 1),
      memory.read (address + 2), memory.read (address + 3)]
  rw [UInt32.add_zero, UInt32.add_assoc, toNat_doubleOfWords, toNat_wordOfBytes,
    toNat_wordOfBytes, valueOfBytes]
  simp only [List.map_cons, List.map_nil, Nat.ofDigits_cons, Nat.ofDigits_nil]
  rw [show (2 : UInt32) + 1 = 3 from rfl]
  omega

/-- Whatever has been stored, by any calls at any addresses: an address without memory reads
    as all ones, and any other as the byte that the latest of the calls left there, or as zero
    if none did.  Words and double words are the little-endian values of such bytes.  An image
    is loaded exactly if it fits, and otherwise nothing is stored.  So on a bus, a value that is
    written where all its bytes can be is read back, as far as its width goes. -/
theorem reads_latest_stored {δ : Type} :
    (∀ configuration updates address,
      (afterAll configuration updates).fetch? address = contents? configuration updates address
      ∧ (afterAll configuration updates).read address
        = if address.toNat < configuration.size then
            (updates.findSome? (Update.stored? configuration address)).getD 0
          else 0xFF)
    ∧ (∀ (memory : Memory) width address, (memory.readWidth width address).toNat
      = valueOfBytes (memory.dump address width.bytes.toNat))
    ∧ (∀ (memory : Memory) address,
      (memory.readDouble address).toNat = valueOfBytes (memory.dump address 4))
    ∧ (∀ configuration updates base image,
      ((∃ loaded, (afterAll configuration updates).load base image = .ok loaded)
        ↔ base.toNat + image.length ≤ configuration.size)
      ∧ ∀ failure, (afterAll configuration updates).load base image = .error failure →
        failure = ⟨base, image.length, configuration.size⟩
        ∧ afterAll configuration (.load base image :: updates) = afterAll configuration updates)
    ∧ ∀ (bus : Bus δ) width place value,
      (∀ address ∈ place.addresses width, bus.memory.Writable address) →
      ((bus.write width place value).read width place).toNat
        = value.toNat % Nat.pow 2 width.bits := by
  refine ⟨?_, toNat_readWidth, toNat_readDouble, ?_, ?_⟩
  · intro configuration updates address
    have hholds := (tracks_afterAll configuration updates).holds address
    refine ⟨hholds, ?_⟩
    rw [read, hholds, contents?]
    split <;> rfl
  · intro configuration updates base image
    have hsize := (tracks_afterAll configuration updates).size
    rw [← hsize]
    refine ⟨exists_load_iff _ base image, ?_⟩
    intro failure hload
    refine ⟨failure_of_load hload, ?_⟩
    rw [afterAll, after, hload]
  · intro bus width place value hwritable
    rw [bus.read_write value hwritable, UInt16.toNat_and]
    cases width with
    | byte => exact Nat.and_two_pow_sub_one_eq_mod value.toNat 8
    | word => exact Nat.and_two_pow_sub_one_eq_mod value.toNat 16

/-- 256 bytes, read-only from 0xF0 on. -/
def smallConfiguration : MemoryConfiguration :=
  ⟨0x100, some 0xF0⟩

/-- An image that does not fit, one that lies across the start of read-only memory, a double word
    from the end of the addresses into their beginning, and a word across the start of read-only
    memory. -/
def straddling : List Update :=
  [.writeWidth .word 0xEF 0xAABB, .writeDouble 0xFFFFFFFE 0x44332211, .load 0xEE [1, 2, 3],
    .load 0xFF [4, 5]]

/-- Of the word the low byte was written, and of the double word the two high ones.  On a bus, a
    word that lies across the end of the address space is read back. -/
theorem reads_latest_stored_straddling :
    (afterAll smallConfiguration straddling).read 0xEF = 0xBB
      ∧ (afterAll smallConfiguration straddling).read 0xF0 = 3
      ∧ (afterAll smallConfiguration straddling).read 0xFFFFFFFF = 0xFF
      ∧ (afterAll smallConfiguration straddling).read 0 = 0x33
      ∧ (afterAll smallConfiguration straddling).read 0xFF = 0
      ∧ (((Bus.of (δ := Unit) ⟨#[0, 0], none⟩ .empty 6 2).write .word ⟨0xFFFF, 0x10⟩ 0xBEEF).read
        .word ⟨0xFFFF, 0x10⟩).toNat = 0xBEEF := by
  obtain ⟨hreads, -, -, -, hbus⟩ := reads_latest_stored (δ := Unit)
  have hread := fun address => (hreads smallConfiguration straddling address).2
  refine ⟨?_, ?_, ?_, ?_, ?_, ?_⟩
  · exact (hread 0xEF).trans (by decide +kernel)
  · exact (hread 0xF0).trans (by decide +kernel)
  · exact (hread 0xFFFFFFFF).trans (by decide +kernel)
  · exact (hread 0).trans (by decide +kernel)
  · exact (hread 0xFF).trans (by decide +kernel)
  · refine hbus _ .word ⟨0xFFFF, 0x10⟩ 0xBEEF ?_
    exact List.forall_mem_cons.mpr
      ⟨by decide +kernel, List.forall_mem_singleton.mpr (by decide +kernel)⟩

end Memory

end Microprocessor
