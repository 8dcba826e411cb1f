import Mathlib.Data.Nat.Digits.Lemmas
import Mathlib.Tactic.LinearCombination
import Microprocessor.Proofs.X86.Sums

/-! # Sums and differences of many limbs

    Numbers that are longer than a word are added and subtracted limb by limb, from the
    lowest on, and the carry goes from each limb to the next.  Nothing else does, so that
    values can be counted and complemented on the way.

      * `along` works on the digits of two numbers place by place;
      * `CarriesOn` is asked of the operation on the digits of one place, and
        `CarriesOn.carried` is what follows for all places, in any base and for sums and
        differences alike;
      * `interleaved_along`: what is done on the way changes nothing;
      * `limbs_exact` has sums and differences of any length and either width. -/

namespace Microprocessor.X86.Alu

/-! ## Digits in any base -/

section

variable {α : Type}

/-- Works on the digits of two numbers from the lowest place on, and hands the flags on. -/
def along (op : Flags → α → α → α × Flags) (flags : Flags) : List (α × α) → List α × Flags
  | [] => ([], flags)
  | (a, b) :: places =>
    let (digit, flags) := op flags a b
    let (digits, flags) := along op flags places
    (digit :: digits, flags)

/-- The number that digits stand for, the lowest first. -/
def numeral (base : Nat) (digit : α → Nat) (digits : List α) : Nat :=
  Nat.ofDigits base (digits.map digit)

/-- The outcome has a digit for each place.  They are those of the exact result as far as there
    are places for it, and the carry says that there are not enough. -/
structure Carried (base : Nat) (digit : α → Nat) (places : Nat) (exact : Int)
    (outcome : List α × Flags) : Prop where
  length : outcome.1.length = places
  value : (numeral base digit outcome.1 : Int) = exact % (base ^ places : Nat)
  carry : outcome.2.get .carry = true ↔ ¬(0 ≤ exact ∧ exact < (base ^ places : Nat))

/-- The operation on the digits of one place gives the digit of their sum, or of their
    difference if the sign is negative, and the carry makes up for what is missing. -/
structure CarriesOn (sign : Int) (base : Nat) (Valid : α → Prop) (digit : α → Nat)
    (op : Flags → α → α → α × Flags) : Prop where
  unit : sign = 1 ∨ sign = -1
  lt : ∀ {a}, Valid a → digit a < base
  valid : ∀ {a b}, Valid a → Valid b → ∀ flags, Valid (op flags a b).1
  exact : ∀ {a b}, Valid a → Valid b → ∀ flags,
    (digit (op flags a b).1 : Int) + sign * (base * ((op flags a b).2.get .carry).toNat)
      = digit a + sign * (digit b + (flags.get .carry).toNat)

variable {op : Flags → α → α → α × Flags}

/-- What every operation on the digits of a place gives, all the digits have. -/
theorem forall_mem_along {P : α → Prop} (h : ∀ flags a b, P (op flags a b).1)
    (places : List (α × α)) : ∀ flags, ∀ digit ∈ (along op flags places).1, P digit := by
  induction places with
  | nil =>
      intro _ _ hmem
      cases hmem
  | cons place places ih =>
      obtain ⟨a, b⟩ := place
      intro flags digit hmem
      rcases List.mem_cons.mp hmem with rfl | hmem
      · exact h flags a b
      · exact ih (op flags a b).2 digit hmem

theorem numeral_cons (base : Nat) (digit : α → Nat) (a : α) (digits : List α) :
    numeral base digit (a :: digits) = digit a + base * numeral base digit digits := by
  rw [numeral, List.map_cons, Nat.ofDigits_cons]
  rfl

namespace CarriesOn

variable {base : Nat} {Valid : α → Prop} {digit : α → Nat}

section

variable {sign : Int} (h : CarriesOn sign base Valid digit op)

include h

/-- There are not more numerals than digits allow. -/
theorem numeral_lt {digits : List α} (hvalid : ∀ a ∈ digits, Valid a) :
    numeral base digit digits < base ^ digits.length := by
  induction digits with
  | nil => exact Nat.zero_lt_one
  | cons a digits ih =>
      obtain ⟨ha, hvalid⟩ := List.forall_mem_cons.mp hvalid
      rw [numeral_cons, List.length_cons, Nat.pow_succ']
      calc digit a + base * numeral base digit digits
          < base * (numeral base digit digits + 1) := by
            rw [Nat.mul_succ, Nat.add_comm]
            exact Nat.add_lt_add_left (h.lt ha) _
        _ ≤ base * base ^ digits.length := Nat.mul_le_mul_left base (ih hvalid)

/-- There is a valid digit for each place, and the carry out of the highest one makes up for
    what they are missing of the result. -/
theorem along_exact {places : List (α × α)}
    (hvalid : ∀ place ∈ places, Valid place.1 ∧ Valid place.2) (flags : Flags) :
    (along op flags places).1.length = places.length
      ∧ (∀ digit ∈ (along op flags places).1, Valid digit)
      ∧ (numeral base digit (along op flags places).1 : Int)
          + sign * ((base ^ places.length : Nat) * ((along op flags places).2.get .carry).toNat)
        = numeral base digit (places.map Prod.fst)
          + sign * (numeral base digit (places.map Prod.snd) + (flags.get .carry).toNat) := by
  induction places generalizing flags with
  | nil => exact ⟨rfl, fun _ hmem => absurd hmem List.not_mem_nil, by simp [along, numeral]⟩
  | cons place places ih =>
      obtain ⟨a, b⟩ := place
      obtain ⟨⟨ha, hb⟩, hvalid⟩ := List.forall_mem_cons.mp hvalid
      obtain ⟨hlength, hdigits, hrest⟩ := ih hvalid (op flags a b).2
      refine ⟨congrArg (· + 1) hlength, List.forall_mem_cons.mpr ⟨h.valid ha hb flags, hdigits⟩, ?_⟩
      have hplace := h.exact ha hb flags
      show (numeral base digit ((op flags a b).1 :: (along op (op flags a b).2 places).1) : Int)
          + sign * ((base ^ (places.length + 1) : Nat)
            * ((along op (op flags a b).2 places).2.get .carry).toNat)
        = numeral base digit (a :: places.map Prod.fst)
          + sign * (numeral base digit (b :: places.map Prod.snd) + (flags.get .carry).toNat)
      rw [numeral_cons, numeral_cons, numeral_cons]
      push_cast at hrest ⊢
      -- The carry out of this place is the one into the next.
      linear_combination hplace + base * hrest

/-- So the digits are exact, and the carry says whether they are all of the result. -/
theorem carried {places : List (α × α)}
    (hvalid : ∀ place ∈ places, Valid place.1 ∧ Valid place.2) (flags : Flags) :
    Carried base digit places.length
      (numeral base digit (places.map Prod.fst)
        + sign * (numeral base digit (places.map Prod.snd) + (flags.get .carry).toNat))
      (along op flags places) := by
  obtain ⟨hlength, hdigits, hexact⟩ := h.along_exact hvalid flags
  have hbound := h.numeral_lt hdigits
  rw [hlength] at hbound
  have hnonneg := Int.natCast_nonneg (numeral base digit (along op flags places).1)
  rw [← Int.ofNat_lt] at hbound
  rw [← hexact]
  refine ⟨hlength, ?_, ?_⟩
  · rw [Int.mul_left_comm, Int.add_mul_emod_self_left, Int.emod_eq_of_lt hnonneg hbound]
  · cases (along op flags places).2.get .carry with
    | false =>
        rw [Bool.toNat_false, Int.natCast_zero, Int.mul_zero, Int.mul_zero, Int.add_zero]
        exact iff_of_false Bool.false_ne_true (not_not_intro ⟨hnonneg, hbound⟩)
    | true =>
        -- A result that is short of its carry has been out of range on one side or the other.
        rw [Bool.toNat_true, Int.natCast_one, Int.mul_one]
        refine iff_of_true rfl ?_
        rcases h.unit with hunit | hunit
        all_goals
          rw [hunit]
          omega

end

/-- The digits of a sum are exact, and the carry says that it is too great. -/
theorem sum_exact (h : CarriesOn 1 base Valid digit op) {places : List (α × α)}
    (hvalid : ∀ place ∈ places, Valid place.1 ∧ Valid place.2) (flags : Flags) :
    let a := numeral base digit (places.map Prod.fst)
    let b := numeral base digit (places.map Prod.snd)
    let carry := (flags.get .carry).toNat
    numeral base digit (along op flags places).1 = (a + b + carry) % base ^ places.length
      ∧ ((along op flags places).2.get .carry = true ↔ base ^ places.length ≤ a + b + carry) := by
  intro a b carry
  obtain ⟨-, hvalue, hcarry⟩ := h.carried hvalid flags
  rw [Int.one_mul, ← Int.add_assoc] at hvalue hcarry
  refine ⟨by exact_mod_cast hvalue, hcarry.trans ?_⟩
  omega

/-- The digits of a difference are exact, and the carry says that it is below zero. -/
theorem difference_exact (h : CarriesOn (-1) base Valid digit op) {places : List (α × α)}
    (hvalid : ∀ place ∈ places, Valid place.1 ∧ Valid place.2) (flags : Flags) :
    let a := numeral base digit (places.map Prod.fst)
    let b := numeral base digit (places.map Prod.snd)
    let carry := (flags.get .carry).toNat
    (numeral base digit (along op flags places).1 : Int)
        = (a - b - carry) % (base ^ places.length : Nat)
      ∧ ((along op flags places).2.get .carry = true ↔ a < b + carry) := by
  intro a b carry
  obtain ⟨-, hvalue, hcarry⟩ := h.carried hvalid flags
  have ha : a < base ^ (places.map Prod.fst).length := by
    refine h.numeral_lt fun digit hmem => ?_
    obtain ⟨place, hplace, rfl⟩ := List.mem_map.mp hmem
    exact (hvalid place hplace).1
  rw [List.length_map] at ha
  rw [Int.neg_one_mul, Int.neg_add, ← Int.add_assoc] at hvalue hcarry
  refine ⟨hvalue, hcarry.trans ?_⟩
  omega

end CarriesOn

/-! ## On the way -/

/-- What can be done between two places: some value is counted up or down, or complemented. -/
inductive Aside
  | inc (width : Width) (value : UInt16)
  | dec (width : Width) (value : UInt16)
  | not (width : Width) (value : UInt16)

/-- The flags afterwards.  A complement has nothing to do with them. -/
def Aside.flags (flags : Flags) : Aside → Flags
  | .inc width value => (Alu.inc flags width value).2
  | .dec width value => (Alu.dec flags width value).2
  | .not _ _ => flags

/-- A step of the way along two numbers. -/
inductive Step (α : Type)
  | place (a b : α)
  | aside (aside : Aside)

/-- The digits that are worked on, if any are. -/
def Step.digits? : Step α → Option (α × α)
  | .place a b => some (a, b)
  | .aside _ => none

/-- Works on the digits of two numbers like `along`, with something else done on the way. -/
def interleaved (op : Flags → α → α → α × Flags) (flags : Flags) :
    List (Step α) → List α × Flags
  | [] => ([], flags)
  | .place a b :: steps =>
    let (digit, flags) := op flags a b
    let (digits, flags) := interleaved op flags steps
    (digit :: digits, flags)
  | .aside aside :: steps => interleaved op (aside.flags flags) steps

/-- Counting puts the carry back, and a complement leaves it alone. -/
theorem Aside.get_carry_flags (flags : Flags) (aside : Aside) :
    (aside.flags flags).get .carry = flags.get .carry := by
  cases aside with
  | inc width value => exact (Flags.get_set _ .carry .carry _).trans (if_pos rfl)
  | dec width value => exact (Flags.get_set _ .carry .carry _).trans (if_pos rfl)
  | not width value => rfl

/-- Of the flags it is handed, the operation looks at none but the carry. -/
def NeedsOnlyCarry (op : Flags → α → α → α × Flags) : Prop :=
  ∀ {flags other : Flags}, flags.get .carry = other.get .carry → ∀ a b,
    (op flags a b).1 = (op other a b).1
      ∧ (op flags a b).2.get .carry = (op other a b).2.get .carry

/-- What is done on the way changes neither the digits nor the carry. -/
theorem interleaved_along (hop : NeedsOnlyCarry op) (steps : List (Step α)) :
    ∀ {flags other : Flags}, flags.get .carry = other.get .carry →
      (interleaved op flags steps).1 = (along op other (steps.filterMap Step.digits?)).1
        ∧ (interleaved op flags steps).2.get .carry
          = (along op other (steps.filterMap Step.digits?)).2.get .carry := by
  induction steps with
  | nil => exact fun hcarry => ⟨rfl, hcarry⟩
  | cons step steps ih =>
      intro flags other hcarry
      cases step with
      | place a b =>
          obtain ⟨hdigit, hcarry⟩ := hop hcarry a b
          obtain ⟨hdigits, hlast⟩ := ih hcarry
          refine ⟨?_, hlast⟩
          show (op flags a b).1 :: _ = (op other a b).1 :: _
          rw [hdigit, hdigits]
      | aside aside => exact ih ((aside.get_carry_flags flags).trans hcarry)

end

/-! ## Limbs -/

/-- A sum that is out of range is short of one carry, and a difference has one too many. -/
theorem Computes.carries {before : Flags} {width : Width} {exact : Reading → Int}
    {outcome : UInt16 × Flags} (h : Computes before width exact outcome) {sign : Int}
    (hsign : sign = 1 ∧ 0 ≤ exact .unsigned ∧ exact .unsigned < 2 * modulus width
      ∨ sign = -1 ∧ -modulus width ≤ exact .unsigned ∧ exact .unsigned < modulus width) :
    outcome.1.toNat < modulus width
      ∧ (outcome.1.toNat : Int) + sign * (modulus width * (outcome.2.get .carry).toNat)
        = exact .unsigned := by
  have hresult := natCast_residue width exact
  rw [← h.result] at hresult
  obtain ⟨hbound, hwraps⟩ := eq_of_wraps hresult (by omega) (by omega)
  refine ⟨hbound, ?_⟩
  have hcarry := h.carry
  simp only [Reading.Fits] at hcarry
  cases hflag : outcome.2.get .carry with
  | false =>
      rw [hflag] at hcarry
      have hfits := not_not.mp (mt hcarry.mpr Bool.false_ne_true)
      rw [Bool.toNat_false, Int.natCast_zero, Int.mul_zero, Int.mul_zero]
      omega
  | true =>
      have hout := hcarry.mp hflag
      rw [Bool.toNat_true, Int.natCast_one, Int.mul_one]
      rcases hsign with ⟨rfl, hsign⟩ | ⟨rfl, hsign⟩
      · omega
      · omega

/-- What counts of an operand as a limb. -/
def limb (width : Width) (operand : UInt16) : Nat :=
  operand.toNat % modulus width

theorem limb_lt (width : Width) (operand : UInt16) : limb width operand < modulus width :=
  Nat.mod_lt _ (modulus_pos width)

section

variable (flags : Flags) (width : Width) (a b : UInt16)

/-- A limb of a sum, and what is carried. -/
theorem adc_carries :
    (adc flags width a b).1.toNat < modulus width
      ∧ ((adc flags width a b).1.toNat : Int)
          + 1 * (modulus width * ((adc flags width a b).2.get .carry).toNat)
        = limb width a + 1 * (limb width b + (flags.get .carry).toNat) := by
  have ha := limb_lt width a
  have hb := limb_lt width b
  have hcarry := (flags.get .carry).toNat_le
  have hexact : exactSum width a b (flags.get .carry) .unsigned
      = limb width a + 1 * (limb width b + (flags.get .carry).toNat) := by
    show (limb width a : Int) + limb width b + (flags.get .carry).toNat = _
    omega
  rw [← hexact]
  refine (addCarry_computes flags width a b (flags.get .carry)).carries (.inl ⟨rfl, ?_⟩)
  omega

/-- A limb of a difference, and what is borrowed. -/
theorem sbb_carries :
    (sbb flags width a b).1.toNat < modulus width
      ∧ ((sbb flags width a b).1.toNat : Int)
          + -1 * (modulus width * ((sbb flags width a b).2.get .carry).toNat)
        = limb width a + -1 * (limb width b + (flags.get .carry).toNat) := by
  have ha := limb_lt width a
  have hb := limb_lt width b
  have hcarry := (flags.get .carry).toNat_le
  have hexact : exactDifference width a b (flags.get .carry) .unsigned
      = limb width a + -1 * (limb width b + (flags.get .carry).toNat) := by
    show (limb width a : Int) - limb width b - (flags.get .carry).toNat = _
    omega
  rw [← hexact]
  refine (subBorrow_computes flags width a b (flags.get .carry)).carries (.inr ⟨rfl, ?_⟩)
  omega

end

/-- An operation on limbs carries on if its results are exact and have no other bits. -/
theorem carriesOn_of_carries {sign : Int} {width : Width}
    {op : Flags → UInt16 → UInt16 → UInt16 × Flags} (hunit : sign = 1 ∨ sign = -1)
    (h : ∀ flags a b, (op flags a b).1.toNat < modulus width
      ∧ ((op flags a b).1.toNat : Int)
          + sign * (modulus width * ((op flags a b).2.get .carry).toNat)
        = limb width a + sign * (limb width b + (flags.get .carry).toNat)) :
    CarriesOn sign (modulus width) (fun _ => True) (limb width) op := by
  refine ⟨hunit, fun _ => limb_lt width _, fun _ _ _ => trivial, ?_⟩
  intro a b _ _ flags
  obtain ⟨hbound, hexact⟩ := h flags a b
  rw [limb, Nat.mod_eq_of_lt hbound]
  exact hexact

/-- Results without other bits are their limbs. -/
theorem numeral_limb {width : Width} {operands : List UInt16}
    (h : ∀ operand ∈ operands, operand.toNat < modulus width) :
    numeral (modulus width) (limb width) operands = numeral (modulus width) UInt16.toNat operands :=
  congrArg (Nat.ofDigits _)
    (List.map_congr_left fun operand hmem => Nat.mod_eq_of_lt (h operand hmem))

theorem adc_needsOnlyCarry (width : Width) : NeedsOnlyCarry (adc · width) := by
  intro flags other hcarry a b
  show (addCarry flags width a b (flags.get .carry)).1
      = (addCarry other width a b (other.get .carry)).1
    ∧ (addCarry flags width a b (flags.get .carry)).2.get .carry
      = (addCarry other width a b (other.get .carry)).2.get .carry
  rw [hcarry]
  exact ⟨rfl, by simp [addCarry]⟩

theorem sbb_needsOnlyCarry (width : Width) : NeedsOnlyCarry (sbb · width) := by
  intro flags other hcarry a b
  show (subBorrow flags width a b (flags.get .carry)).1
      = (subBorrow other width a b (other.get .carry)).1
    ∧ (subBorrow flags width a b (flags.get .carry)).2.get .carry
      = (subBorrow other width a b (other.get .carry)).2.get .carry
  rw [hcarry]
  exact ⟨rfl, by simp [subBorrow]⟩

/-- Sums and differences of numbers with the same number of limbs are exact, from any flags on:
    the limbs, which have no other bits, are those of the result modulo the numbers there are, and
    the carry says that the sum is too great or the difference below zero.  That some value is
    counted or complemented between the limbs makes no difference. -/
theorem limbs_exact (flags : Flags) (width : Width) (steps : List (Step UInt16)) :
    let places := steps.filterMap Step.digits?
    let a := numeral (modulus width) (limb width) (places.map Prod.fst)
    let b := numeral (modulus width) (limb width) (places.map Prod.snd)
    let carry := (flags.get .carry).toNat
    let sum := along (adc · width) flags places
    let difference := along (sbb · width) flags places
    (sum.1.length = places.length ∧ (∀ limb ∈ sum.1, limb.toNat < modulus width)
        ∧ numeral (modulus width) UInt16.toNat sum.1 = (a + b + carry) % modulus width ^ places.length
        ∧ (sum.2.get .carry = true ↔ modulus width ^ places.length ≤ a + b + carry))
      ∧ (difference.1.length = places.length ∧ (∀ limb ∈ difference.1, limb.toNat < modulus width)
        ∧ (numeral (modulus width) UInt16.toNat difference.1 : Int)
          = (a - b - carry) % (modulus width ^ places.length : Nat)
        ∧ (difference.2.get .carry = true ↔ a < b + carry))
      ∧ ((interleaved (adc · width) flags steps).1 = sum.1
        ∧ (interleaved (adc · width) flags steps).2.get .carry = sum.2.get .carry)
      ∧ ((interleaved (sbb · width) flags steps).1 = difference.1
        ∧ (interleaved (sbb · width) flags steps).2.get .carry = difference.2.get .carry) := by
  intro places a b carry sum difference
  have hadds : CarriesOn 1 (modulus width) (fun _ => True) (limb width) (adc · width) :=
    carriesOn_of_carries (.inl rfl) fun flags a b => adc_carries flags width a b
  have hsubtracts : CarriesOn (-1) (modulus width) (fun _ => True) (limb width) (sbb · width) :=
    carriesOn_of_carries (.inr rfl) fun flags a b => sbb_carries flags width a b
  have hvalid : ∀ place ∈ places, True ∧ True := fun _ _ => ⟨trivial, trivial⟩
  obtain ⟨hlength, -⟩ := hadds.along_exact hvalid flags
  obtain ⟨hlength', -⟩ := hsubtracts.along_exact hvalid flags
  obtain ⟨hsum, hcarry⟩ := hadds.sum_exact hvalid flags
  obtain ⟨hdifference, hborrow⟩ := hsubtracts.difference_exact hvalid flags
  have hclean : ∀ limb ∈ sum.1, limb.toNat < modulus width :=
    forall_mem_along (fun flags a b => (adc_carries flags width a b).1) places flags
  have hclean' : ∀ limb ∈ difference.1, limb.toNat < modulus width :=
    forall_mem_along (fun flags a b => (sbb_carries flags width a b).1) places flags
  rw [numeral_limb hclean] at hsum
  rw [numeral_limb hclean'] at hdifference
  exact ⟨⟨hlength, hclean, hsum, hcarry⟩, ⟨hlength', hclean', hdifference, hborrow⟩,
    interleaved_along (adc_needsOnlyCarry width) steps rfl,
    interleaved_along (sbb_needsOnlyCarry width) steps rfl⟩

end Microprocessor.X86.Alu
