/-
This file models `src/libs/ntdll/_aulldvrm.asm`, the division of 64-bit numbers with remainder that
32-bit images import, line by line.

A divisor of more than 32 bits is shifted down until it has 32, and the dividend by as much. The
quotient of what is left is that of the numbers or one more: it is tried by multiplying it out, and
the product may exceed 64 bits by the carry that is checked.
-/

import Nloader.Library.I386

namespace Nloader.Aulldvrm

open I386

/-! ### The text -/

/-- The labels. -/
inductive Label where
  | l1
  | l2
  | l3
  | l4
  | l5
  deriving DecidableEq

/-- `DVNDLO`. -/
def dvndLo : Operand := .based .esp 8

/-- `DVNDHI`. -/
def dvndHi : Operand := .based .esp 12

/-- `DVSRLO`. -/
def dvsrLo : Operand := .based .esp 16

/-- `DVSRHI`. -/
def dvsrHi : Operand := .based .esp 20

/-- From `.L2` to the end. -/
def remainderText : List (Line Label) :=
  [.code (.sub .eax dvndLo),
    .code (.sbb .edx dvndHi),
    .code (.neg .edx),
    .code (.neg .eax),
    .code (.sbb .edx (.immediate 0)),
    .code (.mov .ecx (.register .edx)),
    .code (.mov .edx (.register .ebx)),
    .code (.mov .ebx (.register .ecx)),
    .code (.mov .ecx (.register .eax)),
    .code (.mov .eax (.register .esi)),
    .code (.pop .esi),
    .code (.ret 16)]

/-- From `.L5` on. -/
def keepText : List (Line Label) :=
  .code (.xor .ebx (.register .ebx)) :: .label .l2 :: remainderText

/-- From `.L4` on. -/
def correctText : List (Line Label) :=
  [.code (.dec .esi),
    .code (.sub .eax dvsrLo),
    .code (.sbb .edx dvsrHi),
    .label .l5] ++ keepText

/-- What follows the loop. -/
def tryText : List (Line Label) :=
  [.code (.div (.register .ebx)),
    .code (.mov .esi (.register .eax)),
    .code (.mul dvsrHi),
    .code (.mov .ecx (.register .eax)),
    .code (.mov .eax dvsrLo),
    .code (.mul (.register .esi)),
    .code (.add .edx (.register .ecx)),
    .code (.jc .l4),
    .code (.cmp .edx dvndHi),
    .code (.ja .l4),
    .code (.jb .l5),
    .code (.cmp .eax dvndLo),
    .code (.jbe .l5),
    .label .l4] ++ correctText

/-- From `.L3` on: the loop. -/
def shiftText : List (Line Label) :=
  [.code (.shr .ecx),
    .code (.rcr .ebx),
    .code (.shr .edx),
    .code (.rcr .eax),
    .code (.or .ecx (.register .ecx)),
    .code (.jnz .l3)] ++ tryText

/-- From `.L1` on. -/
def longText : List (Line Label) :=
  [.code (.mov .ecx (.register .eax)),
    .code (.mov .ebx dvsrLo),
    .code (.mov .edx dvndHi),
    .code (.mov .eax dvndLo),
    .label .l3] ++ shiftText

/-- The way of a divisor of 32 bits. -/
def shortText : List (Line Label) :=
  [.code (.mov .ecx dvsrLo),
    .code (.mov .eax dvndHi),
    .code (.xor .edx (.register .edx)),
    .code (.div (.register .ecx)),
    .code (.mov .ebx (.register .eax)),
    .code (.mov .eax dvndLo),
    .code (.div (.register .ecx)),
    .code (.mov .esi (.register .eax)),
    .code (.mov .eax (.register .ebx)),
    .code (.mul dvsrLo),
    .code (.mov .ecx (.register .eax)),
    .code (.mov .eax (.register .esi)),
    .code (.mul dvsrLo),
    .code (.add .edx (.register .ecx)),
    .code (.jmp .l2),
    .label .l1] ++ longText

/-- `_aulldvrm`. -/
def aulldvrm : List (Line Label) :=
  [.code (.push .esi),
    .code (.mov .eax dvsrHi),
    .code (.or .eax (.register .eax)),
    .code (.jnz .l1)] ++ shortText

/-! ### The trial quotient -/

/-- The quotient of what is left of the numbers, when as many bits of both are left out as the
divisor has too many. -/
structure Trial (a b d shift : Nat) : Prop where
  dividend : a < 2 ^ 64
  divisor : b < 2 ^ 64
  shifted : b / 2 ^ shift = d
  normal : 2 ^ 31 ≤ d
  some : 1 ≤ shift

/-- What is left of the dividend, in units of what is left of the divisor. -/
theorem Trial.quotient_lt {a b d shift : Nat} (trial : Trial a b d shift) :
    a / 2 ^ shift / d * 2 ^ shift < 2 ^ 33 := by
  obtain ⟨dividend, _, _, normal, _⟩ := trial
  have product : a / 2 ^ shift / d * d ≤ a / 2 ^ shift := Nat.div_mul_le_self _ _
  have whole : a / 2 ^ shift * 2 ^ shift ≤ a := Nat.div_mul_le_self _ _
  generalize a / 2 ^ shift / d = q at product ⊢
  have chain : q * 2 ^ shift * 2 ^ 31 < 2 ^ 33 * 2 ^ 31 :=
    calc q * 2 ^ shift * 2 ^ 31 ≤ q * 2 ^ shift * d := Nat.mul_le_mul_left _ normal
      _ = q * d * 2 ^ shift := Nat.mul_right_comm _ _ _
      _ ≤ a / 2 ^ shift * 2 ^ shift := Nat.mul_le_mul_right _ product
      _ ≤ a := whole
      _ < 2 ^ 33 * 2 ^ 31 := dividend
  exact Nat.lt_of_mul_lt_mul_right chain

/-- The trial quotient fits into a word. -/
theorem Trial.quotient_lt_word {a b d shift : Nat} (trial : Trial a b d shift) :
    a / 2 ^ shift / d < 2 ^ 32 := by
  have bound := trial.quotient_lt
  have two : 2 ≤ 2 ^ shift := Nat.le_self_pow (Nat.pos_iff_ne_zero.mp trial.some) 2
  have doubled : a / 2 ^ shift / d * 2 ≤ a / 2 ^ shift / d * 2 ^ shift := Nat.mul_le_mul_left _ two
  omega

/-- The trial quotient is not too small. -/
theorem Trial.quotient_le {a b d shift : Nat} (trial : Trial a b d shift) :
    a / b ≤ a / 2 ^ shift / d := by
  have positive : 0 < d := Nat.lt_of_lt_of_le (by decide) trial.normal
  rw [Nat.le_div_iff_mul_le positive, Nat.le_div_iff_mul_le (Nat.two_pow_pos shift),
    ← trial.shifted, Nat.mul_assoc]
  exact (Nat.mul_le_mul_left _ (Nat.div_mul_le_self _ _)).trans (Nat.div_mul_le_self _ _)

/-- The trial quotient is one too large at most. -/
theorem Trial.le_quotient {a b d shift : Nat} (trial : Trial a b d shift) :
    (a / 2 ^ shift / d - 1) * b ≤ a := by
  have bound := trial.quotient_lt
  have two : 2 ≤ 2 ^ shift := Nat.le_self_pow (Nat.pos_iff_ne_zero.mp trial.some) 2
  have even : 2 ∣ 2 ^ shift := dvd_pow_self 2 (Nat.pos_iff_ne_zero.mp trial.some)
  have product : a / 2 ^ shift / d * d * 2 ^ shift ≤ a :=
    (Nat.mul_le_mul_right _ (Nat.div_mul_le_self _ _)).trans (Nat.div_mul_le_self _ _)
  have below : b < (d + 1) * 2 ^ shift := by
    rw [← trial.shifted, Nat.mul_comm]
    exact Nat.lt_mul_div_succ b (Nat.two_pow_pos shift)
  have normal : 2 ^ 31 * 2 ^ shift ≤ d * 2 ^ shift := Nat.mul_le_mul_right _ trial.normal
  generalize a / 2 ^ shift / d = quotient at bound product ⊢
  generalize 2 ^ shift = unit at bound two even product below normal
  cases quotient with
  | zero => simp
  | succ less =>
    rw [Nat.add_sub_cancel]
    -- what the bits that were left out of the divisor add to the product
    have rest : less * (unit - 1) ≤ d * unit := by
      by_cases small : unit = 2
      · subst small
        omega
      · have four : 4 ≤ unit := by omega
        have most : less * (unit - 1) ≤ (less + 1) * unit :=
          Nat.mul_le_mul (Nat.le_succ _) (Nat.sub_le _ _)
        omega
    calc less * b ≤ less * (d * unit + (unit - 1)) :=
          Nat.mul_le_mul_left _ (by rw [Nat.add_mul, Nat.one_mul] at below; omega)
      _ = less * d * unit + less * (unit - 1) := by rw [Nat.mul_add, Nat.mul_assoc]
      _ ≤ less * d * unit + d * unit := Nat.add_le_add_left rest _
      _ = (less + 1) * d * unit := by rw [Nat.add_mul less, Nat.one_mul, Nat.add_mul]
      _ ≤ a := product

/-- The trial quotient times the high word of the divisor fits into a word. -/
theorem Trial.product_lt {a d shift high low : Nat}
    (trial : Trial a (high * 2 ^ 32 + low) d shift) :
    a / 2 ^ shift / d * high < 2 ^ 32 := by
  have most : shift ≤ 32 := by
    have large : 2 ^ 31 * 2 ^ shift < 2 ^ 64 :=
      calc 2 ^ 31 * 2 ^ shift ≤ d * 2 ^ shift := Nat.mul_le_mul_right _ trial.normal
        _ ≤ high * 2 ^ 32 + low := by
            rw [← trial.shifted]
            exact Nat.div_mul_le_self _ _
        _ < 2 ^ 64 := trial.divisor
    rw [← Nat.pow_add] at large
    have exponents := (Nat.pow_lt_pow_iff_right (by decide)).mp large
    omega
  have word : 2 ^ (32 - shift) * 2 ^ shift = 2 ^ 32 := by
    rw [← Nat.pow_add, Nat.sub_add_cancel most]
  have top : high * 2 ^ (32 - shift) ≤ d := by
    rw [← trial.shifted, Nat.le_div_iff_mul_le (Nat.two_pow_pos shift), Nat.mul_assoc, word]
    exact Nat.le_add_right _ _
  have whole : a / 2 ^ shift / d * high * 2 ^ 32 ≤ a :=
    calc a / 2 ^ shift / d * high * 2 ^ 32
        = a / 2 ^ shift / d * (high * 2 ^ (32 - shift)) * 2 ^ shift := by
          rw [← word, Nat.mul_assoc, Nat.mul_assoc, Nat.mul_assoc]
      _ ≤ a / 2 ^ shift / d * d * 2 ^ shift :=
          Nat.mul_le_mul_right _ (Nat.mul_le_mul_left _ top)
      _ ≤ a := (Nat.mul_le_mul_right _ (Nat.div_mul_le_self _ _)).trans (Nat.div_mul_le_self _ _)
  have small : a < 2 ^ 32 * 2 ^ 32 := trial.dividend
  exact Nat.lt_of_mul_lt_mul_right (whole.trans_lt small)

/-! ### The blocks -/

/-- The operands of a call. -/
structure Operands where
  dividendHi : Word
  dividendLo : Word
  divisorHi : Word
  divisorLo : Word

/-- The dividend. -/
def Operands.a (operands : Operands) : BitVec 64 := double operands.dividendHi operands.dividendLo

/-- The divisor. -/
def Operands.b (operands : Operands) : BitVec 64 := double operands.divisorHi operands.divisorLo

/-- A machine in the function, called with the operands. -/
structure In (operands : Operands) (machine : Machine) : Prop where
  dvndHi : machine.value dvndHi = operands.dividendHi
  dvndLo : machine.value dvndLo = operands.dividendLo
  dvsrHi : machine.value dvsrHi = operands.divisorHi
  dvsrLo : machine.value dvsrLo = operands.divisorLo

/-- What the function keeps, between its first line and its last two. -/
structure Kept (first second : Machine) : Prop where
  esp : second.esp = first.esp
  ebp : second.ebp = first.ebp
  edi : second.edi = first.edi
  memory : second.memory = first.memory

theorem Kept.trans {first second third : Machine} (before : Kept first second)
    (behind : Kept second third) : Kept first third :=
  ⟨behind.esp.trans before.esp, behind.ebp.trans before.ebp, behind.edi.trans before.edi,
    behind.memory.trans before.memory⟩

theorem Kept.value_based {first second : Machine} (kept : Kept first second) (offset : Word) :
    second.value (.based .esp offset) = first.value (.based .esp offset) := by
  change load second.memory (second.esp + offset) = load first.memory (first.esp + offset)
  rw [kept.esp, kept.memory]

theorem In.of_kept {operands : Operands} {first second : Machine} (holds : In operands first)
    (kept : Kept first second) : In operands second :=
  ⟨(kept.value_based _).trans holds.dvndHi, (kept.value_based _).trans holds.dvndLo,
    (kept.value_based _).trans holds.dvsrHi, (kept.value_based _).trans holds.dvsrLo⟩

/-- What the function leaves, given the machine at `.L2` and the two results. -/
structure Left (machine : Machine) (quotient remainder : BitVec 64) (final : Machine) : Prop where
  quotient : double final.edx final.eax = quotient
  remainder : double final.ebx final.ecx = remainder
  esi : final.esi = load machine.memory machine.esp
  esp : final.esp = machine.esp + 4 + 4 + 16
  ebp : final.ebp = machine.ebp
  edi : final.edi = machine.edi
  memory : final.memory = machine.memory

theorem Left.of_kept {first second final : Machine} {quotient remainder : BitVec 64}
    (kept : Kept first second) (left : Left second quotient remainder final) :
    Left first quotient remainder final where
  quotient := left.quotient
  remainder := left.remainder
  esi := by rw [left.esi, kept.memory, kept.esp]
  esp := by rw [left.esp, kept.esp]
  ebp := left.ebp.trans kept.ebp
  edi := left.edi.trans kept.edi
  memory := left.memory.trans kept.memory

/-- From `.L2` on: the product that was computed is taken from the dividend. -/
theorem leads_remainder {operands : Operands} {machine : Machine} (holds : In operands machine) :
    ∃ final, Leads aulldvrm (.running remainderText machine)
        (.returned (load machine.memory (machine.esp + 4)) final) ∧
      Left machine (double machine.ebx machine.esi)
        (operands.a - double machine.edx machine.eax) final := by
  let low := machine.eax - machine.value dvndLo
  let high := machine.edx - machine.value dvndHi -
    .ofNat 32 (decide (machine.eax < machine.value dvndLo)).toNat
  let difference : Machine :=
    { machine with
      eax := low
      edx := high
      carry := some (decide (machine.edx.toNat < (machine.value dvndHi).toNat +
        (decide (machine.eax < machine.value dvndLo)).toNat))
      zero := some (decide (high = 0)) }
  let high' := -high - 0 - .ofNat 32 (decide (low ≠ 0)).toNat
  let negated : Machine :=
    { difference with
      eax := -low
      edx := high'
      carry := some (decide ((-high).toNat < (0 : Word).toNat + (decide (low ≠ 0)).toNat))
      zero := some (decide (high' = 0)) }
  let final : Machine :=
    { negated with
      eax := machine.esi
      ecx := -low
      edx := machine.ebx
      ebx := high'
      esp := machine.esp + 4 + 4 + 16
      esi := load machine.memory machine.esp }
  have subtract : steps aulldvrm 2 (.running remainderText machine) =
      some (.running (remainderText.drop 2) difference) := rfl
  have negate : steps aulldvrm 3 (.running (remainderText.drop 2) difference) =
      some (.running (remainderText.drop 5) negated) := rfl
  have leave : steps aulldvrm 7 (.running (remainderText.drop 5) negated) =
      some (.returned (load machine.memory (machine.esp + 4)) final) := rfl
  have opposite : double high' (-low) = -double high low := double_neg high low
  have result : double high low = double machine.edx machine.eax - operands.a := by
    rw [Operands.a, ← holds.dvndHi, ← holds.dvndLo]
    exact double_sub _ _ _ _
  have remainder : double high' (-low) = operands.a - double machine.edx machine.eax := by
    rw [opposite, result, BitVec.neg_sub, BitVec.add_comm, ← BitVec.sub_eq_add_neg]
  exact ⟨final, (Leads.of_steps 2 subtract).trans ((Leads.of_steps 3 negate).trans
    (.of_steps 7 leave)), rfl, remainder, rfl, rfl, rfl, rfl, rfl⟩

/-- From `.L5` on: the high word of the quotient is nothing. -/
theorem leads_keep {operands : Operands} {machine : Machine} (holds : In operands machine) :
    ∃ final, Leads aulldvrm (.running keepText machine)
        (.returned (load machine.memory (machine.esp + 4)) final) ∧
      Left machine (double 0 machine.esi) (operands.a - double machine.edx machine.eax) final := by
  let cleared : Machine :=
    { machine with
      ebx := machine.ebx ^^^ machine.ebx
      carry := some false
      zero := some (decide (machine.ebx ^^^ machine.ebx = 0)) }
  have clear : steps aulldvrm 2 (.running keepText machine) =
      some (.running remainderText cleared) := rfl
  have kept : Kept machine cleared := ⟨rfl, rfl, rfl, rfl⟩
  have none : cleared.ebx = 0 := BitVec.xor_self
  obtain ⟨final, leads, left⟩ := leads_remainder (holds.of_kept kept)
  rw [none] at left
  exact ⟨final, (Leads.of_steps 2 clear).trans leads, left.of_kept kept⟩

/-- From `.L4` on: the quotient was one too large. -/
theorem leads_correct {operands : Operands} {machine : Machine} (holds : In operands machine) :
    ∃ final, Leads aulldvrm (.running correctText machine)
        (.returned (load machine.memory (machine.esp + 4)) final) ∧
      Left machine (double 0 (machine.esi - 1))
        (operands.a - (double machine.edx machine.eax - operands.b)) final := by
  let low := machine.eax - machine.value dvsrLo
  let high := machine.edx - machine.value dvsrHi -
    .ofNat 32 (decide (machine.eax < machine.value dvsrLo)).toNat
  let corrected : Machine :=
    { machine with
      eax := low
      edx := high
      esi := machine.esi - 1
      carry := some (decide (machine.edx.toNat < (machine.value dvsrHi).toNat +
        (decide (machine.eax < machine.value dvsrLo)).toNat))
      zero := some (decide (high = 0)) }
  have correct : steps aulldvrm 4 (.running correctText machine) =
      some (.running keepText corrected) := rfl
  have kept : Kept machine corrected := ⟨rfl, rfl, rfl, rfl⟩
  have result : double corrected.edx corrected.eax =
      double machine.edx machine.eax - operands.b := by
    rw [Operands.b, ← holds.dvsrHi, ← holds.dvsrLo]
    exact double_sub _ _ _ _
  obtain ⟨final, leads, left⟩ := leads_keep (holds.of_kept kept)
  rw [result] at left
  exact ⟨final, (Leads.of_steps 4 correct).trans leads, left.of_kept kept⟩

/-- A word times a number of two words, as the two products are added. -/
theorem product_eq (quotient high low : Nat) :
    (low * quotient / 2 ^ 32 + quotient * high) % 2 ^ 32 * 2 ^ 32 + low * quotient % 2 ^ 32 =
      quotient * (high * 2 ^ 32 + low) % 2 ^ 64 ∧
    (2 ^ 32 ≤ low * quotient / 2 ^ 32 + quotient * high ↔
      2 ^ 64 ≤ quotient * (high * 2 ^ 32 + low)) := by
  have whole : quotient * (high * 2 ^ 32 + low) =
      quotient * high * 2 ^ 32 + low * quotient := by
    rw [Nat.mul_add, Nat.mul_assoc, Nat.mul_comm low]
  rw [whole]
  generalize quotient * high = upper at *
  generalize low * quotient = lower at *
  omega

/-- The product is compared with the dividend. -/
theorem leads_compare {operands : Operands} {machine : Machine} (holds : In operands machine)
    {overflow : Bool} (carry : machine.carry = some overflow) :
    ∃ compared, Leads aulldvrm (.running (tryText.drop 7) machine)
        (.running (if overflow ∨ operands.a.toNat < (double machine.edx machine.eax).toNat
          then correctText else keepText) compared) ∧
      Kept machine compared ∧ compared.esi = machine.esi ∧
      double compared.edx compared.eax = double machine.edx machine.eax := by
  rw [Operands.a, ← holds.dvndHi, ← holds.dvndLo, toNat_double, toNat_double]
  have jump : step aulldvrm (.running (tryText.drop 7) machine) =
      some (.running (if overflow then correctText else tryText.drop 8) machine) := step_jc carry
  have bound := machine.eax.isLt
  have bound' := (machine.value dvndLo).isLt
  cases overflow with
  | true =>
    rw [if_pos (.inl rfl)]
    exact ⟨machine, .step jump (.refl _ _), ⟨rfl, rfl, rfl, rfl⟩, rfl, rfl⟩
  | false =>
    let high : Machine :=
      { machine with
        carry := some (decide (machine.edx < machine.value dvndHi))
        zero := some (decide (machine.edx = machine.value dvndHi)) }
    have first : step aulldvrm (.running (tryText.drop 8) machine) =
        some (.running (tryText.drop 9) high) := rfl
    have above : step aulldvrm (.running (tryText.drop 9) high) =
        some (.running (if decide (machine.edx.toNat ≤ (machine.value dvndHi).toNat)
          then tryText.drop 10 else correctText) high) := by
      rw [← below_or_same]
      exact step_ja rfl rfl
    have below : step aulldvrm (.running (tryText.drop 10) high) =
        some (.running (if decide (machine.edx.toNat < (machine.value dvndHi).toNat)
          then keepText else tryText.drop 11) high) := step_jb rfl
    let low : Machine :=
      { machine with
        carry := some (decide (machine.eax < machine.value dvndLo))
        zero := some (decide (machine.eax = machine.value dvndLo)) }
    have second : step aulldvrm (.running (tryText.drop 11) high) =
        some (.running (tryText.drop 12) low) := rfl
    have notAbove : step aulldvrm (.running (tryText.drop 12) low) =
        some (.running (if decide (machine.eax.toNat ≤ (machine.value dvndLo).toNat)
          then keepText else tryText.drop 13) low) := by
      rw [← below_or_same]
      exact step_jbe rfl rfl
    have fall : step aulldvrm (.running (tryText.drop 13) low) =
        some (.running correctText low) := rfl
    rcases lt_trichotomy machine.edx.toNat (machine.value dvndHi).toNat with less | same | more
    · rw [decide_eq_true (Nat.le_of_lt less)] at above
      rw [decide_eq_true less] at below
      rw [if_neg (by simp; omega)]
      exact ⟨high, .step jump (.step first (.step above (.step below (.refl _ _)))),
        ⟨rfl, rfl, rfl, rfl⟩, rfl, rfl⟩
    · rw [decide_eq_true (Nat.le_of_eq same)] at above
      rw [decide_eq_false (Nat.not_lt_of_ge (Nat.le_of_eq same.symm))] at below
      by_cases most : machine.eax.toNat ≤ (machine.value dvndLo).toNat
      · rw [decide_eq_true most] at notAbove
        rw [if_neg (by simp; omega)]
        exact ⟨low, .step jump (.step first (.step above (.step below (.step second
          (.step notAbove (.refl _ _)))))), ⟨rfl, rfl, rfl, rfl⟩, rfl, rfl⟩
      · rw [decide_eq_false most] at notAbove
        rw [if_pos (.inr (by omega))]
        exact ⟨low, .step jump (.step first (.step above (.step below (.step second
          (.step notAbove (.step fall (.refl _ _))))))), ⟨rfl, rfl, rfl, rfl⟩, rfl, rfl⟩
    · rw [decide_eq_false (Nat.not_le_of_lt more)] at above
      rw [if_pos (.inr (by omega))]
      exact ⟨high, .step jump (.step first (.step above (.refl _ _))), ⟨rfl, rfl, rfl, rfl⟩, rfl,
        rfl⟩

/-- The trial quotient is the quotient where its product is not larger than the dividend, and else
one more. -/
theorem Trial.quotient_eq {a b d shift : Nat} (trial : Trial a b d shift) :
    (a / 2 ^ shift / d * b ≤ a → a / 2 ^ shift / d = a / b) ∧
      (a < a / 2 ^ shift / d * b → a / 2 ^ shift / d = a / b + 1) := by
  have positive : 0 < b := by
    have normal := trial.normal
    refine Nat.pos_of_ne_zero fun none => ?_
    have nothing := trial.shifted
    rw [none, Nat.zero_div] at nothing
    omega
  have least := trial.quotient_le
  have most : a / 2 ^ shift / d - 1 ≤ a / b :=
    (Nat.le_div_iff_mul_le positive).mpr trial.le_quotient
  refine ⟨fun small => ?_, fun large => ?_⟩
  · exact Nat.le_antisymm ((Nat.le_div_iff_mul_le positive).mpr small) least
  · have more : a / b < a / 2 ^ shift / d := (Nat.div_lt_iff_lt_mul positive).mpr large
    omega

/-- The divisor is taken from a product that is one divisor too large. -/
theorem sub_whole (product : Nat) (b : BitVec 64) :
    BitVec.ofNat 64 (product + b.toNat) - b = BitVec.ofNat 64 product := by
  rw [BitVec.ofNat_add, BitVec.ofNat_toNat, BitVec.setWidth_eq, BitVec.add_sub_cancel]

/-- The dividend without the multiple of the divisor is the remainder. -/
theorem sub_product (a b : BitVec 64) :
    a - BitVec.ofNat 64 (a.toNat / b.toNat * b.toNat) = BitVec.ofNat 64 (a.toNat % b.toNat) := by
  have parts : BitVec.ofNat 64 (a.toNat % b.toNat + a.toNat / b.toNat * b.toNat) = a := by
    rw [Nat.mul_comm, Nat.mod_add_div, BitVec.ofNat_toNat, BitVec.setWidth_eq]
  nth_rewrite 1 [← parts]
  rw [BitVec.ofNat_add, BitVec.add_sub_cancel]

theorem double_zero {low : Word} {value : Nat} (same : low.toNat = value) :
    double 0 low = BitVec.ofNat 64 value := by
  subst same
  refine BitVec.eq_of_toNat_eq ?_
  rw [toNat_double_zero, BitVec.toNat_ofNat]
  exact (Nat.mod_eq_of_lt (low.isLt.trans (by decide))).symm

theorem double_pred {low : Word} {value : Nat} (more : low.toNat = value + 1) :
    double 0 (low - 1) = BitVec.ofNat 64 value := by
  refine double_zero ?_
  bv_omega

/-- Behind the loop: the trial quotient is multiplied out, and tried. -/
theorem leads_try {operands : Operands} {machine : Machine} (holds : In operands machine)
    {d shift : Nat} (trial : Trial operands.a.toNat operands.b.toNat d shift)
    (divisor : machine.ebx.toNat = d)
    (dividend : (double machine.edx machine.eax).toNat = operands.a.toNat / 2 ^ shift) :
    ∃ final, Leads aulldvrm (.running tryText machine)
        (.returned (load machine.memory (machine.esp + 4)) final) ∧
      Left machine (BitVec.ofNat 64 (operands.a.toNat / operands.b.toNat))
        (BitVec.ofNat 64 (operands.a.toNat % operands.b.toNat)) final := by
  have fits := trial.quotient_lt_word
  have quotient : (double machine.edx machine.eax).toNat / machine.ebx.toNat =
      operands.a.toNat / 2 ^ shift / d := by
    rw [dividend, divisor]
  have positive : (machine.value (.register .ebx)).toNat ≠ 0 := by
    change machine.ebx.toNat ≠ 0
    have normal := trial.normal
    omega
  have divide : step aulldvrm (.running tryText machine) =
      some (.running (tryText.drop 1) (machine.divided (.register .ebx))) :=
    step_div positive (quotient.trans_lt fits)
  let divided := machine.divided (.register .ebx)
  have word : divided.eax.toNat = operands.a.toNat / 2 ^ shift / d := by
    change (BitVec.ofNat 32 ((double machine.edx machine.eax).toNat / machine.ebx.toNat)).toNat = _
    rw [quotient, BitVec.toNat_ofNat, Nat.mod_eq_of_lt fits]
  have keptDivided : Kept machine divided := ⟨rfl, rfl, rfl, rfl⟩
  let high := (BitVec.ofNat 32 (divided.eax.toNat * (divided.value dvsrHi).toNat) : Word)
  let low := (divided.value dvsrLo).toNat * divided.eax.toNat
  let product : Machine :=
    { divided with
      eax := BitVec.ofNat 32 low
      ecx := high
      edx := BitVec.ofNat 32 (low / 2 ^ 32) + high
      esi := divided.eax
      carry := some (decide (2 ^ 32 ≤ (BitVec.ofNat 32 (low / 2 ^ 32)).toNat + high.toNat))
      zero := some (decide (BitVec.ofNat 32 (low / 2 ^ 32) + high = 0)) }
  have multiply : steps aulldvrm 6 (.running (tryText.drop 1) divided) =
      some (.running (tryText.drop 7) product) := rfl
  have kept : Kept machine product := ⟨rfl, rfl, rfl, rfl⟩
  have holds' := holds.of_kept kept
  have upper : high.toNat = operands.a.toNat / 2 ^ shift / d * operands.divisorHi.toNat := by
    have small : operands.a.toNat / 2 ^ shift / d * operands.divisorHi.toNat < 2 ^ 32 := by
      rw [Operands.b, toNat_double] at trial
      exact trial.product_lt
    change (BitVec.ofNat 32 _).toNat = _
    rw [BitVec.toNat_ofNat, word, (holds.of_kept keptDivided).dvsrHi, Nat.mod_eq_of_lt small]
  have lower : low = operands.divisorLo.toNat * (operands.a.toNat / 2 ^ shift / d) := by
    change (divided.value dvsrLo).toNat * divided.eax.toNat = _
    rw [word, (holds.of_kept keptDivided).dvsrLo]
  have lowFits : low / 2 ^ 32 < 2 ^ 32 := by
    rw [Nat.div_lt_iff_lt_mul (by decide)]
    exact Nat.mul_lt_mul'' (divided.value dvsrLo).isLt divided.eax.isLt
  have divisorWords : operands.b.toNat =
      operands.divisorHi.toNat * 2 ^ 32 + operands.divisorLo.toNat := toNat_double _ _
  obtain ⟨value, overflow⟩ := product_eq (operands.a.toNat / 2 ^ shift / d)
    operands.divisorHi.toNat operands.divisorLo.toNat
  rw [← divisorWords, ← upper, ← lower] at value overflow
  have productValue : (double product.edx product.eax).toNat =
      operands.a.toNat / 2 ^ shift / d * operands.b.toNat % 2 ^ 64 := by
    rw [toNat_double, ← value]
    change (BitVec.ofNat 32 (low / 2 ^ 32) + high).toNat * _ + (BitVec.ofNat 32 low).toNat = _
    rw [BitVec.toNat_add, BitVec.toNat_ofNat, BitVec.toNat_ofNat, Nat.mod_eq_of_lt lowFits,
      BitVec.toNat_ofNat]
  have carry : product.carry =
      some (decide (2 ^ 64 ≤ operands.a.toNat / 2 ^ shift / d * operands.b.toNat)) := by
    change some (decide (2 ^ 32 ≤ (BitVec.ofNat 32 (low / 2 ^ 32)).toNat + high.toNat)) = _
    rw [BitVec.toNat_ofNat, Nat.mod_eq_of_lt lowFits]
    exact congrArg some (decide_eq_decide.mpr overflow)
  obtain ⟨compared, leads, keptCompared, esi, edx⟩ := leads_compare holds' carry
  have start : Leads aulldvrm (.running tryText machine) (.running (tryText.drop 7) product) :=
    .step divide (.of_steps 6 multiply)
  have tooLarge : (decide (2 ^ 64 ≤ operands.a.toNat / 2 ^ shift / d * operands.b.toNat) ∨
      operands.a.toNat < (double product.edx product.eax).toNat) ↔
      operands.a.toNat < operands.a.toNat / 2 ^ shift / d * operands.b.toNat := by
    have bound := operands.a.isLt
    rw [productValue, decide_eq_true_iff]
    generalize operands.a.toNat / 2 ^ shift / d * operands.b.toNat = whole
    omega
  have keptAll : Kept machine compared := kept.trans keptCompared
  have tried : double compared.edx compared.eax =
      BitVec.ofNat 64 (operands.a.toNat / 2 ^ shift / d * operands.b.toNat) := by
    refine BitVec.eq_of_toNat_eq ?_
    rw [edx, productValue, BitVec.toNat_ofNat]
  have taken : compared.esi.toNat = operands.a.toNat / 2 ^ shift / d := by
    rw [esi]
    exact word
  by_cases large : operands.a.toNat < operands.a.toNat / 2 ^ shift / d * operands.b.toNat
  · have oneMore := trial.quotient_eq.2 large
    rw [if_pos (tooLarge.mpr large)] at leads
    obtain ⟨final, finish, left⟩ := leads_correct (holds.of_kept keptAll)
    rw [keptAll.memory, keptAll.esp] at finish
    rw [tried, oneMore, Nat.add_mul, Nat.one_mul, sub_whole, sub_product,
      double_pred (taken.trans oneMore)] at left
    exact ⟨final, start.trans (leads.trans finish), left.of_kept keptAll⟩
  · have exactly := trial.quotient_eq.1 (Nat.le_of_not_lt large)
    rw [if_neg (mt tooLarge.mp large)] at leads
    obtain ⟨final, finish, left⟩ := leads_keep (holds.of_kept keptAll)
    rw [keptAll.memory, keptAll.esp] at finish
    rw [tried, exactly, sub_product, double_zero (taken.trans exactly)] at left
    exact ⟨final, start.trans (leads.trans finish), left.of_kept keptAll⟩

/-- The loop: the numbers are shifted until the divisor has 32 bits. -/
theorem leads_shift {operands : Operands} {machine : Machine} (holds : In operands machine)
    {shift : Nat} (divisor : double machine.ecx machine.ebx = operands.b >>> shift)
    (dividend : double machine.edx machine.eax = operands.a >>> shift) (long : machine.ecx ≠ 0) :
    ∃ shifted more, Leads aulldvrm (.running shiftText machine) (.running tryText shifted) ∧
      Kept machine shifted ∧
      Trial operands.a.toNat operands.b.toNat shifted.ebx.toNat more ∧
      (double shifted.edx shifted.eax).toNat = operands.a.toNat / 2 ^ more := by
  -- the high word of the divisor becomes smaller in each round
  induction size : machine.ecx.toNat using Nat.strong_induction_on generalizing machine shift with
  | _ size inductionHypothesis =>
    let next : Machine :=
      { machine with
        eax := machine.eax >>> 1 ||| (BitVec.ofBool (machine.edx.getLsbD 0)).setWidth 32 <<< 31
        ecx := machine.ecx >>> 1 ||| machine.ecx >>> 1
        edx := machine.edx >>> 1
        ebx := machine.ebx >>> 1 ||| (BitVec.ofBool (machine.ecx.getLsbD 0)).setWidth 32 <<< 31
        carry := some false
        zero := some (decide (machine.ecx >>> 1 ||| machine.ecx >>> 1 = 0)) }
    have round : steps aulldvrm 5 (.running shiftText machine) =
        some (.running (shiftText.drop 5) next) := rfl
    have jump : step aulldvrm (.running (shiftText.drop 5) next) =
        some (.running (if decide (machine.ecx >>> 1 ||| machine.ecx >>> 1 = 0)
          then tryText else shiftText) next) := step_jnz rfl
    have kept : Kept machine next := ⟨rfl, rfl, rfl, rfl⟩
    have ecx : next.ecx = machine.ecx >>> 1 := BitVec.or_self
    have divisor' : double next.ecx next.ebx = operands.b >>> (shift + 1) := by
      rw [ecx, BitVec.shiftRight_add, ← divisor]
      exact double_shr _ _
    have dividend' : double next.edx next.eax = operands.a >>> (shift + 1) := by
      rw [BitVec.shiftRight_add, ← dividend]
      exact double_shr _ _
    have positive : machine.ecx.toNat ≠ 0 := fun none => long (BitVec.eq_of_toNat_eq none)
    have half : next.ecx.toNat = machine.ecx.toNat / 2 := by
      rw [ecx, BitVec.toNat_ushiftRight, Nat.shiftRight_one]
    by_cases done : next.ecx = 0
    · rw [decide_eq_true (show machine.ecx >>> 1 ||| machine.ecx >>> 1 = 0 from done)] at jump
      refine ⟨next, shift + 1, (Leads.of_steps 5 round).trans (.step jump (.refl _ _)), kept, ?_,
        ?_⟩
      · have value := congrArg BitVec.toNat divisor
        have value' := congrArg BitVec.toNat divisor'
        rw [toNat_double, BitVec.toNat_ushiftRight, Nat.shiftRight_eq_div_pow] at value value'
        have halved : operands.b.toNat / 2 ^ (shift + 1) = operands.b.toNat / 2 ^ shift / 2 := by
          rw [Nat.pow_succ, Nat.div_div_eq_div_mul]
        have none : next.ecx.toNat = 0 := congrArg BitVec.toNat done
        refine ⟨operands.a.isLt, operands.b.isLt, ?_, ?_, Nat.le_add_left _ _⟩
        · omega
        · omega
      · rw [dividend', BitVec.toNat_ushiftRight, Nat.shiftRight_eq_div_pow]
    · rw [decide_eq_false (show ¬ machine.ecx >>> 1 ||| machine.ecx >>> 1 = 0 from done)] at jump
      obtain ⟨shifted, more, leads, keptRest, rest⟩ := inductionHypothesis _ (by omega)
        (holds.of_kept kept) divisor' dividend' done rfl
      exact ⟨shifted, more, (Leads.of_steps 5 round).trans (.step jump leads),
        kept.trans keptRest, rest⟩

/-- From `.L1` on: the way of a divisor of more than 32 bits. -/
theorem leads_long {operands : Operands} {machine : Machine} (holds : In operands machine)
    (high : machine.eax = operands.divisorHi) (long : operands.divisorHi ≠ 0) :
    ∃ final, Leads aulldvrm (.running longText machine)
        (.returned (load machine.memory (machine.esp + 4)) final) ∧
      Left machine (BitVec.ofNat 64 (operands.a.toNat / operands.b.toNat))
        (BitVec.ofNat 64 (operands.a.toNat % operands.b.toNat)) final := by
  let loaded : Machine :=
    { machine with
      eax := machine.value dvndLo
      ecx := machine.eax
      edx := machine.value dvndHi
      ebx := machine.value dvsrLo }
  have moves : steps aulldvrm 5 (.running longText machine) =
      some (.running shiftText loaded) := rfl
  have kept : Kept machine loaded := ⟨rfl, rfl, rfl, rfl⟩
  have divisor : double loaded.ecx loaded.ebx = operands.b >>> 0 := by
    rw [BitVec.ushiftRight_zero, Operands.b, ← high, ← holds.dvsrLo]
  have dividend : double loaded.edx loaded.eax = operands.a >>> 0 := by
    rw [BitVec.ushiftRight_zero, Operands.a, ← holds.dvndHi, ← holds.dvndLo]
  obtain ⟨shifted, more, leads, keptRest, trial, rest⟩ :=
    leads_shift (holds.of_kept kept) divisor dividend (fun none => long (high.symm.trans none))
  have keptAll : Kept machine shifted := kept.trans keptRest
  obtain ⟨final, finish, left⟩ := leads_try (holds.of_kept keptAll) trial rfl rest
  rw [keptAll.memory, keptAll.esp] at finish
  exact ⟨final, (Leads.of_steps 5 moves).trans (leads.trans finish), left.of_kept keptAll⟩

/-- The two divisions of the short way make one. -/
theorem two_divisions (high low divisor : Nat) :
    (high * 2 ^ 32 + low) / divisor =
      high / divisor * 2 ^ 32 + (high % divisor * 2 ^ 32 + low) / divisor := by
  rcases Nat.eq_zero_or_pos divisor with rfl | positive
  · simp
  · have parts : high * 2 ^ 32 + low =
        high % divisor * 2 ^ 32 + low + high / divisor * 2 ^ 32 * divisor := by
      nth_rewrite 1 [← Nat.mod_add_div high divisor]
      ring
    rw [parts, Nat.add_mul_div_right _ _ positive, Nat.add_comm]

/-- The second division of the short way fits. -/
theorem second_fits {rest low divisor : Nat} (less : rest < divisor) (word : low < 2 ^ 32) :
    (rest * 2 ^ 32 + low) / divisor < 2 ^ 32 := by
  rw [Nat.div_lt_iff_lt_mul (Nat.zero_lt_of_lt less)]
  calc rest * 2 ^ 32 + low < (rest + 1) * 2 ^ 32 := by omega
    _ ≤ divisor * 2 ^ 32 := Nat.mul_le_mul_right _ less
    _ = 2 ^ 32 * divisor := Nat.mul_comm _ _

/-- The machine before the divisions of the short way. -/
def loaded (machine : Machine) : Machine :=
  { machine with
    eax := machine.value dvndHi
    ecx := machine.value dvsrLo
    edx := machine.edx ^^^ machine.edx
    carry := some false
    zero := some (decide (machine.edx ^^^ machine.edx = 0)) }

theorem leads_loaded (machine : Machine) :
    Leads aulldvrm (.running shortText machine) (.running (shortText.drop 3) (loaded machine)) :=
  .of_steps 3 rfl

theorem In.loaded_ecx {operands : Operands} {machine : Machine} (holds : In operands machine) :
    ((loaded machine).value (.register .ecx)).toNat = operands.divisorLo.toNat :=
  congrArg BitVec.toNat holds.dvsrLo

/-- A divisor that is nothing is found by the first division. -/
theorem leads_error {operands : Operands} {machine : Machine} (holds : In operands machine)
    (none : operands.divisorLo = 0) :
    ∃ final, Leads aulldvrm (.running shortText machine) (.divideError final) := by
  have ecx : ((loaded machine).value (.register .ecx)).toNat = 0 :=
    holds.loaded_ecx.trans (congrArg BitVec.toNat none)
  have error : step aulldvrm (.running (shortText.drop 3) (loaded machine)) =
      some (.divideError (loaded machine)) := step_div_error ecx
  exact ⟨loaded machine, (leads_loaded machine).trans (.step error (.refl _ _))⟩

/-- Behind the divisions of the short way: the quotient is multiplied out. -/
theorem leads_product {operands : Operands} {machine : Machine} (holds : In operands machine)
    (divisorWord : operands.b.toNat = operands.divisorLo.toNat)
    (quotient : machine.ebx.toNat * 2 ^ 32 + machine.eax.toNat =
      operands.a.toNat / operands.b.toNat) :
    ∃ final, Leads aulldvrm (.running (shortText.drop 7) machine)
        (.returned (load machine.memory (machine.esp + 4)) final) ∧
      Left machine (BitVec.ofNat 64 (operands.a.toNat / operands.b.toNat))
        (BitVec.ofNat 64 (operands.a.toNat % operands.b.toNat)) final := by
  let high := (BitVec.ofNat 32 (machine.ebx.toNat * (machine.value dvsrLo).toNat) : Word)
  let low := machine.eax.toNat * (machine.value dvsrLo).toNat
  let product : Machine :=
    { machine with
      eax := BitVec.ofNat 32 low
      ecx := high
      edx := BitVec.ofNat 32 (low / 2 ^ 32) + high
      esi := machine.eax
      carry := some (decide (2 ^ 32 ≤ (BitVec.ofNat 32 (low / 2 ^ 32)).toNat + high.toNat))
      zero := some (decide (BitVec.ofNat 32 (low / 2 ^ 32) + high = 0)) }
  have multiply : steps aulldvrm 8 (.running (shortText.drop 7) machine) =
      some (.running remainderText product) := rfl
  have kept : Kept machine product := ⟨rfl, rfl, rfl, rfl⟩
  have quotientWords : double product.ebx product.esi =
      BitVec.ofNat 64 (operands.a.toNat / operands.b.toNat) := by
    rw [← quotient, ← toNat_double, BitVec.ofNat_toNat, BitVec.setWidth_eq]
  have productWords : double product.edx product.eax =
      BitVec.ofNat 64 (operands.a.toNat / operands.b.toNat * operands.b.toNat) := by
    obtain ⟨value, _⟩ := product_eq operands.b.toNat machine.ebx.toNat machine.eax.toNat
    have lowFits : low / 2 ^ 32 < 2 ^ 32 := by
      rw [Nat.div_lt_iff_lt_mul (by decide)]
      exact Nat.mul_lt_mul'' machine.eax.isLt (machine.value dvsrLo).isLt
    refine BitVec.eq_of_toNat_eq ?_
    rw [BitVec.toNat_ofNat, ← quotient, Nat.mul_comm _ operands.b.toNat, ← value, toNat_double]
    change (BitVec.ofNat 32 (low / 2 ^ 32) + high).toNat * _ + (BitVec.ofNat 32 low).toNat = _
    rw [BitVec.toNat_add, BitVec.toNat_ofNat, BitVec.toNat_ofNat, BitVec.toNat_ofNat,
      Nat.mod_eq_of_lt lowFits, divisorWord,
      Nat.mul_comm operands.divisorLo.toNat machine.ebx.toNat, Nat.add_mod_mod, ← holds.dvsrLo]
  obtain ⟨final, finish, left⟩ := leads_remainder (holds.of_kept kept)
  rw [quotientWords, productWords, sub_product] at left
  exact ⟨final, (Leads.of_steps 8 multiply).trans finish, left.of_kept kept⟩

/-- The way of a divisor of 32 bits. -/
theorem leads_short {operands : Operands} {machine : Machine} (holds : In operands machine)
    (short : operands.divisorHi = 0) (positive : operands.divisorLo.toNat ≠ 0) :
    ∃ final, Leads aulldvrm (.running shortText machine)
        (.returned (load machine.memory (machine.esp + 4)) final) ∧
      Left machine (BitVec.ofNat 64 (operands.a.toNat / operands.b.toNat))
        (BitVec.ofNat 64 (operands.a.toNat % operands.b.toNat)) final := by
  have divisorWord : operands.b.toNat = operands.divisorLo.toNat := by
    rw [Operands.b, short, toNat_double_zero]
  have dividendWords : operands.a.toNat =
      operands.dividendHi.toNat * 2 ^ 32 + operands.dividendLo.toNat := toNat_double _ _
  have ecx := holds.loaded_ecx
  -- the high word of the quotient
  have upper : (double (loaded machine).edx (loaded machine).eax).toNat =
      operands.dividendHi.toNat := by
    have none : (loaded machine).edx = 0 := BitVec.xor_self
    have high : (loaded machine).eax = operands.dividendHi := holds.dvndHi
    rw [none, high, toNat_double_zero]
  let once := (loaded machine).divided (.register .ecx)
  have first : step aulldvrm (.running (shortText.drop 3) (loaded machine)) =
      some (.running (shortText.drop 4) once) := by
    refine step_div (fun none => positive (ecx.symm.trans none)) ?_
    rw [upper]
    exact (Nat.div_le_self _ _).trans_lt operands.dividendHi.isLt
  have quotientHi : once.eax.toNat = operands.dividendHi.toNat / operands.divisorLo.toNat := by
    change (BitVec.ofNat 32 (_ / _)).toNat = _
    rw [upper, ecx, BitVec.toNat_ofNat]
    exact Nat.mod_eq_of_lt ((Nat.div_le_self _ _).trans_lt operands.dividendHi.isLt)
  have rest : once.edx.toNat = operands.dividendHi.toNat % operands.divisorLo.toNat := by
    change (BitVec.ofNat 32 (_ % _)).toNat = _
    rw [upper, ecx, BitVec.toNat_ofNat]
    exact Nat.mod_eq_of_lt ((Nat.mod_le _ _).trans_lt operands.dividendHi.isLt)
  -- the low word of the quotient
  let between : Machine := { once with eax := machine.value dvndLo, ebx := once.eax }
  have moves : steps aulldvrm 2 (.running (shortText.drop 4) once) =
      some (.running (shortText.drop 6) between) := rfl
  have lower : (double between.edx between.eax).toNat =
      operands.dividendHi.toNat % operands.divisorLo.toNat * 2 ^ 32 +
        operands.dividendLo.toNat := by
    have low : between.eax = operands.dividendLo := holds.dvndLo
    have same : between.edx = once.edx := rfl
    rw [toNat_double, low, same, rest]
  have fits := second_fits (Nat.mod_lt operands.dividendHi.toNat (Nat.pos_of_ne_zero positive))
    operands.dividendLo.isLt
  let twice := between.divided (.register .ecx)
  have second : step aulldvrm (.running (shortText.drop 6) between) =
      some (.running (shortText.drop 7) twice) := by
    refine step_div (fun none => positive (ecx.symm.trans none)) ?_
    rw [lower]
    exact (congrArg (_ / ·) ecx).trans_lt fits
  have quotientLo : twice.eax.toNat = (operands.dividendHi.toNat % operands.divisorLo.toNat *
      2 ^ 32 + operands.dividendLo.toNat) / operands.divisorLo.toNat := by
    change (BitVec.ofNat 32 ((double between.edx between.eax).toNat /
      ((loaded machine).value (.register .ecx)).toNat)).toNat = _
    rw [lower, ecx, BitVec.toNat_ofNat, Nat.mod_eq_of_lt fits]
  have kept : Kept machine twice := ⟨rfl, rfl, rfl, rfl⟩
  have quotient : twice.ebx.toNat * 2 ^ 32 + twice.eax.toNat =
      operands.a.toNat / operands.b.toNat := by
    have same : twice.ebx = once.eax := rfl
    rw [same, quotientHi, quotientLo, dividendWords, divisorWord,
      two_divisions operands.dividendHi.toNat operands.dividendLo.toNat]
  obtain ⟨final, finish, left⟩ := leads_product (holds.of_kept kept) divisorWord quotient
  exact ⟨final, (leads_loaded machine).trans (.step first ((Leads.of_steps 2 moves).trans
    (.step second finish))), left.of_kept kept⟩

/-! ### A call -/

/-- The operands that a caller has put on the stack, above the address to return to. -/
def operands (machine : Machine) : Operands where
  dividendLo := load machine.memory (machine.esp + 4)
  dividendHi := load machine.memory (machine.esp + 8)
  divisorLo := load machine.memory (machine.esp + 12)
  divisorHi := load machine.memory (machine.esp + 16)

/-- What a call leaves to its caller: the results, a stack without the operands, and the registers
and the memory, apart from the word below the stack, as they were. -/
structure Divided (machine final : Machine) : Prop where
  quotient : double final.edx final.eax = (operands machine).a / (operands machine).b
  remainder : double final.ebx final.ecx = (operands machine).a % (operands machine).b
  esp : final.esp = machine.esp + 4 + 16
  ebp : final.ebp = machine.ebp
  esi : final.esi = machine.esi
  edi : final.edi = machine.edi
  memory : ∀ place, 4 ≤ (place - (machine.esp - 4)).toNat →
    final.memory place = machine.memory place

/-- The machine after the first line. -/
def entered (machine : Machine) : Machine :=
  { machine with
    esp := machine.esp - 4
    memory := store machine.memory (machine.esp - 4) machine.esi }

/-- The stack above the saved register is as the caller left it. -/
theorem load_entered (machine : Machine) (offset : Word) (behind : 4 ≤ offset.toNat)
    (before : 4 ≤ (-offset).toNat) :
    load (entered machine).memory ((entered machine).esp + offset) =
      load machine.memory (machine.esp + (offset - 4)) := by
  have place : machine.esp - 4 + offset = machine.esp + (offset - 4) := by bv_omega
  change load (store machine.memory (machine.esp - 4) machine.esi) (machine.esp - 4 + offset) = _
  rw [load_store_of_le (by bv_omega) (by bv_omega), place]

theorem in_entered (machine : Machine) : In (operands machine) (entered machine) where
  dvndHi := load_entered machine 12 (by decide) (by decide)
  dvndLo := load_entered machine 8 (by decide) (by decide)
  dvsrHi := load_entered machine 20 (by decide) (by decide)
  dvsrLo := load_entered machine 16 (by decide) (by decide)

theorem divided_of_left {machine final : Machine}
    (left : Left (entered machine)
      (BitVec.ofNat 64 ((operands machine).a.toNat / (operands machine).b.toNat))
      (BitVec.ofNat 64 ((operands machine).a.toNat % (operands machine).b.toNat)) final) :
    Divided machine final where
  quotient := by rw [left.quotient, BitVec.udiv_def]
  remainder := by rw [left.remainder, BitVec.umod_def]
  esp := by
    have popped : machine.esp - 4 + 4 = machine.esp := BitVec.sub_add_cancel _ _
    rw [left.esp]
    exact congrArg (· + 4 + 16) popped
  ebp := left.ebp
  esi := by rw [left.esi]; exact load_store _ _ _
  edi := left.edi
  memory place apart := by rw [left.memory]; exact store_of_le apart

/-- Whatever the machine, a call divides the operands and returns to its caller, unless the divisor
is nothing, which is a divide error. -/
theorem aulldvrm_divides (machine : Machine) :
    (operands machine).b = 0 ∧
        (∃ final, Leads aulldvrm (.running aulldvrm machine) (.divideError final)) ∨
      (operands machine).b ≠ 0 ∧
        ∃ final, Leads aulldvrm (.running aulldvrm machine)
          (.returned (load machine.memory machine.esp) final) ∧ Divided machine final := by
  let high := (entered machine).value dvsrHi
  let checked : Machine :=
    { entered machine with
      eax := high ||| high
      carry := some false
      zero := some (decide (high ||| high = 0)) }
  have enter : steps aulldvrm 3 (.running aulldvrm machine) =
      some (.running (aulldvrm.drop 3) checked) := rfl
  have jump : step aulldvrm (.running (aulldvrm.drop 3) checked) =
      some (.running (if decide (high ||| high = 0) then shortText else longText) checked) :=
    step_jnz rfl
  have kept : Kept (entered machine) checked := ⟨rfl, rfl, rfl, rfl⟩
  have holds := (in_entered machine).of_kept kept
  have loaded : high = (operands machine).divisorHi := (in_entered machine).dvsrHi
  have back : load checked.memory (checked.esp + 4) = load machine.memory machine.esp := by
    have address := load_entered machine 4 (by decide) (by decide)
    rw [BitVec.sub_self, BitVec.add_zero] at address
    exact address
  by_cases short : (operands machine).divisorHi = 0
  · rw [decide_eq_true (show high ||| high = 0 by rw [BitVec.or_self, loaded, short])] at jump
    have start : Leads aulldvrm (.running aulldvrm machine) (.running shortText checked) :=
      (Leads.of_steps 3 enter).trans (.step jump (.refl _ _))
    by_cases none : (operands machine).divisorLo = 0
    · obtain ⟨final, error⟩ := leads_error holds none
      exact .inl ⟨(double_eq_zero_iff _ _).mpr ⟨short, none⟩, final, start.trans error⟩
    · have positive : (operands machine).divisorLo.toNat ≠ 0 :=
        fun zero => none (BitVec.eq_of_toNat_eq zero)
      obtain ⟨final, finish, left⟩ := leads_short holds short positive
      rw [back] at finish
      exact .inr ⟨fun zero => none ((double_eq_zero_iff _ _).mp zero).2, final,
        start.trans finish, divided_of_left (left.of_kept kept)⟩
  · rw [decide_eq_false (show ¬ high ||| high = 0 by rw [BitVec.or_self, loaded]; exact short)]
      at jump
    have start : Leads aulldvrm (.running aulldvrm machine) (.running longText checked) :=
      (Leads.of_steps 3 enter).trans (.step jump (.refl _ _))
    have eax : checked.eax = (operands machine).divisorHi := BitVec.or_self.trans loaded
    obtain ⟨final, finish, left⟩ := leads_long holds eax short
    rw [back] at finish
    exact .inr ⟨fun zero => short ((double_eq_zero_iff _ _).mp zero).1, final,
      start.trans finish, divided_of_left (left.of_kept kept)⟩

end Nloader.Aulldvrm
