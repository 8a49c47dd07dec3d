import Mathlib.Algebra.Group.Int.Defs
import LayerCake.Meowix.Util

/-
  Decimal texts, and the bounds on their length with which `meowix/src/util.rs` sizes
  buffers.

  Correspondence (Rust ↔ Lean):
    `compute_decimal_digits_u128`          ↔ `computeDecimalDigitsU128`
    `unsigned_decimal_digits_upper_bound`  ↔ `unsignedDecimalDigitsUpperBound`
    `signed_decimal_digits_upper_bound`    ↔ `signedDecimalDigitsUpperBound`
  The reader (`readNat`, `readInt`, `fields`) is the kernel's side of these texts. What
  `itoa` prints is a parameter, and a decimal text where it is lawful (`LawfulItoa`).

  What is proved:
    1. `computeDecimalDigitsU128_eq` — the division loop counts the characters of the
       decimal text.
    2. `decimal_digits_exact` — it counts the digits of every `u128`, and both bounds
       are attained in every width.
    3. `readNat_decimal`, `readInt_signedDecimal` — a decimal text is read back.
-/

namespace LayerCake.Meowix

/-! ## The text of a number -/

/-- `b'0' + digit`. -/
def digit (d : Nat) : UInt8 := (48 + d).toUInt8

theorem digit_toNat {d : Nat} (h : d < 10) : (digit d).toNat = 48 + d := by
  unfold digit
  rw [UInt8.toNat_ofNat']
  omega

theorem decimal_of_lt {n : Nat} (h : n < 10) : decimal n = [digit n] := by
  unfold decimal digit
  rw [Nat.toDigits_of_lt_base h, List.map_singleton, Nat.toNat_digitChar_of_lt_ten h]

theorem decimal_of_ge {n : Nat} (h : 10 ≤ n) :
    decimal n = decimal (n / 10) ++ [digit (n % 10)] := by
  have hmod : n % 10 < 10 := Nat.mod_lt n (by decide)
  unfold decimal digit
  rw [Nat.toDigits_of_base_le (by decide) h, List.map_append, List.map_singleton,
    Nat.toNat_digitChar_of_lt_ten hmod]

theorem decimal_length_le_iff {n k : Nat} (hk : 0 < k) : (decimal n).length ≤ k ↔ n < 10 ^ k := by
  unfold decimal
  rw [List.length_map]
  exact Nat.length_toDigits_le_iff (by decide) hk

theorem decimal_length_pos (n : Nat) : 0 < (decimal n).length := by
  unfold decimal
  rw [List.length_map]
  exact Nat.length_toDigits_pos

/-- A longer text is of a larger number. -/
theorem decimal_length_mono {m n : Nat} (h : m ≤ n) : (decimal m).length ≤ (decimal n).length :=
  (decimal_length_le_iff (decimal_length_pos n)).mpr
    (Nat.lt_of_le_of_lt h ((decimal_length_le_iff (decimal_length_pos n)).mp (Nat.le_refl _)))

/-! ## Counting digits -/

/-- A turn of the loop takes away the last digit. -/
theorem computeDecimalDigitsFrom_eq (n digits : Nat) :
    computeDecimalDigitsFrom n digits + 1 = digits + (decimal n).length := by
  induction n using Nat.strongRecOn generalizing digits with
  | ind n ih =>
    rw [computeDecimalDigitsFrom]
    split
    · next h =>
      calc computeDecimalDigitsFrom (n / 10) (digits + 1) + 1
          = digits + 1 + (decimal (n / 10)).length := ih (n / 10) (by omega) (digits + 1)
        _ = digits + (decimal n).length := by
          rw [decimal_of_ge h, List.length_append, List.length_singleton]
          omega
    · next h =>
      rw [decimal_of_lt (by omega)]
      rfl

theorem computeDecimalDigitsU128_eq (n : Nat) :
    computeDecimalDigitsU128 n = (decimal n).length := by
  have := computeDecimalDigitsFrom_eq n 1
  unfold computeDecimalDigitsU128
  omega

/-- The number of digits is the least positive power of ten that is larger. -/
theorem decimal_length_eq_iff (n k : Nat) :
    (decimal n).length = k ↔ 1 ≤ k ∧ n < 10 ^ k ∧ (k = 1 ∨ 10 ^ (k - 1) ≤ n) := by
  have hpos := decimal_length_pos n
  constructor
  · intro h
    subst h
    refine ⟨hpos, (decimal_length_le_iff hpos).mp (Nat.le_refl _), ?_⟩
    by_cases hone : (decimal n).length = 1
    · exact .inl hone
    · refine .inr (Nat.le_of_not_lt fun hlt => ?_)
      have := (decimal_length_le_iff (k := (decimal n).length - 1) (by omega)).mpr hlt
      omega
  · intro h
    obtain ⟨hk, hlt, hge⟩ := h
    have hle : (decimal n).length ≤ k := (decimal_length_le_iff hk).mpr hlt
    rcases hge with rfl | hge
    · omega
    · by_contra hne
      by_cases hone : k = 1
      · omega
      · have hshort : (decimal n).length ≤ k - 1 := by omega
        have := (decimal_length_le_iff (by omega)).mp hshort
        omega

/-! ## The bounds of a width -/

/-- `u128::MAX` is shifted down to the largest value of the type. -/
theorem shiftRight_max {size : Nat} (h : size ≤ 16) :
    (2 ^ 128 - 1) >>> (128 - size * 8) = 2 ^ (size * 8) - 1 := by
  have hsplit : 2 ^ 128 = 2 ^ (size * 8) * 2 ^ (128 - size * 8) := by
    rw [← Nat.pow_add]
    congr 1
    omega
  have hmax : 0 < 2 ^ (size * 8) := Nat.two_pow_pos _
  have hshift : 0 < 2 ^ (128 - size * 8) := Nat.two_pow_pos _
  rw [Nat.shiftRight_eq_div_pow, hsplit]
  generalize 2 ^ (size * 8) = a at hmax
  generalize 2 ^ (128 - size * 8) = b at hshift
  have hle : b ≤ a * b := Nat.le_mul_of_pos_left b hmax
  apply Nat.div_eq_of_lt_le
  · rw [Nat.sub_mul]
    omega
  · rw [Nat.sub_add_cancel hmax]
    omega

theorem unsignedDecimalDigitsUpperBound_eq {size : Nat} (h : size ≤ 16) :
    unsignedDecimalDigitsUpperBound size = (decimal (2 ^ (size * 8) - 1)).length := by
  unfold unsignedDecimalDigitsUpperBound
  rw [shiftRight_max h, computeDecimalDigitsU128_eq]

theorem signedDecimalDigitsUpperBound_eq (size : Nat) :
    signedDecimalDigitsUpperBound size = (decimal (2 ^ (size * 8 - 1))).length + 1 := by
  unfold signedDecimalDigitsUpperBound
  rw [Nat.one_shiftLeft, computeDecimalDigitsU128_eq]

theorem signedDecimal_of_neg {z : Int} (h : z < 0) : signedDecimal z = 45 :: decimal z.natAbs := by
  cases z with
  | ofNat n => exact absurd h (Int.not_lt.mpr (Int.natCast_nonneg n))
  | negSucc n => rfl

theorem signedDecimal_of_nonneg {z : Int} (h : 0 ≤ z) : signedDecimal z = decimal z.natAbs := by
  cases z with
  | ofNat n => rfl
  | negSucc n => exact absurd h (Int.not_le.mpr (Int.negSucc_lt_zero n))

/-- No value of an unsigned type has a longer text than the bound. -/
theorem decimal_length_le_unsigned {size n : Nat} (h : size ≤ 16) (hn : n < 2 ^ (size * 8)) :
    (decimal n).length ≤ unsignedDecimalDigitsUpperBound size := by
  rw [unsignedDecimalDigitsUpperBound_eq h]
  exact decimal_length_mono (by omega)

/-- No value of a signed type has a longer text than the bound, which counts the sign. -/
theorem signedDecimal_length_le_signed {size : Nat} {z : Int} (h : z.natAbs ≤ 2 ^ (size * 8 - 1)) :
    (signedDecimal z).length ≤ signedDecimalDigitsUpperBound size := by
  rw [signedDecimalDigitsUpperBound_eq]
  have hsign : (signedDecimal z).length ≤ (decimal z.natAbs).length + 1 := by
    by_cases hneg : z < 0
    · simp [signedDecimal_of_neg hneg]
    · simp [signedDecimal_of_nonneg (Int.not_lt.mp hneg)]
  calc (signedDecimal z).length
      ≤ (decimal z.natAbs).length + 1 := hsign
    _ ≤ (decimal (2 ^ (size * 8 - 1))).length + 1 := Nat.succ_le_succ (decimal_length_mono h)

/-- The magnitude of a value is largest at the minimum of its type. -/
theorem natAbs_toInt_le {w : Nat} (v : BitVec w) : v.toInt.natAbs ≤ 2 ^ (w - 1) := by
  have hlo := v.le_toInt
  have hhi := v.toInt_lt
  have hcast : (2 : Int) ^ (w - 1) = ((2 ^ (w - 1) : Nat) : Int) := (Int.natCast_pow 2 (w - 1)).symm
  rw [hcast] at hlo hhi
  omega

/-- For every `u128`, the loop counts the least `k ≥ 1` with `n < 10 ^ k`; and for every
type of one to sixteen bytes, the decimal text of each value, with its sign, is no longer
than the bound of the type, and that of some value is as long. -/
theorem decimal_digits_exact :
    (∀ (n : BitVec 128) (k : Nat), computeDecimalDigitsU128 n.toNat = k ↔
      1 ≤ k ∧ n.toNat < 10 ^ k ∧ (k = 1 ∨ 10 ^ (k - 1) ≤ n.toNat)) ∧
    ∀ size, 1 ≤ size → size ≤ 16 →
      (∀ v : BitVec (size * 8), (decimal v.toNat).length ≤ unsignedDecimalDigitsUpperBound size) ∧
      (∃ v : BitVec (size * 8), (decimal v.toNat).length = unsignedDecimalDigitsUpperBound size) ∧
      (∀ v : BitVec (size * 8),
        (signedDecimal v.toInt).length ≤ signedDecimalDigitsUpperBound size) ∧
      ∃ v : BitVec (size * 8),
        (signedDecimal v.toInt).length = signedDecimalDigitsUpperBound size := by
  constructor
  · intro n k
    rw [computeDecimalDigitsU128_eq]
    exact decimal_length_eq_iff n.toNat k
  · intro size hlo hhi
    refine ⟨fun v => decimal_length_le_unsigned hhi v.isLt, ⟨BitVec.allOnes _, ?_⟩,
      fun v => signedDecimal_length_le_signed (natAbs_toInt_le v), ⟨BitVec.intMin _, ?_⟩⟩
    · rw [BitVec.toNat_allOnes, unsignedDecimalDigitsUpperBound_eq hhi]
    · have hmin : (BitVec.intMin (size * 8)).toInt = -((2 ^ (size * 8 - 1) : Nat) : Int) := by
        rw [BitVec.toInt_intMin_of_pos (by omega), Int.natCast_pow]
        rfl
      have hpos : 0 < 2 ^ (size * 8 - 1) := Nat.two_pow_pos _
      have hneg : (BitVec.intMin (size * 8)).toInt < 0 := by omega
      have habs : (BitVec.intMin (size * 8)).toInt.natAbs = 2 ^ (size * 8 - 1) := by
        rw [hmin, Int.natAbs_neg, Int.natAbs_natCast]
      calc (signedDecimal (BitVec.intMin (size * 8)).toInt).length
          = (decimal (2 ^ (size * 8 - 1))).length + 1 := by
            rw [signedDecimal_of_neg hneg, List.length_cons, habs]
        _ = signedDecimalDigitsUpperBound size := (signedDecimalDigitsUpperBound_eq size).symm

theorem decimal_digits_exact_eight :
    (decimal ((2 : Nat) ^ 64 - 1)).length ≤ unsignedDecimalDigitsUpperBound 8 ∧
      (signedDecimal (-(2 : Int) ^ 63)).length ≤ signedDecimalDigitsUpperBound 8 := by
  obtain ⟨hunsigned, -, hsigned, -⟩ := decimal_digits_exact.2 8 (by decide) (by decide)
  exact ⟨hunsigned (BitVec.allOnes 64), hsigned (BitVec.intMin 64)⟩

/-! ## Reading a text back -/

/-- The number a text of decimal digits is. -/
def readNat (text : Bytes) : Option Nat :=
  if text = [] then none else text.foldlM (fun n b => (digitValue b).map (10 * n + ·)) 0

/-- The number a text is that may have a sign. -/
def readInt : Bytes → Option Int
  | [] => none
  | b :: text =>
    if b = 45 then (readNat text).map fun (n : Nat) => -(n : Int)
    else (readNat (b :: text)).map Int.ofNat

/-- The fields of a line. -/
def fields (text : Bytes) : List Bytes := text.splitOn 32

theorem digitValue_digit {d : Nat} (h : d < 10) : digitValue (digit d) = some d := by
  have hd := digit_toNat h
  unfold digitValue
  rw [if_pos, hd, Nat.add_sub_cancel_left]
  constructor
  · rw [UInt8.le_iff_toNat_le, hd]
    exact Nat.le_add_right 48 d
  · rw [UInt8.le_iff_toNat_le, hd]
    show 48 + d ≤ 57
    omega

/-- A text holds nothing but digits. -/
theorem range_of_mem_decimal {n : Nat} {b : UInt8} (h : b ∈ decimal n) :
    48 ≤ b.toNat ∧ b.toNat ≤ 57 := by
  induction n using Nat.strongRecOn with
  | ind n ih =>
    by_cases hn : n < 10
    · rw [decimal_of_lt hn, List.mem_singleton] at h
      rw [h, digit_toNat hn]
      omega
    · rw [decimal_of_ge (by omega), List.mem_append, List.mem_singleton] at h
      rcases h with h | h
      · exact ih (n / 10) (by omega) h
      · rw [h, digit_toNat (Nat.mod_lt n (by decide))]
        omega

theorem not_mem_decimal {n : Nat} {b : UInt8} (h : b.toNat < 48 ∨ 57 < b.toNat) :
    b ∉ decimal n := by
  intro hmem
  have := range_of_mem_decimal hmem
  omega

theorem not_mem_signedDecimal {z : Int} {b : UInt8} (h : b.toNat < 45) : b ∉ signedDecimal z := by
  by_cases hneg : z < 0
  · rw [signedDecimal_of_neg hneg, List.mem_cons, not_or]
    refine ⟨fun heq => ?_, not_mem_decimal (by omega)⟩
    rw [heq] at h
    exact absurd h (by decide)
  · rw [signedDecimal_of_nonneg (by omega)]
    exact not_mem_decimal (by omega)

theorem decimal_ne_nil (n : Nat) : decimal n ≠ [] := List.length_pos_iff.mp (decimal_length_pos n)

theorem foldlM_decimal (n : Nat) :
    (decimal n).foldlM (fun n b => (digitValue b).map (10 * n + ·)) 0 = some n := by
  induction n using Nat.strongRecOn with
  | ind n ih =>
    by_cases hn : n < 10
    · simp [decimal_of_lt hn, digitValue_digit hn]
    · have hlast : digitValue (digit (n % 10)) = some (n % 10) :=
        digitValue_digit (Nat.mod_lt n (by decide))
      rw [decimal_of_ge (by omega), List.foldlM_append, ih (n / 10) (by omega)]
      simp only [Option.bind_eq_bind, Option.bind_some, List.foldlM_cons, List.foldlM_nil, hlast,
        Option.map_some, pure]
      congr 1
      omega

theorem readNat_decimal (n : Nat) : readNat (decimal n) = some n := by
  unfold readNat
  rw [if_neg (decimal_ne_nil n), foldlM_decimal]

theorem readInt_signedDecimal (z : Int) : readInt (signedDecimal z) = some z := by
  by_cases hneg : z < 0
  · rw [signedDecimal_of_neg hneg, readInt, if_pos rfl, readNat_decimal, Option.map_some]
    congr 1
    omega
  · rw [signedDecimal_of_nonneg (by omega)]
    have hsign : (45 : UInt8) ∉ decimal z.natAbs := not_mem_decimal (by decide)
    have hread := readNat_decimal z.natAbs
    cases htext : decimal z.natAbs with
    | nil => exact absurd htext (decimal_ne_nil _)
    | cons b text =>
      rw [htext] at hsign hread
      have hb : b ≠ 45 := fun heq => hsign (heq ▸ List.mem_cons_self)
      rw [readInt, if_neg hb, hread, Option.map_some]
      congr 1
      show (z.natAbs : Int) = z
      omega

/-- The fields of a line are what was written with a space in between. -/
theorem fields_intercalate {texts : List Bytes} (hne : texts ≠ [])
    (h : ∀ text ∈ texts, (32 : UInt8) ∉ text) : fields ([32].intercalate texts) = texts :=
  List.splitOn_intercalate 32 h hne

end LayerCake.Meowix
