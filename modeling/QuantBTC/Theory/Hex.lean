/-
# Theory.Hex -- bytes as hexadecimal digits

`toHex` writes two lower-case digits for each byte; `fromHex` reads digits of either case
and skips white space between bytes.  Digits in lower case spell one byte string and are
spelled by one, so on such texts reading is injective.
-/
import Mathlib

namespace QuantBTC.Theory.Hex

set_option autoImplicit false

/-! ## Digits -/

def digitValue (c : Char) : Option Nat :=
  if 48 ≤ c.toNat ∧ c.toNat ≤ 57 then some (c.toNat - 48)
  else if 97 ≤ c.toNat ∧ c.toNat ≤ 102 then some (c.toNat - 87)
  else if 65 ≤ c.toNat ∧ c.toNat ≤ 70 then some (c.toNat - 55)
  else none

def digit (n : Nat) : Char := Char.ofNat (if n < 10 then 48 + n else 87 + n)

def isDigit (c : Char) : Bool := (digitValue c).isSome

def isLower (c : Char) : Bool :=
  (48 ≤ c.toNat && c.toNat ≤ 57) || (97 ≤ c.toNat && c.toNat ≤ 102)

def isSpace (c : Char) : Bool := c.toNat == 32 || (9 ≤ c.toNat && c.toNat ≤ 13)

variable {n : Nat}

theorem digitValue_digit (small : n < 16) : digitValue (digit n) = some n := by
  have all : ∀ n : Fin 16, digitValue (digit n) = some n.val := by decide
  exact all ⟨n, small⟩

theorem isLower_digit (small : n < 16) : isLower (digit n) = true := by
  have all : ∀ n : Fin 16, isLower (digit n) = true := by decide
  exact all ⟨n, small⟩

variable {c : Char}

theorem digitValue_lt (value : digitValue c = some n) : n < 16 := by
  unfold digitValue at value
  split_ifs at value <;> cases value <;> omega

theorem isSpace_of_isDigit (isDigit : isDigit c = true) : isSpace c = false := by
  have notSpace : ¬(c.toNat = 32 ∨ 9 ≤ c.toNat ∧ c.toNat ≤ 13) := by
    intro space
    unfold Hex.isDigit digitValue at isDigit
    rw [if_neg (by omega), if_neg (by omega), if_neg (by omega)] at isDigit
    cases isDigit
  simpa [isSpace] using notSpace

theorem isDigit_of_isLower (lower : isLower c = true) : isDigit c = true := by
  simp only [isLower, Bool.or_eq_true, Bool.and_eq_true, decide_eq_true_eq] at lower
  unfold isDigit digitValue
  split_ifs <;> first | rfl | omega

theorem digit_of_digitValue (lower : isLower c = true) (value : digitValue c = some n) :
    digit n = c := by
  simp only [isLower, Bool.or_eq_true, Bool.and_eq_true, decide_eq_true_eq] at lower
  unfold digitValue at value
  have code : (if n < 10 then 48 + n else 87 + n) = c.toNat := by
    split_ifs at value <;> cases value <;> split <;> omega
  rw [digit, code, Char.ofNat_toNat]

/-! ## Bytes -/

def digits (byte : UInt8) : List Char := [digit (byte.toNat / 16), digit (byte.toNat % 16)]

def toHex (bytes : List UInt8) : List Char := bytes.flatMap digits

def fromHex : List Char → Option (List UInt8)
  | [] => some []
  | [c] => if isSpace c then some [] else none
  | c :: d :: text =>
    if isSpace c then fromHex (d :: text)
    else do
      let high ← digitValue c
      let low ← digitValue d
      let bytes ← fromHex text
      pure (UInt8.ofNat (16 * high + low) :: bytes)

theorem fromHex_space (space : isSpace c = true) (text : List Char) :
    fromHex (c :: text) = fromHex text := by
  cases text with
  | nil =>
    rw [show fromHex [c] = if isSpace c then some [] else none from rfl, if_pos space]
    rfl
  | cons d text => rw [fromHex, if_pos space]

theorem fromHex_byte {d : Char} {high low : Nat} (isHigh : digitValue c = some high)
    (isLow : digitValue d = some low) (text : List Char) :
    fromHex (c :: d :: text) = (fromHex text).map (UInt8.ofNat (16 * high + low) :: ·) := by
  have notSpace : isSpace c = false := isSpace_of_isDigit (by rw [isDigit, isHigh]; rfl)
  rw [fromHex, notSpace, isHigh, isLow]
  cases fromHex text with
  | none => rfl
  | some bytes => rfl

variable {text : List Char}

theorem fromHex_cons_cons {d : Char} {bytes : List UInt8} (notSpace : isSpace c = false)
    (read : fromHex (c :: d :: text) = some bytes) :
    ∃ high low others, digitValue c = some high ∧ digitValue d = some low ∧
      fromHex text = some others ∧ bytes = UInt8.ofNat (16 * high + low) :: others := by
  rw [fromHex, notSpace] at read
  cases isHigh : digitValue c with
  | none =>
    simp [isHigh] at read
  | some high =>
    cases isLow : digitValue d with
    | none =>
      simp [isHigh, isLow] at read
    | some low =>
      rw [isHigh, isLow] at read
      cases others : fromHex text with
      | none =>
        simp [others] at read
      | some rest =>
        rw [others] at read
        exact ⟨high, low, rest, rfl, rfl, rfl, (Option.some.inj read).symm⟩

variable (bytes : List UInt8)

theorem length_toHex : (toHex bytes).length = 2 * bytes.length := by
  induction bytes with
  | nil => rfl
  | cons byte bytes ih =>
    rw [toHex, List.flatMap_cons, List.length_append, List.length_cons, ← toHex, ih]
    show 2 + _ = _
    omega

theorem toHex_append (others : List UInt8) :
    toHex (bytes ++ others) = toHex bytes ++ toHex others :=
  List.flatMap_append

/-- **Round trip.** -/
theorem fromHex_toHex : fromHex (toHex bytes) = some bytes := by
  induction bytes with
  | nil => rfl
  | cons byte bytes ih =>
    have bound := byte.toNat_lt
    have read := fromHex_byte (digitValue_digit (by omega : byte.toNat / 16 < 16))
      (digitValue_digit (by omega : byte.toNat % 16 < 16)) (toHex bytes)
    rw [ih, Option.map_some, Nat.div_add_mod, UInt8.ofNat_toNat] at read
    exact read

theorem fromHex_append {bytes : List UInt8} (read : fromHex text = some bytes) (others : List Char) :
    fromHex (text ++ others) = (fromHex others).map (bytes ++ ·) := by
  -- The induction is the reader's own: white space is one character, a byte is two.
  induction text using fromHex.induct generalizing bytes with
  | case1 =>
    cases read
    exact Option.map_id'.symm
  | case2 c space =>
    rw [fromHex, if_pos space] at read
    cases read
    rw [List.singleton_append, fromHex_space space]
    exact Option.map_id'.symm
  | case3 c notSpace =>
    simp [fromHex, if_neg notSpace] at read
  | case4 c d text space ih =>
    rw [fromHex, if_pos space] at read
    rw [List.cons_append, fromHex_space space, ih read]
  | case5 c d text notSpace ih =>
    obtain ⟨high, low, rest, isHigh, isLow, readRest, rfl⟩ :=
      fromHex_cons_cons (Bool.eq_false_iff.mpr notSpace) read
    rw [List.cons_append, List.cons_append, fromHex_byte isHigh isLow, ih readRest,
      Option.map_map]
    rfl

theorem fromHex_append_eq_some {one two : List Char} {first second : List UInt8}
    (readOne : fromHex one = some first) (readTwo : fromHex two = some second) :
    fromHex (one ++ two) = some (first ++ second) := by
  rw [fromHex_append readOne, readTwo, Option.map_some]

theorem fromHex_of_isDigit (allDigits : text.all isDigit = true) (even : text.length % 2 = 0) :
    ∃ bytes, fromHex text = some bytes ∧ 2 * bytes.length = text.length := by
  induction text using fromHex.induct with
  | case1 => exact ⟨[], rfl, rfl⟩
  | case2 c _ => simp at even
  | case3 c _ => simp at even
  | case4 c d text space ih =>
    simp only [List.all_cons, Bool.and_eq_true] at allDigits
    simp [isSpace_of_isDigit allDigits.1] at space
  | case5 c d text notSpace ih =>
    simp only [List.all_cons, Bool.and_eq_true] at allDigits
    obtain ⟨isHigh, isLow, rest⟩ := allDigits
    rw [List.length_cons, List.length_cons] at even
    obtain ⟨bytes, read, counted⟩ := ih rest (by omega)
    obtain ⟨high, isHigh⟩ := Option.isSome_iff_exists.mp isHigh
    obtain ⟨low, isLow⟩ := Option.isSome_iff_exists.mp isLow
    refine ⟨UInt8.ofNat (16 * high + low) :: bytes, ?_, ?_⟩
    · rw [fromHex_byte isHigh isLow, read, Option.map_some]
    · rw [List.length_cons, List.length_cons, List.length_cons]
      omega

/-- **Lower-case digits are the digits of what they spell.** -/
theorem toHex_of_lower {bytes : List UInt8} (lower : text.all isLower = true)
    (read : fromHex text = some bytes) : toHex bytes = text := by
  have noSpace {c : Char} (isLow : isLower c = true) : isSpace c = false :=
    isSpace_of_isDigit (isDigit_of_isLower isLow)
  induction text using fromHex.induct generalizing bytes with
  | case1 =>
    cases read
    rfl
  | case2 c space =>
    simp only [List.all_cons, List.all_nil, Bool.and_true] at lower
    simp [noSpace lower] at space
  | case3 c notSpace =>
    simp [fromHex, if_neg notSpace] at read
  | case4 c d text space ih =>
    simp only [List.all_cons, Bool.and_eq_true] at lower
    simp [noSpace lower.1] at space
  | case5 c d text notSpace ih =>
    simp only [List.all_cons, Bool.and_eq_true] at lower
    obtain ⟨high, low, rest, isHigh, isLow, readRest, rfl⟩ :=
      fromHex_cons_cons (Bool.eq_false_iff.mpr notSpace) read
    have highBound := digitValue_lt isHigh
    have lowBound := digitValue_lt isLow
    have value : (UInt8.ofNat (16 * high + low)).toNat = 16 * high + low :=
      UInt8.toNat_ofNat_of_lt' (by show _ < 256; omega)
    have quotient : (16 * high + low) / 16 = high := by omega
    have remainder : (16 * high + low) % 16 = low := by omega
    rw [toHex, List.flatMap_cons, ← toHex, ih lower.2.2 readRest, digits, value, quotient,
      remainder, digit_of_digitValue lower.1 isHigh, digit_of_digitValue lower.2.1 isLow]
    rfl

theorem lower_toHex : (toHex bytes).all isLower = true := by
  induction bytes with
  | nil => rfl
  | cons byte bytes ih =>
    have bound := byte.toNat_lt
    rw [toHex, List.flatMap_cons, List.all_append, ← toHex, ih, digits]
    simp only [List.all_cons, List.all_nil, isLower_digit (by omega : byte.toNat / 16 < 16),
      isLower_digit (by omega : byte.toNat % 16 < 16), Bool.and_true]

/-! ## Numbers -/

def numberFrom (acc : Nat) : List Char → Option Nat
  | [] => some acc
  | c :: text => do
      let value ← digitValue c
      numberFrom (16 * acc + value) text

def number (text : List Char) : Option Nat := if text = [] then none else numberFrom 0 text

theorem numberFrom_cons {acc : Nat} (read : numberFrom acc (c :: text) = some n) :
    ∃ value, digitValue c = some value ∧ numberFrom (16 * acc + value) text = some n :=
  Option.bind_eq_some_iff.mp read

theorem numberFrom_injective {one two : List Char} {a b : Nat} (lowerOne : one.all isLower = true)
    (lowerTwo : two.all isLower = true) (lengths : one.length = two.length)
    (readOne : numberFrom a one = some n) (readTwo : numberFrom b two = some n) :
    a = b ∧ one = two := by
  induction one generalizing two a b with
  | nil =>
    rw [List.eq_nil_of_length_eq_zero lengths.symm] at readTwo ⊢
    cases readOne
    cases readTwo
    exact ⟨rfl, rfl⟩
  | cons c one ih =>
    cases two with
    | nil => cases lengths
    | cons d two =>
      simp only [List.all_cons, Bool.and_eq_true] at lowerOne lowerTwo
      obtain ⟨x, isX, restOne⟩ := numberFrom_cons readOne
      obtain ⟨y, isY, restTwo⟩ := numberFrom_cons readTwo
      obtain ⟨accs, texts⟩ :=
        ih lowerOne.2 lowerTwo.2 (Nat.succ.inj lengths) restOne restTwo
      have xBound := digitValue_lt isX
      have yBound := digitValue_lt isY
      have same : x = y := by omega
      refine ⟨by omega, ?_⟩
      rw [← digit_of_digitValue lowerOne.1 isX, ← digit_of_digitValue lowerTwo.1 isY, same,
        texts]

theorem number_injective {one two : List Char} (lowerOne : one.all isLower = true)
    (lowerTwo : two.all isLower = true) (lengths : one.length = two.length)
    (readOne : number one = some n) (readTwo : number two = some n) : one = two := by
  unfold number at readOne readTwo
  split at readOne
  next => cases readOne
  next =>
    split at readTwo
    next => cases readTwo
    next => exact (numberFrom_injective lowerOne lowerTwo lengths readOne readTwo).2

theorem numberFrom_of_isDigit (allDigits : text.all isDigit = true) (acc : Nat) :
    ∃ n, numberFrom acc text = some n ∧ n < (acc + 1) * 16 ^ text.length := by
  induction text generalizing acc with
  | nil => exact ⟨acc, rfl, by simp⟩
  | cons c text ih =>
    simp only [List.all_cons, Bool.and_eq_true] at allDigits
    obtain ⟨value, isValue⟩ := Option.isSome_iff_exists.mp allDigits.1
    have bound := digitValue_lt isValue
    obtain ⟨n, read, small⟩ := ih allDigits.2 (16 * acc + value)
    refine ⟨n, ?_, ?_⟩
    · rwa [numberFrom, isValue]
    · refine Nat.lt_of_lt_of_le small ?_
      rw [List.length_cons, Nat.pow_succ, ← Nat.mul_assoc, Nat.mul_right_comm]
      exact Nat.mul_le_mul_right _ (by omega)

end QuantBTC.Theory.Hex
