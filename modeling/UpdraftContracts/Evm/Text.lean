import Mathlib.Data.Nat.Digits.Lemmas
import Mathlib.Tactic.IntervalCases
import UpdraftContracts.Evm.Basic

/-!
# Numbers as text

A `string` is a list of bytes. Here are the ways in which numbers get into strings and out of them
again: in decimal with as many digits as it takes, and in hexadecimal with a fixed number of digits
behind `0x`. A reader does not mind whether a hexadecimal digit is a small or a capital letter.

## Main results

* `parseDecimal_decimal` — a number written in decimal is read as itself
* `parseHex_of_values` — a text is read as the number that the values of its digits make up
-/

namespace Evm

/-- The bytes of a string literal. -/
def literal (text : String) : List UInt8 := text.toList.map fun c => UInt8.ofNat c.toNat

/-- The byte for a digit, with small letters. -/
def digitByte (d : ℕ) : UInt8 := UInt8.ofNat (if d < 10 then 48 + d else 87 + d)

/-- What a byte is worth as a digit. -/
def digitValue (c : UInt8) : Option ℕ :=
  if 48 ≤ c ∧ c ≤ 57 then some (c.toNat - 48)
  else if 97 ≤ c ∧ c ≤ 102 then some (c.toNat - 87)
  else if 65 ≤ c ∧ c ≤ 70 then some (c.toNat - 55)
  else none

theorem digitValue_digitByte {d : ℕ} (hd : d < 16) : digitValue (digitByte d) = some d := by
  interval_cases d <;> rfl

/-- The number that digits make up, the most significant one first. -/
def numeral (base : ℕ) (ds : List ℕ) : ℕ := ds.foldl (fun n d => n * base + d) 0

/-- Reads all of a text as digits to a base. -/
def parseDigits (base : ℕ) (text : List UInt8) : Option ℕ :=
  if text.all fun c => (digitValue c).any (· < base)
  then some (numeral base (text.map fun c => (digitValue c).getD 0)) else none

/-- A text of digits stands for the number with these digits. -/
theorem parseDigits_of_values {base : ℕ} {text : List UInt8} {ds : List ℕ}
    (hvalues : text.map digitValue = ds.map some) (hds : ∀ d ∈ ds, d < base) :
    parseDigits base text = some (numeral base ds) := by
  have hdigits : ∀ c ∈ text, (digitValue c).any (· < base) := by
    intro c hc
    have hmem : digitValue c ∈ ds.map some := hvalues ▸ List.mem_map_of_mem hc
    obtain ⟨d, hd, hvalue⟩ := List.mem_map.mp hmem
    rw [← hvalue]
    exact decide_eq_true (hds d hd)
  have hmap : (text.map fun c => (digitValue c).getD 0) = ds := by
    calc (text.map fun c => (digitValue c).getD 0)
        = (text.map digitValue).map fun v => v.getD 0 := by rw [List.map_map]; rfl
      _ = ds := by rw [hvalues, List.map_map]; exact List.map_id ds
  rw [parseDigits, if_pos (List.all_eq_true.mpr hdigits), hmap]

/-! ### Decimal -/

/-- `vm.toString` of a `uint256` -/
def decimal (n : ℕ) : List UInt8 :=
  if n = 0 then [digitByte 0] else (Nat.digits 10 n).reverse.map digitByte

/-- `vm.parseUint` -/
def parseDecimal (text : List UInt8) : Option ℕ :=
  if text = [] then none else parseDigits 10 text

/-- The digits that `decimal` writes. -/
theorem exists_decimal_eq (n : ℕ) :
    ∃ ds, (ds = [0] ∨ ∃ d, ds.head? = some d ∧ d ≠ 0) ∧ (∀ d ∈ ds, d < 10) ∧
      numeral 10 ds = n ∧ decimal n = ds.map digitByte := by
  rcases Nat.eq_zero_or_pos n with rfl | hn
  · exact ⟨[0], .inl rfl, by simp, rfl, rfl⟩
  · have hne : Nat.digits 10 n ≠ [] := Nat.digits_ne_nil_iff_ne_zero.mpr hn.ne'
    refine ⟨(Nat.digits 10 n).reverse, .inr ⟨_, ?_, Nat.getLast_digit_ne_zero 10 hn.ne'⟩, ?_, ?_,
      if_neg hn.ne'⟩
    · rw [List.head?_reverse, List.getLast?_eq_some_getLast hne]
    · intro d hd
      exact Nat.digits_lt_base (by decide) (List.mem_reverse.mp hd)
    · calc numeral 10 (Nat.digits 10 n).reverse
          = (Nat.digits 10 n).foldr (fun d n => d + 10 * n) 0 := by
            rw [numeral, List.foldl_reverse]
            congr 1
            funext d n
            rw [Nat.mul_comm, Nat.add_comm]
        _ = n := (Nat.ofDigits_eq_foldr 10 _).symm.trans (Nat.ofDigits_digits 10 n)

theorem map_digitValue_digitByte {ds : List ℕ} (hds : ∀ d ∈ ds, d < 16) :
    (ds.map digitByte).map digitValue = ds.map some := by
  rw [List.map_map]
  exact List.map_congr_left fun d hd => digitValue_digitByte (hds d hd)

/-- Every number can be read back. -/
theorem parseDecimal_decimal (n : ℕ) : parseDecimal (decimal n) = some n := by
  obtain ⟨ds, hhead, hds, rfl, htext⟩ := exists_decimal_eq n
  have hvalues := map_digitValue_digitByte fun d hd => (hds d hd).trans (by decide : 10 < 16)
  have hne : ds.map digitByte ≠ [] := by
    rcases hhead with rfl | ⟨d, hd, -⟩
    · exact List.cons_ne_nil _ _
    · cases ds with
      | nil => cases hd
      | cons d ds => exact List.cons_ne_nil _ _
  rw [htext, parseDecimal, if_neg hne]
  exact parseDigits_of_values hvalues hds

theorem decimal_injective : Function.Injective decimal := fun m n h =>
  Option.some.inj (by rw [← parseDecimal_decimal m, h, parseDecimal_decimal n])

/-! ### Hexadecimal -/

/-- The last `k` digits of `n` to a base, the most significant one first. -/
def digitsOf (base : ℕ) : ℕ → ℕ → List ℕ
  | 0, _ => []
  | k + 1, n => digitsOf base k (n / base) ++ [n % base]

theorem length_digitsOf (base k n : ℕ) : (digitsOf base k n).length = k := by
  induction k generalizing n with
  | zero => rfl
  | succ k ih => rw [digitsOf, List.length_append, ih, List.length_singleton]

theorem lt_of_mem_digitsOf {base k n d : ℕ} (hbase : 0 < base) (hd : d ∈ digitsOf base k n) :
    d < base := by
  induction k generalizing n with
  | zero => exact absurd hd List.not_mem_nil
  | succ k ih =>
    rcases List.mem_append.mp hd with hd | hd
    · exact ih hd
    · rw [List.mem_singleton.mp hd]
      exact Nat.mod_lt n hbase

theorem numeral_digitsOf (base k n : ℕ) : numeral base (digitsOf base k n) = n % base ^ k := by
  induction k generalizing n with
  | zero => rw [Nat.pow_zero, Nat.mod_one]; rfl
  | succ k ih =>
    have hstep : numeral base (digitsOf base k (n / base) ++ [n % base])
        = numeral base (digitsOf base k (n / base)) * base + n % base := by
      rw [numeral, List.foldl_append]
      rfl
    rw [digitsOf, hstep, ih, Nat.pow_succ', Nat.mod_mul, Nat.mul_comm, Nat.add_comm]

/-- `0x` and the last `k` digits of a number. -/
def hex (k n : ℕ) : List UInt8 := literal "0x" ++ (digitsOf 16 k n).map digitByte

/-- Reads `0x` and `k` digits. -/
def parseHex (k : ℕ) (text : List UInt8) : Option ℕ :=
  if text.take 2 = literal "0x" ∧ text.length = k + 2 then parseDigits 16 (text.drop 2) else none

/-- **Hexadecimal digits in capital letters or not.** -/
theorem parseHex_of_values {k n : ℕ} {text : List UInt8}
    (hvalues : text.map digitValue = (digitsOf 16 k n).map some) :
    parseHex k (literal "0x" ++ text) = some (n % 16 ^ k) := by
  have hlen : text.length = k := by
    have := congrArg List.length hvalues
    rwa [List.length_map, List.length_map, length_digitsOf] at this
  rw [parseHex, if_pos ⟨rfl, by rw [List.length_append, hlen]; exact Nat.add_comm 2 k⟩,
    ← numeral_digitsOf]
  exact parseDigits_of_values hvalues fun d => lt_of_mem_digitsOf (by decide)

/-- Every number of `k` digits can be read back. -/
theorem parseHex_hex (k n : ℕ) : parseHex k (hex k n) = some (n % 16 ^ k) :=
  parseHex_of_values (map_digitValue_digitByte fun _ => lt_of_mem_digitsOf (by decide))

/-- All bytes of a text that is read in hexadecimal are digits or those of `0x`. -/
theorem mem_of_parseHex {k n : ℕ} {text : List UInt8} {c : UInt8}
    (h : parseHex k text = some n) (hc : c ∈ text) : c ∈ literal "0x" ∨ digitValue c ≠ none := by
  rw [parseHex] at h
  split_ifs at h with hstart
  rw [← List.take_append_drop 2 text, List.mem_append, hstart.1] at hc
  refine hc.imp id fun hmem hnone => ?_
  rw [parseDigits] at h
  split_ifs at h with hdigits
  have hdigit := List.all_eq_true.mp hdigits c hmem
  rw [hnone] at hdigit
  exact Bool.false_ne_true hdigit

end Evm
