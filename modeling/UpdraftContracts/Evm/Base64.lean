import UpdraftContracts.Evm.Text

/-!
# Base64

Bytes in groups of three are written as groups of four letters. What is missing in the last group
is filled up with equals signs.

## Main results

* `decode_encode` — what was encoded is decoded to itself
* `forall_mem_encode` — the bytes that an encoding consists of
-/

namespace Evm

namespace Base64

/-- The letter `=`, which fills the last group up. -/
def pad : UInt8 := 61

/-- The letter for six bits. -/
def letter (n : ℕ) : UInt8 :=
  UInt8.ofNat <|
    if n < 26 then 65 + n
    else if n < 52 then 71 + n
    else if n < 62 then n - 4
    else if n = 62 then 43
    else 47

example : (List.range 64).map letter
    = literal "ABCDEFGHIJKLMNOPQRSTUVWXYZabcdefghijklmnopqrstuvwxyz0123456789+/" := by
  decide

/-- The six bits that a letter stands for. -/
def letterValue (c : UInt8) : Option ℕ :=
  if 65 ≤ c ∧ c ≤ 90 then some (c.toNat - 65)
  else if 97 ≤ c ∧ c ≤ 122 then some (c.toNat - 71)
  else if 48 ≤ c ∧ c ≤ 57 then some (c.toNat + 4)
  else if c = 43 then some 62
  else if c = 47 then some 63
  else none

/-- Three bytes become four letters. -/
def encode : List UInt8 → List UInt8
  | [] => []
  | [a] => [letter (a.toNat / 4), letter (a.toNat % 4 * 16), pad, pad]
  | [a, b] =>
    [letter (a.toNat / 4), letter (a.toNat % 4 * 16 + b.toNat / 16), letter (b.toNat % 16 * 4), pad]
  | a :: b :: c :: rest =>
    letter (a.toNat / 4) :: letter (a.toNat % 4 * 16 + b.toNat / 16) ::
      letter (b.toNat % 16 * 4 + c.toNat / 64) :: letter (c.toNat % 64) :: encode rest

/-- Four letters become three bytes, or fewer in the last group. -/
def decode : List UInt8 → Option (List UInt8)
  | [] => some []
  | w :: x :: y :: z :: rest => do
    let w ← letterValue w
    let x ← letterValue x
    let a := UInt8.ofNat (w * 4 + x / 16)
    if y = pad then
      if z = pad ∧ rest = [] then return [a] else none
    else
      let y ← letterValue y
      let b := UInt8.ofNat (x % 16 * 16 + y / 4)
      if z = pad then
        if rest = [] then return [a, b] else none
      else
        let z ← letterValue z
        let bs ← decode rest
        return a :: b :: UInt8.ofNat (y % 4 * 64 + z) :: bs
  | _ => none

theorem letterValue_letter : ∀ n < 64, letterValue (letter n) = some n := by
  decide

theorem letter_ne_pad : ∀ n < 64, letter n ≠ pad := by
  decide

section Groups

variable {w x y z : ℕ} (hw : w < 64) (hx : x < 64) (hy : y < 64) (hz : z < 64)
include hw hx

theorem decode_one :
    decode [letter w, letter x, pad, pad] = some [UInt8.ofNat (w * 4 + x / 16)] := by
  simp only [decode, letterValue_letter w hw, letterValue_letter x hx, Option.bind_eq_bind,
    Option.bind_some]
  rfl

include hy

theorem decode_two : decode [letter w, letter x, letter y, pad]
    = some [UInt8.ofNat (w * 4 + x / 16), UInt8.ofNat (x % 16 * 16 + y / 4)] := by
  simp only [decode, letterValue_letter w hw, letterValue_letter x hx, letterValue_letter y hy,
    if_neg (letter_ne_pad y hy), Option.bind_eq_bind, Option.bind_some]
  rfl

include hz

/-- A group of four letters is decoded on its own. -/
theorem decode_three (rest : List UInt8) :
    decode (letter w :: letter x :: letter y :: letter z :: rest) = (decode rest).bind fun bs =>
      some (UInt8.ofNat (w * 4 + x / 16) :: UInt8.ofNat (x % 16 * 16 + y / 4) ::
        UInt8.ofNat (y % 4 * 64 + z) :: bs) := by
  simp only [decode, letterValue_letter w hw, letterValue_letter x hx, letterValue_letter y hy,
    letterValue_letter z hz, if_neg (letter_ne_pad y hy), if_neg (letter_ne_pad z hz),
    Option.bind_eq_bind, Option.bind_some]
  rfl

end Groups

theorem ofNat_eq_of_toNat {n : ℕ} {b : UInt8} (h : n = b.toNat) : UInt8.ofNat n = b := by
  rw [h, UInt8.ofNat_toNat]

/-- **What was encoded is decoded to itself.** -/
theorem decode_encode (bs : List UInt8) : decode (encode bs) = some bs := by
  induction bs using encode.induct with
  | case1 => rfl
  | case2 a =>
    have ha := a.toNat_lt
    rw [encode, decode_one (by omega) (by omega), ofNat_eq_of_toNat (b := a) (by omega)]
  | case3 a b =>
    have ha := a.toNat_lt
    have hb := b.toNat_lt
    rw [encode, decode_two (by omega) (by omega) (by omega), ofNat_eq_of_toNat (b := a) (by omega),
      ofNat_eq_of_toNat (b := b) (by omega)]
  | case4 a b c rest ih =>
    have ha := a.toNat_lt
    have hb := b.toNat_lt
    have hc := c.toNat_lt
    rw [encode, decode_three (by omega) (by omega) (by omega) (by omega), ih, Option.bind_some,
      ofNat_eq_of_toNat (b := a) (by omega), ofNat_eq_of_toNat (b := b) (by omega),
      ofNat_eq_of_toNat (b := c) (by omega)]

/-- What holds of the letters and of the padding holds of all bytes of an encoding. -/
theorem forall_mem_encode {p : UInt8 → Prop} (hletter : ∀ n < 64, p (letter n)) (hpad : p pad)
    (bs : List UInt8) : ∀ c ∈ encode bs, p c := by
  induction bs using encode.induct with
  | case1 =>
    intro c hc
    exact absurd hc List.not_mem_nil
  | case2 a =>
    have ha := a.toNat_lt
    simp only [encode, List.forall_mem_cons]
    exact ⟨hletter _ (by omega), hletter _ (by omega), hpad, hpad, fun c => by simp⟩
  | case3 a b =>
    have ha := a.toNat_lt
    have hb := b.toNat_lt
    simp only [encode, List.forall_mem_cons]
    exact ⟨hletter _ (by omega), hletter _ (by omega), hletter _ (by omega), hpad,
      fun c => by simp⟩
  | case4 a b c rest ih =>
    have ha := a.toNat_lt
    have hb := b.toNat_lt
    have hc := c.toNat_lt
    simp only [encode, List.forall_mem_cons]
    exact ⟨hletter _ (by omega), hletter _ (by omega), hletter _ (by omega),
      hletter _ (by omega), ih⟩

end Base64

end Evm
