import UpdraftContracts.Evm.Abi

/-!
# Memory

Memory is a sequence of bytes, and `mload` reads a word of it at any address. A `bytes memory` is a
pointer to a word with its length, behind which its bytes stand. Other data follows them.

## Main results

* `encodeWord_mload` — a word that is read, as the bytes it is read from
* `byte_zero_mload`, `toUint8_mload` — its first byte and its last
* `window_add` — two adjacent windows of memory are one
-/

namespace Evm

/-- The byte at each address. -/
abbrev Memory : Type := ℕ → UInt8

/-- `add(a, b)`, which wraps around. -/
def wrappingAdd (a b : ℕ) : ℕ := (a + b) % uint256Size

theorem wrappingAdd_of_lt {a b : ℕ} (h : a + b < uint256Size) : wrappingAdd a b = a + b :=
  Nat.mod_eq_of_lt h

/-- `byte(n, w)`, counted from the most significant byte. -/
def byte (n : ℕ) (w : Word) : Word :=
  if n < 32 then Word.ofNat (w.val / 256 ^ (31 - n) % 256) else 0

/-- What is left of a word in a variable of type `uint8`. -/
def toUint8 (w : Word) : UInt8 := UInt8.ofNat w.val

namespace Memory

variable {mem : Memory} {a m n : ℕ}

/-- The `n` bytes from an address on. -/
def window (mem : Memory) (a n : ℕ) : List UInt8 := (List.range n).map fun i => mem (a + i)

/-- `mload(a)` -/
def mload (mem : Memory) (a : ℕ) : Word := Word.ofNat (decodeBytes (mem.window a 32))

@[simp] theorem length_window : (mem.window a n).length = n := by
  rw [window, List.length_map, List.length_range]

theorem window_add : mem.window a (m + n) = mem.window a m ++ mem.window (a + m) n := by
  simp only [window, List.range_add, List.map_append, List.map_map, Function.comp_def,
    Nat.add_assoc]

theorem window_one : mem.window a 1 = [mem a] := rfl

theorem mload_val : (mem.mload a).val = decodeBytes (mem.window a 32) := by
  have hlt := decodeBytes_lt (mem.window a 32)
  rw [length_window] at hlt
  exact Nat.mod_eq_of_lt hlt

/-- A loaded word has the bytes of memory. -/
theorem encodeWord_mload : encodeWord (mem.mload a) = mem.window a 32 := by
  have hbytes := encodeBytes_decodeBytes (mem.window a 32)
  rw [length_window] at hbytes
  rw [encodeWord, encodeUint256, mload_val, hbytes]

/-- The first byte of a word is the one at its address. -/
theorem byte_zero_mload : toUint8 (byte 0 (mem.mload a)) = mem a := by
  have hsplit : mem.window a 32 = mem a :: mem.window (a + 1) 31 := window_add (m := 1) (n := 31)
  have hrest := decodeBytes_lt (mem.window (a + 1) 31)
  have hlt := (mem a).toNat_lt
  have hword : (mem.mload a).val
      = (mem a).toNat * 256 ^ 31 + decodeBytes (mem.window (a + 1) 31) := by
    rw [mload_val, hsplit, decodeBytes_cons, length_window]
  have hbyte : (mem.mload a).val / 256 ^ (31 - 0) % 256 = (mem a).toNat := by
    rw [length_window] at hrest
    omega
  have hval : (byte 0 (mem.mload a)).val = (mem a).toNat := by
    rw [byte, if_pos (by decide), hbyte]
    exact Nat.mod_eq_of_lt (hlt.trans (by decide))
  rw [toUint8, hval]
  exact UInt8.ofNat_toNat

/-- The last byte of a word is the one that a `uint8` keeps. -/
theorem toUint8_mload : toUint8 (mem.mload a) = mem (a + 31) := by
  have hsplit : mem.window a 32 = mem.window a 31 ++ [mem (a + 31)] :=
    window_add (m := 31) (n := 1)
  rw [toUint8, mload_val, hsplit, decodeBytes_append_singleton]
  refine UInt8.toNat_inj.mp ?_
  have hlt := (mem (a + 31)).toNat_lt
  rw [UInt8.toNat_ofNat']
  omega

end Memory

/-- The `bytes memory` at `p` is `bs`. It lies within the addresses that a word can have. -/
structure HoldsBytes (mem : Memory) (p : ℕ) (bs : List UInt8) : Prop where
  length : (mem.mload p).val = bs.length
  bytes : mem.window (p + 32) bs.length = bs
  fits : p + 32 + bs.length ≤ uint256Size

end Evm
