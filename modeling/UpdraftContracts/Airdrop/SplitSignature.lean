import UpdraftContracts.Evm.Memory

/-!
# The two signature splitters

Two scripts of the airdrop take a signature apart that is given as `bytes memory`. Both read `r` and
`s` as words. For `v`, the last byte, one takes the top byte of the word that begins there. The
other reads the word that ends there, into a variable of type `uint8`.

## Main results

* `splitters_agree` — both accept the signatures of `65` bytes, and undo `abi.encodePacked(r, s, v)`
-/

namespace UpdraftContracts

open Evm

namespace Airdrop

namespace SplitSignature

/-- The error of the script. -/
inductive Error where
  | __SplitSignatureScript__InvalidSignatureLength
  deriving DecidableEq

/-- `sig` is the pointer to the signature. -/
def splitSignature (mem : Memory) (sig : ℕ) : Exec Error (UInt8 × Word × Word) := do
  revertIf ((mem.mload sig).val ≠ 65) .__SplitSignatureScript__InvalidSignatureLength
  let r := mem.mload (wrappingAdd sig 32)
  let s := mem.mload (wrappingAdd sig 64)
  let v := byte 0 (mem.mload (wrappingAdd sig 96))
  return (toUint8 v, r, s)

end SplitSignature

namespace ClaimAirdrop

/-- The error of the script. -/
inductive Error where
  | ClaimAirdrop__InvalidSignatureLength
  deriving DecidableEq

/-- Sixty-five bytes, in three parts. -/
def SIGNATURE : List UInt8 :=
  encodeBytes 32 0x12e145324b60cd4d302bfad59f72946d45ffad8b9fd608e672fd7f02029de7c4 ++
    encodeBytes 32 0x38cfa0b8251ea803f361522da811406d441df04ee99c3dc7d65f8550e12be2ca ++ [0x1c]

/-- `sig` is the pointer to the signature. -/
def _splitSignature (mem : Memory) (sig : ℕ) : Exec Error (UInt8 × Word × Word) := do
  revertIf ((mem.mload sig).val ≠ 65) .ClaimAirdrop__InvalidSignatureLength
  let r := mem.mload (wrappingAdd sig 32)
  let s := mem.mload (wrappingAdd sig 64)
  let v := mem.mload (wrappingAdd sig 65)
  return (toUint8 v, r, s)

end ClaimAirdrop

variable {mem : Memory} {p : ℕ} {sig : List UInt8}

/-- What both return for a signature of the right length. -/
def split (mem : Memory) (p : ℕ) : UInt8 × Word × Word :=
  (mem (p + 96), mem.mload (p + 32), mem.mload (p + 64))

/-- The addresses do not wrap around. -/
theorem wrappingAdd_eq_of_holds (h : HoldsBytes mem p sig) (hlength : sig.length = 65) {i : ℕ}
    (hi : i < 97) : wrappingAdd p i = p + i := by
  have hfits := h.fits
  exact wrappingAdd_of_lt (by omega)

/-- The first script loads the three words at the right places. -/
theorem splitSignature_eq (h : HoldsBytes mem p sig) (hlength : sig.length = 65) :
    SplitSignature.splitSignature mem p = .ok (split mem p) := by
  have hpass : revertIf ((mem.mload p).val ≠ 65)
      SplitSignature.Error.__SplitSignatureScript__InvalidSignatureLength = .ok () :=
    revertIf_eq_ok.mpr (not_not.mpr (h.length.trans hlength))
  have hadd {i : ℕ} (hi : i < 97) := wrappingAdd_eq_of_holds h hlength hi
  have hv : toUint8 (byte 0 (mem.mload (p + 96))) = mem (p + 96) := Memory.byte_zero_mload
  rw [SplitSignature.splitSignature, hpass, ok_bind, hadd (by decide : 32 < 97),
    hadd (by decide : 64 < 97), hadd (by decide : 96 < 97), split, ← hv]
  rfl

/-- So does the second one. -/
theorem splitSignature_internal_eq (h : HoldsBytes mem p sig) (hlength : sig.length = 65) :
    ClaimAirdrop._splitSignature mem p = .ok (split mem p) := by
  have hpass : revertIf ((mem.mload p).val ≠ 65)
      ClaimAirdrop.Error.ClaimAirdrop__InvalidSignatureLength = .ok () :=
    revertIf_eq_ok.mpr (not_not.mpr (h.length.trans hlength))
  have hadd {i : ℕ} (hi : i < 97) := wrappingAdd_eq_of_holds h hlength hi
  have hv : toUint8 (mem.mload (p + 65)) = mem (p + 96) := Memory.toUint8_mload
  rw [ClaimAirdrop._splitSignature, hpass, ok_bind, hadd (by decide : 32 < 97),
    hadd (by decide : 64 < 97), hadd (by decide : 65 < 97), split, ← hv]
  rfl

/-- Nothing is lost. -/
theorem encodePacked_split (h : HoldsBytes mem p sig) (hlength : sig.length = 65) :
    encodePacked (split mem p).2.1 (split mem p).2.2 (split mem p).1 = sig := by
  have hbytes := h.bytes
  rw [hlength] at hbytes
  calc encodePacked (mem.mload (p + 32)) (mem.mload (p + 64)) (mem (p + 96))
      = mem.window (p + 32) 32 ++ mem.window (p + 64) 32 ++ mem.window (p + 96) 1 := by
        rw [encodePacked, Memory.encodeWord_mload, Memory.encodeWord_mload, Memory.window_one]
    _ = mem.window (p + 32) (32 + 32 + 1) := by rw [Memory.window_add, Memory.window_add]
    _ = sig := hbytes

/-- **The splitters agree.** Whatever stands in memory behind a byte string, both functions revert
unless its length is `65`, and otherwise they return the same `(v, r, s)`, of which the byte string
is the packed encoding. -/
theorem splitters_agree (h : HoldsBytes mem p sig) :
    (sig.length ≠ 65 →
      SplitSignature.splitSignature mem p
        = .error (.custom .__SplitSignatureScript__InvalidSignatureLength) ∧
      ClaimAirdrop._splitSignature mem p
        = .error (.custom .ClaimAirdrop__InvalidSignatureLength)) ∧
    (sig.length = 65 → ∃ v r s,
      SplitSignature.splitSignature mem p = .ok (v, r, s) ∧
      ClaimAirdrop._splitSignature mem p = .ok (v, r, s) ∧ encodePacked r s v = sig) := by
  refine ⟨fun hlength => ?_, fun hlength => ?_⟩
  · have hword : (mem.mload p).val ≠ 65 := h.length ▸ hlength
    constructor
    · rw [SplitSignature.splitSignature, revertIf, if_pos hword]
      rfl
    · rw [ClaimAirdrop._splitSignature, revertIf, if_pos hword]
      rfl
  · exact ⟨_, _, _, splitSignature_eq h hlength, splitSignature_internal_eq h hlength,
      encodePacked_split h hlength⟩

/-- The signature of the script at address `128`, with a byte behind it. -/
def sampleMemory : Memory := fun a =>
  (encodeUint256 65 ++ ClaimAirdrop.SIGNATURE ++ [0xff]).getD (a - 128) 0

theorem sampleMemory_holds : HoldsBytes sampleMemory 128 ClaimAirdrop.SIGNATURE :=
  ⟨by decide, by decide, by decide⟩

theorem splitters_agree_sample :
    ∃ v r s, ClaimAirdrop._splitSignature sampleMemory 128 = .ok (v, r, s) ∧
      encodePacked r s v = ClaimAirdrop.SIGNATURE := by
  obtain ⟨v, r, s, -, hsplit, hpacked⟩ := (splitters_agree sampleMemory_holds).2 (by decide)
  exact ⟨v, r, s, hsplit, hpacked⟩

end Airdrop

end UpdraftContracts
