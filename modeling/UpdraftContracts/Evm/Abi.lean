import UpdraftContracts.Evm.Basic

/-!
# Words as bytes

`abi.encode` of a single `uint256` is its big-endian representation in 32 bytes. `abi.decode` reads
the first 32 bytes and reverts when there are fewer; it ignores what comes after them.

`Word` is the type of words, for where a word has to be one. Elsewhere words are numbers.

## Main results

* `decodeUint256_encodeUint256` — a word that was encoded is decoded to itself
* `encodeBytes_decodeBytes` — bytes that were decoded are encoded to themselves
* `drop_encodeWordArray` — behind two words of header stand the elements of an array
* `encodePair_inj` — an account and a word that are encoded together are determined by the encoding
-/

namespace Evm

/-- The last `k` bytes of the big-endian representation of `n`. -/
def encodeBytes : ℕ → ℕ → List UInt8
  | 0, _ => []
  | k + 1, n => encodeBytes k (n / 256) ++ [UInt8.ofNat n]

/-- The number with a given big-endian representation. -/
def decodeBytes (bs : List UInt8) : ℕ := bs.foldl (fun n b => n * 256 + b.toNat) 0

theorem length_encodeBytes (k n : ℕ) : (encodeBytes k n).length = k := by
  induction k generalizing n with
  | zero => rfl
  | succ k ih => rw [encodeBytes, List.length_append, ih, List.length_singleton]

theorem decodeBytes_append_singleton (bs : List UInt8) (b : UInt8) :
    decodeBytes (bs ++ [b]) = decodeBytes bs * 256 + b.toNat := by
  rw [decodeBytes, List.foldl_append]
  rfl

/-- Bytes hold a number up to their size. -/
theorem decodeBytes_encodeBytes (k n : ℕ) : decodeBytes (encodeBytes k n) = n % 256 ^ k := by
  induction k generalizing n with
  | zero => rw [Nat.pow_zero, Nat.mod_one]; rfl
  | succ k ih =>
    have hbyte : (UInt8.ofNat n).toNat = n % 256 := UInt8.toNat_ofNat'
    rw [encodeBytes, decodeBytes_append_singleton, ih, hbyte, Nat.pow_succ', Nat.mod_mul,
      Nat.mul_comm, Nat.add_comm]

theorem decodeBytes_lt (bs : List UInt8) : decodeBytes bs < 256 ^ bs.length := by
  induction bs using List.reverseRecOn with
  | nil => exact Nat.one_pos
  | append_singleton bs b ih =>
    have hb := b.toNat_lt
    rw [decodeBytes_append_singleton, List.length_append, List.length_singleton, Nat.pow_succ]
    omega

/-- Bytes that were decoded are encoded to themselves. -/
theorem encodeBytes_decodeBytes (bs : List UInt8) :
    encodeBytes bs.length (decodeBytes bs) = bs := by
  induction bs using List.reverseRecOn with
  | nil => rfl
  | append_singleton bs b ih =>
    have hb := b.toNat_lt
    have hquotient : (decodeBytes bs * 256 + b.toNat) / 256 = decodeBytes bs := by omega
    have hbyte : UInt8.ofNat (decodeBytes bs * 256 + b.toNat) = b := by
      refine UInt8.toNat_inj.mp ?_
      rw [UInt8.toNat_ofNat']
      omega
    rw [decodeBytes_append_singleton, List.length_append, List.length_singleton, encodeBytes,
      hquotient, hbyte, ih]

/-- The first byte is the most significant one. -/
theorem decodeBytes_cons (b : UInt8) (bs : List UInt8) :
    decodeBytes (b :: bs) = b.toNat * 256 ^ bs.length + decodeBytes bs := by
  induction bs using List.reverseRecOn with
  | nil => rw [List.length_nil, Nat.pow_zero, Nat.mul_one]; exact Nat.zero_add _
  | append_singleton bs c ih =>
    rw [← List.cons_append, decodeBytes_append_singleton, decodeBytes_append_singleton, ih,
      List.length_append, List.length_singleton, Nat.pow_succ, ← Nat.mul_assoc]
    omega

/-- `abi.encode(n)` -/
def encodeUint256 (n : ℕ) : List UInt8 := encodeBytes 32 n

/-- `abi.encode(a)` of an address, which is padded to a word. -/
def encodeAddress (a : Address) : List UInt8 := encodeUint256 a.val

/-- `abi.decode(bs, (uint256))` -/
def decodeUint256 (bs : List UInt8) : Option ℕ :=
  if bs.length < 32 then none else some (decodeBytes (bs.take 32))

/-- What is encoded can be decoded. -/
theorem decodeUint256_encodeUint256 {n : ℕ} (h : n < uint256Size) :
    decodeUint256 (encodeUint256 n) = some n := by
  have hlen := length_encodeBytes 32 n
  rw [decodeUint256, encodeUint256, if_neg (by omega), List.take_of_length_le (by omega),
    decodeBytes_encodeBytes, Nat.mod_eq_of_lt]
  exact h

theorem encodeUint256_inj {m n : ℕ} (hm : m < uint256Size) (hn : n < uint256Size)
    (h : encodeUint256 m = encodeUint256 n) : m = n := by
  have hdecode := congrArg decodeUint256 h
  rw [decodeUint256_encodeUint256 hm, decodeUint256_encodeUint256 hn] at hdecode
  exact Option.some.inj hdecode

/-- `uint256` and `bytes32` -/
abbrev Word : Type := Fin uint256Size

/-- `bytes32(n)` -/
def Word.ofNat (n : ℕ) : Word := ⟨n % uint256Size, Nat.mod_lt n (by decide)⟩

instance (n : ℕ) : OfNat Word n := ⟨Word.ofNat n⟩

/-- A word as 32 bytes. -/
def encodeWord (w : Word) : List UInt8 := encodeUint256 w.val

theorem length_encodeWord (w : Word) : (encodeWord w).length = 32 := length_encodeBytes 32 w.val

theorem encodeWord_inj {v w : Word} (h : encodeWord v = encodeWord w) : v = w :=
  Fin.ext (encodeUint256_inj v.isLt w.isLt h)

/-- `bytes32(uint256(uint160(a)))` -/
def Word.ofAddress (a : Address) : Word := Word.ofNat a.val

theorem encodeWord_ofAddress (a : Address) : encodeWord (Word.ofAddress a) = encodeAddress a := by
  have hlt : a.val < uint256Size := a.isLt.trans (by decide)
  rw [encodeWord, Word.ofAddress, Word.ofNat, encodeAddress]
  dsimp only
  rw [Nat.mod_eq_of_lt hlt]

/-- `abi.encode(ws)` of a `bytes32[]`: where the array begins, its length, and its elements. -/
def encodeWordArray (ws : List Word) : List UInt8 :=
  encodeUint256 32 ++ (encodeUint256 ws.length ++ ws.flatMap encodeWord)

/-- Behind the offset and the length come the words. -/
theorem drop_encodeWordArray (ws : List Word) :
    (encodeWordArray ws).drop 64 = ws.flatMap encodeWord := by
  have hlen : ∀ n, (encodeUint256 n).length = 32 := length_encodeBytes 32
  rw [encodeWordArray, ← List.append_assoc]
  exact List.drop_left' (by rw [List.length_append, hlen, hlen])

/-- Two words of a fixed size can be told apart. -/
theorem encodeWords_inj {a b c d : Word}
    (h : encodeWord a ++ encodeWord b = encodeWord c ++ encodeWord d) : a = c ∧ b = d := by
  obtain ⟨hac, hbd⟩ := List.append_inj h (by rw [length_encodeWord, length_encodeWord])
  exact ⟨encodeWord_inj hac, encodeWord_inj hbd⟩

/-- `abi.encodePacked(r, s, v)`: the components of a signature in a row. -/
def encodePacked (r s : Word) (v : UInt8) : List UInt8 := encodeWord r ++ encodeWord s ++ [v]

/-- `abi.encode(account, amount)` -/
def encodePair (account : Address) (amount : Word) : List UInt8 :=
  encodeAddress account ++ encodeWord amount

theorem encodeAddress_inj {a b : Address} (h : encodeAddress a = encodeAddress b) : a = b := by
  have hlt : ∀ a : Address, a.val < uint256Size := fun a => a.isLt.trans (by decide)
  exact Fin.ext (encodeUint256_inj (hlt a) (hlt b) h)

/-- An account and a word can be told apart. -/
theorem encodePair_inj {a b : Address} {v w : Word} (h : encodePair a v = encodePair b w) :
    a = b ∧ v = w := by
  obtain ⟨haddress, hword⟩ :=
    List.append_inj h ((length_encodeBytes 32 a.val).trans (length_encodeBytes 32 b.val).symm)
  exact ⟨encodeAddress_inj haddress, encodeWord_inj hword⟩

end Evm
