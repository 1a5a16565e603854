import UpdraftContracts.Airdrop.MerkleAirdrop

/-!
# `MakeMerkle`

The script that turns a list of accounts and amounts into a Merkle tree. Its output is what the
airdrop is deployed with and what claims are made with: the root, and for each entry a leaf and a
proof.

The script gets at the bytes of an entry in another way than the contract. It collects words in an
array, encodes the array, and cuts off the header. What it reads from its input file is a parameter,
and so is the library `murky`, which cuts off the header, builds the tree and makes the proofs. That
its proofs are accepted is taken for granted.

## Main results

* `makeLeaf_eq_leaf` — the script and the contract compute the same leaf
* `run_eq_some` — what the script puts out
* `verify_output` — the contract accepts it
-/

namespace UpdraftContracts

open Evm

namespace Airdrop

namespace MakeMerkle

/-- What `types` says about a column. -/
inductive ColumnType where
  | address
  | uint
  /-- Neither of the two. The script skips such a column. -/
  | other
  deriving DecidableEq

/-- The input file. -/
structure Input where
  types : List ColumnType
  count : ℕ
  /-- `elements.readAddress(getValuesByIndex(i, j))` -/
  readAddress : (i j : ℕ) → Address
  /-- `vm.parseUint(elements.readString(getValuesByIndex(i, j)))` -/
  readUint : (i j : ℕ) → Word

/-- An entry of the output file. -/
structure Output where
  proof : List Word
  root : Word
  leaf : Word

/-- The library `murky`. Its contract `Merkle` refuses a single leaf. -/
structure Murky (keccak256 : List UInt8 → Word) where
  /-- `Merkle.getRoot` -/
  getRoot : (data : List Word) → Option Word
  /-- `Merkle.getProof` -/
  getProof : (data : List Word) → (node : ℕ) → Option (List Word)
  /-- `ScriptHelper.ltrim64` -/
  ltrim64 : List UInt8 → List UInt8
  /-- Two leaves or more have a root. -/
  exists_getRoot : ∀ {data}, 2 ≤ data.length → ∃ root, getRoot data = some root
  /-- Each of them has a proof. -/
  exists_getProof : ∀ {data node}, 2 ≤ data.length → node < data.length →
    ∃ proof, getProof data node = some proof
  /-- The proof of a leaf is accepted for the root. -/
  verify_getProof : ∀ {data node root proof}, node < data.length → getRoot data = some root →
    getProof data node = some proof → Merkle.verify keccak256 concat proof root (data.getD node 0)
  /-- The first 64 bytes are cut off. -/
  ltrim64_eq : ∀ bs, ltrim64 bs = bs.drop 64

/-- A library that works: with the trees of `Evm.Merkle`. -/
def murky (keccak256 : List UInt8 → Word) : Murky keccak256 where
  getRoot data := guardSome (1 < data.length) (Merkle.root keccak256 concat 0 data)
  getProof data node := guardSome (1 < data.length) (Merkle.getProof keccak256 concat 0 data node)
  ltrim64 bs := bs.drop 64
  exists_getRoot h := ⟨_, guardSome_eq_some.mpr ⟨h, rfl⟩⟩
  exists_getProof h _ := ⟨_, guardSome_eq_some.mpr ⟨h, rfl⟩⟩
  verify_getProof hnode hroot hproof := by
    obtain ⟨-, rfl⟩ := guardSome_eq_some.mp hroot
    obtain ⟨-, rfl⟩ := guardSome_eq_some.mp hproof
    exact Merkle.verify_getProof keccak256 concat 0 hnode
  ltrim64_eq _ := rfl

variable {C : Crypto} (M : Murky C.keccak256) (input : Input)

/-- The words of an entry. A column that is skipped keeps the zero it was allocated with. -/
def data (i : ℕ) : List Word :=
  input.types.mapIdx fun j type =>
    match type with
    | .address => Word.ofAddress (input.readAddress i j)
    | .uint => input.readUint i j
    | .other => 0

/-- The leaf of an entry: the bytes of its words, hashed twice. -/
def makeLeaf (i : ℕ) : Word :=
  C.keccak256 (encodeWord (C.keccak256 (M.ltrim64 (encodeWordArray (data input i)))))

/-- What the first loop leaves in `leafs`. -/
def leafs : List Word := (List.range input.count).map (makeLeaf M input)

/-- The second loop, which makes an output for each entry. -/
def run : Option (List Output) :=
  (List.range input.count).mapM fun i => do
    let proof ← M.getProof (leafs M input) i
    let root ← M.getRoot (leafs M input)
    return ⟨proof, root, (leafs M input).getD i 0⟩

/-- An account and an amount in the columns of an input file. -/
def Input.entry (input : Input) (i : ℕ) : Address × Word :=
  (input.readAddress i 0, input.readUint i 1)

/-- All accounts and amounts. -/
def Input.entries (input : Input) : List (Address × Word) :=
  (List.range input.count).map input.entry

variable {M input} {i : ℕ}

/-- **Two encoders.** -/
theorem makeLeaf_eq_leaf (htypes : input.types = [.address, .uint]) (i : ℕ) :
    makeLeaf M input i = MerkleAirdrop.leaf C (input.entry i).1 (input.entry i).2 := by
  have hdata : data input i
      = [Word.ofAddress (input.readAddress i 0), input.readUint i 1] := by
    rw [data, htypes]
    rfl
  have hbytes : M.ltrim64 (encodeWordArray (data input i))
      = encodePair (input.entry i).1 (input.entry i).2 := by
    rw [M.ltrim64_eq, drop_encodeWordArray, hdata, List.flatMap_cons, List.flatMap_cons,
      List.flatMap_nil, List.append_nil, encodeWord_ofAddress]
    rfl
  rw [makeLeaf, hbytes]
  rfl

/-- The leaves of the script are those of the contract. -/
theorem leafs_eq (htypes : input.types = [.address, .uint]) :
    leafs M input = input.entries.map fun e => MerkleAirdrop.leaf C e.1 e.2 := by
  rw [leafs, Input.entries, List.map_map]
  exact List.map_congr_left fun i _ => makeLeaf_eq_leaf htypes i

@[simp] theorem length_leafs : (leafs M input).length = input.count := by
  rw [leafs, List.length_map, List.length_range]

theorem getD_leafs (hi : i < input.count) : (leafs M input).getD i 0 = makeLeaf M input i := by
  rw [leafs, List.getD_eq_getElem _ _ (by simpa using hi), List.getElem_map, List.getElem_range]

/-- The root in each output. -/
def root (M : Murky C.keccak256) (input : Input) : Word := (M.getRoot (leafs M input)).getD 0

/-- What the script puts out for an entry. -/
def output (M : Murky C.keccak256) (input : Input) (i : ℕ) : Output :=
  ⟨(M.getProof (leafs M input) i).getD [], root M input, (leafs M input).getD i 0⟩

theorem getRoot_leafs (hcount : 2 ≤ input.count) :
    M.getRoot (leafs M input) = some (root M input) := by
  obtain ⟨r, hr⟩ := M.exists_getRoot (hcount.trans_eq (length_leafs (M := M)).symm)
  rw [root, hr]
  rfl

theorem getProof_leafs (hcount : 2 ≤ input.count) (hi : i < input.count) :
    M.getProof (leafs M input) i = some (output M input i).proof := by
  obtain ⟨proof, hproof⟩ := M.exists_getProof (hcount.trans_eq (length_leafs (M := M)).symm)
    (hi.trans_eq (length_leafs (M := M)).symm)
  rw [output, hproof]
  rfl

/-- Reading every item of a list, when each of them can be read. -/
theorem mapM_eq_some {α β : Type} {f : α → Option β} {g : α → β} {xs : List α}
    (h : ∀ x ∈ xs, f x = some (g x)) : xs.mapM f = some (xs.map g) := by
  induction xs with
  | nil => rfl
  | cons x xs ih =>
    rw [List.mapM_cons, h x List.mem_cons_self, ih fun y hy => h y (List.mem_cons_of_mem x hy)]
    rfl

/-- **What the script puts out.** -/
theorem run_eq_some (hcount : 2 ≤ input.count) :
    run M input = some ((List.range input.count).map (output M input)) := by
  refine mapM_eq_some fun i hi => ?_
  rw [getProof_leafs hcount (List.mem_range.mp hi), getRoot_leafs hcount]
  rfl

/-- **The contract accepts what the script puts out.** -/
theorem verify_output (htypes : input.types = [.address, .uint]) (hcount : 2 ≤ input.count)
    (hi : i < input.count) :
    Merkle.verify C.keccak256 concat (output M input i).proof (root M input)
      (MerkleAirdrop.leaf C (input.entry i).1 (input.entry i).2) := by
  have hverify := M.verify_getProof (hi.trans_eq (length_leafs (M := M)).symm)
    (getRoot_leafs hcount) (getProof_leafs hcount hi)
  rwa [getD_leafs hi, makeLeaf_eq_leaf htypes] at hverify

end MakeMerkle

end Airdrop

end UpdraftContracts
