import UpdraftContracts.Airdrop.GenerateInput

/-!
# The output file of `MakeMerkle`

`MakeMerkle` writes what it has computed to a file, as a JSON document put together from texts. For
each entry it has the account and the amount, the proof, the root and the leaf. Accounts are written
with capital letters where the checksum of EIP-55 asks for them. The helpers that make an array of
texts are those of `murky`, and parameters: they make JSON arrays.

`readOutputs` is how somebody who wants to claim takes the file apart again.

## Main results

* `parseHex_toChecksum` — the checksum does not change the account
* `output_file` — what is read is what was computed
-/

namespace UpdraftContracts

open Evm

namespace Airdrop

namespace MakeMerkle

/-! ## Writing the file -/

/-- A digit with a capital letter. -/
def upperDigitByte (d : ℕ) : UInt8 := UInt8.ofNat (if d < 10 then 48 + d else 55 + d)

/-- `vm.toString` of an `address`: a digit is a capital letter if the digit at its place in the hash
of the text without capital letters is at least eight. -/
def toChecksum (C : Crypto) (a : Address) : List UInt8 :=
  let digits := digitsOf 16 40 a.val
  let hash := digitsOf 16 64 (C.keccak256 (digits.map digitByte)).val
  literal "0x" ++ digits.mapIdx fun i d =>
    if 8 ≤ hash.getD i 0 then upperDigitByte d else digitByte d

/-- `vm.toString` of a `bytes32` -/
def wordText (w : Word) : List UInt8 := hex 64 w.val

/-- `ScriptHelper` of `murky`. The first function is given documents, the second one texts, and the
third one words. -/
structure ScriptHelper where
  stringArrayToArrayString : List (List UInt8) → List UInt8
  stringArrayToString : List (List UInt8) → List UInt8
  bytes32ArrayToString : List Word → List UInt8
  /-- It is the array of the documents. -/
  parses_stringArrayToArrayString : ∀ {n texts vs},
    List.Forall₂ (Json.Parses (Json.value n)) texts vs →
      Json.Parses (Json.value (n + 1)) (stringArrayToArrayString texts) (.array vs)
  /-- The documents are in it, and the brackets. -/
  length_lt : ∀ {texts text}, text ∈ texts →
    text.length < (stringArrayToArrayString texts).length
  /-- It is the array of the texts, each in quotes. -/
  parses_stringArrayToString : ∀ {n texts}, (∀ text ∈ texts, ∀ c ∈ text, Json.isPlain c) →
    Json.Parses (Json.value (n + 2)) (stringArrayToString texts) (.array (texts.map .string))
  /-- It is the array of the words, each in quotes. -/
  parses_bytes32ArrayToString : ∀ {n words},
    Json.Parses (Json.value (n + 2)) (bytes32ArrayToString words)
      (.array ((words.map wordText).map .string))

variable (C : Crypto) (H : ScriptHelper)

/-- What the file has about an entry. -/
def generateJsonEntries (_inputs _proof _root _leaf : List UInt8) : List UInt8 :=
  literal "\x7b" ++ literal "\"inputs\":" ++ _inputs ++ literal ","
    ++ literal "\"proof\":" ++ _proof ++ literal ","
    ++ literal "\"root\":\"" ++ _root ++ literal "\","
    ++ literal "\"leaf\":\"" ++ _leaf ++ literal "\"" ++ literal "\x7d"

/-- The texts of the columns of an entry. A column that is skipped keeps the empty string. -/
def columnTexts (input : Input) (i : ℕ) : List (List UInt8) :=
  input.types.mapIdx fun j type =>
    match type with
    | .address => toChecksum C (input.readAddress i j)
    | .uint => decimal (input.readUint i j).val
    | .other => []

/-- The text that is written to the file. -/
def outputText (input : Input) (outputs : List Output) : List UInt8 :=
  H.stringArrayToArrayString (outputs.mapIdx fun i o =>
    generateJsonEntries (H.stringArrayToString (columnTexts C input i))
      (H.bytes32ArrayToString o.proof) (wordText o.root) (wordText o.leaf))

/-! ## Reading it -/

/-- All there is in the file about an entry. -/
structure FileEntry where
  account : Address
  amount : Word
  output : Output

/-- A word in a string. -/
def readWord (v : Json) : Option Word := do
  let n ← parseHex 64 (← textOf v)
  return Word.ofNat n

/-- The items of an array. -/
def readArray {α : Type} (read : Json → Option α) : Json → Option (List α)
  | .array items => items.mapM read
  | _ => none

/-- An entry of the file. -/
def readEntry (v : Json) : Option FileEntry := do
  let inputs ← readArray textOf (← v.get? (literal "inputs"))
  let account ← parseHex 40 (← inputs[0]?)
  let amount ← parseDecimal (← inputs[1]?)
  let proof ← readArray readWord (← v.get? (literal "proof"))
  let root ← readWord (← v.get? (literal "root"))
  let leaf ← readWord (← v.get? (literal "leaf"))
  return ⟨Address.ofNat account, Word.ofNat amount, proof, root, leaf⟩

/-- All entries of the file. -/
def readOutputs (file : List UInt8) : Option (List FileEntry) := do
  readArray readEntry (← Json.parse file)

/-! ## The texts of accounts and words -/

variable {C H}

theorem digitValue_upperDigitByte : ∀ d < 16, digitValue (upperDigitByte d) = some d := by
  decide

/-- Letters of both cases stand for the same digits. -/
theorem map_digitValue_mapIdx (p : ℕ → Prop) [DecidablePred p] {ds : List ℕ}
    (hds : ∀ d ∈ ds, d < 16) :
    (ds.mapIdx fun i d => if p i then upperDigitByte d else digitByte d).map digitValue
      = ds.map some := by
  refine List.ext_getElem? fun i => ?_
  rw [List.getElem?_map, List.getElem?_mapIdx, List.getElem?_map]
  cases hd : ds[i]? with
  | none => rfl
  | some d =>
    have hlt := hds d (List.mem_of_getElem? hd)
    simp only [Option.map_some]
    split
    · rw [digitValue_upperDigitByte d hlt]
    · rw [digitValue_digitByte hlt]

/-- **The checksum does not change the account.** -/
theorem parseHex_toChecksum (a : Address) : parseHex 40 (toChecksum C a) = some a.val := by
  have hval : a.val % 16 ^ 40 = a.val := Nat.mod_eq_of_lt a.isLt
  have hparse := parseHex_of_values (n := a.val) (map_digitValue_mapIdx
    (fun i => 8 ≤ (digitsOf 16 64
      (C.keccak256 ((digitsOf 16 40 a.val).map digitByte)).val).getD i 0)
    fun d => lt_of_mem_digitsOf (k := 40) (n := a.val) (Nat.succ_pos 15))
  exact hparse.trans (congrArg some hval)

theorem parseHex_wordText (w : Word) : parseHex 64 (wordText w) = some w.val := by
  have hval : w.val % 16 ^ 64 = w.val := Nat.mod_eq_of_lt w.isLt
  rw [wordText, parseHex_hex, hval]

/-! ## The text as a document -/

variable {n : ℕ} {texts : List (List UInt8)}

/-- What the file says about an entry. -/
def entryJson (texts : List (List UInt8)) (o : Output) : Json :=
  .object [
    (literal "inputs", .array (texts.map .string)),
    (literal "proof", .array ((o.proof.map wordText).map .string)),
    (literal "root", .string (wordText o.root)),
    (literal "leaf", .string (wordText o.leaf))]

/-- The pieces make up an object with four members. -/
theorem generateJsonEntries_eq (_inputs _proof _root _leaf : List UInt8) :
    generateJsonEntries _inputs _proof _root _leaf = Json.openBrace :: ([Json.comma].intercalate [
      Json.quoted (literal "inputs") ++ Json.colon :: _inputs,
      Json.quoted (literal "proof") ++ Json.colon :: _proof,
      Json.quoted (literal "root") ++ Json.colon :: Json.quoted _root,
      Json.quoted (literal "leaf") ++ Json.colon :: Json.quoted _leaf]
      ++ [] ++ [Json.closeBrace]) := by
  simp only [generateJsonEntries, Json.quoted, List.intercalate_cons_cons,
    List.intercalate_singleton, List.append_assoc, List.cons_append, List.append_nil]
  rfl

theorem isPlain_wordText (w : Word) : ∀ c ∈ wordText w, Json.isPlain c :=
  Json.isPlain_of_parseHex (parseHex_wordText w)

/-- What is written for an entry is the JSON it is meant to be. -/
theorem parses_entry (hplain : ∀ text ∈ texts, ∀ c ∈ text, Json.isPlain c) (o : Output) :
    Json.Parses (Json.value (n + 3))
      (generateJsonEntries (H.stringArrayToString texts) (H.bytes32ArrayToString o.proof)
        (wordText o.root) (wordText o.leaf)) (entryJson texts o) := by
  rw [generateJsonEntries_eq]
  refine Json.parses_object (List.forall_mem_nil _)
    (.cons ?_ (.cons ?_ (.cons ?_ (.cons ?_ .nil))))
  · exact Json.parses_member (List.all_eq_true.mp (by decide))
      (H.parses_stringArrayToString hplain)
  · exact Json.parses_member (List.all_eq_true.mp (by decide)) H.parses_bytes32ArrayToString
  · exact Json.parses_member (List.all_eq_true.mp (by decide))
      (Json.parses_string (isPlain_wordText o.root))
  · exact Json.parses_member (List.all_eq_true.mp (by decide))
      (Json.parses_string (isPlain_wordText o.leaf))

theorem isPlain_columnTexts (input : Input) (i : ℕ) :
    ∀ text ∈ columnTexts C input i, ∀ c ∈ text, Json.isPlain c := by
  intro text htext
  obtain ⟨j, hj, rfl⟩ := List.mem_mapIdx.mp htext
  split
  · exact Json.isPlain_of_parseHex (parseHex_toChecksum _)
  · exact Json.isPlain_decimal _
  · exact List.forall_mem_nil _

/-- **The file is a JSON document.** -/
theorem parse_outputText (input : Input) {outputs : List Output} (hne : outputs ≠ []) :
    Json.parse (outputText C H input outputs)
      = some (.array (outputs.mapIdx fun i o => entryJson (columnTexts C input i) o)) := by
  have hparses : ∀ n, Json.Parses (Json.value (n + 4)) (outputText C H input outputs)
      (.array (outputs.mapIdx fun i o => entryJson (columnTexts C input i) o)) := by
    intro n
    refine H.parses_stringArrayToArrayString (List.forall₂_iff_get.mpr ⟨by simp, ?_⟩)
    intro i hi hi'
    simp only [List.get_eq_getElem, List.getElem_mapIdx]
    exact parses_entry (isPlain_columnTexts input i) _
  -- the text of the first entry has more than three bytes, and the file has more than the text
  have htext : 3 ≤ (outputText C H input outputs).length := by
    have hpos : 0 < outputs.length := List.length_pos_iff.mpr hne
    refine le_trans ?_ (H.length_lt (List.mem_mapIdx.mpr ⟨0, hpos, rfl⟩)).le
    have hliteral : (literal "\"inputs\":").length = 9 := by decide
    simp only [generateJsonEntries, List.length_append]
    omega
  obtain ⟨n, hn⟩ : ∃ n, (outputText C H input outputs).length + 1 = n + 4 :=
    ⟨(outputText C H input outputs).length - 3, by omega⟩
  refine Json.parse_of_parses ?_
  rw [hn]
  exact hparses n

/-! ## What is read -/

theorem readWord_wordText (w : Word) : readWord (.string (wordText w)) = some w := by
  have hword : Word.ofNat w.val = w := Fin.ext (Nat.mod_eq_of_lt w.isLt)
  simp only [readWord, textOf, Option.bind_eq_bind, Option.bind_some, parseHex_wordText]
  exact congrArg some hword

/-- What is read from an entry is what was written. -/
theorem readEntry_entryJson {account : Address} {amount : Word} (o : Output) :
    readEntry (entryJson [toChecksum C account, decimal amount.val] o)
      = some ⟨account, amount, o⟩ := by
  have hnodup : [literal "inputs", literal "proof", literal "root", literal "leaf"].Nodup := by
    decide
  have hget : ∀ m ∈ [
      (literal "inputs", Json.array ([toChecksum C account, decimal amount.val].map .string)),
      (literal "proof", .array ((o.proof.map wordText).map .string)),
      (literal "root", .string (wordText o.root)), (literal "leaf", .string (wordText o.leaf))],
      (entryJson [toChecksum C account, decimal amount.val] o).get? m.1 = some m.2 :=
    fun m hm => Json.get?_object hnodup hm
  simp only [List.forall_mem_cons] at hget
  obtain ⟨hinputs, hproof, hroot, hleaf, -⟩ := hget
  have htexts : readArray textOf
      (.array ([toChecksum C account, decimal amount.val].map .string))
      = some [toChecksum C account, decimal amount.val] := rfl
  have hwords : readArray readWord (.array ((o.proof.map wordText).map .string))
      = some o.proof := by
    rw [readArray, List.map_map, List.mapM_map]
    exact (mapM_eq_some (g := id) fun w _ => readWord_wordText w).trans
      (congrArg some (List.map_id o.proof))
  have haccount : Address.ofNat account.val = account := Fin.ext (Nat.mod_eq_of_lt account.isLt)
  have hamount : Word.ofNat amount.val = amount := Fin.ext (Nat.mod_eq_of_lt amount.isLt)
  simp only [readEntry, hinputs, hproof, hroot, hleaf, htexts, hwords, readWord_wordText,
    List.getElem?_cons_zero, List.getElem?_cons_succ, parseHex_toChecksum, parseDecimal_decimal,
    haccount, hamount, Option.bind_eq_bind, Option.bind_some]
  rfl

variable {M : Murky C.keccak256} {input : Input}

theorem columnTexts_eq (htypes : input.types = [.address, .uint]) (i : ℕ) :
    columnTexts C input i
      = [toChecksum C (input.entry i).1, decimal (input.entry i).2.val] := by
  rw [columnTexts, htypes]
  rfl

/-- What is read for an entry. -/
def fileEntry (M : Murky C.keccak256) (input : Input) (i : ℕ) : FileEntry :=
  ⟨(input.entry i).1, (input.entry i).2, output M input i⟩

/-- What is read from the file is what was written, entry by entry. -/
theorem readOutputs_outputText (htypes : input.types = [.address, .uint])
    (hcount : 2 ≤ input.count) :
    readOutputs (outputText C H input ((List.range input.count).map (output M input)))
      = some ((List.range input.count).map (fileEntry M input)) := by
  have hne : (List.range input.count).map (output M input) ≠ [] := by
    rw [Ne, List.map_eq_nil_iff, List.range_eq_nil]
    omega
  have hentries : (((List.range input.count).map (output M input)).mapIdx fun i o =>
        entryJson (columnTexts C input i) o)
      = (List.range input.count).map fun i =>
        entryJson (columnTexts C input i) (output M input i) := by
    refine List.ext_getElem (by simp) fun i _ _ => ?_
    simp only [List.getElem_mapIdx, List.getElem_map, List.getElem_range]
  rw [readOutputs, parse_outputText input hne, hentries, Option.bind_eq_bind, Option.bind_some,
    readArray, List.mapM_map]
  refine mapM_eq_some fun i _ => ?_
  rw [Function.comp_apply, columnTexts_eq htypes]
  exact readEntry_entryJson (output M input i)

/-- **The output file.** For a list of at least two accounts and amounts, what is read from the file
that the script writes is what it computed: the accounts and amounts of the list, and with them
proofs that the contract accepts for the root. -/
theorem output_file (htypes : input.types = [.address, .uint]) (hcount : 2 ≤ input.count) :
    ∃ outputs entries, run M input = some outputs ∧
      readOutputs (outputText C H input outputs) = some entries ∧
      entries.map FileEntry.output = outputs ∧
      (entries.map fun e => (e.account, e.amount)) = input.entries ∧
      ∀ e ∈ entries, Merkle.verify C.keccak256 concat e.output.proof e.output.root
        (MerkleAirdrop.leaf C e.account e.amount) := by
  refine ⟨_, _, run_eq_some hcount, readOutputs_outputText htypes hcount, ?_, ?_, ?_⟩
  · rw [List.map_map]
    rfl
  · rw [List.map_map]
    rfl
  · intro e he
    obtain ⟨i, hi, rfl⟩ := List.mem_map.mp he
    exact verify_output htypes hcount (List.mem_range.mp hi)

/-- The texts in brackets, with commas. -/
def bracketed (texts : List (List UInt8)) : List UInt8 :=
  Json.openBracket :: ([Json.comma].intercalate texts ++ [] ++ [Json.closeBracket])

theorem length_lt_bracketed {text : List UInt8} (h : text ∈ texts) :
    text.length < (bracketed texts).length := by
  have hle : text.length ≤ ([Json.comma].intercalate texts).length := by
    induction texts with
    | nil => cases h
    | cons first texts ih =>
      rcases eq_or_ne texts [] with rfl | hne
      · rw [List.mem_singleton.mp h, List.intercalate_singleton]
      · rw [List.intercalate_cons_of_ne_nil hne, List.length_append, List.length_append]
        rcases List.mem_cons.mp h with rfl | h
        · omega
        · exact (ih h).trans (Nat.le_add_left _ _)
  simp only [bracketed, List.length_cons, List.length_append, List.length_nil]
  omega

theorem parses_bracketed_quoted (hplain : ∀ text ∈ texts, ∀ c ∈ text, Json.isPlain c) :
    Json.Parses (Json.value (n + 2)) (bracketed (texts.map Json.quoted))
      (.array (texts.map .string)) := by
  refine Json.parses_array (List.forall_mem_nil _) ?_
  rw [List.forall₂_map_left_iff, List.forall₂_map_right_iff, List.forall₂_same]
  exact fun text htext => Json.parses_string (hplain text htext)

/-- Helpers that work. -/
def scriptHelper : ScriptHelper where
  stringArrayToArrayString := bracketed
  stringArrayToString texts := bracketed (texts.map Json.quoted)
  bytes32ArrayToString words := bracketed ((words.map wordText).map Json.quoted)
  parses_stringArrayToArrayString h := Json.parses_array (List.forall_mem_nil _) h
  length_lt := length_lt_bracketed
  parses_stringArrayToString := parses_bracketed_quoted
  parses_bytes32ArrayToString := parses_bracketed_quoted fun text htext => by
    obtain ⟨w, -, rfl⟩ := List.mem_map.mp htext
    exact isPlain_wordText w

/-- A file for the three accounts of `sampleInput`. -/
theorem output_file_sample :
    ∃ outputs entries, run sampleMurky sampleInput = some outputs ∧
      readOutputs (outputText sampleCrypto scriptHelper sampleInput outputs) = some entries ∧
      (entries.map fun e => (e.account, e.amount)) = [(10, 25), (11, 30), (12, 35)] := by
  obtain ⟨outputs, entries, houtputs, hentries, -, hlist, -⟩ :=
    output_file (M := sampleMurky) (H := scriptHelper) (show sampleInput.types = _ from rfl)
      (by decide)
  exact ⟨outputs, entries, houtputs, hentries, hlist.trans (by decide)⟩

end MakeMerkle

end Airdrop

end UpdraftContracts
