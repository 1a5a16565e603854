import UpdraftContracts.Airdrop.Completeness
import UpdraftContracts.Evm.Json

/-!
# `GenerateInput`

The script that writes the list of an airdrop to a file, and how `MakeMerkle` reads the file again.
The text is put together by hand, with a loop that must not forget a comma. `MakeMerkle` parses it
as JSON and looks up the count and, one by one, the accounts and amounts. An account is written in
hexadecimal as it stands in the list, and an amount as a string in decimal.

## Main results

* `parse_createJSON` — the text is a JSON document
* `readInput_run`, `entries_inputOf` — `MakeMerkle` reads the list that was written
* `whitelist_complete` — from the list of accounts to their payments
-/

namespace UpdraftContracts

open Evm

namespace Airdrop

namespace GenerateInput

/-- What the script writes for every account. -/
def AMOUNT : ℕ := 25 * 10 ^ 18

/-- What the loop of `_createJSON` adds for an account, up to the comma. -/
def rowText (amountString : List UInt8) (i : ℕ) (account : List UInt8) : List UInt8 :=
  literal "\"" ++ decimal i ++ literal "\"" ++ literal ": \x7b \"0\":" ++ literal "\"" ++ account ++
    literal "\"" ++ literal ", \"1\":" ++ literal "\"" ++ amountString ++ literal "\""

/-- The text, built up piece by piece. The last account has no comma behind it. -/
def _createJSON (count : ℕ) (whitelist : List (List UInt8)) : List UInt8 :=
  let countString := decimal count
  let amountString := decimal AMOUNT
  let json := literal "\x7b \"types\": [\"address\", \"uint\"], \"count\":" ++ countString ++
    literal ",\"values\": \x7b"
  let json := (List.range whitelist.length).foldl
    (fun json i =>
      if i = whitelist.length - 1
      then json ++ rowText amountString i (whitelist.getD i []) ++ literal " \x7d"
      else json ++ rowText amountString i (whitelist.getD i []) ++ literal " \x7d,") json
  json ++ literal "\x7d \x7d"

/-- The text that is written to the file. -/
def run (whitelist : List (List UInt8)) : List UInt8 := _createJSON whitelist.length whitelist

/-- The accounts that the script lists. -/
def whitelist : List (List UInt8) := [
  literal "0x6CA6d1e2D5347Bfab1d91e883F1915560e09129D",
  literal "0xf39Fd6e51aad88F6F4ce6aB8827279cffFb92266",
  literal "0x2ea3970Ed82D5b30be821FAAD4a731D35964F7dd",
  literal "0xf6dBa02C01AF48Cf926579F77C9f874Ca640D91D"]

end GenerateInput

namespace MakeMerkle

/-! ## Reading the file -/

/-- How `MakeMerkle` reads one of the `types`. -/
def ColumnType.ofText (text : List UInt8) : ColumnType :=
  if text = literal "address" then .address
  else if text = literal "uint" then .uint
  else .other

/-- The text of a JSON string. -/
def textOf : Json → Option (List UInt8)
  | .string text => some text
  | _ => none

/-- `elements.readStringArray(".types")` -/
def readTypes (elements : Json) : Option (List ColumnType) :=
  match elements.get? (literal "types") with
  | some (.array items) =>
    if ∀ item ∈ items, (textOf item).isSome
    then some (items.map fun item => ColumnType.ofText ((textOf item).getD [])) else none
  | _ => none

/-- `elements.readUint(".count")` -/
def readCount (elements : Json) : Option ℕ :=
  match elements.get? (literal "count") with
  | some (.number text) => parseDecimal text
  | _ => none

/-- What stands at a path that `getValuesByIndex` makes. -/
def getValuesByIndex (elements : Json) (i j : ℕ) : Option (List UInt8) := do
  let values ← elements.get? (literal "values")
  let row ← values.get? (decimal i)
  let entry ← row.get? (decimal j)
  textOf entry

/-- `elements.readAddress(getValuesByIndex(i, j))` -/
def readAddress (elements : Json) (i j : ℕ) : Option Address := do
  let n ← parseHex 40 (← getValuesByIndex elements i j)
  return Address.ofNat n

/-- `vm.parseUint(elements.readString(getValuesByIndex(i, j)))` -/
def readUint (elements : Json) (i j : ℕ) : Option Word := do
  let n ← parseDecimal (← getValuesByIndex elements i j)
  if n < uint256Size then some (Word.ofNat n) else none

/-- Whether the script gets an entry of a column. -/
def readable (elements : Json) (type : ColumnType) (i j : ℕ) : Bool :=
  match type with
  | .address => (readAddress elements i j).isSome
  | .uint => (readUint elements i j).isSome
  | .other => true

/-- Reads the file. The script fails when it cannot read an entry that it needs. -/
def readInput (file : List UInt8) : Option Input := do
  let elements ← Json.parse file
  let types ← readTypes elements
  let count ← readCount elements
  if ∀ i < count, ∀ j < types.length, readable elements (types.getD j .other) i j
  then some {
    types := types
    count := count
    readAddress := fun i j => (readAddress elements i j).getD 0
    readUint := fun i j => (readUint elements i j).getD 0 }
  else none

end MakeMerkle

namespace GenerateInput

/-! ## The text as a document -/

/-- What is written for an account. -/
def row (account : List UInt8) : Json :=
  .object [(literal "0", .string account), (literal "1", .string (decimal AMOUNT))]

/-- What is written for the accounts, each under its number. -/
def rows (whitelist : List (List UInt8)) : List (List UInt8 × Json) :=
  (List.range whitelist.length).map fun i => (decimal i, row (whitelist.getD i []))

/-- What the text says. -/
def elements (count : ℕ) (whitelist : List (List UInt8)) : Json :=
  .object [
    (literal "types", .array [.string (literal "address"), .string (literal "uint")]),
    (literal "count", .number (decimal count)),
    (literal "values", .object (rows whitelist))]

variable {n : ℕ} {whitelist : List (List UInt8)}

/-- A row with its closing brace, member by member. -/
def rowMember (i : ℕ) (account : List UInt8) : List UInt8 :=
  Json.quoted (decimal i) ++ Json.colon :: (literal " " ++ Json.openBrace ::
    ([Json.comma].intercalate [
      literal " " ++ (Json.quoted (literal "0") ++ Json.colon :: Json.quoted account),
      literal " " ++ (Json.quoted (literal "1") ++ Json.colon :: Json.quoted (decimal AMOUNT))]
    ++ literal " " ++ [Json.closeBrace]))

theorem rowText_append (i : ℕ) (account : List UInt8) :
    rowText (decimal AMOUNT) i account ++ literal " \x7d" = rowMember i account := by
  simp only [rowText, rowMember, Json.quoted, List.intercalate_cons_cons,
    List.intercalate_singleton, List.append_assoc, List.cons_append]
  rfl

/-- What is written for an account is a member of an object. -/
theorem parses_rowMember {i : ℕ} {account : List UInt8} (hplain : ∀ c ∈ account, Json.isPlain c) :
    Json.Parses (Json.member (Json.value (n + 2))) (rowMember i account)
      (decimal i, row account) := by
  refine Json.parses_member (Json.isPlain_decimal i) (.spaced_value ?_)
  refine Json.parses_object Json.isSpace_literal (.cons ?_ (.cons ?_ .nil))
  · refine Json.Parses.spaced_member ?_
    exact Json.parses_member (List.all_eq_true.mp (by decide)) (Json.parses_string hplain)
  · refine Json.Parses.spaced_member ?_
    exact Json.parses_member (List.all_eq_true.mp (by decide))
      (Json.parses_string (Json.isPlain_decimal AMOUNT))

/-- The pieces make up an object with three members. -/
theorem createJSON_eq (count : ℕ) (whitelist : List (List UInt8)) :
    _createJSON count whitelist = Json.openBrace :: ([Json.comma].intercalate [
      literal " " ++ (Json.quoted (literal "types") ++ Json.colon ::
        (literal " " ++ Json.openBracket :: ([Json.comma].intercalate
          [Json.quoted (literal "address"), literal " " ++ Json.quoted (literal "uint")]
          ++ [] ++ [Json.closeBracket]))),
      literal " " ++ (Json.quoted (literal "count") ++ Json.colon :: decimal count),
      Json.quoted (literal "values") ++ Json.colon :: (literal " " ++ Json.openBrace ::
        ([Json.comma].intercalate ((List.range whitelist.length).map fun i =>
          rowMember i (whitelist.getD i [])) ++ [] ++ [Json.closeBrace]))]
      ++ literal " " ++ [Json.closeBrace]) := by
  have hloop := Json.foldl_commas (n := whitelist.length)
    (fun json i =>
      if i = whitelist.length - 1
      then json ++ rowText (decimal AMOUNT) i (whitelist.getD i []) ++ literal " \x7d"
      else json ++ rowText (decimal AMOUNT) i (whitelist.getD i []) ++ literal " \x7d,")
    (fun i => rowMember i (whitelist.getD i []))
    (fun text i _ hne => by
      rw [if_neg hne, ← rowText_append]
      simp only [List.append_assoc]
      rfl)
    (fun text _ => by rw [if_pos rfl, List.append_assoc, rowText_append])
  rw [_createJSON, hloop]
  simp only [Json.quoted, List.intercalate_cons_cons, List.intercalate_singleton,
    List.append_assoc, List.cons_append, List.append_nil]
  rfl

theorem getD_mem {i : ℕ} (hi : i < whitelist.length) : whitelist.getD i [] ∈ whitelist := by
  rw [List.getD_eq_getElem _ _ hi]
  exact List.getElem_mem hi

/-- The text is the JSON it is meant to be, if the texts of the list need no escapes. -/
theorem parses_createJSON (count : ℕ)
    (hplain : ∀ account ∈ whitelist, ∀ c ∈ account, Json.isPlain c) :
    Json.Parses (Json.value (n + 4)) (_createJSON count whitelist) (elements count whitelist) := by
  rw [createJSON_eq]
  refine Json.parses_object Json.isSpace_literal (.cons ?_ (.cons ?_ (.cons ?_ .nil)))
  · refine (Json.parses_member (List.all_eq_true.mp (by decide)) (.spaced_value ?_)).spaced_member
    refine Json.parses_array (List.forall_mem_nil _) (.cons ?_ (.cons ?_ .nil))
    · exact Json.parses_string (List.all_eq_true.mp (by decide))
    · exact (Json.parses_string (List.all_eq_true.mp (by decide))).spaced_value
  · refine Json.Parses.spaced_member ?_
    exact Json.parses_member (List.all_eq_true.mp (by decide)) (Json.parses_decimal count _)
  · refine Json.parses_member (List.all_eq_true.mp (by decide)) (.spaced_value ?_)
    refine Json.parses_object (List.forall_mem_nil _) ?_
    rw [rows, List.forall₂_map_left_iff, List.forall₂_map_right_iff, List.forall₂_same]
    intro i hi
    exact parses_rowMember (hplain _ (getD_mem (List.mem_range.mp hi)))

/-- **The text is a JSON document.** -/
theorem parse_createJSON (count : ℕ)
    (hplain : ∀ account ∈ whitelist, ∀ c ∈ account, Json.isPlain c) :
    Json.parse (_createJSON count whitelist) = some (elements count whitelist) := by
  obtain ⟨n, hn⟩ : ∃ n, (_createJSON count whitelist).length + 1 = n + 4 := by
    refine ⟨(_createJSON count whitelist).length - 3, ?_⟩
    have hlen : 3 ≤ (_createJSON count whitelist).length := by
      rw [createJSON_eq]
      simp [Json.quoted, List.intercalate_cons_cons]
      omega
    omega
  refine Json.parse_of_parses ?_
  rw [hn]
  exact parses_createJSON count hplain

end GenerateInput

namespace MakeMerkle

open GenerateInput

/-! ## What `MakeMerkle` reads -/

variable {count : ℕ} {whitelist : List (List UInt8)}

theorem nodup_names : [literal "types", literal "count", literal "values"].Nodup := by
  decide

theorem readTypes_elements : readTypes (elements count whitelist) = some [.address, .uint] := by
  have hget : (elements count whitelist).get? (literal "types")
      = some (.array [.string (literal "address"), .string (literal "uint")]) :=
    Json.get?_object nodup_names (by simp)
  rw [readTypes, hget]
  rfl

theorem readCount_elements : readCount (elements count whitelist) = some count := by
  have hget : (elements count whitelist).get? (literal "count") = some (.number (decimal count)) :=
    Json.get?_object nodup_names (by simp)
  rw [readCount, hget]
  exact parseDecimal_decimal count

theorem get?_rows {i : ℕ} (hi : i < whitelist.length) :
    Json.get? (decimal i) (.object (rows whitelist)) = some (row (whitelist.getD i [])) := by
  refine Json.get?_object ?_ (List.mem_map_of_mem (List.mem_range.mpr hi))
  rw [rows, List.map_map]
  exact (List.nodup_range).map decimal_injective

/-- A value is found under the number of its account. -/
theorem getValuesByIndex_elements {i : ℕ} (hi : i < whitelist.length) (j : ℕ) :
    getValuesByIndex (elements count whitelist) i j
      = ((row (whitelist.getD i [])).get? (decimal j)).bind textOf := by
  have hget : (elements count whitelist).get? (literal "values")
      = some (.object (rows whitelist)) :=
    Json.get?_object nodup_names (by simp)
  simp only [getValuesByIndex, hget, get?_rows hi, Option.bind_eq_bind, Option.bind_some]

/-- The first column has the accounts. -/
theorem readAddress_elements {i : ℕ} {account : Address} (hi : i < whitelist.length)
    (haccount : parseHex 40 (whitelist.getD i []) = some account.val) :
    readAddress (elements count whitelist) i 0 = some account := by
  have hrow : ((row (whitelist.getD i [])).get? (decimal 0)).bind textOf
      = some (whitelist.getD i []) := rfl
  rw [readAddress, getValuesByIndex_elements hi, hrow]
  simp only [Option.bind_eq_bind, Option.bind_some, haccount]
  exact congrArg some (Fin.ext (Nat.mod_eq_of_lt account.isLt))

/-- The second column has the amount, which is the same for all. -/
theorem readUint_elements {i : ℕ} (hi : i < whitelist.length) :
    readUint (elements count whitelist) i 1 = some (Word.ofNat AMOUNT) := by
  have hrow : ((row (whitelist.getD i [])).get? (decimal 1)).bind textOf
      = some (decimal AMOUNT) := rfl
  rw [readUint, getValuesByIndex_elements hi, hrow]
  simp only [Option.bind_eq_bind, Option.bind_some, parseDecimal_decimal]
  exact if_pos (by decide)

/-- The texts of a list spell accounts. -/
def Spelled (whitelist : List (List UInt8)) (accounts : List Address) : Prop :=
  whitelist.map (parseHex 40) = accounts.map fun account => some account.val

instance (whitelist : List (List UInt8)) (accounts : List Address) :
    Decidable (Spelled whitelist accounts) :=
  inferInstanceAs (Decidable (_ = _))

variable {accounts : List Address}

theorem Spelled.length_eq (h : Spelled whitelist accounts) :
    whitelist.length = accounts.length := by
  have := congrArg List.length h
  rwa [List.length_map, List.length_map] at this

/-- The spelling of an address has no letter that needs an escape. -/
theorem Spelled.isPlain (h : Spelled whitelist accounts) :
    ∀ text ∈ whitelist, ∀ c ∈ text, Json.isPlain c := by
  intro text htext
  have hmem : parseHex 40 text ∈ accounts.map fun account => some account.val :=
    h ▸ List.mem_map_of_mem htext
  obtain ⟨account, -, haccount⟩ := List.mem_map.mp hmem
  exact Json.isPlain_of_parseHex haccount.symm

theorem Spelled.parse_getD (h : Spelled whitelist accounts) {i : ℕ} (hi : i < whitelist.length) :
    parseHex 40 (whitelist.getD i []) = some (accounts.getD i 0).val := by
  have hi' : i < accounts.length := h.length_eq ▸ hi
  have hget := congrArg (·[i]?) h
  simp only [List.getElem?_map, List.getElem?_eq_getElem hi, List.getElem?_eq_getElem hi',
    Option.map_some, Option.some.injEq] at hget
  rw [List.getD_eq_getElem _ _ hi, List.getD_eq_getElem _ _ hi']
  exact hget

/-- What the script has after reading the file. -/
def inputOf (whitelist : List (List UInt8)) : Input where
  types := [.address, .uint]
  count := whitelist.length
  readAddress i j := (readAddress (elements whitelist.length whitelist) i j).getD 0
  readUint i j := (readUint (elements whitelist.length whitelist) i j).getD 0

/-- **`MakeMerkle` reads the file.** -/
theorem readInput_run (h : Spelled whitelist accounts) :
    readInput (GenerateInput.run whitelist) = some (inputOf whitelist) := by
  have hreadable : ∀ i < whitelist.length, ∀ j < [ColumnType.address, .uint].length,
      readable (elements whitelist.length whitelist)
        ([ColumnType.address, .uint].getD j .other) i j := by
    intro i hi j hj
    obtain rfl | rfl : j = 0 ∨ j = 1 := by
      simp only [List.length_cons, List.length_nil] at hj
      omega
    · show (readAddress _ i 0).isSome
      rw [readAddress_elements hi (h.parse_getD hi)]
      rfl
    · show (readUint _ i 1).isSome
      rw [readUint_elements hi]
      rfl
  simp only [readInput, GenerateInput.run, parse_createJSON _ h.isPlain, readTypes_elements,
    readCount_elements, Option.bind_eq_bind, Option.bind_some]
  exact if_pos hreadable

/-- **What it reads is the list that was written.** -/
theorem entries_inputOf (h : Spelled whitelist accounts) :
    (inputOf whitelist).entries = accounts.map fun account => (account, Word.ofNat AMOUNT) := by
  have hlen : (inputOf whitelist).entries.length
      = (accounts.map fun account => (account, Word.ofNat AMOUNT)).length := by
    rw [Input.entries, List.length_map, List.length_range, List.length_map]
    exact h.length_eq
  refine List.ext_getElem hlen fun i hi hi' => ?_
  have hwhitelist : i < whitelist.length := by
    rwa [Input.entries, List.length_map, List.length_range] at hi
  have haccounts : i < accounts.length := h.length_eq ▸ hwhitelist
  have haddress : (inputOf whitelist).readAddress i 0 = accounts.getD i 0 := by
    show (readAddress _ i 0).getD 0 = _
    rw [readAddress_elements hwhitelist (h.parse_getD hwhitelist)]
    rfl
  have huint : (inputOf whitelist).readUint i 1 = Word.ofNat AMOUNT := by
    show (readUint _ i 1).getD 0 = _
    rw [readUint_elements hwhitelist]
    rfl
  simp only [Input.entries, List.getElem_map, List.getElem_range, Input.entry, haddress, huint,
    List.getD_eq_getElem _ _ haccounts]

end MakeMerkle

/-! ## From the list to the payments -/

namespace DeployMerkleAirdrop

/-- What the script sends to the airdrop. -/
def AMOUNT_TO_TRANSFER : ℕ := 4 * 25 * 10 ^ 18

/-- The ledger of the token, a `BadoneToken` that belongs to the deployer, when the script ends. -/
def deployMerkleAirdrop (T : OpenZeppelinErc20 Address) (deployer airdrop : Address) :
    Option (Ledger Address) := do
  let ledger ← T._mint .empty deployer AMOUNT_TO_TRANSFER
  let (_, ledger) ← T.transfer ledger deployer airdrop AMOUNT_TO_TRANSFER
  return ledger

/-- The script gives the airdrop enough for four accounts. -/
theorem exists_deployMerkleAirdrop (T : OpenZeppelinErc20 Address) {deployer airdrop : Address}
    (hdeployer : deployer ≠ 0) (hairdrop : airdrop ≠ 0) :
    ∃ ledger, deployMerkleAirdrop T deployer airdrop = some ledger ∧
      4 * GenerateInput.AMOUNT ≤ ledger.balance airdrop := by
  have hmint : T._mint .empty deployer AMOUNT_TO_TRANSFER
      = some (Ledger.empty.mint deployer AMOUNT_TO_TRANSFER) :=
    T.mint_eq_some.mpr ⟨hdeployer, by decide, rfl⟩
  have hbalance : ∀ a, (Ledger.empty.mint deployer AMOUNT_TO_TRANSFER).balance a
      = if a = deployer then AMOUNT_TO_TRANSFER else 0 := by
    intro a
    rw [Ledger.balance_mint (by decide)]
    exact Nat.zero_add _
  have hle : AMOUNT_TO_TRANSFER
      ≤ (Ledger.empty.mint deployer AMOUNT_TO_TRANSFER).balance deployer := by
    rw [hbalance, if_pos rfl]
  refine ⟨(Ledger.empty.mint deployer AMOUNT_TO_TRANSFER).move deployer airdrop
    AMOUNT_TO_TRANSFER, ?_, ?_⟩
  · rw [deployMerkleAirdrop, hmint, Option.bind_eq_bind, Option.bind_some,
      T.standard.transfer_ok hdeployer hairdrop hle]
    rfl
  · rw [Ledger.balance_move hle, if_pos rfl]
    exact Nat.le_add_left _ _

end DeployMerkleAirdrop

open MerkleAirdrop GenerateInput MakeMerkle

variable {C : Crypto} {M : Murky C.keccak256} {whitelist : List (List UInt8)}
  {accounts : List Address}

theorem sum_entries (accounts : List Address) :
    ((accounts.map fun account => (account, Word.ofNat AMOUNT)).map fun e => e.2.val).sum
      = accounts.length * AMOUNT := by
  rw [List.map_map]
  show (accounts.map fun _ => AMOUNT).sum = _
  rw [List.map_const', List.sum_replicate]
  rfl

/-- The entry of a listed account. -/
theorem exists_entry (h : Spelled whitelist accounts) {account : Address}
    (hmem : account ∈ accounts) :
    ∃ i < (inputOf whitelist).count,
      (inputOf whitelist).entry i = (account, Word.ofNat AMOUNT) := by
  have hentry : (account, Word.ofNat AMOUNT) ∈ (inputOf whitelist).entries := by
    rw [entries_inputOf h]
    exact List.mem_map_of_mem hmem
  obtain ⟨i, hi, heq⟩ := List.mem_map.mp hentry
  exact ⟨i, List.mem_range.mp hi, heq⟩

/-- **From the list to the payments.** Let the texts of a list spell at least two accounts, all
different. `MakeMerkle` reads the file that `GenerateInput` writes for the list, and puts out a
proof for each account. Let an airdrop be deployed with the root and given 25 tokens for each of
them. Then in every order of claims with these proofs each account that claims is paid exactly once,
and every account of the list that has not claimed yet can claim 25 tokens. -/
theorem whitelist_complete (hspelled : Spelled whitelist accounts) (hdistinct : accounts.Nodup)
    (hcount : 2 ≤ accounts.length) :
    ∃ input outputs, readInput (GenerateInput.run whitelist) = some input ∧
      MakeMerkle.run M input = some outputs ∧
      ∀ D s as, D.this ≠ 0 → D.airdropToken.Standard → C.NonzeroSigner →
        (∀ o ∈ outputs, D.i_merkleRoot = o.root) → (∀ account, s.s_hasClaimed account = false) →
        accounts.length * AMOUNT ≤ s.ledger.balance D.this →
        Along (AirdropAction.step C D) (AirdropAction.Fair D (Claim.Prepared C D input outputs))
          s as →
        (∀ account, tally (AirdropAction.step C D) (AirdropAction.pays C D account) s as
          = if account ∈ as.filterMap AirdropAction.claimant then 1 else 0) ∧
        ∀ account ∈ accounts, account ∉ as.filterMap AirdropAction.claimant →
          ∃ o ∈ outputs, ∀ v r t,
            C.tryRecover (getMessageHash C D account (Word.ofNat AMOUNT)) v r t
              = (account, .NoError, 0) →
            claim C D ⟨account, Word.ofNat AMOUNT, o.proof, v, r, t⟩
                (run (AirdropAction.step C D) s as)
              = .ok ((run (AirdropAction.step C D) s as).paid D
                ⟨account, Word.ofNat AMOUNT, o.proof, v, r, t⟩) := by
  have htypes : (inputOf whitelist).types = [.address, .uint] := rfl
  have hcount' : 2 ≤ (inputOf whitelist).count := hcount.trans_eq hspelled.length_eq.symm
  refine ⟨inputOf whitelist, _, readInput_run hspelled, run_eq_some hcount', ?_⟩
  intro D s as hthis htoken hsigner hroots hfresh hgiven hprepared
  have hroot : D.i_merkleRoot = root M (inputOf whitelist) :=
    hroots (output M (inputOf whitelist) 0)
      (List.mem_map_of_mem (List.mem_range.mpr (Nat.lt_of_lt_of_le Nat.two_pos hcount')))
  have hreliable : Reliable C D (inputOf whitelist).entries := by
    refine ⟨hthis, htoken, hsigner, ?_⟩
    rw [entries_inputOf hspelled, List.map_map]
    exact (List.map_id accounts).symm ▸ hdistinct
  have hfair := hprepared.imp fun _ _ ha =>
    ha.imp fun _ hc => Claim.Prepared.complete htypes hcount' hroot hc
  rw [← sum_entries, ← entries_inputOf hspelled] at hgiven
  obtain ⟨hpaid, hclaim⟩ := hreliable.complete_run hfresh hgiven hfair
  refine ⟨hpaid, fun account hmem hnew => ?_⟩
  obtain ⟨i, hi, hentry⟩ := exists_entry hspelled hmem
  refine ⟨output M (inputOf whitelist) i, List.mem_map_of_mem (List.mem_range.mpr hi), ?_⟩
  intro v r t hrecover
  refine hclaim _ (Claim.Prepared.complete htypes hcount' hroot
    ⟨i, _, ?_, hentry.symm, rfl, ?_, ?_⟩) hnew
  · rw [List.getElem?_map, List.getElem?_range hi]
    rfl
  · exact congrArg Prod.fst hrecover
  · exact congrArg (fun x => x.2.1) hrecover

/-! ### The list of the script -/

/-- Signatures whose `r` is the signer. -/
def listedCrypto : Crypto where
  keccak256 := sampleCrypto.keccak256
  tryRecover _ _ r _ :=
    if Address.ofNat r.val = 0 then (0, .InvalidSignature, 0)
    else (Address.ofNat r.val, .NoError, 0)

theorem listedCrypto_nonzeroSigner : listedCrypto.NonzeroSigner := by
  intro digest v r s hnoError
  simp only [listedCrypto] at hnoError ⊢
  split
  · next hzero =>
    rw [if_pos hzero] at hnoError
    cases hnoError
  · next hsigner => exact hsigner

/-- The accounts that the script lists. -/
def listedAccounts : List Address := [
  Address.ofNat 0x6CA6d1e2D5347Bfab1d91e883F1915560e09129D,
  Address.ofNat 0xf39Fd6e51aad88F6F4ce6aB8827279cffFb92266,
  Address.ofNat 0x2ea3970Ed82D5b30be821FAAD4a731D35964F7dd,
  Address.ofNat 0xf6dBa02C01AF48Cf926579F77C9f874Ca640D91D]

theorem listedAccounts_spelled : Spelled GenerateInput.whitelist listedAccounts := by
  decide +kernel

/-- The trees for the list. -/
def listedMurky : Murky listedCrypto.keccak256 := murky listedCrypto.keccak256

/-- What the airdrop is deployed with for the list. -/
def listedDeployment : Deployment :=
  ⟨2, 0, root listedMurky (inputOf GenerateInput.whitelist), referenceErc20⟩

/-- An account of the list claims with the proof of its entry. -/
def listedClaim (i : ℕ) : Claim :=
  ⟨listedAccounts.getD i 0, Word.ofNat AMOUNT,
    (output listedMurky (inputOf GenerateInput.whitelist) i).proof, 27,
    Word.ofAddress (listedAccounts.getD i 0), 0⟩

/-- The first account claims twice. The others still can. -/
theorem whitelist_complete_listed :
    ∃ ledger, DeployMerkleAirdrop.deployMerkleAirdrop openZeppelin 1 2 = some ledger ∧
      tally (AirdropAction.step listedCrypto listedDeployment)
        (AirdropAction.pays listedCrypto listedDeployment (listedAccounts.getD 0 0))
        ⟨fun _ => false, ledger⟩ [.claim (listedClaim 0), .claim (listedClaim 0)] = 1 ∧
      ∃ proof, Succeeds (claim listedCrypto listedDeployment
        ⟨listedAccounts.getD 3 0, Word.ofNat AMOUNT, proof, 27,
          Word.ofAddress (listedAccounts.getD 3 0), 0⟩
        (run (AirdropAction.step listedCrypto listedDeployment) ⟨fun _ => false, ledger⟩
          [.claim (listedClaim 0), .claim (listedClaim 0)])) := by
  obtain ⟨ledger, hdeploy, hgiven⟩ := DeployMerkleAirdrop.exists_deployMerkleAirdrop openZeppelin
    (show (1 : Address) ≠ 0 by decide) (show (2 : Address) ≠ 0 by decide)
  obtain ⟨input, outputs, hinput, houtputs, hall⟩ := whitelist_complete (M := listedMurky)
    listedAccounts_spelled (by decide +kernel) (by decide)
  rw [readInput_run listedAccounts_spelled] at hinput
  obtain rfl := Option.some.inj hinput
  rw [run_eq_some (by decide)] at houtputs
  obtain rfl := Option.some.inj houtputs
  have hprepared : (listedClaim 0).Prepared listedCrypto listedDeployment
      (inputOf GenerateInput.whitelist) ((List.range 4).map
        (output listedMurky (inputOf GenerateInput.whitelist))) :=
    ⟨0, _, rfl, by decide +kernel, rfl, by decide +kernel, by decide +kernel⟩
  have hroots : ∀ o ∈ (List.range 4).map (output listedMurky (inputOf GenerateInput.whitelist)),
      listedDeployment.i_merkleRoot = o.root := by
    intro o ho
    obtain ⟨i, -, rfl⟩ := List.mem_map.mp ho
    rfl
  obtain ⟨hpaid, hclaim⟩ := hall listedDeployment ⟨fun _ => false, ledger⟩
    [.claim (listedClaim 0), .claim (listedClaim 0)] (by decide) referenceErc20_standard
    listedCrypto_nonzeroSigner hroots (fun _ => rfl) hgiven ⟨hprepared, hprepared, trivial⟩
  obtain ⟨o, -, ho⟩ := hclaim (listedAccounts.getD 3 0) (by decide +kernel) (by decide +kernel)
  refine ⟨ledger, hdeploy, (hpaid _).trans (by decide +kernel), o.proof, _, ho 27 _ 0 ?_⟩
  decide +kernel

end Airdrop

end UpdraftContracts
