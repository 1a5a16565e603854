import UpdraftContracts.Evm.Base64
import UpdraftContracts.Evm.Json
import UpdraftContracts.Nft.MoodNft

/-!
# What a `MoodNft` looks like

`tokenURI` puts the image of a mood into a JSON document and the document into a URI, and
`DeployMoodNft` has put a picture into each of the two images before. `shown` undoes this: it is
what a viewer makes of the URI of a token. `tokenURI` never asks whether there is such a token.

The encoder for Base64 is a parameter: what it writes is decoded to what it was given.

## Main results

* `shown_tokenURI` — a viewer gets at the picture for the mood
* `shown_iff_flips` — after every run, what is shown for each token, and for a number that is none
-/

namespace UpdraftContracts

open Evm

namespace Nft

namespace MoodNft

/-- What the constructor stores and nothing changes later. -/
structure Images where
  s_sadSvgImageUri : List UInt8
  s_happySvgImageUri : List UInt8

/-- `Base64` of OpenZeppelin. -/
structure Encoder where
  encode : List UInt8 → List UInt8
  /-- Who decodes it gets back what was encoded. -/
  decode_encode : ∀ bs, Base64.decode (encode bs) = some bs
  /-- It is written in the letters of the alphabet, with equals signs for the padding. -/
  letters : ∀ bs, ∀ c ∈ encode bs, c = Base64.pad ∨ ∃ n < 64, c = Base64.letter n

variable {E : Erc721} (B : Encoder)

/-- The name of the collection. -/
def name : List UInt8 := literal "Mood NFT"

/-- The beginning of every URI of a token. -/
def _baseURI : List UInt8 := literal "data:application/json;base64,"

/-- The image for the mood. -/
def imageURI (images : Images) (s : State E) (tokenId : ℕ) : List UInt8 :=
  if s.s_tokenIdToMood tokenId = .SAD then images.s_sadSvgImageUri else images.s_happySvgImageUri

/-- The document around the URI of an image. -/
def document (imageURI : List UInt8) : List UInt8 :=
  literal "\x7b\"name\":\"" ++ name
    ++ literal
      "\", \"description\":\"An NFT that reflects the mood of the owner, 100% on Chain!\", "
    ++ literal
      "\"attributes\": [\x7b\"trait_type\": \"moodiness\", \"value\": 100\x7d], \"image\":\""
    ++ imageURI ++ literal "\"\x7d"

/-- The URI of a token, or of a number that is none. -/
def tokenURI (images : Images) (s : State E) (tokenId : ℕ) : List UInt8 :=
  _baseURI ++ B.encode (document (imageURI images s tokenId))

end MoodNft

namespace DeployMoodNft

/-- A picture as a URI. -/
def svgToImageURI (B : MoodNft.Encoder) (svg : List UInt8) : List UInt8 :=
  literal "data:image/svg+xml;base64," ++ B.encode svg

/-- What the contract is deployed with. -/
def run (B : MoodNft.Encoder) (sadSvg happySvg : List UInt8) : MoodNft.Images :=
  ⟨svgToImageURI B sadSvg, svgToImageURI B happySvg⟩

end DeployMoodNft

namespace MoodNft

/-! ## A viewer -/

/-- The data in a URI with a given beginning. -/
def dataOf (start uri : List UInt8) : Option (List UInt8) :=
  if uri.take start.length = start then Base64.decode (uri.drop start.length) else none

/-- The picture that a viewer shows for the URI of a token. -/
def shown (uri : List UInt8) : Option (List UInt8) := do
  let document ← dataOf (literal "data:application/json;base64,") uri
  let metadata ← Json.parse document
  match metadata.get? (literal "image") with
  | some (.string image) => dataOf (literal "data:image/svg+xml;base64,") image
  | _ => none

/-- What is encoded behind the start of a data URI can be read from it. -/
theorem dataOf_encode (B : Encoder) (start bs : List UInt8) :
    dataOf start (start ++ B.encode bs) = some bs := by
  rw [dataOf, List.take_left, if_pos rfl, List.drop_left, B.decode_encode]

/-- What the document says. -/
def metadata (imageURI : List UInt8) : Json :=
  .object [
    (literal "name", .string name),
    (literal "description",
      .string (literal "An NFT that reflects the mood of the owner, 100% on Chain!")),
    (literal "attributes", .array [.object [
      (literal "trait_type", .string (literal "moodiness")),
      (literal "value", .number (literal "100"))]]),
    (literal "image", .string imageURI)]

/-- The members in front of the image as they are written. -/
def memberTexts : List (List UInt8) := [
  Json.quoted (literal "name") ++ Json.colon :: Json.quoted name,
  literal " " ++ (Json.quoted (literal "description") ++ Json.colon ::
    Json.quoted (literal "An NFT that reflects the mood of the owner, 100% on Chain!")),
  literal " " ++ (Json.quoted (literal "attributes") ++ Json.colon ::
    literal " [\x7b\"trait_type\": \"moodiness\", \"value\": 100\x7d]")]

/-- The member with the image as it is written. -/
def imageText (imageURI : List UInt8) : List UInt8 :=
  literal " " ++ (Json.quoted (literal "image") ++ Json.colon :: Json.quoted imageURI)

/-- The pieces make up an object. -/
theorem document_eq (imageURI : List UInt8) :
    document imageURI = Json.openBrace :: ([Json.comma].intercalate
      (memberTexts ++ [imageText imageURI]) ++ [] ++ [Json.closeBrace]) := by
  have hstart : literal "\x7b\"name\":\"" ++ name
      ++ literal
        "\", \"description\":\"An NFT that reflects the mood of the owner, 100% on Chain!\", "
      ++ literal
        "\"attributes\": [\x7b\"trait_type\": \"moodiness\", \"value\": 100\x7d], \"image\":\""
      = Json.openBrace :: ([Json.comma].intercalate memberTexts ++ [Json.comma] ++ literal " "
        ++ Json.quoted (literal "image") ++ [Json.colon, Json.quote]) := by
    decide +kernel
  rw [document, hstart]
  simp only [memberTexts, imageText, Json.quoted, List.intercalate_cons_cons,
    List.intercalate_singleton, List.append_assoc, List.append_nil, List.cons_append,
    List.nil_append]
  rfl

variable {E : Erc721} {B : Encoder} {n : ℕ}

/-- One space. -/
theorem parses_attributes :
    Json.Parses (Json.value (n + 3))
      (literal " [\x7b\"trait_type\": \"moodiness\", \"value\": 100\x7d]")
      (.array [.object [
        (literal "trait_type", .string (literal "moodiness")),
        (literal "value", .number (literal "100"))]]) := by
  have htext : literal " [\x7b\"trait_type\": \"moodiness\", \"value\": 100\x7d]"
      = literal " " ++ Json.openBracket :: ([Json.comma].intercalate
        [Json.openBrace :: ([Json.comma].intercalate
          [Json.quoted (literal "trait_type") ++ Json.colon ::
            (literal " " ++ Json.quoted (literal "moodiness")),
           literal " " ++ (Json.quoted (literal "value") ++ Json.colon ::
            (literal " " ++ literal "100"))] ++ [] ++ [Json.closeBrace])]
        ++ [] ++ [Json.closeBracket]) := by
    decide +kernel
  have htrait : Json.Parses (Json.member (Json.value (n + 1)))
      (Json.quoted (literal "trait_type") ++ Json.colon ::
        (literal " " ++ Json.quoted (literal "moodiness")))
      (literal "trait_type", .string (literal "moodiness")) :=
    Json.parses_member (List.all_eq_true.mp (by decide))
      (Json.parses_string (List.all_eq_true.mp (by decide))).spaced_value
  have hvalue : Json.Parses (Json.member (Json.value (n + 1)))
      (literal " " ++ (Json.quoted (literal "value") ++ Json.colon ::
        (literal " " ++ literal "100")))
      (literal "value", .number (literal "100")) := by
    refine (Json.parses_member (List.all_eq_true.mp (by decide)) ?_).spaced_member
    exact (Json.parses_number (List.all_eq_true.mp (by decide)) (by decide)).spaced_value
  have hobject := Json.parses_object (List.forall_mem_nil _)
    (.cons htrait (.cons hvalue .nil))
  rw [htext]
  exact (Json.parses_array (List.forall_mem_nil _) (.cons hobject .nil)).spaced_value

/-- The text is the JSON it is meant to be, if the image needs no escapes. -/
theorem parses_document {imageURI : List UInt8} (hplain : ∀ c ∈ imageURI, Json.isPlain c) :
    Json.Parses (Json.value (n + 4)) (document imageURI) (metadata imageURI) := by
  rw [document_eq]
  refine Json.parses_object (List.forall_mem_nil _) ?_
  refine .cons ?_ (.cons ?_ (.cons ?_ (.cons ?_ .nil)))
  · exact Json.parses_member (List.all_eq_true.mp (by decide))
      (Json.parses_string (List.all_eq_true.mp (by decide)))
  · refine Json.Parses.spaced_member ?_
    exact Json.parses_member (List.all_eq_true.mp (by decide))
      (Json.parses_string (List.all_eq_true.mp (by decide)))
  · refine Json.Parses.spaced_member ?_
    exact Json.parses_member (List.all_eq_true.mp (by decide)) parses_attributes
  · refine Json.Parses.spaced_member ?_
    exact Json.parses_member (List.all_eq_true.mp (by decide)) (Json.parses_string hplain)

theorem parse_document {imageURI : List UInt8} (hplain : ∀ c ∈ imageURI, Json.isPlain c) :
    Json.parse (document imageURI) = some (metadata imageURI) := by
  obtain ⟨n, hn⟩ : ∃ n, (document imageURI).length + 1 = n + 4 := by
    refine ⟨(document imageURI).length - 3, ?_⟩
    have hlen : 3 ≤ (document imageURI).length := by
      rw [document_eq]
      simp [memberTexts, Json.quoted, List.intercalate_cons_cons]
      omega
    omega
  refine Json.parse_of_parses ?_
  rw [hn]
  exact parses_document hplain

/-- An encoded image needs no escapes. -/
theorem isPlain_svgToImageURI (svg : List UInt8) :
    ∀ c ∈ DeployMoodNft.svgToImageURI B svg, Json.isPlain c := by
  have hstart : ∀ c ∈ literal "data:image/svg+xml;base64,", Json.isPlain c :=
    List.all_eq_true.mp (by decide)
  have hletter : ∀ n < 64, Json.isPlain (Base64.letter n) := by decide
  have hpad : Json.isPlain Base64.pad := by decide
  intro c hc
  rcases List.mem_append.mp hc with hc | hc
  · exact hstart c hc
  · obtain rfl | ⟨n, hn, rfl⟩ := B.letters svg c hc
    · exact hpad
    · exact hletter n hn

/-- **A viewer gets at the picture for the mood.** -/
theorem shown_tokenURI (sadSvg happySvg : List UInt8) (s : State E) (tokenId : ℕ) :
    shown (tokenURI B (DeployMoodNft.run B sadSvg happySvg) s tokenId)
      = some (if s.s_tokenIdToMood tokenId = .SAD then sadSvg else happySvg) := by
  set svg := if s.s_tokenIdToMood tokenId = .SAD then sadSvg else happySvg with hsvg
  have himage : imageURI (DeployMoodNft.run B sadSvg happySvg) s tokenId
      = DeployMoodNft.svgToImageURI B svg := by
    rw [imageURI, hsvg]
    split <;> rfl
  have hmetadata := parse_document (isPlain_svgToImageURI (B := B) svg)
  have hget : (metadata (DeployMoodNft.svgToImageURI B svg)).get? (literal "image")
      = some (.string (DeployMoodNft.svgToImageURI B svg)) := by
    have hnodup : [literal "name", literal "description", literal "attributes",
        literal "image"].Nodup := by
      decide
    exact Json.get?_object hnodup (by simp)
  rw [tokenURI, himage, shown, _baseURI, dataOf_encode]
  simp only [Option.bind_eq_bind, Option.bind_some, hmetadata, hget]
  exact dataOf_encode B _ svg

/-! ## Numbers that are no tokens -/

/-- What is no token is sad: so are all moods from the start. -/
def Blank (s : State E) : Prop := ∀ id, E.ownerOf s.tokens id = none → s.s_tokenIdToMood id = .SAD

theorem Blank.call {s : State E} {sender : Address} {c : E.Call} {tokens : E.Tokens}
    (h : Blank s) (hcall : E.call s.tokens sender c = some tokens) :
    Blank { s with tokens := tokens } := fun id hid =>
  h id (not_not.mp fun howner => (E.call_some hcall id).mpr howner hid)

theorem Blank.flipped {s : State E} {tokenId : ℕ} (h : Blank s)
    (htoken : E.ownerOf s.tokens tokenId ≠ none) : Blank (s.flipped tokenId) := by
  intro id hid
  have hne : id ≠ tokenId := fun heq => htoken (heq ▸ hid)
  exact (Function.update_of_ne hne ..).trans (h id hid)

/-- A token gets its mood after it was made. -/
theorem Blank.minted {s : State E} (h : Blank s)
    (hmaking : InTheMaking E s.tokens s.s_tokenCounter) : Blank s.minted := by
  intro id hid
  have hne : id ≠ s.s_tokenCounter := fun heq => (hmaking id).mpr (Nat.le_of_eq heq) hid
  exact (Function.update_of_ne hne ..).trans (h id hid)

/-- No call writes a mood where there is no token. -/
theorem stable_blank : Stable fun (s : State E) _ => Blank s where
  call hcall h := h.call hcall
  mint hmint h := fun id hid =>
    h id (not_not.mp fun howner => ((E.mint_some hmint).2 id).mpr (.inl howner) hid)
  flip _ htoken _ h := h.flipped htoken
  minted hmaking h := h.minted hmaking

theorem blank_after (calls : Calls (Action E)) : Blank (after calls).1 :=
  (stable_blank.after (fun _ _ => rfl) calls).2

/-- **Pictures and flips.** After every run, what a viewer shows for a token is the happy picture if
the flips, of which those in the hook of its mint count twice, are even in number, and otherwise the
sad one. For a number that is no token it shows the sad one too. -/
theorem shown_iff_flips (B : Encoder) (calls : Calls (Action E)) (sadSvg happySvg : List UInt8)
    (id : ℕ) :
    shown (tokenURI B (DeployMoodNft.run B sadSvg happySvg) (after calls).1 id)
      = some (if E.ownerOf (after calls).1.tokens id ≠ none ∧
          Even ((after calls).2.total id + (after calls).2.early id)
        then happySvg else sadSvg) := by
  obtain ⟨hnumbered, hmoods⟩ := moods_after calls
  rw [shown_tokenURI]
  congr 1
  by_cases howner : E.ownerOf (after calls).1.tokens id = none
  · rw [if_pos (blank_after calls id howner), if_neg fun hboth => hboth.1 howner]
  · have hmood := hmoods.made id ((hnumbered id).mp howner)
    rcases hsad : (after calls).1.s_tokenIdToMood id with _ | _
    · have hodd : ¬ Even ((after calls).2.total id + (after calls).2.early id) := fun heven =>
        absurd (hsad.symm.trans (hmood.mpr heven)) nofun
      rw [if_pos rfl, if_neg fun hboth => hodd hboth.2]
    · rw [if_neg nofun, if_pos ⟨howner, hmood.mp hsad⟩]

/-- An encoder that works. -/
def encoder : Encoder where
  encode := Base64.encode
  decode_encode := Base64.decode_encode
  letters := Base64.forall_mem_encode (p := fun c => c = Base64.pad ∨ ∃ n < 64, c = Base64.letter n)
    (fun n hn => Or.inr ⟨n, hn, rfl⟩) (Or.inl rfl)

/-- A token whose only flip was made in the hook of its mint is shown with the happy picture. -/
theorem shown_iff_flips_sample :
    shown (tokenURI encoder (DeployMoodNft.run encoder [1] [2]) (after hastyCalls).1 0)
      = some [2] :=
  (shown_iff_flips encoder hastyCalls [1] [2] 0).trans (by decide)

end MoodNft

end Nft

end UpdraftContracts
