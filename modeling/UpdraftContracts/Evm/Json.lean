import Mathlib.Data.List.DropRight
import UpdraftContracts.Evm.Text

/-!
# JSON

A reader for JSON texts, and rules for what it makes of a text that is put together from parts.
A number is kept as the text it was written as. Of the escapes in strings those with a code point
are left out.

A parser takes what it reads from the front of a text and returns the rest. `Parses p text x` says
that `p` reads `text` as `x`, whatever comes next. Only a number has to be followed by something
that cannot be a part of it.

## Main results

* `parses_string`, `parses_number`, `parses_array`, `parses_object` — the rules
* `parse_of_parses` — a text that is read to its end is a document
* `get?_object` — what stands under a name in an object
-/

namespace Evm

/-- A document. -/
inductive Json where
  | null
  | bool (b : Bool)
  | number (text : List UInt8)
  | string (text : List UInt8)
  | array (items : List Json)
  | object (members : List (List UInt8 × Json))

namespace Json

/-- The letter `"` -/
abbrev quote : UInt8 := 34
/-- The letter `,` -/
abbrev comma : UInt8 := 44
/-- The letter `:` -/
abbrev colon : UInt8 := 58
/-- The letter that begins an escape. -/
abbrev backslash : UInt8 := 92
/-- The letter `[` -/
abbrev openBracket : UInt8 := 91
/-- The letter `]` -/
abbrev closeBracket : UInt8 := 93
/-- The opening brace. -/
abbrev openBrace : UInt8 := 123
/-- The closing brace. -/
abbrev closeBrace : UInt8 := 125

/-- Blank, tab, line feed and carriage return. -/
def isSpace (c : UInt8) : Bool := c == 32 || c == 9 || c == 10 || c == 13

/-- The letters `0` to `9`. -/
def isDigit (c : UInt8) : Bool := 48 ≤ c && c ≤ 57

/-- The bytes that occur in numbers. -/
def isNumberByte (c : UInt8) : Bool :=
  isDigit c || c == 43 || c == 45 || c == 46 || c == 101 || c == 69

/-- The bytes that stand for themselves in a string. -/
def isPlain (c : UInt8) : Bool := 32 ≤ c && c != quote && c != backslash

/-- What is left behind white space. -/
def skipSpace (text : List UInt8) : List UInt8 := text.dropWhile isSpace

/-- The byte behind a backslash. -/
def escape (c : UInt8) : Option UInt8 :=
  if c = quote ∨ c = backslash ∨ c = 47 then some c
  else if c = 98 then some 8
  else if c = 102 then some 12
  else if c = 110 then some 10
  else if c = 114 then some 13
  else if c = 116 then some 9
  else none

/-- A parser takes what it reads from the front of a text. -/
abbrev Parser (α : Type) := List UInt8 → Option (α × List UInt8)

/-- A string, from behind its opening quote or, if the flag is set, from behind a backslash. -/
def stringBody : Bool → Parser (List UInt8)
  | _, [] => none
  | true, c :: rest => do
    let c ← escape c
    let (text, rest) ← stringBody false rest
    return (c :: text, rest)
  | false, c :: rest =>
    if c = quote then some ([], rest)
    else if c = backslash then stringBody true rest
    else if isPlain c then do
      let (text, rest) ← stringBody false rest
      return (c :: text, rest)
    else none

/-- The fraction and the exponent of a number. -/
def isNumberEnd (text : List UInt8) : Bool :=
  let exponent (text : List UInt8) : Bool :=
    match text with
    | [] => true
    | e :: text =>
      let digits := if text.head? = some 43 ∨ text.head? = some 45 then text.tail else text
      (e == 101 || e == 69) && digits != [] && digits.all isDigit
  match text with
  | [] => true
  | c :: rest =>
    if c = 46 then rest.takeWhile isDigit != [] && exponent (rest.dropWhile isDigit)
    else exponent (c :: rest)

/-- Whether a text is a number: there are no leading zeros. -/
def isNumber (text : List UInt8) : Bool :=
  let text := if text.head? = some 45 then text.tail else text
  let digits := text.takeWhile isDigit
  digits != [] && (digits == [48] || digits.head? != some 48) &&
    isNumberEnd (text.dropWhile isDigit)

/-- A number keeps its text. -/
def numeric : Parser Json := fun text =>
  let token := text.takeWhile isNumberByte
  if isNumber token then some (.number token, text.dropWhile isNumberByte) else none

/-- One of the three words. -/
def word (name : List UInt8) (value : Json) : Parser Json := fun text =>
  if text.take name.length = name then some (value, text.drop name.length) else none

/-- What comes behind a byte, in front of which there may be space. -/
def behind (c : UInt8) (text : List UInt8) : Option (List UInt8) :=
  match skipSpace text with
  | [] => none
  | d :: rest => if d = c then some rest else none

/-- At least one item, commas between the items, and a closing byte. -/
def items {α : Type} (item : Parser α) (close : UInt8) : ℕ → Parser (List α)
  | 0, _ => none
  | n + 1, text => do
    let (x, text) ← item text
    match behind close text with
    | some rest => return ([x], rest)
    | none =>
      let rest ← behind comma text
      let (xs, rest) ← items item close n rest
      return (x :: xs, rest)

/-- Any number of items, and a closing byte. -/
def sequence {α : Type} (item : Parser α) (close : UInt8) : Parser (List α) := fun text =>
  match behind close text with
  | some rest => some ([], rest)
  | none => items item close (text.length + 1) text

/-- A name and a value. -/
def member (value : Parser Json) : Parser (List UInt8 × Json) := fun text => do
  let rest ← behind quote text
  let (name, rest) ← stringBody false rest
  let rest ← behind colon rest
  let (v, rest) ← value rest
  return ((name, v), rest)

/-- A value, from its first byte. What is nested in it is read with a parser that is given. -/
def valueBody (value : Parser Json) : Parser Json
  | [] => none
  | c :: rest =>
    if c = quote then (stringBody false rest).map fun (text, rest) => (.string text, rest)
    else if c = openBracket then
      (sequence value closeBracket rest).map fun (xs, rest) => (.array xs, rest)
    else if c = openBrace then
      (sequence (member value) closeBrace rest).map fun (ms, rest) => (.object ms, rest)
    else if c = 116 then word (literal "true") (.bool true) (c :: rest)
    else if c = 102 then word (literal "false") (.bool false) (c :: rest)
    else if c = 110 then word (literal "null") .null (c :: rest)
    else numeric (c :: rest)

/-- A value that is nested at most as deep as a number says. -/
def value : ℕ → Parser Json
  | 0, _ => none
  | n + 1, text => valueBody (value n) (skipSpace text)

/-- Reads all of a text as a document. -/
def parse (text : List UInt8) : Option Json := do
  let (v, rest) ← value (text.length + 1) text
  if skipSpace rest = [] then some v else none

/-! ## Reading a text made of parts -/

/-- What cannot go on a number. -/
def Ends (rest : List UInt8) : Prop := ∀ c ∈ rest.head?, isNumberByte c = false

/-- A parser reads a text as `x`, whatever comes next. -/
def Parses {α : Type} (p : Parser α) (text : List UInt8) (x : α) : Prop :=
  ∀ rest, Ends rest → p (text ++ rest) = some (x, rest)

variable {α : Type} {text rest space : List UInt8} {c close : UInt8} {n : ℕ} {v : Json}

theorem ends_cons (hc : isNumberByte c = false) : Ends (c :: rest) := by
  intro d hd
  rw [← Option.some.inj hd]
  exact hc

theorem ends_append (hspace : ∀ c ∈ space, isSpace c) (hrest : Ends rest) :
    Ends (space ++ rest) := by
  cases space with
  | nil => exact hrest
  | cons c space =>
    refine ends_cons ?_
    have hc := hspace c List.mem_cons_self
    simp only [isSpace, Bool.or_eq_true, beq_iff_eq] at hc
    rcases hc with ((rfl | rfl) | rfl) | rfl <;> rfl

theorem skipSpace_append (hspace : ∀ c ∈ space, isSpace c) :
    skipSpace (space ++ rest) = skipSpace rest :=
  List.dropWhile_append_of_pos hspace

theorem skipSpace_cons (hc : isSpace c = false) : skipSpace (c :: rest) = c :: rest :=
  List.dropWhile_cons_of_neg (by rw [hc]; exact Bool.false_ne_true)

theorem skipSpace_skipSpace (text : List UInt8) : skipSpace (skipSpace text) = skipSpace text :=
  List.dropWhile_idempotent isSpace text

/-! ### Space in front -/

theorem value_skipSpace (n : ℕ) (text : List UInt8) : value n (skipSpace text) = value n text := by
  cases n with
  | zero => rfl
  | succ n => rw [value, value, skipSpace_skipSpace]

theorem member_skipSpace (p : Parser Json) (text : List UInt8) :
    member p (skipSpace text) = member p text := by
  rw [member, member, behind, behind, skipSpace_skipSpace]

/-- A parser that skips white space may have some in front of it. -/
theorem Parses.behind_space {p : Parser α} {x : α} (hp : ∀ text, p (skipSpace text) = p text)
    (hspace : ∀ c ∈ space, isSpace c) (h : Parses p text x) : Parses p (space ++ text) x := by
  intro rest hrest
  rw [List.append_assoc, ← hp, skipSpace_append hspace, hp]
  exact h rest hrest

theorem isSpace_literal : ∀ c ∈ literal " ", isSpace c := List.all_eq_true.mp (by decide)

theorem Parses.spaced_value {n : ℕ} {v : Json} (h : Parses (value n) text v) :
    Parses (value n) (literal " " ++ text) v :=
  h.behind_space (value_skipSpace n) isSpace_literal

theorem Parses.spaced_member {p : Parser Json} {m : List UInt8 × Json}
    (h : Parses (member p) text m) : Parses (member p) (literal " " ++ text) m :=
  h.behind_space (member_skipSpace p) isSpace_literal

/-! ### Strings and numbers -/

/-- A string without escapes ends at the next quote. -/
theorem stringBody_append (htext : ∀ c ∈ text, isPlain c) :
    stringBody false (text ++ quote :: rest) = some (text, rest) := by
  induction text with
  | nil => rfl
  | cons c text ih =>
    have hplain := htext c List.mem_cons_self
    have hc : c ≠ quote ∧ c ≠ backslash := by
      simp only [isPlain, Bool.and_eq_true, bne_iff_ne] at hplain
      exact ⟨hplain.1.2, hplain.2⟩
    rw [List.cons_append, stringBody, if_neg hc.1, if_neg hc.2, if_pos hplain,
      ih fun d hd => htext d (List.mem_cons_of_mem c hd)]
    rfl

/-- A string in quotes. -/
def quoted (text : List UInt8) : List UInt8 := quote :: text ++ [quote]

theorem quoted_append (text rest : List UInt8) :
    quoted text ++ rest = quote :: (text ++ quote :: rest) := by
  rw [quoted, List.cons_append, List.cons_append, List.append_assoc]
  rfl

/-- A quoted text without escapes is a string. -/
theorem parses_string (htext : ∀ c ∈ text, isPlain c) :
    Parses (value (n + 1)) (quoted text) (.string text) := by
  intro rest _
  rw [quoted_append, value, skipSpace_cons rfl, valueBody, if_pos rfl, stringBody_append htext]
  rfl

/-- A number goes as far as its letters do. -/
theorem parses_number (hbytes : ∀ c ∈ text, isNumberByte c) (hnumber : isNumber text) :
    Parses (value (n + 1)) text (.number text) := by
  intro rest hrest
  have htake : (text ++ rest).takeWhile isNumberByte = text := by
    rw [List.takeWhile_append_of_pos hbytes]
    cases rest with
    | nil => exact List.append_nil text
    | cons c rest =>
      rw [List.takeWhile_cons_of_neg (by rw [hrest c rfl]; exact Bool.false_ne_true)]
      exact List.append_nil text
  have hdrop : (text ++ rest).dropWhile isNumberByte = rest := by
    rw [List.dropWhile_append_of_pos hbytes]
    cases rest with
    | nil => rfl
    | cons c rest =>
      exact List.dropWhile_cons_of_neg (by rw [hrest c rfl]; exact Bool.false_ne_true)
  have hparser : numeric (text ++ rest) = some (.number text, rest) := by
    rw [numeric, htake, if_pos hnumber, hdrop]
  cases text with
  | nil => exact absurd hnumber Bool.false_ne_true
  | cons c text =>
    -- a byte of a number is not what any other kind of value begins with
    have hc : isSpace c = false ∧ c ≠ quote ∧ c ≠ openBracket ∧ c ≠ openBrace ∧ c ≠ 116 ∧
        c ≠ 102 ∧ c ≠ 110 := by
      have := hbytes c List.mem_cons_self
      refine ⟨?_, ?_, ?_, ?_, ?_, ?_, ?_⟩
      · by_contra hspace
        rw [Bool.not_eq_false] at hspace
        simp only [isSpace, Bool.or_eq_true, beq_iff_eq] at hspace
        rcases hspace with ((rfl | rfl) | rfl) | rfl <;> exact absurd this Bool.false_ne_true
      all_goals rintro rfl; exact absurd this Bool.false_ne_true
    obtain ⟨hspace, h₁, h₂, h₃, h₄, h₅, h₆⟩ := hc
    rw [List.cons_append, value, skipSpace_cons hspace, valueBody, if_neg h₁, if_neg h₂,
      if_neg h₃, if_neg h₄, if_neg h₅, if_neg h₆]
    exact hparser

/-! ### Arrays and objects -/

theorem behind_append (hspace : ∀ c ∈ space, isSpace c) (hc : isSpace c = false) :
    behind c (space ++ c :: rest) = some rest := by
  rw [behind, skipSpace_append hspace, skipSpace_cons hc]
  exact if_pos rfl

theorem behind_cons (hc : isSpace c = false) : behind c (c :: rest) = some rest := by
  have hnone : ∀ b ∈ ([] : List UInt8), isSpace b := List.forall_mem_nil _
  exact behind_append hnone hc

/-- A byte that ends a sequence of items. -/
structure Closes (close : UInt8) : Prop where
  not_space : isSpace close = false
  not_number : isNumberByte close = false
  not_comma : comma ≠ close

variable {item : Parser α} {texts : List (List UInt8)} {xs : List α}

/-- Texts of items with commas between them are the text of a list. The induction is on the items,
with a bound for their number. -/
theorem parses_items (hclose : Closes close) (hspace : ∀ c ∈ space, isSpace c)
    (hitems : List.Forall₂ (Parses item) texts xs) (hne : texts ≠ []) (hn : texts.length ≤ n) :
    Parses (items item close n) ([comma].intercalate texts ++ space ++ [close]) xs := by
  induction hitems generalizing n with
  | nil => exact absurd rfl hne
  | @cons text x texts xs hitem hitems ih =>
    intro rest hrest
    obtain ⟨n, rfl⟩ : ∃ m, n = m + 1 := ⟨n - 1, by rw [List.length_cons] at hn; omega⟩
    cases hitems with
    | nil =>
      have hends : Ends (space ++ close :: rest) := ends_append hspace (ends_cons hclose.not_number)
      have htext : [comma].intercalate [text] ++ space ++ [close] ++ rest
          = text ++ (space ++ close :: rest) := by
        rw [List.intercalate_singleton, List.append_assoc, List.append_assoc]
        rfl
      simp only [htext, items, hitem _ hends, behind_append hspace hclose.not_space,
        Option.bind_eq_bind, Option.bind_some]
      rfl
    | @cons text' x' texts xs hitem' hitems =>
      set others := [comma].intercalate (text' :: texts) ++ space ++ [close] with hothers
      have htext : [comma].intercalate (text :: text' :: texts) ++ space ++ [close] ++ rest
          = text ++ comma :: (others ++ rest) := by
        rw [List.intercalate_cons_cons, hothers]
        simp only [List.append_assoc]
        rfl
      have hopen : behind close (comma :: (others ++ rest)) = none := if_neg hclose.not_comma
      simp only [htext, items, hitem _ (ends_cons (c := comma) rfl), hopen,
        behind_cons (c := comma) rfl,
        ih (List.cons_ne_nil _ _) (Nat.le_of_succ_le_succ hn) rest hrest, Option.bind_eq_bind,
        Option.bind_some]
      rfl

/-- There are no more items than letters. -/
theorem length_le_intercalate (texts : List (List UInt8)) :
    texts.length ≤ ([comma].intercalate texts).length + 1 := by
  induction texts with
  | nil => exact Nat.zero_le _
  | cons text texts ih =>
    rcases eq_or_ne texts [] with rfl | hne
    · rw [List.length_singleton]
      omega
    · rw [List.intercalate_cons_of_ne_nil hne]
      simp only [List.length_append, List.length_cons, List.length_nil] at ih ⊢
      omega

/-- The empty list is told from the others by its first letter. -/
theorem parses_sequence (hclose : Closes close) (hspace : ∀ c ∈ space, isSpace c)
    (hitem : ∀ text rest, behind close text = some rest → item text = none)
    (hitems : List.Forall₂ (Parses item) texts xs) :
    Parses (sequence item close) ([comma].intercalate texts ++ space ++ [close]) xs := by
  intro rest hrest
  rcases eq_or_ne texts [] with rfl | hne
  · obtain rfl := List.forall₂_nil_left_iff.mp hitems
    have htext : [comma].intercalate [] ++ space ++ [close] ++ rest = space ++ close :: rest := by
      rw [List.intercalate_nil, List.nil_append, List.append_assoc]
      rfl
    rw [htext, sequence, behind_append hspace hclose.not_space]
  · set text := [comma].intercalate texts ++ space ++ [close] ++ rest with htext
    have hn : texts.length ≤ text.length + 1 := by
      have := length_le_intercalate texts
      rw [htext]
      simp only [List.length_append]
      omega
    have hparses := parses_items hclose hspace hitems hne hn rest hrest
    have hopen : behind close text = none := by
      cases hbehind : behind close text with
      | none => rfl
      | some rest' =>
        rw [← htext, items, hitem text rest' hbehind] at hparses
        cases hparses
    rw [sequence, hopen]
    exact hparses

/-- What begins with another byte. -/
theorem behind_eq_some (h : behind c text = some rest) : skipSpace text = c :: rest := by
  rw [behind] at h
  split at h
  · cases h
  · next d rest' htext =>
    split_ifs at h with hd
    rw [htext, hd, Option.some.inj h]

/-- The text of an array, from those of its items. -/
theorem parses_array {vs : List Json} (hspace : ∀ c ∈ space, isSpace c)
    (hitems : List.Forall₂ (Parses (value n)) texts vs) :
    Parses (value (n + 1))
      (openBracket :: ([comma].intercalate texts ++ space ++ [closeBracket])) (.array vs) := by
  have hclose : Closes closeBracket := ⟨rfl, rfl, by decide⟩
  have hvalue : ∀ text rest, behind closeBracket text = some rest → value n text = none := by
    intro text rest hbehind
    cases n with
    | zero => rfl
    | succ n => rw [value, behind_eq_some hbehind]; rfl
  intro rest hrest
  rw [List.cons_append, value, skipSpace_cons rfl, valueBody, if_neg (by decide), if_pos rfl,
    parses_sequence hclose hspace hvalue hitems rest hrest]
  rfl

/-- The text of a member, from those of its name and its value. -/
theorem parses_member {name : List UInt8} (hname : ∀ c ∈ name, isPlain c)
    (hvalue : Parses (value n) text v) :
    Parses (member (value n)) (quoted name ++ colon :: text) (name, v) := by
  intro rest hrest
  have htext : quoted name ++ colon :: text ++ rest
      = quote :: (name ++ quote :: colon :: (text ++ rest)) := by
    rw [List.append_assoc, quoted_append]
    rfl
  simp only [htext, member, behind_cons (c := quote) rfl, stringBody_append hname,
    behind_cons (c := colon) rfl, hvalue rest hrest, Option.bind_eq_bind, Option.bind_some]
  rfl

/-- The text of an object, from those of its members. -/
theorem parses_object {ms : List (List UInt8 × Json)} (hspace : ∀ c ∈ space, isSpace c)
    (hitems : List.Forall₂ (Parses (member (value n))) texts ms) :
    Parses (value (n + 1))
      (openBrace :: ([comma].intercalate texts ++ space ++ [closeBrace])) (.object ms) := by
  have hclose : Closes closeBrace := ⟨rfl, rfl, by decide⟩
  have hmember : ∀ text rest, behind closeBrace text = some rest →
      member (value n) text = none := by
    intro text rest hbehind
    rw [member, behind, behind_eq_some hbehind]
    rfl
  intro rest hrest
  rw [List.cons_append, value, skipSpace_cons rfl, valueBody, if_neg (by decide),
    if_neg (by decide), if_pos rfl, parses_sequence hclose hspace hmember hitems rest hrest]
  rfl

/-- The text of a value with nothing behind it is parsed. -/
theorem parse_of_parses (h : Parses (value (text.length + 1)) text v) : parse text = some v := by
  have hrest := h [] fun c hc => absurd hc (Option.not_mem_none c)
  rw [List.append_nil] at hrest
  rw [parse, hrest]
  rfl

/-! ## Looking things up -/

/-- What stands under a name. Of several members with the name the last one counts. -/
def get? (name : List UInt8) : Json → Option Json
  | .object members => (members.filter fun m => m.1 == name).getLast?.map Prod.snd
  | _ => none

/-- Under a name that occurs once there is its value. -/
theorem get?_object {members : List (List UInt8 × Json)} {name : List UInt8}
    (hnodup : (members.map Prod.fst).Nodup) (hmem : (name, v) ∈ members) :
    get? name (.object members) = some v := by
  have hfilter : (members.filter fun m => m.1 == name) = [(name, v)] := by
    obtain ⟨before, after, rfl⟩ := List.append_of_mem hmem
    rw [List.map_append, List.map_cons, List.nodup_append, List.nodup_cons] at hnodup
    obtain ⟨-, ⟨hafter, -⟩, hbefore⟩ := hnodup
    have hfree : ∀ ms : List (List UInt8 × Json), name ∉ ms.map Prod.fst →
        (ms.filter fun m => m.1 == name) = [] := by
      intro ms hms
      refine List.filter_eq_nil_iff.mpr fun m hm hname => hms ?_
      rw [← eq_of_beq hname]
      exact List.mem_map_of_mem hm
    have hname : name ∉ before.map Prod.fst := fun hmem =>
      hbefore name hmem name List.mem_cons_self rfl
    rw [List.filter_append, List.filter_cons, if_pos (beq_self_eq_true name), hfree before hname,
      hfree after hafter]
    rfl
  rw [get?, hfilter]
  rfl

/-! ## Writing -/

theorem intercalate_concat (sep text : List UInt8) (texts : List (List UInt8)) :
    sep.intercalate (texts ++ [text]) = texts.flatMap (· ++ sep) ++ text := by
  induction texts with
  | nil => exact List.intercalate_singleton
  | cons t texts ih =>
    rw [List.cons_append, List.intercalate_cons_of_ne_nil (by simp), ih, List.flatMap_cons]
    exact (List.append_assoc ..).symm

/-- **A loop that puts commas between items.** All but the last item are followed by one. -/
theorem foldl_commas (step : List UInt8 → ℕ → List UInt8) (item : ℕ → List UInt8) {n : ℕ}
    (hstep : ∀ text, ∀ i < n, i ≠ n - 1 → step text i = text ++ item i ++ [comma])
    (hlast : ∀ text, 0 < n → step text (n - 1) = text ++ item (n - 1)) (text : List UInt8) :
    (List.range n).foldl step text = text ++ [comma].intercalate ((List.range n).map item) := by
  cases n with
  | zero => exact (List.append_nil text).symm
  | succ n =>
    have hfold : ∀ m ≤ n, (List.range m).foldl step text
        = text ++ ((List.range m).map item).flatMap (· ++ [comma]) := by
      intro m hm
      induction m with
      | zero => exact (List.append_nil text).symm
      | succ m ih =>
        rw [List.range_succ, List.foldl_append, ih (Nat.le_of_succ_le hm), List.foldl_cons,
          List.foldl_nil, hstep _ m (Nat.lt_succ_of_lt hm) (by omega), List.map_append,
          List.flatMap_append]
        simp
    rw [List.range_succ, List.foldl_append, hfold n (Nat.le_refl n), List.foldl_cons,
      List.foldl_nil, List.map_append, List.map_singleton, intercalate_concat]
    exact (hlast _ (Nat.succ_pos n)).trans (List.append_assoc ..)

/-! ### Numbers in documents -/

theorem isPlain_of_digit (h : digitValue c ≠ none) : isPlain c := by
  have hplain : ∀ n < 256, digitValue (UInt8.ofNat n) ≠ none → isPlain (UInt8.ofNat n) := by
    decide +kernel
  have := hplain c.toNat c.toNat_lt
  rw [UInt8.ofNat_toNat] at this
  exact this h

theorem isPlain_decimal (n : ℕ) : ∀ c ∈ decimal n, isPlain c := by
  obtain ⟨ds, -, hds, -, htext⟩ := exists_decimal_eq n
  intro c hc
  rw [htext] at hc
  obtain ⟨d, hd, rfl⟩ := List.mem_map.mp hc
  refine isPlain_of_digit ?_
  rw [digitValue_digitByte ((hds d hd).trans (by decide))]
  exact Option.some_ne_none d

theorem isPlain_of_parseHex {k n : ℕ} (h : parseHex k text = some n) : ∀ c ∈ text, isPlain c := by
  have hstart : ∀ c ∈ literal "0x", isPlain c := List.all_eq_true.mp (by decide)
  intro c hc
  rcases mem_of_parseHex h hc with hc | hc
  · exact hstart c hc
  · exact isPlain_of_digit hc

/-- A decimal is a number in JSON. -/
theorem parses_decimal (n m : ℕ) : Parses (value (m + 1)) (decimal n) (.number (decimal n)) := by
  have hdigit : ∀ d < 10, isDigit (digitByte d) ∧ isNumberByte (digitByte d) ∧
      digitByte d ≠ 45 ∧ (digitByte d = 48 → d = 0) := by
    decide
  obtain ⟨ds, hhead, hds, -, htext⟩ := exists_decimal_eq n
  have hbytes : ∀ c ∈ ds.map digitByte, isDigit c ∧ isNumberByte c := by
    intro c hc
    obtain ⟨d, hd, rfl⟩ := List.mem_map.mp hc
    exact ⟨(hdigit d (hds d hd)).1, (hdigit d (hds d hd)).2.1⟩
  rw [htext]
  refine parses_number (fun c hc => (hbytes c hc).2) ?_
  rcases hhead with rfl | ⟨d, hd, hne⟩
  · rfl
  · obtain ⟨ds, rfl⟩ := List.head?_eq_some_iff.mp hd
    obtain ⟨-, -, hminus, hzero⟩ := hdigit d (hds d List.mem_cons_self)
    have htake : (digitByte d :: ds.map digitByte).takeWhile isDigit
        = digitByte d :: ds.map digitByte :=
      List.takeWhile_eq_self_iff.mpr fun c hc => (hbytes c hc).1
    have hdrop : (digitByte d :: ds.map digitByte).dropWhile isDigit = [] :=
      List.dropWhile_eq_nil_iff.mpr fun c hc => (hbytes c hc).1
    have hfirst : (some (digitByte d) != some 48) = true := by
      rw [bne_iff_ne, ne_eq, Option.some.injEq]
      exact fun heq => hne (hzero heq)
    rw [List.map_cons, isNumber, List.head?_cons, if_neg (fun heq => hminus (Option.some.inj heq)),
      htake, hdrop, List.head?_cons, hfirst, Bool.or_true]
    rfl

end Json

end Evm
