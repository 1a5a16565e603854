import Mathlib.Data.List.GetD
import Mathlib.Data.Set.Function
import Mathlib.Order.Defs.LinearOrder

/-!
# Merkle trees with sorted pairs

A tree is built level by level. Two neighbours are hashed together, the smaller one first, and a
last node without a neighbour is hashed with a padding value. A proof is a list of siblings, without
directions: since pairs are sorted, none are needed.

`hash` takes messages to digests and `pair` makes a message of two digests. No hash function is
injective on all messages. What is asked of it is that it is injective on a set `S` of messages, and
all results are about trees and proofs for which everything that is hashed is in `S`.

Neither the length of a proof nor the position of a leaf is checked. So a proof could stop at an
inner node or go on below a leaf. That leaves are hashes of messages which are not pairs rules this
out.

## Main results

* `Binding.isNode_of_processProof` — a proof that ends in a node of a tree begins at a node of it
* `Binding.mem_of_verify` — a proof is accepted only for the messages that the tree was made of
* `verify_getProof` — the proof that is read off the tree is accepted
-/

namespace Evm

namespace Merkle

variable {μ β : Type}

/-- The neighbours of a level. -/
def neighbours (pad : β) : List β → List (β × β)
  | [] => []
  | [a] => [(a, pad)]
  | a :: b :: level => (a, b) :: neighbours pad level

theorem length_neighbours (pad : β) (level : List β) :
    (neighbours pad level).length = (level.length + 1) / 2 := by
  induction level using neighbours.induct with
  | case1 => simp [neighbours]
  | case2 a => simp [neighbours]
  | case3 a b level ih =>
    rw [neighbours, List.length_cons, ih, List.length_cons, List.length_cons]
    omega

theorem forall_neighbours {pad : β} {P : β → Prop} (hpad : P pad) {level : List β}
    (h : ∀ x ∈ level, P x) : ∀ p ∈ neighbours pad level, P p.1 ∧ P p.2 := by
  induction level using neighbours.induct with
  | case1 => exact nofun
  | case2 a =>
    intro p hp
    obtain rfl := List.mem_singleton.mp hp
    exact ⟨h a (List.mem_singleton_self a), hpad⟩
  | case3 a b level ih =>
    rw [List.forall_mem_cons, List.forall_mem_cons] at h
    obtain ⟨ha, hb, hlevel⟩ := h
    exact List.forall_mem_cons.mpr ⟨⟨ha, hb⟩, ih hlevel⟩

theorem getD_eq_headD {pad : β} {level : List β} {node : ℕ} (hnode : node < level.length)
    (hlen : level.length = 1) : level.getD node pad = level.headD pad := by
  obtain ⟨x, rfl⟩ := List.length_eq_one_iff.mp hlen
  obtain rfl : node = 0 := Nat.lt_one_iff.mp hnode
  rfl

variable [LinearOrder β] (hash : μ → β) (pair : β → β → μ)

/-- The message of two neighbours. -/
def sortedPair (a b : β) : μ := if a < b then pair a b else pair b a

/-- The digest of two neighbours. Their order does not matter. -/
def hashPair (a b : β) : β := hash (sortedPair pair a b)

/-! ## Proofs -/

/-- The digest that a proof leads to from `leaf`. -/
def processProof (proof : List β) (leaf : β) : β :=
  proof.foldl (fun computedHash sibling => hashPair hash pair computedHash sibling) leaf

/-- The proof leads from the leaf to the root. -/
def verify (proof : List β) (root leaf : β) : Prop := processProof hash pair proof leaf = root

instance (proof : List β) (root leaf : β) : Decidable (verify hash pair proof root leaf) :=
  inferInstanceAs (Decidable (_ = _))

/-- What is hashed on the way. -/
def proofMessages : List β → β → List μ
  | [], _ => []
  | sibling :: proof, x =>
    sortedPair pair x sibling :: proofMessages proof (hashPair hash pair x sibling)

/-! ## Trees -/

/-- The next level of a tree. -/
def hashLevel (pad : β) (level : List β) : List β :=
  (neighbours pad level).map fun p => hashPair hash pair p.1 p.2

/-- Levels are combined while there is more than one node. `fuel` bounds their number. -/
def reduce (pad : β) : ℕ → List β → List β
  | 0, level => level
  | fuel + 1, level =>
    if 1 < level.length then reduce pad fuel (hashLevel hash pair pad level) else level

/-- The root over `leaves`. Without leaves it is the padding. -/
def root (pad : β) (leaves : List β) : β :=
  (reduce hash pair pad leaves.length leaves).headD pad

/-- What is hashed for the levels above one. -/
def treeMessages (pad : β) : ℕ → List β → List μ
  | 0, _ => []
  | fuel + 1, level =>
    if 1 < level.length then
      (neighbours pad level).map (fun p => sortedPair pair p.1 p.2) ++
        treeMessages pad fuel (hashLevel hash pair pad level)
    else []

/-- What is hashed for the root over `leaves`. -/
def rootMessages (pad : β) (leaves : List β) : List μ :=
  treeMessages hash pair pad leaves.length leaves

/-- A level has half as many nodes as the one below, rounded up. -/
theorem length_hashLevel (pad : β) (level : List β) :
    (hashLevel hash pair pad level).length = (level.length + 1) / 2 := by
  rw [hashLevel, List.length_map, length_neighbours]

/-! ## The proofs of a tree -/

/-- What a node is hashed with. -/
def sibling (pad : β) (level : List β) (node : ℕ) : β :=
  if node % 2 = 1 then level.getD (node - 1) pad
  else if node + 1 = level.length then pad
  else level.getD (node + 1) pad

/-- The siblings on the way up from a node of a level. -/
def siblings (pad : β) : ℕ → List β → ℕ → List β
  | 0, _, _ => []
  | fuel + 1, level, node =>
    if 1 < level.length then
      sibling pad level node :: siblings pad fuel (hashLevel hash pair pad level) (node / 2)
    else []

/-- The proof for the leaf with a given index. -/
def getProof (pad : β) (leaves : List β) (node : ℕ) : List β :=
  siblings hash pair pad leaves.length leaves node

theorem hashPair_comm (a b : β) : hashPair hash pair a b = hashPair hash pair b a := by
  simp only [hashPair, sortedPair]
  rcases lt_trichotomy a b with h | rfl | h
  · rw [if_pos h, if_neg h.asymm]
  · rfl
  · rw [if_neg h.asymm, if_pos h]

/-- A node is the hash of the two below it. -/
theorem getD_hashLevel (pad : β) {level : List β} {node : ℕ} (h : node < level.length) :
    (hashLevel hash pair pad level).getD (node / 2) pad
      = hashPair hash pair (level.getD (node / 2 * 2) pad) (level.getD (node / 2 * 2 + 1) pad) := by
  induction level using neighbours.induct generalizing node with
  | case1 => exact absurd h (Nat.not_lt_zero node)
  | case2 a =>
    obtain rfl : node = 0 := Nat.lt_one_iff.mp h
    rfl
  | case3 a b level ih =>
    rcases Nat.lt_or_ge node 2 with hlow | hhigh
    · rw [Nat.div_eq_of_lt hlow]
      rfl
    · obtain ⟨n, rfl⟩ := Nat.exists_eq_add_of_le' hhigh
      have hn : n < level.length := Nat.lt_of_add_lt_add_right h
      rw [Nat.add_div_right n Nat.two_pos, Nat.add_mul]
      exact ih hn

/-- A node of the next level is the hash of a node and its sibling. -/
theorem getD_hashLevel_sibling (pad : β) {level : List β} {node : ℕ} (h : node < level.length) :
    (hashLevel hash pair pad level).getD (node / 2) pad
      = hashPair hash pair (level.getD node pad) (sibling pad level node) := by
  rw [getD_hashLevel hash pair pad h, sibling]
  split
  case isTrue hodd =>
    rw [show node / 2 * 2 = node - 1 by omega, show node - 1 + 1 = node by omega]
    exact hashPair_comm hash pair _ _
  case isFalse heven =>
    rw [show node / 2 * 2 = node by omega]
    split
    case isTrue hlast => rw [List.getD_eq_default _ _ (by omega : level.length ≤ node + 1)]
    case isFalse => rfl

/-- From every node of a level the siblings lead to the root. -/
theorem processProof_siblings (pad : β) {fuel : ℕ} {level : List β} {node : ℕ}
    (hnode : node < level.length) (hfuel : level.length ≤ fuel + 1) :
    processProof hash pair (siblings hash pair pad fuel level node) (level.getD node pad)
      = (reduce hash pair pad fuel level).headD pad := by
  induction fuel generalizing level node with
  | zero => exact getD_eq_headD hnode (by omega)
  | succ fuel ih =>
    rw [siblings, reduce]
    split
    case isTrue hlt =>
      have hlen := length_hashLevel hash pair pad level
      rw [processProof, List.foldl_cons, ← getD_hashLevel_sibling hash pair pad hnode]
      exact ih (by omega) (by omega)
    case isFalse hle => exact getD_eq_headD hnode (by omega)

/-- **The proofs of a tree are accepted.** -/
theorem verify_getProof (pad : β) {leaves : List β} {node : ℕ} (h : node < leaves.length) :
    verify hash pair (getProof hash pair pad leaves node) (root hash pair pad leaves)
      (leaves.getD node pad) :=
  processProof_siblings hash pair pad h (Nat.le_succ _)

/-! ## Nodes -/

/-- What a tree over `leaves` is made of. -/
inductive IsNode (S : Set μ) (pad : β) (leaves : List β) : β → Prop where
  | pad : IsNode S pad leaves pad
  | leaf {x : β} (h : x ∈ leaves) : IsNode S pad leaves x
  | pair {a b : β} (ha : IsNode S pad leaves a) (hb : IsNode S pad leaves b)
      (hS : sortedPair pair a b ∈ S) : IsNode S pad leaves (hashPair hash pair a b)

variable {hash pair} {S : Set μ} {pad : β} {leaves : List β}

/-- What is made of nodes is a node. -/
theorem isNode_of_mem_hashLevel {level : List β}
    (h : ∀ x ∈ level, IsNode hash pair S pad leaves x)
    (hS : ∀ p ∈ neighbours pad level, sortedPair pair p.1 p.2 ∈ S) :
    ∀ x ∈ hashLevel hash pair pad level, IsNode hash pair S pad leaves x := by
  intro x hx
  obtain ⟨p, hp, rfl⟩ := List.mem_map.mp hx
  obtain ⟨hleft, hright⟩ := forall_neighbours .pad h p hp
  exact .pair hleft hright (hS p hp)

/-- So is everything further up. -/
theorem isNode_of_mem_reduce {fuel : ℕ} {level : List β}
    (h : ∀ x ∈ level, IsNode hash pair S pad leaves x)
    (hS : ∀ m ∈ treeMessages hash pair pad fuel level, m ∈ S) :
    ∀ x ∈ reduce hash pair pad fuel level, IsNode hash pair S pad leaves x := by
  induction fuel generalizing level with
  | zero => exact h
  | succ fuel ih =>
    rw [reduce]
    rw [treeMessages] at hS
    split
    case isTrue hlt =>
      rw [if_pos hlt] at hS
      obtain ⟨hlevel, habove⟩ := List.forall_mem_append.mp hS
      refine ih (isNode_of_mem_hashLevel h fun p hp => ?_) habove
      exact hlevel _ (List.mem_map_of_mem hp)
    case isFalse hle => exact h

theorem isNode_root (hS : ∀ m ∈ rootMessages hash pair pad leaves, m ∈ S) :
    IsNode hash pair S pad leaves (root hash pair pad leaves) := by
  have h := isNode_of_mem_reduce (fun x hx => IsNode.leaf hx) hS
  rw [root]
  cases hreduce : reduce hash pair pad leaves.length leaves with
  | nil => exact .pad
  | cons x xs => exact h x (by rw [hreduce]; exact List.mem_cons_self ..)

/-! ## Soundness -/

/-- What is asked of the hash function. -/
structure Binding (hash : μ → β) (pair : β → β → μ) (pad : β) (S : Set μ) : Prop where
  injOn : S.InjOn hash
  ne_pad : ∀ m ∈ S, hash m ≠ pad
  pair_inj {a b c d : β} : pair a b = pair c d → a = c ∧ b = d

/-- Leaves are hashes of such messages. -/
def IsLeafMessage (pair : β → β → μ) (S : Set μ) (m : μ) : Prop := m ∈ S ∧ ∀ a b, m ≠ pair a b

theorem sortedPair_eq (pair : β → β → μ) (a b : β) :
    sortedPair pair a b = pair a b ∨ sortedPair pair a b = pair b a := by
  rw [sortedPair]
  split
  · exact .inl rfl
  · exact .inr rfl

theorem IsLeafMessage.ne_sortedPair {m : μ} (h : IsLeafMessage pair S m) (a b : β) :
    m ≠ sortedPair pair a b := by
  rcases sortedPair_eq pair a b with heq | heq
  · exact heq ▸ h.2 a b
  · exact heq ▸ h.2 b a

/-- If two pairs have the same message, the first has no other members than the second. -/
theorem Binding.eq_or_eq (hbind : Binding hash pair pad S) {a b x y : β}
    (h : sortedPair pair x y = sortedPair pair a b) : x = a ∨ x = b := by
  rcases sortedPair_eq pair x y with hxy | hxy <;>
    rcases sortedPair_eq pair a b with hab | hab <;> rw [hxy, hab] at h
  · exact .inl (hbind.pair_inj h).1
  · exact .inr (hbind.pair_inj h).1
  · exact .inr (hbind.pair_inj h).2
  · exact .inl (hbind.pair_inj h).2

/-- If two digests hashed together are a node, so is each of them. -/
theorem Binding.isNode_of_hashPair (hbind : Binding hash pair pad S)
    (hleaves : ∀ x ∈ leaves, ∃ m, IsLeafMessage pair S m ∧ hash m = x) {x y : β}
    (hS : sortedPair pair x y ∈ S) (h : IsNode hash pair S pad leaves (hashPair hash pair x y)) :
    IsNode hash pair S pad leaves x := by
  generalize hz : hashPair hash pair x y = z at h
  cases h with
  | pad => exact absurd hz (hbind.ne_pad _ hS)
  | leaf hmem =>
    obtain ⟨m, hm, rfl⟩ := hleaves z hmem
    exact absurd (hbind.injOn hS hm.1 hz).symm (hm.ne_sortedPair x y)
  | pair ha hb hab =>
    rcases hbind.eq_or_eq (hbind.injOn hS hab hz) with rfl | rfl
    · exact ha
    · exact hb

/-- The induction is on the proof: each step goes down from a node to a node, since no leaf is the
hash of a pair. -/
theorem Binding.isNode_of_processProof (hbind : Binding hash pair pad S)
    (hleaves : ∀ x ∈ leaves, ∃ m, IsLeafMessage pair S m ∧ hash m = x) {proof : List β} {x : β}
    (hS : ∀ m ∈ proofMessages hash pair proof x, m ∈ S)
    (h : IsNode hash pair S pad leaves (processProof hash pair proof x)) :
    IsNode hash pair S pad leaves x := by
  -- from the end of the proof to its beginning
  induction proof generalizing x with
  | nil => exact h
  | cons sibling proof ih =>
    obtain ⟨hfirst, hrest⟩ := List.forall_mem_cons.mp hS
    exact hbind.isNode_of_hashPair hleaves hfirst (ih hrest h)

/-- **Accepted proofs are for messages of the tree**, whatever their length. -/
theorem Binding.mem_of_verify (hbind : Binding hash pair pad S) {messages : List μ} {m : μ}
    {proof : List β} (hmessages : ∀ m' ∈ messages, IsLeafMessage pair S m')
    (hm : IsLeafMessage pair S m)
    (htree : ∀ m' ∈ rootMessages hash pair pad (messages.map hash), m' ∈ S)
    (hproof : ∀ m' ∈ proofMessages hash pair proof (hash m), m' ∈ S)
    (h : verify hash pair proof (root hash pair pad (messages.map hash)) (hash m)) :
    m ∈ messages := by
  have hleaves : ∀ x ∈ messages.map hash, ∃ m', IsLeafMessage pair S m' ∧ hash m' = x := by
    intro x hx
    obtain ⟨m', hm', rfl⟩ := List.mem_map.mp hx
    exact ⟨m', hmessages m' hm', rfl⟩
  have hroot := isNode_root htree
  rw [← h] at hroot
  have hnode := hbind.isNode_of_processProof hleaves hproof hroot
  generalize hz : hash m = z at hnode
  cases hnode with
  | pad => exact absurd hz (hbind.ne_pad m hm.1)
  | leaf hmem =>
    obtain ⟨m', hm', heq⟩ := List.mem_map.mp hmem
    rwa [hbind.injOn hm.1 (hmessages m' hm').1 (hz.trans heq.symm)]
  | pair ha hb hab => exact absurd (hbind.injOn hm.1 hab hz) (hm.ne_sortedPair _ _)

end Merkle

end Evm
