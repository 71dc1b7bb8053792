import CryptoBallot.Rust

/-!
# Identifiers of the election log

`decryption.rs` names every transaction by an `Identifier`, whose definition is
not in `src/`: the `transaction.rs` there is an earlier revision with three
kinds (`CryptoBallot.Wire`).  The identifier is modelled from the spec (§3,
§4.1): a 15-byte `election_id` copied into every transaction of an election, a
type byte, and a 16-byte `unique_id`, absent from an election's own identifier
(which is why `build_id` can `unwrap` it).  `Identifier::new` keeps the election
bytes of its first argument and takes the first 16 bytes of `unique_info` (§9:
the expected identifier of a decryption is `Identifier(election, Decryption,
vote_id_bytes[0..16])`).
-/

namespace CryptoBallot

/-- Modelled from the spec: the transaction kinds of §3. -/
inductive TransactionType where
  | election
  | keyGenCommitment
  | keyGenShare
  | keyGenPublicKey
  | vote
  | votingEnd
  | mix
  | partialDecryption
  | decryption
deriving DecidableEq, Repr

/-- Modelled from the spec: `u8::from(transaction_type)`, the discriminants in
the order of §3. -/
def TransactionType.toU8 : TransactionType → UInt8
  | .election => 0
  | .keyGenCommitment => 1
  | .keyGenShare => 2
  | .keyGenPublicKey => 3
  | .vote => 4
  | .votingEnd => 5
  | .mix => 6
  | .partialDecryption => 7
  | .decryption => 8

theorem TransactionType.toU8_injective : Function.Injective TransactionType.toU8 := by
  intro a b h
  cases a <;> cases b <;> first | rfl | exact absurd h (by decide)

/-- `uuid::Uuid`: sixteen bytes, `as_bytes()`. -/
structure Uuid where
  asBytes : Mathlib.Vector UInt8 16
deriving DecidableEq

/-- Modelled from the spec: `Identifier`. -/
structure Identifier where
  electionId : Mathlib.Vector UInt8 15
  transactionType : TransactionType
  uniqueId : Option (Mathlib.Vector UInt8 16)
deriving DecidableEq

/-- The first 16 bytes of `unique_info`, zero-padded when it is shorter (no
caller passes fewer than 16). -/
def uniqueOf (uniqueInfo : List UInt8) : Mathlib.Vector UInt8 16 :=
  ⟨(uniqueInfo ++ List.replicate 16 0).take 16, by simp⟩

namespace Identifier

/-- Modelled from the spec: `Identifier::new(election_id, transaction_type,
unique_info)`. -/
def new (electionId : Identifier) (transactionType : TransactionType)
    (uniqueInfo : List UInt8) : Identifier :=
  { electionId := electionId.electionId, transactionType, uniqueId := some (uniqueOf uniqueInfo) }

/-- Modelled from the spec: `to_bytes`, the identifier's bytes in wire order. -/
def toBytes (self : Identifier) : List UInt8 :=
  self.electionId.toList ++ self.transactionType.toU8 :: (self.uniqueId.map (·.toList)).getD []

variable {e : Identifier} {t : TransactionType} {u : List UInt8}

@[simp] theorem new_electionId : (new e t u).electionId = e.electionId := rfl

@[simp] theorem new_transactionType : (new e t u).transactionType = t := rfl

@[simp] theorem new_uniqueId : (new e t u).uniqueId = some (uniqueOf u) := rfl

/-- Identifiers of different types differ. -/
theorem ne_of_transactionType_ne {a b : Identifier} (h : a.transactionType ≠ b.transactionType) :
    a ≠ b :=
  fun hab => h (hab ▸ rfl)

/-- `new` reads only the election bytes of its first argument. -/
theorem new_congr {e' : Identifier} (h : e.electionId = e'.electionId) : new e t u = new e' t u := by
  simp [new, h]

end Identifier

@[simp] theorem uniqueOf_toList_of_length {u : List UInt8} (h : u.length = 16) :
    (uniqueOf u).toList = u := by
  simp [uniqueOf, Mathlib.Vector.toList_mk, List.take_append_of_le_length, h]

end CryptoBallot
