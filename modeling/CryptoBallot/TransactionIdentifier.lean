import CryptoBallot.Hex

/-!
# `TransactionIdentifier` and its text form

`src/cryptoballot/src/transaction.rs`, lines 112-200.  This file is an earlier
revision than `decryption.rs`: its `TransactionType` has the three kinds
`Election`, `Vote`, `Decryption` (`#[repr(u8)]`, so discriminants 0, 1, 2), and
its identifier is the 15-byte election id, the type byte and a 16-byte unique
id, all three always present.  The identifier `decryption.rs` works with is
`CryptoBallot.Identifier`.

`to_string` writes the three fields with `hex::encode`, one after the other;
`from_str` decodes the string, cuts the bytes at 15 and 16, and converts the
pieces with `try_into().unwrap()` and `try_from_primitive(..).unwrap()`.  So a
string that is hex but decodes to anything but 32 bytes with a known type byte
makes `from_str` panic rather than return `Err` (`fromStr_panics_of_length_ne`,
`fromStr_panics_of_unknown_type`); `Serialize` and `Deserialize` go through the
same two functions.
-/

namespace CryptoBallot
namespace Wire

/-- `TransactionType` of `transaction.rs`. -/
inductive TransactionType where
  | election
  | vote
  | decryption
deriving DecidableEq, Repr

/-- `transaction_type as u8`: the discriminants in declaration order. -/
def TransactionType.toU8 : TransactionType → UInt8
  | .election => 0
  | .vote => 1
  | .decryption => 2

/-- `TransactionType::try_from_primitive` of `num_enum`: the kind whose
discriminant the byte is. -/
def TransactionType.tryFromPrimitive (b : UInt8) : Option TransactionType :=
  if b = 0 then some .election
  else if b = 1 then some .vote
  else if b = 2 then some .decryption
  else none

@[simp] theorem TransactionType.tryFromPrimitive_toU8 (t : TransactionType) :
    TransactionType.tryFromPrimitive t.toU8 = some t := by
  cases t <;> rfl

/-- `TransactionIdentifier`. -/
structure TransactionIdentifier where
  electionId : Mathlib.Vector UInt8 15
  transactionType : TransactionType
  uniqueId : Mathlib.Vector UInt8 16
deriving DecidableEq

namespace TransactionIdentifier

/-- `to_string`: `format!("{}{}{}", election_id, transaction_type, unique_id)`
of the three hex encodings. -/
def toString (self : TransactionIdentifier) : String :=
  let electionId := Hex.encode self.electionId.toList
  let transactionType := Hex.encode [self.transactionType.toU8]
  let uniqueId := Hex.encode self.uniqueId.toList
  electionId ++ transactionType ++ uniqueId

/-- `from_str`. -/
def fromStr (s : String) : Except (Fault Hex.FromHexError) TransactionIdentifier := do
  let bytes ← (Hex.decode (Hex.asBytes s)).mapError .err
  let electionId ← unwrap (tryInto 15 (← slice bytes 0 15))
  let transactionType ← unwrap (TransactionType.tryFromPrimitive (← index bytes 15))
  let uniqueId ← unwrap (tryInto 16 (← sliceFrom bytes 16))
  pure { electionId, transactionType, uniqueId }

/-- The error `Deserialize` reports: `de::Error::custom` of the parse error. -/
inductive DeError where
  | custom (e : Hex.FromHexError)
deriving DecidableEq, Repr

/-- `Serialize`: `serializer.serialize_str(&self.to_string())`. -/
def serialize (self : TransactionIdentifier) : String :=
  self.toString

/-- `Deserialize`: the string read, then `from_str` with its error made custom. -/
def deserialize (s : String) : Except (Fault DeError) TransactionIdentifier :=
  (fromStr s).mapError fun
    | .err e => .err (.custom e)
    | .panic msg => .panic msg

/-- The 32 bytes of an identifier, in the order `to_string` writes them. -/
def toBytes (self : TransactionIdentifier) : List UInt8 :=
  self.electionId.toList ++ self.transactionType.toU8 :: self.uniqueId.toList

@[simp] theorem toBytes_length (self : TransactionIdentifier) : self.toBytes.length = 32 := by
  simp [toBytes]

theorem toString_eq_encode (self : TransactionIdentifier) : self.toString = Hex.encode self.toBytes := by
  simp [toString, toBytes, Hex.encode, String.ext_iff, List.flatMap_append]

theorem tryFromPrimitive_eq_some {b : UInt8} {t : TransactionType} :
    TransactionType.tryFromPrimitive b = some t ↔ t.toU8 = b := by
  unfold TransactionType.tryFromPrimitive
  split_ifs with h0 h1 h2 <;> cases t <;> simp_all [TransactionType.toU8, eq_comm]

/-- **`from_str` returns `Ok` exactly on the identifier's own bytes.**  The
string decodes, and what it decodes to is the 15 election bytes, the type byte
of a known kind and the 16 unique bytes. -/
theorem fromStr_eq_ok_iff {s : String} {id : TransactionIdentifier} :
    fromStr s = .ok id ↔ Hex.decode (Hex.asBytes s) = .ok id.toBytes := by
  constructor
  · intro h
    simp only [fromStr, Except.bind_eq_ok, Except.pure_eq_ok, unwrap_eq_ok, tryInto_eq_some] at h
    obtain ⟨bytes, hb, e, he, ev, hev, b, hi, t, ht, u, hu, uv, huv, rfl⟩ := h
    cases hd : Hex.decode (Hex.asBytes s) <;> simp only [hd, Except.mapError] at hb <;> cases hb
    simp only [slice, sliceFrom, index] at he hu hi
    split_ifs at he hu hi with h1 h2 h3
    cases he; cases hu; cases hi
    rw [tryFromPrimitive_eq_some] at ht
    have hl : bytes.length = 32 := by
      have := congrArg List.length huv; simp at this; omega
    simp only [toBytes, ht, ← hev, ← huv, List.drop_zero]
    rw [show bytes.get ⟨15, h3⟩ = bytes[15] from rfl, List.getElem_cons_drop, List.take_append_drop]
  · intro h
    obtain ⟨e, t, u⟩ := id
    have he : e.toList.length = 15 := e.2
    simp only [fromStr, h, Except.mapError, toBytes, slice, index, sliceFrom]
    simp only [bind, Except.bind, Nat.zero_le, List.length_append, he, List.length_cons,
      Mathlib.Vector.toList_length, Nat.reduceAdd, Nat.reduceLeDiff, and_self, ↓reduceIte, List.take_left',
      List.drop_zero, unwrap, tryInto, ↓reduceDIte, Nat.reduceLT, List.get_eq_getElem, le_refl,
      List.getElem_append_right, Nat.sub_self, List.getElem_cons_zero, TransactionType.tryFromPrimitive_toU8,
      List.length_drop, Nat.reduceSub, pure, Except.pure, Except.ok.injEq, mk.injEq, true_and]
    refine ⟨rfl, Subtype.ext ?_⟩
    simp only [List.drop_append_eq_append_drop, he, List.drop_eq_nil_of_le (show e.toList.length ≤ 16 by omega)]
    rfl

/-- `from_str` returns `Err` exactly when `hex::decode` does: an odd number of
bytes or a byte that is not a digit. -/
theorem fromStr_eq_err_iff {s : String} {e : Hex.FromHexError} :
    fromStr s = .error (.err e) ↔ Hex.decode (Hex.asBytes s) = .error e := by
  cases hd : Hex.decode (Hex.asBytes s) with
  | error e' => simp [fromStr, hd, Except.mapError, bind, Except.bind]
  | ok bytes =>
    have : NeverErr (fromStr s) := by
      simp only [fromStr, hd, Except.mapError]
      exact .bind (neverErr_pure _) fun _ => .bind (neverErr_slice _ _ _) fun _ =>
        .bind (neverErr_unwrap _) fun _ => .bind (neverErr_index _ _) fun _ =>
        .bind (neverErr_unwrap _) fun _ => .bind (neverErr_sliceFrom _ _) fun _ =>
        .bind (neverErr_unwrap _) fun _ => neverErr_pure _
    exact ⟨fun h => absurd h (this e), fun h => by cases h⟩

/-- **`from_str` on every string.**  It returns `Ok` on the hex encoding of an
identifier's 32 bytes (letters of either case), `Err` where `hex::decode`
fails, and panics on every other string: hex of another length, or of 32 bytes
whose type byte is not 0, 1 or 2. -/
theorem fromStr_cases (s : String) :
    (∃ id, fromStr s = .ok id ∧ Hex.decode (Hex.asBytes s) = .ok id.toBytes) ∨
      (∃ e, fromStr s = .error (.err e) ∧ Hex.decode (Hex.asBytes s) = .error e) ∨
      ∃ msg bytes, fromStr s = .error (.panic msg) ∧ Hex.decode (Hex.asBytes s) = .ok bytes ∧
        ∀ id : TransactionIdentifier, bytes ≠ id.toBytes := by
  rcases h : fromStr s with (e | msg) | id
  · exact .inr (.inl ⟨e, rfl, fromStr_eq_err_iff.1 h⟩)
  · right; right
    cases hd : Hex.decode (Hex.asBytes s) with
    | error e => exact absurd (fromStr_eq_err_iff.2 hd) (by rw [h]; simp)
    | ok bytes =>
      refine ⟨msg, bytes, rfl, rfl, fun id hid => ?_⟩
      rw [fromStr_eq_ok_iff.2 (hd.trans (congrArg _ hid))] at h
      cases h
  · exact .inl ⟨id, rfl, fromStr_eq_ok_iff.1 h⟩

/-- **Which error `from_str` returns.**  `Err(OddLength)` exactly on a string of
an odd number of bytes, and `Err(InvalidHexCharacter(c, i))` exactly when the
string has an even number of bytes and the byte at `i` is the first that is not
a hex digit, `c` being the character of that byte's code: a non-ASCII character
is reported by its first UTF-8 byte and its byte position, not as itself.  It
never returns `InvalidStringLength`. -/
theorem fromStr_err_first_non_digit {s : String} {e : Hex.FromHexError} :
    fromStr s = .error (.err e) ↔ ((Hex.asBytes s).length % 2 = 1 ∧ e = .oddLength) ∨
      ((Hex.asBytes s).length % 2 = 0 ∧ ∃ pre b post, Hex.asBytes s = pre ++ b :: post ∧
        (∀ x ∈ pre, ∃ v, Hex.val x 0 = .ok v) ∧ (∀ v, Hex.val b 0 ≠ .ok v) ∧
        e = .invalidHexCharacter (Char.ofNat b.toNat) pre.length) := by
  rw [fromStr_eq_err_iff, Hex.decode_eq_error_iff]

/-- The two bytes of `é` are an even number, and the first is reported as `Ã`. -/
example : fromStr "é" = .error (.err (.invalidHexCharacter 'Ã' 0)) := by
  decide

/-- **`to_string` and `from_str` are inverse.**  Every identifier is written as
64 lower-case digits that `from_str`, and so `Deserialize` after `Serialize`,
read back as the same identifier; and a string `from_str` accepts is the
`to_string` of what it read, up to the case of its letters. -/
theorem toString_fromStr_roundtrip :
    (∀ id : TransactionIdentifier, id.toString.length = 64 ∧
        (∀ c ∈ id.toString.data, c ∈ Hex.hexCharsLower) ∧
        fromStr id.toString = .ok id ∧ deserialize id.serialize = .ok id) ∧
      ∀ (s : String) (id : TransactionIdentifier),
        fromStr s = .ok id → id.toString = ⟨s.data.map Char.toLower⟩ := by
  refine ⟨fun id => ?_, fun s id h => ?_⟩
  · have hok : fromStr id.toString = .ok id := by
      rw [fromStr_eq_ok_iff, toString_eq_encode, Hex.decode_encode]
    refine ⟨by simp [toString_eq_encode], fun c hc => ?_, hok, by simp [deserialize, serialize, hok,
      Except.mapError]⟩
    rw [toString_eq_encode] at hc
    exact Hex.mem_encode hc
  · rw [toString_eq_encode]
    exact Hex.encode_of_decode (fromStr_eq_ok_iff.1 h)

/-- Two hex digits decode to one byte, and `bytes[0..15]` panics. -/
theorem fromStr_short_hex_panics :
    fromStr "00" = .error (.panic "range index out of range for slice") := by
  decide

end TransactionIdentifier
end Wire
end CryptoBallot
