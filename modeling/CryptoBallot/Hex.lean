import CryptoBallot.Rust
import Mathlib.Data.List.GetD

/-!
# The `hex` crate: `hex::encode` and `hex::decode`

`TransactionIdentifier::to_string` writes its three fields with `hex::encode`
and `from_str` reads them back with `hex::decode` (`src/cryptoballot/src/
transaction.rs`, lines 154-181).  `encode` writes two digits per byte from the
table `HEX_CHARS_LOWER`, high nibble first.  `decode` works on the bytes of the
string: an odd number of bytes is `OddLength`, and each pair is read by `val`,
which accepts `0-9`, `a-f` and `A-F` and reports anything else with its
position.

`decode_encode` reads an encoding back; `encode_of_decode` says that a
string `decode` accepts is, up to the case of its letters, the encoding of what
it decoded to.
-/

namespace CryptoBallot
namespace Hex

/-- `hex::FromHexError`. -/
inductive FromHexError where
  | invalidHexCharacter (c : Char) (index : Nat)
  | oddLength
  | invalidStringLength
deriving DecidableEq, Repr

/-- `HEX_CHARS_LOWER`, the digit table `hex::encode` writes from. -/
def hexCharsLower : List Char :=
  ['0', '1', '2', '3', '4', '5', '6', '7', '8', '9', 'a', 'b', 'c', 'd', 'e', 'f']

/-- The two digits `hex::encode` writes for one byte: the table entries of its
high and of its low nibble. -/
def byteToHex (b : UInt8) : List Char :=
  [hexCharsLower.getD (b >>> 4).toNat '0', hexCharsLower.getD (b &&& 0x0f).toNat '0']

/-- `hex::encode`. -/
def encode (data : List UInt8) : String :=
  ⟨data.flatMap byteToHex⟩

/-- `str::as_bytes`: the UTF-8 bytes of a string. -/
def asBytes (s : String) : List UInt8 :=
  s.data.flatMap String.utf8EncodeChar

/-- `val(c, idx)`: the value of one digit, of either case. -/
def val (c : UInt8) (idx : Nat) : Except FromHexError UInt8 :=
  if 65 ≤ c ∧ c ≤ 70 then .ok (c - 65 + 10)
  else if 97 ≤ c ∧ c ≤ 102 then .ok (c - 97 + 10)
  else if 48 ≤ c ∧ c ≤ 57 then .ok (c - 48)
  else .error (.invalidHexCharacter (Char.ofNat c.toNat) idx)

/-- The pairs of digits from pair `i` on, each read as `val(pair[0]) << 4 |
val(pair[1])`; the first bad digit ends the read. -/
def decodePairs : List UInt8 → Nat → Except FromHexError (List UInt8)
  | hi :: lo :: rest, i => do
      let h ← val hi (2 * i)
      let l ← val lo (2 * i + 1)
      let r ← decodePairs rest (i + 1)
      pure ((h <<< 4 ||| l) :: r)
  | _, _ => pure []

/-- `hex::decode`, on the bytes of its argument. -/
def decode (data : List UInt8) : Except FromHexError (List UInt8) :=
  if data.length % 2 ≠ 0 then .error .oddLength else decodePairs data 0

/-- The character a byte stands for, lower-cased: what `encode` writes back for
a digit `decode` accepted. -/
def lowerChar (b : UInt8) : Char :=
  (Char.ofNat b.toNat).toLower

@[simp] theorem encode_length (data : List UInt8) : (encode data).length = 2 * data.length := by
  induction data with
  | nil => rfl
  | cons b rest ih =>
    simp only [encode, String.length, List.flatMap_cons, List.length_append] at ih ⊢
    simp [byteToHex, ih]; omega

theorem getD_mem_hexCharsLower (n : Nat) : hexCharsLower.getD n '0' ∈ hexCharsLower := by
  by_cases hn : n < hexCharsLower.length
  · rw [List.getD_eq_getElem _ _ hn]; exact List.getElem_mem hn
  · rw [List.getD_eq_default _ _ (by omega)]; decide

/-- `encode` writes table digits only. -/
theorem mem_encode {data : List UInt8} {c : Char} (h : c ∈ (encode data).data) : c ∈ hexCharsLower := by
  simp only [encode, List.mem_flatMap, byteToHex, List.mem_cons, List.not_mem_nil, or_false] at h
  obtain ⟨b, -, rfl | rfl⟩ := h <;> exact getD_mem_hexCharsLower _

theorem val_eq_ok_iff {c : UInt8} {i : Nat} {v : UInt8} : val c i = .ok v ↔ val c 0 = .ok v := by
  unfold val; split_ifs <;> simp

/-- The sixteen table digits: each is one ASCII byte, which `val` reads back
as its nibble. -/
theorem digit_spec (n : UInt8) (hn : n < 16) :
    String.utf8EncodeChar (hexCharsLower.getD n.toNat '0') = [(hexCharsLower.getD n.toNat '0').val.toUInt8] ∧
      val (hexCharsLower.getD n.toNat '0').val.toUInt8 0 = .ok n := by
  obtain ⟨f⟩ := n
  revert f
  decide

/-- The 256 bytes checked once: a byte is its two nibbles. -/
theorem nibbles_spec (b : UInt8) :
    b >>> 4 < 16 ∧ b &&& 0x0f < 16 ∧ ((b >>> 4) <<< 4 ||| (b &&& 0x0f)) = b := by
  obtain ⟨f⟩ := b
  revert f
  decide

/-- `encode` writes a byte as the bytes of its two digits, which `val` reads back
as its two nibbles. -/
theorem byteToHex_spec (b : UInt8) :
    (byteToHex b).flatMap String.utf8EncodeChar =
        [(hexCharsLower.getD (b >>> 4).toNat '0').val.toUInt8,
          (hexCharsLower.getD (b &&& 0x0f).toNat '0').val.toUInt8] ∧
      val (hexCharsLower.getD (b >>> 4).toNat '0').val.toUInt8 0 = .ok (b >>> 4) ∧
      val (hexCharsLower.getD (b &&& 0x0f).toNat '0').val.toUInt8 0 = .ok (b &&& 0x0f) ∧
      ((b >>> 4) <<< 4 ||| (b &&& 0x0f)) = b := by
  obtain ⟨hhi, hlo, hb⟩ := nibbles_spec b
  obtain ⟨ehi, vhi⟩ := digit_spec _ hhi
  obtain ⟨elo, vlo⟩ := digit_spec _ hlo
  refine ⟨?_, vhi, vlo, hb⟩
  simp only [byteToHex, List.flatMap_cons, List.flatMap_nil, ehi, elo, List.append_nil,
    List.singleton_append]

/-- A digit `val` accepts is a nibble, and the table writes it back lower-cased. -/
theorem val_spec (c : UInt8) :
    (val c 0).toOption.all (fun v => v < 16 && hexCharsLower.getD v.toNat '0' == lowerChar c) := by
  obtain ⟨f⟩ := c
  revert f
  decide

/-- The 256 pairs of nibbles checked once: `h << 4 | l` splits back into `h`
and `l`. -/
theorem join_nibbles : ∀ a b : Fin 16,
    (UInt8.ofNat a <<< 4 ||| UInt8.ofNat b) >>> 4 = UInt8.ofNat a ∧
      (UInt8.ofNat a <<< 4 ||| UInt8.ofNat b) &&& 0x0f = UInt8.ofNat b := by
  decide

theorem uint8_ofNat_toNat (x : UInt8) : UInt8.ofNat x.toNat = x :=
  UInt8.eq_of_val_eq (Fin.ext (UInt8.toNat_ofNat_of_lt (UInt8.toNat_lt_size x)))

/-- Two nibbles joined by `h << 4 | l` are split back by `encode`. -/
theorem byteToHex_nibbles {h l : UInt8} (hh : h < 16) (hl : l < 16) :
    byteToHex (h <<< 4 ||| l) = [hexCharsLower.getD h.toNat '0', hexCharsLower.getD l.toNat '0'] := by
  have hsplit := join_nibbles ⟨h.toNat, hh⟩ ⟨l.toNat, hl⟩
  simp only [uint8_ofNat_toNat] at hsplit
  rw [byteToHex, hsplit.1, hsplit.2]

/-- What `encode` writes, as bytes. -/
theorem asBytes_encode (data : List UInt8) :
    asBytes (encode data) = data.flatMap fun b => (byteToHex b).flatMap String.utf8EncodeChar := by
  simp [asBytes, encode, List.flatMap_assoc]

theorem decodePairs_encode (data : List UInt8) (i : Nat) :
    decodePairs (data.flatMap fun b => (byteToHex b).flatMap String.utf8EncodeChar) i = .ok data := by
  induction data generalizing i with
  | nil => rfl
  | cons b rest ih =>
    obtain ⟨he, hhi, hlo, hb⟩ := byteToHex_spec b
    simp only [List.flatMap_cons, he, List.cons_append, List.nil_append, decodePairs,
      val_eq_ok_iff.2 hhi, val_eq_ok_iff.2 hlo, ih, bind, Except.bind, pure, Except.pure, hb]

/-- **`decode` reads back what `encode` wrote.** -/
theorem decode_encode (data : List UInt8) : decode (asBytes (encode data)) = .ok data := by
  have hlen : (asBytes (encode data)).length = 2 * data.length := by
    rw [asBytes_encode]
    induction data with
    | nil => rfl
    | cons b rest ih => simp [List.flatMap_cons, (byteToHex_spec b).1, ih]; omega
  simp only [decode, hlen, Nat.mul_mod_right, ne_eq, not_true_eq_false, if_false]
  rw [asBytes_encode]
  exact decodePairs_encode data 0

theorem val_ok {c v : UInt8} {i : Nat} (h : val c i = .ok v) :
    v < 16 ∧ hexCharsLower.getD v.toNat '0' = lowerChar c := by
  have := val_spec c
  rw [val_eq_ok_iff.1 h] at this
  simpa [Except.toOption] using this

/-- The pairs `decodePairs` accepted are digits, and `encode` writes them back
lower-cased. -/
theorem encode_of_decodePairs : ∀ {d bytes : List UInt8} {i : Nat},
    decodePairs d i = .ok bytes → d.length % 2 = 0 →
      (∀ b ∈ d, ∃ v, val b 0 = .ok v) ∧ bytes.flatMap byteToHex = d.map lowerChar
  | [], _, _, h, _ => by cases h; simp
  | [_], _, _, _, h => by simp at h
  | hi :: lo :: rest, bytes, i, h, heven => by
      simp only [decodePairs, Except.bind_eq_ok, Except.pure_eq_ok] at h
      obtain ⟨a, ha, l, hl, r, hr, rfl⟩ := h
      obtain ⟨hrest, hr⟩ := encode_of_decodePairs hr (by simp at heven; omega)
      obtain ⟨ha16, hac⟩ := val_ok ha
      obtain ⟨hl16, hlc⟩ := val_ok hl
      refine ⟨?_, ?_⟩
      · simp only [List.mem_cons, forall_eq_or_imp]
        exact ⟨⟨a, val_eq_ok_iff.1 ha⟩, ⟨l, val_eq_ok_iff.1 hl⟩, hrest⟩
      · simp only [List.flatMap_cons, byteToHex_nibbles ha16 hl16, hac, hlc, hr, List.map_cons,
          List.cons_append, List.nil_append]

/-- No byte `1xxxxxxx` of a multi-byte UTF-8 sequence is a digit. -/
theorem val_continuation (x : UInt8) : (val (x &&& 0x3f ||| 0x80) 0).toOption = none := by
  obtain ⟨f⟩ := x
  revert f
  decide

/-- A character whose UTF-8 bytes are all digits is the one ASCII byte it encodes to. -/
theorem utf8EncodeChar_of_digits {c : Char}
    (h : ∀ b ∈ String.utf8EncodeChar c, ∃ v, val b 0 = .ok v) :
    String.utf8EncodeChar c = [c.val.toUInt8] ∧ Char.ofNat c.val.toUInt8.toNat = c := by
  by_cases hc : c.val ≤ 0x7f
  · refine ⟨by simp [String.utf8EncodeChar, hc], ?_⟩
    have h127 : c.val.toNat ≤ 127 := hc
    have : c.val.toUInt8.toNat = c.toNat :=
      UInt8.toNat_ofNat_of_lt (by simp [UInt8.size]; omega)
    rw [this, Char.ofNat_toNat]
  · exfalso
    have hmem : c.val.toUInt8 &&& 0x3f ||| 0x80 ∈ String.utf8EncodeChar c := by
      simp only [String.utf8EncodeChar, hc, if_false]
      split_ifs <;> simp
    obtain ⟨v, hv⟩ := h _ hmem
    have := val_continuation c.val.toUInt8
    rw [hv] at this
    exact Option.noConfusion this

/-- The bytes of characters that are all digits, lower-cased, are the characters lower-cased. -/
theorem map_lowerChar_of_digits : ∀ {cs : List Char},
    (∀ b ∈ cs.flatMap String.utf8EncodeChar, ∃ v, val b 0 = .ok v) →
      (cs.flatMap String.utf8EncodeChar).map lowerChar = cs.map Char.toLower
  | [], _ => rfl
  | c :: cs, h => by
      simp only [List.flatMap_cons, List.mem_append, or_imp, forall_and] at h
      obtain ⟨he, hc⟩ := utf8EncodeChar_of_digits h.1
      simp only [List.flatMap_cons, List.map_append, he, map_lowerChar_of_digits h.2, List.map_cons,
        List.map_nil, List.singleton_append, lowerChar, hc]

/-- **What `decode` accepted, `encode` writes back lower-cased.**  A string
`hex::decode` reads as `bytes` consists of digits only, and `hex::encode
bytes` is that string with its letters lower-cased. -/
theorem encode_of_decode {s : String} {bytes : List UInt8} (h : decode (asBytes s) = .ok bytes) :
    encode bytes = ⟨s.data.map Char.toLower⟩ := by
  unfold decode at h
  split at h
  · cases h
  · rename_i heven
    obtain ⟨hd, he⟩ := encode_of_decodePairs h (by simpa using heven)
    simp only [encode, he, asBytes, map_lowerChar_of_digits hd]

/-! ### Where `decode` fails -/

/-- The error `val` reports for the first byte of the list it rejects, the
positions counted from `i`; `none` when it accepts every byte. -/
def firstInvalid : List UInt8 → Nat → Option FromHexError
  | [], _ => none
  | b :: bs, i =>
    match val b i with
    | .ok _ => firstInvalid bs (i + 1)
    | .error e => some e

theorem val_eq_error_iff {c : UInt8} {i : Nat} {e : FromHexError} :
    val c i = .error e ↔ (∀ v, val c 0 ≠ .ok v) ∧ e = .invalidHexCharacter (Char.ofNat c.toNat) i := by
  unfold val; split_ifs <;> simp [eq_comm]

/-- `firstInvalid` reports the first byte that is not a digit, as the
character of its code and with its position. -/
theorem firstInvalid_eq_some : ∀ {d : List UInt8} {i : Nat} {e : FromHexError},
    firstInvalid d i = some e ↔ ∃ pre b post, d = pre ++ b :: post ∧ (∀ x ∈ pre, ∃ v, val x 0 = .ok v) ∧
      (∀ v, val b 0 ≠ .ok v) ∧ e = .invalidHexCharacter (Char.ofNat b.toNat) (i + pre.length)
  | [], _, _ => by simp [firstInvalid]
  | b :: bs, i, e => by
    simp only [firstInvalid, List.cons_eq_append_iff]
    cases hb : val b i with
    | error e' =>
      obtain ⟨hnd, rfl⟩ := val_eq_error_iff.1 hb
      constructor
      · rintro ⟨⟩
        exact ⟨[], b, bs, .inl ⟨rfl, rfl⟩, nofun, hnd, by simp⟩
      · rintro ⟨pre, c, post, ⟨rfl, ⟨⟩⟩ | ⟨pre', rfl, -⟩, hpre, -, rfl⟩
        · simp
        · obtain ⟨v, hv⟩ := hpre b (List.mem_cons_self _ _)
          exact absurd hv (hnd v)
    | ok v =>
      simp only [firstInvalid_eq_some]
      constructor
      · rintro ⟨pre, c, post, rfl, hpre, hc, rfl⟩
        refine ⟨b :: pre, c, post, .inr ⟨pre, rfl, rfl⟩, ?_, hc, by simp [Nat.add_assoc, Nat.add_comm 1]⟩
        simpa [val_eq_ok_iff.1 hb] using hpre
      · rintro ⟨pre, c, post, ⟨rfl, ⟨⟩⟩ | ⟨pre', rfl, rfl⟩, hpre, hc, rfl⟩
        · exact absurd (val_eq_ok_iff.1 hb) (hc v)
        · refine ⟨pre', c, post, rfl, fun x hx => hpre x (List.mem_cons_of_mem _ hx), hc, ?_⟩
          simp [Nat.add_assoc, Nat.add_comm 1]

/-- The pairwise read fails, on an even number of bytes, where the
byte-at-a-time scan does. -/
theorem decodePairs_eq_error_iff : ∀ {d : List UInt8} {i : Nat} {e : FromHexError}, d.length % 2 = 0 →
    (decodePairs d i = .error e ↔ firstInvalid d (2 * i) = some e)
  | [], _, _, _ => by simp [decodePairs, firstInvalid, pure, Except.pure]
  | [_], _, _, h => by simp at h
  | hi :: lo :: rest, i, e, heven => by
    have ih := decodePairs_eq_error_iff (d := rest) (i := i + 1) (e := e) (by simp at heven; omega)
    cases hh : val hi (2 * i) with
    | error => simp [decodePairs, firstInvalid, hh, bind, Except.bind]
    | ok h =>
      cases hl : val lo (2 * i + 1) with
      | error => simp [decodePairs, firstInvalid, hh, hl, bind, Except.bind]
      | ok l =>
        simp only [decodePairs, firstInvalid, hh, hl, bind, Except.bind, show 2 * i + 1 + 1 = 2 * (i + 1) by omega,
          ← ih]
        cases decodePairs rest (i + 1) <;> simp [pure, Except.pure]

/-- **Where `hex::decode` fails.**  It reports `OddLength` on an odd number of
bytes; on an even number it reports the first byte that is not a digit, as the
character of that byte's code and with its position among the bytes; it never
reports `InvalidStringLength`. -/
theorem decode_eq_error_iff {d : List UInt8} {e : FromHexError} :
    decode d = .error e ↔ (d.length % 2 = 1 ∧ e = .oddLength) ∨
      (d.length % 2 = 0 ∧ ∃ pre b post, d = pre ++ b :: post ∧ (∀ x ∈ pre, ∃ v, val x 0 = .ok v) ∧
        (∀ v, val b 0 ≠ .ok v) ∧ e = .invalidHexCharacter (Char.ofNat b.toNat) pre.length) := by
  unfold decode
  split_ifs with hodd
  · simp [Nat.mod_two_ne_zero.1 hodd, eq_comm]
  · rw [not_not] at hodd
    simp [hodd, decodePairs_eq_error_iff hodd, firstInvalid_eq_some]

end Hex
end CryptoBallot
