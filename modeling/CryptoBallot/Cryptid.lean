import CryptoBallot.Rust

/-!
# The cryptographic adapter: `cryptid`

The validator calls two things of the `cryptid` crate, neither in `src/`: the
Chaum–Pedersen check `DecryptShare::verify(public_key_proof, ciphertext)`, and
the threshold combiner `cryptid::threshold::Decryption` (`new`, `add_share`,
`finish`).  The spec (§1, §4.3) specifies them only by that interface, so the
group arithmetic is a parameter, `Cryptid`: every theorem of this development
holds for every choice of it.

The combiner is modelled from the spec (§4.3) as a state that records each
`add_share` in order; `finish` fails with `NotEnoughShares` below the threshold
and otherwise hands the ciphertext and the recorded shares to the adapter's
Lagrange interpolation and decoding.
-/

namespace CryptoBallot

/-- An ElGamal ciphertext `(c1, c2)`, each group element as its bytes. -/
structure Ciphertext where
  c1 : List UInt8
  c2 : List UInt8
deriving DecidableEq, Repr

/-- `DecryptShare`: a trustee's partial decryption with its proof, serialized. -/
structure DecryptShare where
  bytes : List UInt8
deriving DecidableEq, Repr

/-- `PublicKeyProof`: a trustee's commitment to its key share, serialized. -/
structure PublicKeyProof where
  bytes : List UInt8
deriving DecidableEq, Repr

/-- `ed25519_dalek::PublicKey`. -/
structure PublicKey where
  bytes : List UInt8
deriving DecidableEq, Repr

/-- The errors of `cryptid`'s threshold decryption (spec §4.3). -/
inductive ThresholdError where
  | notEnoughShares (required got : Nat)
  | shareVerificationFailed
  | decodingFailed
deriving DecidableEq, Repr

/-- One share as `add_share` records it: the trustee's index, its key proof and
its partial decryption. -/
abbrev Share := Nat × PublicKeyProof × DecryptShare

/-- The operations of `cryptid` the validator consumes. -/
structure Cryptid where
  /-- `DecryptShare::verify(public_key_proof, ciphertext)`. -/
  verify : DecryptShare → PublicKeyProof → Ciphertext → Bool
  /-- Interpolation at `x = 0` over the shares and ElGamal decoding to bytes. -/
  combine : Ciphertext → List Share → Except ThresholdError (List UInt8)

/-- Modelled from the spec: `cryptid::threshold::Decryption`. -/
structure Decryption where
  minShares : Nat
  ciphertext : Ciphertext
  shares : List Share

namespace Decryption

/-- Modelled from the spec: `Decryption::new(min_shares, ciphertext)`. -/
def new (minShares : Nat) (ciphertext : Ciphertext) : Decryption :=
  ⟨minShares, ciphertext, []⟩

/-- Modelled from the spec: `add_share(index, pubkey_proof, share)`. -/
def addShare (self : Decryption) (index : Nat) (pubkeyProof : PublicKeyProof)
    (share : DecryptShare) : Decryption :=
  { self with shares := self.shares ++ [(index, pubkeyProof, share)] }

/-- Modelled from the spec: `finish()`. -/
def finish (crypto : Cryptid) (self : Decryption) : Except ThresholdError (List UInt8) :=
  if self.shares.length < self.minShares then
    .error (.notEnoughShares self.minShares self.shares.length)
  else crypto.combine self.ciphertext self.shares

/-- **`finish` needs a quorum.**  A combination that returned bytes had at
least `min_shares` shares added. -/
theorem le_of_finish_eq_ok {crypto : Cryptid} {d : Decryption} {m : List UInt8}
    (h : d.finish crypto = .ok m) :
    d.minShares ≤ d.shares.length ∧ crypto.combine d.ciphertext d.shares = .ok m := by
  unfold finish at h
  split at h
  · cases h
  · exact ⟨by omega, h⟩

end Decryption
end CryptoBallot
