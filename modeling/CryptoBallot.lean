import CryptoBallot.Rust
import CryptoBallot.Hex
import CryptoBallot.TransactionIdentifier
import CryptoBallot.Identifier
import CryptoBallot.Cryptid
import CryptoBallot.Transaction
import CryptoBallot.Store
import CryptoBallot.PartialDecryption
import CryptoBallot.Decryption
import CryptoBallot.E2E
import CryptoBallot.Runs
import CryptoBallot.Quorum
import CryptoBallot.Namespaces
import CryptoBallot.Mixnet
import CryptoBallot.Monotone
import CryptoBallot.Panics
import CryptoBallot.Contracts
import CryptoBallot.Audit
