import GumptionChain.Lib.Csv
import GumptionChain.Text
import GumptionChain.Codec.Base64
import GumptionChain.Codec.Bech32
import GumptionChain.DateTime
import GumptionChain.Env
import GumptionChain.Exceptions
import GumptionChain.Payload
import GumptionChain.Transaction
import GumptionChain.Accepted
import GumptionChain.BlockTree
import GumptionChain.Lib.Utxo
import GumptionChain.RoundTrip
import GumptionChain.Supply
import GumptionChain.Verdict
import GumptionChain.Preimage
import GumptionChain.Revalidation
import GumptionChain.Answers
import GumptionChain.Materialization
import GumptionChain.Stake
import GumptionChain.Lib.Effect
import GumptionChain.Reads
import GumptionChain.Sdk
import GumptionChain.Consent
import GumptionChain.Lib.Checked
import GumptionChain.Wire
import GumptionChain.Assembly
import GumptionChain.Codec.Spelling
import GumptionChain.Owner
import GumptionChain.Mempool
import GumptionChain.Confirmation
import GumptionChain.Reservation
import GumptionChain.Lib.Interleaving
import GumptionChain.SessionSigner
import GumptionChain.Codec.Secret
import GumptionChain.Keyring
import GumptionChain.Codec.CodePoint
import GumptionChain.Codec.GcBech32
import GumptionChain.Lib.Pool
import GumptionChain.Conservation
import GumptionChain.OutflowOrder
import GumptionChain.FillPeer
import GumptionChain.Lib.Faulty
import GumptionChain.Admission
import GumptionChain.Codec.Unicode
import GumptionChain.Signing
import GumptionChain.Codec.PyJson
import GumptionChain.Message
import GumptionChain.Attestation
import GumptionChain.Lib.Greedy
import GumptionChain.Miller
import GumptionChain.Candidates
import GumptionChain.Lib.Like
import GumptionChain.Search
import GumptionChain.Lib.MessageTree
import GumptionChain.Schema
import GumptionChain.Onboarding
import GumptionChain.Subject
import GumptionChain.Lib.Words
import GumptionChain.Lib.Bits
import GumptionChain.Bip39
import GumptionChain.Lib.Rounds
import GumptionChain.Milling
import GumptionChain.Lib.HalfEven
import GumptionChain.Decimal
import GumptionChain.Units
import GumptionChain.Lib.Memo
import GumptionChain.Provenance
import GumptionChain.Lib.Follow
import GumptionChain.SyncForward
import GumptionChain.Storable
import GumptionChain.Replay
import GumptionChain.HonestPeer
import GumptionChain.Export
import GumptionChain.Parsing
import GumptionChain.FillChain
import GumptionChain.HonestFill
