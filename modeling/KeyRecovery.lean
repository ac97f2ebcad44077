import KeyRecovery.Bytes
import KeyRecovery.Text
import KeyRecovery.Failure
import KeyRecovery.Arith
import KeyRecovery.Curve
import KeyRecovery.Secp256k1
import KeyRecovery.Encoding
import KeyRecovery.Digest
import KeyRecovery.Ecdsa
import KeyRecovery.Ethereum.Message
import KeyRecovery.Channel.Stream
import KeyRecovery.Provider.Service
import KeyRecovery.Channel.Scripted
import KeyRecovery.Hinted.Recover
import KeyRecovery.Proofs.Arith
import KeyRecovery.Proofs.Curve.Scaling
import KeyRecovery.Proofs.Curve.Group
import KeyRecovery.Proofs.Curve.Multiple
import KeyRecovery.Proofs.Curve.Law
import KeyRecovery.Proofs.Secp256k1.Order
import KeyRecovery.Proofs.Encoding.Reader
import KeyRecovery.Proofs.Encoding.Signature
import KeyRecovery.Proofs.Encoding.PublicKey
import KeyRecovery.Proofs.Encoding.Frame
import KeyRecovery.Proofs.Channel
import KeyRecovery.Proofs.Channel.Frames
import KeyRecovery.Proofs.Ecdsa.Verification
import KeyRecovery.Proofs.Ecdsa.Totality
import KeyRecovery.Proofs.Ecdsa.Recovery
import KeyRecovery.Proofs.Ecdsa.Malleability
import KeyRecovery.Proofs.Provider.Answer
import KeyRecovery.Proofs.Hinted.Recover
import KeyRecovery.Proofs.Hinted.Decision
import KeyRecovery.Proofs.Hinted.Local
import KeyRecovery.Proofs.Provider.Service
import KeyRecovery.Proofs.Hinted.Call
import KeyRecovery.Proofs.Ethereum.Message
