import Notary.Json.Bytes
import Notary.Json.Config
import Notary.Scenario.Play
import Notary.Proofs.Exchanges
import Notary.Proofs.SessionTrace
import Notary.Proofs.RequestTrace
import Notary.Proofs.ScriptedLock
import Notary.Proofs.Exposure
import Notary.Proofs.LockTrace
import Notary.Proofs.DigestPath
import Notary.Proofs.DropGuard
import Notary.Proofs.Interruption
import Notary.Proofs.MerkleBinding
import Notary.Proofs.HashedPairs
import Notary.Proofs.PayloadBinding
import Notary.Proofs.PerfectTree
import Notary.Proofs.StructuralRoot
import Notary.Proofs.Settlement
import Notary.Proofs.VaultLock
import Notary.Proofs.SharedVault
import Notary.Proofs.VaultCourse
import Notary.Proofs.VaultHistory
import Notary.Proofs.ReplayRecord
import Notary.Proofs.VaultProgram
import Notary.Proofs.Verification
import Notary.Proofs.Likeness
import Notary.Proofs.PassphraseSecrecy
import Notary.Proofs.VaultVerdict
import Notary.Proofs.FirstOffence
import Notary.Proofs.Context
import Notary.Proofs.Summary
import Notary.Proofs.SkippedFields
import Notary.Proofs.Spelling
import Notary.Proofs.ContainerDigest
import Notary.Proofs.LockGate
import Notary.Proofs.TimeBox
import Notary.Proofs.MerkleRounds
import Notary.Proofs.JsonText
import Notary.Proofs.ByteText
import Notary.Proofs.ConfigText
import Notary.Proofs.Journal
import Notary.Proofs.AuditTrail
