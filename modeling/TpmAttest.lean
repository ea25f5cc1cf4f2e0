import TpmAttest.TransactionPrograms
import TpmAttest.PythonBytes
import TpmAttest.HashLayers
import TpmAttest.Sha256
import TpmAttest.ImaLog
import TpmAttest.ImaMerkle
import TpmAttest.MerkleBinding
import TpmAttest.ShimCache
import TpmAttest.Clock
import TpmAttest.Database
import TpmAttest.Server
import TpmAttest.ServerRuns
import TpmAttest.NonceUse
import TpmAttest.Baselines
import TpmAttest.ReachableStates
import TpmAttest.EnrollRuns
import TpmAttest.PinEnforcement
import TpmAttest.QuoteBinding
import TpmAttest.StrictEk
import TpmAttest.AttestAtomicity
import TpmAttest.SequentialRuns
import TpmAttest.EacHook
import TpmAttest.EnrollFaults
import TpmAttest.EnrolledAttestable
import TpmAttest.JsonGrammar
import TpmAttest.JsonKeys
import TpmAttest.ParseJsonBool
import TpmAttest.PythonJson
import TpmAttest.ShimHandler
import TpmAttest.HandlerAnswers
import TpmAttest.JsonStrings
import TpmAttest.VerdictAgreement
import TpmAttest.RawStrings
import TpmAttest.HexBuffer
import TpmAttest.HookRequest
import TpmAttest.ImaRecords
import TpmAttest.ZeroPcrs
import TpmAttest.NonceExpiry
import TpmAttest.PerfectTrees
import TpmAttest.ReduceToRoot
import TpmAttest.HexLiterals
import TpmAttest.RootSyntax
import TpmAttest.Base64Text
import TpmAttest.MalformedEk
import TpmAttest.PcrReader
import TpmAttest.PcrListing
import TpmAttest.PcrAgreement
import TpmAttest.LiveNonces
import TpmAttest.Serializability
import TpmAttest.UndisturbedAttest
import TpmAttest.Base64Encoding
import TpmAttest.JsonIntegers
import TpmAttest.JsonRoundTrip
import TpmAttest.WritableJson
import TpmAttest.HttpMessages
import TpmAttest.PinnedJson
import TpmAttest.AgentReport
import TpmAttest.AutoRegistration
import TpmAttest.ClientSession
import TpmAttest.HonestClient
import TpmAttest.ToldValid
import TpmAttest.UncachedDaemon
import TpmAttest.ByteStreams
import TpmAttest.ClientQueries
import TpmAttest.GameGate
import TpmAttest.BaselineHistory
import TpmAttest.HookedRuntime
import TpmAttest.MeasuredLogs
