import TpmAttest.ClientQueries
import TpmAttest.ToldValid

/-! # What is behind an approval

A client reads what arrives of the shim's response, in pieces and perhaps cut off.  If it
approves, then the server has accepted the report that was collected on the connection.
-/
namespace TpmAttest

open Python Transactional Program Shim

/-- What has arrived is the beginning of a response of the shim, or nothing. -/
def Streamed (py : Interpreter) (sha256 : Bytes → Digest) (machineId : String) (conn : Connection)
    (cache : ImaCache) (pending : Bytes) : Prop :=
  pending = [] ∨ ∃ resp ∈ (handleClient py sha256 machineId conn cache).sent, pending <+: resp

section
variable {ι : Type} [DecidableEq ι] {http : Http} {py : Interpreter} {sha256 : Bytes → Digest}
  {arrivals : ι → Arrival} {c : Config Database ι Tx.Ret Exn Response} {call : AgentCall}
  {conn : Connection} {cache : ImaCache} {i j : ι}

/-- **What is behind an approval**: the server has accepted the report of the session, and
the bridge has received the whole response. -/
theorem Session.attested (hsession : Session http py sha256 arrivals c call conn cache i j)
    (hhttp : http.Faithful) {floatBack : Decimal → FloatValue}
    (hfloats : FloatsRead py.floatRepr floatBack) {platform : Platform} {policy : Policy} {db : Database}
    (hdb : ∀ nonce, db.activeNonces nonce = none) (hfresh : FreshTokens arrivals)
    {tr : List (ServerEvent ι)}
    (h : Run exec databaseFaults unguarded (start platform policy db arrivals) tr c) {pending : Bytes}
    (hstream : Streamed py sha256 call.machineId conn cache pending) {game : Bridge}
    {calls : SocketCalls} {ts : Int} {client : Shim.Client}
    (happroves : client.Approves game calls ts pending) :
    Attested platform sha256 arrivals tr c i j call cache ∧
      (client = .bridge → pending ∈ (handleClient py sha256 call.machineId conn cache).sent) := by
  have hvalid {valid : Bool} {s : Text} (hpending : pending <+: responseBytes valid s) :
      valid = true ∧ (client = .bridge → pending = responseBytes valid s) :=
    approves_safe hpending client happroves
  rcases hstream with rfl | ⟨resp, hsent, hpending⟩
  · exact absurd (@hvalid false [] List.nil_prefix).1 Bool.false_ne_true
  · rcases hsession.sent hhttp hfloats hdb hfresh h hsent with
      ⟨s, hresponse⟩ | ⟨s, hresponse, hattested⟩
    · rw [isResponse_eq hresponse] at hpending
      exact absurd (hvalid hpending).1 Bool.false_ne_true
    · obtain rfl := isResponse_eq hresponse
      refine ⟨hattested, fun hbridge => ?_⟩
      rw [(hvalid hpending).2 hbridge]
      exact hsent

end

end TpmAttest
