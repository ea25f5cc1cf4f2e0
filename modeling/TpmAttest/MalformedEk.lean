import TpmAttest.Base64Text
import TpmAttest.StrictEk

/-! # Malformed EK material

`_verify_ek_cert` decodes its argument leniently, so text that is not base64 can still
be read as bytes.  If these are a certificate, or enough for a raw key, the machine is
registered with it.
-/
namespace TpmAttest

open Python Transactional Program

variable (platform : Platform) (policy : Policy)

/-- What `_verify_ek_cert` accepts. -/
theorem verifyEkCert_iff (cert : String) : (verifyEkCert platform policy cert).1 = true ↔
    ∃ bytes, b64decode cert = .ok bytes ∧ ((platform.loadDerX509 bytes).isSome = true ∨
      policy.strictEkVerification = false ∧ 4 ≤ bytes.length) := by
  constructor
  · intro h
    obtain ⟨bytes, hdecode, hx509 | ⟨hstrict, -, hlength⟩⟩ := verifyEkCert_accepts h
    · exact ⟨bytes, hdecode, Or.inl hx509⟩
    · exact ⟨bytes, hdecode, Or.inr ⟨hstrict, hlength⟩⟩
  · rintro ⟨bytes, hdecode, haccepted⟩
    unfold verifyEkCert
    rw [hdecode]
    dsimp only
    cases hx509 : platform.loadDerX509 bytes with
    | some names => rfl
    | none =>
      rw [hx509] at haccepted
      rcases haccepted with hsome | ⟨hstrict, hlength⟩
      · cases hsome
      · dsimp only
        rw [if_pos hlength, hstrict]
        rfl

/-- The material is invalid, and registering a machine with it is rejected without a
transaction. -/
def NeverRegistered (ek : String) : Prop :=
  (verifyEkCert platform policy ek).1 = false ∧
    ∀ (req : RegisterRequest) (env : Env), req.ekCertB64 = some ek →
      ∃ text, register platform policy req env = ret (.registerRejected text) ∧
        ∀ db, (register platform policy req env).run exec db = (.ok (.registerRejected text), db)

theorem neverRegistered_iff {ek : String} (hne : ek ≠ "") :
    NeverRegistered platform policy ek ↔ (verifyEkCert platform policy ek).1 = false := by
  refine ⟨fun h => h.1, fun h => ⟨h, fun req env hreq => ?_⟩⟩
  have htruthy : truthy req.ekCertB64 = some ek := truthy_eq_some.mpr ⟨hreq, hne⟩
  have hregister : ∃ text, register platform policy req env = ret (.registerRejected text) := by
    unfold register
    rw [htruthy]
    dsimp only
    rw [h]
    exact ⟨_, rfl⟩
  obtain ⟨text, htext⟩ := hregister
  exact ⟨text, htext, fun db => by rw [htext]; rfl⟩

/-- What the decoder reads of the text is a certificate, or enough for a raw key under a
policy that takes one. -/
def Salvageable (ek : String) : Prop :=
  (∀ c ∈ ek.toList, c.toNat < 128) ∧ ∃ u, ReadsUpTo ek.toList u ∧
    ((platform.loadDerX509 (decodeGroups (values u))).isSome = true ∨
      policy.strictEkVerification = false ∧ 4 ≤ (values u).length * 3 / 4)

theorem verifyEkCert_iff_salvageable (ek : String) :
    (verifyEkCert platform policy ek).1 = true ↔ Salvageable platform policy ek := by
  rw [verifyEkCert_iff]
  constructor
  · rintro ⟨bytes, hdecode, haccepted⟩
    obtain ⟨hascii, u, hreads, rfl⟩ := (b64decode_eq_ok ek bytes).mp hdecode
    rw [length_decodeGroups] at haccepted
    exact ⟨hascii, u, hreads, haccepted⟩
  · rintro ⟨hascii, u, hreads, haccepted⟩
    rw [← length_decodeGroups] at haccepted
    exact ⟨_, (b64decode_eq_ok ek _).mpr ⟨hascii, u, hreads, rfl⟩, haccepted⟩

/-- **When malformed EK material is never registered**: for a certificate parser, a
policy and a text, exactly if the text is standard base64 after all, or what the lenient
decoder reads of it does not pass. -/
theorem malformedEk_iff (ek : String) :
    (ek ≠ "" → ¬ IsStandardBase64 ek → NeverRegistered platform policy ek) ↔
      IsStandardBase64 ek ∨ ¬ Salvageable platform policy ek := by
  rw [← verifyEkCert_iff_salvageable, Bool.not_eq_true]
  by_cases hne : ek = ""
  · have hstandard : IsStandardBase64 ek := by
      rw [hne]
      exact ⟨rfl, [], [], rfl, List.forall_mem_nil _, List.mem_cons_self⟩
    exact iff_of_true (fun h => absurd hne h) (Or.inl hstandard)
  · rw [neverRegistered_iff platform policy hne]
    by_cases hstandard : IsStandardBase64 ek
    · exact iff_of_true (fun _ h => absurd hstandard h) (Or.inl hstandard)
    · simp [hne, hstandard]

/-- A registration whose EK material has a character outside the alphabet. -/
def junkRegistration : RegisterRequest := ⟨"machine", "AAAA", some "AAAA!AAAA"⟩

/-- The machine is registered. -/
theorem junkEk_registered :
    ¬ ("AAAA!AAAA" ≠ "" → ¬ IsStandardBase64 "AAAA!AAAA" →
        NeverRegistered lenientPlatform laxPolicy "AAAA!AAAA") ∧
      (((register lenientPlatform laxPolicy junkRegistration sampleEnv).run exec
        .empty).2.enrolledMachines "machine").isSome = true := by
  refine ⟨fun h => ?_, by decide +kernel⟩
  have hnever := h (by decide) fun hstandard => absurd hstandard.1 (by decide)
  exact absurd hnever.1 (by decide +kernel)

end TpmAttest
