import Fintech.Model.Callbacks

/-!
# What the providers' callbacks prove

A callback of the mock provider is accepted exactly if its signature is that of its bytes and its time. A response of
Paystack settles a payment only if it is about its reference, in the mode of the key.
-/

namespace Fintech

/-! ## Signatures -/

theorem isLowerHex_iff {c : Char} : isLowerHex c = true ↔ c ∈ Encoding.lowerHex := by
  constructor
  · intro digit
    have range : (48 ≤ c.toNat ∧ c.toNat ≤ 57) ∨ 97 ≤ c.toNat ∧ c.toNat ≤ 102 := by
      simp only [isLowerHex, Bool.or_eq_true, Bool.and_eq_true, decide_eq_true_eq, Char.le_def,
        UInt32.le_iff_toNat_le] at digit
      exact digit
    have listed : ∀ n < 103, (48 ≤ n ∧ n ≤ 57) ∨ 97 ≤ n ∧ n ≤ 102 → Char.ofNat n ∈ Encoding.lowerHex := by decide
    have mem := listed c.toNat (by omega) range
    rwa [Char.ofNat_toNat] at mem
  · intro mem
    have all : Encoding.lowerHex.all isLowerHex = true := by decide
    exact List.all_eq_true.mp all c mem

theorem isLowerHex_encode {bytes : Bytes} : ∀ c ∈ (Encoding.hex.encode bytes).toList, isLowerHex c = true := by
  intro c mem
  obtain ⟨d, lt, rfl⟩ := Encoding.hex.mem_encode mem
  have all : ∀ d < 2 ^ 4, isLowerHex (Encoding.hex.char d) = true := by decide
  exact all d lt

/-- An even number of lower-case digits is the encoding of the bytes that it is read as. -/
theorem encode_of_isLowerHex {s : String} (even : 2 ∣ s.length) (digits : ∀ c ∈ s.toList, isLowerHex c = true) :
    Encoding.hex.encode (Encoding.hex.decode s) = s := by
  apply Encoding.hex.encode_decode
  · intro c mem
    have all : (Encoding.lowerHex.all fun c => decide (∃ d < 2 ^ 4, Encoding.hex.char d = c)) = true := by decide
    exact of_decide_eq_true (List.all_eq_true.mp all c (isLowerHex_iff.mp (digits c mem)))
  · obtain ⟨n, length⟩ := even
    exact ⟨n, by omega⟩

theorem length_hex (bytes : Bytes) : (Encoding.hex.encode bytes).length = 2 * bytes.length := by
  have whole : 4 ∣ 8 * bytes.length := ⟨2 * bytes.length, by omega⟩
  have length := Encoding.hex.length_encode whole
  omega

namespace MockPaymentProvider

/-- The one signature of a digest. -/
theorem isSignature_iff {signature : String} {digest : Digest 32} :
    isSignature signature = true ∧ digest.1 = Encoding.hex.decode (.ofList (signature.toList.drop 3)) ↔
      signature = "v1=" ++ Encoding.hex.encode digest.1 := by
  have v1 : "v1=".toList = ['v', '1', '='] := rfl
  constructor
  · rintro ⟨signs, read⟩
    simp only [isSignature, Bool.and_eq_true, beq_iff_eq, List.all_eq_true] at signs
    obtain ⟨⟨start, length⟩, digits⟩ := signs
    have rest : (String.ofList (signature.toList.drop 3)).length = 64 := by
      rw [String.length_ofList, List.length_drop, String.length_toList, length]
    have back := encode_of_isLowerHex (s := .ofList (signature.toList.drop 3)) ⟨32, rest⟩ (by simpa using digits)
    apply String.toList_injective
    rw [read, back, String.toList_append, ← start, String.toList_ofList, List.take_append_drop]
  · rintro rfl
    have rest : ("v1=" ++ Encoding.hex.encode digest.1).toList.drop 3 = (Encoding.hex.encode digest.1).toList := by
      rw [String.toList_append, v1]
      rfl
    constructor
    · simp only [isSignature, rest, Bool.and_eq_true, beq_iff_eq, List.all_eq_true]
      refine ⟨⟨?_, ?_⟩, isLowerHex_encode⟩
      · rw [String.toList_append, v1]
        rfl
      · rw [String.length_append, length_hex, digest.2]
        rfl
    · rw [rest, String.ofList_toList, Encoding.hex.decode_encode]

/-- The secret, the time and the bytes determine the signature. -/
structure Authentic (node : Node) (env : Environment) (now : Int) (rawBody : Bytes) (timestamp signature : Option String) :
    Prop where
  enabled : isEnabled env
  size : 0 < rawBody.length ∧ rawBody.length ≤ 16384
  signed : ∃ text, timestamp = some text ∧ isFresh now text ∧ signature =
    some ("v1=" ++ Encoding.hex.encode (expected node (env.mockProviderWebhookSecret.getD "") text rawBody).1)

theorem verify_eq_ok {node : Node} {env : Environment} {now : Int} {rawBody : Bytes} {timestamp signature : Option String}
    {event : VerifiedPaymentEvent} : verify node env now rawBody timestamp signature = .ok event ↔
      Authentic node env now rawBody timestamp signature ∧
        ∃ input, node.parseJson rawBody = some input ∧ eventSchema (node.sha256Hex rawBody) input = some event := by
  simp only [verify, assertEnabled, bind_unit_eq_ok, failIf_eq_ok, not_not, not_or]
  constructor
  · rintro ⟨enabled, size, ok⟩
    cases fresh : timestamp.filter (isFresh now) with
    | none => simp [fresh] at ok
    | some text =>
        cases signs : signature.filter isSignature with
        | none => simp [fresh, signs] at ok
        | some sent =>
            simp only [fresh, signs, bind_unit_eq_ok, failIf_eq_ok, not_not] at ok
            obtain ⟨same, ok⟩ := ok
            obtain ⟨rfl, recent⟩ := Option.filter_eq_some_iff.mp fresh
            obtain ⟨rfl, signed⟩ := Option.filter_eq_some_iff.mp signs
            refine ⟨⟨enabled, ⟨by omega, by omega⟩, text, rfl, recent, ?_⟩, ?_⟩
            · exact congrArg some (isSignature_iff.mp ⟨signed, same⟩)
            · cases parsed : node.parseJson rawBody with
              | none => simp [parsed] at ok
              | some input =>
                  cases read : eventSchema (node.sha256Hex rawBody) input with
                  | none => simp [parsed, read] at ok
                  | some event' =>
                      simp only [parsed, read] at ok
                      cases ok
                      exact ⟨input, rfl, read⟩
  · rintro ⟨⟨enabled, size, text, rfl, fresh, rfl⟩, input, parsed, read⟩
    obtain ⟨signs, same⟩ := isSignature_iff.mpr (rfl : "v1=" ++ Encoding.hex.encode
      (expected node (env.mockProviderWebhookSecret.getD "") text rawBody).1 = _)
    refine ⟨enabled, ⟨by omega, by omega⟩, ?_⟩
    simp only [Option.filter, fresh, signs, if_pos, bind_unit_eq_ok, failIf_eq_ok, not_not, parsed, read]
    exact ⟨same, rfl⟩

end MockPaymentProvider

namespace PaystackProvider

/-- The response is about the reference, in the mode of the key. -/
structure Confirms (secretKey reference : String) (response : Option Json) (data : Transaction) : Prop where
  named : isReference reference
  read : ∃ result, response = some result ∧ result.field? "status" = some (.bool true) ∧
    (result.field? "data").bind transactionSchema = some data
  about : data.reference = reference
  domain : data.domain = if secretKey.startsWith "sk_test_" then "test" else "live"

theorem reconcile_eq_ok {sha256Hex : String → String} {secretKey reference : String} {response : Option Json}
    {event : VerifiedPaymentEvent} : reconcile sha256Hex secretKey reference response = .ok (some event) ↔
      ∃ data, Confirms secretKey reference response data ∧ data.status = "success" ∧ event = evidence sha256Hex data := by
  unfold reconcile
  rw [bind_unit_eq_ok, failIf_eq_ok, not_not]
  constructor
  · rintro ⟨named, ok⟩
    cases response with
    | none => cases ok
    | some result =>
        simp only at ok
        split at ok
        · rename_i data read
          obtain ⟨succeeded, read⟩ := Option.ite_none_right_eq_some.mp read
          have status : result.field? "status" = some (.bool true) := by
            obtain ⟨value, there, isTrue⟩ := (Option.any_eq_true _ _).mp succeeded
            split at isTrue
            · exact there
            · cases isTrue
          simp only [bind_unit_eq_ok, failIf_eq_ok, not_not, not_or] at ok
          obtain ⟨⟨about, domain⟩, ok⟩ := ok
          by_cases success : data.status = "success"
          · rw [if_pos success] at ok
            cases ok
            exact ⟨data, ⟨named, ⟨result, rfl, status, read⟩, about, domain⟩, success, rfl⟩
          · rw [if_neg success] at ok
            cases ok
        · cases ok
  · rintro ⟨data, ⟨named, ⟨result, rfl, succeeded, read⟩, about, domain⟩, success, rfl⟩
    refine ⟨named, ?_⟩
    simp only [succeeded, Option.any_some, if_true, read]
    simp only [bind_unit_eq_ok, failIf_eq_ok, not_not, not_or, if_pos success]
    exact ⟨⟨about, domain⟩, rfl⟩

end PaystackProvider

end Fintech
