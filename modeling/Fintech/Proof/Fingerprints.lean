import Mathlib.Data.List.DropRight
import Mathlib.Data.List.TakeWhile
import Fintech.Library.PrefixCode
import Fintech.Proof.MoneyGates

/-!
# Request fingerprints

`JSON.stringify` of an object of strings can be read back, so with an injective hash two requests have one
fingerprint exactly when what was normalized of them is the same; and nothing else of a request reaches its
transaction.
-/

namespace Fintech
open Encoding

/-! ## The JSON encoding -/

/-- Reads one escaped character back. -/
def unescape : List Char → Option (Char × List Char)
  | '\\' :: 'u' :: '0' :: '0' :: high :: low :: rest =>
      (digit? high).bind fun high => (digit? low).map fun low => (Char.ofNat (high * 16 + low), rest)
  | '\\' :: 'n' :: rest => some ('\n', rest)
  | '\\' :: 'r' :: rest => some ('\r', rest)
  | '\\' :: 't' :: rest => some ('\t', rest)
  | '\\' :: 'b' :: rest => some ('\x08', rest)
  | '\\' :: 'f' :: rest => some ('\x0c', rest)
  | '\\' :: c :: rest => some (c, rest)
  | c :: rest => some (c, rest)
  | [] => none

theorem digit?_hexDigit : ∀ d < 16, digit? (hexDigit d) = some d := by decide

theorem unescape_cons {c : Char} (h : c ≠ '\\') (rest : List Char) : unescape (c :: rest) = some (c, rest) := by
  unfold unescape
  split <;> simp_all

theorem unescape_jsonEscape (c : Char) (rest : List Char) : unescape (jsonEscape c ++ rest) = some (c, rest) := by
  unfold jsonEscape
  split
  case h_8 _ backslash _ _ _ _ _ =>
    split
    · rename_i control
      have small : c.toNat < 32 := control
      have high := digit?_hexDigit (c.toNat / 16) (by omega)
      have low := digit?_hexDigit (c.toNat % 16) (by omega)
      simp only [List.cons_append, List.nil_append, unescape, high, low, Option.bind_some, Option.map_some]
      rw [Nat.div_add_mod', Char.ofNat_toNat]
    · exact unescape_cons backslash rest
  all_goals rfl

theorem prefixCode_jsonEscape : PrefixCode jsonEscape := prefixCode_of_decode unescape unescape_jsonEscape

/-- No escaped character begins as the closing quote does. -/
theorem avoids_jsonEscape : Avoids jsonEscape '"' := by
  intro c s t same
  have read := unescape_jsonEscape c s
  rw [same, unescape_cons (by decide), Option.some.injEq, Prod.mk.injEq] at read
  obtain ⟨rfl, rfl⟩ := read
  exact absurd same (by simp [jsonEscape])

theorem toList_jsonString (s : String) : (jsonString s).toList = '"' :: (s.toList.flatMap jsonEscape ++ ['"']) := by
  rw [jsonString, String.toList_ofList]
  rfl

theorem prefixCode_jsonString : PrefixCode fun s => (jsonString s).toList := by
  simp only [toList_jsonString]
  exact ((prefixCode_jsonEscape.terminated avoids_jsonEscape).cons '"').comp fun _ _ => String.toList_inj.mp

theorem prefixCode_jsonStringOrNull : PrefixCode fun v => (jsonStringOrNull v).toList := by
  have avoids : Avoids (fun s => (jsonString s).toList) 'n' := by
    intro s rest t same
    simp [toList_jsonString] at same
  have code := prefixCode_jsonString.option avoids ['u', 'l', 'l']
  intro v w s t same
  apply code v w s t
  cases v <;> cases w <;> exact same

/-- `JSON.stringify` of an object of strings can be read back. -/
theorem jsonObject_injective : Function.Injective jsonObject := by
  have field := prefixCode_jsonString.pair prefixCode_jsonStringOrNull [':']
  have avoids : Avoids (fun f : String × Option String => (jsonString f.1).toList ++ [':'] ++ (jsonStringOrNull f.2).toList)
      '\x7d' := by
    intro f s t same
    simp [toList_jsonString] at same
  have code := (field.separated avoids (by decide : ',' ≠ '\x7d')).cons '\x7b'
  have text (fields : List (String × Option String)) : (jsonObject fields).toList = '\x7b' :: ([','].intercalate
      (fields.map fun f => (jsonString f.1).toList ++ [':'] ++ (jsonStringOrNull f.2).toList) ++ ['\x7d']) := by
    simp [jsonObject, String.toList_append, Function.comp_def]
  intro fields fields' same
  exact code.injective ((text fields).symm.trans ((congrArg String.toList same).trans (text fields')))

/-! ## Normalization -/

section
variable {space wide : Char → Bool}

/-- Text trimmed of some characters neither begins nor ends with fewer of them. -/
theorem dropWhile_trimBy (imp : ∀ c, space c → wide c) (s : String) :
    (trimBy wide s).toList.dropWhile space = (trimBy wide s).toList := by
  have start : (trimBy wide s).toList <+: s.toList.dropWhile wide := by
    rw [trimBy, String.toList_ofList]
    exact List.rdropWhile_prefix wide _
  cases text : (trimBy wide s).toList with
  | nil => rfl
  | cons c cs =>
      rw [text] at start
      obtain ⟨rest, dropped⟩ := start
      have first : wide c = false := by
        have head := List.head?_dropWhile_not wide s.toList
        rw [← dropped] at head
        simpa using head
      have kept : space c = false := Bool.eq_false_iff.mpr fun h => Bool.eq_false_iff.mp first (imp c h)
      rw [List.dropWhile_cons, kept]
      rfl

theorem rdropWhile_trimBy (imp : ∀ c, space c → wide c) (s : String) :
    (trimBy wide s).toList.rdropWhile space = (trimBy wide s).toList := by
  have last : (trimBy wide s).toList.rdropWhile wide = (trimBy wide s).toList := by
    rw [trimBy, String.toList_ofList]
    exact List.rdropWhile_idempotent wide _
  rw [List.rdropWhile_eq_self_iff] at last ⊢
  exact fun nonempty h => last nonempty (imp _ h)

theorem trimBy_eq_self {s : String} (front : s.toList.dropWhile space = s.toList)
    (back : s.toList.rdropWhile space = s.toList) : trimBy space s = s := by
  rw [trimBy, front]
  change String.ofList (s.toList.rdropWhile space) = _
  rw [back, String.ofList_toList]

theorem trimBy_trimBy (imp : ∀ c, space c → wide c) (s : String) : trimBy space (trimBy wide s) = trimBy wide s :=
  trimBy_eq_self (dropWhile_trimBy imp s) (rdropWhile_trimBy imp s)

end

namespace TransfersService

/-- The requests are for one source, one destination of one kind, and one amount. -/
def SameRequest (a b : CreateTransferDto) : Prop :=
  toLowerCase a.sourceWalletId = toLowerCase b.sourceWalletId ∧
    a.destinationWalletId.map toLowerCase = b.destinationWalletId.map toLowerCase ∧
    a.beneficiaryId.map toLowerCase = b.beneficiaryId.map toLowerCase ∧ bigInt? a.amountMinor = bigInt? b.amountMinor

instance (a b : CreateTransferDto) : Decidable (SameRequest a b) := by
  unfold SameRequest
  infer_instance

theorem normalized_eq_iff {a b : CreateTransferDto} {r s : NormalizedTransferRequest} (valid : a.Valid) (valid' : b.Valid)
    (ha : normalizeTransferRequest a = .ok r) (hb : normalizeTransferRequest b = .ok s) : r = s ↔ SameRequest a b := by
  obtain ⟨_, m, value, _, _, rfl⟩ := normalizeTransferRequest_eq_ok.mp ha
  obtain ⟨_, n, value', _, _, rfl⟩ := normalizeTransferRequest_eq_ok.mp hb
  rw [SameRequest, filter_ids valid.1.2.1, filter_ids valid.1.2.2, filter_ids valid'.1.2.1, filter_ids valid'.1.2.2,
    value, value']
  simp only [NormalizedTransferRequest.mk.injEq, Option.some.injEq]
  constructor
  · rintro ⟨source, destination, beneficiary, amount, _⟩
    exact ⟨source, destination, beneficiary, amount⟩
  · rintro ⟨source, destination, beneficiary, rfl⟩
    exact ⟨source, destination, beneficiary, rfl, rfl⟩

theorem hashRequest_eq_iff {sha256Hex : String → String} (injective : Function.Injective sha256Hex)
    {r s : NormalizedTransferRequest} (text : r.amountMinorText = toString r.amountMinor)
    (text' : s.amountMinorText = toString s.amountMinor) (pos : 0 < r.amountMinor) (pos' : 0 < s.amountMinor) :
    hashRequest sha256Hex r = hashRequest sha256Hex s ↔ r = s := by
  constructor
  · intro same
    have fields := jsonObject_injective (injective same)
    simp only [List.cons.injEq, Prod.mk.injEq, true_and, Option.some.injEq, and_true, text, text', toString_inj pos pos']
      at fields
    obtain ⟨source, destination, beneficiary, amount⟩ := fields
    cases r
    cases s
    simp_all
  · rintro rfl
    rfl

end TransfersService

namespace ReversalsService

/-- A reason that passed the checks is not empty, and trimming it again changes nothing. -/
theorem normalizeRequest_transform {transferId : String} {body : CreateReversalDto} (valid : body.transform.Valid) :
    normalizeRequest transferId body.transform = ⟨toLowerCase transferId, body.reason.map jsTrim⟩ := by
  cases body with
  | mk reason =>
      cases reason with
      | none => rfl
      | some reason =>
          have length := (valid (jsTrim reason) rfl).1
          have text : jsTrim reason ≠ "" := by
            intro empty
            rw [empty] at length
            exact absurd length (by decide)
          have again : jsTrim (jsTrim reason) = jsTrim reason := trimBy_trimBy (fun _ h => h) reason
          have kept : (some (jsTrim reason)).filter (fun r => decide (r ≠ "")) = some (jsTrim reason) :=
            Option.filter_some_pos (decide_eq_true text)
          simp only [normalizeRequest, CreateReversalDto.transform, Option.map_some, again, kept]

theorem hashRequest_eq_iff {sha256Hex : String → String} (injective : Function.Injective sha256Hex)
    {r s : NormalizedReversalRequest} : hashRequest sha256Hex r = hashRequest sha256Hex s ↔ r = s := by
  constructor
  · intro same
    have fields := jsonObject_injective (injective same)
    simp only [List.cons.injEq, Prod.mk.injEq, true_and, Option.some.injEq, and_true] at fields
    cases r
    cases s
    simp_all
  · rintro rfl
    rfl

end ReversalsService

/-- The fingerprints of two requests are equal exactly when the requests are the same, and then `create` is the
same call. -/
theorem fingerprints_identify {sha256Hex : String → String} (injective : Function.Injective sha256Hex) :
    (∀ a b r s, a.Valid → b.Valid → TransfersService.normalizeTransferRequest a = .ok r →
      TransfersService.normalizeTransferRequest b = .ok s →
      ((TransfersService.hashRequest sha256Hex r = TransfersService.hashRequest sha256Hex s ↔
          TransfersService.SameRequest a b) ∧
        (TransfersService.hashRequest sha256Hex r = TransfersService.hashRequest sha256Hex s →
          ∀ draws senderUserId header, TransfersService.create sha256Hex draws senderUserId header a =
            TransfersService.create sha256Hex draws senderUserId header b))) ∧
    ∀ transferId transferId' (body body' : ReversalsService.CreateReversalDto), parsesUuid transferId →
      parsesUuid transferId' → body.transform.Valid → body'.transform.Valid →
      let request := ReversalsService.normalizeRequest transferId body.transform
      let request' := ReversalsService.normalizeRequest transferId' body'.transform
      ((ReversalsService.hashRequest sha256Hex request = ReversalsService.hashRequest sha256Hex request' ↔
          toLowerCase transferId = toLowerCase transferId' ∧ body.reason.map jsTrim = body'.reason.map jsTrim) ∧
        (ReversalsService.hashRequest sha256Hex request = ReversalsService.hashRequest sha256Hex request' →
          ∀ draws actorUserId header,
            ReversalsService.create sha256Hex draws actorUserId transferId header body.transform =
              ReversalsService.create sha256Hex draws actorUserId transferId' header body'.transform)) := by
  constructor
  · intro a b r s valid valid' normal normal'
    have text {input : TransfersService.CreateTransferDto} {r : TransfersService.NormalizedTransferRequest}
        (normal : TransfersService.normalizeTransferRequest input = .ok r) :
        r.amountMinorText = toString r.amountMinor ∧ 0 < r.amountMinor := by
      obtain ⟨_, n, _, pos, _, rfl⟩ := TransfersService.normalizeTransferRequest_eq_ok.mp normal
      exact ⟨rfl, pos⟩
    have hashes := TransfersService.hashRequest_eq_iff injective (text normal).1 (text normal').1 (text normal).2
      (text normal').2
    constructor
    · rw [hashes, TransfersService.normalized_eq_iff valid valid' normal normal']
    intro same draws senderUserId header
    cases hashes.mp same
    rw [TransfersService.create, TransfersService.create, normal, normal']
  · intro transferId transferId' body body' _ _ valid valid' request request'
    have hashes := ReversalsService.hashRequest_eq_iff injective (r := request) (s := request')
    constructor
    · rw [hashes]
      simp only [request, request', ReversalsService.normalizeRequest_transform valid,
        ReversalsService.normalizeRequest_transform valid', ReversalsService.NormalizedReversalRequest.mk.injEq]
    · intro same draws actorUserId header
      have equal : request = request' := hashes.mp same
      simp only [request, request'] at equal
      rw [ReversalsService.create, ReversalsService.create]
      simp only [equal]

/-! ## Two requests in two spellings, and a reason that reads null -/

def sampleTransferRequest (sourceWalletId : String) : TransfersService.CreateTransferDto where
  sourceWalletId := sourceWalletId
  destinationWalletId := some "00000000-0000-4000-8000-00000000000b"
  amountMinor := "2500"

/-- An injective function that is SHA-256 on the texts of the sample. -/
def sampleSha256 : String ≃ String :=
  let hashes (fields : List (String × Option String)) (hash : String) := Equiv.swap (jsonObject fields) hash
  let transferId := "00000000-0000-4000-8000-00000000000c"
  (hashes [("sourceWalletId", some "00000000-0000-4000-8000-00000000000a"),
      ("destinationWalletId", some "00000000-0000-4000-8000-00000000000b"), ("beneficiaryId", none),
      ("amountMinor", some "2500")] "ba5a03f7db2103c3307ee2aea6a8915720a5cc82a134884f1541a4b864cd56fe").trans <|
    (hashes [("transferId", some transferId), ("reason", none)]
      "a4249b52b18c6365f144a898eedbb97ee221076b7ab485e441fee598602e5d5f").trans <|
    hashes [("transferId", some transferId), ("reason", some "null")]
      "245952d3b7905429b76a3da6a8b62e6edad694a46470223f60b95579673adf53"

theorem fingerprints_identify_sample :
    (∀ draws senderUserId header,
      TransfersService.create sampleSha256 draws senderUserId header
          (sampleTransferRequest "00000000-0000-4000-8000-00000000000A") =
        TransfersService.create sampleSha256 draws senderUserId header
          (sampleTransferRequest "00000000-0000-4000-8000-00000000000a")) ∧
    ReversalsService.hashRequest sampleSha256
        (ReversalsService.normalizeRequest "00000000-0000-4000-8000-00000000000c" ⟨none⟩) ≠
      ReversalsService.hashRequest sampleSha256
        (ReversalsService.normalizeRequest "00000000-0000-4000-8000-00000000000C" ⟨some "null"⟩) := by
  obtain ⟨transfers, reversals⟩ := fingerprints_identify sampleSha256.injective
  constructor
  · have numeral : IsNumeral maxMinorUnits "2500" := ⟨2500, by decide, by decide, by decide⟩
    have valid : (sampleTransferRequest "00000000-0000-4000-8000-00000000000A").ValidIds := by decide
    have valid' : (sampleTransferRequest "00000000-0000-4000-8000-00000000000a").ValidIds := by decide
    obtain ⟨accepted, r, normal⟩ := (TransfersService.amount_gate valid (by decide)).mpr numeral
    obtain ⟨accepted', s, normal'⟩ := (TransfersService.amount_gate valid' (by decide)).mpr numeral
    obtain ⟨hashes, calls⟩ := transfers _ _ r s accepted accepted' normal normal'
    exact calls (hashes.mpr (by decide))
  · intro same
    obtain ⟨hashes, _⟩ := reversals "00000000-0000-4000-8000-00000000000c" "00000000-0000-4000-8000-00000000000C" ⟨none⟩
      ⟨some "null"⟩ (by decide) (by decide) (by decide) (by decide)
    exact absurd (hashes.mp same).2 (by decide)

end Fintech
