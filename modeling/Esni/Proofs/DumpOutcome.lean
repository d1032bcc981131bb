import Esni.Dump.Basic
import Esni.Proofs.RoundTrip

/-!
# The outcome of a dump

A dump fails if its text is no base64 or if its bytes are no record. The error then says what could
not be done and what stood in the way. If the cause lies deep inside a record, it is said more than
once: each text says all that the ones behind it say, with some words in front. With the standard
registry there is no other outcome, because a record that was read can be described.

## Main definitions

- `Account` — what an error says, and how it is said again on the way to the cause
- `DecodeError.account` and `DumpError.texts` — what the errors of a dump say, word by word
- `Shows` — what there is to show for a text, its dump or its error

## Main statements

- `DumpError.chainText_eq` — an error on one line is its texts one after the other
- `exists_shows` — with the standard registry there is always something to show
-/

namespace Esni

/-! ### The texts of errors -/

/-- What an error says: the words that lead to its cause, the outermost first, and the cause. -/
structure Account where
  words : List String
  cause : String

namespace Account

/-- All that is said. -/
def text (account : Account) : String := String.join account.words ++ account.cause

/-- What is said again and again on the way to the cause, the outermost text first. -/
def texts (account : Account) : List String :=
  account.words.tails.map fun words => text ⟨words, account.cause⟩

/-- An account with more words in front. -/
def behind (words : String) (account : Account) : Account :=
  ⟨words :: account.words, account.cause⟩

theorem text_nil (cause : String) : text ⟨[], cause⟩ = cause := String.empty_append

theorem texts_nil (cause : String) : texts ⟨[], cause⟩ = [cause] := by
  simp [texts, text_nil]

theorem text_behind (words : String) (account : Account) :
    (account.behind words).text = words ++ account.text := by
  simp [text, behind, String.append_assoc]

/-- The words in front are said once, before all that is said without them. -/
theorem texts_behind (words : String) (account : Account) :
    (account.behind words).texts = (words ++ account.text) :: account.texts := by
  rw [← text_behind]
  simp [texts, behind]

end Account

/-- The part of a record as errors speak of it. -/
def RecordSection.words : RecordSection → String
  | header => "header"
  | publicName => "public name"
  | keyShareList => "key share list"
  | paddedLength => "padded length"
  | notBefore => "not before"
  | notAfter => "not after"

def KeyShareError.cause : KeyShareError → String
  | truncatedEntry => "truncated key share entry"
  | duplicateGroup group => "duplicate key share group " ++ group.text
  | keyTooLong group length =>
    "key exchange of group " ++ group.text ++ " is too long: " ++ toString length ++ " bytes"

def CipherSuitesError.cause : CipherSuitesError → String
  | invalidListLength length => "invalid cipher suite list length " ++ toString length
  | truncatedData => "truncated cipher suite list"
  | tooManySuites count => "too many cipher suites: " ++ toString count

/-- What is wrong with a payload. Kinds other than address sets have words of their own. -/
def PayloadError.cause : PayloadError → String
  | addresses (.unsupportedFamily family) => "unsupported address family " ++ toString family.toNat
  | addresses .truncatedAddress => "truncated address"
  | other message => message

def ExtensionDecodeError.account : ExtensionDecodeError → Account
  | unexpectedEnd => ⟨[], "unexpected end of data"⟩
  | unsupportedType type => ⟨[], "unsupported extension_type(" ++ toString type.code.toNat ++ ")"⟩
  | faultyPayload type error =>
    ⟨["failed to decode extension_type(" ++ toString type.code.toNat ++ "): "], error.cause⟩
  | overlongPayload type =>
    ⟨[], "extension_type(" ++ toString type.code.toNat ++ ") claims more data than available"⟩

/-- What is wrong with data that is no record. -/
def DecodeError.account : DecodeError → Account
  | unexpectedEnd part => ⟨[], "unexpected end of data in " ++ part.words⟩
  | checksumMismatch received calculated =>
    ⟨[], "checksum mismatch: received " ++ Bytes.digits received.val ++ ", calculated " ++
      Bytes.digits calculated.val⟩
  | emptyPublicName => ⟨[], "empty public name"⟩
  | invalidPublicName => ⟨[], "public name is not valid utf-8"⟩
  | emptyKeyShareList => ⟨[], "empty key share list"⟩
  | keyShares error => ⟨["invalid key share list: "], error.cause⟩
  | cipherSuites error => ⟨["invalid cipher suites: "], error.cause⟩
  | extensions error => error.account.behind "invalid extensions: "
  | invalidTimestamp part value => ⟨[], "invalid " ++ part.words ++ " timestamp " ++ toString value⟩
  | trailingData length => ⟨[], toString length ++ " bytes trailing data"⟩

def Base64Error.cause : Base64Error → String
  | invalidSymbol byte offset =>
    "Invalid symbol " ++ toString byte.toNat ++ ", offset " ++ toString offset ++ "."
  | invalidLength length => "Invalid input length: " ++ toString length
  | invalidLastSymbol byte offset =>
    "Invalid last symbol " ++ toString byte.toNat ++ ", offset " ++ toString offset ++ "."
  | invalidPadding => "Invalid padding"

/-- What is wrong with a text that is not the base64 text of a record. -/
def DumpError.texts : DumpError → List String
  | base64 error => ["failed to decode base64 record data", error.cause]
  | record error => "failed to decode esni keys" :: error.account.texts

theorem RecordSection.name_eq (part : RecordSection) : part.name = part.words := by
  cases part <;> rfl

theorem KeyShareError.message_eq (error : KeyShareError) : error.message = error.cause := by
  cases error <;> rfl

theorem CipherSuitesError.message_eq (error : CipherSuitesError) :
    error.message = error.cause := by
  cases error <;> rfl

theorem PayloadError.message_eq (error : PayloadError) : error.message = error.cause := by
  cases error with
  | addresses error => cases error <;> rfl
  | other message => rfl

theorem Base64Error.message_eq (error : Base64Error) : error.message = error.cause := by
  cases error <;> rfl

theorem ExtensionType.text_eq (type : ExtensionType) :
    type.text = "extension_type(" ++ (toString type.code.toNat ++ ")") :=
  String.append_assoc

theorem ExtensionDecodeError.message_eq (error : ExtensionDecodeError) :
    error.message = error.account.text := by
  cases error with
  | unexpectedEnd =>
    show "unexpected end of data" = Account.text ⟨[], _⟩
    rw [Account.text_nil]
  | unsupportedType type =>
    show "unsupported " ++ type.text = Account.text ⟨[], _⟩
    rw [Account.text_nil, type.text_eq, ← String.append_assoc, ← String.append_assoc]
    rfl
  | faultyPayload type error =>
    show "failed to decode " ++ type.text ++ ": " ++ error.message = Account.text ⟨[_], _⟩
    rw [Account.text, String.join_cons, String.join_nil, String.append_empty, error.message_eq,
      type.text_eq]
    simp only [String.append_assoc]
    rfl
  | overlongPayload type =>
    show type.text ++ " claims more data than available" = Account.text ⟨[], _⟩
    rw [Account.text_nil, type.text_eq]
    simp only [String.append_assoc]
    rfl

theorem ExtensionDecodeError.chain_eq (error : ExtensionDecodeError) :
    error.chain = error.account.texts := by
  cases error with
  | faultyPayload type error =>
    show [message _, error.message] = (Account.behind _ ⟨[], error.cause⟩).texts
    rw [Account.texts_behind, Account.texts_nil, ← Account.text_behind, message_eq,
      error.message_eq]
    rfl
  | _ =>
    show [message _] = Account.texts ⟨[], _⟩
    rw [Account.texts_nil, message_eq]
    exact congrArg (· :: []) (Account.text_nil _)

theorem DecodeError.chain_eq (error : DecodeError) : error.chain = error.account.texts := by
  cases error with
  | keyShares error =>
    show ["invalid key share list: " ++ error.message, error.message] =
      (Account.behind _ ⟨[], error.cause⟩).texts
    rw [Account.texts_behind, Account.texts_nil, Account.text_nil, error.message_eq]
  | cipherSuites error =>
    show ["invalid cipher suites: " ++ error.message, error.message] =
      (Account.behind _ ⟨[], error.cause⟩).texts
    rw [Account.texts_behind, Account.texts_nil, Account.text_nil, error.message_eq]
  | extensions error =>
    show ("invalid extensions: " ++ error.message) :: error.chain = (Account.behind _ _).texts
    rw [Account.texts_behind, error.message_eq, error.chain_eq]
  | unexpectedEnd part =>
    show ["unexpected end of data in " ++ part.name] = Account.texts ⟨[], _⟩
    rw [Account.texts_nil, part.name_eq]
  | invalidTimestamp part value =>
    show [s!"invalid {part.name} timestamp {value}"] = Account.texts ⟨[], _⟩
    rw [Account.texts_nil, part.name_eq]
    rfl
  | _ => exact (Account.texts_nil _).symm

/-- An error on one line, word by word. -/
theorem DumpError.chainText_eq (error : DumpError) :
    error.chainText = ": ".intercalate error.texts := by
  cases error with
  | base64 error => rw [chainText, chain, texts, error.message_eq]
  | record error => rw [chainText, chain, texts, error.chain_eq]

/-! ### What there is to show -/

section Outcomes

variable [Build] {registry : Registry} {record : Record} {text shown : String} {data : Bytes}
  {withHex : Bool}

theorem dump_of_recordBytes {fault : Base64Error} (h : recordBytes text = .error fault)
    (withHex : Bool) : dump registry withHex text = .error (.fault (.base64 fault)) := by
  rw [dump, h]
  rfl

theorem dump_of_decode_eq_error {fault : DecodeError} (h : recordBytes text = .ok data)
    (hdecode : Record.decode registry data = .error fault) (withHex : Bool) :
    dump registry withHex text = .error (.fault (.record fault)) := by
  rw [dump, h, mapError_ok, ok_bind, hdecode]
  rfl

theorem dump_of_panic {cause : Panic} (h : recordBytes text = .ok data)
    (hdecode : Record.decode registry data = .ok record)
    (hpanic : record.describeWith registry = .error cause) (withHex : Bool) :
    dump registry withHex text = .error (.panic cause) := by
  rw [dump, h, mapError_ok, ok_bind, hdecode, mapError_ok, ok_bind, hpanic]
  rfl

theorem dump_of_describeWith (h : recordBytes text = .ok data)
    (hdecode : Record.decode registry data = .ok record)
    (hshown : record.describeWith registry = .ok shown) (withHex : Bool) :
    dump registry withHex text = .ok ((if withHex then hexDump data ++ "\n" else "") ++ shown) := by
  rw [dump, h, mapError_ok, ok_bind, hdecode, mapError_ok, ok_bind, hshown]
  rfl

/-- What there is to show for a text: its dump, or its error. -/
inductive Shows (withHex : Bool) (text : String) : String → Prop where
  | dumped {shown : String} (h : dump .standard withHex text = .ok shown) :
    Shows withHex text shown
  | failed {error : DumpError} (h : dump .standard withHex text = .error (.fault error)) :
    Shows withHex text ("ERROR: " ++ ": ".intercalate error.texts)

/-- A record that was read with an exact registry can be described, so there is nothing that ends
the program in the middle of a dump. -/
theorem exists_shows (withHex : Bool) (text : String) : ∃ shown, Shows withHex text shown := by
  cases hbytes : recordBytes text with
  | error fault => exact ⟨_, .failed (dump_of_recordBytes hbytes withHex)⟩
  | ok data =>
    cases hdecode : Record.decode .standard data with
    | error fault => exact ⟨_, .failed (dump_of_decode_eq_error hbytes hdecode withHex)⟩
    | ok record =>
      obtain ⟨body, hbody, rfl⟩ :=
        Record.exists_sealed_of_decode Registry.exact_standard hdecode
      have hspelled := (Record.spelledBy_sealed hbody).describeWith_eq .standard
      exact ⟨_, .dumped (dump_of_describeWith hbytes hdecode hspelled withHex)⟩

end Outcomes

end Esni
