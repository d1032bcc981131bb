import Esni.Proofs.EncodeOutcome

/-!
# What accepted data accounts for

The decoder of an extension tells only afterwards how much of the data was its payload, and nothing
makes it tell the truth. Still every byte of an accepted list belongs to one of its extensions by
their own report: the list goes on where the report says, and a report of more than there is ends
the reading. So the reported length of an accepted list is the one in front of it, and the length of
accepted data follows from the fields of the record.

An accepted record keeps all limits of the encoder for the same reason. Two things may keep it from
being written. An extension may say that it takes the rest and have left something, or the
extensions write so much more than they report that no buffer has room for it.

## Main definitions

- `ExtensionList.Accounted` — a list, what follows it, and the data that it was read from
- `Record.reportedLength` — the length of an encoding by the report of the extensions

## Main statements

- `ExtensionList.accounted_of_decode` — a list that was read accounts for its data
- `Record.accounting_of_decode` — the length of accepted data, and whether it can be written
-/

namespace Esni

namespace ExtensionList

variable {registry : Registry} {list : ExtensionList} {data rest body : Bytes}

/-- The length that the first two bytes of the data tell. -/
def declaredLength (data : Bytes) : Nat := Bytes.toNat (data.take 2)

theorem declaredLength_framed (h : body.length < 256 ^ 2) (rest : Bytes) :
    declaredLength (Bytes.framed 2 body ++ rest) = body.length := by
  rw [declaredLength, Bytes.framed, List.append_assoc, List.take_left' (Bytes.length_ofNat 2 _),
    Bytes.toNat_ofNat_of_lt h]

theorem two_mul_length_le_reportedLength (list : ExtensionList) :
    2 * list.length ≤ reportedLength list := by
  have hitem (extension : Extension) : 2 ≤ extension.encodedLength := Nat.le_add_right 2 _
  exact mul_length_le_totalLength hitem list

/-- Two bytes tell no more than the longest list. -/
theorem declaredLength_le (data : Bytes) : declaredLength data ≤ maxLength := by
  have hpow : 256 ^ (data.take 2).length ≤ 256 ^ 2 :=
    Nat.pow_le_pow_right (by decide) (List.length_take_le 2 data)
  exact Nat.le_of_lt_succ (Nat.lt_of_lt_of_le (Bytes.toNat_lt (data.take 2)) hpow)

section Accounts

variable [Build]

theorem encode_ne_listTooLong {reported : Nat} (hreported : encodedLength list = .ok reported)
    (h : reported ≤ maxLength) (offset length : Nat) :
    encode offset list ≠ .error (.fault (.listTooLong length)) := by
  rw [encode_of_encodedLength hreported, if_neg (Nat.not_lt_of_le h)]
  cases list.dropLast.find? (·.consumesRest) with
  | some extension => simp
  | none =>
    dsimp only
    split <;> simp

/-- The list and what follows it share the data out between them: the list takes the two bytes of
its length and as many bytes as they tell, which its extensions report exactly. -/
structure Accounted (data : Bytes) (list : ExtensionList) (rest : Bytes) : Prop where
  declared_le : 2 + declaredLength data ≤ data.length
  rest_eq : rest = data.drop (2 + declaredLength data)
  reportedLength_eq : reportedLength list = declaredLength data
  /-- Nothing of the sum is lost, and it does not end the program. -/
  encodedLength_eq : encodedLength list = .ok (declaredLength data)
  /-- Every extension takes the two bytes of its identifier at least. -/
  two_mul_length_le : 2 * list.length ≤ declaredLength data
  encode_ne : ∀ offset length, encode offset list ≠ .error (.fault (.listTooLong length))

theorem Accounted.length_eq (h : Accounted data list rest) :
    data.length = 2 + reportedLength list + rest.length := by
  have hdeclared := h.declared_le
  rw [h.rest_eq, h.reportedLength_eq, List.length_drop]
  omega

theorem accounted_of_decode (h : decode registry data = .ok (list, rest)) :
    Accounted data list rest := by
  rw [decode, bind_eq_ok_iff] at h
  obtain ⟨⟨body, _⟩, hcut, h⟩ := h
  obtain ⟨hsmall, rfl⟩ := exists_of_cutBody hcut
  rw [bind_eq_ok_iff] at h
  obtain ⟨items, hitems, h⟩ := h
  cases h
  have hreported := reportedLength_of_readBody (Reading.toExcept_eq_ok_iff.1 hitems)
  have hdeclared := declaredLength_framed hsmall rest
  have hframe : (Bytes.framed 2 body).length = 2 + body.length := Bytes.length_framed 2 body
  have hlength : encodedLength (items.map (·.extension)) = .ok body.length := by
    rw [← hreported]
    refine encodedLength_of_lt ?_
    rw [hreported, Size.modulus]
    omega
  refine ⟨?_, ?_, ?_, ?_, ?_, ?_⟩
  · rw [hdeclared, List.length_append, hframe]
    exact Nat.le_add_right _ _
  · rw [hdeclared, List.drop_left' hframe]
  · rw [hdeclared, hreported]
  · rw [hlength, hdeclared]
  · rw [hdeclared, ← hreported]
    exact two_mul_length_le_reportedLength _
  · exact encode_ne_listTooLong hlength (hdeclared ▸ declaredLength_le _)

end Accounts

end ExtensionList

namespace Record

variable {registry : Registry} {record : Record} {data : Bytes}

/-- The number of bytes that the record takes on the wire by the report of its extensions. -/
def reportedLength (record : Record) : Nat :=
  6 + (if 0xff02 ≤ record.version.code then 1 + record.nameLength else 0) +
    2 + record.keys.encodedLength + 2 + 2 * record.cipherSuites.length + 2 + 16 +
    2 + ExtensionList.reportedLength record.extensions

section Accounts

variable [Build]

theorem length_of_decode (h : decode registry data = .ok record) :
    data.length = record.reportedLength := by
  obtain ⟨front, wire, hfront, _, hlist, rfl⟩ := exists_sections_of_decode h
  have hwire := (ExtensionList.accounted_of_decode hlist).length_eq
  obtain rfl := eq_wireFront_of_encodeFront hfront
  have hlength := record.length_wireFront
  rw [writtenLength, headerLength] at hlength
  rw [length_sealed, List.length_append, hwire, List.length_nil, reportedLength]
  omega

/-- All sections of an accepted record can be written again but for the extensions, and these are
not too long. -/
theorem encode_of_decode (h : decode registry data = .ok record) :
    (∃ bytes, record.encode = .ok bytes) ∨
      (∃ type, record.encode = .error (.fault (.extensions (.unboundedNotLast type)))) ∨
      (Size.maxCapacity < record.writtenLength ∧ record.encode = .error (.panic .capacity)) := by
  obtain ⟨front, wire, hfront, hname, hlist, rfl⟩ := exists_sections_of_decode h
  have haccounted := ExtensionList.accounted_of_decode hlist
  have hreported := haccounted.encodedLength_eq
  have hshort : ExtensionList.declaredLength wire ≤ 65535 := ExtensionList.declaredLength_le wire
  have hanswered := answered_of_allocation
    (allocation_of_sections hname hfront hreported hshort) hreported
  rw [Answered, encodeFault?, frontFault?_of_encodeFront hfront, Option.none_or,
    if_neg (Nat.not_lt_of_le hshort)] at hanswered
  cases hfind : record.extensions.dropLast.find? (·.consumesRest) with
  | some extension =>
    rw [hfind] at hanswered
    exact .inr (.inl ⟨extension.type, hanswered⟩)
  | none =>
    rw [hfind] at hanswered
    dsimp only [Option.map_none] at hanswered
    split at hanswered
    · obtain ⟨bytes, hbytes, _⟩ := hanswered
      exact .inl ⟨bytes, hbytes⟩
    · rename_i hroom
      exact .inr (.inr ⟨Nat.lt_of_not_le hroom, hanswered⟩)

/-- Whatever the decoders of a registry accept and report, a list that is read takes exactly the
bytes that the length in front of it tells, and its extensions report as many. So the length of
accepted data is what the fields of the record add up to, and the record can be written again unless
an extension that takes the rest is not the last one. No other limit is broken, and the program ends
only where the extensions write more than any buffer has room for. -/
theorem accounting_of_decode (registry : Registry) :
    (∀ data list rest, ExtensionList.decode registry data = .ok (list, rest) →
      ExtensionList.Accounted data list rest) ∧
    (∀ data record, decode registry data = .ok record →
      data.length = record.reportedLength ∧
        ((∃ bytes, record.encode = .ok bytes) ∨
          (∃ type, record.encode = .error (.fault (.extensions (.unboundedNotLast type)))) ∨
          (Size.maxCapacity < record.writtenLength ∧
            record.encode = .error (.panic .capacity)))) :=
  ⟨fun _ _ _ h => ExtensionList.accounted_of_decode h,
    fun _ _ h => ⟨length_of_decode h, encode_of_decode h⟩⟩

end Accounts

/-- An extension that says that it takes the rest and reports no payload at all. -/
def idle : Extension where
  kind := "idle"
  type := ⟨0x0077⟩
  payloadLength := 0
  payload := []
  consumesRest := true
  text := ""

/-- The registry that reads any data as the idle extension. -/
def idleRegistry : Registry := ⟨[(idle.type, ⟨"idle", idle, fun _ => .ok idle⟩)], by simp⟩

/-- The sample with two idle extensions in the place of its own. -/
def idleRecord : Record := { sample.normal with extensions := [idle, idle] }

/-- The encoding of the idle record behind its checksum, as a careless writer would give it. -/
def idleBody : Bytes := sampleBody.take 31 ++ [0, 4, 0, 0x77, 0, 0x77]

theorem decode_idle :
    ExtensionList.decode idleRegistry [0, 4, 0, 0x77, 0, 0x77] = .ok ([idle, idle], []) := by
  have hfirst : (DecodedExtension.reader idleRegistry).read [0, 0x77, 0, 0x77] =
      .ok (⟨"idle", idle⟩, [0, 0x77]) := rfl
  have hsecond : (DecodedExtension.reader idleRegistry).read [0, 0x77] =
      .ok (⟨"idle", idle⟩, []) := rfl
  have hbody : ExtensionList.readBody idleRegistry [0, 0x77, 0, 0x77] =
      ⟨[⟨"idle", idle⟩, ⟨"idle", idle⟩], none⟩ := by
    rw [ExtensionList.readBody, ItemReader.readAll_of_ok _ hfirst,
      ItemReader.readAll_of_ok _ hsecond, ItemReader.readAll_nil]
  have hframed : ExtensionList.decode idleRegistry (Bytes.framed 2 [0, 0x77, 0, 0x77] ++ []) = _ :=
    ExtensionList.decode_framed (by decide) []
  rw [hbody] at hframed
  exact hframed

/-- Accepted data with the length that the record reports, although the record cannot be written. -/
theorem accounting_of_decode_idle :
    decode idleRegistry (sealed 0xff01 idleBody) = .ok idleRecord ∧
      (sealed 0xff01 idleBody).length = idleRecord.reportedLength ∧
      idleRecord.encode = .error (.fault (.extensions (.unboundedNotLast idle.type))) ∧
      ExtensionList.Accounted [0, 4, 0, 0x77, 0, 0x77] [idle, idle] [] := by
  have hdecode := decode_sampleFront idleRegistry [0, 4, 0, 0x77, 0, 0x77]
  rw [decode_idle, mapError_ok, ok_bind] at hdecode
  obtain ⟨hlist, hrecord⟩ := accounting_of_decode idleRegistry
  exact ⟨hdecode, (hrecord _ _ hdecode).1, rfl, hlist _ _ _ decode_idle⟩

end Record

end Esni
