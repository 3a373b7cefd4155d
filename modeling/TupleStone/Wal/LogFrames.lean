import TupleStone.Wal.LogManager

/-! # Log records as frames

Reading stops at the first place that is not a complete record with a matching checksum, every record read stands
in a frame of its own, and what `Append` writes is the frame of its record.
-/

set_option autoImplicit false

namespace TupleStone

open FrameLog ByteDigits

theorem wordAt_append {n offset : Nat} {bytes : Bytes} (h : offset + n ≤ bytes.length) (more : Bytes) :
    wordAt n offset (bytes ++ more) = wordAt n offset bytes := by
  have hDrop : (bytes ++ more).drop offset = bytes.drop offset ++ more := List.drop_append_of_le_length (by omega)
  rw [wordAt, wordAt, hDrop, List.take_append_of_le_length (by rw [List.length_drop]; omega)]

theorem decodeRecord_size {header body : Bytes} {length : Nat} {record : LogRecord} (hLength : 25 ≤ length)
    (h : decodeRecord header body length = some record) :
    body.length = length + 4 ∧ record.payload.length = length - 25 := by
  rw [decodeRecord] at h
  split at h
  · cases h
  · rename_i hBody
    have hBody := not_not.mp hBody
    split at h
    · cases h
    · split at h
      · cases h
      · cases h
        refine ⟨hBody, ?_⟩
        rw [List.length_take, List.length_drop]
        omega

theorem wordAt_header {header : Bytes} (h : header.length = 4) (more : Bytes) :
    wordAt 4 0 (header ++ more) = wordAt 4 0 header := wordAt_append (by omega) more

/-- The iteration on a frame written as its length field and the rest. -/
theorem nextRecord_append {header body : Bytes} (hHeader : header.length = 4)
    (hBody : body.length = wordAt 4 0 header + 4) (more : Bytes) :
    nextRecord (header ++ (body ++ more)) =
      if wordAt 4 0 header < 25 ∨ maxRecordLength < wordAt 4 0 header then none
      else (decodeRecord header body (wordAt 4 0 header)).map (fun record => (record, (header ++ body).length)) := by
  have hLong : ¬ (header ++ (body ++ more)).length < 4 := by
    rw [List.length_append]
    omega
  have hTake : (header ++ (body ++ more)).take 4 = header := by
    rw [← hHeader, List.take_left]
  have hDrop : ((header ++ (body ++ more)).drop 4).take (wordAt 4 0 header + 4) = body := by
    rw [← hHeader, List.drop_left, hHeader, ← hBody, List.take_left]
  rw [nextRecord, if_neg hLong, wordAt_header hHeader, hTake]
  dsimp only
  rw [hDrop, List.length_append, hHeader, hBody]

theorem nextRecord_split {bytes : Bytes} {record : LogRecord} {n : Nat} (h : nextRecord bytes = some (record, n)) :
    ∃ header body rest, bytes = header ++ (body ++ rest) ∧ header.length = 4 ∧ body.length = wordAt 4 0 header + 4 ∧
      n = (header ++ body).length ∧ n = 33 + record.payload.length := by
  rw [nextRecord] at h
  split at h
  · cases h
  rename_i hLong
  dsimp only at h
  split at h
  · cases h
  obtain ⟨decoded, hDecode, hPair⟩ := Option.map_eq_some_iff.mp h
  cases hPair
  obtain ⟨hBody, hPayload⟩ := decodeRecord_size (by omega) hDecode
  have hHeader : (bytes.take 4).length = 4 := List.length_take_of_le (by omega)
  have hWord : wordAt 4 0 bytes = wordAt 4 0 (bytes.take 4) := by
    rw [← wordAt_header hHeader (bytes.drop 4), List.take_append_drop]
  refine ⟨bytes.take 4, (bytes.drop 4).take (wordAt 4 0 bytes + 4), (bytes.drop 4).drop (wordAt 4 0 bytes + 4), ?_,
    hHeader, hWord ▸ hBody, ?_, by omega⟩
  · rw [List.take_append_drop, List.take_append_drop]
  · rw [List.length_append, hHeader, hBody]

theorem nextRecord_size {bytes : Bytes} {record : LogRecord} {n : Nat} (h : nextRecord bytes = some (record, n)) :
    n = 33 + record.payload.length := by
  obtain ⟨header, body, rest, -, -, -, -, hSize⟩ := nextRecord_split h
  exact hSize

theorem nextRecord_lawful : Lawful nextRecord := by
  intro bytes record n h
  obtain ⟨header, body, rest, rfl, hHeader, hBody, rfl, -⟩ := nextRecord_split h
  have hTake : (header ++ (body ++ rest)).take (header ++ body).length = header ++ body := by
    rw [← List.append_assoc, List.take_left]
  rw [nextRecord_append hHeader hBody] at h
  refine ⟨by simp only [List.length_append]; omega, ?_⟩
  rw [hTake]
  refine ⟨fun hNil => ?_, fun more => ?_⟩
  · rw [List.append_eq_nil_iff.mp hNil |>.1] at hHeader
    cases hHeader
  · rw [List.append_assoc, nextRecord_append hHeader hBody, h]

theorem validBytes_of_frames {bytes : Bytes} {records : List LogRecord} (h : Frames nextRecord bytes records) :
    validBytes records = bytes.length := by
  induction h with
  | nil => rfl
  | cons hFrame _ ih =>
    have hSize := nextRecord_size (hFrame.scanned [])
    rw [validBytes] at ih ⊢
    rw [List.map_cons, List.sum_cons, ih, List.length_append, ← hSize]

/-! ## What `Append` writes -/

theorem wordAt_digits {n v : Nat} (h : v < 256 ^ n) (before more : Bytes) :
    wordAt n before.length (before ++ (digits n v ++ more)) = v := by
  have hTake : (digits n v ++ more).take n = digits n v := by
    have hLeft := @List.take_left _ (digits n v) more
    rwa [length_digits] at hLeft
  rw [wordAt, List.drop_left, hTake, join_zero, value_digits, Nat.mod_eq_of_lt h]

theorem length_recordFields (record : LogRecord) : (recordFields record).length = 25 + record.payload.length := by
  simp only [recordFields, List.length_append, length_digits, List.length_cons]
  omega

theorem decodeRecord_encode (record : LogRecord) :
    decodeRecord (digits 4 (25 + record.payload.length))
      (recordFields record ++ digits 4 (crc32c (recordBody record)).toNat) (25 + record.payload.length) = some record := by
  obtain ⟨lsn, txnId, prevLsn, type, payload⟩ := record
  generalize hRecord : (⟨lsn, txnId, prevLsn, type, payload⟩ : LogRecord) = record
  generalize hChecksum : digits 4 (crc32c (recordBody record)).toNat = checksum
  have hPayload : record.payload = payload := by rw [← hRecord]
  have hSize := length_recordFields record
  have hBody : (recordFields record ++ checksum).length = 25 + record.payload.length + 4 := by
    rw [List.length_append, hSize, ← hChecksum, length_digits]
  have hTake : (recordFields record ++ checksum).take (25 + record.payload.length) = recordFields record := by
    rw [← hSize, List.take_left]
  have hCrc : wordAt 4 (25 + record.payload.length) (recordFields record ++ checksum) = (crc32c (recordBody record)).toNat := by
    have hWord := wordAt_digits (n := 4) (crc32c (recordBody record)).toNat_lt (recordFields record) []
    rwa [List.append_nil, hChecksum, hSize] at hWord
  have hFields : recordFields record ++ checksum =
      digits 8 lsn.toNat ++ (digits 8 txnId.toNat ++ (digits 8 prevLsn.toNat ++ (type :: (payload ++ checksum)))) := by
    rw [← hRecord, recordFields]
    simp only [List.append_assoc, List.cons_append]
  have hLsn : wordAt 8 0 (recordFields record ++ checksum) = lsn.toNat := by
    rw [hFields]
    exact wordAt_digits (n := 8) lsn.toNat_lt [] _
  have hTxn : wordAt 8 8 (recordFields record ++ checksum) = txnId.toNat := by
    have hWord := wordAt_digits (n := 8) txnId.toNat_lt (digits 8 lsn.toNat)
      (digits 8 prevLsn.toNat ++ (type :: (payload ++ checksum)))
    rwa [length_digits, ← hFields] at hWord
  have hPrev : wordAt 8 16 (recordFields record ++ checksum) = prevLsn.toNat := by
    have hWord := wordAt_digits (n := 8) prevLsn.toNat_lt (digits 8 lsn.toNat ++ digits 8 txnId.toNat)
      (type :: (payload ++ checksum))
    rwa [List.length_append, length_digits, length_digits, List.append_assoc, ← hFields] at hWord
  have hRest : recordFields record ++ checksum =
      (digits 8 lsn.toNat ++ (digits 8 txnId.toNat ++ digits 8 prevLsn.toNat)) ++ (type :: (payload ++ checksum)) := by
    rw [hFields]
    simp only [List.append_assoc]
  have hFront : (digits 8 lsn.toNat ++ (digits 8 txnId.toNat ++ digits 8 prevLsn.toNat)).length = 24 := by
    simp only [List.length_append, length_digits]
  generalize digits 8 lsn.toNat ++ (digits 8 txnId.toNat ++ digits 8 prevLsn.toNat) = front at hRest hFront
  have hType : (recordFields record ++ checksum)[24]? = some type := by
    rw [hRest, List.getElem?_append_right (by omega), hFront]
    rfl
  have hTail : ((recordFields record ++ checksum).drop 25).take (25 + record.payload.length - 25) = payload := by
    have hDrop : (front ++ (type :: (payload ++ checksum))).drop 25 = payload ++ checksum := by
      rw [show 25 = front.length + 1 by omega, ← List.drop_drop, List.drop_left]
      rfl
    rw [hRest, hDrop, Nat.add_sub_cancel_left, hPayload, List.take_left]
  rw [decodeRecord, if_neg (not_not.mpr hBody), hTake, hCrc, ← recordBody, if_neg (not_not.mpr rfl), hType]
  dsimp only
  rw [hLsn, hTxn, hPrev, hTail, UInt64.ofNat_toNat, UInt64.ofNat_toNat, UInt64.ofNat_toNat, hRecord]

theorem isFrame_encodeRecord {record : LogRecord} (h : record.payload.length ≤ LogManager.maxPayload) :
    IsFrame nextRecord (encodeRecord record) record := by
  have hBound : 25 + record.payload.length ≤ maxRecordLength := by
    rw [LogManager.maxPayload] at h
    rw [maxRecordLength]
    omega
  have hHeader : (digits 4 (25 + record.payload.length)).length = 4 := length_digits 4 _
  have hWord : wordAt 4 0 (digits 4 (25 + record.payload.length)) = 25 + record.payload.length := by
    have hFits : 25 + record.payload.length < 256 ^ 4 := Nat.lt_of_le_of_lt hBound (by decide)
    have hDigits := wordAt_digits hFits [] []
    rwa [List.append_nil, List.nil_append] at hDigits
  have hBody : (recordFields record ++ digits 4 (crc32c (recordBody record)).toNat).length =
      wordAt 4 0 (digits 4 (25 + record.payload.length)) + 4 := by
    rw [hWord, List.length_append, length_recordFields, length_digits]
  have hSplit : encodeRecord record = digits 4 (25 + record.payload.length) ++
      (recordFields record ++ digits 4 (crc32c (recordBody record)).toNat) := by
    rw [encodeRecord, recordBody, List.append_assoc]
  refine ⟨fun hNil => ?_, fun more => ?_⟩
  · rw [hSplit] at hNil
    rw [(List.append_eq_nil_iff.mp hNil).1] at hHeader
    cases hHeader
  · rw [hSplit, List.append_assoc, nextRecord_append hHeader hBody, hWord, decodeRecord_encode,
      if_neg (by rw [not_or, Nat.not_lt, Nat.not_lt]; exact ⟨Nat.le_add_right _ _, hBound⟩)]
    rfl

/-! ## A frame is the encoding of its record -/

theorem digits_wordAt {n offset : Nat} {bytes : Bytes} (h : offset + n ≤ bytes.length) :
    digits n (wordAt n offset bytes) = (bytes.drop offset).take n := by
  have hLength : ((bytes.drop offset).take n).length = n := by
    rw [List.length_take, List.length_drop]
    omega
  have hDigits := digits_value ((bytes.drop offset).take n)
  rwa [hLength, ← join_zero] at hDigits

theorem digits_word (v : Nat) : digits 8 (UInt64.ofNat v).toNat = digits 8 v := by
  have hPow : 2 ^ 64 = 256 ^ 8 := by decide
  rw [UInt64.toNat_ofNat', hPow, digits_mod]

theorem encodeRecord_of_decode {header body : Bytes} {record : LogRecord} (hHeader : header.length = 4)
    (hLength : 25 ≤ wordAt 4 0 header) (h : decodeRecord header body (wordAt 4 0 header) = some record) :
    encodeRecord record = header ++ body := by
  obtain ⟨hBody, hPayload⟩ := decodeRecord_size hLength h
  generalize hWord : wordAt 4 0 header = length at h hLength hBody hPayload
  have hLengthField : digits 4 length = header := by
    rw [← hWord, digits_wordAt (by omega), List.drop_zero, ← hHeader, List.take_length]
  rw [decodeRecord, if_neg (not_not.mpr hBody)] at h
  split at h
  · cases h
  rename_i hChecksum
  have hChecksum := not_not.mp hChecksum
  split at h
  · cases h
  rename_i type hType
  cases h
  have hFields : recordFields ⟨UInt64.ofNat (wordAt 8 0 body), UInt64.ofNat (wordAt 8 8 body),
      UInt64.ofNat (wordAt 8 16 body), type, (body.drop 25).take (length - 25)⟩ = body.take length := by
    have hHead : (body.drop 24).take 1 = [type] := by
      rw [List.drop_eq_getElem?_toList_append, hType]
      rfl
    have hCount : length = 8 + (8 + (8 + (1 + (length - 25)))) := by omega
    rw [recordFields]
    dsimp only
    rw [digits_word, digits_word, digits_word, digits_wordAt (by omega), digits_wordAt (by omega), digits_wordAt (by omega),
      List.drop_zero]
    conv_rhs => rw [hCount, List.take_add, List.take_add, List.take_add, List.take_add, List.drop_drop, List.drop_drop,
      List.drop_drop, hHead]
    rfl
  have hBodyField : recordBody ⟨UInt64.ofNat (wordAt 8 0 body), UInt64.ofNat (wordAt 8 8 body),
      UInt64.ofNat (wordAt 8 16 body), type, (body.drop 25).take (length - 25)⟩ = header ++ body.take length := by
    rw [recordBody, hFields]
    dsimp only
    rw [hPayload, Nat.add_sub_cancel' hLength, hLengthField]
  rw [encodeRecord, hBodyField, hChecksum, digits_wordAt (by omega), List.append_assoc]
  have hTail : (body.drop length).take 4 = body.drop length :=
    List.take_of_length_le (by rw [List.length_drop]; omega)
  rw [hTail, List.take_append_drop]

theorem encodeRecord_of_next {bytes : Bytes} {record : LogRecord} {n : Nat} (h : nextRecord bytes = some (record, n)) :
    bytes.take n = encodeRecord record ∧ record.payload.length ≤ LogManager.maxPayload := by
  obtain ⟨header, body, rest, rfl, hHeader, hBody, rfl, hSize⟩ := nextRecord_split h
  rw [nextRecord_append hHeader hBody] at h
  split at h
  · cases h
  rename_i hBound
  obtain ⟨hLow, hHigh⟩ := not_or.mp hBound
  obtain ⟨decoded, hDecode, hPair⟩ := Option.map_eq_some_iff.mp h
  cases hPair
  have hTake : (header ++ (body ++ rest)).take (header ++ body).length = header ++ body := by
    rw [← List.append_assoc, List.take_left]
  rw [hTake]
  refine ⟨(encodeRecord_of_decode hHeader (Nat.not_lt.mp hLow) hDecode).symm, ?_⟩
  rw [List.length_append] at hSize
  rw [maxRecordLength] at hHigh
  rw [LogManager.maxPayload]
  omega

/-- The bytes are exactly the encodings of the records. -/
def WholeRecords (bytes : Bytes) (records : List LogRecord) : Prop :=
  (∀ record ∈ records, record.payload.length ≤ LogManager.maxPayload) ∧ bytes = (records.map encodeRecord).flatten

theorem frames_iff_wholeRecords {bytes : Bytes} {records : List LogRecord} :
    Frames nextRecord bytes records ↔ WholeRecords bytes records := by
  constructor
  · intro h
    induction h with
    | nil => exact ⟨fun _ hMem => absurd hMem List.not_mem_nil, rfl⟩
    | @cons used rest record records hFrame _ ih =>
      have hHere := hFrame.scanned []
      rw [List.append_nil] at hHere
      obtain ⟨hEncode, hPayload⟩ := encodeRecord_of_next hHere
      rw [List.take_length] at hEncode
      refine ⟨List.forall_mem_cons.mpr ⟨hPayload, ih.1⟩, ?_⟩
      rw [List.map_cons, List.flatten_cons, ← ih.2, hEncode]
  · rintro ⟨hPayload, rfl⟩
    induction records with
    | nil => exact .nil
    | cons record records ih =>
      obtain ⟨hHead, hTail⟩ := List.forall_mem_cons.mp hPayload
      exact .cons (isFrame_encodeRecord hHead) (ih hTail)

theorem validBytes_append (records records' : List LogRecord) :
    validBytes (records ++ records') = validBytes records + validBytes records' := by
  simp [validBytes]

/-- The bytes that opening keeps. -/
def wholePart (bytes : Bytes) : Bytes := bytes.take (validBytes (readRecords bytes))

theorem wholePart_split (bytes : Bytes) : ∃ tail, bytes = wholePart bytes ++ tail ∧ nextRecord tail = none ∧
    Frames nextRecord (wholePart bytes) (readRecords bytes) ∧ validBytes (readRecords bytes) = (wholePart bytes).length := by
  obtain ⟨clean, tail, hSplit, hTail, hFrames⟩ := exists_frames nextRecord_lawful bytes
  have hPart : wholePart bytes = clean := by
    rw [wholePart, readRecords, validBytes_of_frames hFrames]
    conv_lhs => rw [hSplit, List.take_left]
  rw [hPart]
  exact ⟨tail, hSplit, hTail, hFrames, validBytes_of_frames hFrames⟩

/-- No longer beginning of the file is a sequence of records. -/
theorem wholePart_longest {bytes whole : Bytes} {records : List LogRecord} (h : WholeRecords whole records)
    (hStart : whole <+: bytes) : whole.length ≤ (wholePart bytes).length := by
  obtain ⟨rest, rfl⟩ := hStart
  obtain ⟨tail, -, -, -, hLength⟩ := wholePart_split (whole ++ rest)
  have hFrames := frames_iff_wholeRecords.mpr h
  have hCount := hFrames.length_le
  have hRead : readRecords (whole ++ rest) = records ++ _ :=
    hFrames.readAll_append rest (by rw [List.length_append]; omega)
  rw [← hLength, hRead, validBytes_append, validBytes_of_frames hFrames]
  exact Nat.le_add_right _ _

theorem readRecords_wholePart (bytes : Bytes) : readRecords (wholePart bytes) = readRecords bytes := by
  obtain ⟨tail, -, -, hFrames, -⟩ := wholePart_split bytes
  exact hFrames.records_eq nextRecord_lawful

end TupleStone
