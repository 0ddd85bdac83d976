import Unpack.PackFileRecords
import Unpack.Lib.Codec

/-! The encoder and the decoder of the pack file: numbers, counts, fields with a limit, strings and paths,
and optional values behind a tag. Each writer is bound to its reader by the two laws of a codec. -/

namespace Unpack

open Codec

abbrev Encoder := Codec.Encoder IoError

namespace Encoder

def writeU8 (value : UInt8) : Encoder Unit := writeRaw [value]

def writeBool (value : Bool) : Encoder Unit := writeU8 (if value then 1 else 0)

def writeU32 (value : UInt32) : Encoder Unit := writeRaw (Codec.littleEndian 4 value.toNat)

def writeU64 (value : UInt64) : Encoder Unit := writeRaw (Codec.littleEndian 8 value.toNat)

def writeI64 (value : Int64) : Encoder Unit := writeU64 value.toUInt64

def writeCount (value : Nat) : Encoder Unit :=
  if maxCollectionEntries < value then
    throw (invalidData "PackFile collection exceeds the configured bound")
  else if 2 ^ 32 ≤ value then throw (invalidData "PackFile collection is too large")
  else writeU32 (UInt32.ofNat value)

def writeBytesWithLimit (value : List UInt8) (limit : Nat) : Encoder Unit :=
  if limit < value.length then throw (invalidData "PackFile field exceeds the configured bound")
  else if 2 ^ 32 ≤ value.length then throw (invalidData "PackFile field is too large")
  else do
    writeU32 (UInt32.ofNat value.length)
    writeRaw value

def writeBytes (value : List UInt8) : Encoder Unit := writeBytesWithLimit value maxFieldBytes

def writeString (value : String) : Encoder Unit := writeBytes (utf8Bytes value)

def writeRecordString (value : String) : Encoder Unit :=
  writeBytesWithLimit (utf8Bytes value) maxRecordBytes

def writePath (value : PathBytes) : Encoder Unit := writeBytes value

/-- The tag of an optional value, and the value. -/
def writeOptional {α : Type} (write : α → Encoder Unit) : Option α → Encoder Unit
  | some value => do
      writeU8 1
      write value
  | none => writeU8 0

def writeOptionalBytes : Option (List UInt8) → Encoder Unit := writeOptional writeBytes

def writeOptionalString : Option String → Encoder Unit := writeOptional writeString

def writeOptionalRecordString : Option String → Encoder Unit := writeOptional writeRecordString

def writeOptionalU64 : Option UInt64 → Encoder Unit := writeOptional writeU64

def writeOptionalTimestamp : Option TimestampDto → Encoder Unit
  | some value =>
      if value.nanoseconds < 1000000000 then do
        writeU8 1
        writeI64 value.seconds
        writeU32 value.nanoseconds
      else throw (invalidData "PackFile timestamp nanoseconds are out of range")
  | none => writeU8 0

def writeMany {α : Type} (write : α → Encoder Unit) (values : List α) : Encoder Unit := do
  writeCount values.length
  writeEach write values

def writeStrings : List String → Encoder Unit := writeMany writeString

def writePaths : List PathBytes → Encoder Unit := writeMany writePath

end Encoder

namespace Decoder

def readU8 : Decoder UInt8 := do
  let bytes ← readExact 1
  pure (bytes.getD 0 0)

def readBool : Decoder Bool := do
  match ← readU8 with
  | 0 => pure false
  | 1 => pure true
  | _ => failure

def readU32 : Decoder UInt32 := do
  let bytes ← readExact 4
  pure (UInt32.ofNat (ofLittleEndian bytes))

def readU64 : Decoder UInt64 := do
  let bytes ← readExact 8
  pure (UInt64.ofNat (ofLittleEndian bytes))

def readI64 : Decoder Int64 := do
  let value ← readU64
  pure value.toInt64

def readCount : Decoder Nat := do
  let count ← readU32
  if count.toNat ≤ maxCollectionEntries then pure count.toNat else failure

def readBytesWithLimit (limit : Nat) : Decoder (List UInt8) := do
  let length ← readU32
  if limit < length.toNat then failure else readExact length.toNat

def readBytes : Decoder (List UInt8) := readBytesWithLimit maxFieldBytes

/-- `String::from_utf8` -/
def fromUtf8 (bytes : List UInt8) : Option String := String.fromUTF8? ⟨bytes.toArray⟩

def readString : Decoder String := do
  let bytes ← readBytes
  StateT.lift (fromUtf8 bytes)

def readRecordString : Decoder String := do
  let bytes ← readBytesWithLimit maxRecordBytes
  StateT.lift (fromUtf8 bytes)

def readPath : Decoder PathBytes := readBytes

def readOptional {α : Type} (read : Decoder α) : Decoder (Option α) := do
  match ← readU8 with
  | 0 => pure none
  | 1 => do
      let value ← read
      pure (some value)
  | _ => failure

def readOptionalBytes : Decoder (Option (List UInt8)) := readOptional readBytes

def readOptionalString : Decoder (Option String) := readOptional readString

def readOptionalRecordString : Decoder (Option String) := readOptional readRecordString

def readOptionalU64 : Decoder (Option UInt64) := readOptional readU64

def readOptionalTimestamp : Decoder (Option TimestampDto) := do
  match ← readU8 with
  | 0 => pure none
  | 1 => do
      let seconds ← readI64
      let nanoseconds ← readU32
      if nanoseconds < 1000000000 then pure (some ⟨seconds, nanoseconds⟩) else failure
  | _ => failure

def readMany {α : Type} (read : Decoder α) : Decoder (List α) := do
  let count ← readCount
  readTimes read count

def readStrings : Decoder (List String) := readMany readString

def readPaths : Decoder (List PathBytes) := readMany readPath

end Decoder

open Encoder Decoder

theorem reads_u8 (value : UInt8) : Reads (writeU8 value) readU8 value :=
  (reads_writeRaw [value]).map _

theorem reads_u32 (value : UInt32) : Reads (writeU32 value) readU32 value := by
  have hvalue : UInt32.ofNat (ofLittleEndian (Codec.littleEndian 4 value.toNat)) = value := by
    rw [ofLittleEndian_littleEndian value.toNat_lt, UInt32.ofNat_toNat]
  have h := (reads_writeRaw (ε := IoError) (Codec.littleEndian 4 value.toNat)).map
    fun bytes => UInt32.ofNat (ofLittleEndian bytes)
  rw [length_littleEndian, hvalue] at h
  exact h

theorem reads_u64 (value : UInt64) : Reads (writeU64 value) readU64 value := by
  have hvalue : UInt64.ofNat (ofLittleEndian (Codec.littleEndian 8 value.toNat)) = value := by
    rw [ofLittleEndian_littleEndian value.toNat_lt, UInt64.ofNat_toNat]
  have h := (reads_writeRaw (ε := IoError) (Codec.littleEndian 8 value.toNat)).map
    fun bytes => UInt64.ofNat (ofLittleEndian bytes)
  rw [length_littleEndian, hvalue] at h
  exact h

theorem reads_i64 (value : Int64) : Reads (writeI64 value) readI64 value :=
  (reads_u64 value.toUInt64).map UInt64.toInt64

theorem reads_bool (value : Bool) : Reads (writeBool value) readBool value := by
  cases value
  · exact (reads_u8 0).last rfl
  · exact (reads_u8 1).last rfl

theorem reads_count (value : Nat) : Reads (writeCount value) readCount value := by
  unfold writeCount
  split_ifs with hbound hlarge
  · exact Reads.throw _
  · exact Reads.throw _
  · have hvalue : (UInt32.ofNat value).toNat = value := UInt32.toNat_ofNat_of_lt' (by rw [UInt32.size]; omega)
    refine (reads_u32 _).last ?_
    rw [hvalue, if_pos (by omega)]

theorem reads_bytesWithLimit (value : List UInt8) (limit : Nat) :
    Reads (writeBytesWithLimit value limit) (readBytesWithLimit limit) value := by
  unfold writeBytesWithLimit
  split_ifs with hbound hlarge
  · exact Reads.throw _
  · exact Reads.throw _
  · have hlength : (UInt32.ofNat value.length).toNat = value.length :=
      UInt32.toNat_ofNat_of_lt' (by rw [UInt32.size]; omega)
    refine (reads_u32 _).bind ?_
    rw [hlength, if_neg hbound]
    exact reads_writeRaw value

theorem fromUtf8_utf8Bytes (text : String) : fromUtf8 (utf8Bytes text) = some text := by
  have hbytes : (⟨(utf8Bytes text).toArray⟩ : ByteArray) = text.toByteArray := by
    rw [utf8Bytes, Array.toArray_toList]
  rw [fromUtf8, hbytes, String.fromUTF8?, dif_pos text.isValidUTF8]
  rfl

theorem utf8Bytes_of_fromUtf8 {bytes : List UInt8} {text : String} (h : fromUtf8 bytes = some text) :
    utf8Bytes text = bytes := by
  unfold fromUtf8 String.fromUTF8? at h
  split at h
  · cases h
    rfl
  · cases h

theorem reads_utf8 {write : Encoder Unit} {read : Decoder (List UInt8)} {text : String}
    (h : Reads write read (utf8Bytes text)) :
    Reads write (do
      let bytes ← read
      StateT.lift (fromUtf8 bytes)) text := by
  refine h.last ?_
  rw [fromUtf8_utf8Bytes]
  rfl

theorem reads_string (value : String) : Reads (writeString value) readString value :=
  reads_utf8 (reads_bytesWithLimit (utf8Bytes value) maxFieldBytes)

theorem reads_recordString (value : String) :
    Reads (writeRecordString value) readRecordString value :=
  reads_utf8 (reads_bytesWithLimit (utf8Bytes value) maxRecordBytes)

theorem reads_path (value : PathBytes) : Reads (writePath value) readPath value :=
  reads_bytesWithLimit value maxFieldBytes

theorem reads_optional {α : Type} {write : α → Encoder Unit} {read : Decoder α}
    (h : ∀ value, Reads (write value) read value) (value : Option α) :
    Reads (writeOptional write value) (readOptional read) value := by
  cases value with
  | none => exact (reads_u8 0).last rfl
  | some value => exact (reads_u8 1).bind ((h value).map some)

theorem reads_optionalTimestamp (value : Option TimestampDto) :
    Reads (writeOptionalTimestamp value) readOptionalTimestamp value := by
  cases value with
  | none => exact (reads_u8 0).last rfl
  | some value =>
    dsimp only [writeOptionalTimestamp]
    split_ifs with hrange
    · refine (reads_u8 1).bind ((reads_i64 value.seconds).bind ((reads_u32 value.nanoseconds).last ?_))
      rw [if_pos hrange]
    · exact Reads.throw _

theorem reads_many {α : Type} {write : α → Encoder Unit} {read : Decoder α} {values : List α}
    (h : ∀ value ∈ values, Reads (write value) read value) :
    Reads (writeMany write values) (readMany read) values :=
  (reads_count values.length).bind (reads_writeEach h)

theorem reads_strings (values : List String) : Reads (writeStrings values) readStrings values :=
  reads_many fun value _ => reads_string value

theorem reads_paths (values : List PathBytes) : Reads (writePaths values) readPaths values :=
  reads_many fun value _ => reads_path value

theorem canonical_u8 : Canonical readU8 writeU8 := by
  refine Accepts.step (accepts_readExact 1) fun bytes encoder hbytes => Accepts.pure ?_
  obtain ⟨hlength, rfl⟩ := hbytes
  obtain ⟨byte, rfl⟩ := List.length_eq_one_iff.mp hlength
  exact bind_pure_unit

theorem canonical_u32 : Canonical readU32 writeU32 := by
  refine Accepts.step (accepts_readExact 4) fun bytes encoder hbytes => Accepts.pure ?_
  obtain ⟨hlength, rfl⟩ := hbytes
  have hlt := ofLittleEndian_lt bytes
  have hvalue : (UInt32.ofNat (ofLittleEndian bytes)).toNat = ofLittleEndian bytes :=
    UInt32.toNat_ofNat_of_lt' (by rw [hlength] at hlt; exact hlt)
  rw [writeU32, hvalue, ← hlength, littleEndian_ofLittleEndian]
  exact bind_pure_unit

theorem canonical_u64 : Canonical readU64 writeU64 := by
  refine Accepts.step (accepts_readExact 8) fun bytes encoder hbytes => Accepts.pure ?_
  obtain ⟨hlength, rfl⟩ := hbytes
  have hlt := ofLittleEndian_lt bytes
  have hvalue : (UInt64.ofNat (ofLittleEndian bytes)).toNat = ofLittleEndian bytes :=
    UInt64.toNat_ofNat_of_lt' (by rw [hlength] at hlt; exact hlt)
  rw [writeU64, hvalue, ← hlength, littleEndian_ofLittleEndian]
  exact bind_pure_unit

theorem canonical_i64 : Canonical readI64 writeI64 :=
  Accepts.map UInt64.toInt64 canonical_u64 fun _ => rfl

/-- A tag is read first, and its cases are told apart. -/
theorem accepts_tag {α : Type} {k : UInt8 → Decoder α} {fits : α → Encoder Unit → Prop}
    (h : ∀ tag, Accepts (k tag) fun value encoder => fits value (writeU8 tag >>= fun _ => encoder)) :
    Accepts (readU8 >>= k) fits :=
  Accepts.bind canonical_u8 h

theorem canonical_bool : Canonical readBool writeBool := by
  refine accepts_tag fun tag => ?_
  split
  · exact Accepts.pure bind_pure_unit
  · exact Accepts.pure bind_pure_unit
  · exact Accepts.failure

theorem accepts_count : Accepts readCount fun count encoder =>
    count ≤ maxCollectionEntries ∧ encoder = writeCount count := by
  refine Accepts.bind canonical_u32 fun count => ?_
  split_ifs with hbound
  · refine Accepts.pure ⟨hbound, ?_⟩
    have hlt := count.toNat_lt
    rw [writeCount, if_neg (by omega), if_neg (by omega), UInt32.ofNat_toNat]
    exact bind_pure_unit
  · exact Accepts.failure

theorem canonical_count : Canonical readCount writeCount :=
  accepts_count.mono fun _ _ h => h.2

theorem canonical_bytesWithLimit (limit : Nat) :
    Canonical (readBytesWithLimit limit) (writeBytesWithLimit · limit) := by
  refine Accepts.bind canonical_u32 fun length => ?_
  split_ifs with hbound
  · exact Accepts.failure
  · refine (accepts_readExact length.toNat).mono fun value encoder h => ?_
    obtain ⟨hlength, rfl⟩ := h
    have hlt := length.toNat_lt
    dsimp only [writeBytesWithLimit]
    rw [if_neg (by omega), if_neg (by omega), hlength, UInt32.ofNat_toNat]

theorem canonical_utf8 {write : List UInt8 → Encoder Unit} {read : Decoder (List UInt8)}
    (h : Canonical read write) :
    Canonical (do
      let bytes ← read
      StateT.lift (fromUtf8 bytes)) fun text => write (utf8Bytes text) := by
  refine Accepts.bind h fun bytes => ?_
  cases htext : fromUtf8 bytes with
  | none => exact Accepts.failure
  | some text =>
    rw [← utf8Bytes_of_fromUtf8 htext]
    exact Accepts.pure bind_pure_unit

theorem canonical_string : Canonical readString writeString :=
  canonical_utf8 (canonical_bytesWithLimit maxFieldBytes)

theorem canonical_recordString : Canonical readRecordString writeRecordString :=
  canonical_utf8 (canonical_bytesWithLimit maxRecordBytes)

theorem canonical_path : Canonical readPath writePath := canonical_bytesWithLimit maxFieldBytes

theorem canonical_optional {α : Type} {write : α → Encoder Unit} {read : Decoder α}
    (h : Canonical read write) : Canonical (readOptional read) (writeOptional write) := by
  refine accepts_tag fun tag => ?_
  split
  · exact Accepts.pure bind_pure_unit
  · exact Accepts.map some h fun _ => rfl
  · exact Accepts.failure

theorem canonical_optionalTimestamp :
    Canonical readOptionalTimestamp writeOptionalTimestamp := by
  refine accepts_tag fun tag => ?_
  split
  · exact Accepts.pure bind_pure_unit
  · refine Accepts.bind canonical_i64 fun seconds => Accepts.bind canonical_u32 fun nanoseconds => ?_
    split_ifs with hrange
    · refine Accepts.pure ?_
      simp only [writeOptionalTimestamp, if_pos hrange, bind_pure_unit]
    · exact Accepts.failure
  · exact Accepts.failure

theorem accepts_many {α : Type} {write : α → Encoder Unit} {read : Decoder α} {P : α → Prop}
    (h : Accepts read fun value encoder => P value ∧ encoder = write value) :
    Accepts (readMany read) fun values encoder =>
      (∀ value ∈ values, P value) ∧ encoder = writeMany write values := by
  refine Accepts.bind canonical_count fun count =>
    (accepts_readTimes h count).mono fun values encoder hvalues => ?_
  obtain ⟨rfl, hall, rfl⟩ := hvalues
  exact ⟨hall, rfl⟩

theorem canonical_many {α : Type} {write : α → Encoder Unit} {read : Decoder α}
    (h : Canonical read write) : Canonical (readMany read) (writeMany write) :=
  (accepts_many (P := fun _ => True) (h.mono fun _ _ hvalue => ⟨trivial, hvalue⟩)).mono
    fun _ _ h => h.2

theorem canonical_strings : Canonical readStrings writeStrings := canonical_many canonical_string

theorem canonical_paths : Canonical readPaths writePaths := canonical_many canonical_path

end Unpack
