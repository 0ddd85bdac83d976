import Mathlib.Data.List.Basic
import Mathlib.Data.Nat.Basic
import Mathlib.Tactic.Ring

/-! Binary codecs. An encoder appends to the bytes written so far or fails, a decoder takes a value from
the front of the bytes that are left or rejects them. Two laws bind an encoder to its decoder: what is
written is read back whatever follows it, and what is accepted is what the encoder writes. Both laws are
proved along the steps of the encoder and the decoder. -/

namespace Codec

abbrev Encoder (ε : Type) := StateT (List UInt8) (Except ε)

abbrev Decoder := StateT (List UInt8) Option

variable {ε α β : Type}

/-- The encoder appends these bytes. -/
def Writes (encoder : Encoder ε Unit) (bytes : List UInt8) : Prop :=
  ∀ out, encoder.run out = .ok ((), out ++ bytes)

/-- What the encoder appends, the decoder reads as this value, and leaves what follows. -/
def Reads (encoder : Encoder ε Unit) (decoder : Decoder α) (value : α) : Prop :=
  ∀ out out', encoder.run out = .ok ((), out') →
    ∃ bytes, out' = out ++ bytes ∧ ∀ rest, decoder.run (bytes ++ rest) = some (value, rest)

/-- The bytes that the decoder takes for a value are written by an encoder that fits the value. -/
def Accepts (decoder : Decoder α) (fits : α → Encoder ε Unit → Prop) : Prop :=
  ∀ bytes value rest, decoder.run bytes = some (value, rest) →
    ∃ encoder taken, fits value encoder ∧ Writes encoder taken ∧ bytes = taken ++ rest

/-- Only the bytes that the encoder writes for a value are read as that value. -/
def Canonical (decoder : Decoder α) (encode : α → Encoder ε Unit) : Prop :=
  Accepts decoder fun value encoder => encoder = encode value

namespace Reads

variable {e e₁ e₂ : Encoder ε Unit} {d : Decoder α} {d₁ : Decoder β} {value : α} {first : β}

theorem pure (value : α) : Reads (Pure.pure () : Encoder ε Unit) (Pure.pure value) value := by
  intro out out' h
  cases h
  exact ⟨[], (List.append_nil out).symm, fun rest => rfl⟩

theorem throw (error : ε) : Reads (throw error : Encoder ε Unit) d value := by
  intro out out' h
  cases h

theorem bind {k : β → Decoder α} (h₁ : Reads e₁ d₁ first) (h₂ : Reads e₂ (k first) value) :
    Reads (e₁ >>= fun _ => e₂) (d₁ >>= k) value := by
  intro out out' h
  obtain ⟨middle, hfirst, hsecond⟩ : ∃ middle, e₁.run out = .ok ((), middle) ∧
      e₂.run middle = .ok ((), out') := by
    rw [StateT.run_bind] at h
    cases hrun : e₁.run out with
    | error error => simp [hrun, Bind.bind, Except.bind] at h
    | ok result => exact ⟨result.2, rfl, by simpa [hrun, Bind.bind, Except.bind] using h⟩
  obtain ⟨bytes₁, rfl, hread₁⟩ := h₁ out middle hfirst
  obtain ⟨bytes₂, rfl, hread₂⟩ := h₂ _ out' hsecond
  refine ⟨bytes₁ ++ bytes₂, List.append_assoc .., fun rest => ?_⟩
  rw [StateT.run_bind, List.append_assoc, hread₁]
  exact hread₂ rest

/-- The last value that is written, after which the decoder only returns. -/
theorem last {k : β → Decoder α} (h : Reads e d₁ first) (hk : k first = Pure.pure value) :
    Reads e (d₁ >>= k) value := by
  intro out out' hrun
  obtain ⟨bytes, hout, hread⟩ := h out out' hrun
  refine ⟨bytes, hout, fun rest => ?_⟩
  rw [StateT.run_bind, hread]
  change (k first).run rest = _
  rw [hk]
  rfl

theorem map (f : β → α) (h : Reads e d₁ first) :
    Reads e (d₁ >>= fun first => Pure.pure (f first)) (f first) :=
  h.last rfl

theorem of_run (h : ∀ out, ∃ bytes, e.run out = .ok ((), out ++ bytes) ∧
    ∀ rest, d.run (bytes ++ rest) = some (value, rest)) : Reads e d value := by
  intro out out' hrun
  obtain ⟨bytes, hwrite, hread⟩ := h out
  cases hwrite.symm.trans hrun
  exact ⟨bytes, rfl, hread⟩

end Reads

namespace Writes

theorem pure : Writes (Pure.pure () : Encoder ε Unit) [] := fun out => by
  rw [List.append_nil]
  rfl

theorem bind {e₁ e₂ : Encoder ε Unit} {bytes₁ bytes₂ : List UInt8} (h₁ : Writes e₁ bytes₁)
    (h₂ : Writes e₂ bytes₂) : Writes (e₁ >>= fun _ => e₂) (bytes₁ ++ bytes₂) := by
  intro out
  rw [StateT.run_bind, h₁ out, ← List.append_assoc]
  exact h₂ _

end Writes

namespace Accepts

variable {d : Decoder α} {d₁ : Decoder β} {fits fits' : α → Encoder ε Unit → Prop}

theorem pure {value : α} (h : fits value (Pure.pure ())) : Accepts (Pure.pure value) fits := by
  intro bytes value' rest hrun
  cases hrun
  exact ⟨_, [], h, Writes.pure, rfl⟩

theorem failure : Accepts (failure : Decoder α) fits := by
  intro bytes value rest hrun
  cases hrun

theorem mono (h : Accepts d fits) (himp : ∀ value encoder, fits value encoder → fits' value encoder) :
    Accepts d fits' := by
  intro bytes value rest hrun
  obtain ⟨encoder, taken, hfits, hwrites, hbytes⟩ := h bytes value rest hrun
  exact ⟨encoder, taken, himp value encoder hfits, hwrites, hbytes⟩

/-- A step of the decoder, where what the rest of it takes is known by the value of the step. -/
theorem step {first : β → Encoder ε Unit → Prop} {k : β → Decoder α} (h₁ : Accepts d₁ first)
    (h₂ : ∀ value₁ encoder₁, first value₁ encoder₁ →
      Accepts (k value₁) fun value encoder => fits value (encoder₁ >>= fun _ => encoder)) :
    Accepts (d₁ >>= k) fits := by
  intro bytes value rest hrun
  rw [StateT.run_bind] at hrun
  cases hstep : d₁.run bytes with
  | none => simp [hstep] at hrun
  | some result =>
    simp only [hstep, Option.bind_eq_bind, Option.bind_some] at hrun
    obtain ⟨encoder₁, taken₁, hfirst, hwrites₁, rfl⟩ := h₁ bytes result.1 result.2 hstep
    obtain ⟨encoder₂, taken₂, hfits, hwrites₂, hrest⟩ :=
      h₂ result.1 encoder₁ hfirst result.2 value rest hrun
    refine ⟨_, taken₁ ++ taken₂, hfits, hwrites₁.bind hwrites₂, ?_⟩
    rw [hrest, List.append_assoc]

theorem bind {encode₁ : β → Encoder ε Unit} {k : β → Decoder α} (h₁ : Canonical d₁ encode₁)
    (h₂ : ∀ value₁, Accepts (k value₁) fun value encoder =>
      fits value (encode₁ value₁ >>= fun _ => encoder)) : Accepts (d₁ >>= k) fits :=
  step h₁ fun value₁ _ hencoder => hencoder ▸ h₂ value₁

/-- The last value that is read, inside what the decoder returns. -/
theorem map {encode₁ : β → Encoder ε Unit} (f : β → α) (h : Canonical d₁ encode₁)
    (hfits : ∀ first, fits (f first) (encode₁ first)) :
    Accepts (d₁ >>= fun first => Pure.pure (f first)) fits := by
  refine bind h fun first => pure ?_
  have hpure : (encode₁ first >>= fun _ => Pure.pure ()) = encode₁ first := bind_pure _
  rw [hpure]
  exact hfits first

end Accepts

def writeRaw (bytes : List UInt8) : Encoder ε Unit := fun out => .ok ((), out ++ bytes)

def readExact (length : Nat) : Decoder (List UInt8) := fun bytes =>
  if length ≤ bytes.length then some (bytes.take length, bytes.drop length) else none

/-- All bytes have been read. -/
def finish : Decoder Unit := fun bytes => if bytes.isEmpty then some ((), bytes) else none

theorem writes_writeRaw (bytes : List UInt8) : Writes (ε := ε) (writeRaw bytes) bytes := fun _ => rfl

theorem run_readExact_append (bytes rest : List UInt8) :
    (readExact bytes.length).run (bytes ++ rest) = some (bytes, rest) := by
  have hle : bytes.length ≤ (bytes ++ rest).length := by simp
  change (if _ then _ else _) = _
  rw [if_pos hle, List.take_left, List.drop_left]

theorem of_run_readExact {length : Nat} {bytes value rest : List UInt8}
    (h : (readExact length).run bytes = some (value, rest)) :
    value.length = length ∧ bytes = value ++ rest := by
  change (if _ then _ else _) = _ at h
  split at h
  · cases h
    exact ⟨List.length_take_of_le ‹_›, (List.take_append_drop ..).symm⟩
  · cases h

theorem reads_writeRaw (bytes : List UInt8) :
    Reads (ε := ε) (writeRaw bytes) (readExact bytes.length) bytes :=
  Reads.of_run fun _ => ⟨bytes, rfl, run_readExact_append bytes⟩

theorem accepts_readExact (length : Nat) : Accepts (ε := ε) (readExact length)
    fun value encoder => value.length = length ∧ encoder = writeRaw value := by
  intro bytes value rest hrun
  obtain ⟨hlength, hbytes⟩ := of_run_readExact hrun
  exact ⟨_, value, ⟨hlength, rfl⟩, writes_writeRaw value, hbytes⟩

/-- An array of known length. -/
def readArray (length : Nat) : Decoder {bytes : List UInt8 // bytes.length = length} := fun bytes =>
  if h : length ≤ bytes.length then
    some (⟨bytes.take length, List.length_take_of_le h⟩, bytes.drop length)
  else none

theorem reads_readArray {length : Nat} (value : {bytes : List UInt8 // bytes.length = length}) :
    Reads (ε := ε) (writeRaw value.1) (readArray length) value := by
  obtain ⟨bytes, rfl⟩ := value
  refine Reads.of_run fun _ => ⟨bytes, rfl, fun rest => ?_⟩
  have hle : bytes.length ≤ (bytes ++ rest).length := by simp
  change (if h : _ then _ else _) = _
  rw [dif_pos hle]
  simp

def littleEndian : Nat → Nat → List UInt8
  | 0, _ => []
  | width + 1, value => UInt8.ofNat value :: littleEndian width (value / 256)

def ofLittleEndian : List UInt8 → Nat
  | [] => 0
  | byte :: bytes => byte.toNat + 256 * ofLittleEndian bytes

@[simp] theorem length_littleEndian (width value : Nat) : (littleEndian width value).length = width := by
  induction width generalizing value with
  | zero => rfl
  | succ width ih => rw [littleEndian, List.length_cons, ih]

theorem ofLittleEndian_littleEndian {width value : Nat} (h : value < 256 ^ width) :
    ofLittleEndian (littleEndian width value) = value := by
  induction width generalizing value with
  | zero =>
    rw [Nat.pow_zero] at h
    rw [littleEndian, ofLittleEndian]
    omega
  | succ width ih =>
    have hquotient : value / 256 < 256 ^ width := by
      rw [Nat.div_lt_iff_lt_mul (by decide), ← Nat.pow_succ]
      exact h
    have hbyte : (UInt8.ofNat value).toNat = value % 256 := by simp
    rw [littleEndian, ofLittleEndian, ih hquotient, hbyte]
    omega

theorem ofLittleEndian_lt (bytes : List UInt8) : ofLittleEndian bytes < 256 ^ bytes.length := by
  induction bytes with
  | nil => exact Nat.one_pos
  | cons byte bytes ih =>
    have hbyte : byte.toNat < 256 := byte.toNat_lt
    rw [ofLittleEndian, List.length_cons, Nat.pow_succ]
    omega

theorem littleEndian_ofLittleEndian (bytes : List UInt8) :
    littleEndian bytes.length (ofLittleEndian bytes) = bytes := by
  induction bytes with
  | nil => rfl
  | cons byte bytes ih =>
    have hbyte : byte.toNat < 256 := byte.toNat_lt
    have hquotient : (byte.toNat + 256 * ofLittleEndian bytes) / 256 = ofLittleEndian bytes := by omega
    have hhead : UInt8.ofNat (byte.toNat + 256 * ofLittleEndian bytes) = byte := by
      apply UInt8.toNat.inj
      rw [UInt8.toNat_ofNat']
      omega
    rw [ofLittleEndian, List.length_cons, littleEndian, hquotient, hhead, ih]

def writeEach (encode : α → Encoder ε Unit) : List α → Encoder ε Unit
  | [] => pure ()
  | value :: values => do
      encode value
      writeEach encode values

def readTimes (decoder : Decoder α) : Nat → Decoder (List α)
  | 0 => pure []
  | count + 1 => do
      let value ← decoder
      let values ← readTimes decoder count
      pure (value :: values)

theorem reads_writeEach {encode : α → Encoder ε Unit} {decoder : Decoder α} {values : List α}
    (h : ∀ value ∈ values, Reads (encode value) decoder value) :
    Reads (writeEach encode values) (readTimes decoder values.length) values := by
  induction values with
  | nil => exact Reads.pure []
  | cons value values ih =>
    exact (h value List.mem_cons_self).bind
      (Reads.map _ (ih fun other hother => h other (List.mem_cons_of_mem value hother)))

theorem accepts_readTimes {decoder : Decoder α}
    {encode : α → Encoder ε Unit} {P : α → Prop}
    (h : Accepts decoder fun value encoder => P value ∧ encoder = encode value) (count : Nat) :
    Accepts (readTimes decoder count) fun values encoder =>
      values.length = count ∧ (∀ value ∈ values, P value) ∧ encoder = writeEach encode values := by
  induction count with
  | zero => exact Accepts.pure ⟨rfl, by simp, rfl⟩
  | succ count ih =>
    refine Accepts.step h fun value encoder hvalue => Accepts.step ih fun values encoder' hvalues =>
      Accepts.pure ?_
    obtain ⟨hP, rfl⟩ := hvalue
    obtain ⟨hlength, hall, rfl⟩ := hvalues
    refine ⟨by rw [List.length_cons, hlength], ?_, ?_⟩
    · simpa [hP] using hall
    · rw [writeEach]
      congr 1
      funext _
      exact bind_pure _

/-- Every value that is read is like this. -/
def Returns (decoder : Decoder α) (P : α → Prop) : Prop :=
  ∀ bytes value rest, decoder.run bytes = some (value, rest) → P value

namespace Returns

variable {d : Decoder β} {k : β → Decoder α} {P : α → Prop} {Q : β → Prop}

theorem pure {value : α} (h : P value) : Returns (Pure.pure value) P := by
  intro bytes value' rest hrun
  cases hrun
  exact h

theorem failure : Returns (failure : Decoder α) P := by
  intro bytes value rest hrun
  cases hrun

theorem lift {value : Option α} (h : ∀ result, value = some result → P result) :
    Returns (StateT.lift value) P := by
  intro bytes result rest hrun
  cases value with
  | none => cases hrun
  | some value =>
    cases hrun
    exact h result rfl

theorem bind (h₁ : Returns d Q) (h₂ : ∀ first, Q first → Returns (k first) P) : Returns (d >>= k) P := by
  intro bytes value rest hrun
  rw [StateT.run_bind] at hrun
  obtain ⟨result, hfirst, hsecond⟩ := Option.bind_eq_some_iff.mp hrun
  exact h₂ result.1 (h₁ bytes result.1 result.2 hfirst) result.2 value rest hsecond

/-- A step of which nothing has to be known. -/
theorem skip (h : ∀ first, Returns (k first) P) : Returns (d >>= k) P :=
  bind (Q := fun _ => True) (fun _ _ _ _ => trivial) fun first _ => h first

theorem readTimes {d : Decoder α} (h : Returns d P) (count : Nat) :
    Returns (readTimes d count) fun values => ∀ value ∈ values, P value := by
  induction count with
  | zero => exact pure (by simp)
  | succ count ih =>
    exact h.bind fun value hvalue => ih.bind fun values hvalues => pure (by simpa using ⟨hvalue, hvalues⟩)

end Returns

/-- The bytes that an encoder writes from the start. -/
def encodeWhole (encoder : Encoder ε Unit) : Except ε (List UInt8) := do
  let result ← encoder.run []
  pure result.2

/-- The value that a decoder reads, with nothing left after it. -/
def decodeWhole (decoder : Decoder α) (bytes : List UInt8) : Option α := do
  let result ← (do
    let value ← decoder
    finish
    pure value).run bytes
  pure result.1

theorem decodeWhole_of_run {decoder : Decoder α} {bytes rest : List UInt8} {value : α}
    (h : decoder.run bytes = some (value, rest)) :
    decodeWhole decoder bytes = if rest.isEmpty then some value else none := by
  unfold decodeWhole
  rw [StateT.run_bind, h]
  cases rest <;> rfl

theorem run_of_decodeWhole {decoder : Decoder α} {bytes : List UInt8} {value : α}
    (h : decodeWhole decoder bytes = some value) : decoder.run bytes = some (value, []) := by
  cases hrun : decoder.run bytes with
  | none =>
    unfold decodeWhole at h
    simp [StateT.run_bind, hrun] at h
  | some result =>
    rw [decodeWhole_of_run hrun] at h
    split_ifs at h with hempty
    cases h
    rw [List.isEmpty_iff] at hempty
    rw [← hempty]

theorem Reads.whole {encoder : Encoder ε Unit} {decoder : Decoder α} {value : α} {bytes : List UInt8}
    (h : Reads encoder decoder value) (hencode : encodeWhole encoder = .ok bytes) :
    decodeWhole decoder bytes = some value ∧
      ∀ extra, extra ≠ [] → decodeWhole decoder (bytes ++ extra) = none := by
  have hrun : encoder.run [] = .ok ((), bytes) := by
    unfold encodeWhole at hencode
    cases hresult : encoder.run [] with
    | error error => simp [hresult, Bind.bind, Except.bind] at hencode
    | ok result =>
      rw [hresult] at hencode
      cases hencode
      rfl
  obtain ⟨written, rfl, hread⟩ := h [] bytes hrun
  constructor
  · have hwhole := decodeWhole_of_run (hread [])
    rwa [List.append_nil] at hwhole
  · intro extra hextra
    rw [decodeWhole_of_run (hread extra), if_neg (by simpa using hextra)]

theorem Canonical.whole {encode : α → Encoder ε Unit} {decoder : Decoder α} {value : α}
    {bytes : List UInt8} (h : Canonical decoder encode) (hdecode : decodeWhole decoder bytes = some value) :
    encodeWhole (encode value) = .ok bytes := by
  obtain ⟨encoder, taken, rfl, hwrites, hbytes⟩ := h bytes value [] (run_of_decodeWhole hdecode)
  rw [encodeWhole, hwrites [], hbytes, List.append_nil]
  rfl

end Codec
