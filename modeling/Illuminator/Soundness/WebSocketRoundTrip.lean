import Illuminator.Soundness.WebSocketFrames

/-! # The frame codec's round trip

An encoded frame declares itself: its opening octets say that it carries the payload's length, in
the shortest of three forms. A client's frame sets the mask bit, inserts its key and masks the
payload. Decoding either, with anything after it, returns the payload; decoding any part of either
that stops short of its end returns nothing.
-/

namespace Illuminator

namespace WebSocketCodec

/-- The opening octets with the mask bit set. -/
def setMask : Bytes → Bytes
  | b0 :: b1 :: field => b0 :: (b1 ||| 0x80) :: field
  | short => short

/-- The payload under a mask key, applied cyclically. -/
def maskPayload (key : Fin 4 → UInt8) (payload : Bytes) : Bytes :=
  payload.mapIdx fun i byte => byte ^^^ key (.ofNat 4 i)

/-- A client's form of an encoded frame. -/
def maskedFrame (payload : Bytes) (opcode : WsOpcode) (key : Fin 4 → UInt8) : Bytes :=
  setMask (frameHeader opcode (.ofNat payload.length)) ++ List.ofFn key ++ maskPayload key payload

private theorem low_byte (x : UInt64) : (x &&& 0xFF).toUInt8 = UInt8.ofNat x.toNat := by
  apply UInt8.toNat_inj.mp
  have mask : (0xFF : UInt64).toNat = 2 ^ 8 - 1 := rfl
  rw [UInt64.toNat_toUInt8, UInt64.toNat_and, mask, Nat.and_two_pow_sub_one_eq_mod, UInt8.toNat_ofNat']
  omega

private theorem shifted_byte {n i : ℕ} (bound : n ≤ maxSize) (small : i < 8) :
    ((UInt64.ofNat n >>> (8 * UInt64.ofNat i)) &&& 0xFF).toUInt8 = UInt8.ofNat (n / 256 ^ i) := by
  have shift : (8 * UInt64.ofNat i).toNat = 8 * i := by
    rw [UInt64.toNat_mul, UInt64.toNat_ofNat']
    change 8 * (i % 2 ^ 64) % 2 ^ 64 = 8 * i
    omega
  have width : (256 : ℕ) ^ i = 2 ^ (8 * i) := by rw [pow_mul]; rfl
  rw [low_byte, UInt64.toNat_shiftRight, shift, Nat.mod_eq_of_lt (by omega), Nat.shiftRight_eq_div_pow, width,
    UInt64.toNat_ofNat', Nat.mod_eq_of_lt (by unfold maxSize at bound; omega)]

private theorem mask_octet : ∀ b : BitVec 8, b < 128#8 →
    (b ||| 0x80#8) &&& 0x7F#8 = b ∧ b &&& 0x7F#8 = b ∧ (b ||| 0x80#8) &&& 0x80#8 ≠ 0#8 ∧ b &&& 0x80#8 = 0#8 := by
  decide +kernel

/-- The mask bit of a second octet is apart from its length. -/
theorem second_octet {b : UInt8} (small : b < 128) :
    (b ||| 0x80) &&& 0x7F = b ∧ b &&& 0x7F = b ∧ ((b ||| 0x80) &&& 0x80 != 0) = true ∧ (b &&& 0x80 != 0) = false := by
  obtain ⟨lowered, low, set, clear⟩ := mask_octet b.toBitVec small
  refine ⟨UInt8.toBitVec_inj.mp lowered, UInt8.toBitVec_inj.mp low, ?_, ?_⟩
  · exact bne_iff_ne.mpr fun same => set (congrArg UInt8.toBitVec same)
  · exact bne_eq_false_iff_eq.mpr (UInt8.toBitVec_inj.mp clear)

/-- The three forms of an opening: the second octet, and the length field it announces. -/
theorem frameHeader_eq (opcode : WsOpcode) {n : ℕ} (bound : n ≤ maxSize) :
    ∃ b1 : UInt8, b1 < 128 ∧ frameHeader opcode (.ofNat n) =
        (0x80 ||| opcode.value) :: b1 :: BigEndian.digits (lengthWidth b1) n ∧
      (if lengthWidth b1 = 0 then b1.toNat = n else n < 256 ^ lengthWidth b1) := by
  have len : (UInt64.ofNat n).toNat = n := by
    rw [UInt64.toNat_ofNat', Nat.mod_eq_of_lt (by unfold maxSize at bound; omega)]
  unfold frameHeader
  split_ifs with tiny short
  · have small : n ≤ 125 := by rwa [UInt64.le_iff_toNat_le, len] at tiny
    have octet : (UInt64.ofNat n).toUInt8.toNat = n := by
      rw [UInt64.toNat_toUInt8, len]
      omega
    have under : (UInt64.ofNat n).toUInt8 < 128 := by
      rw [UInt8.lt_iff_toNat_lt, octet]
      change n < 128
      omega
    obtain ⟨_, low, _⟩ := second_octet under
    have other (b : UInt8) (above : 125 < b.toNat) : (UInt64.ofNat n).toUInt8 ≠ b := by
      intro same
      rw [← same, octet] at above
      omega
    have zero : lengthWidth (UInt64.ofNat n).toUInt8 = 0 := by
      rw [lengthWidth, low, if_neg (other 126 (by decide)), if_neg (other 127 (by decide))]
    refine ⟨(UInt64.ofNat n).toUInt8, under, ?_, ?_⟩
    · rw [zero]
      rfl
    · rw [if_pos zero, octet]
  · have small : n ≤ 65535 := by rwa [UInt64.le_iff_toNat_le, len] at short
    refine ⟨126, by decide, ?_, ?_⟩
    · have high := shifted_byte (i := 1) bound (by decide)
      have low := shifted_byte (i := 0) bound (by decide)
      rw [show (8 * UInt64.ofNat 1) = 8 from rfl] at high
      rw [show UInt64.ofNat n >>> (8 * UInt64.ofNat 0) = UInt64.ofNat n from UInt64.shiftRight_zero] at low
      rw [high, low]
      rfl
    · change n < 256 ^ 2
      omega
  · refine ⟨127, by decide, ?_, ?_⟩
    · have field : (List.range 8).reverse.map (fun i => ((UInt64.ofNat n >>> (8 * UInt64.ofNat i)) &&& 0xFF).toUInt8) =
          BigEndian.digits 8 n := by
        apply List.map_congr_left
        intro i member
        exact shifted_byte bound (List.mem_range.mp (List.mem_reverse.mp member))
      rw [field]
      rfl
    · change n < 256 ^ 8
      unfold maxSize at bound
      omega

/-- An opening declares the length it was made from, whatever its mask bit and whatever follows. -/
theorem declared_opening (b0 : UInt8) {b1 b : UInt8} {n : ℕ} (tail : Bytes) (small : b1 < 128)
    (same : b &&& 0x7F = b1)
    (length : if lengthWidth b1 = 0 then b1.toNat = n else n < 256 ^ lengthWidth b1) :
    declared (b0 :: b :: (BigEndian.digits (lengthWidth b1) n ++ tail)) =
      some ⟨b &&& 0x80 != 0, lengthWidth b1, n⟩ := by
  have width : lengthWidth b = lengthWidth b1 := by
    rw [lengthWidth, lengthWidth, same, (second_octet small).2.1]
  have enough : ¬ (BigEndian.digits (lengthWidth b1) n ++ tail).length < lengthWidth b1 := by
    rw [List.length_append, BigEndian.digits_length]
    omega
  have field : (BigEndian.digits (lengthWidth b1) n ++ tail).take (lengthWidth b1) =
      BigEndian.digits (lengthWidth b1) n :=
    List.take_left' (BigEndian.digits_length ..)
  simp only [declared, width, if_neg enough, field, same, BigEndian.value_digits, Option.some.injEq,
    Declared.mk.injEq, true_and]
  split_ifs at length ⊢ with zero
  · exact length
  · exact Nat.mod_eq_of_lt length

theorem declared_frameHeader (opcode : WsOpcode) {n : ℕ} (bound : n ≤ maxSize) :
    ∃ d, (∀ tail, declared (frameHeader opcode (.ofNat n) ++ tail) = some d) ∧ d.masked = false ∧ d.payload = n ∧
      d.header = (frameHeader opcode (.ofNat n)).length := by
  obtain ⟨b1, small, header, length⟩ := frameHeader_eq opcode bound
  obtain ⟨_, low, _, clear⟩ := second_octet small
  refine ⟨⟨b1 &&& 0x80 != 0, lengthWidth b1, n⟩, ?_, clear, rfl, ?_⟩
  · intro tail
    rw [header]
    exact declared_opening _ tail small low length
  · rw [header, Declared.header, clear]
    simp only [List.length_cons, BigEndian.digits_length, Bool.false_eq_true, ↓reduceIte]
    omega

theorem declared_setMask (opcode : WsOpcode) {n : ℕ} (bound : n ≤ maxSize) :
    ∃ d, (∀ tail, declared (setMask (frameHeader opcode (.ofNat n)) ++ tail) = some d) ∧ d.masked = true ∧ d.payload = n ∧
      d.header = (setMask (frameHeader opcode (.ofNat n))).length + 4 := by
  obtain ⟨b1, small, header, length⟩ := frameHeader_eq opcode bound
  obtain ⟨lowered, _, set, _⟩ := second_octet small
  refine ⟨⟨(b1 ||| 0x80) &&& 0x80 != 0, lengthWidth b1, n⟩, ?_, set, rfl, ?_⟩
  · intro tail
    rw [header]
    exact declared_opening _ tail small lowered length
  · rw [header, Declared.header, set, setMask]
    simp only [List.length_cons, BigEndian.digits_length, ↓reduceIte]
    omega

/-- What follows the header of a complete frame is its payload, masked with the header's last four
octets or as it is. -/
theorem bytes_append {d : Declared} {front body : Bytes} (suffix : Bytes) (header : d.header = front.length)
    (payload : d.payload = body.length) (key : Fin 4 → UInt8)
    (ends : d.masked = true → ∀ i, front.getD (d.header - 4 + i % 4) 0 = key (.ofNat 4 i)) :
    d.bytes (front ++ body ++ suffix) = if d.masked then maskPayload key body else body := by
  have at_body (i : ℕ) (inside : i < body.length) : (front ++ body ++ suffix).getD (d.header + i) 0 = body[i] := by
    rw [header, List.append_assoc, List.getD_append_right _ _ _ _ (Nat.le_add_right ..), Nat.add_sub_cancel_left,
      List.getD_append _ _ _ _ inside, List.getD_eq_getElem _ _ inside]
  by_cases masked : d.masked = true
  · have at_key (i : ℕ) : (front ++ body ++ suffix).getD (d.header - 4 + i % 4) 0 = key (.ofNat 4 i) := by
      have inside : d.header - 4 + i % 4 < front.length := by
        have enough : 4 ≤ d.header := by
          rw [Declared.header, if_pos masked]
          exact Nat.le_add_left ..
        omega
      rw [List.append_assoc, List.getD_append _ _ _ _ inside, ends masked]
    rw [if_pos masked]
    apply List.ext_getElem
    · simp only [Declared.bytes, maskPayload, List.length_map, List.length_range, List.length_mapIdx, payload]
    · intro i lower upper
      have inside : i < body.length := by simpa only [maskPayload, List.length_mapIdx] using upper
      simp only [Declared.bytes, maskPayload, List.getElem_map, List.getElem_range, List.getElem_mapIdx, masked,
        ↓reduceIte, at_body i inside, at_key i]
  · rw [if_neg masked]
    apply List.ext_getElem
    · simp only [Declared.bytes, List.length_map, List.length_range, payload]
    · intro i lower inside
      simp only [Declared.bytes, List.getElem_map, List.getElem_range, Bool.eq_false_iff.mpr masked,
        Bool.false_eq_true, ↓reduceIte, at_body i inside]

/-- Masking twice with one key changes nothing. -/
theorem maskPayload_maskPayload (key : Fin 4 → UInt8) (payload : Bytes) :
    maskPayload key (maskPayload key payload) = payload := by
  apply List.ext_getElem
  · simp only [maskPayload, List.length_mapIdx]
  · intro i lower upper
    simp only [maskPayload, List.getElem_mapIdx, UInt8.xor_assoc, UInt8.xor_self, UInt8.xor_zero]

private theorem first_octet {opcode : WsOpcode} (four : opcode.value < 16) :
    (0x80 ||| opcode.value) &&& 0x0F = opcode.value ∧ ((0x80 ||| opcode.value) &&& 0x80 != 0) = true := by
  have octets : ∀ b : BitVec 8, b < 16#8 → (0x80#8 ||| b) &&& 0x0F#8 = b ∧ (0x80#8 ||| b) &&& 0x80#8 ≠ 0#8 := by
    decide +kernel
  obtain ⟨low, set⟩ := octets opcode.value.toBitVec four
  exact ⟨UInt8.toBitVec_inj.mp low, bne_iff_ne.mpr fun same => set (congrArg UInt8.toBitVec same)⟩

/-- A prefix of a buffer declares nothing, or what the buffer declares. -/
theorem declared_prefix {cut data : Bytes} (before : cut <+: data) : declared cut = none ∨ declared cut = declared data := by
  obtain ⟨tail, rfl⟩ := before
  rcases cut with _ | ⟨b0, _ | ⟨b1, rest⟩⟩
  · exact Or.inl rfl
  · exact Or.inl rfl
  · by_cases incomplete : rest.length < lengthWidth b1
    · left
      rw [declared, if_pos incomplete]
    · right
      have longer : ¬ (rest ++ tail).length < lengthWidth b1 := by
        rw [List.length_append]
        omega
      rw [List.cons_append, List.cons_append, declared, declared, if_neg incomplete, if_neg longer,
        List.take_append_of_le_length (not_lt.mp incomplete)]

/-- A buffer that stops short of the end of the frame it begins decodes to nothing. -/
theorem DecodeFrame_cut {cut data : Bytes} {d : Declared} (before : cut <+: data) (found : declared data = some d)
    (bound : data.length < 2 ^ 64) (ends : data.length = d.total) (short : cut ≠ data) :
    DecodeFrame cut = .ok (none, 0) := by
  have less : cut.length < data.length := lt_of_le_of_ne before.length_le fun same => short (before.eq_of_length same)
  rcases declared_prefix before with missing | same
  · exact DecodeFrame_undeclared missing (by omega)
  · apply DecodeFrame_incomplete (same.trans found) (by omega)
    omega

/-- A frame made of a header that declares it and a payload decodes as declared. -/
private theorem decode_framed {front body : Bytes} (suffix : Bytes) {d : Declared} {opcode : WsOpcode}
    (four : opcode.value < 16) (key : Fin 4 → UInt8) (found : ∀ tail, declared (front ++ tail) = some d)
    (opening : ∀ tail : Bytes, (front ++ tail).headD 0 = 0x80 ||| opcode.value) (header : d.header = front.length)
    (payload : d.payload = body.length)
    (ends : d.masked = true → ∀ i, front.getD (d.header - 4 + i % 4) 0 = key (.ofNat 4 i))
    (bound : (front ++ body ++ suffix).length ≤ maxSize) :
    DecodeFrame (front ++ body ++ suffix) =
        .ok (some ⟨opcode, true, if d.masked then maskPayload key body else body⟩, .ofNat (front ++ body).length) ∧
      ∀ cut, cut <+: front ++ body → cut ≠ front ++ body → DecodeFrame cut = .ok (none, 0) := by
  have total : (front ++ body).length = d.total := by
    rw [List.length_append, ← header, ← payload, Declared.total]
  constructor
  · obtain ⟨low, set⟩ := first_octet four
    have here : declared (front ++ body ++ suffix) = some d := by
      rw [List.append_assoc]
      exact found (body ++ suffix)
    have first : (front ++ body ++ suffix).headD 0 = 0x80 ||| opcode.value := by
      rw [List.append_assoc]
      exact opening (body ++ suffix)
    have fits : d.total ≤ (front ++ body ++ suffix).length := by
      rw [List.length_append, total]
      exact Nat.le_add_right ..
    rw [DecodeFrame_complete here (lt_of_le_maxSize bound) fits (payload_le bound fits), Declared.frame, first, low, set,
      bytes_append suffix header payload key ends, total]
  · intro cut before short
    rw [List.length_append] at bound
    exact DecodeFrame_cut before (found body) (lt_of_le_maxSize (by omega)) total short

private theorem headD_setMask (front tail : Bytes) : (setMask front ++ tail).headD 0 = (front ++ tail).headD 0 := by
  rcases front with _ | ⟨b0, _ | ⟨b1, field⟩⟩ <;> rfl

private theorem setMask_length (front : Bytes) : (setMask front).length = front.length := by
  rcases front with _ | ⟨b0, _ | ⟨b1, field⟩⟩ <;> rfl

/-- Decoding an encoded frame, or its masked form, with anything after it, returns the frame and
consumes exactly it; a strict prefix of either decodes to nothing. -/
theorem codec_round_trip (payload suffix : Bytes) (opcode : WsOpcode) (key : Fin 4 → UInt8)
    (four : opcode.value < 16) (bound : (maskedFrame payload opcode key ++ suffix).length ≤ maxSize) :
    ∀ frame ∈ [EncodeFrame payload opcode, maskedFrame payload opcode key],
      DecodeFrame (frame ++ suffix) = .ok (some ⟨opcode, true, payload⟩, .ofNat frame.length) ∧
        ∀ cut, cut <+: frame → cut ≠ frame → DecodeFrame cut = .ok (none, 0) := by
  have lengths : (maskedFrame payload opcode key).length = (EncodeFrame payload opcode).length + 4 := by
    simp only [maskedFrame, EncodeFrame, maskPayload, List.length_append, setMask_length, List.length_ofFn,
      List.length_mapIdx]
    omega
  have longest : payload.length + suffix.length + 4 ≤ maxSize := by
    rw [List.length_append, lengths, EncodeFrame, List.length_append] at bound
    omega
  intro frame member
  rcases List.mem_cons.mp member with rfl | member
  · obtain ⟨d, found, plain, length, header⟩ := declared_frameHeader opcode (n := payload.length) (by omega)
    have fits : (EncodeFrame payload opcode ++ suffix).length ≤ maxSize := by
      rw [List.length_append, lengths] at bound
      rw [List.length_append]
      omega
    have decoded := decode_framed suffix four key found (fun _ => rfl) header length
      (fun masked => absurd masked (by rw [plain]; decide)) fits
    rwa [plain] at decoded
  · rw [List.mem_singleton.mp member]
    obtain ⟨d, declares, masked, length, header⟩ := declared_setMask opcode (n := payload.length) (by omega)
    have found (tail : Bytes) :
        declared (setMask (frameHeader opcode (.ofNat payload.length)) ++ List.ofFn key ++ tail) = some d := by
      rw [List.append_assoc]
      exact declares _
    have ends (i : ℕ) : (setMask (frameHeader opcode (.ofNat payload.length)) ++ List.ofFn key).getD
        (d.header - 4 + i % 4) 0 = key (.ofNat 4 i) := by
      have inside : i % 4 < (List.ofFn key).length := by
        rw [List.length_ofFn]
        omega
      rw [header, Nat.add_sub_cancel, List.getD_append_right _ _ _ _ (Nat.le_add_right ..), Nat.add_sub_cancel_left,
        List.getD_eq_getElem _ _ inside, List.getElem_ofFn]
      rfl
    have decoded := decode_framed suffix four key found
      (fun tail => by rw [List.append_assoc, headD_setMask]; rfl)
      (by rw [header, List.length_append, List.length_ofFn])
      (show d.payload = (maskPayload key payload).length by rw [length, maskPayload, List.length_mapIdx])
      (fun _ => ends) bound
    rw [if_pos masked, maskPayload_maskPayload] at decoded
    exact decoded

def countingKey (i : Fin 4) : UInt8 := .ofNat (i + 1)

theorem codec_round_trip_hi :
    maskedFrame [0x48, 0x69] .kText countingKey = [0x81, 0x82, 1, 2, 3, 4, 0x49, 0x6B] ∧
      ∀ frame ∈ [EncodeFrame [0x48, 0x69] .kText, maskedFrame [0x48, 0x69] .kText countingKey],
        DecodeFrame (frame ++ [0x81]) = .ok (some ⟨.kText, true, [0x48, 0x69]⟩, .ofNat frame.length) ∧
          ∀ cut, cut <+: frame → cut ≠ frame → DecodeFrame cut = .ok (none, 0) :=
  ⟨by decide, codec_round_trip [0x48, 0x69] [0x81] .kText countingKey (by decide) (by decide)⟩

end WebSocketCodec

end Illuminator
