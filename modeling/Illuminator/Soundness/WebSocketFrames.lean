import Illuminator.Model.WebSocketCodec
import Illuminator.ToMathlib.BigEndian

/-! # What `DecodeFrame` returns for every buffer

A buffer's first octets declare a frame: whether it is masked, how wide its length field is, and how
long its payload. `DecodeFrame` computes the frame's end as a 64-bit sum, so for each buffer one of
four things happens: nothing is declared yet, the frame is incomplete, the frame is returned whole,
or the sum has wrapped and the payload's `resize` throws. The codec's round trip, its rejection of
incomplete frames and its safety are read off this description.
-/

namespace Illuminator

namespace WebSocketCodec

/-- The octets a length field takes after the second octet. -/
def lengthWidth (b1 : UInt8) : ℕ := if b1 &&& 0x7F = 126 then 2 else if b1 &&& 0x7F = 127 then 8 else 0

/-- A declared frame: its mask bit, the width of its length field and its payload's length. -/
structure Declared where
  masked : Bool
  width : ℕ
  payload : ℕ
  deriving DecidableEq

/-- What a buffer's first octets declare, once enough of them are there. -/
def declared : Bytes → Option Declared
  | _ :: b1 :: rest =>
    if rest.length < lengthWidth b1 then none
    else some ⟨b1 &&& 0x80 != 0, lengthWidth b1,
      if lengthWidth b1 = 0 then (b1 &&& 0x7F).toNat else BigEndian.value (rest.take (lengthWidth b1))⟩
  | _ => none

namespace Declared

/-- The header's size, with the mask's key. -/
def header (d : Declared) : ℕ := 2 + d.width + if d.masked then 4 else 0

/-- The end of the frame, as an unbounded sum. -/
def total (d : Declared) : ℕ := d.header + d.payload

/-- The payload of a complete frame. -/
def bytes (d : Declared) (data : Bytes) : Bytes :=
  (List.range d.payload).map fun i =>
    if d.masked then data.getD (d.header + i) 0 ^^^ data.getD (d.header - 4 + i % 4) 0
    else data.getD (d.header + i) 0

/-- The frame a buffer starts with. -/
def frame (d : Declared) (data : Bytes) : WsFrame :=
  ⟨⟨data.headD 0 &&& 0x0F⟩, data.headD 0 &&& 0x80 != 0, d.bytes data⟩

end Declared

theorem lengthWidth_cases (b1 : UInt8) :
    (lengthWidth b1 = 0 ∧ b1 &&& 0x7F ≠ 126 ∧ b1 &&& 0x7F ≠ 127) ∨
      (lengthWidth b1 = 2 ∧ b1 &&& 0x7F = 126) ∨ (lengthWidth b1 = 8 ∧ b1 &&& 0x7F = 127) := by
  unfold lengthWidth
  split_ifs with short long
  · exact Or.inr (Or.inl ⟨rfl, short⟩)
  · exact Or.inr (Or.inr ⟨rfl, long⟩)
  · exact Or.inl ⟨rfl, short, long⟩

private theorem short_lt (b1 : UInt8) : (b1 &&& 0x7F).toNat < 128 := by
  rw [UInt8.toNat_and]
  exact Nat.and_lt_two_pow (n := 7) _ (by decide)

theorem declared_eq_some {data : Bytes} {d : Declared} (found : declared data = some d) :
    ∃ b0 b1 rest, data = b0 :: b1 :: rest ∧ d.width = lengthWidth b1 ∧ d.width ≤ rest.length ∧
      d.masked = (b1 &&& 0x80 != 0) ∧
      d.payload = if d.width = 0 then (b1 &&& 0x7F).toNat else BigEndian.value (rest.take d.width) := by
  unfold declared at found
  split at found
  · next b0 b1 rest =>
    simp only [Option.ite_none_left_eq_some, not_lt, Option.some.injEq] at found
    obtain ⟨enough, rfl⟩ := found
    exact ⟨b0, b1, rest, rfl, rfl, enough, rfl, rfl⟩
  · contradiction

/-- Field by field, what a declaration can say. -/
theorem declared_bounds {data : Bytes} {d : Declared} (found : declared data = some d) :
    2 + d.width ≤ data.length ∧
      ((d.width = 0 ∧ d.payload < 128) ∨ (d.width = 2 ∧ d.payload < 2 ^ 16) ∨ (d.width = 8 ∧ d.payload < 2 ^ 64)) := by
  obtain ⟨b0, b1, rest, rfl, width, enough, _, payload⟩ := declared_eq_some found
  have wide : (rest.take d.width).length = d.width := by rw [List.length_take, min_eq_left enough]
  have small := BigEndian.value_lt (rest.take d.width)
  rw [wide] at small
  constructor
  · simp only [List.length_cons]
    omega
  · rcases lengthWidth_cases b1 with ⟨none, _⟩ | ⟨two, _⟩ | ⟨eight, _⟩
    · left
      rw [payload, width, none, if_pos rfl]
      exact ⟨rfl, short_lt b1⟩
    · right; left
      rw [width, two] at small payload ⊢
      rw [payload, if_neg (by decide)]
      exact ⟨rfl, small⟩
    · right; right
      rw [width, eight] at small payload ⊢
      rw [payload, if_neg (by decide)]
      exact ⟨rfl, small⟩

theorem header_bounds {data : Bytes} {d : Declared} (found : declared data = some d) :
    2 ≤ d.header ∧ d.header ≤ 14 ∧ (d.masked = true → 6 ≤ d.header) := by
  obtain ⟨_, widths⟩ := declared_bounds found
  unfold Declared.header
  split_ifs with masked
  · omega
  · exact ⟨by omega, by omega, fun set => absurd set masked⟩

/-! ## Reading a buffer -/

theorem read_eq {data : Bytes} {index : UInt64} (inside : index.toNat < data.length) :
    read data index = .ok (data.getD index.toNat 0) := by
  rw [read, List.getElem?_eq_getElem inside, List.getD_eq_getElem _ _ inside]

private theorem ofNat_toNat {n : ℕ} (bound : n < 2 ^ 64) : (UInt64.ofNat n).toNat = n := by
  rw [UInt64.toNat_ofNat', Nat.mod_eq_of_lt bound]

/-- A string's size is a 64-bit number. -/
theorem lt_of_le_maxSize {n : ℕ} (bound : n ≤ maxSize) : n < 2 ^ 64 := lt_of_le_of_lt bound (by decide)

private theorem foldlM_read (data : Bytes) (positions : List ℕ) (total : UInt64)
    (inside : ∀ i ∈ positions, 2 + i < data.length ∧ i < 8) :
    positions.foldlM (fun (total : UInt64) i => do
      let byte ← read data (2 + .ofNat i)
      return (total <<< 8) ||| byte.toUInt64) total =
      (.ok ((positions.map fun i => data.getD (2 + i) 0).foldl BigEndian.accumulate total) : Except WsFault UInt64) := by
  induction positions generalizing total with
  | nil => rfl
  | cons i rest ih =>
    obtain ⟨here, small⟩ := inside i (by simp)
    have index : (2 + UInt64.ofNat i).toNat = 2 + i := by
      rw [UInt64.toNat_add, UInt64.toNat_ofNat']
      change (2 + i % 2 ^ 64) % 2 ^ 64 = 2 + i
      omega
    rw [List.foldlM_cons, read_eq (by rw [index]; exact here), index]
    exact ih _ fun j member => inside j (List.mem_cons_of_mem _ member)

private theorem lengthField (b0 b1 : UInt8) {rest : Bytes} {width : ℕ} (enough : width ≤ rest.length) :
    (List.range width).map (fun i => (b0 :: b1 :: rest).getD (2 + i) 0) = rest.take width := by
  apply List.ext_getElem
  · rw [List.length_map, List.length_range, List.length_take, min_eq_left enough]
  · intro i lower upper
    rw [List.length_map, List.length_range] at lower
    rw [List.getElem_map, List.getElem_range, List.getElem_take, Nat.add_comm, List.getD_cons_succ,
      List.getD_cons_succ, List.getD_eq_getElem]

private theorem foldl_field {rest : Bytes} {width : ℕ} (enough : width ≤ rest.length) (fits : width ≤ 8) :
    ((rest.take width).foldl BigEndian.accumulate 0).toNat = BigEndian.value (rest.take width) := by
  have wide : (rest.take width).length = width := by rw [List.length_take, min_eq_left enough]
  have small := BigEndian.value_lt (rest.take width)
  rw [wide] at small
  have most : 256 ^ width ≤ 256 ^ 8 := Nat.pow_le_pow_right (by decide) fits
  rw [BigEndian.foldl_accumulate, UInt64.toNat_zero, Nat.zero_mul, Nat.zero_add, Nat.mod_eq_of_lt (by omega)]

/-- Nothing is declared when the length field is incomplete. -/
theorem readLength_none {b0 b1 : UInt8} {rest : Bytes} (bound : rest.length + 2 < 2 ^ 64)
    (missing : declared (b0 :: b1 :: rest) = none) :
    readLength (b0 :: b1 :: rest) (.ofNat (rest.length + 2)) (b1 &&& 0x7F).toUInt64 = .ok none := by
  have len := ofNat_toNat bound
  simp only [declared, ite_eq_left_iff, not_lt, reduceCtorEq, imp_false, not_le] at missing
  rcases lengthWidth_cases b1 with ⟨zero, neither⟩ | ⟨two, short⟩ | ⟨eight, short⟩
  · omega
  · have few : UInt64.ofNat (rest.length + 2) < 4 := by
      rw [UInt64.lt_iff_toNat_lt, len]
      change rest.length + 2 < 4
      omega
    rw [readLength, short, if_pos (by decide), if_pos few]
  · have few : UInt64.ofNat (rest.length + 2) < 10 := by
      rw [UInt64.lt_iff_toNat_lt, len]
      change rest.length + 2 < 10
      omega
    rw [readLength, short, if_neg (by decide), if_pos (by decide), if_pos few]

/-- A declared length is read off, with the size of the header so far. -/
theorem readLength_some {b0 b1 : UInt8} {rest : Bytes} {d : Declared} (bound : rest.length + 2 < 2 ^ 64)
    (found : declared (b0 :: b1 :: rest) = some d) :
    ∃ payload_len : UInt64, payload_len.toNat = d.payload ∧
      readLength (b0 :: b1 :: rest) (.ofNat (rest.length + 2)) (b1 &&& 0x7F).toUInt64 =
        .ok (some (payload_len, .ofNat (2 + d.width))) := by
  have len := ofNat_toNat bound
  obtain ⟨_, _, _, same, width, enough, _, payload⟩ := declared_eq_some found
  cases same
  rcases lengthWidth_cases b1 with ⟨zero, not126, not127⟩ | ⟨two, short⟩ | ⟨eight, short⟩
  · rw [width, zero] at payload ⊢
    refine ⟨(b1 &&& 0x7F).toUInt64, by rw [payload, if_pos rfl, UInt8.toNat_toUInt64], ?_⟩
    have other126 : (b1 &&& 0x7F).toUInt64 ≠ 126 := fun same => not126 (UInt8.toUInt64_inj.mp same)
    have other127 : (b1 &&& 0x7F).toUInt64 ≠ 127 := fun same => not127 (UInt8.toUInt64_inj.mp same)
    rw [readLength, if_neg other126, if_neg other127]
    rfl
  · rw [width, two] at payload enough ⊢
    have field := lengthField b0 b1 enough
    have many : ¬ UInt64.ofNat (rest.length + 2) < 4 := by
      rw [UInt64.lt_iff_toNat_lt, len]
      change ¬ rest.length + 2 < 4
      omega
    refine ⟨(rest.take 2).foldl BigEndian.accumulate 0, ?_, ?_⟩
    · rw [payload, if_neg (by decide), foldl_field enough (by decide)]
    · rw [readLength, short, if_pos (by decide), if_neg many,
        read_eq (show (2 : UInt64).toNat < _ by simp; omega), read_eq (show (3 : UInt64).toNat < _ by simp; omega),
        ← field]
      change _ = Except.ok (some (BigEndian.accumulate (BigEndian.accumulate 0 _) _, 4))
      rw [BigEndian.accumulate_zero]
      rfl
  · rw [width, eight] at payload enough ⊢
    have many : ¬ UInt64.ofNat (rest.length + 2) < 10 := by
      rw [UInt64.lt_iff_toNat_lt, len]
      change ¬ rest.length + 2 < 10
      omega
    refine ⟨(rest.take 8).foldl BigEndian.accumulate 0, ?_, ?_⟩
    · rw [payload, if_neg (by decide), foldl_field enough (by decide)]
    · rw [readLength, short, if_neg (by decide), if_pos (by decide), if_neg many, foldlM_read, lengthField b0 b1 enough]
      · rfl
      · intro i member
        rw [List.mem_range] at member
        simp only [List.length_cons]
        omega

private theorem mapM_ok {α β : Type} {f : α → Except WsFault β} {g : α → β} {l : List α}
    (each : ∀ x ∈ l, f x = .ok (g x)) : l.mapM f = .ok (l.map g) := by
  induction l with
  | nil => rfl
  | cons x rest ih =>
    rw [List.mapM_cons, each x (by simp), ih fun y member => each y (List.mem_cons_of_mem x member)]
    rfl

/-- A complete frame's payload is read without a fault. -/
theorem readPayload_eq {data : Bytes} {d : Declared} (found : declared data = some d)
    (bound : data.length < 2 ^ 64) (fits : d.total ≤ data.length) (holds : d.payload ≤ maxSize)
    {header_size payload_len : UInt64}
    (header : header_size.toNat = d.header) (payload : payload_len.toNat = d.payload) :
    readPayload data d.masked header_size payload_len = .ok (d.bytes data) := by
  obtain ⟨_, low, key⟩ := header_bounds found
  have room : d.header + d.payload ≤ data.length := fits
  rw [readPayload, if_neg (by rw [payload]; exact not_lt.mpr holds), payload]
  apply mapM_ok
  intro i member
  rw [List.mem_range] at member
  have here : (header_size + UInt64.ofNat i).toNat = d.header + i := by
    rw [UInt64.toNat_add, UInt64.toNat_ofNat', header]
    omega
  rw [read_eq (by omega), here]
  by_cases masked : d.masked = true
  · have at_key : (header_size - 4 + UInt64.ofNat i % 4).toNat = d.header - 4 + i % 4 := by
      have four : (4 : UInt64).toNat = 4 := rfl
      have six := key masked
      rw [UInt64.toNat_add, UInt64.toNat_sub_of_le _ _ (by rw [UInt64.le_iff_toNat_le, four]; omega),
        UInt64.toNat_mod, UInt64.toNat_ofNat', four, header]
      omega
    have inside : (header_size - 4 + UInt64.ofNat i % 4).toNat < data.length := by
      have six := key masked
      omega
    rw [masked, read_eq inside, at_key]
    rfl
  · rw [Bool.eq_false_iff.mpr masked]
    rfl

/-- Past a declared header, `DecodeFrame` tests the frame's end and reads the payload. -/
theorem DecodeFrame_declared {data : Bytes} {d : Declared} (found : declared data = some d)
    (bound : data.length < 2 ^ 64) : ∃ header_size payload_len : UInt64,
      header_size.toNat = d.header ∧ payload_len.toNat = d.payload ∧
      DecodeFrame data = if UInt64.ofNat data.length < header_size + payload_len then .ok (none, 0)
        else do
          let payload ← readPayload data d.masked header_size payload_len
          return (some ⟨⟨data.headD 0 &&& 0x0F⟩, data.headD 0 &&& 0x80 != 0, payload⟩, header_size + payload_len) := by
  obtain ⟨b0, b1, rest, rfl, width, enough, masked, _⟩ := declared_eq_some found
  have fits : rest.length + 2 < 2 ^ 64 := bound
  obtain ⟨payload_len, payload, length⟩ := readLength_some fits found
  have started : ¬ UInt64.ofNat (rest.length + 2) < 2 := by
    rw [UInt64.lt_iff_toNat_lt, ofNat_toNat fits]
    change ¬ rest.length + 2 < 2
    omega
  refine ⟨if d.masked then .ofNat (2 + d.width) + 4 else .ofNat (2 + d.width), payload_len, ?_, payload, ?_⟩
  · obtain ⟨_, widths⟩ := declared_bounds found
    unfold Declared.header
    split_ifs with set
    · rw [UInt64.toNat_add, UInt64.toNat_ofNat']
      change ((2 + d.width) % 2 ^ 64 + 4) % 2 ^ 64 = 2 + d.width + 4
      omega
    · rw [UInt64.toNat_ofNat']
      omega
  · have first : read (b0 :: b1 :: rest) 0 = .ok b0 := rfl
    have second : read (b0 :: b1 :: rest) 1 = .ok b1 := rfl
    simp only [DecodeFrame, List.length_cons]
    rw [if_neg started, first, second]
    change (readLength _ _ _ >>= _) = _
    rw [length, ← masked]
    rfl

/-- Without a complete length field nothing is decoded. -/
theorem DecodeFrame_undeclared {data : Bytes} (missing : declared data = none) (bound : data.length < 2 ^ 64) :
    DecodeFrame data = .ok (none, 0) := by
  rcases data with _ | ⟨b0, _ | ⟨b1, rest⟩⟩
  · rfl
  · rfl
  · have fits : rest.length + 2 < 2 ^ 64 := bound
    have started : ¬ UInt64.ofNat (rest.length + 2) < 2 := by
      rw [UInt64.lt_iff_toNat_lt, ofNat_toNat fits]
      change ¬ rest.length + 2 < 2
      omega
    have first : read (b0 :: b1 :: rest) 0 = .ok b0 := rfl
    have second : read (b0 :: b1 :: rest) 1 = .ok b1 := rfl
    simp only [DecodeFrame, List.length_cons]
    rw [if_neg started, first, second]
    change (readLength _ _ _ >>= _) = _
    rw [readLength_none fits missing]
    rfl

private theorem total_toNat {d : Declared} {header_size payload_len : UInt64}
    (header : header_size.toNat = d.header) (payload : payload_len.toNat = d.payload) :
    (header_size + payload_len).toNat = d.total % 2 ^ 64 := by
  rw [UInt64.toNat_add, header, payload]
  rfl

/-- A frame whose end, as a 64-bit sum, lies past the buffer is left for later. -/
theorem DecodeFrame_incomplete {data : Bytes} {d : Declared} (found : declared data = some d)
    (bound : data.length < 2 ^ 64) (short : data.length < d.total % 2 ^ 64) :
    DecodeFrame data = .ok (none, 0) := by
  obtain ⟨header_size, payload_len, header, payload, decoded⟩ := DecodeFrame_declared found bound
  rw [decoded, if_pos]
  rw [UInt64.lt_iff_toNat_lt, ofNat_toNat bound, total_toNat header payload]
  exact short

/-- A buffer that a string can hold carries a payload that one can hold. -/
theorem payload_le {d : Declared} {n : ℕ} (bound : n ≤ maxSize) (fits : d.total ≤ n) : d.payload ≤ maxSize :=
  le_trans (Nat.le_add_left ..) (le_trans fits bound)

/-- A complete frame is returned whole, and exactly its octets are consumed. -/
theorem DecodeFrame_complete {data : Bytes} {d : Declared} (found : declared data = some d)
    (bound : data.length < 2 ^ 64) (fits : d.total ≤ data.length) (holds : d.payload ≤ maxSize) :
    DecodeFrame data = .ok (some (d.frame data), .ofNat d.total) := by
  obtain ⟨header_size, payload_len, header, payload, decoded⟩ := DecodeFrame_declared found bound
  have small : d.total < 2 ^ 64 := by omega
  have total : (header_size + payload_len).toNat = d.total := by
    rw [total_toNat header payload, Nat.mod_eq_of_lt small]
  have consumed : header_size + payload_len = .ofNat d.total := by
    apply UInt64.toNat_inj.mp
    rw [total, UInt64.toNat_ofNat', Nat.mod_eq_of_lt small]
  rw [decoded, if_neg, readPayload_eq found bound fits holds header payload, consumed]
  · rfl
  · rw [UInt64.lt_iff_toNat_lt, ofNat_toNat bound, total]
    omega

/-- A frame whose end wraps to a position inside the buffer makes `resize` throw. -/
theorem DecodeFrame_wrapped {data : Bytes} {d : Declared} (found : declared data = some d)
    (bound : data.length < 2 ^ 64) (wraps : 2 ^ 64 ≤ d.total) (inside : d.total - 2 ^ 64 ≤ data.length) :
    DecodeFrame data = .error (.length_error (.ofNat d.payload)) := by
  obtain ⟨header_size, payload_len, header, payload, decoded⟩ := DecodeFrame_declared found bound
  obtain ⟨_, low, _⟩ := header_bounds found
  obtain ⟨_, widths⟩ := declared_bounds found
  have sum : d.total = d.header + d.payload := rfl
  have total : (header_size + payload_len).toNat = d.total - 2 ^ 64 := by
    rw [total_toNat header payload]
    omega
  have requested : payload_len = .ofNat d.payload := by
    apply UInt64.toNat_inj.mp
    rw [payload, UInt64.toNat_ofNat']
    omega
  rw [decoded, if_neg, readPayload, if_pos, requested]
  · rfl
  · rw [payload]
    unfold maxSize
    omega
  · rw [UInt64.lt_iff_toNat_lt, ofNat_toNat bound, total]
    omega

end WebSocketCodec

end Illuminator
