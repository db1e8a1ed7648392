import Illuminator.Soundness.WebSocketFrames

/-! # Input a client can send

A declared length near the top of the 64-bit range makes the frame's end wrap round to a position
inside the buffer, and the payload's `resize` throws. No other buffer makes `DecodeFrame` fault. The
decode loop faults in one more way, when a complete text frame asks for a subscription while the
loop's thread holds the lock that `HandleTextMessage` takes. Both conditions are about the octets at
the frame boundaries of the received bytes.
-/

namespace Illuminator

namespace WebSocketCodec

/-- The declared frame's end, as a 64-bit sum, wraps to a position inside the buffer. -/
def wraps (data : Bytes) : Bool :=
  match declared data with
  | some d => decide (2 ^ 64 ≤ d.total ∧ d.total - 2 ^ 64 ≤ data.length)
  | none => false

/-- `DecodeFrame` returns nothing, or a frame that lies inside the buffer. -/
def DecodesSafely (data : Bytes) : Prop :=
  match DecodeFrame data with
  | .error _ => False
  | .ok (none, _) => True
  | .ok (some frame, consumed) => ∃ d, declared data = some d ∧
      consumed.toNat = d.header + frame.payload.length ∧ 2 ≤ consumed.toNat ∧ consumed.toNat ≤ data.length

theorem wraps_eq_true {data : Bytes} {d : Declared} (found : declared data = some d) :
    wraps data = true ↔ 2 ^ 64 ≤ d.total ∧ d.total - 2 ^ 64 ≤ data.length := by
  simp only [wraps, found, decide_eq_true_eq]

/-- The four things a buffer can be. -/
theorem buffer_cases (data : Bytes) :
    declared data = none ∨ ∃ d, declared data = some d ∧
      (data.length < d.total % 2 ^ 64 ∨ d.total ≤ data.length ∨
        (2 ^ 64 ≤ d.total ∧ d.total - 2 ^ 64 ≤ data.length)) := by
  cases found : declared data with
  | none => exact Or.inl rfl
  | some d =>
    right
    obtain ⟨_, low, _⟩ := header_bounds found
    obtain ⟨_, widths⟩ := declared_bounds found
    have sum : d.total = d.header + d.payload := rfl
    refine ⟨d, rfl, ?_⟩
    omega

@[simp] theorem frame_payload_length (d : Declared) (data : Bytes) :
    (d.frame data).payload.length = d.payload := by
  simp only [Declared.frame, Declared.bytes, List.length_map, List.length_range]

/-- A frame has at least its first two octets. -/
theorem two_le_total {data : Bytes} {d : Declared} (found : declared data = some d) : 2 ≤ d.total :=
  le_trans (header_bounds found).1 (Nat.le_add_right ..)

/-- What a complete frame consumes does not wrap. -/
theorem consumed_toNat {data : Bytes} {d : Declared} (bound : data.length < 2 ^ 64) (fits : d.total ≤ data.length) :
    (UInt64.ofNat d.total).toNat = d.total := by
  rw [UInt64.toNat_ofNat', Nat.mod_eq_of_lt (by omega)]

theorem not_isEmpty_of_fits {data : Bytes} {d : Declared} (found : declared data = some d)
    (fits : d.total ≤ data.length) : ¬ data.isEmpty = true := by
  have least := two_le_total found
  intro empty
  rw [List.isEmpty_iff.mp empty, List.length_nil] at fits
  omega

/-- `DecodeFrame` is safe on exactly the buffers whose declared end does not wrap. -/
theorem decodesSafely_iff {data : Bytes} (bound : data.length ≤ maxSize) :
    DecodesSafely data ↔ wraps data = false := by
  have word := lt_of_le_maxSize bound
  rcases buffer_cases data with missing | ⟨d, found, short | fits | ⟨past, inside⟩⟩
  · rw [DecodesSafely, DecodeFrame_undeclared missing word, wraps, missing]
    exact iff_of_true trivial rfl
  · have calm : ¬ wraps data = true := by
      rw [wraps_eq_true found]
      omega
    rw [DecodesSafely, DecodeFrame_incomplete found word short]
    exact iff_of_true trivial (Bool.eq_false_iff.mpr calm)
  · have calm : ¬ wraps data = true := by
      rw [wraps_eq_true found]
      unfold maxSize at bound
      omega
    have consumed := consumed_toNat word fits
    rw [DecodesSafely, DecodeFrame_complete found word fits (payload_le bound fits)]
    apply iff_of_true _ (Bool.eq_false_iff.mpr calm)
    refine ⟨d, found, ?_, ?_, ?_⟩
    · rw [consumed, frame_payload_length]
      rfl
    · rw [consumed]
      exact two_le_total found
    · rw [consumed]
      exact fits
  · rw [DecodesSafely, DecodeFrame_wrapped found word past inside]
    exact iff_of_false id (by rw [(wraps_eq_true found).mpr ⟨past, inside⟩]; decide)

end WebSocketCodec

namespace WebSocketManager

open WebSocketCodec

/-- The buffer begins with a complete text frame that asks for a subscription. -/
def subscribes (data : Bytes) : Bool :=
  match declared data with
  | some d => decide (d.total ≤ data.length ∧ (d.frame data).opcode = .kText) &&
      subscribePrefix.isPrefixOf (d.frame data).payload
  | none => false

/-- The positions in a buffer up to which it consists of complete frames. -/
inductive Boundary : Bytes → Bytes → Prop
  | here (data : Bytes) : Boundary data data
  | next {data rest : Bytes} {d : Declared} (found : declared data = some d) (fits : d.total ≤ data.length)
      (later : Boundary (data.drop d.total) rest) : Boundary data rest

theorem handleFrame_ok (frame : WsFrame) :
    (∃ reactions, handleFrame frame = .ok reactions) ↔
      ¬ (frame.opcode = .kText ∧ subscribePrefix.isPrefixOf frame.payload = true) := by
  unfold handleFrame
  split_ifs with ping close text subscribed
  · exact iff_of_true ⟨_, rfl⟩ fun both => absurd (ping.symm.trans both.1) (by decide)
  · exact iff_of_true ⟨_, rfl⟩ fun both => absurd (close.symm.trans both.1) (by decide)
  · exact iff_of_false (fun ⟨_, faults⟩ => nomatch faults) fun neither => neither ⟨text, subscribed⟩
  · exact iff_of_true ⟨_, rfl⟩ fun both => subscribed both.2
  · exact iff_of_true ⟨_, rfl⟩ fun both => text both.1

/-- A complete frame is handled when it does not ask for a subscription. -/
theorem handleFrame_ok_iff {data : Bytes} {d : Declared} (found : declared data = some d)
    (fits : d.total ≤ data.length) :
    (∃ reactions, handleFrame (d.frame data) = .ok reactions) ↔ subscribes data = false := by
  rw [handleFrame_ok, ← Bool.not_eq_true, not_iff_not]
  simp only [subscribes, found, fits, true_and, Bool.and_eq_true, decide_eq_true_eq]

/-- The loop stops where nothing can be decoded. -/
theorem decodeLoop_stop {data : Bytes} {consumed : UInt64} (nothing : DecodeFrame data = .ok (none, consumed)) :
    decodeLoop data = .ok (data, []) := by
  rw [decodeLoop, nothing]
  split_ifs <;> rfl

/-- An empty buffer does not fault. -/
theorem not_isEmpty_of_fault {data : Bytes} {fault : WsFault} (faults : DecodeFrame data = .error fault) :
    ¬ data.isEmpty = true := by
  intro empty
  rw [List.isEmpty_iff.mp empty] at faults
  cases faults

theorem decodeLoop_fault {data : Bytes} {fault : WsFault} (faults : DecodeFrame data = .error fault) :
    decodeLoop data = .error fault := by
  rw [decodeLoop, faults, if_neg (not_isEmpty_of_fault faults)]
  rfl

theorem not_decodeLoop_ok {data : Bytes} {fault : WsFault} (faults : DecodeFrame data = .error fault) :
    ¬ ∃ result, decodeLoop data = .ok result := by
  rintro ⟨result, ran⟩
  rw [decodeLoop_fault faults] at ran
  contradiction

/-- One turn of the loop at a complete frame. -/
theorem decodeLoop_frame {data : Bytes} {d : Declared} (found : declared data = some d)
    (bound : data.length < 2 ^ 64) (fits : d.total ≤ data.length) (holds : d.payload ≤ maxSize) :
    decodeLoop data = do
      let reactions ← handleFrame (d.frame data)
      let (left, handled) ← decodeLoop (data.drop d.total)
      return (left, (d.frame data, reactions) :: handled) := by
  have consumed := consumed_toNat bound fits
  have shorter : (data.drop d.total).length < data.length := by
    have least := two_le_total found
    rw [List.length_drop]
    omega
  conv_lhs => rw [decodeLoop, DecodeFrame_complete found bound fits holds, if_neg (not_isEmpty_of_fits found fits)]
  simp only [bind, Except.bind, consumed, if_neg (not_lt.mpr fits), dif_pos shorter]

private theorem boundary_stop {data rest : Bytes} (stop : ∀ d, declared data = some d → data.length < d.total)
    (boundary : Boundary data rest) : rest = data := by
  cases boundary with
  | here => rfl
  | next found fits _ => exact absurd fits (not_le.mpr (stop _ found))

private theorem calm_of_stop {data : Bytes} (stop : ∀ d, declared data = some d → data.length < d.total) :
    subscribes data = false := by
  unfold subscribes
  split
  · next d found =>
    rw [decide_eq_false (fun both => absurd both.1 (not_le.mpr (stop d found))), Bool.false_and]
  · rfl

/-- The loop runs to its end on exactly the buffers none of whose frame boundaries wraps or asks
for a subscription. -/
theorem decodeLoop_ok {data : Bytes} (bound : data.length ≤ maxSize) :
    (∃ result, decodeLoop data = .ok result) ↔
      ∀ rest, Boundary data rest → wraps rest = false ∧ subscribes rest = false := by
  induction length : data.length using Nat.strong_induction_on generalizing data with
  | _ n ih =>
    subst length
    have safe := decodesSafely_iff bound
    have word := lt_of_le_maxSize bound
    rcases buffer_cases data with missing | ⟨d, found, short | fits | ⟨past, inside⟩⟩
    · have stop : ∀ d, declared data = some d → data.length < d.total := by
        intro d found
        rw [missing] at found
        contradiction
      have nothing := DecodeFrame_undeclared missing word
      apply iff_of_true ⟨_, decodeLoop_stop nothing⟩
      intro rest boundary
      rw [boundary_stop stop boundary]
      exact ⟨safe.mp (by rw [DecodesSafely, nothing]; trivial), calm_of_stop stop⟩
    · have stop : ∀ e, declared data = some e → data.length < e.total := by
        intro e again
        rw [found] at again
        cases again
        exact lt_of_lt_of_le short (Nat.mod_le ..)
      have nothing := DecodeFrame_incomplete found word short
      apply iff_of_true ⟨_, decodeLoop_stop nothing⟩
      intro rest boundary
      rw [boundary_stop stop boundary]
      exact ⟨safe.mp (by rw [DecodesSafely, nothing]; trivial), calm_of_stop stop⟩
    · have least := two_le_total found
      have calm : wraps data = false := by
        apply Bool.eq_false_iff.mpr
        rw [ne_eq, wraps_eq_true found]
        unfold maxSize at bound
        omega
      have dropped : (data.drop d.total).length = data.length - d.total := List.length_drop
      have later := ih (data.drop d.total).length (by omega) (by omega) rfl
      have handled := handleFrame_ok_iff found fits
      rw [decodeLoop_frame found word fits (payload_le bound fits)]
      constructor
      · rintro ⟨result, ran⟩
        cases reacts : handleFrame (d.frame data) with
        | error fault =>
          rw [reacts] at ran
          cases ran
        | ok reactions =>
          cases runs : decodeLoop (data.drop d.total) with
          | error fault =>
            rw [reacts, runs] at ran
            cases ran
          | ok tail =>
            intro rest boundary
            cases boundary with
            | here => exact ⟨calm, handled.mp ⟨_, reacts⟩⟩
            | next again _ beyond =>
              rw [found] at again
              cases again
              exact later.mp ⟨_, runs⟩ rest beyond
      · intro calmly
        obtain ⟨reactions, reacts⟩ := handled.mpr (calmly data (.here data)).2
        obtain ⟨⟨left, more⟩, runs⟩ := later.mpr fun rest beyond => calmly rest (.next found fits beyond)
        rw [reacts, runs]
        exact ⟨_, rfl⟩
    · apply iff_of_false (not_decodeLoop_ok (DecodeFrame_wrapped found word past inside))
      intro calmly
      have calm := (calmly data (.here data)).1
      rw [(wraps_eq_true found).mpr ⟨past, inside⟩] at calm
      exact Bool.noConfusion calm

/-- A buffer decodes safely exactly when its declared end does not wrap; and a read's bytes are
processed to the end exactly when no frame boundary in them wraps or asks for a subscription. -/
theorem input_safety (data recv_buf chunk : Bytes) (bound : data.length ≤ maxSize)
    (room : (recv_buf ++ chunk).length ≤ maxSize) :
    (DecodesSafely data ↔ wraps data = false) ∧
      ((∃ result, ProcessIncoming recv_buf chunk = .ok result) ↔
        ∀ rest, Boundary (recv_buf ++ chunk) rest → wraps rest = false ∧ subscribes rest = false) :=
  ⟨decodesSafely_iff bound, decodeLoop_ok room⟩

/-- Ten octets that declare a payload of `2^64 - 1`. -/
def hugeFrame : Bytes := [0x81, 0x7F] ++ List.replicate 8 0xFF

/-- The ten octets make `resize` throw, on their own and in the loop. -/
theorem hugeFrame_throws :
    DecodeFrame hugeFrame = .error (.length_error (.ofNat (2 ^ 64 - 1))) ∧ ¬ DecodesSafely hugeFrame ∧
      ¬ ∃ result, ProcessIncoming [] hugeFrame = .ok result := by
  have found : declared hugeFrame = some ⟨false, 8, 2 ^ 64 - 1⟩ := by decide
  have throws : DecodeFrame hugeFrame = .error (.length_error (.ofNat (2 ^ 64 - 1))) :=
    DecodeFrame_wrapped found (by decide) (by decide) (by decide)
  refine ⟨throws, ?_, ?_⟩
  · rw [DecodesSafely, throws]
    exact id
  · exact not_decodeLoop_ok throws

/-- A ping followed by the beginning of a text frame is processed to the end. -/
theorem input_safety_ping :
    DecodesSafely [0x89, 0x00, 0x81] ∧ ∃ result, ProcessIncoming [0x89] [0x00, 0x81] = .ok result := by
  obtain ⟨decodes, processes⟩ := input_safety [0x89, 0x00, 0x81] [0x89] [0x00, 0x81] (by decide) (by decide)
  refine ⟨decodes.mpr (by decide), processes.mpr ?_⟩
  intro rest boundary
  cases boundary with
  | here => decide
  | next found fits later =>
    cases found
    cases later with
    | here => decide
    | next found fits later => cases found

end WebSocketManager

end Illuminator
