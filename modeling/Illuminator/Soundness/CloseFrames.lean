import Illuminator.Model.WebSocketManager
import Illuminator.Soundness.WebSocketInput

/-! # Close frames in a read

A connection goes into `to_remove` once for each close frame that the decode loop handles. The number
is read off the buffer's frame boundaries. The loop with what it has done before a fault agrees with
the loop that only returns.
-/

namespace Illuminator

namespace WebSocketManager

open WebSocketCodec

/-- How many close frames a buffer begins with among its complete frames, unless the loop faults at
one of its frame boundaries. -/
def closings : ℕ → Bytes → Option ℕ
  | 0, _ => none
  | fuel + 1, data =>
    match declared data with
    | none => some 0
    | some d =>
      if d.total ≤ data.length then
        if subscribes data then none
        else (closings fuel (data.drop d.total)).map (· + if (d.frame data).opcode = .kClose then 1 else 0)
      else if wraps data then none
      else some 0

/-- The loop gets to its end and handles at most one close frame, or does not get to its end. -/
def oneClose (data : Bytes) : Bool := (closings (data.length + 1) data).all (· ≤ 1)

private theorem removes_of_handleFrame {frame : WsFrame} {reactions : List Reaction} (s : Socket)
    (reacts : handleFrame frame = .ok reactions) :
    reactions.flatMap (Reaction.removes s) = if frame.opcode = .kClose then [s] else [] := by
  unfold handleFrame at reacts
  split_ifs at reacts with ping close text asks <;> cases reacts
  · rw [if_neg (by rw [ping]; decide)]
    rfl
  · rw [if_pos close]
    rfl
  · rw [if_neg close]
    rfl
  · rw [if_neg close]
    rfl

/-- One turn at a complete frame. -/
theorem decodeTurns_frame {data : Bytes} {d : Declared} (fuel : ℕ) (found : declared data = some d)
    (bound : data.length ≤ maxSize) (fits : d.total ≤ data.length) :
    decodeTurns (fuel + 1) data =
      match handleFrame (d.frame data) with
      | .error fault => (data.drop d.total, [], some fault)
      | .ok reactions =>
        ((decodeTurns fuel (data.drop d.total)).1,
          (d.frame data, reactions) :: (decodeTurns fuel (data.drop d.total)).2.1,
          (decodeTurns fuel (data.drop d.total)).2.2) := by
  have word := lt_of_le_maxSize bound
  rw [decodeTurns, if_neg (not_isEmpty_of_fits found fits),
    DecodeFrame_complete found word fits (payload_le bound fits)]
  change (if data.length < (UInt64.ofNat d.total).toNat then _ else _) = _
  rw [consumed_toNat word fits]
  exact if_neg (not_lt.mpr fits)

theorem decodeTurns_stop {data : Bytes} {consumed : UInt64} (fuel : ℕ)
    (nothing : DecodeFrame data = .ok (none, consumed)) : decodeTurns (fuel + 1) data = (data, [], none) := by
  rw [decodeTurns, nothing]
  split_ifs <;> rfl

/-- What the loop does turn by turn is what it returns. -/
theorem decodeLoop_eq_turns {fuel : ℕ} {data : Bytes} (bound : data.length ≤ maxSize) (enough : data.length < fuel) :
    decodeLoop data =
      match (decodeTurns fuel data).2.2 with
      | none => .ok ((decodeTurns fuel data).1, (decodeTurns fuel data).2.1)
      | some fault => .error fault := by
  induction fuel generalizing data with
  | zero => exact absurd enough (Nat.not_lt_zero _)
  | succ fuel ih =>
    have word := lt_of_le_maxSize bound
    rcases buffer_cases data with missing | ⟨d, found, short | fits | ⟨past, inside⟩⟩
    · have nothing := DecodeFrame_undeclared missing word
      rw [decodeLoop_stop nothing, decodeTurns_stop fuel nothing]
    · have nothing := DecodeFrame_incomplete found word short
      rw [decodeLoop_stop nothing, decodeTurns_stop fuel nothing]
    · have least := two_le_total found
      have dropped : (data.drop d.total).length = data.length - d.total := List.length_drop
      have within : (data.drop d.total).length ≤ maxSize := by omega
      have fewer : (data.drop d.total).length < fuel := by omega
      rw [decodeLoop_frame found word fits (payload_le bound fits), decodeTurns_frame fuel found bound fits,
        ih within fewer]
      cases handleFrame (d.frame data) with
      | error fault => rfl
      | ok reactions =>
        cases (decodeTurns fuel (data.drop d.total)).2.2 <;> rfl
    · have faults := DecodeFrame_wrapped found word past inside
      rw [decodeLoop_fault faults, decodeTurns, if_neg (not_isEmpty_of_fault faults), faults]

/-- A loop that gets to its end asks for a removal for each close frame. -/
theorem removes_eq_replicate {fuel : ℕ} {data : Bytes} (s : Socket) (bound : data.length ≤ maxSize)
    (ends : (decodeTurns fuel data).2.2 = none) :
    ∃ n, closings fuel data = some n ∧
      ((decodeTurns fuel data).2.1.flatMap Prod.snd).flatMap (Reaction.removes s) = List.replicate n s := by
  induction fuel generalizing data with
  | zero => cases ends
  | succ fuel ih =>
    have word := lt_of_le_maxSize bound
    rcases buffer_cases data with missing | ⟨d, found, short | fits | ⟨past, inside⟩⟩
    · rw [decodeTurns_stop fuel (DecodeFrame_undeclared missing word), closings, missing]
      exact ⟨0, rfl, rfl⟩
    · have longer : ¬ d.total ≤ data.length := not_le.mpr (lt_of_lt_of_le short (Nat.mod_le ..))
      have calm : ¬ wraps data = true := by
        rw [wraps_eq_true found]
        omega
      rw [decodeTurns_stop fuel (DecodeFrame_incomplete found word short), closings, found]
      simp only [if_neg longer, if_neg calm]
      exact ⟨0, rfl, rfl⟩
    · rw [decodeTurns_frame fuel found bound fits] at ends ⊢
      cases reacts : handleFrame (d.frame data) with
      | error fault =>
        rw [reacts] at ends
        cases ends
      | ok reactions =>
        rw [reacts] at ends
        have dropped : (data.drop d.total).length = data.length - d.total := List.length_drop
        have within : (data.drop d.total).length ≤ maxSize := by omega
        obtain ⟨n, counted, later⟩ := ih within ends
        have quiet := Bool.eq_false_iff.mp ((handleFrame_ok_iff found fits).mp ⟨_, reacts⟩)
        refine ⟨n + if (d.frame data).opcode = .kClose then 1 else 0, ?_, ?_⟩
        · rw [closings, found]
          simp only [if_pos fits, if_neg quiet, counted, Option.map_some]
        · simp only [List.flatMap_cons, List.flatMap_append, removes_of_handleFrame s reacts, later]
          split_ifs
          · rw [List.singleton_append, ← List.replicate_succ]
          · rw [List.nil_append, Nat.add_zero]
    · have faults := DecodeFrame_wrapped found word past inside
      rw [decodeTurns, if_neg (not_isEmpty_of_fault faults), faults] at ends
      cases ends

end WebSocketManager

end Illuminator
