import Illuminator.Soundness.WebSocketInput
import Illuminator.Soundness.WebSocketRoundTrip

/-! # Frames cut into reads

A connection's octets are a row of frames, and the reads that deliver them cut the row anywhere. A
prefix of the row is some of its frames followed by an incomplete one, in only one way, and the
decode loop stops exactly there: the complete frames are handled, and the receive buffer holds the
octets of the incomplete one. So what has been handled after a read depends on the octets received,
not on where the reads ended.
-/

namespace Illuminator

open WebSocketCodec

/-- A frame on the wire: its opening octet with any opcode, the seven-bit length in any of the three
forms, and the key when it is masked. A payload is shorter than `2^63` octets. -/
structure WireFrame where
  first : UInt8
  second : UInt8
  key : Option (Fin 4 → UInt8)
  payload : Bytes
  seven : second < 128
  length : if lengthWidth second = 0 then second.toNat = payload.length
    else payload.length < 256 ^ lengthWidth second
  bound : payload.length < 2 ^ 63

namespace WireFrame

/-- The octets in front of the payload. -/
def head (wire : WireFrame) : Bytes :=
  wire.first :: (if wire.key.isSome then wire.second ||| 0x80 else wire.second) ::
    (BigEndian.digits (lengthWidth wire.second) wire.payload.length ++ wire.key.elim [] List.ofFn)

/-- The payload as it is sent. -/
def body (wire : WireFrame) : Bytes := wire.key.elim wire.payload (maskPayload · wire.payload)

def bytes (wire : WireFrame) : Bytes := wire.head ++ wire.body

/-- The frame that the octets carry. -/
def frame (wire : WireFrame) : WsFrame :=
  ⟨⟨wire.first &&& 0x0F⟩, wire.first &&& 0x80 != 0, wire.payload⟩

/-- The frame and what answers it: a pong with its payload for a ping, nothing for another. -/
def answered (wire : WireFrame) : WsFrame × List WebSocketManager.Reaction :=
  (wire.frame, if wire.frame.opcode = .kPing then [.write (EncodePongFrame wire.payload)] else [])

/-- Neither a close frame nor a text that asks for a subscription. -/
def Ordinary (wire : WireFrame) : Prop :=
  wire.frame.opcode ≠ .kClose ∧
    ¬ (wire.frame.opcode = .kText ∧ WebSocketManager.subscribePrefix.isPrefixOf wire.payload = true)

/-- Some of a frame's octets from the first, short of its end. -/
def Begins (cut : Bytes) (wire : WireFrame) : Prop := cut <+: wire.bytes ∧ cut ≠ wire.bytes

/-- What the octets declare. -/
def declaration (wire : WireFrame) : Declared :=
  ⟨wire.key.isSome, lengthWidth wire.second, wire.payload.length⟩

theorem body_length (wire : WireFrame) : wire.body.length = wire.payload.length := by
  unfold body
  cases wire.key with
  | none => rfl
  | some key => simp only [Option.elim_some, maskPayload, List.length_mapIdx]

theorem header_eq (wire : WireFrame) : wire.declaration.header = wire.head.length := by
  unfold declaration Declared.header head
  cases wire.key with
  | none =>
    simp only [Option.isSome_none, Option.elim_none, List.length_cons, List.length_append, List.length_nil,
      BigEndian.digits_length, Bool.false_eq_true, ↓reduceIte]
    omega
  | some key =>
    simp only [Option.isSome_some, Option.elim_some, List.length_cons, List.length_append, List.length_ofFn,
      BigEndian.digits_length, ↓reduceIte]
    omega

theorem total_eq (wire : WireFrame) : wire.declaration.total = wire.bytes.length := by
  rw [Declared.total, header_eq, bytes, List.length_append, body_length]
  rfl

theorem declared_head (wire : WireFrame) (tail : Bytes) : declared (wire.head ++ tail) = some wire.declaration := by
  obtain ⟨lowered, low, set, clear⟩ := second_octet wire.seven
  unfold head declaration
  rw [List.cons_append, List.cons_append, List.append_assoc]
  cases wire.key with
  | none =>
    rw [Option.isSome_none, if_neg Bool.false_ne_true, declared_opening _ _ wire.seven low wire.length, clear]
  | some key =>
    rw [Option.isSome_some, if_pos rfl, declared_opening _ _ wire.seven lowered wire.length, set]

theorem declared_bytes (wire : WireFrame) (rest : Bytes) : declared (wire.bytes ++ rest) = some wire.declaration := by
  rw [bytes, List.append_assoc]
  exact declared_head wire (wire.body ++ rest)

/-- The mask's key ends the header. -/
theorem getD_head {wire : WireFrame} {key : Fin 4 → UInt8} (masked : wire.key = some key) (i : ℕ) :
    wire.head.getD (wire.declaration.header - 4 + i % 4) 0 = key (.ofNat 4 i) := by
  have inside : i % 4 < (List.ofFn key).length := by
    rw [List.length_ofFn]
    omega
  have front : wire.head = wire.first :: (wire.second ||| 0x80) ::
      BigEndian.digits (lengthWidth wire.second) wire.payload.length ++ List.ofFn key := by
    simp only [head, masked, Option.isSome_some, Option.elim_some, ↓reduceIte, List.cons_append]
  have header : wire.declaration.header - 4 = (wire.first :: (wire.second ||| 0x80) ::
      BigEndian.digits (lengthWidth wire.second) wire.payload.length).length := by
    rw [header_eq, front, List.length_append, List.length_ofFn, Nat.add_sub_cancel]
  rw [header, front, List.getD_append_right _ _ _ _ (Nat.le_add_right ..), Nat.add_sub_cancel_left,
    List.getD_eq_getElem _ _ inside, List.getElem_ofFn]
  rfl

/-- What a complete frame carries, whatever follows it. -/
theorem frame_bytes (wire : WireFrame) (rest : Bytes) : wire.declaration.frame (wire.bytes ++ rest) = wire.frame := by
  have payload : wire.declaration.payload = wire.body.length := (body_length wire).symm
  have carried : wire.declaration.bytes (wire.bytes ++ rest) = wire.payload := by
    cases masked : wire.key with
    | none =>
      have plain : wire.declaration.masked = false := by rw [declaration, masked, Option.isSome_none]
      rw [bytes, bytes_append rest (header_eq wire) payload (fun _ => 0)
        fun set => absurd set (by rw [plain]; decide), plain, body, masked]
      rfl
    | some key =>
      have set : wire.declaration.masked = true := by rw [declaration, masked, Option.isSome_some]
      rw [bytes, bytes_append rest (header_eq wire) payload key fun _ => getD_head masked, if_pos set, body, masked,
        Option.elim_some, maskPayload_maskPayload]
  rw [Declared.frame, carried]
  rfl

theorem bytes_ne_nil (wire : WireFrame) : wire.bytes ≠ [] := List.cons_ne_nil _ _

theorem Begins.length_lt {cut : Bytes} {wire : WireFrame} (begins : Begins cut wire) :
    cut.length < wire.bytes.length :=
  lt_of_le_of_ne begins.1.length_le fun same => begins.2 (begins.1.eq_of_length same)

theorem bytes_lt (wire : WireFrame) : wire.bytes.length ≤ wire.payload.length + 14 := by
  have low := (header_bounds (declared_bytes wire [])).2.1
  rw [← total_eq, Declared.total, Nat.add_comm]
  exact Nat.add_le_add_left low _

/-- A row of frames up to any point: complete frames, and the beginning of the one that follows. -/
theorem exists_cut {row : List WireFrame} {received : Bytes} (before : received <+: row.flatMap bytes)
    (short : received ≠ row.flatMap bytes) :
    ∃ done following later cut, row = done ++ following :: later ∧ received = done.flatMap bytes ++ cut ∧
      Begins cut following := by
  induction row generalizing received with
  | nil => exact absurd (List.prefix_nil.mp before) short
  | cons wire rest ih =>
    rw [List.flatMap_cons] at before short
    rcases List.prefix_or_prefix_of_prefix before (List.prefix_append wire.bytes _) with inside | past
    · by_cases whole : received = wire.bytes
      · subst whole
        rcases rest with _ | ⟨following, later⟩
        · exact absurd (List.append_nil _).symm short
        · refine ⟨[wire], following, later, [], rfl, ?_, List.nil_prefix, (bytes_ne_nil following).symm⟩
          rw [List.flatMap_singleton, List.append_nil]
      · exact ⟨[], wire, rest, received, rfl, rfl, inside, whole⟩
    · obtain ⟨beyond, rfl⟩ := past
      obtain ⟨done, following, later, cut, rfl, rfl, begins⟩ :=
        ih ((List.prefix_append_right_inj _).mp before) fun same => short (by rw [same])
      refine ⟨wire :: done, following, later, cut, rfl, ?_, begins⟩
      rw [List.flatMap_cons, List.append_assoc]

/-- The complete frames and the beginning of the next are found in one way only. -/
theorem cut_unique {frames done later : List WireFrame} {next following : WireFrame} {tail cut : Bytes}
    (row : frames ++ [next] = done ++ following :: later) (begins : Begins cut following)
    (same : frames.flatMap bytes ++ tail = done.flatMap bytes ++ cut) : done = frames ∧ cut = tail := by
  have counted := congrArg List.length row
  simp only [List.length_append, List.length_cons, List.length_nil] at counted
  rcases Nat.lt_or_ge done.length frames.length with fewer | enough
  · -- the frame that follows would lie within the row's complete frames, past what was received
    exfalso
    obtain ⟨more, rfl⟩ : done ++ [following] <+: frames := by
      have front : done ++ [following] <+: frames ++ [next] := by
        rw [row]
        exact ⟨later, by rw [List.append_assoc]; rfl⟩
      apply List.prefix_of_prefix_length_le front
      · exact List.prefix_append ..
      · rw [List.length_append]
        exact fewer
    have lengths := congrArg List.length same
    have within := begins.length_lt
    simp only [List.flatMap_append, List.flatMap_singleton, List.length_append] at lengths
    omega
  · have whole : frames.length = done.length := by omega
    obtain ⟨rfl, _⟩ := List.append_inj row whole
    exact ⟨rfl, (List.append_cancel_left same).symm⟩

end WireFrame

namespace WebSocketManager

open WireFrame

/-- The reads of one connection, one after another: what stays in its receive buffer, and the frames
handled with the reactions to them. -/
def deliver (recv_buf : Bytes) : List Bytes → Except WsFault (Bytes × List (WsFrame × List Reaction))
  | [] => .ok (recv_buf, [])
  | chunk :: later => do
    let (left, handled) ← ProcessIncoming recv_buf chunk
    let (rest, more) ← deliver left later
    return (rest, handled ++ more)

theorem handleFrame_answered {wire : WireFrame} (ordinary : wire.Ordinary) :
    handleFrame wire.frame = .ok wire.answered.2 := by
  obtain ⟨open_, quiet⟩ := ordinary
  unfold handleFrame answered
  by_cases ping : wire.frame.opcode = .kPing
  · rw [if_pos ping, if_pos ping]
    rfl
  · rw [if_neg ping, if_neg open_, if_neg ping]
    split_ifs with text asks
    · exact absurd ⟨text, asks⟩ quiet
    · rfl
    · rfl

/-- The loop handles the complete frames and stops at the beginning of the next. -/
theorem decodeLoop_frames {done : List WireFrame} {following : WireFrame} {cut : Bytes}
    (ordinary : ∀ wire ∈ done, wire.Ordinary) (begins : Begins cut following)
    (bound : (done.flatMap bytes ++ cut).length < 2 ^ 64) :
    decodeLoop (done.flatMap bytes ++ cut) = .ok (cut, done.map answered) := by
  induction done with
  | nil =>
    have whole := declared_bytes following []
    rw [List.append_nil] at whole
    have end_lt : following.bytes.length < 2 ^ 64 := by
      have := bytes_lt following
      have := following.bound
      omega
    exact decodeLoop_stop (DecodeFrame_cut begins.1 whole end_lt (total_eq following).symm begins.2)
  | cons wire rest ih =>
    rw [List.flatMap_cons, List.append_assoc] at bound ⊢
    have fits : wire.declaration.total ≤ (wire.bytes ++ (rest.flatMap bytes ++ cut)).length := by
      rw [total_eq, List.length_append]
      exact Nat.le_add_right ..
    have holds : wire.declaration.payload ≤ maxSize := Nat.le_sub_one_of_lt wire.bound
    have remaining : (rest.flatMap bytes ++ cut).length < 2 ^ 64 := by
      rw [List.length_append] at bound
      omega
    rw [decodeLoop_frame (declared_bytes wire _) bound fits holds, frame_bytes, total_eq, List.drop_left,
      handleFrame_answered (ordinary wire List.mem_cons_self),
      ih (fun other member => ordinary other (List.mem_cons_of_mem _ member)) remaining]
    rfl

theorem deliver_concat {recv_buf left rest : Bytes} {seen : List Bytes} {chunk : Bytes}
    {handled more : List (WsFrame × List Reaction)} (before : deliver recv_buf seen = .ok (left, handled))
    (read : ProcessIncoming left chunk = .ok (rest, more)) :
    deliver recv_buf (seen ++ [chunk]) = .ok (rest, handled ++ more) := by
  induction seen generalizing recv_buf handled with
  | nil =>
    cases before
    rw [List.nil_append, deliver, read]
    exact congrArg Except.ok (congrArg (rest, ·) (List.append_nil more))
  | cons first later ih =>
    rw [deliver] at before
    cases one : ProcessIncoming recv_buf first with
    | error fault =>
      rw [one] at before
      cases before
    | ok result =>
      cases two : deliver result.1 later with
      | error fault =>
        rw [one] at before
        change (deliver result.1 later >>= _) = _ at before
        rw [two] at before
        cases before
      | ok others =>
        rw [one] at before
        change (deliver result.1 later >>= _) = _ at before
        rw [two] at before
        cases before
        rw [List.cons_append, deliver, one]
        change (deliver result.1 (later ++ [chunk]) >>= _) = _
        rw [ih two, List.append_assoc]
        rfl

/-- After the reads of a part of the row: its complete frames have been handled, and the buffer holds
the octets after the last of them. -/
theorem deliver_row {row : List WireFrame} (ordinary : ∀ wire ∈ row.dropLast, wire.Ordinary) {seen : List Bytes}
    (before : seen.flatten <+: row.flatMap bytes) (short : seen.flatten ≠ row.flatMap bytes)
    (reads : ∀ chunk ∈ seen, chunk.length ≤ 4096) :
    ∃ done following later cut, row = done ++ following :: later ∧ seen.flatten = done.flatMap bytes ++ cut ∧
      Begins cut following ∧ deliver [] seen = .ok (cut, done.map answered) := by
  induction seen using List.reverseRecOn with
  | nil =>
    rcases row with _ | ⟨following, later⟩
    · exact absurd rfl short
    · exact ⟨[], following, later, [], rfl, rfl, ⟨List.nil_prefix, (bytes_ne_nil following).symm⟩, rfl⟩
  | append_singleton seen chunk ih =>
    rw [List.flatten_concat] at before short ⊢
    have shorter : seen.flatten.length < (row.flatMap bytes).length := by
      refine lt_of_le_of_ne ((List.prefix_append ..).trans before).length_le fun same => short ?_
      apply before.eq_of_length_le
      rw [← same, List.length_append]
      exact Nat.le_add_right ..
    obtain ⟨done, following, later, cut, rfl, received, begins, delivered⟩ :=
      ih ((List.prefix_append ..).trans before) (fun same => absurd (congrArg List.length same) shorter.ne)
        fun other member => reads other (List.mem_append_left _ member)
    rw [received, List.append_assoc, List.flatMap_append] at before short
    obtain ⟨more, next, last, rest, split, buffered, ends⟩ := exists_cut
      ((List.prefix_append_right_inj _).mp before) fun same => short (by rw [same])
    have read : ProcessIncoming cut chunk = .ok (rest, more.map answered) := by
      rw [ProcessIncoming, buffered]
      apply decodeLoop_frames _ ends
      · have small := reads chunk (List.mem_append_right _ (List.mem_singleton_self _))
        have within := begins.length_lt
        have most := bytes_lt following
        have bound := following.bound
        rw [← buffered, List.length_append]
        omega
      · intro wire member
        apply ordinary
        rw [split, List.dropLast_append_of_ne_nil (by simp), List.dropLast_append_of_ne_nil (by simp)]
        exact List.mem_append_right _ (List.mem_append_left _ member)
    refine ⟨done ++ more, next, last, rest, by rw [split, List.append_assoc], ?_, ends, ?_⟩
    · rw [received, List.append_assoc, buffered, List.flatMap_append, List.append_assoc]
    · rw [List.map_append]
      exact deliver_concat delivered read

/-- However a row of frames and the beginning of another are cut into reads: after each read, the
frames handled are the complete frames received, in order and each with its answer, and the buffer
holds what was received after them; in the end every frame of the row has been handled. -/
theorem reads_rechunked (frames : List WireFrame) (next : WireFrame) (tail : Bytes) (chunks : List Bytes)
    (ordinary : ∀ wire ∈ frames, wire.Ordinary) (incomplete : Begins tail next)
    (stream : chunks.flatten = frames.flatMap bytes ++ tail) (reads : ∀ chunk ∈ chunks, chunk.length ≤ 4096) :
    (∀ seen, seen <+: chunks → ∃ done following later cut, frames ++ [next] = done ++ following :: later ∧
        seen.flatten = done.flatMap bytes ++ cut ∧ Begins cut following ∧
        deliver [] seen = .ok (cut, done.map answered)) ∧
      deliver [] chunks = .ok (tail, frames.map answered) := by
  have each : ∀ seen, seen <+: chunks → ∃ done following later cut,
      frames ++ [next] = done ++ following :: later ∧ seen.flatten = done.flatMap bytes ++ cut ∧
        Begins cut following ∧ deliver [] seen = .ok (cut, done.map answered) := by
    rintro seen ⟨unread, rfl⟩
    have row : (frames ++ [next]).flatMap bytes = frames.flatMap bytes ++ next.bytes := by
      rw [List.flatMap_append, List.flatMap_singleton]
    rw [List.flatten_append] at stream
    have inside : seen.flatten <+: frames.flatMap bytes ++ tail := ⟨_, stream⟩
    apply deliver_row
    · rwa [List.dropLast_concat]
    · rw [row]
      exact inside.trans ((List.prefix_append_right_inj _).mpr incomplete.1)
    · rw [row]
      intro same
      have most := inside.length_le
      have less := incomplete.length_lt
      rw [same, List.length_append, List.length_append] at most
      omega
    · exact fun chunk member => reads chunk (List.mem_append_left _ member)
  refine ⟨each, ?_⟩
  obtain ⟨done, following, later, cut, row, received, begins, delivered⟩ := each chunks List.prefix_rfl
  obtain ⟨rfl, rfl⟩ := cut_unique row begins (stream.symm.trans received)
  exact delivered

/-- A masked ping with the payload `Hi`. -/
def maskedPing : WireFrame where
  first := 0x89
  second := 2
  key := some countingKey
  payload := [0x48, 0x69]
  seven := by decide
  length := by decide
  bound := by decide

/-- An empty text frame. -/
def emptyText : WireFrame where
  first := 0x81
  second := 0
  key := none
  payload := []
  seven := by decide
  length := by decide
  bound := by decide

/-- A ping in three reads, the last of which also brings the first octet of a text frame. -/
theorem reads_rechunked_ping :
    deliver [] [[0x89], [0x82, 1, 2, 3], [4, 0x49, 0x6B, 0x81]] =
      .ok ([0x81], [(⟨.kPing, true, [0x48, 0x69]⟩, [.write [0x8A, 2, 0x48, 0x69]])]) := by
  apply (reads_rechunked [maskedPing] emptyText [0x81] _ _ _ (by decide) _).2
  · intro wire member
    rw [List.mem_singleton.mp member]
    exact ⟨by decide, by decide⟩
  · exact ⟨⟨[0], by decide⟩, by decide⟩
  · decide

end WebSocketManager

end Illuminator
