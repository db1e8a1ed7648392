import Illuminator.Soundness.Sha1Refinement

/-! # The accept value of the handshake

Hash and encoding are those of the standard, so the value sent is the standard one up to the constant
that is appended to the client's key. The program's constant is not the standard's. The two strings
hashed are then always different, and a client sees the value it expects only on a collision of SHA-1.
-/

namespace Illuminator

namespace WebSocketManager

open WebSocketCodec detail

/-- The standard's constant `258EAFA5-E914-47DA-95CA-C5AB0DC85B11`. -/
def standardGUID : Bytes :=
  [0x32, 0x35, 0x38, 0x45, 0x41, 0x46, 0x41, 0x35, 0x2D, 0x45, 0x39, 0x31, 0x34, 0x2D, 0x34, 0x37, 0x44,
    0x41, 0x2D, 0x39, 0x35, 0x43, 0x41, 0x2D, 0x43, 0x35, 0x41, 0x42, 0x30, 0x44, 0x43, 0x38, 0x35, 0x42,
    0x31, 0x31]

/-- What the standard prescribes for a key. -/
def standardAccept (key : Bytes) : Bytes := Base64.encode (SHA1.digest (key ++ standardGUID))

def crlf : Bytes := [0x0D, 0x0A]

/-- A response with an accept value. -/
def responseWith (accept : Bytes) : Bytes := responseHead ++ accept ++ crlf ++ crlf

/-- A header line of the request has the field `Sec-WebSocket-Key`, in any case, with this value between
optional blanks. -/
def CarriesKey (request key : Bytes) : Prop :=
  ∃ before name lead trail after,
    request = before ++ crlf ++ name ++ 0x3A :: lead ++ key ++ trail ++ crlf ++ after ∧
      ¬ (crlf ++ crlf) <:+: (before ++ crlf) ∧ name.map tolower = keyHeader.map tolower ∧
      (∀ blank ∈ lead ++ trail, blank = 0x20 ∨ blank = 0x09) ∧
      (∀ edge ∈ key.head?.toList ++ key.getLast?.toList, edge ≠ 0x20 ∧ edge ≠ 0x09) ∧ ¬ crlf <:+: key

/-- Two different messages with one digest. -/
def Collides (first second : Bytes) : Prop := first ≠ second ∧ SHA1.digest first = SHA1.digest second

theorem computeAcceptKey_eq {key : Bytes} (short : key.length ≤ 4095) :
    ComputeAcceptKey key = Base64.encode (SHA1.digest (key ++ kWebSocketGUID)) := by
  have guid : kWebSocketGUID.length = 36 := rfl
  rw [ComputeAcceptKey, base64Encode_eq, Sha1.final_eq]
  rw [List.length_append]
  omega

/-- The header value lies inside the request. -/
theorem extractHeader_length (request name : Bytes) : (ExtractHeader request name).length ≤ request.length := by
  unfold ExtractHeader
  simp only
  split
  · exact Nat.zero_le _
  · next pos _ =>
    calc _ ≤ ((request.drop (pos + (name.map tolower).length + 1)).dropWhile (· == 0x20)).length :=
          List.length_take_le' ..
      _ ≤ (request.drop (pos + (name.map tolower).length + 1)).length := (List.dropWhile_suffix _).length_le
      _ ≤ request.length := by rw [List.length_drop]; exact Nat.sub_le ..

/-- The response to an accepted request. -/
theorem accepted_response {arrived response path : Bytes} {written : ℤ}
    (accepted : AcceptLoop arrived written = .accepted response path) :
    response = responseWith (ComputeAcceptKey (ExtractHeader (readRequest arrived) keyHeader)) := by
  unfold AcceptLoop at accepted
  simp only at accepted
  split_ifs at accepted
  unfold PerformHandshake at accepted
  split at accepted
  · contradiction
  · next performed =>
    split_ifs at accepted
    obtain ⟨rfl, _⟩ := Admission.accepted.inj accepted
    simp only [Option.ite_none_left_eq_some, Option.some.injEq] at performed
    rw [← performed.2, responseWith, List.append_assoc _ crlf crlf]
    rfl

theorem digests_of_accepts {first second : Bytes}
    (same : Base64.encode (SHA1.digest first) = Base64.encode (SHA1.digest second)) :
    SHA1.digest first = SHA1.digest second :=
  Base64.encode_injective (by rw [SHA1.digest, SHA1.digest, SHA1.bytes_length, SHA1.bytes_length]) same

/-- **When the handshake conforms.** The response to an accepted request has the accept value prescribed
for every key the request carries exactly when the program's and the standard's strings for them collide. -/
theorem accept_conforms_iff {arrived response path : Bytes} {written : ℤ}
    (accepted : AcceptLoop arrived written = .accepted response path) :
    (∀ key, CarriesKey (readRequest arrived) key → response = responseWith (standardAccept key)) ↔
      ∀ key, CarriesKey (readRequest arrived) key →
        Collides (ExtractHeader (readRequest arrived) keyHeader ++ kWebSocketGUID) (key ++ standardGUID) := by
  have short : (ExtractHeader (readRequest arrived) keyHeader).length ≤ 4095 := by
    refine le_trans (extractHeader_length ..) ?_
    rw [readRequest, List.length_take]
    exact Nat.min_le_left ..
  rw [accepted_response accepted, computeAcceptKey_eq short]
  refine forall₂_congr fun key _ => ?_
  constructor
  · intro same
    simp only [responseWith, List.append_cancel_left_eq, List.append_cancel_right_eq] at same
    refine ⟨fun whole => ?_, digests_of_accepts same⟩
    have guids : kWebSocketGUID = standardGUID := List.append_inj_right' whole rfl
    exact absurd guids (by decide)
  · rintro ⟨_, digests⟩
    rw [standardAccept, digests]

/-- An upgrade request with the key of the standard's example, `dGhlIHNhbXBsZSBub25jZQ==`. -/
def sampleKey : Bytes :=
  [0x64, 0x47, 0x68, 0x6C, 0x49, 0x48, 0x4E, 0x68, 0x62, 0x58, 0x42, 0x73, 0x5A, 0x53, 0x42, 0x75, 0x62,
    0x32, 0x35, 0x6A, 0x5A, 0x51, 0x3D, 0x3D]

def sampleRequest : Bytes :=
  [0x47, 0x45, 0x54, 0x20, 0x2F, 0x77, 0x73, 0x2F, 0x63, 0x70, 0x75, 0x20, 0x48, 0x54, 0x54, 0x50, 0x2F,
    0x31, 0x2E, 0x31, 0x0D, 0x0A, 0x55, 0x70, 0x67, 0x72, 0x61, 0x64, 0x65, 0x3A, 0x20, 0x77, 0x65, 0x62,
    0x73, 0x6F, 0x63, 0x6B, 0x65, 0x74, 0x0D, 0x0A, 0x53, 0x65, 0x63, 0x2D, 0x57, 0x65, 0x62, 0x53, 0x6F,
    0x63, 0x6B, 0x65, 0x74, 0x2D, 0x4B, 0x65, 0x79, 0x3A, 0x20, 0x64, 0x47, 0x68, 0x6C, 0x49, 0x48, 0x4E,
    0x68, 0x62, 0x58, 0x42, 0x73, 0x5A, 0x53, 0x42, 0x75, 0x62, 0x32, 0x35, 0x6A, 0x5A, 0x51, 0x3D, 0x3D,
    0x0D, 0x0A, 0x0D, 0x0A]

/-- The value sent for the example, `oTYf8w8uN9dmWLQsgPa0ssJjDCY=`, and the prescribed one,
`s3pPLMBiTxaQ9kYGzzhZRbK+xOo=`. -/
def sampleSent : Bytes :=
  [0x6F, 0x54, 0x59, 0x66, 0x38, 0x77, 0x38, 0x75, 0x4E, 0x39, 0x64, 0x6D, 0x57, 0x4C, 0x51, 0x73, 0x67,
    0x50, 0x61, 0x30, 0x73, 0x73, 0x4A, 0x6A, 0x44, 0x43, 0x59, 0x3D]

def samplePrescribed : Bytes :=
  [0x73, 0x33, 0x70, 0x50, 0x4C, 0x4D, 0x42, 0x69, 0x54, 0x78, 0x61, 0x51, 0x39, 0x6B, 0x59, 0x47, 0x7A,
    0x7A, 0x68, 0x5A, 0x52, 0x62, 0x4B, 0x2B, 0x78, 0x4F, 0x6F, 0x3D]

theorem sampleRequest_carries : CarriesKey (readRequest sampleRequest) sampleKey :=
  ⟨sampleRequest.take 40, keyHeader, [0x20], [], crlf, by decide, by decide, rfl, by decide +kernel, by decide +kernel,
    by decide⟩

theorem sampleRequest_accepted :
    AcceptLoop sampleRequest 129 = .accepted (responseWith sampleSent) [0x2F, 0x77, 0x73, 0x2F, 0x63, 0x70, 0x75] := by
  decide +kernel

theorem sampleKey_prescribed : standardAccept sampleKey = samplePrescribed := by
  have computed : Base64Encode (Sha1.Final (Sha1.Update {} (sampleKey ++ standardGUID))) = samplePrescribed := by
    decide +kernel
  rw [standardAccept, ← Sha1.final_eq (by decide), ← base64Encode_eq, computed]

private theorem sample_differs :
    ¬ ∀ key, CarriesKey (readRequest sampleRequest) key → responseWith sampleSent = responseWith (standardAccept key) := by
  intro conforms
  have same := conforms sampleKey sampleRequest_carries
  rw [sampleKey_prescribed] at same
  exact absurd same (by decide)

/-- The example is accepted, with a response that is not the prescribed one. -/
theorem handshake_rejected :
    ∃ response path, AcceptLoop sampleRequest 129 = .accepted response path ∧
      ¬ ∀ key, CarriesKey (readRequest sampleRequest) key → response = responseWith (standardAccept key) :=
  ⟨_, _, sampleRequest_accepted, sample_differs⟩

/-- So its two strings do not collide. -/
theorem accept_conforms_iff_sample :
    ¬ ∀ key, CarriesKey (readRequest sampleRequest) key →
      Collides (ExtractHeader (readRequest sampleRequest) keyHeader ++ kWebSocketGUID) (key ++ standardGUID) := by
  rw [← accept_conforms_iff sampleRequest_accepted]
  exact sample_differs

end WebSocketManager

end Illuminator
