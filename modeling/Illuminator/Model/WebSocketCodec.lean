import Illuminator.Model.Strings
import Mathlib.Data.List.Basic
import Mathlib.Data.UInt

/-! # The WebSocket frame codec and a connection's decode loop

`size_t` and `uint64_t` values are `UInt64`, so the codec's sums wrap as they do in the program. An
access outside the buffer, a `resize` past the string's maximal size and a second lock of a held
mutex are faults rather than results. The loop of `ProcessIncoming` is followed for one connection
and one read: it decodes frames off the front of the receive buffer and reacts to each.
-/

namespace Illuminator

/-- `enum class WsOpcode : uint8_t`, which may hold any octet. -/
structure WsOpcode where
  value : UInt8
  deriving DecidableEq

namespace WsOpcode

def kContinuation : WsOpcode := ⟨0x0⟩
def kText : WsOpcode := ⟨0x1⟩
def kBinary : WsOpcode := ⟨0x2⟩
def kClose : WsOpcode := ⟨0x8⟩
def kPing : WsOpcode := ⟨0x9⟩
def kPong : WsOpcode := ⟨0xA⟩

end WsOpcode

structure WsFrame where
  opcode : WsOpcode
  fin : Bool
  payload : Bytes
  deriving DecidableEq

/-- What the program may do instead of returning: read past the buffer, throw from `resize`, erase
past the buffer, repeat a turn forever, or lock a mutex its thread already holds. -/
inductive WsFault where
  | read (index : UInt64)
  | length_error (requested : UInt64)
  | erase (count : UInt64)
  | stuck
  | relock
  deriving DecidableEq

namespace WebSocketCodec

/-- `std::string::max_size()`: the largest object is half the address space. -/
def maxSize : ℕ := 2 ^ 63 - 1

/-- The opening octets of `EncodeFrame`: opcode with FIN, and the length in its shortest form. -/
def frameHeader (opcode : WsOpcode) (len : UInt64) : Bytes :=
  (0x80 ||| opcode.value) ::
    if len ≤ 125 then [len.toUInt8]
    else if len ≤ 65535 then [126, ((len >>> 8) &&& 0xFF).toUInt8, (len &&& 0xFF).toUInt8]
    else 127 :: (List.range 8).reverse.map fun i => ((len >>> (8 * UInt64.ofNat i)) &&& 0xFF).toUInt8

def EncodeFrame (payload : Bytes) (opcode : WsOpcode) : Bytes :=
  frameHeader opcode (.ofNat payload.length) ++ payload

def EncodePongFrame (payload : Bytes) : Bytes := EncodeFrame payload .kPong

/-- `data[index]`. -/
def read (data : Bytes) (index : UInt64) : Except WsFault UInt8 :=
  match data[index.toNat]? with
  | some byte => .ok byte
  | none => .error (.read index)

/-- The declared payload length and the header size so far, unless the length is incomplete. -/
def readLength (data : Bytes) (len short : UInt64) : Except WsFault (Option (UInt64 × UInt64)) :=
  if short = 126 then
    if len < 4 then .ok none
    else do
      let high ← read data 2
      let low ← read data 3
      return some ((high.toUInt64 <<< 8) ||| low.toUInt64, 4)
  else if short = 127 then
    if len < 10 then .ok none
    else do
      let payload_len ← (List.range 8).foldlM (fun (total : UInt64) i => do
        let byte ← read data (2 + .ofNat i)
        return (total <<< 8) ||| byte.toUInt64) 0
      return some (payload_len, 10)
  else .ok (some (short, 2))

/-- Resize the payload and fill it, undoing the mask whose key ends the header. -/
def readPayload (data : Bytes) (masked : Bool) (header_size payload_len : UInt64) : Except WsFault Bytes :=
  if maxSize < payload_len.toNat then .error (.length_error payload_len)
  else (List.range payload_len.toNat).mapM fun i => do
    let byte ← read data (header_size + .ofNat i)
    if masked then
      let key ← read data (header_size - 4 + .ofNat i % 4)
      return byte ^^^ key
    else return byte

/-- `DecodeFrame`, with its out-parameter `consumed` second. -/
def DecodeFrame (data : Bytes) : Except WsFault (Option WsFrame × UInt64) := do
  let len := UInt64.ofNat data.length
  if len < 2 then return (none, 0)
  let b0 ← read data 0
  let b1 ← read data 1
  let masked := b1 &&& 0x80 != 0
  match ← readLength data len (b1 &&& 0x7F).toUInt64 with
  | none => return (none, 0)
  | some (payload_len, size) =>
    let header_size := if masked then size + 4 else size
    if len < header_size + payload_len then return (none, 0)
    let payload ← readPayload data masked header_size payload_len
    return (some ⟨⟨b0 &&& 0x0F⟩, b0 &&& 0x80 != 0, payload⟩, header_size + payload_len)

end WebSocketCodec

namespace WebSocketManager

/-- The bytes of `"subscribe:"`. -/
def subscribePrefix : Bytes := [0x73, 0x75, 0x62, 0x73, 0x63, 0x72, 0x69, 0x62, 0x65, 0x3A]

/-- What the loop does about a decoded frame. -/
inductive Reaction where
  | write (frame : Bytes)
  | remove
  deriving DecidableEq

/-- One turn's `switch`. `HandleTextMessage` locks `mu_` for a subscription, and the loop's thread
holds it. -/
def handleFrame (frame : WsFrame) : Except WsFault (List Reaction) :=
  if frame.opcode = .kPing then .ok [.write (WebSocketCodec.EncodePongFrame frame.payload)]
  else if frame.opcode = .kClose then .ok [.remove]
  else if frame.opcode = .kText then
    if subscribePrefix.isPrefixOf frame.payload then .error .relock else .ok []
  else .ok []

/-- The loop `while (!rb.empty())`: the bytes left in the buffer, and the frames handled with the
reactions to them. -/
def decodeLoop (rb : Bytes) : Except WsFault (Bytes × List (WsFrame × List Reaction)) :=
  if rb.isEmpty then .ok (rb, [])
  else do
    match ← WebSocketCodec.DecodeFrame rb with
    | (none, _) => return (rb, [])
    | (some frame, consumed) =>
      if rb.length < consumed.toNat then .error (.erase consumed)
      else
        let reactions ← handleFrame frame
        if _ : (rb.drop consumed.toNat).length < rb.length then
          let (left, handled) ← decodeLoop (rb.drop consumed.toNat)
          return (left, (frame, reactions) :: handled)
        else .error .stuck
termination_by rb.length
decreasing_by assumption

/-- One read for one connection: the chunk joins the receive buffer, and the loop runs. -/
def ProcessIncoming (recv_buf chunk : Bytes) : Except WsFault (Bytes × List (WsFrame × List Reaction)) :=
  decodeLoop (recv_buf ++ chunk)

end WebSocketManager

end Illuminator
