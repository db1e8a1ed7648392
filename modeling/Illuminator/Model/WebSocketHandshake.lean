import Illuminator.Model.Strings
import Mathlib.Data.UInt

/-! # The WebSocket handshake

The hand-written SHA-1 and base64 of `detail`, the key that a handshake sends back, and what
`AcceptLoop` does with the one read it makes for a request. The part of `buf_` past `buf_len_` is
never read, so the buffer is its first `buf_len_` bytes. Numbers are those of the program, 32 and 64
bits wide.
-/

namespace Illuminator

/-- `kWebSocketGUID`. -/
def kWebSocketGUID : Bytes :=
  [0x32, 0x35, 0x38, 0x45, 0x41, 0x46, 0x41, 0x35, 0x2D, 0x45, 0x39, 0x31, 0x34, 0x2D, 0x34, 0x37, 0x44, 0x41,
    0x2D, 0x39, 0x35, 0x43, 0x41, 0x2D, 0x35, 0x41, 0x42, 0x35, 0x44, 0x43, 0x31, 0x31, 0x44, 0x36, 0x35, 0x42]

namespace detail

/-- The five words of `h_`, or the working variables of a block. -/
structure Words where
  a : UInt32
  b : UInt32
  c : UInt32
  d : UInt32
  e : UInt32
  deriving DecidableEq

structure Sha1 where
  h_ : Words := ⟨0x67452301, 0xEFCDAB89, 0x98BADCFE, 0x10325476, 0xC3D2E1F0⟩
  buf_ : Bytes := []
  total_ : UInt64 := 0
  deriving DecidableEq

namespace Sha1

def RotL (x n : UInt32) : UInt32 := (x <<< n) ||| (x >>> (32 - n))

/-- `w[i]` for the first sixteen words. -/
def blockWord (block : Bytes) (i : ℕ) : UInt32 :=
  ((block.getD (i * 4) 0).toUInt32 <<< 24) ||| ((block.getD (i * 4 + 1) 0).toUInt32 <<< 16) |||
    ((block.getD (i * 4 + 2) 0).toUInt32 <<< 8) ||| (block.getD (i * 4 + 3) 0).toUInt32

/-- The loop over `i` from 16 that fills the rest of `w`, for so many turns. -/
def expand (w : List UInt32) (turns : ℕ) : List UInt32 :=
  (List.range' 16 turns).foldl (fun w i =>
    w ++ [RotL (w.getD (i - 3) 0 ^^^ w.getD (i - 8) 0 ^^^ w.getD (i - 14) 0 ^^^ w.getD (i - 16) 0) 1]) w

/-- One of the 80 rounds. -/
def round (w : List UInt32) (v : Words) (i : ℕ) : Words :=
  let (f, k) : UInt32 × UInt32 :=
    if i < 20 then ((v.b &&& v.c) ||| (~~~v.b &&& v.d), 0x5A827999)
    else if i < 40 then (v.b ^^^ v.c ^^^ v.d, 0x6ED9EBA1)
    else if i < 60 then ((v.b &&& v.c) ||| (v.b &&& v.d) ||| (v.c &&& v.d), 0x8F1BBCDC)
    else (v.b ^^^ v.c ^^^ v.d, 0xCA62C1D6)
  let tmp := RotL v.a 5 + f + v.e + k + w.getD i 0
  ⟨tmp, v.a, RotL v.b 30, v.c, v.d⟩

def ProcessBlock (h_ : Words) (block : Bytes) : Words :=
  let w := expand ((List.range 16).map (blockWord block)) 64
  let v := (List.range 80).foldl (round w) h_
  ⟨h_.a + v.a, h_.b + v.b, h_.c + v.c, h_.d + v.d, h_.e + v.e⟩

/-- The loop of `Update` while bytes are left, for at most so many turns. -/
def updateLoop : ℕ → Sha1 → Bytes → Sha1
  | 0, s, _ => s
  | turns + 1, s, data =>
    if data.isEmpty then s
    else
      let room := 64 - s.buf_.length
      let take := if data.length < room then data.length else room
      let buf := s.buf_ ++ data.take take
      let total := s.total_ + .ofNat take
      if buf.length = 64 then updateLoop turns ⟨ProcessBlock s.h_ buf, [], total⟩ (data.drop take)
      else updateLoop turns ⟨s.h_, buf, total⟩ (data.drop take)

/-- Every turn takes at least one byte. -/
def Update (s : Sha1) (data : Bytes) : Sha1 := updateLoop data.length s data

/-- The loop of `Final` that adds zeros until `buf_len_` is 56, for at most so many turns. -/
def padLoop : ℕ → Sha1 → Sha1
  | 0, s => s
  | turns + 1, s => if s.buf_.length = 56 then s else padLoop turns (s.Update [0])

/-- `len_be`, filled from its last byte. -/
def lengthBytes (bits : UInt64) : Bytes :=
  ((List.range 8).foldl (fun (bytes, bits) _ => ((bits &&& 0xFF).toUInt8 :: bytes, bits >>> 8))
    (([] : Bytes), bits)).1

def wordBytes (word : UInt32) : Bytes :=
  [((word >>> 24) &&& 0xFF).toUInt8, ((word >>> 16) &&& 0xFF).toUInt8, ((word >>> 8) &&& 0xFF).toUInt8,
    (word &&& 0xFF).toUInt8]

def Final (s : Sha1) : Bytes :=
  let bits := s.total_ * 8
  let padded := padLoop 64 (s.Update [0x80])
  let last := padded.Update (lengthBytes bits)
  [last.h_.a, last.h_.b, last.h_.c, last.h_.d, last.h_.e].flatMap wordBytes

end Sha1

/-- `tbl`. -/
def tbl : Bytes :=
  [0x41, 0x42, 0x43, 0x44, 0x45, 0x46, 0x47, 0x48, 0x49, 0x4A, 0x4B, 0x4C, 0x4D, 0x4E, 0x4F, 0x50, 0x51, 0x52,
    0x53, 0x54, 0x55, 0x56, 0x57, 0x58, 0x59, 0x5A, 0x61, 0x62, 0x63, 0x64, 0x65, 0x66, 0x67, 0x68, 0x69, 0x6A,
    0x6B, 0x6C, 0x6D, 0x6E, 0x6F, 0x70, 0x71, 0x72, 0x73, 0x74, 0x75, 0x76, 0x77, 0x78, 0x79, 0x7A, 0x30, 0x31,
    0x32, 0x33, 0x34, 0x35, 0x36, 0x37, 0x38, 0x39, 0x2B, 0x2F]

/-- `tbl[(n >> shift) & 0x3F]`. -/
def tblAt (n shift : UInt32) : UInt8 := tbl.getD ((n >>> shift) &&& 0x3F).toNat 0

/-- One turn of the loop of `Base64Encode`, for the bytes at `i`, `i + 1` and `i + 2`. -/
def base64Turn (a : UInt8) (b c : Option UInt8) : Bytes :=
  let n := a.toUInt32 <<< 16
  let n := match b with
    | some b => n ||| (b.toUInt32 <<< 8)
    | none => n
  let n := match c with
    | some c => n ||| c.toUInt32
    | none => n
  [tblAt n 18, tblAt n 12, if b.isSome then tblAt n 6 else 0x3D, if c.isSome then tblAt n 0 else 0x3D]

def Base64Encode : Bytes → Bytes
  | a :: b :: c :: rest => base64Turn a (some b) (some c) ++ Base64Encode rest
  | [a, b] => base64Turn a (some b) none
  | [a] => base64Turn a none none
  | [] => []

def ComputeAcceptKey (client_key : Bytes) : Bytes :=
  Base64Encode (Sha1.Final (Sha1.Update {} (client_key ++ kWebSocketGUID)))

/-- `tolower` in the C locale. -/
def tolower (c : UInt8) : UInt8 := if 0x41 ≤ c ∧ c ≤ 0x5A then c + 0x20 else c

/-- `find` from a position on: the first position at which the needle stands. -/
def find (text needle : Bytes) (pos : ℕ) : Option ℕ :=
  ((List.range' pos (text.length + 1 - pos)).find? fun i => needle.isPrefixOf (text.drop i))

def ExtractHeader (request header_name : Bytes) : Bytes :=
  let lower_req := request.map tolower
  let lower_hdr := header_name.map tolower
  match find lower_req (lower_hdr ++ [0x3A]) 0 with
  | none => []
  | some pos =>
    let value := (request.drop (pos + lower_hdr.length + 1)).dropWhile (· == 0x20)
    value.take ((find value [0x0D, 0x0A] 0).getD value.length)

def ExtractPath (request : Bytes) : Bytes :=
  match find request [0x20] 0 with
  | none => [0x2F]
  | some sp1 =>
    match find request [0x20] (sp1 + 1) with
    | none => [0x2F]
    | some sp2 =>
      let full := (request.drop (sp1 + 1)).take (sp2 - sp1 - 1)
      match find full [0x3F] 0 with
      | some q => full.take q
      | none => full

end detail

namespace WebSocketCodec

/-- The bytes of `"Upgrade"`, `"websocket"` and `"Sec-WebSocket-Key"`. -/
def upgradeHeader : Bytes := [0x55, 0x70, 0x67, 0x72, 0x61, 0x64, 0x65]
def websocketToken : Bytes := [0x77, 0x65, 0x62, 0x73, 0x6F, 0x63, 0x6B, 0x65, 0x74]
def keyHeader : Bytes :=
  [0x53, 0x65, 0x63, 0x2D, 0x57, 0x65, 0x62, 0x53, 0x6F, 0x63, 0x6B, 0x65, 0x74, 0x2D, 0x4B, 0x65, 0x79]

/-- The bytes of the response up to the accept value:
`HTTP/1.1 101 Switching Protocols`, `Upgrade: websocket`, `Connection: Upgrade`, `Sec-WebSocket-Accept: `. -/
def responseHead : Bytes :=
  [0x48, 0x54, 0x54, 0x50, 0x2F, 0x31, 0x2E, 0x31, 0x20, 0x31, 0x30, 0x31, 0x20, 0x53, 0x77, 0x69, 0x74, 0x63,
    0x68, 0x69, 0x6E, 0x67, 0x20, 0x50, 0x72, 0x6F, 0x74, 0x6F, 0x63, 0x6F, 0x6C, 0x73, 0x0D, 0x0A, 0x55, 0x70,
    0x67, 0x72, 0x61, 0x64, 0x65, 0x3A, 0x20, 0x77, 0x65, 0x62, 0x73, 0x6F, 0x63, 0x6B, 0x65, 0x74, 0x0D, 0x0A,
    0x43, 0x6F, 0x6E, 0x6E, 0x65, 0x63, 0x74, 0x69, 0x6F, 0x6E, 0x3A, 0x20, 0x55, 0x70, 0x67, 0x72, 0x61, 0x64,
    0x65, 0x0D, 0x0A, 0x53, 0x65, 0x63, 0x2D, 0x57, 0x65, 0x62, 0x53, 0x6F, 0x63, 0x6B, 0x65, 0x74, 0x2D, 0x41,
    0x63, 0x63, 0x65, 0x70, 0x74, 0x3A, 0x20]

def IsUpgradeRequest (request : Bytes) : Bool :=
  (detail.ExtractHeader request upgradeHeader).map detail.tolower = websocketToken

/-- The response that `PerformHandshake` writes, if it writes one. -/
def PerformHandshake (request : Bytes) : Option Bytes :=
  let key := detail.ExtractHeader request keyHeader
  if key.isEmpty then none
  else some (responseHead ++ detail.ComputeAcceptKey key ++ [0x0D, 0x0A, 0x0D, 0x0A])

def GetUpgradePath (request : Bytes) : Bytes := detail.ExtractPath request

end WebSocketCodec

namespace WebSocketManager

/-- What `AcceptLoop` does with a connection after its read. -/
inductive Admission where
  | closed
  | badRequest
  | refused
  | accepted (response path : Bytes)
  deriving DecidableEq

/-- The bytes of the request: the read has room for 4095. -/
def readRequest (arrived : Bytes) : Bytes := arrived.take 4095

/-- One connection, from the bytes that have arrived at the read; `written` is what the write of the
response returns. -/
def AcceptLoop (arrived : Bytes) (written : ℤ) : Admission :=
  let request := readRequest arrived
  if request.isEmpty then .closed
  else if !WebSocketCodec.IsUpgradeRequest request then .badRequest
  else
    match WebSocketCodec.PerformHandshake request with
    | none => .refused
    | some response =>
      if written = response.length then .accepted response (WebSocketCodec.GetUpgradePath request) else .refused

end WebSocketManager

end Illuminator
