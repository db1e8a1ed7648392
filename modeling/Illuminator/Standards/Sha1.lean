import Illuminator.ToMathlib.BigEndian
import Mathlib.Data.UInt

/-! # The SHA-1 hash function

SHA-1 of a byte string, block by block as the standard describes it: the padded message is cut into
blocks of 64 bytes, each block is expanded to a schedule of 80 words, and 80 rounds mix the schedule
into a chaining value of five words.
-/

namespace SHA1

/-- Five words: the chaining value between blocks and the working variables of a block. -/
structure Chain where
  a : UInt32
  b : UInt32
  c : UInt32
  d : UInt32
  e : UInt32
  deriving DecidableEq

/-- The circular left shift `S^n`. -/
def rotl (n : ℕ) (x : UInt32) : UInt32 := ⟨x.toBitVec.rotateLeft n⟩

def initial : Chain := ⟨0x67452301, 0xEFCDAB89, 0x98BADCFE, 0x10325476, 0xC3D2E1F0⟩

/-- The word `W_t` of a block's schedule. -/
def schedule (block : List UInt8) (t : ℕ) : UInt32 :=
  if t < 16 then UInt32.ofNat (BigEndian.value ((block.drop (4 * t)).take 4))
  else rotl 1 (schedule block (t - 3) ^^^ schedule block (t - 8) ^^^ schedule block (t - 14) ^^^ schedule block (t - 16))

/-- The logical function `f(t; b, c, d)`. -/
def mix (t : ℕ) (b c d : UInt32) : UInt32 :=
  if t < 20 then (b &&& c) ||| (~~~b &&& d)
  else if t < 40 then b ^^^ c ^^^ d
  else if t < 60 then (b &&& c) ||| (b &&& d) ||| (c &&& d)
  else b ^^^ c ^^^ d

/-- The constant `K(t)`. -/
def constant (t : ℕ) : UInt32 :=
  if t < 20 then 0x5A827999 else if t < 40 then 0x6ED9EBA1 else if t < 60 then 0x8F1BBCDC else 0xCA62C1D6

def round (words : ℕ → UInt32) (v : Chain) (t : ℕ) : Chain :=
  ⟨rotl 5 v.a + mix t v.b v.c v.d + v.e + words t + constant t, v.a, rotl 30 v.b, v.c, v.d⟩

def Chain.add (x y : Chain) : Chain := ⟨x.a + y.a, x.b + y.b, x.c + y.c, x.d + y.d, x.e + y.e⟩

def compress (h : Chain) (block : List UInt8) : Chain := h.add ((List.range 80).foldl (round (schedule block)) h)

/-- The chaining value after all complete blocks of a message. -/
def chain (message : List UInt8) : Chain :=
  (List.range (message.length / 64)).foldl (fun h i => compress h ((message.drop (64 * i)).take 64)) initial

/-- One bit `1`, zeros up to eight bytes before a block's end, and the length in bits. -/
def pad (message : List UInt8) : List UInt8 :=
  message ++ 0x80 :: List.replicate ((119 - message.length % 64) % 64) 0 ++ BigEndian.digits 8 (8 * message.length)

def Chain.bytes (h : Chain) : List UInt8 :=
  [h.a, h.b, h.c, h.d, h.e].flatMap fun word => BigEndian.digits 4 word.toNat

def digest (message : List UInt8) : List UInt8 := (chain (pad message)).bytes

/-! ## More of a message -/

/-- The bytes after the last complete block. -/
def remainder (message : List UInt8) : List UInt8 := message.drop (64 * (message.length / 64))

@[simp] theorem remainder_length (message : List UInt8) : (remainder message).length = message.length % 64 := by
  rw [remainder, List.length_drop]
  omega

private theorem block_append (message more : List UInt8) {i : ℕ} (inside : i < message.length / 64) :
    ((message ++ more).drop (64 * i)).take 64 = (message.drop (64 * i)).take 64 := by
  rw [List.drop_append_of_le_length (by omega), List.take_append_of_le_length]
  rw [List.length_drop]
  omega

private theorem foldl_append (message more : List UInt8) :
    (List.range (message.length / 64)).foldl (fun h i => compress h (((message ++ more).drop (64 * i)).take 64))
      initial = chain message := by
  refine List.foldl_ext _ _ _ fun h i inside => ?_
  rw [block_append message more (List.mem_range.mp inside)]

/-- Bytes that complete a block. -/
theorem chain_complete (message more : List UInt8) (full : message.length % 64 + more.length = 64) (some : more ≠ []) :
    chain (message ++ more) = compress (chain message) (remainder message ++ more) ∧ remainder (message ++ more) = [] := by
  have filled := List.length_pos_iff.mpr some
  have blocks : (message ++ more).length / 64 = message.length / 64 + 1 := by
    rw [List.length_append]
    omega
  constructor
  · rw [chain, blocks, List.range_succ, List.foldl_append, foldl_append, List.foldl_cons, List.foldl_nil,
      List.drop_append_of_le_length (by omega), List.take_of_length_le]
    · rfl
    · rw [List.length_append, List.length_drop]
      omega
  · rw [remainder, blocks, List.drop_eq_nil_of_le]
    rw [List.length_append]
    omega

/-- Bytes that do not. -/
theorem chain_partial (message more : List UInt8) (room : message.length % 64 + more.length < 64) :
    chain (message ++ more) = chain message ∧ remainder (message ++ more) = remainder message ++ more := by
  have blocks : (message ++ more).length / 64 = message.length / 64 := by
    rw [List.length_append]
    omega
  constructor
  · rw [chain, blocks, foldl_append]
  · rw [remainder, blocks, List.drop_append_of_le_length (by omega), remainder]

/-- A digest has twenty bytes. -/
theorem bytes_length (h : Chain) : h.bytes.length = 20 := by
  simp [Chain.bytes]

end SHA1
