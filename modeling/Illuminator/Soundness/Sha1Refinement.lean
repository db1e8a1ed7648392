import Illuminator.Model.WebSocketHandshake
import Illuminator.Standards.Base64
import Illuminator.Standards.Sha1

/-! # The hand-written SHA-1 and base64

The class `Sha1` holds the chaining value of the complete blocks it has been given and the bytes
after them, however its input is cut into calls; its digest is that of the standard for every message
whose bit length fits the counter. `Base64Encode` is the standard encoding.
-/

namespace Illuminator

namespace detail

/-- The words as a chaining value. -/
def Words.chain (v : Words) : SHA1.Chain := ⟨v.a, v.b, v.c, v.d, v.e⟩

namespace Sha1

theorem rotL_one (x : UInt32) : RotL x 1 = SHA1.rotl 1 x := rfl

theorem rotL_five (x : UInt32) : RotL x 5 = SHA1.rotl 5 x := rfl

theorem rotL_thirty (x : UInt32) : RotL x 30 = SHA1.rotl 30 x := rfl

/-- Bits that do not overlap add up. -/
theorem or_low (high low shift : ℕ) (fits : low < 2 ^ shift) :
    high * 2 ^ shift ||| low = high * 2 ^ shift + low := by
  rw [← Nat.shiftLeft_eq, Nat.shiftLeft_add_eq_or_of_lt fits]

/-- Four bytes shifted into place are a big-endian number. -/
theorem word_value (a b c d : UInt8) :
    (a.toUInt32 <<< 24) ||| (b.toUInt32 <<< 16) ||| (c.toUInt32 <<< 8) ||| d.toUInt32 =
      UInt32.ofNat (BigEndian.value [a, b, c, d]) := by
  have bounds := And.intro (And.intro a.toNat_lt b.toNat_lt) (And.intro c.toNat_lt d.toNat_lt)
  have shifted (x : UInt8) (shift : UInt32) (small : shift.toNat % 32 ≤ 24) :
      (x.toUInt32 <<< shift).toNat = x.toNat * 2 ^ (shift.toNat % 32) := by
    have byte := x.toNat_lt
    have power : 2 ^ (shift.toNat % 32) ≤ 2 ^ 24 := Nat.pow_le_pow_right (by decide) small
    rw [UInt32.toNat_shiftLeft, UInt8.toNat_toUInt32, Nat.shiftLeft_eq, Nat.mod_eq_of_lt]
    calc x.toNat * 2 ^ (shift.toNat % 32) ≤ x.toNat * 2 ^ 24 := Nat.mul_le_mul_left _ power
      _ < 2 ^ 32 := by omega
  apply UInt32.toNat_inj.mp
  rw [UInt32.toNat_or, UInt32.toNat_or, UInt32.toNat_or, shifted a 24 (by decide), shifted b 16 (by decide),
    shifted c 8 (by decide), UInt8.toNat_toUInt32, UInt32.toNat_ofNat']
  change a.toNat * 2 ^ 24 ||| b.toNat * 2 ^ 16 ||| c.toNat * 2 ^ 8 ||| d.toNat = _
  rw [or_low a.toNat _ 24 (by omega), show a.toNat * 2 ^ 24 + b.toNat * 2 ^ 16 = (a.toNat * 2 ^ 8 + b.toNat) * 2 ^ 16 by ring,
    or_low _ _ 16 (by omega),
    show (a.toNat * 2 ^ 8 + b.toNat) * 2 ^ 16 + c.toNat * 2 ^ 8 =
      ((a.toNat * 2 ^ 8 + b.toNat) * 2 ^ 8 + c.toNat) * 2 ^ 8 by ring,
    or_low _ _ 8 (by omega)]
  simp only [BigEndian.value, List.foldl_cons, List.foldl_nil]
  omega

/-- The bytes of one word of a block. -/
private theorem take_four {block : Bytes} {i : ℕ} (inside : 4 * i + 4 ≤ block.length) :
    (block.drop (4 * i)).take 4 =
      [block.getD (i * 4) 0, block.getD (i * 4 + 1) 0, block.getD (i * 4 + 2) 0, block.getD (i * 4 + 3) 0] := by
  apply List.ext_getElem
  · simp
    omega
  · intro k short _
    simp only [List.length_take, List.length_drop] at short
    have four : k = 0 ∨ k = 1 ∨ k = 2 ∨ k = 3 := by omega
    rcases four with rfl | rfl | rfl | rfl <;>
      simp [List.getElem_take, List.getElem_drop, List.getD_eq_getElem?_getD, Nat.mul_comm] <;>
      rw [List.getElem?_eq_getElem (by omega)] <;> rfl

theorem blockWord_eq {block : Bytes} (long : block.length = 64) {i : ℕ} (inside : i < 16) :
    blockWord block i = SHA1.schedule block i := by
  rw [SHA1.schedule, if_pos inside, blockWord, word_value, take_four (by omega)]

/-- The loop over `w` fills in the schedule. -/
theorem expand_eq {block : Bytes} (long : block.length = 64) (turns : ℕ) :
    expand ((List.range 16).map (blockWord block)) turns = (List.range (16 + turns)).map (SHA1.schedule block) := by
  induction turns with
  | zero => exact List.map_congr_left fun i inside => blockWord_eq long (List.mem_range.mp inside)
  | succ turns ih =>
    have entry {i : ℕ} (inside : i < 16 + turns) :
        ((List.range (16 + turns)).map (SHA1.schedule block)).getD i 0 = SHA1.schedule block i := by
      simp [List.getD_eq_getElem?_getD, List.getElem?_range inside]
    rw [expand, List.range'_concat, List.foldl_append]
    change (fun w i => _) (expand _ turns) _ = _
    rw [ih]
    simp only [Nat.one_mul, List.foldl_cons, List.foldl_nil]
    have next : SHA1.schedule block (16 + turns) = SHA1.rotl 1 (SHA1.schedule block (16 + turns - 3) ^^^
        SHA1.schedule block (16 + turns - 8) ^^^ SHA1.schedule block (16 + turns - 14) ^^^
        SHA1.schedule block (16 + turns - 16)) := by
      rw [SHA1.schedule, if_neg (by omega)]
    rw [entry (by omega), entry (by omega), entry (by omega), entry (by omega), rotL_one, ← next, ← Nat.add_assoc,
      List.range_succ, List.map_append, List.map_singleton]

/-- A round with the words of the schedule. -/
theorem round_eq {block : Bytes} (v : Words) {i : ℕ} (inside : i < 80) :
    (round ((List.range 80).map (SHA1.schedule block)) v i).chain = SHA1.round (SHA1.schedule block) v.chain i := by
  have entry : ((List.range 80).map (SHA1.schedule block)).getD i 0 = SHA1.schedule block i := by
    simp [List.getD_eq_getElem?_getD, List.getElem?_range inside]
  have chosen : (if i < 20 then ((v.b &&& v.c) ||| (~~~v.b &&& v.d), 0x5A827999)
      else if i < 40 then (v.b ^^^ v.c ^^^ v.d, 0x6ED9EBA1)
      else if i < 60 then ((v.b &&& v.c) ||| (v.b &&& v.d) ||| (v.c &&& v.d), 0x8F1BBCDC)
      else (v.b ^^^ v.c ^^^ v.d, 0xCA62C1D6) : UInt32 × UInt32) =
      (SHA1.mix i v.b v.c v.d, SHA1.constant i) := by
    unfold SHA1.mix SHA1.constant
    split_ifs <;> rfl
  simp only [round, chosen, entry, rotL_five, rotL_thirty]
  rw [add_right_comm]
  rfl

theorem foldl_round_eq (block : Bytes) (v : Words) (rounds : List ℕ) (inside : ∀ i ∈ rounds, i < 80) :
    (rounds.foldl (round ((List.range 80).map (SHA1.schedule block))) v).chain =
      rounds.foldl (SHA1.round (SHA1.schedule block)) v.chain := by
  induction rounds generalizing v with
  | nil => rfl
  | cons i rest ih =>
    rw [List.foldl_cons, ih _ fun j member => inside j (List.mem_cons_of_mem _ member),
      round_eq v (inside i (List.mem_cons_self ..)), List.foldl_cons]

/-- `ProcessBlock` is the compression function. -/
theorem processBlock_eq (h : Words) {block : Bytes} (long : block.length = 64) :
    (ProcessBlock h block).chain = SHA1.compress h.chain block := by
  have mixed := foldl_round_eq block h (List.range 80) fun i member => List.mem_range.mp member
  rw [SHA1.compress, ← mixed, ProcessBlock, expand_eq long]
  rfl

/-! ## Messages -/

/-- What an object has taken in: the chaining value, the rest and the length of a message. -/
structure Absorbed (s : Sha1) (message : Bytes) : Prop where
  h_ : s.h_.chain = SHA1.chain message
  buf_ : s.buf_ = SHA1.remainder message
  total_ : s.total_ = .ofNat message.length

theorem absorbed_nil : Absorbed {} [] := ⟨rfl, rfl, rfl⟩

private theorem updateLoop_absorbed {turns : ℕ} {s : Sha1} {message data : Bytes} (absorbed : Absorbed s message)
    (enough : data.length ≤ turns) : Absorbed (updateLoop turns s data) (message ++ data) := by
  induction turns generalizing s message data with
  | zero =>
    obtain rfl := List.eq_nil_of_length_eq_zero (Nat.le_zero.mp enough)
    rwa [List.append_nil]
  | succ turns ih =>
    by_cases empty : data = []
    · rw [empty, List.append_nil]
      exact absorbed
    have filled := List.length_pos_iff.mpr empty
    have held : s.buf_.length = message.length % 64 := by rw [absorbed.buf_, SHA1.remainder_length]
    have total (take : ℕ) (fits : take ≤ data.length) :
        s.total_ + .ofNat take = .ofNat (message ++ data.take take).length := by
      rw [absorbed.total_, List.length_append, List.length_take, Nat.min_eq_left fits, UInt64.ofNat_add]
    have halves (take : ℕ) : (message ++ data.take take) ++ data.drop take = message ++ data := by
      rw [List.append_assoc, List.take_append_drop]
    rw [updateLoop, if_neg (by simpa using empty)]
    simp only
    generalize chosen : (if data.length < 64 - s.buf_.length then data.length else 64 - s.buf_.length) = take
    have range : 0 < take ∧ take ≤ data.length ∧ s.buf_.length + take ≤ 64 := by
      split_ifs at chosen <;> omega
    have taken : (data.take take).length = take := by
      rw [List.length_take]
      omega
    split_ifs with full
    · rw [List.length_append, taken, held] at full
      obtain ⟨chained, rest⟩ := SHA1.chain_complete message (data.take take) (by omega)
        (List.ne_nil_of_length_pos (by omega))
      rw [← halves take]
      refine ih ⟨?_, rest.symm, total take range.2.1⟩ (by rw [List.length_drop]; omega)
      rw [processBlock_eq _ (by rw [List.length_append, taken]; omega), absorbed.h_, absorbed.buf_, chained]
    · rw [List.length_append, taken, held] at full
      obtain ⟨chained, rest⟩ := SHA1.chain_partial message (data.take take) (by omega)
      rw [← halves take]
      refine ih ⟨absorbed.h_.trans chained.symm, ?_, total take range.2.1⟩ (by rw [List.length_drop]; omega)
      rw [rest, absorbed.buf_]

/-- `Update` takes in its bytes, wherever the block boundaries fall. -/
theorem update_absorbed {s : Sha1} {message : Bytes} (absorbed : Absorbed s message) (data : Bytes) :
    Absorbed (s.Update data) (message ++ data) :=
  updateLoop_absorbed absorbed (Nat.le_refl _)

/-- Zeros are added up to eight bytes before the end of a block. -/
private theorem padLoop_absorbed {turns zeros : ℕ} {s : Sha1} {message : Bytes} (absorbed : Absorbed s message)
    (ends : (message.length + zeros) % 64 = 56) (few : zeros < 64) (enough : zeros ≤ turns) :
    Absorbed (padLoop turns s) (message ++ List.replicate zeros 0) := by
  have held : s.buf_.length = message.length % 64 := by rw [absorbed.buf_, SHA1.remainder_length]
  induction zeros generalizing turns s message with
  | zero =>
    rw [List.replicate_zero, List.append_nil]
    cases turns with
    | zero => exact absorbed
    | succ turns =>
      rw [padLoop, if_pos (by omega)]
      exact absorbed
  | succ zeros ih =>
    obtain ⟨turns, rfl⟩ : ∃ fewer, turns = fewer + 1 := ⟨turns - 1, by omega⟩
    have next := update_absorbed absorbed [0]
    rw [padLoop, if_neg (by omega), List.replicate_succ, List.append_cons]
    refine ih next ?_ (by omega) (by omega) ?_
    · rw [List.length_append, List.length_singleton]
      omega
    · rw [next.buf_, SHA1.remainder_length]

private theorem lengthBytes_turns (bits : UInt64) (turns : ℕ) :
    (List.range turns).foldl (fun (bytes, bits) _ => ((bits &&& 0xFF).toUInt8 :: bytes, bits >>> 8))
      (([] : Bytes), bits) = (BigEndian.digits turns bits.toNat, UInt64.ofNat (bits.toNat / 256 ^ turns)) := by
  induction turns with
  | zero => simp [BigEndian.digits]
  | succ turns ih =>
    have mask : (0xFF : UInt64).toNat = 2 ^ 8 - 1 := rfl
    have small : bits.toNat / 256 ^ turns < 2 ^ 64 := lt_of_le_of_lt (Nat.div_le_self ..) bits.toNat_lt
    rw [List.range_succ, List.foldl_append, ih, BigEndian.digits_succ]
    simp only [List.foldl_cons, List.foldl_nil, Prod.mk.injEq, List.cons.injEq, and_true]
    constructor
    · apply UInt8.toNat_inj.mp
      rw [UInt64.toNat_toUInt8, UInt64.toNat_and, mask, Nat.and_two_pow_sub_one_eq_mod, UInt64.toNat_ofNat',
        UInt8.toNat_ofNat']
      omega
    · apply UInt64.toNat_inj.mp
      rw [UInt64.toNat_shiftRight, UInt64.toNat_ofNat', UInt64.toNat_ofNat', Nat.shiftRight_eq_div_pow,
        Nat.mod_eq_of_lt small, pow_succ, ← Nat.div_div_eq_div_mul]
      exact (Nat.mod_eq_of_lt (lt_of_le_of_lt (Nat.div_le_self ..) small)).symm

theorem lengthBytes_eq (bits : UInt64) : lengthBytes bits = BigEndian.digits 8 bits.toNat := by
  rw [lengthBytes, lengthBytes_turns]

private theorem low_byte (word : UInt32) : (word &&& 0xFF).toUInt8 = UInt8.ofNat word.toNat := by
  apply UInt8.toNat_inj.mp
  have mask : (0xFF : UInt32).toNat = 2 ^ 8 - 1 := rfl
  rw [UInt32.toNat_toUInt8, UInt32.toNat_and, mask, Nat.and_two_pow_sub_one_eq_mod, UInt8.toNat_ofNat']
  omega

theorem wordBytes_eq (word : UInt32) : wordBytes word = BigEndian.digits 4 word.toNat := by
  rw [wordBytes, low_byte, low_byte, low_byte, low_byte, UInt32.toNat_shiftRight, UInt32.toNat_shiftRight,
    UInt32.toNat_shiftRight, Nat.shiftRight_eq_div_pow, Nat.shiftRight_eq_div_pow, Nat.shiftRight_eq_div_pow]
  have written : BigEndian.digits 4 word.toNat = [.ofNat (word.toNat / 256 ^ 3), .ofNat (word.toNat / 256 ^ 2),
    .ofNat (word.toNat / 256 ^ 1), .ofNat (word.toNat / 256 ^ 0)] := rfl
  rw [written, pow_zero, Nat.div_one]
  rfl

/-- The marker and the zeros end eight bytes before the end of a block. -/
private theorem padded_absorbed {s : Sha1} {message : Bytes} (absorbed : Absorbed s message) :
    Absorbed (padLoop 64 (s.Update [0x80]))
        (message ++ [0x80] ++ List.replicate ((119 - message.length % 64) % 64) 0) ∧
      ((message ++ [0x80]).length + (119 - message.length % 64) % 64) % 64 = 56 := by
  have marked := update_absorbed absorbed [0x80]
  have ends : ((message ++ [0x80]).length + (119 - message.length % 64) % 64) % 64 = 56 := by
    rw [List.length_append, List.length_singleton]
    omega
  exact ⟨padLoop_absorbed marked ends (Nat.mod_lt _ (by decide)) (by omega), ends⟩

/-- Sixty-four turns are enough for the loop of `Final` to find the buffer filled up to 56 bytes. -/
theorem padLoop_stops {s : Sha1} {message : Bytes} (absorbed : Absorbed s message) :
    (padLoop 64 (s.Update [0x80])).buf_.length = 56 := by
  obtain ⟨padded, ends⟩ := padded_absorbed absorbed
  rw [padded.buf_, SHA1.remainder_length, List.length_append, List.length_replicate, ends]

/-- The class computes SHA-1. -/
theorem final_absorbed {s : Sha1} {message : Bytes} (taken : Absorbed s message) (fits : 8 * message.length < 2 ^ 64) :
    Final s = SHA1.digest message := by
  have bits : (s.total_ * 8).toNat = 8 * message.length := by
    rw [taken.total_, UInt64.toNat_mul, UInt64.toNat_ofNat']
    change message.length % 2 ^ 64 * 8 % 2 ^ 64 = _
    omega
  have last := update_absorbed (padded_absorbed taken).1 (lengthBytes (s.total_ * 8))
  have whole : message ++ [0x80] ++ List.replicate ((119 - message.length % 64) % 64) 0 ++
      lengthBytes (s.total_ * 8) = SHA1.pad message := by
    rw [lengthBytes_eq, bits, SHA1.pad]
    simp
  rw [whole] at last
  rw [SHA1.digest, ← last.h_, Final, SHA1.Chain.bytes]
  exact congrArg (List.flatMap · _) (funext wordBytes_eq)

theorem final_eq {message : Bytes} (fits : 8 * message.length < 2 ^ 64) :
    Final (Update {} message) = SHA1.digest message :=
  final_absorbed (update_absorbed absorbed_nil message) fits

/-! ## Several calls -/

/-- Calls of `Update` take in their bytes one after the other. -/
theorem foldl_update_absorbed (pieces : List Bytes) : Absorbed (pieces.foldl Update {}) pieces.flatten := by
  induction pieces using List.reverseRecOn with
  | nil => exact absorbed_nil
  | append_singleton pieces piece ih =>
    rw [List.foldl_append, List.flatten_append, List.flatten_singleton]
    exact update_absorbed ih piece

/-- However a message is cut into calls, its digest comes out, less than a block is ever held between them, and the loop
that pads stops. -/
theorem streams_digest (pieces : List Bytes) (short : pieces.flatten.length < 2 ^ 61) :
    Final (pieces.foldl Update {}) = SHA1.digest pieces.flatten ∧
      (∀ earlier, earlier <+: pieces → (earlier.foldl Update {}).buf_.length < 64) ∧
      (padLoop 64 ((pieces.foldl Update {}).Update [0x80])).buf_.length = 56 := by
  have taken := foldl_update_absorbed pieces
  refine ⟨final_absorbed taken (by omega), fun earlier _ => ?_, padLoop_stops taken⟩
  rw [(foldl_update_absorbed earlier).buf_, SHA1.remainder_length]
  exact Nat.mod_lt _ (by decide)

theorem streams_digest_abc :
    Final ((Update {} [0x61]).Update [0x62, 0x63]) = SHA1.digest [0x61, 0x62, 0x63] :=
  (streams_digest [[0x61], [0x62, 0x63]] (by decide)).1

end Sha1

/-! ## Base64 -/

theorem tbl_eq : tbl = Base64.alphabet := by decide

theorem tblAt_eq (n shift : UInt32) (small : shift.toNat < 32) :
    tblAt n shift = Base64.symbol (n.toNat / 2 ^ shift.toNat % 64) := by
  have mask : (0x3F : UInt32).toNat = 2 ^ 6 - 1 := rfl
  rw [tblAt, tbl_eq, UInt32.toNat_and, mask, Nat.and_two_pow_sub_one_eq_mod, UInt32.toNat_shiftRight,
    Nat.mod_eq_of_lt small, Nat.shiftRight_eq_div_pow]
  rfl

private theorem shifted (x : UInt8) :
    (x.toUInt32 <<< 16).toNat = x.toNat * 2 ^ 16 ∧ (x.toUInt32 <<< 8).toNat = x.toNat * 2 ^ 8 := by
  have byte := x.toNat_lt
  constructor
  · rw [UInt32.toNat_shiftLeft, UInt8.toNat_toUInt32, Nat.shiftLeft_eq]
    exact Nat.mod_eq_of_lt (by change x.toNat * 2 ^ 16 < 2 ^ 32; omega)
  · rw [UInt32.toNat_shiftLeft, UInt8.toNat_toUInt32, Nat.shiftLeft_eq]
    exact Nat.mod_eq_of_lt (by change x.toNat * 2 ^ 8 < 2 ^ 32; omega)

/-- The bytes of a turn, shifted into place, are the group's number. -/
private theorem group_eq (a b c : UInt8) :
    (a.toUInt32 <<< 16 ||| b.toUInt32 <<< 8 ||| c.toUInt32).toNat = Base64.group a b c := by
  have bounds := And.intro b.toNat_lt c.toNat_lt
  rw [UInt32.toNat_or, UInt32.toNat_or, (shifted a).1, (shifted b).2, UInt8.toNat_toUInt32,
    Sha1.or_low a.toNat _ 16 (by omega),
    show a.toNat * 2 ^ 16 + b.toNat * 2 ^ 8 = (a.toNat * 2 ^ 8 + b.toNat) * 2 ^ 8 by ring, Sha1.or_low _ _ 8 (by omega),
    Base64.group]
  omega

/-- `Base64Encode` is the standard encoding. -/
theorem base64Encode_eq (data : Bytes) : Base64Encode data = Base64.encode data := by
  have digits (n : UInt32) (bound : n.toNat < 64 ^ 4) :
      tblAt n 18 = Base64.symbol (n.toNat / 64 ^ 3) ∧ tblAt n 12 = Base64.symbol (n.toNat / 64 ^ 2 % 64) ∧
        tblAt n 6 = Base64.symbol (n.toNat / 64 % 64) ∧ tblAt n 0 = Base64.symbol (n.toNat % 64) := by
    refine ⟨?_, tblAt_eq n 12 (by decide), tblAt_eq n 6 (by decide), ?_⟩
    · rw [tblAt_eq n 18 (by decide)]
      exact congrArg Base64.symbol (Nat.mod_eq_of_lt (by change n.toNat / 2 ^ 18 < 64; omega))
    · rw [tblAt_eq n 0 (by decide)]
      exact congrArg (fun quotient => Base64.symbol (quotient % 64)) (Nat.div_one _)
  have turn (a b c : UInt8) := digits (a.toUInt32 <<< 16 ||| b.toUInt32 <<< 8 ||| c.toUInt32) (by
    have bounds := And.intro a.toNat_lt (And.intro b.toNat_lt c.toNat_lt)
    rw [group_eq, Base64.group]
    omega)
  simp only [group_eq] at turn
  induction data using Base64.encode.induct with
  | case1 a b c rest ih =>
    obtain ⟨first, second, third, fourth⟩ := turn a b c
    simp [Base64Encode, base64Turn, Base64.encode, ih, first, second, third, fourth]
  | case2 a b =>
    obtain ⟨first, second, third, _⟩ := turn a b 0
    simp [Base64Encode, base64Turn, Base64.encode, Base64.padding] at first second third ⊢
    exact ⟨first, second, third⟩
  | case3 a =>
    obtain ⟨first, second, _, _⟩ := turn a 0 0
    simp [Base64Encode, base64Turn, Base64.encode, Base64.padding] at first second ⊢
    exact ⟨first, second⟩
  | case4 => rfl

/-- What is encoded is decoded again without bits left over, and only its padding is not in the alphabet. -/
theorem base64Encode_canonical (data : Bytes) :
    Base64.decode (Base64Encode data) = some (data, 0) ∧
      (Base64Encode data).length = 4 * ((data.length + 2) / 3) ∧
      ∃ symbols, Base64Encode data = symbols ++ List.replicate ((3 - data.length % 3) % 3) Base64.padding ∧
        ∀ c ∈ symbols, c ∈ Base64.alphabet := by
  obtain ⟨symbols, text, listed, long⟩ := Base64.encode_shape data
  rw [base64Encode_eq]
  exact ⟨Base64.decode_encode data, long, symbols, text, listed⟩

end detail

end Illuminator
