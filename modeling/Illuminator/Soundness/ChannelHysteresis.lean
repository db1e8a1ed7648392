import Illuminator.Model.ChannelCalls
import Illuminator.Model.GlobalConfig
import Illuminator.Soundness.AsyncChannelConservation

/-! # Backpressure hysteresis

Between the calls of one caller the flag is either where it was or where the last comparison put it, and
a comparison is made at the size the call leaves behind. A raised flag needs a size below the low mark to
fall, which no size is when the low mark is zero. The flag of a drained channel is down exactly when the
low mark is positive, or when the high mark is the capacity and the flag never rises.
-/

namespace Illuminator

namespace AsyncChannel

open LockFreeQueue (truncate)

variable {B : Type*}

/-- The size above which the flag rises. -/
def highMark (ch : AsyncChannel B) : ℕ := truncate (ch.capacity * ch.high_wm_)

/-- The size below which the flag falls. -/
def lowMark (ch : AsyncChannel B) : ℕ := truncate (ch.capacity * ch.low_wm_)

/-- The flag after a comparison at a size. -/
def gauge (ch : AsyncChannel B) (size : ℕ) : Bool :=
  if ch.backpressured_ then decide (ch.lowMark ≤ size) else decide (ch.highMark < size)

/-- What no call changes. -/
structure Fixed (ch next : AsyncChannel B) : Prop where
  capacity : next.capacity = ch.capacity
  high : next.high_wm_ = ch.high_wm_
  low : next.low_wm_ = ch.low_wm_

theorem Fixed.refl (ch : AsyncChannel B) : Fixed ch ch := ⟨rfl, rfl, rfl⟩

theorem Fixed.trans {ch middle next : AsyncChannel B} (first : Fixed ch middle) (second : Fixed middle next) :
    Fixed ch next :=
  ⟨second.capacity.trans first.capacity, second.high.trans first.high, second.low.trans first.low⟩

theorem Fixed.highMark {ch next : AsyncChannel B} (fixed : Fixed ch next) : next.highMark = ch.highMark := by
  rw [AsyncChannel.highMark, AsyncChannel.highMark, fixed.capacity, fixed.high]

theorem Fixed.lowMark {ch next : AsyncChannel B} (fixed : Fixed ch next) : next.lowMark = ch.lowMark := by
  rw [AsyncChannel.lowMark, AsyncChannel.lowMark, fixed.capacity, fixed.low]

/-- The flag is left alone. -/
structure Quiet (ch next : AsyncChannel B) : Prop extends Fixed ch next where
  flag : next.backpressured_ = ch.backpressured_

/-- The flag is compared once, at the size left behind. -/
structure Gauged (ch next : AsyncChannel B) : Prop extends Fixed ch next where
  flag : next.backpressured_ = ch.gauge next.SizeApprox

theorem Quiet.refl (ch : AsyncChannel B) : Quiet ch ch := ⟨.refl ch, rfl⟩

theorem Quiet.trans {ch middle next : AsyncChannel B} (first : Quiet ch middle) (second : Quiet middle next) :
    Quiet ch next :=
  ⟨first.toFixed.trans second.toFixed, second.flag.trans first.flag⟩

theorem Quiet.gauged {ch middle next : AsyncChannel B} (quiet : Quiet ch middle) (gauged : Gauged middle next) :
    Gauged ch next := by
  refine ⟨quiet.toFixed.trans gauged.toFixed, ?_⟩
  rw [gauged.flag, gauge, gauge, quiet.flag, quiet.highMark, quiet.lowMark]

theorem SizeApprox_eq (ch : AsyncChannel B) : ch.SizeApprox = ch.queue_.items.length := by
  rw [SizeApprox, LockFreeQueue.SizeApprox, if_pos ch.queue_.settled.ordered]
  exact ch.queue_.ring.items_length.symm

theorem size_le (ch : AsyncChannel B) : ch.SizeApprox ≤ ch.capacity := by
  have bounded := ch.queue_.settled.bounded
  rw [SizeApprox_eq, SettledQueue.items, LockFreeQueue.items_length]
  change _ ≤ ch.queue_.ring.capacity_
  omega

theorem tryPush_quiet {ch next : AsyncChannel B} {item : ChannelItem B} {ok : Bool}
    (called : ch.tryPush item = (next, ok)) : Quiet ch next := by
  cases called
  exact ⟨⟨(ch.queue_.TryPush_spec item).2.1, rfl, rfl⟩, rfl⟩

theorem bump_quiet (ch : AsyncChannel B) (counter : Counter) : Quiet ch (ch.bump counter) :=
  ⟨⟨rfl, rfl, rfl⟩, rfl⟩

theorem updated_queue (ch : AsyncChannel B) : ch.updated.queue_ = ch.queue_ := by
  unfold updated
  split_ifs <;> rfl

theorem updated_gauged (ch : AsyncChannel B) : Gauged ch ch.updated := by
  have low : ch.queue_.ring.BelowLowWatermark ch.low_wm_ = decide (ch.SizeApprox < ch.lowMark) := rfl
  have high : ch.queue_.ring.AboveHighWatermark ch.high_wm_ = decide (ch.highMark < ch.SizeApprox) := rfl
  have size : ch.updated.SizeApprox = ch.SizeApprox := by rw [SizeApprox, updated_queue, SizeApprox]
  refine ⟨?_, ?_⟩
  · unfold updated
    split_ifs <;> exact ⟨rfl, rfl, rfl⟩
  · rw [size, gauge]
    unfold updated
    rw [low, high]
    split_ifs with flag below above
    · exact (decide_eq_false (not_le.mpr (of_decide_eq_true below))).symm
    · rw [flag]
      exact (decide_eq_true (not_lt.mp (of_decide_eq_false (Bool.eq_false_iff.mpr below)))).symm
    · exact above.symm
    · rw [Bool.eq_false_iff.mpr flag]
      exact (Bool.eq_false_iff.mpr above).symm

theorem counted_gauged (ch : AsyncChannel B) (counter : Counter) : Gauged ch (ch.bump counter).updated :=
  (bump_quiet ch counter).gauged (updated_gauged _)

theorem Gauged.raised {ch next : AsyncChannel B} (gauged : Gauged ch next) (down : ch.backpressured_ = false)
    (up : next.backpressured_ = true) : ch.highMark < next.SizeApprox := by
  rw [gauged.flag, gauge, down] at up
  exact of_decide_eq_true up

theorem Gauged.released {ch next : AsyncChannel B} (gauged : Gauged ch next) (up : ch.backpressured_ = true)
    (down : next.backpressured_ = false) : next.SizeApprox < ch.lowMark := by
  rw [gauged.flag, gauge, up] at down
  exact not_le.mp (of_decide_eq_false down)

theorem items_bump (ch : AsyncChannel B) (counter : Counter) : (ch.bump counter).queue_ = ch.queue_ := rfl

variable [Inhabited B]

theorem tryPop_quiet {ch next : AsyncChannel B} {result : Option (ChannelItem B)}
    (called : ch.tryPop = (next, result)) : Quiet ch next := by
  cases called
  exact ⟨⟨(ch.queue_.TryPop_spec .movedFrom).2.1, rfl, rfl⟩, rfl⟩

theorem evict_quiet (ch : AsyncChannel B) : Quiet ch ch.evict := by
  unfold evict
  split
  · next popped => exact (tryPop_quiet popped).trans (bump_quiet ..)
  · next missed => exact tryPop_quiet missed

theorem TryEnqueue_gauged (ch : AsyncChannel B) (batch : B) : Gauged ch (ch.TryEnqueue batch).1 := by
  unfold TryEnqueue
  split
  · next pushed => exact (tryPush_quiet pushed).gauged (counted_gauged ..)
  · next refused =>
    split
    · exact (tryPush_quiet refused).gauged (counted_gauged ..)
    · have evicted := (tryPush_quiet refused).trans (evict_quiet _)
      split
      · next pushed => exact (evicted.trans (tryPush_quiet pushed)).gauged (counted_gauged ..)
      · next again => exact (evicted.trans (tryPush_quiet again)).gauged (counted_gauged ..)

theorem InjectFlush_quiet (ch : AsyncChannel B) : Quiet ch ch.InjectFlush.1 := by
  unfold InjectFlush
  split
  · next pushed => exact (tryPush_quiet pushed).trans (bump_quiet ..)
  · next refused =>
    have evicted := (tryPush_quiet refused).trans (evict_quiet _)
    split
    · next pushed => exact (evicted.trans (tryPush_quiet pushed)).trans (bump_quiet ..)
    · next again => exact evicted.trans (tryPush_quiet again)

theorem TryDequeue_gauged {ch : AsyncChannel B} {item : ChannelItem B} (taken : ch.TryDequeue.2 = some item) :
    Gauged ch ch.TryDequeue.1 := by
  unfold TryDequeue at taken ⊢
  split
  · next popped => exact (tryPop_quiet popped).gauged (counted_gauged ..)
  · next missed =>
    rw [missed] at taken
    cases taken

theorem TryDequeue_quiet {ch : AsyncChannel B} (nothing : ch.TryDequeue.2 = none) : Quiet ch ch.TryDequeue.1 := by
  unfold TryDequeue at nothing ⊢
  split
  · next popped =>
    rw [popped] at nothing
    cases nothing
  · next missed => exact tryPop_quiet missed

/-- A call leaves the flag alone or compares it at the size it leaves behind. -/
theorem perform_flag (ch : AsyncChannel B) (call : Call B) :
    Quiet ch (ch.perform call).1 ∨ Gauged ch (ch.perform call).1 := by
  have dequeued : Quiet ch ch.TryDequeue.1 ∨ Gauged ch ch.TryDequeue.1 := by
    cases result : ch.TryDequeue.2 with
    | none => exact Or.inl (TryDequeue_quiet result)
    | some item => exact Or.inr (TryDequeue_gauged result)
  cases call with
  | TryEnqueue batch => exact Or.inr (TryEnqueue_gauged ch batch)
  | InjectFlush => exact Or.inl (InjectFlush_quiet ch)
  | Dequeue => exact dequeued
  | TryDequeue => exact dequeued

theorem perform_taken {ch : AsyncChannel B} {call : Call B} {item : ChannelItem B}
    (taken : (ch.perform call).2 = .dequeue (some item)) : Gauged ch (ch.perform call).1 := by
  cases call with
  | TryEnqueue batch => cases taken
  | InjectFlush => cases taken
  | Dequeue => exact TryDequeue_gauged (Reply.dequeue.inj taken)
  | TryDequeue => exact TryDequeue_gauged (Reply.dequeue.inj taken)

/-- What hysteresis asks of one call. -/
structure Hysteresis (ch : AsyncChannel B) (call : Call B) : Prop where
  raised : ch.IsBackpressured = false → (ch.perform call).1.IsBackpressured = true →
    truncate (ch.capacity * ch.high_wm_) < (ch.perform call).1.SizeApprox
  released : ch.IsBackpressured = true → (ch.perform call).1.IsBackpressured = false →
    (ch.perform call).1.SizeApprox < truncate (ch.capacity * ch.low_wm_)
  drained : ∀ item, (ch.perform call).2 = .dequeue (some item) → (ch.perform call).1.SizeApprox = 0 →
    (ch.perform call).1.IsBackpressured = false

/-- Hysteresis is a matter of the calls that drain the channel. -/
theorem hysteresis_of_drained {ch : AsyncChannel B} {call : Call B}
    (drained : ∀ item, (ch.perform call).2 = .dequeue (some item) → (ch.perform call).1.SizeApprox = 0 →
      (ch.perform call).1.backpressured_ = false) : Hysteresis ch call := by
  refine ⟨fun down up => ?_, fun up down => ?_, drained⟩
  · rcases perform_flag ch call with quiet | gauged
    · exact absurd (down.symm.trans (quiet.flag.symm.trans up)) Bool.false_ne_true
    · exact gauged.raised down up
  · rcases perform_flag ch call with quiet | gauged
    · exact absurd (down.symm.trans (quiet.flag.trans up)) Bool.false_ne_true
    · exact gauged.released up down

theorem perform_fixed (ch : AsyncChannel B) (call : Call B) : Fixed ch (ch.perform call).1 := by
  rcases perform_flag ch call with quiet | gauged
  · exact quiet.toFixed
  · exact gauged.toFixed

theorem performs_snoc (ch : AsyncChannel B) (calls : List (Call B)) (call : Call B) :
    ch.performs (calls ++ [call]) = ((ch.performs calls).perform call).1 := by
  rw [performs, List.foldl_append]
  rfl

theorem performs_fixed (ch : AsyncChannel B) (calls : List (Call B)) : Fixed ch (ch.performs calls) := by
  induction calls using List.reverseRecOn with
  | nil => exact .refl ch
  | append_singleton calls call ih =>
    rw [performs_snoc]
    exact ih.trans (perform_fixed ..)

/-- A positive low mark lets the flag of a drained channel fall. -/
theorem hysteresis_of_low {ch : AsyncChannel B} (low : 1 ≤ ch.lowMark) (call : Call B) : Hysteresis ch call := by
  refine hysteresis_of_drained fun item taken empty => ?_
  rw [(perform_taken taken).flag, gauge, empty]
  split_ifs
  · exact decide_eq_false (by omega)
  · exact decide_eq_false (Nat.not_lt_zero _)

/-- A high mark that no size exceeds keeps the flag from rising. -/
theorem down_of_high {ch : AsyncChannel B} (high : ch.capacity ≤ ch.highMark) (down : ch.backpressured_ = false)
    (call : Call B) : (ch.perform call).1.backpressured_ = false := by
  rcases perform_flag ch call with quiet | gauged
  · exact quiet.flag.trans down
  · have bound := size_le (ch.perform call).1
    rw [gauged.capacity] at bound
    rw [gauged.flag, gauge, down]
    exact decide_eq_false (by omega)

theorem performs_down {ch : AsyncChannel B} (high : ch.capacity ≤ ch.highMark) (down : ch.backpressured_ = false)
    (calls : List (Call B)) : (ch.performs calls).backpressured_ = false := by
  induction calls using List.reverseRecOn with
  | nil => exact down
  | append_singleton calls call ih =>
    have fixed := performs_fixed ch calls
    rw [performs_snoc]
    exact down_of_high (by rw [fixed.capacity, fixed.highMark]; exact high) ih call

theorem TryEnqueue_room {ch : AsyncChannel B} (room : ch.SizeApprox < ch.capacity) (batch : B) :
    (ch.TryEnqueue batch).1.SizeApprox = ch.SizeApprox + 1 := by
  rw [SizeApprox_eq] at room
  have accepted : ch.tryPush (.batch batch) = ((ch.tryPush (.batch batch)).1, true) :=
    Prod.ext rfl ((ch.queue_.TryPush_spec _).1.trans (decide_eq_true room))
  rw [TryEnqueue, accepted, SizeApprox_eq, SizeApprox_eq, updated_queue, items_bump, tryPush_items accepted]
  exact List.length_append

theorem TryDequeue_some {ch : AsyncChannel B} (present : 0 < ch.SizeApprox) :
    ∃ item, ch.TryDequeue.2 = some item ∧ ch.TryDequeue.1.SizeApprox + 1 = ch.SizeApprox := by
  rw [SizeApprox_eq] at present
  obtain ⟨item, rest, items⟩ := List.exists_cons_of_length_pos present
  have first : (ch.queue_.TryPop .movedFrom).2 = some item := by
    rw [(ch.queue_.TryPop_spec .movedFrom).1, items]
    rfl
  have popped : ch.tryPop = (ch.tryPop.1, some item) := Prod.ext rfl first
  have left := congrArg List.length (tryPop_items popped)
  refine ⟨item, ?_, ?_⟩
  · rw [TryDequeue, popped]
  · rw [TryDequeue, popped, SizeApprox_eq, SizeApprox_eq, updated_queue, items_bump, left, List.length_append]
    exact Nat.add_comm _ _

/-- With a low mark of zero a raised flag stays. -/
theorem stays_up {ch : AsyncChannel B} (low : ch.lowMark = 0) (up : ch.backpressured_ = true) (call : Call B) :
    (ch.perform call).1.backpressured_ = true := by
  rcases perform_flag ch call with quiet | gauged
  · exact quiet.flag.trans up
  · rw [gauged.flag, gauge, up]
    exact decide_eq_true (by omega)

/-- Filling an empty channel takes its capacity in calls. -/
theorem filled {ch : AsyncChannel B} (empty : ch.SizeApprox = 0) (batch : B) {n : ℕ} (room : n ≤ ch.capacity) :
    (ch.performs (List.replicate n (.TryEnqueue batch))).SizeApprox = n := by
  induction n with
  | zero => exact empty
  | succ n ih =>
    have before := ih (by omega)
    rw [List.replicate_succ', performs_snoc]
    refine (TryEnqueue_room ?_ batch).trans (by rw [before])
    rw [before, (performs_fixed ..).capacity]
    omega

/-- Filling a channel raises its flag when the last size is above the high mark. -/
theorem filled_up {ch : AsyncChannel B} (empty : ch.SizeApprox = 0) (low : ch.lowMark = 0) (batch : B) {n : ℕ}
    (room : n < ch.capacity) (high : ch.highMark ≤ n) :
    (ch.performs (List.replicate (n + 1) (.TryEnqueue batch))).backpressured_ = true := by
  have size := filled empty batch (n := n + 1) room
  rw [List.replicate_succ', performs_snoc] at size ⊢
  have fixed := performs_fixed ch (List.replicate n (.TryEnqueue batch))
  generalize ch.performs (List.replicate n (.TryEnqueue batch)) = middle at size fixed ⊢
  refine (TryEnqueue_gauged middle batch).flag.trans ?_
  rw [gauge]
  have mark := fixed.highMark
  have bottom := fixed.lowMark
  have after : (middle.TryEnqueue batch).1.SizeApprox = n + 1 := size
  split_ifs
  · exact decide_eq_true (by omega)
  · exact decide_eq_true (by omega)

/-- The call that drains the channel leaves its flag raised. -/
def Stuck (ch : AsyncChannel B) (item : ChannelItem B) : Prop :=
  (ch.perform .TryDequeue).2 = .dequeue (some item) ∧ (ch.perform .TryDequeue).1.SizeApprox = 0 ∧
    (ch.perform .TryDequeue).1.IsBackpressured = true

/-- With a low mark of zero a channel is drained under a raised flag. -/
theorem drained_up {ch : AsyncChannel B} (low : ch.lowMark = 0) (up : ch.backpressured_ = true) {n : ℕ}
    (size : ch.SizeApprox = n + 1) : ∃ calls item, Stuck (ch.performs calls) item := by
  induction n generalizing ch with
  | zero =>
    obtain ⟨item, taken, left⟩ := TryDequeue_some (by omega : 0 < ch.SizeApprox)
    have empty : ch.TryDequeue.1.SizeApprox = 0 := by omega
    exact ⟨[], item, congrArg Reply.dequeue taken, empty, stays_up low up .TryDequeue⟩
  | succ n ih =>
    obtain ⟨item, taken, left⟩ := TryDequeue_some (by omega : 0 < ch.SizeApprox)
    have smaller : ch.TryDequeue.1.SizeApprox = n + 1 := by omega
    have still : (ch.perform .TryDequeue).1.lowMark = 0 := (perform_fixed ch .TryDequeue).lowMark.trans low
    obtain ⟨calls, last, stuck⟩ := ih still (stays_up low up .TryDequeue) smaller
    exact ⟨.TryDequeue :: calls, last, stuck⟩

theorem performs_append (ch : AsyncChannel B) (first second : List (Call B)) :
    ch.performs (first ++ second) = (ch.performs first).performs second :=
  List.foldl_append

theorem stuck_of_empty {ch : AsyncChannel B} (empty : ch.SizeApprox = 0) (low : ch.lowMark = 0)
    (high : ch.highMark < ch.capacity) : ∃ calls item, Stuck (ch.performs calls) item := by
  have up := filled_up empty low default high le_rfl
  have size := filled empty default (n := ch.highMark + 1) high
  have mark := (performs_fixed ch (List.replicate (ch.highMark + 1) (.TryEnqueue default))).lowMark
  obtain ⟨calls, item, stuck⟩ := drained_up (mark.trans low) up size
  rw [← performs_append] at stuck
  exact ⟨_, item, stuck⟩

/-- From an empty channel with its flag down, every call obeys hysteresis exactly when the low mark is
positive or the high mark is out of reach. -/
theorem hysteresis_of_empty {ch : AsyncChannel B} (empty : ch.SizeApprox = 0) (down : ch.backpressured_ = false) :
    (∀ calls call, Hysteresis (ch.performs calls) call) ↔ 1 ≤ ch.lowMark ∨ ch.capacity ≤ ch.highMark := by
  constructor
  · intro obeyed
    by_contra corner
    rw [not_or, Nat.one_le_iff_ne_zero, not_not, not_le] at corner
    obtain ⟨calls, item, taken, drained, up⟩ := stuck_of_empty empty corner.1 corner.2
    exact Bool.false_ne_true (((obeyed calls .TryDequeue).drained item taken drained).symm.trans up)
  · rintro (low | high) calls call
    · exact hysteresis_of_low (by rw [(performs_fixed ch calls).lowMark]; exact low) call
    · refine hysteresis_of_drained fun _ _ _ => ?_
      rw [← performs_snoc]
      exact performs_down high down _

end AsyncChannel

namespace PipelineController

open LockFreeQueue (truncate)

variable {B : Type*} [Inhabited B]

theorem ingest_channel_capacity (cfg : ChannelConfig) (high low : ℚ) :
    (ingest_channel cfg high low : AsyncChannel B).capacity = (resolve_capacity cfg.size).toNat :=
  congrArg UInt64.toNat (resolve_capacity_rounded cfg.size)

theorem le_truncate {n : ℕ} (positive : 0 < n) {x : ℚ} : n ≤ truncate x ↔ (n : ℚ) ≤ x := by
  have whole : n ≤ x.floor.toNat ↔ (n : ℤ) ≤ x.floor := by omega
  rw [truncate, whole, Rat.le_floor_iff, Int.cast_natCast]

theorem le_truncate_mul {n : ℕ} (positive : 0 < n) {x : ℚ} (bound : x ≤ 1) : n ≤ truncate (n * x) ↔ x = 1 := by
  have scale : (0 : ℚ) < n := Nat.cast_pos.mpr positive
  rw [le_truncate positive]
  constructor
  · intro full
    exact le_antisymm bound (le_of_mul_le_mul_left ((mul_one (n : ℚ)).le.trans full) scale)
  · rintro rfl
    exact (mul_one (n : ℚ)).ge

/-- For every accepted configuration whose thresholds are numbers, the calls of one caller obey hysteresis
exactly when the low threshold reaches one item of the capacity, or the high threshold is all of it. -/
theorem hysteresis_iff {c : GlobalConfig} (valid : (YamlConfigLoader.ValidateConfig c).ok = true) {high low : ℚ}
    (top : c.channel.backpressure_high = .finite high) (bottom : c.channel.backpressure_low = .finite low) :
    (∀ calls call, ((ingest_channel c.channel high low : AsyncChannel B).performs calls).Hysteresis call) ↔
      1 ≤ ((resolve_capacity c.channel.size).toNat : ℚ) * low ∨ high = 1 := by
  rcases YamlConfigLoader.accepted_thresholds valid with ⟨h, l, isHigh, isLow, _, _, bound⟩ | missing | missing
  · cases top.symm.trans isHigh
    cases bottom.symm.trans isLow
    have capacity := ingest_channel_capacity (B := B) c.channel high low
    have slots := resolve_capacity_slots c.channel.size
    rw [resolve_capacity_rounded] at slots
    have lowMark : (ingest_channel c.channel high low : AsyncChannel B).lowMark =
        truncate ((resolve_capacity c.channel.size).toNat * low) := by
      rw [AsyncChannel.lowMark, capacity]
      rfl
    have highMark : (ingest_channel c.channel high low : AsyncChannel B).highMark =
        truncate ((resolve_capacity c.channel.size).toNat * high) := by
      rw [AsyncChannel.highMark, capacity]
      rfl
    rw [AsyncChannel.hysteresis_of_empty rfl rfl, lowMark, highMark, capacity, le_truncate Nat.one_pos, Nat.cast_one,
      le_truncate_mul (by omega) bound]
  · cases top.symm.trans missing
  · cases bottom.symm.trans missing

theorem hysteresis_iff_default :
    (∀ calls call, ((ingest_channel {} (3602879701896397 / 4503599627370496)
        (3602879701896397 / 18014398509481984) : AsyncChannel ℕ).performs calls).Hysteresis call) ↔
      1 ≤ ((resolve_capacity "medium").toNat : ℚ) * (3602879701896397 / 18014398509481984) ∨
        (3602879701896397 / 4503599627370496 : ℚ) = 1 :=
  hysteresis_iff (c := {}) (by decide +kernel) rfl rfl

/-- An accepted configuration that releases at 0.0. -/
def releaseAtZero : GlobalConfig where
  channel := { size := "small", backpressure_high := .finite (1 / 2), backpressure_low := .finite 0 }

/-- It is accepted, and some calls drain its channel under a raised flag. -/
theorem releaseAtZero_stuck :
    (YamlConfigLoader.ValidateConfig releaseAtZero).ok = true ∧
      (∃ calls item,
        ((ingest_channel releaseAtZero.channel (1 / 2) 0 : AsyncChannel ℕ).performs calls).Stuck item) ∧
      ¬ ∀ calls call,
        ((ingest_channel releaseAtZero.channel (1 / 2) 0 : AsyncChannel ℕ).performs calls).Hysteresis call := by
  have capacity := ingest_channel_capacity (B := ℕ) releaseAtZero.channel (1 / 2) 0
  have size : (resolve_capacity releaseAtZero.channel.size).toNat = 1024 := by decide +kernel
  have low : (ingest_channel releaseAtZero.channel (1 / 2) 0 : AsyncChannel ℕ).lowMark = 0 := by
    rw [AsyncChannel.lowMark, capacity, size]
    decide +kernel
  have high : (ingest_channel releaseAtZero.channel (1 / 2) 0 : AsyncChannel ℕ).highMark = 512 := by
    rw [AsyncChannel.highMark, capacity, size]
    decide +kernel
  have bound : (512 : ℕ) < 1024 := by decide
  rw [← high, ← size, ← capacity] at bound
  have stuck := AsyncChannel.stuck_of_empty rfl low bound
  refine ⟨by decide +kernel, stuck, fun obeyed => ?_⟩
  obtain ⟨calls, item, taken, drained, up⟩ := stuck
  exact Bool.false_ne_true (((obeyed calls .TryDequeue).drained item taken drained).symm.trans up)

end PipelineController

end Illuminator
