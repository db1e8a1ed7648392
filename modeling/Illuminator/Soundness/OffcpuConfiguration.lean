import Illuminator.Soundness.OffcpuDelivery

/-! # Whether the configuration is honoured

`Init` is told the least duration and the processes of interest. The probe has a threshold of its own,
which is never set, and the source compares the number of the thread with the list. The configuration is
honoured exactly when for each interval the two thresholds and the two numbers come to the same.
-/

namespace Illuminator

namespace OffcpuProfiler

open Interleaving

/-- What the configuration asks for: a least duration in microseconds, and processes to look at. -/
structure Wish where
  min_duration_us : Int64
  target_pids : List UInt32

variable {wish : Wish} {tgid : Tid → UInt32} {i j : Interval}

def Wish.config (wish : Wish) : Config := Init wish.min_duration_us wish.target_pids

/-- The interval has lasted as long as it was configured. -/
def Wish.Long (wish : Wish) (i : Interval) : Prop := wish.min_duration_us.toInt * 1000 ≤ i.length

instance (wish : Wish) (i : Interval) : Decidable (wish.Long i) := inferInstanceAs (Decidable (_ ≤ _))

def Wish.Wants (wish : Wish) (tgid : Tid → UInt32) (i : Interval) : Prop :=
  wish.Long i ∧ (wish.target_pids = [] ∨ tgid i.back.next_pid ∈ wish.target_pids)

/-- An interval of the run is delivered exactly when the configuration asks for it. -/
def Honoured (wish : Wish) (tgid : Tid → UInt32) {τ : Type*} (history : List (τ × Event)) (s : Shared) : Prop :=
  ∀ i ∈ intervals (switchesOf history), i.sample wish.config ∈ (delivered history s).map untimed ↔ wish.Wants tgid i

/-- The probe's constant and the configured duration, the thread's number and its process's, come to the
same for an interval: one of the two thresholds alone is reached only if the list leaves the interval out. -/
def Wish.Agrees (wish : Wish) (tgid : Tid → UInt32) (i : Interval) : Prop :=
  if 100000 ≤ i.length then
    if wish.Long i then
      wish.target_pids = [] ∨ (i.back.next_pid ∈ wish.target_pids ↔ tgid i.back.next_pid ∈ wish.target_pids)
    else wish.target_pids ≠ [] ∧ i.back.next_pid ∉ wish.target_pids
  else wish.Long i → wish.target_pids ≠ [] ∧ tgid i.back.next_pid ∉ wish.target_pids

theorem keeps_config : wish.config.Keeps i = true ↔
    100000 ≤ i.length ∧ (wish.target_pids = [] ∨ i.back.next_pid ∈ wish.target_pids) := by
  rw [Config.Keeps, Bool.and_eq_true, decide_eq_true_iff, Config.AllowPid, Bool.or_eq_true, List.isEmpty_iff,
    List.contains_iff_mem]
  rfl

theorem agrees_iff : wish.Agrees tgid i ↔ (wish.config.Keeps i = true ↔ wish.Wants tgid i) := by
  rw [keeps_config, Wish.Wants, Wish.Agrees]
  split_ifs with long wished
  · by_cases all : wish.target_pids = []
    · simp only [long, wished, all, true_or, true_and]
    · simp only [long, wished, all, false_or, true_and]
  · simp only [long, wished, true_and, false_and, iff_false, not_or, ne_eq]
  · simp only [long, false_and, false_iff, not_and, not_or, ne_eq]

theorem length_lt (i : Interval) : i.length < 2 ^ 64 :=
  Nat.lt_of_le_of_lt (Nat.sub_le _ _) i.back.ts.toNat_lt

/-- A sample shows the length and the task of its interval. -/
theorem sample_injective {config : Config} (same : i.sample config = j.sample config) :
    i.length = j.length ∧ i.back.next_pid = j.back.next_pid := by
  have durations : UInt64.ofNat i.length = UInt64.ofNat j.length := congrArg StackSample.duration_ns same
  have lengths := congrArg UInt64.toNat durations
  rw [UInt64.toNat_ofNat', UInt64.toNat_ofNat', Nat.mod_eq_of_lt (length_lt i), Nat.mod_eq_of_lt (length_lt j)] at lengths
  exact ⟨lengths, congrArg StackSample.tid same⟩

theorem mem_due_iff {config : Config} {switches : List Switch} (present : i ∈ intervals switches) :
    i.sample config ∈ due config switches ↔ config.Keeps i = true := by
  rw [due, List.mem_map]
  constructor
  · rintro ⟨other, kept, same⟩
    obtain ⟨lengths, tasks⟩ := sample_injective same
    have keeps := (List.mem_filter.mp kept).2
    rwa [Config.Keeps, lengths, tasks] at keeps
  · intro keeps
    exact ⟨i, List.mem_filter.mpr ⟨present, keeps⟩, rfl⟩

variable {Caller : Type*} [DecidableEq Caller] {running : UInt32 → Tid}
  {history : List ((UInt32 ⊕ Option Caller) × Event)} {target : State Shared Pc (UInt32 ⊕ Option Caller)}

/-- Once the ring buffer has been polled empty, the configuration has been honoured exactly when for each
interval the thresholds and the numbers come to the same. -/
theorem honoured_iff (run : (program wish.config).Run (start Caller running) history target)
    (polled : target.shared.Polled) : Honoured wish tgid history target.shared ↔
      ∀ i ∈ intervals (switchesOf history), wish.Agrees tgid i := by
  have samples := delivered_of_polled run polled
  constructor
  · intro honoured i present
    have same := honoured i present
    rw [samples, mem_due_iff present] at same
    exact agrees_iff.mpr same
  · intro agrees i present
    rw [samples, mem_due_iff present]
    exact agrees_iff.mp (agrees i present)

/-- A millisecond off the CPU, with a least duration of a tenth of it. -/
theorem honoured_iff_millisecond : ∃ history target,
    (program (Wish.config ⟨100, []⟩)).Run (start Unit fun _ => 0) history target ∧ target.shared.Polled ∧
      (intervals (switchesOf history)).length = 1 ∧ Honoured ⟨100, []⟩ id history target.shared := by
  obtain ⟨history, target, run, polled, one, long⟩ := Program.exists_run_of_check (program (Wish.config ⟨100, []⟩))
    (start Unit fun _ => 0) (fun s history => (s.shared.handling = none ∧ s.shared.offcpu_events = []) ∧
      (intervals (switchesOf history)).length = 1 ∧
      ∀ i ∈ intervals (switchesOf history), 100000 ≤ i.length ∧ (Wish.mk 100 []).Long i)
    [(.inl 0, .switch 7 1000000 [] (-1) (-1)), (.inl 0, .switch 0 2000000 [] 3 4),
      (.inl 1, .switch 7 3000000 [] (-1) (-1)), (.inr none, .poll), (.inr none, .handle 5)] (by decide)
  refine ⟨history, target, run, polled, one, (honoured_iff run polled).mpr fun i present => ?_⟩
  rw [Wish.Agrees, if_pos (long i present).1, if_pos (long i present).2]
  exact Or.inl rfl

/-- With a least duration of a millisecond, half a millisecond is delivered. -/
theorem half_millisecond_delivered : ¬ ∀ (history : List ((UInt32 ⊕ Option Unit) × Event)) target,
    (program (Wish.config ⟨1000, []⟩)).Run (start Unit fun _ => 0) history target → target.shared.Polled →
      Honoured ⟨1000, []⟩ id history target.shared := by
  intro always
  obtain ⟨history, target, run, polled, i, present, short, shown⟩ := Program.exists_run_of_check
    (program (Wish.config ⟨1000, []⟩)) (start Unit fun _ => 0)
    (fun s history => (s.shared.handling = none ∧ s.shared.offcpu_events = []) ∧
      ∃ i ∈ intervals (switchesOf history), ¬ (Wish.mk 1000 []).Long i ∧
        i.sample (Wish.config ⟨1000, []⟩) ∈ (delivered history s.shared).map untimed)
    [(.inl 0, .switch 7 1000000 [] (-1) (-1)), (.inl 0, .switch 0 2000000 [] 3 4),
      (.inl 1, .switch 7 2500000 [] (-1) (-1)), (.inr none, .poll), (.inr none, .handle 5)] (by decide)
  exact short ((always history target run polled i present).mp shown).1

end OffcpuProfiler

end Illuminator
