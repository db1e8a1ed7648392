import Illuminator.Model.AsyncChannel
import Illuminator.Model.ConfigValue
import Illuminator.Model.Status
import Mathlib.Tactic.NormNum

/-! # The daemon's configuration

`core/common/config.h` keeps what `core/config/yaml_config_loader.h` parses, and `ValidateConfig` decides
what is accepted. `BuildFromConfig` reads the ingest channel of every pipeline off the engine's section.
A parsed threshold is any `double`, and comparisons with a NaN are false. The fields that no definition
here reads are left out.
-/

namespace Illuminator

inductive Threshold where
  | finite (value : ℚ)
  | infinite (negative : Bool)
  | nan

namespace Threshold

def lt : Threshold → Threshold → Bool
  | .finite x, .finite y => decide (x < y)
  | .finite _, .infinite negative => !negative
  | .infinite negative, .finite _ => negative
  | .infinite negative, .infinite negative' => negative && !negative'
  | _, _ => false

def le : Threshold → Threshold → Bool
  | .finite x, .finite y => decide (x ≤ y)
  | .finite _, .infinite negative => !negative
  | .infinite negative, .finite _ => negative
  | .infinite negative, .infinite negative' => negative || !negative'
  | _, _ => false

end Threshold

structure StageConfig where
  type : String
  config : ConfigValue

structure PipelineConfig where
  name : String
  source : StageConfig
  processors : List StageConfig
  aggregator : Option StageConfig
  sinks : List StageConfig

/-- The defaults are the doubles nearest to 0.8 and 0.2. -/
structure ChannelConfig where
  size : String := "medium"
  drop_policy : String := "drop_newest"
  backpressure_high : Threshold := .finite (3602879701896397 / 4503599627370496)
  backpressure_low : Threshold := .finite (3602879701896397 / 18014398509481984)

structure GlobalConfig where
  log_level : String := "info"
  channel : ChannelConfig := {}
  pipelines : List PipelineConfig := []

namespace YamlConfigLoader

def kValidLogLevels : List String := ["trace", "debug", "info", "warn", "error"]

def kValidChannelSizes : List String := ["small", "medium", "large"]

def kValidDropPolicies : List String := ["drop_newest", "drop_oldest"]

def Invalid (msg : String) : Status := .Error .kInvalidArgument msg

/-- The body of the loop over the pipelines, which goes on after a `none`. -/
def ValidatePipeline (p : PipelineConfig) : Option Status :=
  if p.name = "" then some (Invalid "Pipeline name cannot be empty")
  else if p.source.type = "" then some (Invalid ("Pipeline '" ++ p.name ++ "' has no source type"))
  else if p.sinks = [] then some (Invalid ("Pipeline '" ++ p.name ++ "' has no sinks"))
  else none

def ValidateConfig (cfg : GlobalConfig) : Status :=
  if cfg.log_level ∉ kValidLogLevels then
    Invalid ("Invalid log_level '" ++ cfg.log_level ++ "'; valid: trace, debug, info, warn, error")
  else if cfg.channel.size ∉ kValidChannelSizes then
    Invalid ("Invalid channel.size '" ++ cfg.channel.size ++ "'; valid: small, medium, large")
  else if cfg.channel.drop_policy ∉ kValidDropPolicies then
    Invalid ("Invalid channel.drop_policy '" ++ cfg.channel.drop_policy ++ "'; valid: drop_newest, drop_oldest")
  else if cfg.channel.backpressure_high.le cfg.channel.backpressure_low then
    Invalid "backpressure_high must be > backpressure_low"
  else if (Threshold.finite 1).lt cfg.channel.backpressure_high || cfg.channel.backpressure_low.lt (.finite 0) then
    Invalid "backpressure thresholds must be in [0.0, 1.0]"
  else (cfg.pipelines.findSome? ValidatePipeline).getD .Ok

theorem ValidatePipeline_rejects {p : PipelineConfig} {status : Status} (rejected : ValidatePipeline p = some status) :
    status.ok = false := by
  unfold ValidatePipeline at rejected
  split_ifs at rejected
  all_goals
    cases rejected
    rfl

/-- What is accepted has passed every check. -/
theorem ValidateConfig_ok (cfg : GlobalConfig) :
    (ValidateConfig cfg).ok = true ↔
      cfg.log_level ∈ kValidLogLevels ∧ cfg.channel.size ∈ kValidChannelSizes ∧
        cfg.channel.drop_policy ∈ kValidDropPolicies ∧
        cfg.channel.backpressure_high.le cfg.channel.backpressure_low = false ∧
        (Threshold.finite 1).lt cfg.channel.backpressure_high = false ∧
        cfg.channel.backpressure_low.lt (.finite 0) = false ∧
        ∀ p ∈ cfg.pipelines, ValidatePipeline p = none := by
  unfold ValidateConfig
  split_ifs with level size policy order range
  · exact iff_of_false Bool.false_ne_true fun passed => Bool.false_ne_true (passed.2.2.2.1.symm.trans order)
  · refine iff_of_false Bool.false_ne_true fun passed => ?_
    rw [passed.2.2.2.2.1, passed.2.2.2.2.2.1] at range
    exact Bool.false_ne_true range
  · rw [Bool.not_eq_true] at order
    rw [Bool.not_eq_true, Bool.or_eq_false_iff] at range
    simp only [level, size, policy, order, range, true_and]
    rw [← List.findSome?_eq_none_iff]
    cases found : cfg.pipelines.findSome? ValidatePipeline with
    | none => exact iff_of_true rfl rfl
    | some status =>
      obtain ⟨p, _, rejected⟩ := List.exists_of_findSome?_eq_some found
      exact iff_of_false (by rw [Option.getD_some, ValidatePipeline_rejects rejected]; exact Bool.false_ne_true)
        (Option.some_ne_none status)
  · exact iff_of_false Bool.false_ne_true fun passed => policy passed.2.2.1
  · exact iff_of_false Bool.false_ne_true fun passed => size passed.2.1
  · exact iff_of_false Bool.false_ne_true fun passed => level passed.1

/-- Accepted thresholds lie in order between 0 and 1, unless one of them is a NaN. -/
theorem accepted_thresholds {cfg : GlobalConfig} (valid : (ValidateConfig cfg).ok = true) :
    (∃ high low, cfg.channel.backpressure_high = .finite high ∧ cfg.channel.backpressure_low = .finite low ∧
      0 ≤ low ∧ low < high ∧ high ≤ 1) ∨
      cfg.channel.backpressure_high = .nan ∨ cfg.channel.backpressure_low = .nan := by
  obtain ⟨_, _, _, order, top, bottom, _⟩ := (ValidateConfig_ok cfg).mp valid
  generalize cfg.channel.backpressure_high = high at order top ⊢
  generalize cfg.channel.backpressure_low = low at order bottom ⊢
  cases high with
  | nan => exact Or.inr (Or.inl rfl)
  | infinite negative =>
    cases low with
    | nan => exact Or.inr (Or.inr rfl)
    | infinite negative' => cases negative <;> cases negative' <;> simp [Threshold.le, Threshold.lt] at order top bottom
    | finite low => cases negative <;> simp [Threshold.le, Threshold.lt] at order top
  | finite high =>
    cases low with
    | nan => exact Or.inr (Or.inr rfl)
    | infinite negative => cases negative <;> simp [Threshold.le, Threshold.lt] at order bottom
    | finite low =>
      simp only [Threshold.le, Threshold.lt, decide_eq_false_iff_not, not_le, not_lt] at order top bottom
      exact Or.inl ⟨high, low, rfl, rfl, bottom, order, top⟩

/-- The defaults are accepted. -/
example : (ValidateConfig {}).ok = true := by decide +kernel

end YamlConfigLoader

namespace PipelineController

def resolve_capacity (size : String) : UInt64 :=
  if size = "small" then 1024
  else if size = "large" then 16384
  else 4096

theorem resolve_capacity_rounded (size : String) :
    roundUpPow2 (resolve_capacity size) = resolve_capacity size := by
  unfold resolve_capacity
  split_ifs <;> decide

theorem resolve_capacity_slots (size : String) : 2 ≤ (roundUpPow2 (resolve_capacity size)).toNat := by
  rw [resolve_capacity_rounded, resolve_capacity]
  split_ifs <;> decide

def drop_policy (cfg : ChannelConfig) : DropPolicy :=
  if cfg.drop_policy = "drop_oldest" then .kDropOldest else .kDropNewest

/-- The ingest channel that `BuildFromConfig` gives to every pipeline. -/
def ingest_channel {B : Type*} [Inhabited B] (cfg : ChannelConfig) (high low : ℚ) : AsyncChannel B :=
  .make (resolve_capacity cfg.size) (resolve_capacity_slots cfg.size) (drop_policy cfg) high low

end PipelineController

end Illuminator
