import Mathlib.Tactic.SplitIfs

/-!
# The volume of a schema change

The engine keeps the settings of its copier and not the volume they come from (`pkg/engine/spirit/control.go`).
-/

namespace SchemaBot.Spirit

/-- The settings of the copier, times in milliseconds. -/
structure Settings where
  threads : Int := 2
  targetChunkTime : Int := 2000
  lockWaitTimeout : Int := 30000
  deriving DecidableEq

def cpuScaledThreads (cpuHint divisor fallback : Int) : Int :=
  min (max (if cpuHint > 0 then (cpuHint + divisor - 1) / divisor else fallback) 2) 16

def volumeToSpiritSettings (volume cpuHint : Int) : Settings :=
  match volume with
  | 1 => ⟨1, 100, 10000⟩
  | 2 => ⟨2, 500, 15000⟩
  | 4 => ⟨4, 2000, 60000⟩
  | 5 => ⟨8, 2000, 60000⟩
  | 6 => ⟨cpuScaledThreads cpuHint 16 8, 5000, 60000⟩
  | 7 => ⟨cpuScaledThreads cpuHint 12 8, 5000, 60000⟩
  | 8 => ⟨cpuScaledThreads cpuHint 8 12, 5000, 60000⟩
  | 9 => ⟨cpuScaledThreads cpuHint 6 12, 5000, 60000⟩
  | 10 => ⟨cpuScaledThreads cpuHint 4 16, 5000, 600000⟩
  | 11 => ⟨cpuScaledThreads cpuHint 2 16, 5000, 600000⟩
  | _ => ⟨2, 2000, 30000⟩

def settingsToVolume (e : Settings) : Int :=
  if e.threads ≤ 1 then 1
  else if e.threads ≤ 2 then if e.targetChunkTime ≤ 1000 then 2 else 3
  else if e.threads ≤ 4 then 4
  else if e.threads ≤ 8 then if e.targetChunkTime ≤ 2000 then 5 else 6
  else if e.threads ≤ 12 then 8
  else 10

/-- What a request meets: no migration, a `Stop` or a `Start` that fails, or a restart. -/
inductive Restart
  | noMigration | stopFails | startFails | restarted
  deriving DecidableEq

inductive VolumeResult
  | error | unchanged | changed

def volume (cpuHint : Int) (e : Settings) (requested : Int) (restart : Restart) : Settings × VolumeResult :=
  if restart = .noMigration then (e, .error)
  else if requested = settingsToVolume e then (e, .unchanged)
  else match restart with
    | .restarted => (volumeToSpiritSettings requested cpuHint, .changed)
    | .startFails => (volumeToSpiritSettings requested cpuHint, .error)
    | _ => (e, .error)

/-- The settings after a sequence of requests. -/
def afterVolumes (cpuHint : Int) (e : Settings) (requests : List (Int × Restart)) : Settings :=
  requests.foldl (fun e r => (volume cpuHint e r.1 r.2).1) e

/-- Every answered request leaves the settings of its volume. -/
def Truthful (cpuHint : Int) (e : Settings) : Prop :=
  ∀ requests : List (Int × Restart), (∀ r ∈ requests, 1 ≤ r.1 ∧ r.1 ≤ 11) → ∀ v, 1 ≤ v ∧ v ≤ 11 → ∀ restart,
    let answer := volume cpuHint (afterVolumes cpuHint e requests) v restart
    answer.2 ≠ .error → answer.1 = volumeToSpiritSettings v cpuHint

/-- The settings are those of the volume they are read as. -/
def Settings.Legible (cpuHint : Int) (e : Settings) : Prop :=
  e = volumeToSpiritSettings (settingsToVolume e) cpuHint

theorem settingsToVolume_mem (e : Settings) : 1 ≤ settingsToVolume e ∧ settingsToVolume e ≤ 11 := by
  unfold settingsToVolume
  split_ifs <;> decide

theorem legible_of_hint {cpuHint : Int} (h : cpuHint ≤ 0) (v : Int) :
    (volumeToSpiritSettings v cpuHint).Legible cpuHint := by
  have hscale (d f : Int) : cpuScaledThreads cpuHint d f = cpuScaledThreads 0 d f := by
    grind [cpuScaledThreads]
  have hzero (v : Int) : volumeToSpiritSettings v cpuHint = volumeToSpiritSettings v 0 := by
    simp only [volumeToSpiritSettings, hscale]
  rw [Settings.Legible, hzero, hzero]
  fun_cases volumeToSpiritSettings v 0 <;> decide

/-- With a hint there is a volume whose settings are read as another one's. -/
theorem exists_not_legible {cpuHint : Int} (h : 0 < cpuHint) :
    ∃ v, (1 ≤ v ∧ v ≤ 11) ∧ ¬ (volumeToSpiritSettings v cpuHint).Legible cpuHint := by
  have hscale (d f : Int) : cpuScaledThreads cpuHint d f = min (max ((cpuHint + d - 1) / d) 2) 16 := by
    rw [cpuScaledThreads, if_pos h]
  by_cases hmid : 65 ≤ cpuHint ∧ cpuHint ≤ 128
  · refine ⟨7, by decide, ?_⟩
    simp only [Settings.Legible, settingsToVolume, volumeToSpiritSettings, hscale]
    split_ifs <;> simp <;> omega
  · refine ⟨6, by decide, ?_⟩
    simp only [Settings.Legible, settingsToVolume, volumeToSpiritSettings, hscale]
    split_ifs <;> simp <;> omega

theorem legible_afterVolumes {cpuHint : Int} (h : cpuHint ≤ 0) {e : Settings} (he : e.Legible cpuHint)
    (requests : List (Int × Restart)) : (afterVolumes cpuHint e requests).Legible cpuHint := by
  induction requests generalizing e with
  | nil => exact he
  | cons r requests ih =>
    refine ih ?_
    unfold volume
    have := legible_of_hint h r.1
    grind

theorem volume_truthful_iff (cpuHint : Int) (e : Settings) :
    Truthful cpuHint e ↔ cpuHint ≤ 0 ∧ e.Legible cpuHint := by
  constructor
  · intro ht
    have hread (requests : List (Int × Restart)) (hr : ∀ r ∈ requests, 1 ≤ r.1 ∧ r.1 ≤ 11) :
        (afterVolumes cpuHint e requests).Legible cpuHint := by
      have hsame := ht requests hr _ (settingsToVolume_mem (afterVolumes cpuHint e requests)) .restarted
      simpa [volume, Settings.Legible] using hsame
    refine ⟨Int.not_lt.1 fun hpos => ?_, hread [] (by simp)⟩
    obtain ⟨v, hv, hnot⟩ := exists_not_legible hpos
    have hset := ht [] (by simp) v hv .restarted (by unfold volume; grind)
    exact hnot (hset ▸ hread [(v, .restarted)] (by simpa using hv))
  · rintro ⟨h, he⟩ requests - v - restart answer hne
    have hl := legible_afterVolumes h he requests
    unfold Settings.Legible at hl
    unfold answer volume at *
    grind

/-- With a hint of 64, volume 8 runs with the eight threads that are read as volume 6, which has four. -/
theorem volume_six_unchanged_at_eight :
    volume 64 (afterVolumes 64 {} [(8, .restarted)]) 6 .restarted = (⟨8, 5000, 60000⟩, .unchanged) ∧
      volumeToSpiritSettings 6 64 = ⟨4, 5000, 60000⟩ :=
  ⟨rfl, rfl⟩

end SchemaBot.Spirit
