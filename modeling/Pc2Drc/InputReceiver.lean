import Mathlib.Algebra.Order.Field.Rat
import Mathlib.Data.List.Induction
import Mathlib.Tactic.FieldSimp
import Mathlib.Tactic.Linarith
import Mathlib.Tactic.NormNum
import Mathlib.Tactic.Ring
import Pc2Drc.DeviceConfig
import Pc2Drc.Lib.MachineInt
import Pc2Drc.Lib.Memory

/-! The input receiver: its record of the pad, and the calibration of the touch screen. Floating
point numbers are exact rationals here. -/
namespace Pc2Drc
open Lib

/-- The calibration points on one axis of the touch screen. -/
structure AxisPoints where
  ref1 : ℤ
  ref2 : ℤ
  raw1 : ℤ
  raw2 : ℤ
  deriving DecidableEq, Repr

/-- The part of the screen that the picture takes, on one axis. -/
structure AxisArea where
  margin : ℚ
  size : ℚ
  deriving DecidableEq, Repr

/-- The members `ts_ox_` and `ts_w_`, or `ts_oy_` and `ts_h_`. -/
structure AxisMap where
  offset : ℚ
  scale : ℚ
  deriving DecidableEq, Repr

def AxisMap.apply (m : AxisMap) (raw : ℚ) : ℚ := m.offset + raw * m.scale

/-- A touch as it is reported: normalised by the last column or row, and clamped. -/
def AxisMap.normalized (m : AxisMap) (raw : ℤ) (last : ℚ) : ℚ := max 0 (min 1 (m.apply raw / last))

/-- The two statements of `Recalibrate` for an axis before the post processing. -/
def AxisPoints.screenMap (p : AxisPoints) : Except IntFault AxisMap := do
  let num ← int ((← int (p.raw2 * p.ref1)) - (← int (p.raw1 * p.ref2)))
  let offset : ℚ := num / (← int (p.raw2 - p.raw1))
  let scale : ℚ := (← int (p.ref1 - p.ref2)) / (← int (p.raw1 - p.raw2))
  return ⟨offset, scale⟩

def recalibrateAxis (p : AxisPoints) (a : AxisArea) : Except IntFault AxisMap := do
  let m ← p.screenMap
  return ⟨(m.offset - a.margin) / a.size, m.scale / a.size⟩

/-- The record of the pad; a new one is all zero. -/
structure InputReceiver.InputData where
  valid : Bool := false
  buttons : UInt32 := 0
  leftStickX : ℚ := 0
  leftStickY : ℚ := 0
  rightStickX : ℚ := 0
  rightStickY : ℚ := 0
  tsPressed : Bool := false
  tsX : ℚ := 0
  tsY : ℚ := 0
  tsPressure : ℚ := 0
  batteryCharge : UInt8 := 0
  audioVolume : UInt8 := 0
  powerStatus : UInt8 := 0
  deriving DecidableEq, Repr

/-- `κ` is the type of the registered callbacks. -/
structure InputReceiver (κ : Type) where
  current : InputReceiver.InputData
  cbs : List κ
  pointsX : AxisPoints
  pointsY : AxisPoints
  areaX : AxisArea
  areaY : AxisArea
  mapX : AxisMap
  mapY : AxisMap

namespace InputReceiver

variable {κ : Type}

def recalibrate (r : InputReceiver κ) : Except IntFault (InputReceiver κ) := do
  let mapX ← recalibrateAxis r.pointsX r.areaX
  let mapY ← recalibrateAxis r.pointsY r.areaY
  return { r with mapX, mapY }

def create : Except IntFault (InputReceiver κ) :=
  recalibrate {
    current := {}
    cbs := []
    pointsX := ⟨20, 834, 195, 3877⟩
    pointsY := ⟨20, 460, 3818, 373⟩
    areaX := ⟨0, 1⟩
    areaY := ⟨0, 1⟩
    mapX := ⟨0, 0⟩
    mapY := ⟨0, 0⟩ }

def addCallback (r : InputReceiver κ) (cb : κ) : InputReceiver κ := { r with cbs := r.cbs ++ [cb] }

def poll (r : InputReceiver κ) : InputData := r.current

def setMargins (r : InputReceiver κ) (marginX sizeX marginY sizeY : ℚ) :
    Except IntFault (InputReceiver κ) :=
  recalibrate { r with areaX := ⟨marginX, sizeX⟩, areaY := ⟨marginY, sizeY⟩ }

def setCalibrationPoints (r : InputReceiver κ)
    (ref1X ref1Y ref2X ref2Y raw1X raw1Y raw2X raw2Y : ℤ) : Except IntFault (InputReceiver κ) :=
  recalibrate { r with
    pointsX := ⟨ref1X, ref2X, raw1X, raw2X⟩
    pointsY := ⟨ref1Y, ref2Y, raw1Y, raw2Y⟩ }

/-- What the callback of `SyncUICConfig` does with the configuration that `LoadFromBlob` leaves. -/
def syncUICConfig (r : InputReceiver κ) (config : DeviceConfig) :
    Except IntFault (InputReceiver κ) :=
  r.setCalibrationPoints
    config.panelRef1[0].toInt config.panelRef1[1].toInt
    config.panelRef2[0].toInt config.panelRef2[1].toInt
    config.panelRaw1[0].toInt config.panelRaw1[1].toInt
    config.panelRaw2[0].toInt config.panelRaw2[1].toInt

end InputReceiver

/-- The calls that end in `Recalibrate`. -/
inductive TouchCall
  | setMargins (marginX sizeX marginY sizeY : ℚ)
  | syncUICConfig (config : DeviceConfig)

section
variable {κ : Type}

def TouchCall.apply (r : InputReceiver κ) : TouchCall → Except IntFault (InputReceiver κ)
  | .setMargins marginX sizeX marginY sizeY => r.setMargins marginX sizeX marginY sizeY
  | .syncUICConfig config => r.syncUICConfig config

/-- A new receiver after some calls. -/
def receiverAfter (κ : Type) (calls : List TouchCall) : Except IntFault (InputReceiver κ) := do
  calls.foldlM TouchCall.apply (← InputReceiver.create)

end

/-- What the calls set last: on each axis the points and the area. -/
structure TouchSettings where
  pointsX : AxisPoints
  pointsY : AxisPoints
  areaX : AxisArea
  areaY : AxisArea

def TouchSettings.initial : TouchSettings where
  pointsX := ⟨20, 834, 195, 3877⟩
  pointsY := ⟨20, 460, 3818, 373⟩
  areaX := ⟨0, 1⟩
  areaY := ⟨0, 1⟩

def TouchCall.record (s : TouchSettings) : TouchCall → TouchSettings
  | .setMargins marginX sizeX marginY sizeY =>
    { s with areaX := ⟨marginX, sizeX⟩, areaY := ⟨marginY, sizeY⟩ }
  | .syncUICConfig config =>
    { s with
      pointsX := ⟨config.panelRef1[0].toInt, config.panelRef2[0].toInt,
        config.panelRaw1[0].toInt, config.panelRaw2[0].toInt⟩
      pointsY := ⟨config.panelRef1[1].toInt, config.panelRef2[1].toInt,
        config.panelRaw1[1].toInt, config.panelRaw2[1].toInt⟩ }

def settingsAfter (calls : List TouchCall) : TouchSettings :=
  calls.foldl TouchCall.record .initial

/-- The map is the only affine one that takes the raw points to the reference points, as they lie
in the area. -/
def Interpolates (p : AxisPoints) (a : AxisArea) (m : AxisMap) : Prop :=
  ∀ m' : AxisMap, m'.apply p.raw1 = (p.ref1 - a.margin) / a.size ∧
    m'.apply p.raw2 = (p.ref2 - a.margin) / a.size ↔ m' = m

/-- Two points determine an affine map. -/
theorem affine_through_iff {K : Type*} [Field K] {x₁ x₂ y₁ y₂ offset scale : K} (h : x₁ ≠ x₂) :
    offset + x₁ * scale = y₁ ∧ offset + x₂ * scale = y₂ ↔
      offset = (x₂ * y₁ - x₁ * y₂) / (x₂ - x₁) ∧ scale = (y₁ - y₂) / (x₁ - x₂) := by
  have hsub : x₂ - x₁ ≠ 0 := sub_ne_zero.mpr h.symm
  have hsub' : x₁ - x₂ ≠ 0 := sub_ne_zero.mpr h
  constructor
  · rintro ⟨rfl, rfl⟩
    constructor
    · field_simp
      ring
    · field_simp
      ring
  · rintro ⟨rfl, rfl⟩
    have hneg : x₁ - x₂ = -(x₂ - x₁) := (neg_sub x₂ x₁).symm
    rw [hneg]
    constructor
    · field_simp
      ring
    · field_simp
      ring

namespace AxisPoints

/-- Points as they are loaded from the configuration. -/
structure IsInt16 (p : AxisPoints) : Prop where
  ref1 : -2 ^ 15 ≤ p.ref1 ∧ p.ref1 < 2 ^ 15
  ref2 : -2 ^ 15 ≤ p.ref2 ∧ p.ref2 < 2 ^ 15
  raw1 : -2 ^ 15 ≤ p.raw1 ∧ p.raw1 < 2 ^ 15
  raw2 : -2 ^ 15 ≤ p.raw2 ∧ p.raw2 < 2 ^ 15

variable {p : AxisPoints} {a : AxisArea}

/-- A product of two 16-bit values is at least `-2 ^ 30 + 2 ^ 15`, so that two of them can be
subtracted. -/
theorem int16_mul_bounds {a b : ℤ} (ha : -2 ^ 15 ≤ a ∧ a < 2 ^ 15) (hb : -2 ^ 15 ≤ b ∧ b < 2 ^ 15) :
    -2 ^ 30 + 2 ^ 15 ≤ a * b ∧ a * b ≤ 2 ^ 30 := by
  constructor
  · rcases le_or_gt 0 a with h | h
    · nlinarith
    · nlinarith
  · rcases le_or_gt 0 a with h | h
    · nlinarith
    · nlinarith

theorem IsInt16.screenMap_ok (h : p.IsInt16) : p.screenMap =
    .ok ⟨(p.raw2 * p.ref1 - p.raw1 * p.ref2) / (p.raw2 - p.raw1),
      (p.ref1 - p.ref2) / (p.raw1 - p.raw2)⟩ := by
  obtain ⟨href1, href2, hraw1, hraw2⟩ := h
  have hprod := int16_mul_bounds hraw2 href1
  have hprod' := int16_mul_bounds hraw1 href2
  have hfit : FitsInt (p.raw2 * p.ref1) := by constructor <;> omega
  have hfit' : FitsInt (p.raw1 * p.ref2) := by constructor <;> omega
  have hnum : FitsInt (p.raw2 * p.ref1 - p.raw1 * p.ref2) := by constructor <;> omega
  have hden : FitsInt (p.raw2 - p.raw1) := by constructor <;> omega
  have hnum' : FitsInt (p.ref1 - p.ref2) := by constructor <;> omega
  have hden' : FitsInt (p.raw1 - p.raw2) := by constructor <;> omega
  simp only [screenMap, int_ok hfit, int_ok hfit', int_ok hden, int_ok hnum', int_ok hden', bind,
    Except.bind, int_ok hnum, pure, Except.pure]
  push_cast
  rfl

theorem IsInt16.recalibrateAxis_ok (h : p.IsInt16) : recalibrateAxis p a =
    .ok ⟨((p.raw2 * p.ref1 - p.raw1 * p.ref2) / (p.raw2 - p.raw1) - a.margin) / a.size,
      (p.ref1 - p.ref2) / (p.raw1 - p.raw2) / a.size⟩ := by
  rw [recalibrateAxis, h.screenMap_ok]
  rfl

theorem IsInt16.interpolates {m : AxisMap} (h : p.IsInt16) (hraw : p.raw1 ≠ p.raw2)
    (hsize : a.size ≠ 0) (hm : recalibrateAxis p a = .ok m) : Interpolates p a m := by
  cases h.recalibrateAxis_ok.symm.trans hm
  rintro ⟨offset, scale⟩
  have hne : (p.raw1 : ℚ) ≠ p.raw2 := by exact_mod_cast hraw
  have hsub : (p.raw2 : ℚ) - p.raw1 ≠ 0 := sub_ne_zero.mpr hne.symm
  have hsub' : (p.raw1 : ℚ) - p.raw2 ≠ 0 := sub_ne_zero.mpr hne
  have hoffset : (p.raw2 * ((p.ref1 - a.margin) / a.size) -
      p.raw1 * ((p.ref2 - a.margin) / a.size)) / ((p.raw2 : ℚ) - p.raw1) =
      ((p.raw2 * p.ref1 - p.raw1 * p.ref2) / (p.raw2 - p.raw1) - a.margin) / a.size := by
    field_simp
    ring
  have hscale : ((p.ref1 - a.margin) / a.size - (p.ref2 - a.margin) / a.size) /
      ((p.raw1 : ℚ) - p.raw2) = (p.ref1 - p.ref2) / (p.raw1 - p.raw2) / a.size := by
    field_simp
    ring
  rw [AxisMap.apply, AxisMap.apply, affine_through_iff hne, AxisMap.mk.injEq, hoffset, hscale]

end AxisPoints

section
variable {κ : Type} {s : TouchSettings} {r : InputReceiver κ} {call : TouchCall}

/-- The receiver has the settings, and its maps are computed from them. -/
structure Calibrated (s : TouchSettings) (r : InputReceiver κ) : Prop where
  points : r.pointsX = s.pointsX ∧ r.pointsY = s.pointsY
  area : r.areaX = s.areaX ∧ r.areaY = s.areaY
  mapX : recalibrateAxis s.pointsX s.areaX = .ok r.mapX
  mapY : recalibrateAxis s.pointsY s.areaY = .ok r.mapY

def TouchSettings.IsInt16 (s : TouchSettings) : Prop := s.pointsX.IsInt16 ∧ s.pointsY.IsInt16

/-- `Recalibrate` computes the maps from what the receiver has, whatever they were. -/
theorem recalibrate_calibrated (hs : s.IsInt16) (hp : r.pointsX = s.pointsX ∧ r.pointsY = s.pointsY)
    (ha : r.areaX = s.areaX ∧ r.areaY = s.areaY) :
    ∃ r', r.recalibrate = .ok r' ∧ Calibrated s r' := by
  have hx := hs.1.recalibrateAxis_ok (a := s.areaX)
  have hy := hs.2.recalibrateAxis_ok (a := s.areaY)
  rw [InputReceiver.recalibrate, hp.1, hp.2, ha.1, ha.2, hx, hy]
  exact ⟨_, rfl, ⟨rfl, rfl⟩, ⟨rfl, rfl⟩, hx, hy⟩

theorem int16_bounds (v : Int16) : -2 ^ 15 ≤ v.toInt ∧ v.toInt < 2 ^ 15 :=
  ⟨v.le_toInt, v.toInt_lt⟩

theorem TouchSettings.IsInt16.record (hs : s.IsInt16) (call : TouchCall) :
    (call.record s).IsInt16 := by
  cases call with
  | setMargins => exact hs
  | syncUICConfig config =>
    constructor <;> constructor <;> exact int16_bounds _

theorem Calibrated.apply (h : Calibrated s r) (hs : s.IsInt16) (call : TouchCall) :
    ∃ r', call.apply r = .ok r' ∧ Calibrated (call.record s) r' := by
  cases call with
  | setMargins marginX sizeX marginY sizeY => exact recalibrate_calibrated hs h.points ⟨rfl, rfl⟩
  | syncUICConfig config =>
    exact recalibrate_calibrated (hs.record (.syncUICConfig config)) ⟨rfl, rfl⟩ h.area

theorem isInt16_initial : TouchSettings.initial.IsInt16 := by
  constructor <;> constructor <;> decide

theorem receiverAfter_snoc (calls : List TouchCall) (call : TouchCall) :
    receiverAfter κ (calls ++ [call]) = receiverAfter κ calls >>= fun r => call.apply r := by
  simp [receiverAfter, List.foldlM_append]

/-- After any calls, in any order, the receiver is calibrated for what was set last. -/
theorem receiverAfter_calibrated (calls : List TouchCall) : (settingsAfter calls).IsInt16 ∧
    ∃ r, receiverAfter κ calls = .ok r ∧ Calibrated (settingsAfter calls) r := by
  induction calls using List.reverseRecOn with
  | nil =>
    refine ⟨isInt16_initial, ?_⟩
    obtain ⟨r, hr, hcal⟩ : ∃ r, InputReceiver.create (κ := κ) = .ok r ∧ Calibrated .initial r :=
      recalibrate_calibrated isInt16_initial ⟨rfl, rfl⟩ ⟨rfl, rfl⟩
    refine ⟨r, ?_, hcal⟩
    rw [receiverAfter, hr]
    rfl
  | append_singleton calls call ih =>
    obtain ⟨hs, r, hr, hcal⟩ := ih
    obtain ⟨r', hr', hcal'⟩ := hcal.apply hs call
    have hsettings : settingsAfter (calls ++ [call]) = call.record (settingsAfter calls) := by
      simp [settingsAfter]
    rw [hsettings, receiverAfter_snoc, hr]
    exact ⟨hs.record call, r', hr', hcal'⟩

theorem recalibrate_current {r' : InputReceiver κ} (h : r.recalibrate = .ok r') :
    r'.current = r.current := by
  obtain ⟨mapX, -, h⟩ := bind_eq_ok.mp h
  obtain ⟨mapY, -, h⟩ := bind_eq_ok.mp h
  cases h
  rfl

/-- The calls leave the record as it is, which is that of a new receiver. -/
theorem receiverAfter_current {calls : List TouchCall} (h : receiverAfter κ calls = .ok r) :
    r.current = {} := by
  induction calls using List.reverseRecOn generalizing r with
  | nil =>
    obtain ⟨r0, hr0, h⟩ := bind_eq_ok.mp h
    cases h
    exact recalibrate_current hr0
  | append_singleton calls call ih =>
    rw [receiverAfter_snoc] at h
    obtain ⟨r0, hr0, hcall⟩ := bind_eq_ok.mp h
    rw [← ih hr0]
    cases call with
    | setMargins =>
      have hcurrent := recalibrate_current hcall
      exact hcurrent
    | syncUICConfig =>
      have hcurrent := recalibrate_current hcall
      exact hcurrent

/-- In whatever order the points and the margins were set, nothing overflows and the map on each
axis is the one that interpolates them. -/
theorem calibration_interpolates (κ : Type) (calls : List TouchCall) :
    ∃ r, receiverAfter κ calls = .ok r ∧
      ((settingsAfter calls).pointsX.raw1 ≠ (settingsAfter calls).pointsX.raw2 →
        (settingsAfter calls).areaX.size ≠ 0 →
        Interpolates (settingsAfter calls).pointsX (settingsAfter calls).areaX r.mapX) ∧
      ((settingsAfter calls).pointsY.raw1 ≠ (settingsAfter calls).pointsY.raw2 →
        (settingsAfter calls).areaY.size ≠ 0 →
        Interpolates (settingsAfter calls).pointsY (settingsAfter calls).areaY r.mapY) := by
  obtain ⟨hs, r, hr, hcal⟩ := receiverAfter_calibrated (κ := κ) calls
  refine ⟨r, hr, ?_, ?_⟩
  · intro hraw hsize
    exact hs.1.interpolates hraw hsize hcal.mapX
  · intro hraw hsize
    exact hs.2.interpolates hraw hsize hcal.mapY

/-- The theorem at the panel of a new configuration, set after the margins of a narrow picture. -/
theorem calibration_interpolates_narrow : ∃ r,
    receiverAfter ℕ [.setMargins 107 (320 / 427) 0 1, .syncUICConfig (.init (.replicate 16 0))] =
        .ok r ∧
      Interpolates ⟨20, 834, 195, 3877⟩ ⟨107, 320 / 427⟩ r.mapX ∧
      Interpolates ⟨20, 460, 3818, 373⟩ ⟨0, 1⟩ r.mapY := by
  obtain ⟨r, hr, hx, hy⟩ := calibration_interpolates ℕ
    [.setMargins 107 (320 / 427) 0 1, .syncUICConfig (.init (.replicate 16 0))]
  have hsize : (320 / 427 : ℚ) ≠ 0 := by norm_num
  exact ⟨r, hr, hx (by decide) hsize, hy (by decide) (by decide)⟩

end

end Pc2Drc
