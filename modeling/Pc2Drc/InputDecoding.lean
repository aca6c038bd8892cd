import Mathlib.Data.Fintype.Basic
import Mathlib.Tactic.FinCases
import Pc2Drc.InputReceiver

/-! The decoding of gamepad packets, and their documented format. -/
namespace Pc2Drc
open Lib

variable {κ : Type}

def kDrcStickMin : ℤ := 900

def kDrcStickMax : ℤ := 3200

def kStickDeadZone : ℚ := 1 / 10

def kTsPointsCount : ℕ := 10

/-- The body of the loop over the sticks, for a sample as it is read. -/
def stickValue (val : ℤ) : ℚ :=
  let val := max kDrcStickMin (min kDrcStickMax val)
  let mid := (kDrcStickMax - kDrcStickMin) / 2
  let stick : ℚ := (val - (kDrcStickMin + mid) : ℤ) / mid
  if stick > -kStickDeadZone ∧ stick < kStickDeadZone then 0 else stick

/-- The sample of the `i`-th stick, a signed 16-bit integer. -/
def stickSample (msg : List UInt8) (i : ℕ) : ℤ :=
  (u16OfBytes (byteAt msg (7 + 2 * i)) (byteAt msg (6 + 2 * i))).toInt16.toInt

/-- A coordinate of a touch point, in the low 12 bits of two bytes. -/
def tsSample (msg : List UInt8) (base : ℕ) : ℕ :=
  (byteAt msg (base + 1) &&& 0xF).toNat <<< 8 ||| (byteAt msg base).toNat

/-- The mean of one coordinate over the touch points; `coord` is 0 or 2. -/
def tsMean (msg : List UInt8) (coord : ℕ) : ℕ :=
  (List.range kTsPointsCount).foldl (fun sum i => sum + tsSample msg (36 + 4 * i + coord)) 0 /
    kTsPointsCount

def tsPressureBits (msg : List UInt8) : ℕ :=
  ((byteAt msg 37 >>> 4) &&& 7).toNat <<< 0 ||| ((byteAt msg 39 >>> 4) &&& 7).toNat <<< 3 |||
    ((byteAt msg 41 >>> 4) &&& 7).toNat <<< 6 ||| ((byteAt msg 43 >>> 4) &&& 7).toNat <<< 9

namespace InputReceiver

/-- The record that `ProcessInputMessage` fills. -/
def decode (r : InputReceiver κ) (msg : List UInt8) : InputData where
  valid := true
  buttons := UInt32.ofNat ((byteAt msg 80).toNat <<< 16 ||| (byteAt msg 2).toNat <<< 8 |||
    (byteAt msg 3).toNat)
  leftStickX := stickValue (stickSample msg 0)
  leftStickY := stickValue (stickSample msg 1)
  rightStickX := stickValue (stickSample msg 2)
  rightStickY := stickValue (stickSample msg 3)
  tsPressed := tsPressureBits msg ≠ 0
  tsX := r.mapX.normalized (tsMean msg 0) 853
  tsY := r.mapY.normalized (tsMean msg 2) 479
  tsPressure := tsPressureBits msg
  batteryCharge := byteAt msg 5
  audioVolume := byteAt msg 14
  powerStatus := byteAt msg 4

def setCurrent (r : InputReceiver κ) (data : InputData) : InputReceiver κ :=
  { r with current := data }

/-- The receiver afterwards, and the callbacks that were run with what they were given. -/
def processInputMessage (r : InputReceiver κ) (msg : List UInt8) :
    InputReceiver κ × List (κ × InputData) :=
  if msg.length ≠ 128 then (r, [])
  else
    let data := r.decode msg
    (r.setCurrent data, r.cbs.map fun cb => (cb, data))

def processInputTimeout (r : InputReceiver κ) : InputReceiver κ := r.setCurrent {}

end InputReceiver

/-- A coordinate of a documented touch point. -/
structure TouchCoord where
  pad : Bool
  extra : Fin 8
  value : Fin 4096

def TouchCoord.word (c : TouchCoord) : UInt16 :=
  UInt16.ofNat (c.pad.toNat * 2 ^ 15 + c.extra * 2 ^ 12 + c.value)

/-- The documented input record, with stick samples below `0x8000`. The 21 bytes of motion data are
the accelerometer, the gyroscope and the magnetometer. -/
structure HidInput where
  seqId : UInt16
  buttons : UInt16
  powerStatus : UInt8
  batteryCharge : UInt8
  leftStickX : Fin 0x8000
  leftStickY : Fin 0x8000
  rightStickX : Fin 0x8000
  rightStickY : Fin 0x8000
  audioVolume : UInt8
  motion : Fin 21 → UInt8
  touchX : Fin 10 → TouchCoord
  touchY : Fin 10 → TouchCoord
  unk0 : Fin 4 → UInt8
  extraButtons : UInt8
  unk1 : Fin 46 → UInt8
  fwVersionNeg : UInt8

namespace HidInput

def littleWord (w : UInt16) : List UInt8 := [loByte w, hiByte w]

/-- Everything before the motion data. The buttons are big-endian, the other words
little-endian. -/
def head (h : HidInput) : List UInt8 :=
  [hiByte h.seqId, loByte h.seqId, hiByte h.buttons, loByte h.buttons, h.powerStatus,
    h.batteryCharge] ++
  littleWord (UInt16.ofNat h.leftStickX) ++ littleWord (UInt16.ofNat h.leftStickY) ++
  littleWord (UInt16.ofNat h.rightStickX) ++ littleWord (UInt16.ofNat h.rightStickY) ++
  [h.audioVolume]

def touchscreen (h : HidInput) : List UInt8 :=
  (List.finRange 10).flatMap fun i => littleWord (h.touchX i).word ++ littleWord (h.touchY i).word

/-- The 128 bytes of a record. -/
def encode (h : HidInput) : List UInt8 :=
  h.head ++ (List.ofFn h.motion ++ (h.touchscreen ++ (List.ofFn h.unk0 ++
    h.extraButtons :: (List.ofFn h.unk1 ++ [h.fwVersionNeg]))))

/-- The 12 bits in the extra data of the first two points. -/
def pressure (h : HidInput) : ℕ :=
  (h.touchX 0).extra + 2 ^ 3 * (h.touchY 0).extra + 2 ^ 6 * (h.touchX 1).extra +
    2 ^ 9 * (h.touchY 1).extra

/-- The integer mean of a coordinate over the ten points. -/
def mean (coords : Fin 10 → TouchCoord) : ℕ :=
  ((List.finRange 10).map fun i => (coords i).value.val).sum / 10

end HidInput

/-- A stick sample in the range from -1 to 1, without the noise around the centre. -/
def stickPosition (raw : ℕ) : ℚ :=
  let position : ℚ := ((min 3200 (max 900 raw) : ℕ) - 2050) / 1150
  if |position| < 1 / 10 then 0 else position

/-- The calibrated image of a raw coordinate, clamped. -/
def touchPosition (m : AxisMap) (mean : ℕ) (last : ℚ) : ℚ := max 0 (min 1 (m.apply mean / last))

/-- A record as the receiver reports it. -/
def HidInput.reported (h : HidInput) (r : InputReceiver κ) : InputReceiver.InputData where
  valid := true
  buttons := UInt32.ofNat (h.extraButtons.toNat * 2 ^ 16 + h.buttons.toNat)
  leftStickX := stickPosition h.leftStickX
  leftStickY := stickPosition h.leftStickY
  rightStickX := stickPosition h.rightStickX
  rightStickY := stickPosition h.rightStickY
  tsPressed := 0 < h.pressure
  tsX := touchPosition r.mapX (HidInput.mean h.touchX) 853
  tsY := touchPosition r.mapY (HidInput.mean h.touchY) 479
  tsPressure := h.pressure
  batteryCharge := h.batteryCharge
  audioVolume := h.audioVolume
  powerStatus := h.powerStatus

section
variable {c : TouchCoord}

theorem TouchCoord.toNat_word :
    c.word.toNat = c.pad.toNat * 2 ^ 15 + c.extra * 2 ^ 12 + c.value := by
  have hpad := c.pad.toNat_le
  have hextra := c.extra.isLt
  have hvalue := c.value.isLt
  rw [TouchCoord.word, UInt16.toNat_ofNat']
  omega

theorem TouchCoord.toNat_hiByte : (hiByte c.word).toNat =
    c.pad.toNat * 2 ^ 7 + c.extra * 2 ^ 4 + c.value / 2 ^ 8 := by
  have hvalue := c.value.isLt
  rw [Lib.toNat_hiByte, toNat_word]
  omega

/-- Bytes that hold a coordinate give back its value. -/
theorem TouchCoord.value_eq : (hiByte c.word &&& 0xF).toNat <<< 8 ||| (loByte c.word).toNat =
    c.value := by
  have hvalue := c.value.isLt
  have hlow : (loByte c.word).toNat = c.value % 2 ^ 8 := by
    rw [toNat_loByte, toNat_word]
    omega
  have hhigh : (hiByte c.word &&& 0xF).toNat = c.value / 2 ^ 8 := by
    have hmask : ∀ n, n &&& 15 = n % 16 := fun n => Nat.and_two_pow_sub_one_eq_mod n 4
    rw [UInt8.toNat_and, toNat_hiByte]
    change _ &&& 15 = _
    rw [hmask]
    omega
  rw [hhigh, hlow, ← Nat.shiftLeft_add_eq_or_of_lt (Nat.mod_lt _ (by decide)), Nat.shiftLeft_eq]
  omega

theorem TouchCoord.extra_eq : ((hiByte c.word >>> 4) &&& 7).toNat = c.extra := by
  have hextra := c.extra.isLt
  have hvalue := c.value.isLt
  have hmask : ∀ n, n &&& 7 = n % 8 := fun n => Nat.and_two_pow_sub_one_eq_mod n 3
  have hshift : (hiByte c.word >>> 4).toNat = (hiByte c.word).toNat / 2 ^ 4 := by
    rw [UInt8.toNat_shiftRight, Nat.shiftRight_eq_div_pow]
    rfl
  rw [UInt8.toNat_and, hshift, toNat_hiByte]
  change _ &&& 7 = _
  rw [hmask]
  omega

end

theorem or_shiftLeft {x y i : ℕ} (h : x < 2 ^ i) : x ||| y <<< i = x + 2 ^ i * y := by
  rw [Nat.or_comm, ← Nat.shiftLeft_add_eq_or_of_lt h, Nat.shiftLeft_eq]
  ring

/-- Fields of three bits that are put side by side. -/
theorem or_of_octal {a b c d : ℕ} (ha : a < 8) (hb : b < 8) (hc : c < 8) :
    a <<< 0 ||| b <<< 3 ||| c <<< 6 ||| d <<< 9 = a + 2 ^ 3 * b + 2 ^ 6 * c + 2 ^ 9 * d := by
  rw [Nat.shiftLeft_zero, or_shiftLeft (i := 3) (by omega), or_shiftLeft (i := 6) (by omega),
    or_shiftLeft (i := 9) (by omega)]

theorem stickSample_eq (raw : Fin 0x8000) :
    (u16OfBytes (hiByte (UInt16.ofNat raw)) (loByte (UInt16.ofNat raw))).toInt16.toInt =
      (raw.val : ℤ) := by
  have hlt := raw.isLt
  rw [u16OfBytes_hi_lo, toInt_toInt16, UInt16.toNat_ofNat', Nat.mod_eq_of_lt (by omega), signed]
  exact if_pos hlt

/-- The loop over the sticks computes the documented position. -/
theorem stickValue_eq (raw : ℕ) : stickValue raw = stickPosition raw := by
  have hclamp : max kDrcStickMin (min kDrcStickMax (raw : ℤ)) =
      ((min 3200 (max 900 raw) : ℕ) : ℤ) := by
    unfold kDrcStickMin kDrcStickMax
    omega
  have hmid : (kDrcStickMax - kDrcStickMin) / 2 = 1150 := rfl
  have hcentre : kDrcStickMin + 1150 = 2050 := rfl
  simp only [stickValue, stickPosition, hclamp, hmid, hcentre, kStickDeadZone, abs_lt, gt_iff_lt]
  push_cast
  rfl

theorem byteAt_append {a b : List UInt8} {i : ℕ} (h : i < a.length) :
    byteAt (a ++ b) i = byteAt a i := by
  rw [byteAt, byteAt, List.getD_append _ _ _ _ h]

theorem byteAt_append_right {a b : List UInt8} {n : ℕ} (i : ℕ) (h : a.length = n) :
    byteAt (a ++ b) (n + i) = byteAt b i := by
  rw [byteAt, byteAt, List.getD_append_right _ _ _ _ (by omega)]
  congr 1
  omega

namespace HidInput
variable (h : HidInput) (r : InputReceiver κ)

theorem length_head : h.head.length = 15 := rfl

theorem length_touchscreen : h.touchscreen.length = 40 := rfl

theorem length_encode : h.encode.length = 128 := by
  simp [encode, length_head, length_touchscreen]

theorem byteAt_head {i : ℕ} (hi : i < 15) : byteAt h.encode i = byteAt h.head i :=
  byteAt_append (h.length_head ▸ hi)

theorem byteAt_touchscreen {i : ℕ} (hi : i < 40) :
    byteAt h.encode (36 + i) = byteAt h.touchscreen i := by
  have hoff : 36 + i = 15 + (21 + i) := by omega
  rw [hoff, encode, byteAt_append_right _ h.length_head, byteAt_append_right _ (by simp)]
  exact byteAt_append (h.length_touchscreen ▸ hi)

theorem byteAt_extraButtons : byteAt h.encode 80 = h.extraButtons := by
  rw [encode, byteAt_append_right (n := 15) 65 h.length_head,
    byteAt_append_right (n := 21) 44 (by simp),
    byteAt_append_right (n := 40) 4 h.length_touchscreen, byteAt_append_right (n := 4) 0 (by simp)]
  rfl

/-- The bytes of a touch point, at four times its index. -/
theorem byteAt_point (i : Fin 10) :
    byteAt h.encode (36 + 4 * i) = loByte (h.touchX i).word ∧
    byteAt h.encode (36 + 4 * i + 1) = hiByte (h.touchX i).word ∧
    byteAt h.encode (36 + 4 * i + 2) = loByte (h.touchY i).word ∧
    byteAt h.encode (36 + 4 * i + 3) = hiByte (h.touchY i).word := by
  have hi := i.isLt
  simp only [Nat.add_assoc]
  rw [byteAt_touchscreen h (by omega), byteAt_touchscreen h (by omega),
    byteAt_touchscreen h (by omega), byteAt_touchscreen h (by omega)]
  fin_cases i <;> exact ⟨rfl, rfl, rfl, rfl⟩

theorem tsSample_encode (i : Fin 10) :
    tsSample h.encode (36 + 4 * i + 0) = (h.touchX i).value ∧
    tsSample h.encode (36 + 4 * i + 2) = (h.touchY i).value := by
  obtain ⟨h0, h1, h2, h3⟩ := h.byteAt_point i
  constructor
  · rw [Nat.add_zero (36 + 4 * i.val), tsSample, h0, h1, TouchCoord.value_eq]
  · rw [tsSample, h2, h3, TouchCoord.value_eq]

/-- The loop over the points is a sum. -/
theorem tsMean_eq (msg : List UInt8) (coord : ℕ) : tsMean msg coord =
    ((List.finRange 10).map fun i => tsSample msg (36 + 4 * i.val + coord)).sum / 10 := by
  rw [tsMean, kTsPointsCount, ← List.map_coe_finRange_eq_range, List.foldl_map,
    List.sum_eq_foldl_nat,
    List.foldl_map]

theorem tsMean_encode : tsMean h.encode 0 = mean h.touchX ∧ tsMean h.encode 2 = mean h.touchY := by
  rw [tsMean_eq, tsMean_eq]
  simp only [(h.tsSample_encode _).1, (h.tsSample_encode _).2]
  exact ⟨rfl, rfl⟩

theorem tsPressureBits_encode : tsPressureBits h.encode = h.pressure := by
  obtain ⟨-, hx0, -, hy0⟩ := h.byteAt_point 0
  obtain ⟨-, hx1, -, hy1⟩ := h.byteAt_point 1
  have hbits : tsPressureBits h.encode = ((hiByte (h.touchX 0).word >>> 4) &&& 7).toNat <<< 0 |||
      ((hiByte (h.touchY 0).word >>> 4) &&& 7).toNat <<< 3 |||
      ((hiByte (h.touchX 1).word >>> 4) &&& 7).toNat <<< 6 |||
      ((hiByte (h.touchY 1).word >>> 4) &&& 7).toNat <<< 9 := by
    rw [← hx0, ← hy0, ← hx1, ← hy1]
    rfl
  rw [hbits]
  simp only [TouchCoord.extra_eq]
  exact or_of_octal (Fin.isLt _) (Fin.isLt _) (Fin.isLt _)

theorem buttons_encode : (byteAt h.encode 80).toNat <<< 16 ||| (byteAt h.encode 2).toNat <<< 8 |||
    (byteAt h.encode 3).toNat = h.extraButtons.toNat * 2 ^ 16 + h.buttons.toNat := by
  have hlt := h.buttons.toNat_lt
  rw [byteAt_extraButtons, byteAt_head h (by decide), byteAt_head h (by decide)]
  change h.extraButtons.toNat <<< 16 ||| (hiByte h.buttons).toNat <<< 8 |||
    (loByte h.buttons).toNat = _
  rw [Lib.toNat_hiByte, toNat_loByte, Nat.or_assoc, Nat.or_comm (_ <<< 8),
    or_shiftLeft (i := 8) (by omega), Nat.or_comm, or_shiftLeft (i := 16) (by omega)]
  omega

theorem decode_encode : r.decode h.encode = h.reported r := by
  have hstick : ∀ i (raw : Fin 0x8000), byteAt h.encode (7 + 2 * i) = hiByte (UInt16.ofNat raw) →
      byteAt h.encode (6 + 2 * i) = loByte (UInt16.ofNat raw) →
      stickValue (stickSample h.encode i) = stickPosition raw := by
    intro i raw hhi hlo
    rw [stickSample, hhi, hlo, stickSample_eq, stickValue_eq]
  have hmean := h.tsMean_encode
  rw [InputReceiver.decode, h.buttons_encode, h.tsPressureBits_encode, hmean.1, hmean.2,
    hstick 0 h.leftStickX (h.byteAt_head (by decide)) (h.byteAt_head (by decide)),
    hstick 1 h.leftStickY (h.byteAt_head (by decide)) (h.byteAt_head (by decide)),
    hstick 2 h.rightStickX (h.byteAt_head (by decide)) (h.byteAt_head (by decide)),
    hstick 3 h.rightStickY (h.byteAt_head (by decide)) (h.byteAt_head (by decide)),
    h.byteAt_head (i := 5) (by decide), h.byteAt_head (i := 14) (by decide),
    h.byteAt_head (i := 4) (by decide)]
  simp only [reported, Nat.pos_iff_ne_zero]
  rfl

end HidInput

theorem deadZone_mono {v v' : ℚ} (h : v ≤ v') :
    (if |v| < 1 / 10 then 0 else v) ≤ if |v'| < 1 / 10 then 0 else v' := by
  simp only [abs_lt]
  split_ifs with hv hv' hv'
  · exact le_rfl
  · by_contra hneg
    exact hv' ⟨by linarith [hv.1], by linarith [hv.2]⟩
  · by_contra hpos
    exact hv ⟨by linarith [hv'.1], by linarith [hv'.2]⟩
  · exact h

theorem stickPosition_mono {raw raw' : ℕ} (h : raw ≤ raw') :
    stickPosition raw ≤ stickPosition raw' := by
  have hclamp : min 3200 (max 900 raw) ≤ min 3200 (max 900 raw') := by omega
  have hcast : ((min 3200 (max 900 raw) : ℕ) : ℚ) ≤ (min 3200 (max 900 raw') : ℕ) :=
    Nat.cast_le.mpr hclamp
  exact deadZone_mono (by linarith)

theorem stickPosition_range (raw : ℕ) : -1 ≤ stickPosition raw ∧ stickPosition raw ≤ 1 := by
  have hclamp : 900 ≤ min 3200 (max 900 raw) ∧ min 3200 (max 900 raw) ≤ 3200 := by omega
  have hlo : (900 : ℚ) ≤ (min 3200 (max 900 raw) : ℕ) := by exact_mod_cast hclamp.1
  have hhi : ((min 3200 (max 900 raw) : ℕ) : ℚ) ≤ 3200 := by exact_mod_cast hclamp.2
  simp only [stickPosition]
  split_ifs
  · norm_num
  · constructor <;> linarith

theorem processInputMessage_encode (h : HidInput) (r : InputReceiver κ) :
    r.processInputMessage h.encode =
      (r.setCurrent (h.reported r), r.cbs.map fun cb => (cb, h.reported r)) := by
  rw [InputReceiver.processInputMessage, if_neg (not_not.mpr h.length_encode), h.decode_encode]

/-- Datagrams of another length are ignored; a documented record is reported to `Poll` and to every
callback alike, with its buttons side by side and its sticks in range and in order. -/
theorem input_decoded (r : InputReceiver κ) :
    (∀ msg : List UInt8, msg.length ≠ 128 → r.processInputMessage msg = (r, [])) ∧
    (∀ h : HidInput, (r.processInputMessage h.encode).1.poll = h.reported r ∧
      (r.processInputMessage h.encode).2 = r.cbs.map (fun cb => (cb, h.reported r)) ∧
      (h.reported r).buttons.toNat = h.extraButtons.toNat * 2 ^ 16 + h.buttons.toNat ∧
      ((h.reported r).tsPressed = true ↔ h.pressure ≠ 0)) ∧
    (∀ raw, -1 ≤ stickPosition raw ∧ stickPosition raw ≤ 1) ∧
    (∀ raw raw', raw ≤ raw' → stickPosition raw ≤ stickPosition raw') := by
  refine ⟨fun msg hmsg => if_pos hmsg, ?_, stickPosition_range, fun _ _ => stickPosition_mono⟩
  intro h
  have hbuttons := h.buttons.toNat_lt
  have hextra := h.extraButtons.toNat_lt
  rw [processInputMessage_encode]
  refine ⟨rfl, rfl, ?_, ?_⟩
  · rw [HidInput.reported, UInt32.toNat_ofNat']
    omega
  · simp [HidInput.reported, Nat.pos_iff_ne_zero]

end Pc2Drc
