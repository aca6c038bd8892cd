import Pc2Drc.InputReceiver
import Pc2Drc.VideoConverter

/-! The touch area of the streamer, against the place where the converter puts the picture. -/
namespace Pc2Drc
open Lib

variable {κ : Type} {width height : UInt16} {pixfmt : PixelFormat} {flip : FlippingMode}
  {mode : StretchMode}

/-- The arguments that `SetTSArea` computes for `SetMargins`. The sizes are integer quotients. -/
def tsArea (width height : UInt16) (stretch : StretchMode) :
    Except IntFault (AxisArea × AxisArea) := do
  let width : ℤ := width.toNat
  let height : ℤ := height.toNat
  match stretch with
  | .stretchFull => return (⟨0, 1⟩, ⟨0, 1⟩)
  | .noStretch =>
    let marginX : ℚ := (← int (kScreenWidth - width)) / 2
    let marginY : ℚ := (← int (kScreenHeight - height)) / 2
    let sizeX ← divInt width kScreenWidth
    let sizeY ← divInt height kScreenHeight
    return (⟨marginX, sizeX⟩, ⟨marginY, sizeY⟩)
  | .stretchKeepAspectRatio =>
    if (← int (854 * height)) > (← int (480 * width)) then
      let targetW ← divInt (← int (width * 480)) height
      let marginX : ℚ := (← int (kScreenWidth - targetW)) / 2
      let sizeX ← divInt targetW kScreenWidth
      return (⟨marginX, sizeX⟩, ⟨0, 1⟩)
    else
      let targetH ← divInt (← int (height * 854)) width
      let marginY : ℚ := (← int (kScreenHeight - targetH)) / 2
      let sizeY ← divInt targetH kScreenHeight
      return (⟨0, 1⟩, ⟨marginY, sizeY⟩)

def InputReceiver.setTSArea (r : InputReceiver κ) (width height : UInt16) (stretch : StretchMode) :
    Except IntFault (InputReceiver κ) := do
  let (x, y) ← tsArea width height stretch
  r.setMargins x.margin x.size y.margin y.size

/-- On one axis, a touch at the fraction `t` of the picture is reported as `t`, within two pixels.
`screen` takes a raw sample to the column or row of the screen. -/
def AxisAgrees (screen m : AxisMap) (margin target : ℤ) (last : ℚ) : Prop :=
  ∀ (raw : ℤ) (t : ℚ), 0 ≤ t → t ≤ 1 → screen.apply raw = margin + t * target →
    |m.normalized raw last - t| ≤ 2 / target

/-- The touch area of a picture is not degenerate, and every calibrated receiver reports touches
where the converter put the picture. -/
def TouchAgrees (κ : Type) (width height : UInt16) (pixfmt : PixelFormat) (flip : FlippingMode)
    (mode : StretchMode) : Prop :=
  ∃ area place, tsArea width height mode = .ok area ∧
    doConversionPlacement (pushVidFrame width height pixfmt flip mode) = .ok place ∧
    area.1.size ≠ 0 ∧ area.2.size ≠ 0 ∧
    ∀ (calls : List TouchCall) (r : InputReceiver κ) (screenX screenY : AxisMap),
      receiverAfter κ calls = .ok r → r.pointsX.raw1 ≠ r.pointsX.raw2 →
      r.pointsY.raw1 ≠ r.pointsY.raw2 → r.pointsX.screenMap = .ok screenX →
      r.pointsY.screenMap = .ok screenY → ∃ r', r.setTSArea width height mode = .ok r' ∧
        AxisAgrees screenX r'.mapX place.hMargin place.targetW 853 ∧
        AxisAgrees screenY r'.mapY place.vMargin place.targetH 479

/-- The picture takes the whole screen. -/
def FillsScreen (width height : ℕ) : StretchMode → Prop
  | .noStretch => width = 854 ∧ height = 480
  | .stretchKeepAspectRatio => 854 * height = 480 * width
  | .stretchFull => True

theorem tsArea_noStretch (hw : width.toNat ≤ 854) (hh : height.toNat ≤ 480) :
    tsArea width height .noStretch =
      .ok (⟨(854 - width.toNat : ℤ) / 2, (width.toNat / 854 : ℤ)⟩,
        ⟨(480 - height.toNat : ℤ) / 2, (height.toNat / 480 : ℤ)⟩) := by
  have hfit : ∀ n : ℤ, 0 ≤ n → n ≤ 854 → FitsInt n := by
    intro n h h'
    constructor <;> omega
  simp only [tsArea, kScreenWidth, kScreenHeight]
  rw [int_ok (hfit _ (by omega) (by omega)), int_ok (hfit _ (by omega) (by omega)),
    divInt_of_nonneg (by omega) (hfit _ (by omega) (by omega)) (by decide),
    divInt_of_nonneg (by omega) (hfit _ (by omega) (by omega)) (by decide)]
  rfl

/-- The area of a letterboxed picture: one axis is left as it is. -/
theorem tsArea_keepAspectRatio (hw : 1 ≤ width.toNat) (hh : 1 ≤ height.toNat) :
    tsArea width height .stretchKeepAspectRatio =
      if 854 * (height.toNat : ℤ) > 480 * width.toNat then
        .ok (⟨(854 - width.toNat * 480 / height.toNat : ℤ) / 2,
          (width.toNat * 480 / height.toNat / 854 : ℤ)⟩, ⟨0, 1⟩)
      else .ok (⟨0, 1⟩, ⟨(480 - height.toNat * 854 / width.toNat : ℤ) / 2,
        (height.toNat * 854 / width.toNat / 480 : ℤ)⟩) := by
  obtain ⟨hw0, hw1⟩ := toNat_pos_lt hw
  obtain ⟨hh0, hh1⟩ := toNat_pos_lt hh
  simp only [tsArea, kScreenWidth, kScreenHeight]
  generalize (width.toNat : ℤ) = w at *
  generalize (height.toNat : ℤ) = h at *
  have hfit : ∀ n : ℤ, 0 ≤ n → n < 65536 * 854 → FitsInt n := by
    intro n h h'
    constructor <;> omega
  rw [int_ok (hfit (854 * h) (by omega) (by omega)), int_ok (hfit (480 * w) (by omega) (by omega)),
    int_ok (hfit (w * 480) (by omega) (by omega)), int_ok (hfit (h * 854) (by omega) (by omega))]
  simp only [bind, Except.bind]
  rw [divInt_of_nonneg (by omega) (hfit (w * 480) (by omega) (by omega)) hh0,
    divInt_of_nonneg (by omega) (hfit (h * 854) (by omega) (by omega)) hw0]
  split
  · have hpos : 0 ≤ w * 480 / h := Int.ediv_nonneg (by omega) (by omega)
    have hlt : w * 480 / h < 854 := Int.ediv_lt_of_lt_mul hh0 (by omega)
    simp only
    rw [int_ok (hfit _ (by push_cast; omega) (by push_cast; omega)),
      divInt_of_nonneg hpos (hfit _ hpos (by omega)) (by decide)]
    rfl
  · have hpos : 0 ≤ h * 854 / w := Int.ediv_nonneg (by omega) (by omega)
    have hlt : h * 854 / w < 481 := Int.ediv_lt_of_lt_mul hw0 (by omega)
    simp only
    rw [int_ok (hfit _ (by push_cast; omega) (by push_cast; omega)),
      divInt_of_nonneg hpos (hfit _ hpos (by omega)) (by decide)]
    rfl

/-- Scaling by `n / (n - 1)` moves a fraction by at most `1 / n`, once it is clamped. -/
theorem clamp_error {n t : ℚ} (hn : 1 < n) (h0 : 0 ≤ t) (h1 : t ≤ 1) :
    |max 0 (min 1 (t * n / (n - 1))) - t| ≤ 2 / n := by
  have hpos : 0 < n - 1 := by linarith
  have hle : t ≤ t * n / (n - 1) := by
    rw [le_div_iff₀ hpos]
    nlinarith
  have hmin : t ≤ min 1 (t * n / (n - 1)) := le_min h1 hle
  rw [max_eq_right (h0.trans hmin), abs_of_nonneg (by linarith), le_div_iff₀ (by linarith)]
  rcases le_or_gt (t * n) (n - 1) with hcase | hcase
  · have hdiff : min 1 (t * n / (n - 1)) - t ≤ t / (n - 1) := by
      have heq : t * n / (n - 1) - t = t / (n - 1) := by
        field_simp
        ring
      rw [← heq]
      linarith [min_le_right 1 (t * n / (n - 1))]
    have hfrac : t / (n - 1) * n ≤ 1 := by
      rw [div_mul_eq_mul_div, div_le_iff₀ hpos, one_mul]
      exact hcase
    nlinarith
  · nlinarith [min_le_left 1 (t * n / (n - 1))]

theorem axisAgrees_screen {screen : AxisMap} {n : ℤ} {last : ℚ} (hn : 1 < n)
    (hlast : last = n - 1) : AxisAgrees screen screen 0 n last := by
  intro raw t h0 h1 hcolumn
  have hn' : (1 : ℚ) < n := by exact_mod_cast hn
  rw [AxisMap.normalized, hcolumn, hlast, Int.cast_zero, zero_add]
  exact clamp_error hn' h0 h1

/-- A size that is rounded down to zero unless it is the screen's. -/
theorem quotient_ne_zero {n screen : ℤ} (h0 : 0 ≤ n) (h1 : n ≤ screen)
    (h : ((n / screen : ℤ) : ℚ) ≠ 0) : n = screen := by
  by_contra hne
  have hzero : n / screen = 0 := Int.ediv_eq_zero_of_lt h0 (by omega)
  exact h (by rw [hzero]; rfl)

/-- The sizes are not zero only where the picture fills the screen. -/
theorem fillsScreen_of_sizes (hw : 1 ≤ width.toNat ∧ width.toNat ≤ 854)
    (hh : 1 ≤ height.toNat ∧ height.toNat ≤ 480) {area : AxisArea × AxisArea}
    (ha : tsArea width height mode = .ok area) (hx : area.1.size ≠ 0) (hy : area.2.size ≠ 0) :
    FillsScreen width.toNat height.toNat mode := by
  cases mode with
  | stretchFull => trivial
  | noStretch =>
    rw [tsArea_noStretch hw.2 hh.2] at ha
    cases ha
    have hx' := quotient_ne_zero (by omega) (by omega) hx
    have hy' := quotient_ne_zero (by omega) (by omega) hy
    exact ⟨by omega, by omega⟩
  | stretchKeepAspectRatio =>
    obtain ⟨hw0, -⟩ := toNat_pos_lt hw.1
    obtain ⟨hh0, -⟩ := toNat_pos_lt hh.1
    rw [tsArea_keepAspectRatio hw.1 hh.1] at ha
    change 854 * height.toNat = 480 * width.toNat
    split at ha
    · rename_i hcase
      cases ha
      have hlt : (width.toNat : ℤ) * 480 / height.toNat < 854 :=
        Int.ediv_lt_of_lt_mul hh0 (by omega)
      have hx' := quotient_ne_zero (Int.ediv_nonneg (by omega) (by omega)) (by omega) hx
      omega
    · rename_i hcase
      cases ha
      have hlt : (height.toNat : ℤ) * 854 / width.toNat < 481 :=
        Int.ediv_lt_of_lt_mul hw0 (by omega)
      have hy' := quotient_ne_zero (Int.ediv_nonneg (by omega) (by omega)) (by omega) hy
      have hge : 480 * (width.toNat : ℤ) ≤ height.toNat * 854 := by
        rw [← Int.le_ediv_iff_mul_le hw0]
        omega
      omega

/-- The target of a picture with the aspect ratio of the screen. -/
theorem letterbox_fills (hw : 1 ≤ width.toNat) (h : 854 * height.toNat = 480 * width.toNat) :
    (height.toNat : ℤ) * 854 / width.toNat = 480 := by
  have hmul : (height.toNat : ℤ) * 854 = 480 * width.toNat := by omega
  rw [hmul]
  exact Int.mul_ediv_cancel 480 (by omega)

theorem FillsScreen.area (hw : 1 ≤ width.toNat) (hh : 1 ≤ height.toNat)
    (h : FillsScreen width.toNat height.toNat mode) :
    tsArea width height mode = .ok (⟨0, 1⟩, ⟨0, 1⟩) := by
  cases mode with
  | stretchFull => rfl
  | noStretch =>
    obtain ⟨hw', hh'⟩ := h
    rw [tsArea_noStretch (by omega) (by omega), hw', hh']
    norm_num
  | stretchKeepAspectRatio =>
    change 854 * height.toNat = 480 * width.toNat at h
    rw [tsArea_keepAspectRatio hw hh, if_neg (by omega), letterbox_fills hw h]
    norm_num

theorem FillsScreen.placement (hw : 1 ≤ width.toNat) (hh : 1 ≤ height.toNat)
    (h : FillsScreen width.toNat height.toNat mode) :
    doConversionPlacement (pushVidFrame width height pixfmt flip mode) = .ok ⟨854, 480, 0, 0⟩ := by
  rw [doConversionPlacement_eq hw hh]
  have htarget : (pushVidFrame width height pixfmt flip mode).target = (854, 480) := by
    cases mode with
    | stretchFull => rfl
    | noStretch =>
      obtain ⟨hw', hh'⟩ := h
      change ((width.toNat : ℤ), (height.toNat : ℤ)) = (854, 480)
      rw [hw', hh']
      rfl
    | stretchKeepAspectRatio =>
      change 854 * height.toNat = 480 * width.toNat at h
      change letterbox width.toNat height.toNat = (854, 480)
      rw [letterbox, if_neg (by omega), letterbox_fills hw h]
      rfl
  rw [VideoConverterParams.placement, htarget]
  split <;> rfl

/-- A receiver that shows the whole screen reports the calibrated position. -/
theorem setMargins_screen {calls : List TouchCall} {r : InputReceiver κ} {screenX screenY : AxisMap}
    (hr : receiverAfter κ calls = .ok r) (hx : r.pointsX.screenMap = .ok screenX)
    (hy : r.pointsY.screenMap = .ok screenY) :
    ∃ r', r.setMargins 0 1 0 1 = .ok r' ∧ r'.mapX = screenX ∧ r'.mapY = screenY := by
  have haxis : ∀ {p : AxisPoints} {m m' : AxisMap}, p.screenMap = .ok m →
      recalibrateAxis p ⟨0, 1⟩ = .ok m' → m' = m := by
    intro p m m' hp hm
    rw [recalibrateAxis, hp] at hm
    cases hm
    simp
  obtain ⟨hs, r0, hr0, hcal⟩ := receiverAfter_calibrated (κ := κ) calls
  cases hr.symm.trans hr0
  obtain ⟨r', hr', hcal'⟩ := hcal.apply hs (.setMargins 0 1 0 1)
  rw [hcal.points.1] at hx
  rw [hcal.points.2] at hy
  exact ⟨r', hr', haxis hx hcal'.mapX, haxis hy hcal'.mapY⟩

theorem FillsScreen.agrees (hw : 1 ≤ width.toNat) (hh : 1 ≤ height.toNat)
    (h : FillsScreen width.toNat height.toNat mode) :
    TouchAgrees κ width height pixfmt flip mode := by
  refine ⟨_, _, h.area hw hh, h.placement hw hh, one_ne_zero, one_ne_zero, ?_⟩
  intro calls r screenX screenY hr _ _ hx hy
  obtain ⟨r', hr', hmapX, hmapY⟩ := setMargins_screen hr hx hy
  refine ⟨r', ?_, ?_, ?_⟩
  · rw [InputReceiver.setTSArea, h.area hw hh]
    exact hr'
  · rw [hmapX]
    exact axisAgrees_screen (by decide) (by norm_num)
  · rw [hmapY]
    exact axisAgrees_screen (by decide) (by norm_num)

theorem touchAgrees_iff (hw : 1 ≤ width.toNat ∧ width.toNat ≤ 854)
    (hh : 1 ≤ height.toNat ∧ height.toNat ≤ 480) :
    TouchAgrees κ width height pixfmt flip mode ↔
      FillsScreen width.toNat height.toNat mode := by
  constructor
  · rintro ⟨area, place, harea, -, hx, hy, -⟩
    exact fillsScreen_of_sizes hw hh harea hx hy
  · intro h
    exact h.agrees hw.1 hh.1

/-- The touch area agrees with the placement exactly for the pictures that fill the screen. -/
theorem touch_area_agrees_iff (κ : Type) (width height : UInt16) (pixfmt : PixelFormat)
    (flip : FlippingMode) (mode : StretchMode) (hw : 1 ≤ width.toNat ∧ width.toNat ≤ 854)
    (hh : 1 ≤ height.toNat ∧ height.toNat ≤ 480) :
    TouchAgrees κ width height pixfmt flip mode ↔
      mode = .stretchFull ∨
      (mode = .noStretch ∧ width.toNat = 854 ∧ height.toNat = 480) ∨
      mode = .stretchKeepAspectRatio ∧ 854 * height.toNat = 480 * width.toNat := by
  rw [touchAgrees_iff hw hh]
  cases mode <;> simp [FillsScreen]

/-- The theorem at half the screen, with its aspect ratio kept. -/
theorem touch_area_agrees_half :
    TouchAgrees ℕ 427 240 .bgra .noFlip .stretchKeepAspectRatio :=
  (touch_area_agrees_iff ℕ 427 240 .bgra .noFlip .stretchKeepAspectRatio (by decide)
    (by decide)).mpr (Or.inr (Or.inr ⟨rfl, by decide⟩))

/-- A picture with the aspect ratio 4:3 gets an area of size zero. -/
theorem touch_area_degenerate : ¬ ∀ (width height : UInt16) (mode : StretchMode),
    1 ≤ width.toNat ∧ width.toNat ≤ 854 → 1 ≤ height.toNat ∧ height.toNat ≤ 480 →
      TouchAgrees ℕ width height .bgra .noFlip mode := by
  intro h
  have hagrees := h 640 480 .stretchKeepAspectRatio (by decide) (by decide)
  rw [touchAgrees_iff (by decide) (by decide)] at hagrees
  revert hagrees
  change ¬ 854 * 480 = 480 * 640
  decide

end Pc2Drc
