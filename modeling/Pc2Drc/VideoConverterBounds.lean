import Pc2Drc.VideoConverter

/-! When a conversion stays inside the frame it reads and inside the planes it writes. -/
namespace Pc2Drc
open Lib

variable {p : VideoConverterParams} {frame : List UInt8}

namespace VideoConverterParams

/-- The bytes of a row of the source. -/
def rowSize (p : VideoConverterParams) : ℤ :=
  p.width.toNat * (convertPixFmt p.pixfmt).bytesPerPixel

/-- The offset of the luma plane and of a chroma plane. -/
def lumaStart (p : VideoConverterParams) : ℤ := p.placement.vMargin * 854 + p.placement.hMargin

def chromaStart (p : VideoConverterParams) : ℤ :=
  p.placement.vMargin.tdiv 2 * 427 + p.placement.hMargin.tdiv 2

/-- The call of `sws_scale`, where nothing overflows. -/
def call (p : VideoConverterParams) : SwsScale where
  ctx := ⟨p.width.toNat, p.height.toNat, convertPixFmt p.pixfmt, p.target.1, p.target.2⟩
  planes := [some (if p.flipv then p.rowSize * p.height.toNat - p.rowSize else 0), none, none, none]
  strides := [if p.flipv then -p.rowSize else p.rowSize, 0, 0, 0]
  sliceH := p.height.toNat
  convertedPlanes := fun
    | .y => 0 + p.lumaStart
    | .u => ySize + p.chromaStart
    | .v => ySize + uSize + p.chromaStart
  convertedStrides := fun
    | .y => kScreenWidth
    | .u | .v => (kScreenWidth / 2 : ℕ)

end VideoConverterParams

theorem rowSize_bounds (hw : 1 ≤ p.width.toNat) : 0 < p.rowSize ∧ p.rowSize ≤ 65535 * 4 := by
  have := p.width.toNat_lt
  unfold VideoConverterParams.rowSize
  cases p.pixfmt <;> simp only [convertPixFmt, AVPixelFormat.bytesPerPixel] <;> omega

theorem getPixFmtStrides_eq (hw : 1 ≤ p.width.toNat) :
    getPixFmtStrides p.pixfmt p.width = .ok [p.rowSize, 0, 0, 0] := by
  have hbounds := rowSize_bounds hw
  have hfit : FitsInt p.rowSize := by constructor <;> omega
  unfold getPixFmtStrides
  unfold VideoConverterParams.rowSize at hfit ⊢
  cases hp : p.pixfmt <;> rw [hp] at hfit <;>
    simp only [convertPixFmt, AVPixelFormat.bytesPerPixel] at hfit ⊢ <;> rw [int_ok hfit] <;> rfl

/-- Flipping multiplies the row size by the height, which may not fit an `int`. -/
theorem flipPlanes_eq {stride height : ℤ} (hs : 0 < stride) (hs' : stride ≤ 65535 * 4)
    (hh : 1 ≤ height) :
    flipPlanes [some 0, none, none, none] [stride, 0, 0, 0] [height, 0, 0, 0] =
      if FitsInt (stride * height) then
        .ok ([some (stride * height - stride), none, none, none], [-stride, 0, 0, 0])
      else .error .overflow := by
  have hrest : flipPlanes [none, none, none] [0, 0, 0] [0, 0, 0] =
      .ok ([none, none, none], [0, 0, 0]) := by rfl
  split
  · rename_i hfit
    have hge : stride ≤ stride * height := by nlinarith
    have hoffset : FitsInt (stride * height - stride) := by
      have := hfit.2
      constructor <;> omega
    simp only [flipPlanes] at hrest ⊢
    rw [int_ok hfit]
    simp only [bind, Except.bind] at hrest ⊢
    rw [int_ok hoffset, hrest]
    simp [pure, Except.pure]
  · rename_i hfit
    simp only [flipPlanes]
    rw [int_overflow hfit]
    rfl

theorem margin_bounds (hw : 1 ≤ p.width.toNat) (hh : 1 ≤ p.height.toNat) :
    (-40000 ≤ p.placement.hMargin ∧ p.placement.hMargin ≤ 40000) ∧
      -40000 ≤ p.placement.vMargin ∧ p.placement.vMargin ≤ 40000 := by
  have hbounds := target_bounds hw hh
  unfold VideoConverterParams.placement kScreenWidth kScreenHeight
  split
  · simp only [tdiv_two]
    split <;> split <;> omega
  · simp

/-- `DoConversion` fails only where the size of a frame to flip overflows. -/
theorem doConversion_eq (hw : 1 ≤ p.width.toNat) (hh : 1 ≤ p.height.toNat) :
    doConversion p =
      if p.flipv ∧ ¬ FitsInt (p.rowSize * p.height.toNat) then .error .overflow
      else .ok p.call := by
  obtain ⟨hpos, hle⟩ := rowSize_bounds hw
  have hmargins := margin_bounds hw hh
  have hluma : FitsInt (p.placement.vMargin * (kScreenWidth : ℕ) + p.placement.hMargin) := by
    unfold kScreenWidth
    constructor <;> omega
  have hchroma : FitsInt (p.placement.vMargin.tdiv 2 * (kScreenWidth / 2 : ℕ) +
      p.placement.hMargin.tdiv 2) := by
    unfold kScreenWidth
    simp only [tdiv_two]
    constructor <;> split <;> split <;> omega
  have hplanes : getPixFmtPlanes p.pixfmt = [some 0, none, none, none] := by
    cases p.pixfmt <;> rfl
  have hheights : getPixFmtHeights p.pixfmt p.height = [(p.height.toNat : ℤ), 0, 0, 0] := by
    unfold getPixFmtHeights
    cases p.pixfmt <;> rfl
  rw [doConversion, getContextForParams_eq hw hh, doConversionPlacement_eq hw hh,
    getPixFmtStrides_eq hw, hplanes, hheights]
  simp only [bind, Except.bind, int_ok hluma, int_ok hchroma]
  rw [flipPlanes_eq hpos hle (by omega)]
  by_cases hflip : p.flipv
  · by_cases hfit : FitsInt (p.rowSize * p.height.toNat)
    · simp only [hflip, hfit, if_true, not_true_eq_false, and_false, if_false]
      simp only [VideoConverterParams.call, hflip, if_true]
      rfl
    · simp only [hflip, hfit, if_true, not_false_eq_true, and_self, if_false]
  · simp only [VideoConverterParams.call, hflip]
    rfl

/-- The start of a row of the source, from the top or from the bottom. -/
theorem sourceRow_call (r : ℤ) : p.call.sourceRow r =
    some ((if p.flipv then p.height.toNat - 1 - r else r) * p.rowSize) := by
  cases hflip : p.flipv
  · simp [SwsScale.sourceRow, VideoConverterParams.call, hflip]
  · simp [SwsScale.sourceRow, VideoConverterParams.call, hflip]
    ring

theorem reads_call : p.call.reads = raster 0 p.rowSize p.height.toNat p.rowSize := by
  have hraster : p.call.reads = raster (if p.flipv then 0 + (p.height.toNat - 1) * p.rowSize else 0)
      (if p.flipv then -p.rowSize else p.rowSize) p.height.toNat p.rowSize := by
    ext i
    unfold SwsScale.reads raster
    simp only [sourceRow_call, Set.mem_ofPred_eq, Option.some.injEq]
    constructor
    · rintro ⟨r, start, x, hr, hr', rfl, hx, hx', rfl⟩
      refine ⟨r, x, hr, hr', hx, hx', ?_⟩
      split <;> ring
    · rintro ⟨r, x, hr, hr', hx, hx', rfl⟩
      refine ⟨r, _, x, hr, hr', rfl, hx, hx', ?_⟩
      split <;> ring
  rw [hraster]
  split
  · exact raster_flip
  · rfl

theorem reads_inside_iff (hw : 1 ≤ p.width.toNat) (hh : 1 ≤ p.height.toNat) :
    p.call.reads ⊆ Set.Ico 0 frame.length ↔ p.rowSize * p.height.toNat ≤ frame.length := by
  obtain ⟨hpos, -⟩ := rowSize_bounds hw
  have hend : 0 + ((p.height.toNat : ℤ) - 1) * p.rowSize + p.rowSize =
      p.rowSize * p.height.toNat := by ring
  rw [reads_call, raster_subset_iff hpos.le (by omega) hpos, hend]
  simp

theorem region_disjoint : ∀ j k : Component, j ≠ k → Disjoint j.region k.region := by
  have hsize : 0 ≤ ySize ∧ 0 ≤ uSize ∧ 0 ≤ vSize := by decide
  intro j k hne
  rw [Set.disjoint_left]
  intro i hj hk
  cases j <;> cases k <;> simp only [Component.region, Set.mem_Ico] at hj hk <;>
    first | exact hne rfl | omega

theorem region_allocated (k : Component) : k.region ⊆ Set.Ico 0 (ySize + uSize + vSize) := by
  have hsize : 0 ≤ ySize ∧ 0 ≤ uSize ∧ 0 ≤ vSize := by decide
  intro i hi
  cases k <;> simp only [Component.region, Set.mem_Ico] at hi ⊢ <;> omega

theorem writes_y : p.call.writes .y = raster (0 + p.lumaStart) 854 p.target.2 p.target.1 := rfl

theorem writes_u : p.call.writes .u =
    raster (ySize + p.chromaStart) 427 ((p.target.2 + 1) / 2) ((p.target.1 + 1) / 2) := rfl

theorem writes_v : p.call.writes .v =
    raster (ySize + uSize + p.chromaStart) 427 ((p.target.2 + 1) / 2) ((p.target.1 + 1) / 2) := rfl

namespace VideoConverterParams

/-- The corners of what is written lie in the planes. -/
structure CornersInside (p : VideoConverterParams) : Prop where
  luma : 0 ≤ p.lumaStart
  luma' : p.lumaStart + (p.target.2 - 1) * 854 + p.target.1 ≤ 854 * 480
  chroma : 0 ≤ p.chromaStart
  chroma' : p.chromaStart + ((p.target.2 + 1) / 2 - 1) * 427 + (p.target.1 + 1) / 2 ≤ 427 * 240

end VideoConverterParams

theorem writes_inside (h : p.CornersInside) : ∀ k, p.call.writes k ⊆ k.region := by
  have hy : ySize = 854 * 480 := rfl
  have hu : uSize = 427 * 240 := rfl
  have hv : vSize = 427 * 240 := rfl
  obtain ⟨hluma, hluma', hchroma, hchroma'⟩ := h
  intro k
  cases k with
  | y =>
    rw [writes_y]
    exact raster_subset (by decide) (by omega) (by omega)
  | u =>
    rw [writes_u]
    exact raster_subset (by decide) (by omega) (by omega)
  | v =>
    rw [writes_v]
    exact raster_subset (by decide) (by omega) (by omega)

/-- A picture with at least one pixel is written inside the planes only if its corners are. -/
theorem cornersInside_of_writes (hw : 0 < p.target.1) (hh : 0 < p.target.2)
    (h : ∀ k, p.call.writes k ⊆ k.region) : p.CornersInside := by
  have hy : ySize = 854 * 480 := rfl
  have hu : uSize = 427 * 240 := rfl
  have hluma := h .y
  have hchroma := h .u
  rw [writes_y, Component.region, raster_subset_iff (by decide) hh hw] at hluma
  rw [writes_u, Component.region, raster_subset_iff (by decide) (by omega) (by omega)] at hchroma
  constructor <;> omega

/-- A picture that is not larger than the screen, with its margins on both sides. -/
theorem cornersInside_of_fits (hw : 0 ≤ p.target.1 ∧ p.target.1 ≤ 854)
    (hh : 0 ≤ p.target.2 ∧ p.target.2 ≤ 480) (hm : !p.stretch || p.keepAr) : p.CornersInside := by
  have hplace : p.placement = ⟨p.target.1, p.target.2, (854 - p.target.1).tdiv 2,
      (480 - p.target.2).tdiv 2⟩ := if_pos hm
  have hluma : p.lumaStart = (480 - p.target.2) / 2 * 854 + (854 - p.target.1) / 2 := by
    rw [VideoConverterParams.lumaStart, hplace, tdiv_two, tdiv_two, if_pos (by omega),
      if_pos (by omega)]
  have hchroma : p.chromaStart =
      (480 - p.target.2) / 2 / 2 * 427 + (854 - p.target.1) / 2 / 2 := by
    rw [VideoConverterParams.chromaStart, hplace]
    simp only [tdiv_two]
    repeat rw [if_pos (by omega)]
  constructor <;> omega

theorem cornersInside_full (hs : p.stretch = true) (hk : p.keepAr = false) : p.CornersInside := by
  have htarget : p.target = (854, 480) := by
    simp [VideoConverterParams.target, hs, hk, kScreenWidth, kScreenHeight]
  have hplace : p.placement = ⟨p.target.1, p.target.2, 0, 0⟩ := by
    simp [VideoConverterParams.placement, hs, hk]
  have hluma : p.lumaStart = 0 := by
    rw [VideoConverterParams.lumaStart, hplace]
    rfl
  have hchroma : p.chromaStart = 0 := by
    rw [VideoConverterParams.chromaStart, hplace]
    rfl
  constructor <;> simp only [htarget, hluma, hchroma] <;> omega

/-- Whether a picture that is not stretched is written inside the planes. The parts of a row that
is wider than the screen fall into the rows beside it; the chroma planes have room for them above
and below the picture, in rows of half the width. -/
def RoomBeside (width height : ℕ) : Prop :=
  height ≤ 480 ∧ (width - 854) / 4 ≤ 427 * ((480 - height) / 2 / 2) ∧
    (width - 854 + 1) / 2 ≤ (width - 854) / 4 + 427 * (((480 - height) / 2 + 1) / 2)

theorem margin_eq (size n : ℕ) : ((size : ℤ) - n).tdiv 2 =
    if n ≤ size then (((size - n) / 2 : ℕ) : ℤ) else -((n - size) / 2 : ℕ) := by
  rw [tdiv_two]
  split_ifs <;> omega

/-- A margin halved once more, for the chroma planes. -/
theorem margin_half_eq (size n : ℕ) : (((size : ℤ) - n).tdiv 2).tdiv 2 =
    if n ≤ size then (((size - n) / 4 : ℕ) : ℤ) else -((n - size) / 4 : ℕ) := by
  rw [margin_eq, tdiv_two]
  split_ifs <;> omega

/-- The corners of a picture of w by h pixels that is centered without being scaled. -/
theorem corners_iff_room {w h : ℕ} {luma chroma : ℤ} (hw : 1 ≤ w) (hh : 1 ≤ h)
    (hluma : luma = ((480 : ℕ) - (h : ℤ)).tdiv 2 * 854 + ((854 : ℕ) - (w : ℤ)).tdiv 2)
    (hchroma : chroma = (((480 : ℕ) - (h : ℤ)).tdiv 2).tdiv 2 * 427 +
      (((854 : ℕ) - (w : ℤ)).tdiv 2).tdiv 2) :
    (0 ≤ luma ∧ luma + (h - 1) * 854 + w ≤ 854 * 480 ∧ 0 ≤ chroma ∧
      chroma + (((h + 1) / 2 : ℤ) - 1) * 427 + (w + 1) / 2 ≤ 427 * 240) ↔ RoomBeside w h := by
  rw [hluma, hchroma, RoomBeside, margin_half_eq 480 h, margin_half_eq 854 w, margin_eq 480 h,
    margin_eq 854 w]
  by_cases hle : h ≤ 480
  · by_cases hle' : w ≤ 854
    · simp only [hle, hle', if_true, true_and]
      constructor
      · rintro ⟨-, -, -, -⟩
        omega
      · intro _
        refine ⟨?_, ?_, ?_, ?_⟩ <;> omega
    · simp only [hle, hle', if_true, if_false, true_and]
      constructor
      · rintro ⟨-, -, h1, h2⟩
        constructor <;> omega
      · rintro ⟨h1, h2⟩
        refine ⟨?_, ?_, ?_, ?_⟩ <;> omega
  · simp only [hle, if_false, false_and, iff_false]
    rintro ⟨h1, h2, -, -⟩
    split_ifs at h1 h2 <;> omega

theorem cornersInside_iff_room (hw : 1 ≤ p.width.toNat) (hh : 1 ≤ p.height.toNat)
    (hs : p.stretch = false) : p.CornersInside ↔ RoomBeside p.width.toNat p.height.toNat := by
  have hw' : p.target.1 = p.width.toNat := by simp [VideoConverterParams.target, hs]
  have hh' : p.target.2 = p.height.toNat := by simp [VideoConverterParams.target, hs]
  have hplace : p.placement = ⟨p.target.1, p.target.2, (854 - p.target.1).tdiv 2,
      (480 - p.target.2).tdiv 2⟩ := by
    simp [VideoConverterParams.placement, hs, kScreenWidth, kScreenHeight]
  have hluma : p.lumaStart = ((480 : ℕ) - (p.height.toNat : ℤ)).tdiv 2 * 854 +
      ((854 : ℕ) - (p.width.toNat : ℤ)).tdiv 2 := by
    rw [VideoConverterParams.lumaStart, hplace, hw', hh']
    rfl
  have hchroma : p.chromaStart = (((480 : ℕ) - (p.height.toNat : ℤ)).tdiv 2).tdiv 2 * 427 +
      (((854 : ℕ) - (p.width.toNat : ℤ)).tdiv 2).tdiv 2 := by
    rw [VideoConverterParams.chromaStart, hplace, hw', hh']
    rfl
  rw [← corners_iff_room hw hh hluma hchroma, ← hw', ← hh']
  constructor
  · rintro ⟨h1, h2, h3, h4⟩
    exact ⟨h1, h2, h3, h4⟩
  · rintro ⟨h1, h2, h3, h4⟩
    exact ⟨h1, h2, h3, h4⟩

theorem staysInside_iff (hw : 1 ≤ p.width.toNat) (hh : 1 ≤ p.height.toNat) :
    (∃ call, StaysInside p frame call) ↔ p.rowSize * p.height.toNat ≤ frame.length ∧
      (p.flipv → p.rowSize * p.height.toNat < 2 ^ 31) ∧ ∀ k, p.call.writes k ⊆ k.region := by
  obtain ⟨hpos, -⟩ := rowSize_bounds hw
  have hnonneg : 0 ≤ p.rowSize * p.height.toNat := Int.mul_nonneg hpos.le (by omega)
  have hconv := doConversion_eq hw hh
  constructor
  · rintro ⟨call, h⟩
    have hcalled := h.called
    rw [hconv] at hcalled
    split at hcalled
    · cases hcalled
    · rename_i hfit
      cases hcalled
      refine ⟨(reads_inside_iff hw hh).mp h.reads, ?_, h.writes⟩
      intro hflip
      by_contra hge
      exact hfit ⟨hflip, fun h => hge h.2⟩
  · rintro ⟨hlen, hflip, hwrites⟩
    have hfit : ¬ (p.flipv ∧ ¬ FitsInt (p.rowSize * p.height.toNat)) := by
      rintro ⟨hf, hnot⟩
      exact hnot ⟨by omega, hflip hf⟩
    rw [if_neg hfit] at hconv
    refine ⟨p.call, ⟨hconv, (reads_inside_iff hw hh).mpr hlen, hwrites, region_disjoint,
      region_allocated, ?_⟩⟩
    intro hf r hr hr'
    rw [sourceRow_call, if_pos hf, VideoConverterParams.rowSize]

/-- The two modes that stretch keep every picture inside the planes. -/
theorem writes_pushVidFrame_iff {width height : UInt16} {pixfmt : PixelFormat} {flip : FlippingMode}
    (stretch : StretchMode) (hw : 1 ≤ width.toNat) (hh : 1 ≤ height.toNat) :
    (∀ k, (pushVidFrame width height pixfmt flip stretch).call.writes k ⊆ k.region) ↔
      (stretch = .noStretch → RoomBeside width.toNat height.toNat) := by
  cases stretch with
  | noStretch =>
    have hiff := cornersInside_iff_room (p := pushVidFrame width height pixfmt flip .noStretch)
      hw hh rfl
    have hpos : 0 < (width.toNat : ℤ) := (toNat_pos_lt hw).1
    have hpos' : 0 < (height.toNat : ℤ) := (toNat_pos_lt hh).1
    simp only [true_imp_iff]
    exact ⟨fun h => hiff.mp (cornersInside_of_writes hpos hpos' h),
      fun h => writes_inside (hiff.mpr h)⟩
  | stretchKeepAspectRatio =>
    obtain ⟨hfitsW, hfitsH⟩ := letterbox_fits (toNat_pos_lt hw).1 (toNat_pos_lt hh).1
    have hinside := writes_inside (cornersInside_of_fits
      (p := pushVidFrame width height pixfmt flip .stretchKeepAspectRatio) hfitsW hfitsH rfl)
    simpa using hinside
  | stretchFull =>
    have hinside := writes_inside (cornersInside_full
      (p := pushVidFrame width height pixfmt flip .stretchFull) rfl rfl)
    simpa using hinside

/-- The exact condition: the frame has all its rows, the size of a frame to flip fits an `int`, and
a picture that is not stretched has room. -/
theorem conversion_inside_iff (width height : UInt16) (pixfmt : PixelFormat) (flip : FlippingMode)
    (stretch : StretchMode) (frame : List UInt8) (hw : 1 ≤ width.toNat) (hh : 1 ≤ height.toNat) :
    (∃ call, StaysInside (pushVidFrame width height pixfmt flip stretch) frame call) ↔
      width.toNat * (convertPixFmt pixfmt).bytesPerPixel * height.toNat ≤ frame.length ∧
      (flip = .flipVertically →
        width.toNat * (convertPixFmt pixfmt).bytesPerPixel * height.toNat < 2 ^ 31) ∧
      (stretch = .noStretch → RoomBeside width.toNat height.toNat) := by
  rw [staysInside_iff hw hh, writes_pushVidFrame_iff stretch hw hh]
  simp [pushVidFrame, VideoConverterParams.rowSize]

/-- The theorem at a frame of the screen's size. -/
theorem conversion_inside_screen :
    ∃ call, StaysInside (pushVidFrame 854 480 .bgra .flipVertically .noStretch)
      (List.replicate 1639680 0) call := by
  refine (conversion_inside_iff 854 480 .bgra .flipVertically .noStretch _ (by decide)
    (by decide)).mpr ⟨?_, by decide, fun _ => ?_⟩
  · rw [List.length_replicate]
    decide
  · refine ⟨by decide, by decide, by decide⟩

/-- A complete frame that is larger than the screen is written outside the planes when it is not
stretched. -/
theorem conversion_outside : ¬ ∀ (width height : UInt16) (pixfmt : PixelFormat)
    (flip : FlippingMode) (stretch : StretchMode) (frame : List UInt8), 1 ≤ width.toNat →
      1 ≤ height.toNat →
      ∃ call, StaysInside (pushVidFrame width height pixfmt flip stretch) frame call := by
  intro h
  have hstays := h 1024 768 .bgra .noFlip .noStretch (List.replicate 3145728 0) (by decide)
    (by decide)
  rw [staysInside_iff (by decide) (by decide), writes_pushVidFrame_iff .noStretch (by decide)
    (by decide)] at hstays
  have hroom := (hstays.2.2 rfl).1
  revert hroom
  decide

end Pc2Drc
