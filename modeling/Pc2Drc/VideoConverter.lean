import Mathlib.Order.CompletePartialOrder
import Pc2Drc.Lib.MachineInt
import Pc2Drc.Lib.Raster
import Pc2Drc.VncClientLoop

/-! The video converter: where a frame is placed on the screen and what `sws_scale` is given. -/
namespace Pc2Drc
open Lib

def kScreenWidth : ℕ := 854

inductive FlippingMode
  | noFlip
  | flipVertically
  deriving DecidableEq, Repr

inductive StretchMode
  | noStretch
  | stretchKeepAspectRatio
  | stretchFull
  deriving DecidableEq, Repr

structure VideoConverterParams where
  width : UInt16
  height : UInt16
  pixfmt : PixelFormat
  flipv : Bool
  stretch : Bool
  keepAr : Bool

/-- The parameters that `PushVidFrame` hands to the converter with the frame. -/
def pushVidFrame (width height : UInt16) (pixfmt : PixelFormat) (flip : FlippingMode)
    (stretch : StretchMode) : VideoConverterParams where
  width := width
  height := height
  pixfmt := pixfmt
  flipv := flip = .flipVertically
  stretch := stretch ≠ .noStretch
  keepAr := stretch = .stretchKeepAspectRatio

inductive AVPixelFormat
  | rgb24 | rgba | bgr24 | bgra | rgb565
  deriving DecidableEq, Repr

/-- These formats are packed, in one plane. -/
def AVPixelFormat.bytesPerPixel : AVPixelFormat → ℤ
  | .rgb24 | .bgr24 => 3
  | .rgba | .bgra => 4
  | .rgb565 => 2

def convertPixFmt : PixelFormat → AVPixelFormat
  | .rgb => .rgb24
  | .rgba => .rgba
  | .bgr => .bgr24
  | .bgra => .bgra
  | .rgb565 => .rgb565

/-- A pointer is its offset in the frame; a null pointer is `none`. -/
def getPixFmtPlanes : PixelFormat → List (Option ℤ)
  | .rgb | .rgba | .bgr | .bgra | .rgb565 => [some 0, none, none, none]

def getPixFmtStrides (pixfmt : PixelFormat) (width : UInt16) : Except IntFault (List ℤ) := do
  match pixfmt with
  | .rgb565 => return [← int (width.toNat * 2), 0, 0, 0]
  | .rgb | .bgr => return [← int (width.toNat * 3), 0, 0, 0]
  | .rgba | .bgra => return [← int (width.toNat * 4), 0, 0, 0]

def getPixFmtHeights (pixfmt : PixelFormat) (height : UInt16) : List ℤ :=
  match pixfmt with
  | .rgb565 | .rgb | .bgr | .rgba | .bgra => [height.toNat, 0, 0, 0]

/-- A scaling context: the source's size and format, and the size of the target. -/
structure SwsContext where
  srcW : ℤ
  srcH : ℤ
  srcFormat : AVPixelFormat
  dstW : ℤ
  dstH : ℤ
  deriving DecidableEq, Repr

def getContextForParams (p : VideoConverterParams) : Except IntFault SwsContext := do
  let width : ℤ := p.width.toNat
  let height : ℤ := p.height.toNat
  let ctx := SwsContext.mk width height (convertPixFmt p.pixfmt)
  if p.stretch then
    if p.keepAr then
      if (← int (854 * height)) > (← int (480 * width)) then
        return ctx (← divInt (← int (width * 480)) height) kScreenHeight
      else
        return ctx kScreenWidth (← divInt (← int (height * 854)) width)
    else return ctx kScreenWidth kScreenHeight
  else return ctx width height

/-- The target size as `DoConversion` computes it a second time. -/
def doConversionTarget (p : VideoConverterParams) : Except IntFault (ℤ × ℤ) := do
  let width : ℤ := p.width.toNat
  let height : ℤ := p.height.toNat
  if p.stretch then
    if p.keepAr then
      if (← int (854 * height)) > (← int (480 * width)) then
        return (← divInt (← int (width * 480)) height, kScreenHeight)
      else
        return (kScreenWidth, ← divInt (← int (height * 854)) width)
    else return (kScreenWidth, kScreenHeight)
  else return (width, height)

/-- Where the picture stands on the screen. -/
structure Placement where
  targetW : ℤ
  targetH : ℤ
  hMargin : ℤ
  vMargin : ℤ
  deriving DecidableEq, Repr

/-- A picture that is stretched to the full screen is not moved. -/
def doConversionPlacement (p : VideoConverterParams) : Except IntFault Placement := do
  let (targetW, targetH) ← doConversionTarget p
  if !p.stretch || p.keepAr then
    let hMargin ← divInt (← int (kScreenWidth - targetW)) 2
    let vMargin ← divInt (← int (kScreenHeight - targetH)) 2
    return ⟨targetW, targetH, hMargin, vMargin⟩
  else return ⟨targetW, targetH, 0, 0⟩

/-- The loop over the planes of a frame that is flipped. -/
def flipPlanes : List (Option ℤ) → List ℤ → List ℤ → Except IntFault (List (Option ℤ) × List ℤ)
  | plane :: planes, stride :: strides, height :: heights => do
    let planeSize ← int (stride * height)
    let offset ← int (planeSize - stride)
    let (planes, strides) ← flipPlanes planes strides heights
    return (plane.map (· + offset) :: planes, -stride :: strides)
  | _, _, _ => return ([], [])

def ySize : ℤ := kScreenWidth * kScreenHeight

def uSize : ℤ := ySize / 4

def vSize : ℤ := ySize / 4

/-- The planes of the converted frame. -/
inductive Component
  | y | u | v
  deriving DecidableEq, Repr

/-- The bytes that `DoConversion` allocates for a plane. -/
def Component.region : Component → Set ℤ
  | .y => Set.Ico 0 ySize
  | .u => Set.Ico ySize (ySize + uSize)
  | .v => Set.Ico (ySize + uSize) (ySize + uSize + vSize)

/-- The arguments of `sws_scale`; the converted planes are offsets in the converted frame. -/
structure SwsScale where
  ctx : SwsContext
  planes : List (Option ℤ)
  strides : List ℤ
  sliceH : ℤ
  convertedPlanes : Component → ℤ
  convertedStrides : Component → ℤ

/-- `DoConversion` up to its call of `sws_scale`. -/
def doConversion (p : VideoConverterParams) : Except IntFault SwsScale := do
  let ctx ← getContextForParams p
  let place ← doConversionPlacement p
  let planes := getPixFmtPlanes p.pixfmt
  let strides ← getPixFmtStrides p.pixfmt p.width
  let (planes, strides) ←
    if p.flipv then flipPlanes planes strides (getPixFmtHeights p.pixfmt p.height)
    else .ok (planes, strides)
  let y ← int (place.vMargin * kScreenWidth + place.hMargin)
  let uv ← int (place.vMargin.tdiv 2 * (kScreenWidth / 2 : ℕ) + place.hMargin.tdiv 2)
  return {
    ctx, planes, strides
    sliceH := p.height.toNat
    convertedPlanes := fun
      | .y => 0 + y
      | .u => ySize + uv
      | .v => ySize + uSize + uv
    convertedStrides := fun
      | .y => kScreenWidth
      | .u | .v => (kScreenWidth / 2 : ℕ) }

namespace SwsScale

/-- Where a row of the source starts. -/
def sourceRow (call : SwsScale) (r : ℤ) : Option ℤ := do
  let plane ← call.planes.head?.join
  let stride ← call.strides.head?
  return plane + r * stride

/-- The bytes of the frame that `sws_scale` reads. -/
def reads (call : SwsScale) : Set ℤ :=
  {i | ∃ r start x, 0 ≤ r ∧ r < call.sliceH ∧ call.sourceRow r = some start ∧
    0 ≤ x ∧ x < call.ctx.srcW * call.ctx.srcFormat.bytesPerPixel ∧ i = start + x}

/-- The bytes that `sws_scale` writes for a plane; the chroma planes have half the rows and half
the columns, rounded up. -/
def writes (call : SwsScale) (k : Component) : Set ℤ :=
  match k with
  | .y => raster (call.convertedPlanes k) (call.convertedStrides k) call.ctx.dstH call.ctx.dstW
  | .u | .v => raster (call.convertedPlanes k) (call.convertedStrides k)
      ((call.ctx.dstH + 1) / 2) ((call.ctx.dstW + 1) / 2)

end SwsScale

/-- The conversion of a frame is given to `sws_scale` and stays inside its buffers. -/
structure StaysInside (p : VideoConverterParams) (frame : List UInt8) (call : SwsScale) : Prop where
  called : doConversion p = .ok call
  reads : call.reads ⊆ Set.Ico 0 frame.length
  writes : ∀ k, call.writes k ⊆ k.region
  disjoint : ∀ j k : Component, j ≠ k → Disjoint j.region k.region
  allocated : ∀ k : Component, k.region ⊆ Set.Ico 0 (ySize + uSize + vSize)
  flipped : p.flipv → ∀ r, 0 ≤ r → r < p.height.toNat → call.sourceRow r =
    some ((p.height.toNat - 1 - r) * (p.width.toNat * (convertPixFmt p.pixfmt).bytesPerPixel))

variable {width height : ℤ}

/-- The target size for a picture that keeps its aspect ratio. -/
def letterbox (width height : ℤ) : ℤ × ℤ :=
  if 854 * height > 480 * width then (width * 480 / height, kScreenHeight)
  else (kScreenWidth, height * 854 / width)

theorem letterbox_fits (hw : 0 < width) (hh : 0 < height) :
    (0 ≤ (letterbox width height).1 ∧ (letterbox width height).1 ≤ kScreenWidth) ∧
      0 ≤ (letterbox width height).2 ∧ (letterbox width height).2 ≤ kScreenHeight := by
  unfold letterbox kScreenWidth kScreenHeight
  split
  · have hpos : 0 ≤ width * 480 / height := Int.ediv_nonneg (by omega) (by omega)
    have hlt : width * 480 / height < 854 := Int.ediv_lt_of_lt_mul hh (by omega)
    simp only
    omega
  · have hpos : 0 ≤ height * 854 / width := Int.ediv_nonneg (by omega) (by omega)
    have hlt : height * 854 / width < 481 := Int.ediv_lt_of_lt_mul hw (by omega)
    simp only
    omega

/-- The dimension that is not the screen's is the exact value rounded down. -/
theorem letterbox_exact (hw : 0 < width) (hh : 0 < height) :
    ((letterbox width height).2 = kScreenHeight ∧
        0 ≤ width * 480 - (letterbox width height).1 * height ∧
        width * 480 - (letterbox width height).1 * height < height) ∨
      (letterbox width height).1 = kScreenWidth ∧
        0 ≤ height * 854 - (letterbox width height).2 * width ∧
        height * 854 - (letterbox width height).2 * width < width := by
  have hrem : ∀ {a b : ℤ}, 0 < b → 0 ≤ a - a / b * b ∧ a - a / b * b < b := by
    intro a b hb
    have hmod : a - a / b * b = a % b := by
      have := Int.mul_ediv_add_emod a b
      rw [Int.mul_comm] at this
      omega
    rw [hmod]
    exact ⟨Int.emod_nonneg a (by omega), Int.emod_lt_of_pos a hb⟩
  unfold letterbox
  split
  · exact Or.inl ⟨rfl, hrem hh⟩
  · exact Or.inr ⟨rfl, hrem hw⟩

/-- The intermediate values of both copies fit an `int`, and the divisors are not zero. -/
theorem letterbox_ok {α : Type} (result : ℤ → ℤ → α) (hw : 0 < width ∧ width < 65536)
    (hh : 0 < height ∧ height < 65536) :
    (do
      if (← int (854 * height)) > (← int (480 * width)) then
        return result (← divInt (← int (width * 480)) height) kScreenHeight
      else
        return result kScreenWidth (← divInt (← int (height * 854)) width)) =
      Except.ok (result (letterbox width height).1 (letterbox width height).2) := by
  have hfit : ∀ n : ℤ, 0 ≤ n → n < 65536 * 854 → FitsInt n := by
    intro n h h'
    constructor <;> omega
  rw [int_ok (hfit (854 * height) (by omega) (by omega)),
    int_ok (hfit (480 * width) (by omega) (by omega)),
    int_ok (hfit (width * 480) (by omega) (by omega)),
    int_ok (hfit (height * 854) (by omega) (by omega))]
  simp only [bind, Except.bind]
  rw [divInt_of_nonneg (by omega) (hfit (width * 480) (by omega) (by omega)) hh.1,
    divInt_of_nonneg (by omega) (hfit (height * 854) (by omega) (by omega)) hw.1]
  unfold letterbox
  split <;> rfl

namespace VideoConverterParams

/-- The target size without the detour over `int`. -/
def target (p : VideoConverterParams) : ℤ × ℤ :=
  if p.stretch then
    if p.keepAr then letterbox p.width.toNat p.height.toNat else (kScreenWidth, kScreenHeight)
  else (p.width.toNat, p.height.toNat)

def placement (p : VideoConverterParams) : Placement :=
  if !p.stretch || p.keepAr then
    ⟨p.target.1, p.target.2, (kScreenWidth - p.target.1).tdiv 2,
      (kScreenHeight - p.target.2).tdiv 2⟩
  else ⟨p.target.1, p.target.2, 0, 0⟩

end VideoConverterParams

variable {p : VideoConverterParams}

theorem toNat_pos_lt {n : UInt16} (h : 1 ≤ n.toNat) :
    0 < (n.toNat : ℤ) ∧ (n.toNat : ℤ) < 65536 := by
  have := n.toNat_lt
  omega

theorem doConversionTarget_eq (hw : 1 ≤ p.width.toNat) (hh : 1 ≤ p.height.toNat) :
    doConversionTarget p = .ok p.target := by
  unfold doConversionTarget VideoConverterParams.target
  split
  · split
    · exact letterbox_ok Prod.mk (toNat_pos_lt hw) (toNat_pos_lt hh)
    · rfl
  · rfl

/-- The context is for the same target. -/
theorem getContextForParams_eq (hw : 1 ≤ p.width.toNat) (hh : 1 ≤ p.height.toNat) :
    getContextForParams p = .ok ⟨p.width.toNat, p.height.toNat, convertPixFmt p.pixfmt,
      p.target.1, p.target.2⟩ := by
  unfold getContextForParams VideoConverterParams.target
  split
  · split
    · exact letterbox_ok _ (toNat_pos_lt hw) (toNat_pos_lt hh)
    · rfl
  · rfl

theorem target_bounds (hw : 1 ≤ p.width.toNat) (hh : 1 ≤ p.height.toNat) :
    (0 ≤ p.target.1 ∧ p.target.1 < 65536) ∧ 0 ≤ p.target.2 ∧ p.target.2 < 65536 := by
  have hw' := toNat_pos_lt hw
  have hh' := toNat_pos_lt hh
  have hfits := letterbox_fits hw'.1 hh'.1
  unfold VideoConverterParams.target
  unfold kScreenWidth kScreenHeight at *
  split
  · split
    · omega
    · decide
  · omega

theorem doConversionPlacement_eq (hw : 1 ≤ p.width.toNat) (hh : 1 ≤ p.height.toNat) :
    doConversionPlacement p = .ok p.placement := by
  have hbounds := target_bounds hw hh
  have hmargin : ∀ size n : ℤ, 0 ≤ size → size < 1000 → 0 ≤ n → n < 65536 →
      int (size - n) = .ok (size - n) ∧ divInt (size - n) 2 = .ok ((size - n).tdiv 2) := by
    intro size n h0 h1 h2 h3
    refine ⟨int_ok (by constructor <;> omega), divInt_ok (by decide) ?_⟩
    rw [tdiv_two]
    constructor <;> split <;> omega
  obtain ⟨hsub, hdiv⟩ := hmargin kScreenWidth p.target.1 (by decide) (by decide) (by omega)
    (by omega)
  obtain ⟨hsub', hdiv'⟩ :=
    hmargin kScreenHeight p.target.2 (by decide) (by decide) (by omega) (by omega)
  rw [doConversionPlacement, doConversionTarget_eq hw hh]
  simp only [bind, Except.bind, hsub, hdiv, hsub', hdiv', VideoConverterParams.placement]
  split <;> rfl

/-- A picture that keeps its aspect ratio: what has to hold of the context and the placement. -/
structure Letterboxed (width height : ℤ) (ctx : SwsContext) (place : Placement) : Prop where
  sameSize : ctx.dstW = place.targetW ∧ ctx.dstH = place.targetH
  fits : 0 ≤ place.targetW ∧ place.targetW ≤ 854 ∧ 0 ≤ place.targetH ∧ place.targetH ≤ 480
  exact : (place.targetH = 480 ∧ 0 ≤ width * 480 - place.targetW * height ∧
      width * 480 - place.targetW * height < height) ∨
    place.targetW = 854 ∧ 0 ≤ height * 854 - place.targetH * width ∧
      height * 854 - place.targetH * width < width
  hMargin : 0 ≤ place.hMargin ∧ |854 - place.targetW - place.hMargin - place.hMargin| ≤ 1
  vMargin : 0 ≤ place.vMargin ∧ |480 - place.targetH - place.vMargin - place.vMargin| ≤ 1

theorem halves_differ_by_one {size n : ℤ} (h : n ≤ size) :
    0 ≤ (size - n).tdiv 2 ∧ |size - n - (size - n).tdiv 2 - (size - n).tdiv 2| ≤ 1 := by
  rw [tdiv_two, if_pos (by omega), abs_le]
  omega

/-- Both copies of the computation return, without an overflow or a division by zero, and agree on
a target that is as large as the screen allows. -/
theorem letterboxing_correct (width height : UInt16) (pixfmt : PixelFormat) (flip : FlippingMode)
    (hw : 1 ≤ width.toNat) (hh : 1 ≤ height.toNat) :
    (FitsInt (854 * height.toNat) ∧ FitsInt (480 * width.toNat)) ∧
      ∃ ctx place,
        getContextForParams (pushVidFrame width height pixfmt flip .stretchKeepAspectRatio) =
          .ok ctx ∧
        doConversionPlacement (pushVidFrame width height pixfmt flip .stretchKeepAspectRatio) =
          .ok place ∧
        Letterboxed width.toNat height.toNat ctx place := by
  have hw' := toNat_pos_lt hw
  have hh' := toNat_pos_lt hh
  obtain ⟨hfitsW, hfitsH⟩ := letterbox_fits hw'.1 hh'.1
  refine ⟨⟨by constructor <;> omega, by constructor <;> omega⟩, _, _,
    getContextForParams_eq hw hh, doConversionPlacement_eq hw hh, ?_⟩
  exact {
    sameSize := ⟨rfl, rfl⟩
    fits := ⟨hfitsW.1, hfitsW.2, hfitsH.1, hfitsH.2⟩
    exact := letterbox_exact hw'.1 hh'.1
    hMargin := halves_differ_by_one hfitsW.2
    vMargin := halves_differ_by_one hfitsH.2 }

/-- The theorem at a desktop that is a little flatter than the screen. -/
theorem letterboxing_correct_desktop :
    (FitsInt (854 * (1050 : UInt16).toNat) ∧ FitsInt (480 * (1920 : UInt16).toNat)) ∧
      ∃ ctx place,
        getContextForParams (pushVidFrame 1920 1050 .bgra .noFlip .stretchKeepAspectRatio) =
          .ok ctx ∧
        doConversionPlacement (pushVidFrame 1920 1050 .bgra .noFlip .stretchKeepAspectRatio) =
          .ok place ∧
        Letterboxed 1920 1050 ctx place :=
  letterboxing_correct 1920 1050 .bgra .noFlip (by decide) (by decide)

end Pc2Drc
