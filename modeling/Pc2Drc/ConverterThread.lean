import Pc2Drc.Lib.Run
import Pc2Drc.VideoConverter

/-! The converter's threads: `PushFrame` waits for the conversion before it, stores the frame and
the parameters, and starts a thread that reads them. `sws` is what `sws_scale` makes of the rows it
has read. -/
namespace Pc2Drc
open Lib

deriving instance DecidableEq for VideoConverterParams

/-- A frame with the parameters it is pushed with. -/
abbrev PushedFrame := List UInt8 × VideoConverterParams

/-- The rest of `DoConversion` up to `sws_scale`, when it has its context. -/
def conversionCall (ctx : SwsContext) (p : VideoConverterParams) : Except IntFault SwsScale := do
  let place ← doConversionPlacement p
  let planes := getPixFmtPlanes p.pixfmt
  let strides ← getPixFmtStrides p.pixfmt p.width
  let (planes, strides) ←
    if p.flipv then flipPlanes planes strides (getPixFmtHeights p.pixfmt p.height)
    else .ok (planes, strides)
  let y ← int (place.vMargin * kScreenWidth + place.hMargin)
  let uv ← int (place.vMargin.tdiv 2 * (kScreenWidth / 2 : ℕ) + place.hMargin.tdiv 2)
  return {
    ctx, planes, strides
    sliceH := p.height.toNat
    convertedPlanes := fun
      | .y => 0 + y
      | .u => ySize + uv
      | .v => ySize + uSize + uv
    convertedStrides := fun
      | .y => kScreenWidth
      | .u | .v => (kScreenWidth / 2 : ℕ) }

/-- A row of the source, if it lies in the frame. -/
def SwsScale.readRow (call : SwsScale) (frame : List UInt8) (r : ℕ) : Option (List UInt8) := do
  let start ← call.sourceRow r
  let size := (call.ctx.srcW * call.ctx.srcFormat.bytesPerPixel).toNat
  if 0 ≤ start ∧ start.toNat + size ≤ frame.length then
    some ((frame.drop start.toNat).take size)
  else none

/-- What the thread of a conversion does next, with its locals. -/
inductive ConversionAt
  | getContext
  | unpack (ctx : SwsContext)
  | scale (call : SwsScale) (rows : List (List UInt8))
  | deliver (converted : List UInt8)
  | finished

/-- What the user's thread does next; a wait without a frame is that of `Stop`. -/
inductive UserAt
  | idle
  | wait (next : Option PushedFrame)
  | storeFrame (next : PushedFrame)
  | storeParams (params : VideoConverterParams)
  | spawn
  | assign (conv : ℕ)

inductive ConverterAction
  | pushFrame (frame : List UInt8) (params : VideoConverterParams)
  | stop
  | user
  | thread (i : ℕ)

inductive ConverterOutput
  | created (params : VideoConverterParams)
  | delivered (frame : List UInt8)
  | pushed
  | stopped

/-- The members of the object, the threads it has started, and where its user is. -/
structure VideoConverter where
  currentFrame : List UInt8
  currentParams : VideoConverterParams
  currentConv : Option ℕ
  ctxs : VideoConverterParams → Option SwsContext
  threads : List ConversionAt
  user : UserAt

namespace VideoConverter

def create : VideoConverter :=
  ⟨[], ⟨0, 0, .rgb, false, false, false⟩, none, fun _ => none, [], .idle⟩

/-- Whether a wait for the current conversion returns. -/
def ready (c : VideoConverter) : Bool :=
  match c.currentConv with
  | none => true
  | some i =>
    match c.threads[i]? with
    | some .finished => true
    | _ => false

/-- The next step of the user's thread, unless it is blocked. The future that is assigned over waits
for its own thread. -/
def userStep (c : VideoConverter) : Option (VideoConverter × Option ConverterOutput) :=
  match c.user with
  | .idle => none
  | .wait none => if c.ready then some ({ c with user := .idle }, some .stopped) else none
  | .wait (some next) =>
    if c.ready then some ({ c with user := .storeFrame next }, none) else none
  | .storeFrame next =>
    some ({ c with currentFrame := next.1, user := .storeParams next.2 }, none)
  | .storeParams params => some ({ c with currentParams := params, user := .spawn }, none)
  | .spawn =>
    some ({ c with threads := c.threads ++ [.getContext], user := .assign c.threads.length }, none)
  | .assign conv =>
    if c.ready then some ({ c with currentConv := some conv, user := .idle }, some .pushed)
    else none

/-- The next step of a thread that is at `t`, with the contexts it leaves; there is none where the
source has a fault. -/
def conversionStep (c : VideoConverter) (sws : SwsScale → List (List UInt8) → List UInt8) :
    ConversionAt →
      Option (ConversionAt × (VideoConverterParams → Option SwsContext) × Option ConverterOutput)
  | .getContext => do
    let wanted ← (getContextForParams c.currentParams).toOption
    -- `sws_getCachedContext` keeps a context that fits and replaces any other.
    if c.ctxs c.currentParams = some wanted then return (.unpack wanted, c.ctxs, none)
    else return (.unpack wanted, Function.update c.ctxs c.currentParams (some wanted),
      some (.created c.currentParams))
  | .unpack ctx => do
    let call ← (conversionCall ctx c.currentParams).toOption
    return (.scale call [], c.ctxs, none)
  | .scale call rows =>
    if rows.length < call.sliceH.toNat then do
      let row ← call.readRow c.currentFrame rows.length
      return (.scale call (rows ++ [row]), c.ctxs, none)
    else some (.deliver (sws call rows), c.ctxs, none)
  | .deliver converted => some (.finished, c.ctxs, some (.delivered converted))
  | .finished => none

def step (c : VideoConverter) (sws : SwsScale → List (List UInt8) → List UInt8) :
    ConverterAction → Option (VideoConverter × Option ConverterOutput)
  | .pushFrame frame params =>
    match c.user with
    | .idle => some ({ c with user := .wait (some (frame, params)) }, none)
    | _ => none
  | .stop =>
    match c.user with
    | .idle => some ({ c with user := .wait none }, none)
    | _ => none
  | .user => c.userStep
  | .thread i => do
    let t ← c.threads[i]?
    let (t, ctxs, out) ← c.conversionStep sws t
    return ({ c with threads := c.threads.set i t, ctxs := ctxs }, out)

/-- The conversion `i` has been started and may still read the frame and the parameters. -/
def Live (c : VideoConverter) (i : ℕ) : Prop := ∃ t, c.threads[i]? = some t ∧ t ≠ .finished

/-- The user's thread is about to write the frame or the parameters. -/
def Storing (c : VideoConverter) : Prop :=
  (∃ next, c.user = .storeFrame next) ∨ ∃ params, c.user = .storeParams params

/-- No two threads touch the members at a time. -/
structure Exclusive (c : VideoConverter) : Prop where
  conversions : ∀ i j, c.Live i → c.Live j → i = j
  stores : c.Storing → ∀ i, ¬ c.Live i

end VideoConverter

abbrev ConverterTrace := List (ConverterAction × Option ConverterOutput)

def pushedIn (tr : ConverterTrace) : List PushedFrame :=
  tr.filterMap fun
    | (.pushFrame frame params, _) => some (frame, params)
    | _ => none

def deliveredIn (tr : ConverterTrace) : List (List UInt8) :=
  tr.filterMap fun
    | (_, some (.delivered frame)) => some frame
    | _ => none

def createdIn (tr : ConverterTrace) : List VideoConverterParams :=
  tr.filterMap fun
    | (_, some (.created params)) => some params
    | _ => none

/-- No call of the user begins. -/
def NoCalls (tr : ConverterTrace) : Prop :=
  ∀ x ∈ tr, x.1 = .user ∨ ∃ i, x.1 = .thread i

section
variable (sws : SwsScale → List (List UInt8) → List UInt8)

def ConverterStep (c : VideoConverter) (a : ConverterAction) (o : Option ConverterOutput)
    (c' : VideoConverter) : Prop :=
  c.step sws a = some (c', o)

/-- The interleavings of the user's thread with the conversions. -/
def ConverterRun (tr : ConverterTrace) (c : VideoConverter) : Prop :=
  Steps (ConverterStep sws) .create tr c

/-- The conversion of a frame by one thread that is left alone, if it has no fault. -/
def converted (job : PushedFrame) : Option (List UInt8) := do
  let call ← (doConversion job.2).toOption
  let rows ← (List.range call.sliceH.toNat).mapM (call.readRow job.1)
  return sws call rows

end

variable {sws : SwsScale → List (List UInt8) → List UInt8} {c c' : VideoConverter}
  {o : Option ConverterOutput}

theorem step_pushFrame {frame : List UInt8} {params : VideoConverterParams}
    (h : ConverterStep sws c (.pushFrame frame params) o c') :
    c.user = .idle ∧ c' = { c with user := .wait (some (frame, params)) } ∧ o = none := by
  simp only [ConverterStep, VideoConverter.step] at h
  split at h
  · rename_i hidle
    cases h
    exact ⟨hidle, rfl, rfl⟩
  · cases h

theorem step_stop (h : ConverterStep sws c .stop o c') :
    c.user = .idle ∧ c' = { c with user := .wait none } ∧ o = none := by
  simp only [ConverterStep, VideoConverter.step] at h
  split at h
  · rename_i hidle
    cases h
    exact ⟨hidle, rfl, rfl⟩
  · cases h

end Pc2Drc
