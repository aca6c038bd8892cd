import Pc2Drc.Lib.AnnexB
import Pc2Drc.Lib.ExpGolomb
import Pc2Drc.NalEscape

/-! The file that the encoder dumps its frames to: the parameter sets of the GamePad, and a slice
header that the encoder did not write in front of every frame. A reader of such files gets the
frames back. -/
namespace Pc2Drc
open Lib

def gamepadSps : List UInt8 := [0x67, 0x64, 0x00, 0x20, 0xac, 0x2b, 0x40, 0x6c, 0x1e, 0xf3, 0x68]

def gamepadPps : List UInt8 := [0x68, 0xee, 0x06, 0x0c, 0xe8]

def dumpH264Headers : List UInt8 := nalStartCode ++ gamepadSps ++ nalStartCode ++ gamepadPps

/-- A frame as `Encode` hands it to the dump. -/
structure DumpedFrame where
  chunks : H264ChunkArray
  isIdr : Bool

def DumpedFrame.payload (f : DumpedFrame) : List UInt8 := f.chunks.toList.flatten

/-- The frames one after the other; `frameNumber` is kept between the calls. -/
def dumpFrames (frameNumber : UInt32) : List DumpedFrame → Except Fault (List UInt8)
  | [] => .ok []
  | f :: frames => do
    let (frameNumber, bytes) ← dumpH264Frame frameNumber f.chunks f.isIdr
    let rest ← dumpFrames frameNumber frames
    return bytes ++ rest

def dumpFile (frameNumber : UInt32) (frames : List DumpedFrame) : Except Fault (List UInt8) := do
  let bytes ← dumpFrames frameNumber frames
  return dumpH264Headers ++ bytes

/-- What a reader keeps of a sequence parameter set. -/
structure SpsInfo where
  log2MaxFrameNum : ℕ
  widthInMbs : ℕ
  heightInMbs : ℕ
  width : ℕ
  height : ℕ
  deriving DecidableEq, Repr

/-- What a reader keeps of a picture parameter set. -/
structure PpsInfo where
  cabac : Bool
  picInitQp : ℤ
  deblockingControl : Bool
  deriving DecidableEq, Repr

/-- `rbsp_trailing_bits`. -/
def isTrailing : List Bool → Bool
  | [] => false
  | b :: l => b && l.length < 8 && l.all (!·)

/-- A sequence parameter set of the High profile without the parts that this reader knows nothing
of: scaling matrices, picture order counts of types 0 and 1, fields and usability information. -/
def readSps (l : List Bool) : Option SpsInfo := do
  let (profile, l) ← readBits 8 l
  let (_constraints, l) ← readBits 8 l
  let (_level, l) ← readBits 8 l
  let (_id, l) ← readUe l
  let (chromaFormat, l) ← readUe l
  let (lumaDepth, l) ← readUe l
  let (chromaDepth, l) ← readUe l
  let (bypass, l) ← readBits 1 l
  let (scaling, l) ← readBits 1 l
  let (log2MaxFrameNum, l) ← readUe l
  let (pocType, l) ← readUe l
  let (_refFrames, l) ← readUe l
  let (gaps, l) ← readBits 1 l
  let (width, l) ← readUe l
  let (height, l) ← readUe l
  let (frameMbsOnly, l) ← readBits 1 l
  let (_direct8x8, l) ← readBits 1 l
  let (cropping, l) ← readBits 1 l
  let (left, l) ← readUe l
  let (right, l) ← readUe l
  let (top, l) ← readUe l
  let (bottom, l) ← readUe l
  let (vui, l) ← readBits 1 l
  if profile = 100 ∧ chromaFormat = 1 ∧ lumaDepth = 0 ∧ chromaDepth = 0 ∧ bypass = 0 ∧
      scaling = 0 ∧ pocType = 2 ∧ gaps = 0 ∧ frameMbsOnly = 1 ∧ cropping = 1 ∧ vui = 0 ∧
      isTrailing l then
    some ⟨log2MaxFrameNum + 4, width + 1, height + 1, 16 * (width + 1) - 2 * (left + right),
      16 * (height + 1) - 2 * (top + bottom)⟩
  else none

def readPps (l : List Bool) : Option PpsInfo := do
  let (_id, l) ← readUe l
  let (_spsId, l) ← readUe l
  let (cabac, l) ← readBits 1 l
  let (picOrder, l) ← readBits 1 l
  let (sliceGroups, l) ← readUe l
  let (_refIdxL0, l) ← readUe l
  let (_refIdxL1, l) ← readUe l
  let (weightedPred, l) ← readBits 1 l
  let (_weightedBipred, l) ← readBits 2 l
  let (picInitQp, l) ← readSe l
  let (_picInitQs, l) ← readSe l
  let (_chromaQpOffset, l) ← readSe l
  let (deblockingControl, l) ← readBits 1 l
  let (_constrainedIntra, l) ← readBits 1 l
  let (redundantPicCnt, l) ← readBits 1 l
  if picOrder = 0 ∧ sliceGroups = 0 ∧ weightedPred = 0 ∧ redundantPicCnt = 0 ∧ isTrailing l then
    some ⟨cabac = 1, 26 + picInitQp, deblockingControl = 1⟩
  else none

/-- What a reader learns of a slice. -/
structure SliceInfo where
  isIdr : Bool
  isIntra : Bool
  firstMb : ℕ
  frameNum : ℕ
  qp : ℤ
  data : List UInt8
  deriving DecidableEq, Repr

/-- The part of a slice header between the frame number and the QP. -/
def readSliceRefs (isIdr isIntra : Bool) (l : List Bool) : Option (List Bool) := do
  if isIdr then
    let (_idrPicId, l) ← readUe l
    let (_flags, l) ← readBits 2 l
    if isIntra then some l else none
  else
    let (override, l) ← readBits 1 l
    let (reordering, l) ← readBits 1 l
    let (adaptive, l) ← readBits 1 l
    let (_cabacInitIdc, l) ← readUe l
    if isIntra = false ∧ override = 0 ∧ reordering = 0 ∧ adaptive = 0 then some l else none

def readDeblocking (pps : PpsInfo) (l : List Bool) : Option (List Bool) := do
  if pps.deblockingControl then
    let (disable, l) ← readUe l
    if disable = 1 then some l
    else
      let (_alpha, l) ← readSe l
      let (_beta, l) ← readSe l
      some l
  else some l

/-- A slice of a reference picture, intra in an IDR picture and predicted in another, without
reordering of references and memory commands. -/
def readSlice (sps : SpsInfo) (pps : PpsInfo) (nal : List UInt8) : Option SliceInfo :=
  match nal with
  | [] => none
  | header :: rbsp => do
    let l := bitsOfBytes rbsp
    let isIdr := header = 0x25
    let (firstMb, l) ← readUe l
    let (sliceType, l) ← readUe l
    let (_ppsId, l) ← readUe l
    let (frameNum, l) ← readBits sps.log2MaxFrameNum l
    let l ← readSliceRefs isIdr (sliceType % 5 = 2) l
    let (qpDelta, l) ← readSe l
    let l ← readDeblocking pps l
    -- The CABAC data begins at the next byte; the bits up to there are ones.
    if (header = 0x25 ∨ header = 0x21) ∧ pps.cabac ∧ (l.take (l.length % 8)).all id then
      some ⟨isIdr, sliceType % 5 = 2, firstMb, frameNum, pps.picInitQp + qpDelta,
        rbsp.drop (rbsp.length - l.length / 8)⟩
    else none

/-- The slices of a stream in which no frame number is left out. -/
def readSlices (sps : SpsInfo) (pps : PpsInfo) : ℕ → List (List UInt8) → Option (List SliceInfo)
  | _, [] => some []
  | prevFrameNum, nal :: nals => do
    let slice ← readSlice sps pps nal
    if slice.frameNum =
        if slice.isIdr then 0 else (prevFrameNum + 1) % 2 ^ sps.log2MaxFrameNum then
      let slices ← readSlices sps pps slice.frameNum nals
      some (slice :: slices)
    else none

def readStream (prevFrameNum : ℕ) (file : List UInt8) :
    Option (SpsInfo × PpsInfo × List SliceInfo) := do
  match (← splitNals (file.length + 1) file).map unescape with
  | (0x67 :: sps) :: (0x68 :: pps) :: nals => do
    let sps ← readSps (bitsOfBytes sps)
    let pps ← readPps (bitsOfBytes pps)
    let slices ← readSlices sps pps prevFrameNum nals
    return (sps, pps, slices)
  | _ => none

variable {n : UInt32} {k : ℕ} {x : List UInt8} {f : DumpedFrame} {frames : List DumpedFrame}

theorem toNat_nextFrameNumber (n : UInt32) :
    (nextFrameNumber n false).toNat = (n.toNat % 256 + 1) % 256 := by
  have hand : ((n + 1) &&& 0xFF).toNat = (n + 1).toNat &&& 255 := UInt32.toNat_and _ _
  have hmod : (n + 1).toNat &&& 255 = (n + 1).toNat % 256 := Nat.and_two_pow_sub_one_eq_mod _ 8
  have hadd : (n + 1).toNat = (n.toNat + 1) % 2 ^ 32 := UInt32.toNat_add n 1
  rw [nextFrameNumber, if_neg Bool.false_ne_true, hand, hmod, hadd]
  omega

def sliceRefsBits (isIdr : Bool) : List Bool :=
  if isIdr then ueBits 0 ++ bitsOfNat 2 0
  else bitsOfNat 1 0 ++ (bitsOfNat 1 0 ++ (bitsOfNat 1 0 ++ ueBits 0))

/-- The slice header that a reader finds in the bytes of `frameHeader`, and the ones behind it. -/
def sliceHeaderBits (isIdr : Bool) (k : ℕ) : List Bool :=
  ueBits 0 ++ (ueBits (if isIdr then 2 else 0) ++ (ueBits 0 ++ (bitsOfNat 8 k ++
    (sliceRefsBits isIdr ++ (seBits 0 ++ (ueBits 0 ++ (seBits 0 ++ (seBits 0 ++
      List.replicate (if isIdr then 4 else 5) true))))))))

/-- The number of any frame stands in two of the bytes. -/
theorem nalPFrame_bits (hn : n.toNat < 256) :
    (∀ b ∈ nalPFrame n, b ≠ 0) ∧
      bitsOfBytes (nalPFrame n).tail = sliceHeaderBits false n.toNat := by
  have hall : (List.range 256).all (fun k => (nalPFrame (UInt32.ofNat k)).all (· != 0) &&
      bitsOfBytes (nalPFrame (UInt32.ofNat k)).tail == sliceHeaderBits false k) = true := by
    decide +kernel
  have h := List.all_eq_true.mp hall n.toNat (List.mem_range.mpr hn)
  rw [UInt32.ofNat_toNat, Bool.and_eq_true, List.all_eq_true, beq_iff_eq] at h
  refine ⟨?_, h.2⟩
  intro b hb
  exact bne_iff_ne.mp (h.1 b hb)

def gamepadSpsInfo : SpsInfo := ⟨8, 54, 30, 854, 480⟩

def gamepadPpsInfo : PpsInfo := ⟨true, 32, true⟩

theorem readSliceRefs_bits (isIdr : Bool) (rest : List Bool) :
    readSliceRefs isIdr isIdr (sliceRefsBits isIdr ++ rest) = some rest := by
  cases isIdr <;> rfl

theorem readDeblocking_bits (rest : List Bool) :
    readDeblocking gamepadPpsInfo (ueBits 0 ++ (seBits 0 ++ (seBits 0 ++ rest))) = some rest := rfl

/-- The ones in front of the data are fewer than a byte. -/
theorem alignment_ones (ones : ℕ) {rest : List Bool} (h : ones < 8) (hrest : rest.length % 8 = 0) :
    ((List.replicate ones true ++ rest).take
        ((List.replicate ones true ++ rest).length % 8)).all id = true ∧
      (List.replicate ones true ++ rest).length / 8 = rest.length / 8 := by
  have hlen : (List.replicate ones true ++ rest).length = ones + rest.length := by
    rw [List.length_append, List.length_replicate]
  have hmod : (ones + rest.length) % 8 = ones := by omega
  rw [hlen, hmod]
  refine ⟨?_, by omega⟩
  rw [List.take_append_of_le_length (by rw [List.length_replicate]), List.take_replicate,
    List.all_replicate]
  simp

theorem readSlice_bits {isIdr : Bool} {rbsp : List UInt8} {rest : List Bool} (hk : k < 2 ^ 8)
    (hrest : rest.length % 8 = 0) (hbits : bitsOfBytes rbsp = sliceHeaderBits isIdr k ++ rest) :
    readSlice gamepadSpsInfo gamepadPpsInfo ((if isIdr then 0x25 else 0x21) :: rbsp) =
      some ⟨isIdr, isIdr, 0, k, 32, rbsp.drop (rbsp.length - rest.length / 8)⟩ := by
  have hidr : decide ((if isIdr then 0x25 else 0x21 : UInt8) = 0x25) = isIdr := by
    cases isIdr <;> rfl
  have hintra : decide ((if isIdr then 2 else 0) % 5 = 2) = isIdr := by
    cases isIdr <;> rfl
  obtain ⟨hones, hdata⟩ := alignment_ones (if isIdr then 4 else 5) (by split <;> decide)
    hrest
  rw [readSlice, hbits, sliceHeaderBits]
  simp only [List.append_assoc, readUe_ueBits, Option.bind_eq_bind, Option.bind_some,
    gamepadSpsInfo, readBits_bitsOfNat hk, hidr, hintra, readSliceRefs_bits, readSe_seBits,
    readDeblocking_bits, hones, hdata]
  cases isIdr <;> rfl

theorem readParameterSets : readSps (bitsOfBytes gamepadSps.tail) = some gamepadSpsInfo ∧
    readPps (bitsOfBytes gamepadPps.tail) = some gamepadPpsInfo := ⟨rfl, rfl⟩

/-- The units of the frames. -/
def frameNals (n : UInt32) : List DumpedFrame → List (List UInt8)
  | [] => []
  | f :: frames => (frameHeader (nextFrameNumber n f.isIdr) f.isIdr ++ escape f.payload) ::
      frameNals (nextFrameNumber n f.isIdr) frames

/-- What a reader should learn of the frames after the number `prev`. -/
def sliceInfos (prev : ℕ) : List DumpedFrame → List SliceInfo
  | [] => []
  | f :: frames =>
    let k := if f.isIdr then 0 else (prev + 1) % 256
    ⟨f.isIdr, f.isIdr, 0, k, 32, f.payload⟩ :: sliceInfos k frames

theorem nextFrameNumber_eq (n : UInt32) (isIdr : Bool) :
    (nextFrameNumber n isIdr).toNat = if isIdr then 0 else (n.toNat % 256 + 1) % 256 := by
  cases isIdr with
  | true => rfl
  | false => exact toNat_nextFrameNumber n

theorem nextFrameNumber_lt (n : UInt32) (isIdr : Bool) : (nextFrameNumber n isIdr).toNat < 256 := by
  rw [nextFrameNumber_eq]
  split
  · decide
  · exact Nat.mod_lt _ (by decide)

/-- The four bytes of a frame's header: none is a zero, and the last three are the slice header. -/
theorem frameHeader_bits (n : UInt32) (isIdr : Bool) :
    (∀ b ∈ frameHeader (nextFrameNumber n isIdr) isIdr, b ≠ 0) ∧
      ∃ tail, frameHeader (nextFrameNumber n isIdr) isIdr = (if isIdr then 0x25 else 0x21) :: tail ∧
        tail.length = 3 ∧
        bitsOfBytes tail = sliceHeaderBits isIdr (nextFrameNumber n isIdr).toNat := by
  cases isIdr with
  | true =>
    have hne : ∀ b ∈ nalIdrFrame, b ≠ 0 := by
      intro b hb
      have hall : nalIdrFrame.all (· != 0) = true := rfl
      exact bne_iff_ne.mp (List.all_eq_true.mp hall b hb)
    have hbits : bitsOfBytes [0xb8, 0x04, 0xff] = sliceHeaderBits true 0 := by decide
    exact ⟨hne, _, rfl, rfl, hbits⟩
  | false =>
    obtain ⟨hne, hbits⟩ := nalPFrame_bits (nextFrameNumber_lt n false)
    exact ⟨hne, _, rfl, rfl, hbits⟩

theorem dumpFrames_eq (n : UInt32) (frames : List DumpedFrame) :
    dumpFrames n frames = .ok (annexB (frameNals n frames)) := by
  induction frames generalizing n with
  | nil => rfl
  | cons f frames ih =>
    rw [dumpFrames, dumpH264Frame_bytes]
    change (dumpFrames (nextFrameNumber n f.isIdr) frames >>= _) = _
    rw [ih]
    rfl

theorem frameNals_ok (n : UInt32) (h : ∀ f ∈ frames, f.payload.getLast? ≠ some 0) :
    ∀ nal ∈ frameNals n frames, NalOk nal := by
  induction frames generalizing n with
  | nil => exact fun _ hnal => nomatch hnal
  | cons f frames ih =>
    intro nal hnal
    rcases List.mem_cons.mp hnal with rfl | hnal
    · exact nalOk_append_escape (frameHeader_bits n f.isIdr).1 (h f List.mem_cons_self)
    · exact ih _ (fun f' hf' => h f' (List.mem_cons_of_mem _ hf')) nal hnal

theorem length_bitsOfBytes_mod (x : List UInt8) : (bitsOfBytes x).length % 8 = 0 := by
  rw [length_bitsOfBytes]
  omega

/-- One frame. -/
theorem readSlice_frame (n : UInt32) (f : DumpedFrame) :
    readSlice gamepadSpsInfo gamepadPpsInfo
        (unescape (frameHeader (nextFrameNumber n f.isIdr) f.isIdr ++ escape f.payload)) =
      some ⟨f.isIdr, f.isIdr, 0, (nextFrameNumber n f.isIdr).toNat, 32, f.payload⟩ := by
  obtain ⟨hne, tail, heq, hlen, hbits⟩ := frameHeader_bits n f.isIdr
  have hdata : (tail ++ f.payload).length - (bitsOfBytes f.payload).length / 8 = tail.length := by
    rw [length_bitsOfBytes, List.length_append]
    omega
  rw [unescape_append_escape hne, heq, List.cons_append,
    readSlice_bits (nextFrameNumber_lt n f.isIdr) (length_bitsOfBytes_mod f.payload)
      (by rw [bitsOfBytes_append, hbits]), hdata, List.drop_left]

/-- The frames are read one after the other, and no number is missed. -/
theorem readSlices_frames (n : UInt32) (frames : List DumpedFrame) :
    readSlices gamepadSpsInfo gamepadPpsInfo (n.toNat % 256) ((frameNals n frames).map unescape) =
      some (sliceInfos (n.toNat % 256) frames) := by
  induction frames generalizing n with
  | nil => rfl
  | cons f frames ih =>
    have hrest := ih (nextFrameNumber n f.isIdr)
    rw [Nat.mod_eq_of_lt (nextFrameNumber_lt n f.isIdr)] at hrest
    rw [frameNals, List.map_cons, readSlices, readSlice_frame]
    change (if (nextFrameNumber n f.isIdr).toNat =
        if f.isIdr then 0 else (n.toNat % 256 + 1) % 256 then _ else none) = _
    rw [if_pos (nextFrameNumber_eq n f.isIdr), hrest, sliceInfos, ← nextFrameNumber_eq]
    rfl

theorem parameterSet_ok {nal : List UInt8} (hescape : escape nal = nal)
    (hlast : nal.getLast? ≠ some 0) : NalOk nal := by
  have hok : NalOk ([] ++ escape nal) := nalOk_append_escape (fun _ hb => nomatch hb) hlast
  rwa [List.nil_append, hescape] at hok

theorem dumpFile_eq (n : UInt32) (frames : List DumpedFrame) :
    dumpFile n frames = .ok (annexB (gamepadSps :: gamepadPps :: frameNals n frames)) := by
  rw [dumpFile, dumpFrames_eq]
  rfl

theorem readStream_frames (n : UInt32) (h : ∀ f ∈ frames, f.payload.getLast? ≠ some 0) :
    readStream (n.toNat % 256) (annexB (gamepadSps :: gamepadPps :: frameNals n frames)) =
      some (gamepadSpsInfo, gamepadPpsInfo, sliceInfos (n.toNat % 256) frames) := by
  have hok : ∀ nal ∈ gamepadSps :: gamepadPps :: frameNals n frames, NalOk nal := by
    intro nal hnal
    rcases List.mem_cons.mp hnal with rfl | hnal
    · exact parameterSet_ok (by decide) (by decide)
    · rcases List.mem_cons.mp hnal with rfl | hnal
      · exact parameterSet_ok (by decide) (by decide)
      · exact frameNals_ok n h nal hnal
  have hlen := length_le_annexB (gamepadSps :: gamepadPps :: frameNals n frames)
  have hsps : unescape gamepadSps = 0x67 :: gamepadSps.tail := by decide
  have hpps : unescape gamepadPps = 0x68 :: gamepadPps.tail := by decide
  rw [readStream, splitNals_annexB hok (Nat.lt_succ_of_le hlen)]
  simp only [Option.bind_eq_bind, Option.bind_some, List.map_cons, hsps, hpps,
    readParameterSets, readSlices_frames]
  rfl

/-- A reader that is given the file, and the frame number before its first frame, finds the
GamePad's picture size, every frame in its place with the next number, the QP the encoder worked
with, and the data of its chunks. -/
theorem dump_stream_round_trip (n : UInt32) (h : ∀ f ∈ frames, f.payload.getLast? ≠ some 0) :
    ∃ file, dumpFile n frames = .ok file ∧ readStream (n.toNat % 256) file =
      some (⟨8, 54, 30, 854, 480⟩, ⟨true, 32, true⟩, sliceInfos (n.toNat % 256) frames) :=
  ⟨_, dumpFile_eq n frames, readStream_frames n h⟩

/-- The number starts again after 255 and at an IDR picture; zeros in the data are escaped. -/
theorem dump_stream_round_trip_wrap : ∃ file, dumpFile 255
      [⟨⟨#[[0, 0, 1], [], [7], [0, 0], [0, 9]], rfl⟩, false⟩,
        ⟨⟨#[[1], [2], [3], [4], [5]], rfl⟩, true⟩] = .ok file ∧
    readStream 255 file = some (⟨8, 54, 30, 854, 480⟩, ⟨true, 32, true⟩,
      [⟨false, false, 0, 0, 32, [0, 0, 1, 7, 0, 0, 0, 9]⟩,
        ⟨true, true, 0, 0, 32, [1, 2, 3, 4, 5]⟩]) :=
  dump_stream_round_trip 255 (by
    intro f hf
    simp only [List.mem_cons, List.not_mem_nil, or_false] at hf
    rcases hf with rfl | rfl <;> decide)

end Pc2Drc
