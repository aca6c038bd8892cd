import Pc2Drc.Packetization
import Pc2Drc.VideoConverter
import Pc2Drc.Lib.Tiling

/-! The chunks of an encoded frame: how the encoder cuts a slice while it writes it, and where the
pieces are kept for the streamer. -/
namespace Pc2Drc

open Lib

inductive NalUnitType
  | unknown
  | slice
  | sliceDpa
  | sliceDpb
  | sliceDpc
  | sliceIdr
  | sei
  | sps
  | pps
  | aud
  | filler
  deriving DecidableEq, Repr

inductive NalPriority
  | disposable
  | low
  | high
  | highest
  deriving DecidableEq, Repr

/-- `x264_nal_t`. The payload pointer is an offset into the bitstream. -/
structure X264Nal where
  iRefIdc : NalPriority
  iType : NalUnitType
  iFirstMb : ℕ
  iPayload : ℤ
  pPayload : ℤ
  deriving DecidableEq, Repr

/-- `h->mb.i_mb_width`, and the rows of macroblocks of the picture. -/
def iMbWidth : ℕ := (kScreenWidth + 15) / 16

def iMbHeight : ℕ := (kScreenHeight + 15) / 16

/-- `h->sh.i_last_mb` of the only slice. -/
def iLastMb : ℕ := iMbHeight * iMbWidth - 1

theorem iMbWidth_eq : iMbWidth = 54 := rfl

/-- What `x264_slice_write` keeps while it writes the macroblocks: the place of the next one, the
state of the chunking, the unit being written, and the units given to `nalu_process`. -/
structure SliceState where
  iMbX : ℕ
  iMbY : ℕ
  cabacLastSize : ℤ
  bCabacChunkEnding : Bool
  nal : X264Nal
  processed : List X264Nal

namespace SliceState

/-- After `x264_nal_start`. In DRH mode no slice header is written, so the CABAC data starts where
the unit does. -/
def init (iNalType : NalUnitType) (iNalRefIdc : NalPriority) (start : ℤ) : SliceState where
  iMbX := 0
  iMbY := 0
  cabacLastSize := -2
  bCabacChunkEnding := false
  nal := ⟨iNalRefIdc, iNalType, 0, 0, start⟩
  processed := []

def mbXy (s : SliceState) : ℕ :=
  s.iMbX + s.iMbY * iMbWidth

/-- A chunk is closed when bytes have come since the last one was; `size` is
`cabac_size_bytes(&h->cabac)`. -/
def closeChunk (size : ℤ) (s : SliceState) : SliceState :=
  if s.bCabacChunkEnding ∧ size > s.cabacLastSize then
    let nal := { s.nal with iPayload := size - s.cabacLastSize }
    { s with
      processed := s.processed ++ [nal]
      nal := { nal with
        iFirstMb := s.mbXy + 1
        iPayload := 0
        pPayload := nal.pPayload + nal.iPayload }
      cabacLastSize := size
      bCabacChunkEnding := false }
  else s

/-- The first macroblock of every sixth row ends a chunk. -/
def markEnding (s : SliceState) : SliceState :=
  if s.iMbY > 0 ∧ s.iMbY % 6 = 0 ∧ s.iMbX = 0 then { s with bCabacChunkEnding := true } else s

def nextMb (s : SliceState) : SliceState :=
  if s.iMbX + 1 = iMbWidth then { s with iMbX := 0, iMbY := s.iMbY + 1 }
  else { s with iMbX := s.iMbX + 1 }

/-- The loop over the macroblocks; `size k` is `cabac_size_bytes` after macroblock `k`. -/
def writeMbs (size : ℕ → ℤ) : ℕ → SliceState → Option SliceState
  | 0, _ => none
  | fuel + 1, s =>
    if s.mbXy = iLastMb then some s
    else writeMbs size fuel ((s.closeChunk (size s.mbXy)).markEnding.nextMb)

/-- `x264_nal_end`, with the end of the bitstream. -/
def nalEnd (finish : ℤ) (s : SliceState) : List X264Nal :=
  s.processed ++ [{ s.nal with iPayload := finish - s.nal.pPayload }]

end SliceState

/-- The bytes that the CABAC coder has made after each macroblock of a slice, and after the final
flush. -/
structure CabacFrame where
  size : ℕ → ℕ
  flushed : ℕ
  mono : ∀ k, k + 1 ≤ iLastMb → size k ≤ size (k + 1)
  grows : ∀ k, k + 324 ≤ iLastMb → size k < size (k + 324)
  flush : size iLastMb + 2 ≤ flushed

/-- `i_nal_type`, from the type of the picture. -/
def iNalType (idr : Bool) : NalUnitType :=
  if idr then .sliceIdr else .slice

/-- `x264_slice_write`: the units that it gives to `nalu_process`. -/
def sliceWrite (f : CabacFrame) (idr : Bool) (iNalRefIdc : NalPriority) (start : ℤ) :
    Option (List X264Nal) :=
  (SliceState.writeMbs (fun k => f.size k) (iMbHeight * iMbWidth)
    (.init (iNalType idr) iNalRefIdc start)).map (·.nalEnd (start + f.flushed))

/-- The chunks are kept by their pointers and sizes. -/
structure H264Encoder where
  chunks : Fin kH264ChunksPerFrame → ℤ × ℤ
  numChunksEncoded : ℕ
  currFrameIdr : Bool

inductive NalFault
  | outOfBounds
  | assertion
  deriving DecidableEq, Repr

def X264Nal.chunkIdx (nal : X264Nal) : ℕ :=
  let mbPerFrame := ((kScreenWidth + 15) / 16) * ((kScreenHeight + 15) / 16)
  let mbPerChunk := mbPerFrame / kH264ChunksPerFrame
  nal.iFirstMb / mbPerChunk

def X264Nal.range (nal : X264Nal) : ℤ × ℤ :=
  (nal.pPayload, nal.iPayload)

namespace H264Encoder

def processNalUnit (e : H264Encoder) (nal : X264Nal) : Except NalFault H264Encoder :=
  if nal.iType = .sei then .ok e
  else if h : nal.chunkIdx < kH264ChunksPerFrame then
    let e := { e with
      chunks := Function.update e.chunks ⟨nal.chunkIdx, h⟩ nal.range
      numChunksEncoded := e.numChunksEncoded + 1 }
    if e.numChunksEncoded ≤ 5 then
      if e.numChunksEncoded = 5 then
        .ok { e with currFrameIdr := nal.iRefIdc ≠ .disposable ∧ nal.iType = .sliceIdr }
      else .ok e
    else .error .assertion
  else .error .outOfBounds

/-- `Encode`, with the units that `x264_encoder_encode` calls back with. -/
def encode (e : H264Encoder) (units : List X264Nal) : Except NalFault H264Encoder :=
  units.foldlM processNalUnit { e with numChunksEncoded := 0, currFrameIdr := false }

end H264Encoder

variable {f : CabacFrame} {idr : Bool} {ref : NalPriority} {start : ℤ} {k : ℕ} {s : SliceState}

/-- The chunks that are closed before macroblock `k`: the first one is closed by macroblock 325, and
another one with every 324 after it. -/
def closed (k : ℕ) : ℕ :=
  (k - 2) / 324

def CabacFrame.lastSize (f : CabacFrame) (j : ℕ) : ℤ :=
  if j = 0 then -2 else f.size (324 * j + 1)

/-- The first macroblock that a chunk is said to hold. -/
def firstMb (j : ℕ) : ℕ :=
  if j = 0 then 0 else 324 * j + 2

/-- The units given away after `j` chunks, and the one being written. -/
structure ChunkInv (f : CabacFrame) (idr : Bool) (ref : NalPriority) (start : ℤ) (j : ℕ)
    (s : SliceState) : Prop where
  last : s.cabacLastSize = f.lastSize j
  first : s.nal.iFirstMb = firstMb j
  pos : s.nal.pPayload = start + (f.lastSize j + 2)
  ident : s.nal.iType = iNalType idr ∧ s.nal.iRefIdc = ref
  tiles : Tiles start (s.processed.map X264Nal.range) s.nal.pPayload
  idx : s.processed.map X264Nal.chunkIdx = List.range j
  idents : ∀ u ∈ s.processed, u.iType = iNalType idr ∧ u.iRefIdc = ref

/-- The state in which macroblock `k` is written. -/
structure SliceInv (f : CabacFrame) (idr : Bool) (ref : NalPriority) (start : ℤ) (k : ℕ)
    (s : SliceState) : Prop where
  x : s.iMbX = k % 54
  y : s.iMbY = k / 54
  ending : s.bCabacChunkEnding = true ↔ 2 ≤ k ∧ k % 324 = 1
  chunks : ChunkInv f idr ref start (closed k) s

theorem SliceInv.mbXy (h : SliceInv f idr ref start k s) : s.mbXy = k := by
  rw [SliceState.mbXy, h.x, h.y, iMbWidth_eq]
  omega

theorem chunkInv_init : ChunkInv f idr ref start 0 (.init (iNalType idr) ref start) where
  last := rfl
  first := rfl
  pos := by simp [SliceState.init, CabacFrame.lastSize]
  ident := ⟨rfl, rfl⟩
  tiles := rfl
  idx := rfl
  idents := nofun

theorem sliceInv_init : SliceInv f idr ref start 0 (.init (iNalType idr) ref start) where
  x := rfl
  y := rfl
  ending := by simp [SliceState.init]
  chunks := chunkInv_init

theorem closed_succ_of_ending (h : 2 ≤ k ∧ k % 324 = 1) :
    k = 324 * (closed k + 1) + 1 ∧ closed (k + 1) = closed k + 1 := by
  simp only [closed]
  omega

theorem closed_succ (h : ¬ (2 ≤ k ∧ k % 324 = 1)) : closed (k + 1) = closed k := by
  simp only [closed]
  omega

/-- Where a chunk ends bytes have come, so it is closed at once. -/
theorem lastSize_lt (hk : k < iLastMb) (h : 2 ≤ k ∧ k % 324 = 1) :
    f.lastSize (closed k) < f.size k := by
  obtain ⟨heq, -⟩ := closed_succ_of_ending h
  rw [CabacFrame.lastSize]
  split_ifs with hj
  · omega
  · have hgrows := f.grows (324 * closed k + 1) (by omega)
    rw [show 324 * closed k + 1 + 324 = k by omega] at hgrows
    exact_mod_cast hgrows

theorem chunkIdx_firstMb {nal : X264Nal} {j : ℕ} (h : nal.iFirstMb = firstMb j) :
    nal.chunkIdx = j := by
  have hdiv : nal.chunkIdx = nal.iFirstMb / 324 := rfl
  rw [hdiv, h, firstMb]
  split_ifs with hj
  · omega
  · omega

/-- Closing chunk `j` after macroblock 324 (j + 1) + 1. -/
theorem chunkInv_closeChunk {j : ℕ} (h : ChunkInv f idr ref start j s)
    (hending : s.bCabacChunkEnding = true) (hk : s.mbXy = 324 * (j + 1) + 1)
    (hlt : f.lastSize j < f.size s.mbXy) :
    ChunkInv f idr ref start (j + 1) (s.closeChunk (f.size s.mbXy)) := by
  have hsize : f.lastSize (j + 1) = f.size s.mbXy := by
    rw [CabacFrame.lastSize, if_neg (by omega), hk]
  rw [SliceState.closeChunk, if_pos ⟨hending, h.last ▸ hlt⟩]
  refine ⟨hsize.symm, ?_, ?_, h.ident, ?_, ?_, ?_⟩
  · change s.mbXy + 1 = firstMb (j + 1)
    rw [firstMb, if_neg (by omega), hk]
  · change s.nal.pPayload + (f.size s.mbXy - s.cabacLastSize) = _
    rw [hsize, h.pos, h.last]
    omega
  · have hsnoc := h.tiles.snoc (n := f.size s.mbXy - s.cabacLastSize) (by rw [h.last]; omega)
    simpa [X264Nal.range] using hsnoc
  · have hidx : X264Nal.chunkIdx { s.nal with iPayload := f.size s.mbXy - s.cabacLastSize } = j :=
      chunkIdx_firstMb h.first
    rw [List.map_append, h.idx, List.range_succ, List.map_singleton, hidx]
  · intro u hu
    rcases List.mem_append.mp hu with hu | hu
    · exact h.idents u hu
    · rw [List.mem_singleton.mp hu]
      exact h.ident

theorem closeChunk_place (size : ℤ) : (s.closeChunk size).iMbX = s.iMbX ∧
    (s.closeChunk size).iMbY = s.iMbY := by
  rw [SliceState.closeChunk]
  split_ifs <;> exact ⟨rfl, rfl⟩

/-- After the test for a chunk's end no end is pending. -/
theorem sliceInv_closeChunk (h : SliceInv f idr ref start k s) (hk : k < iLastMb) :
    ChunkInv f idr ref start (closed (k + 1)) (s.closeChunk (f.size k)) ∧
      (s.closeChunk (f.size k)).bCabacChunkEnding = false := by
  by_cases hend : 2 ≤ k ∧ k % 324 = 1
  · obtain ⟨heq, hsucc⟩ := closed_succ_of_ending hend
    have hlt := lastSize_lt (f := f) hk hend
    have hclose := chunkInv_closeChunk h.chunks (h.ending.mpr hend) (h.mbXy.trans heq)
      (by rw [h.mbXy]; exact hlt)
    rw [h.mbXy] at hclose
    rw [hsucc]
    refine ⟨hclose, ?_⟩
    rw [SliceState.closeChunk, if_pos ⟨h.ending.mpr hend, h.chunks.last ▸ hlt⟩]
  · have hflag : s.bCabacChunkEnding = false := by simpa using mt h.ending.mp hend
    rw [SliceState.closeChunk, if_neg (by simp [hflag]), closed_succ hend]
    exact ⟨h.chunks, hflag⟩

theorem ChunkInv.congr {j : ℕ} {t : SliceState} (h : ChunkInv f idr ref start j s)
    (hlast : t.cabacLastSize = s.cabacLastSize) (hnal : t.nal = s.nal)
    (hprocessed : t.processed = s.processed) : ChunkInv f idr ref start j t := by
  obtain ⟨last, first, pos, ident, tiles, idx, idents⟩ := h
  rw [← hlast] at last
  rw [← hnal] at first pos ident tiles
  rw [← hprocessed] at tiles idx idents
  exact ⟨last, first, pos, ident, tiles, idx, idents⟩

theorem markEnding_ending (hflag : s.bCabacChunkEnding = false) :
    s.markEnding.bCabacChunkEnding = true ↔ s.iMbY > 0 ∧ s.iMbY % 6 = 0 ∧ s.iMbX = 0 := by
  rw [SliceState.markEnding]
  split_ifs with h
  · simpa using h
  · simpa [hflag] using h

theorem markEnding_place : s.markEnding.iMbX = s.iMbX ∧ s.markEnding.iMbY = s.iMbY := by
  rw [SliceState.markEnding]
  split_ifs <;> exact ⟨rfl, rfl⟩

theorem ChunkInv.markEnding {j : ℕ} (h : ChunkInv f idr ref start j s) :
    ChunkInv f idr ref start j s.markEnding := by
  rw [SliceState.markEnding]
  split_ifs
  · exact h.congr rfl rfl rfl
  · exact h

theorem ChunkInv.nextMb {j : ℕ} (h : ChunkInv f idr ref start j s) :
    ChunkInv f idr ref start j s.nextMb := by
  rw [SliceState.nextMb]
  split_ifs
  · exact h.congr rfl rfl rfl
  · exact h.congr rfl rfl rfl

theorem nextMb_place (hx : s.iMbX = k % 54) (hy : s.iMbY = k / 54) :
    s.nextMb.iMbX = (k + 1) % 54 ∧ s.nextMb.iMbY = (k + 1) / 54 ∧
      s.nextMb.bCabacChunkEnding = s.bCabacChunkEnding := by
  rw [SliceState.nextMb, iMbWidth_eq]
  split_ifs with hrow
  · exact ⟨by simp only; omega, by simp only; omega, rfl⟩
  · exact ⟨by simp only; omega, by simp only; omega, rfl⟩

/-- One macroblock. -/
theorem sliceInv_step (h : SliceInv f idr ref start k s) (hk : k < iLastMb) :
    SliceInv f idr ref start (k + 1) (s.closeChunk (f.size s.mbXy)).markEnding.nextMb := by
  obtain ⟨hchunks, hflag⟩ := sliceInv_closeChunk h hk
  obtain ⟨hx, hy⟩ := closeChunk_place (s := s) (f.size k)
  rw [h.mbXy]
  generalize s.closeChunk (f.size k) = t at hchunks hflag hx hy
  obtain ⟨hx', hy'⟩ := markEnding_place (s := t)
  rw [hx, h.x] at hx'
  rw [hy, h.y] at hy'
  obtain ⟨hnx, hny, hnflag⟩ := nextMb_place hx' hy'
  refine ⟨hnx, hny, ?_, hchunks.markEnding.nextMb⟩
  rw [hnflag, markEnding_ending hflag, hx, hy, h.x, h.y]
  omega

/-- The loop ends at the last macroblock, with four chunks given away. -/
theorem writeMbs_eq {fuel : ℕ} (h : SliceInv f idr ref start k s) (hk : k ≤ iLastMb)
    (hfuel : iLastMb < k + fuel) : ∃ t, SliceState.writeMbs (fun k => f.size k) fuel s = some t ∧
      SliceInv f idr ref start iLastMb t := by
  induction fuel generalizing k s with
  | zero => omega
  | succ fuel ih =>
    rw [SliceState.writeMbs]
    by_cases hlast : s.mbXy = iLastMb
    · rw [if_pos hlast]
      rw [h.mbXy] at hlast
      exact ⟨s, rfl, hlast ▸ h⟩
    · rw [if_neg hlast]
      rw [h.mbXy] at hlast
      exact ih (sliceInv_step h (by omega)) (by omega) (by omega)

/-- From one macroblock to a later one no byte is lost. -/
theorem CabacFrame.size_mono (f : CabacFrame) {i j : ℕ} (hij : i ≤ j) (hj : j ≤ iLastMb) :
    f.size i ≤ f.size j := by
  induction j, hij using Nat.le_induction with
  | base => exact le_rfl
  | succ j _ ih => exact (ih (by omega)).trans (f.mono j hj)

/-- What the encoder gives away for a frame. -/
theorem sliceWrite_spec (f : CabacFrame) (idr : Bool) (ref : NalPriority) (start : ℤ) :
    ∃ units, sliceWrite f idr ref start = some units ∧
      units.map X264Nal.chunkIdx = List.range kH264ChunksPerFrame ∧
      Tiles start (units.map X264Nal.range) (start + f.flushed) ∧
      ∀ u ∈ units, u.iType = iNalType idr ∧ u.iRefIdc = ref := by
  have hinit : SliceInv f idr ref start 0 (.init (iNalType idr) ref start) := sliceInv_init
  obtain ⟨t, ht, hinv⟩ := writeMbs_eq hinit (Nat.zero_le _)
    (show iLastMb < 0 + iMbHeight * iMbWidth by decide)
  have h := hinv.chunks
  rw [show closed iLastMb = 4 from rfl] at h
  refine ⟨t.nalEnd (start + f.flushed), by rw [sliceWrite, ht]; rfl, ?_, ?_, ?_⟩
  · have hidx : X264Nal.chunkIdx
        { t.nal with iPayload := start + f.flushed - t.nal.pPayload } = 4 :=
      chunkIdx_firstMb h.first
    rw [SliceState.nalEnd, List.map_append, h.idx, List.map_singleton, hidx]
    rfl
  · have hmono := f.size_mono (i := 324 * 4 + 1) (j := iLastMb) (by decide) le_rfl
    have hflush := f.flush
    have hlast : f.lastSize 4 = f.size (324 * 4 + 1) := if_neg (by decide)
    -- The two bytes that the first chunk took in advance come with the flush.
    have hrest : 0 ≤ start + f.flushed - t.nal.pPayload := by
      rw [h.pos, hlast]
      omega
    have hsnoc := h.tiles.snoc hrest
    rw [add_sub_cancel] at hsnoc
    simpa [SliceState.nalEnd, X264Nal.range] using hsnoc
  · intro u hu
    rcases List.mem_append.mp hu with hu | hu
    · exact h.idents u hu
    · rw [List.mem_singleton.mp hu]
      exact h.ident

namespace H264Encoder

variable {e : H264Encoder} {nal : X264Nal} {units : List X264Nal}

theorem processNalUnit_slice (htype : nal.iType ≠ .sei) (hidx : nal.chunkIdx < kH264ChunksPerFrame)
    (hnum : e.numChunksEncoded < 5) : ∃ e', e.processNalUnit nal = .ok e' ∧
      e'.numChunksEncoded = e.numChunksEncoded + 1 ∧
      e'.chunks = Function.update e.chunks ⟨nal.chunkIdx, hidx⟩ nal.range := by
  rw [processNalUnit, if_neg htype, dif_pos hidx]
  by_cases hlast : e.numChunksEncoded + 1 = 5
  · exact ⟨_, (if_pos hnum).trans (if_pos hlast), rfl, rfl⟩
  · exact ⟨_, (if_pos hnum).trans (if_neg hlast), rfl, rfl⟩

theorem foldlM_sei (h : ∀ u ∈ units, u.iType = .sei) :
    units.foldlM processNalUnit e = .ok e := by
  induction units with
  | nil => rfl
  | cons u units ih =>
    rw [List.forall_mem_cons] at h
    rw [List.foldlM_cons, processNalUnit, if_pos h.1]
    exact ih h.2

/-- Units for one slot after the other are each kept in theirs. -/
theorem foldlM_slice {j : ℕ} (htype : ∀ u ∈ units, u.iType ≠ .sei)
    (hidx : units.map X264Nal.chunkIdx = List.range' j units.length)
    (hlen : j + units.length = kH264ChunksPerFrame) (hnum : e.numChunksEncoded = j) :
    ∃ e', units.foldlM processNalUnit e = .ok e' ∧
      ∀ i : Fin kH264ChunksPerFrame, some (e'.chunks i) =
        if j ≤ i then (units.map X264Nal.range)[i - j]? else some (e.chunks i) := by
  induction units generalizing j e with
  | nil =>
    refine ⟨e, rfl, fun i => ?_⟩
    rw [if_neg]
    rw [List.length_nil] at hlen
    omega
  | cons u units ih =>
    rw [List.forall_mem_cons] at htype
    rw [List.length_cons] at hlen
    rw [List.map_cons, List.length_cons, List.range'_succ, List.cons.injEq] at hidx
    have hfive : kH264ChunksPerFrame = 5 := rfl
    have hj : u.chunkIdx < kH264ChunksPerFrame := by omega
    obtain ⟨e₁, he₁, hnum₁, hchunks⟩ := processNalUnit_slice (e := e) htype.1 hj (by omega)
    obtain ⟨e', he', hall⟩ := ih (j := j + 1) (e := e₁) htype.2 hidx.2 (by omega) (by omega)
    refine ⟨e', by rw [List.foldlM_cons, he₁]; exact he', fun i => ?_⟩
    rw [hall i, hchunks]
    rcases Nat.lt_trichotomy i j with hlt | heq | hgt
    · have hne : i ≠ ⟨u.chunkIdx, hj⟩ := fun h => by
        rw [h] at hlt
        exact absurd hidx.1 hlt.ne
      rw [if_neg (by omega), if_neg (by omega), Function.update_of_ne hne]
    · have hi : i = ⟨u.chunkIdx, hj⟩ := Fin.ext (heq.trans hidx.1.symm)
      rw [if_neg (by omega), if_pos (by omega), heq, Nat.sub_self, hi, Function.update_self]
      rfl
    · rw [if_pos (by omega), if_pos (by omega), show (i : ℕ) - j = i - (j + 1) + 1 by omega]
      rfl

theorem encode_eq (e : H264Encoder) {before after : List X264Nal}
    (hsei : ∀ u ∈ before ++ after, u.iType = .sei) (htype : ∀ u ∈ units, u.iType ≠ .sei)
    (hidx : units.map X264Nal.chunkIdx = List.range kH264ChunksPerFrame) :
    ∃ e', e.encode (before ++ units ++ after) = .ok e' ∧
      List.ofFn e'.chunks = units.map X264Nal.range := by
  obtain ⟨hbefore, hafter⟩ := List.forall_mem_append.mp hsei
  have hlen : units.length = kH264ChunksPerFrame := by simpa using congrArg List.length hidx
  rw [List.range_eq_range', ← hlen] at hidx
  obtain ⟨e', he', hall⟩ := foldlM_slice (j := 0)
    (e := { e with numChunksEncoded := 0, currFrameIdr := false }) htype hidx (by omega) rfl
  refine ⟨e', ?_, ?_⟩
  · rw [encode, List.foldlM_append, List.foldlM_append, foldlM_sei hbefore]
    change (do let s ← units.foldlM processNalUnit _; _) = _
    rw [he']
    exact foldlM_sei hafter
  · refine List.ext_getElem? fun i => ?_
    by_cases hi : i < kH264ChunksPerFrame
    · have h := hall ⟨i, hi⟩
      rw [if_pos (Nat.zero_le _), Nat.sub_zero] at h
      rw [List.getElem?_ofFn, dif_pos hi]
      exact h
    · rw [List.getElem?_eq_none, List.getElem?_eq_none]
      · simpa [hlen] using hi
      · simpa using hi

end H264Encoder

/-- The five chunks of every frame tile it: whatever the bytes and whatever was kept before, each
slot is filled with its range, and the ranges lead from the start of the slice to its end. -/
theorem chunks_tile_frame (f : CabacFrame) (idr : Bool) (ref : NalPriority) (start : ℤ)
    (e : H264Encoder) (before after : List X264Nal)
    (hsei : ∀ u ∈ before ++ after, u.iType = .sei) :
    ∃ units e', sliceWrite f idr ref start = some units ∧
      units.map X264Nal.chunkIdx = [0, 1, 2, 3, 4] ∧
      e.encode (before ++ units ++ after) = .ok e' ∧
      List.ofFn e'.chunks = units.map X264Nal.range ∧
      Tiles start (List.ofFn e'.chunks) (start + f.flushed) := by
  obtain ⟨units, hunits, hidx, htiles, hident⟩ := sliceWrite_spec f idr ref start
  have htype : ∀ u ∈ units, u.iType ≠ .sei := by
    intro u hu
    rw [(hident u hu).1, iNalType]
    cases idr with
    | true => decide
    | false => decide
  obtain ⟨e', he', hchunks⟩ := e.encode_eq hsei htype hidx
  exact ⟨units, e', hunits, hidx, he', hchunks, hchunks ▸ htiles⟩

/-- A frame that grows by one byte in every 324 macroblocks and by two in the flush. -/
def thinFrame : CabacFrame where
  size := fun k => k / 324
  flushed := 6
  mono := by
    intro k _
    omega
  grows := by
    intro k _
    omega
  flush := by decide

theorem chunks_tile_frame_thin : ∃ units e', sliceWrite thinFrame true .highest 40 = some units ∧
    units.map X264Nal.chunkIdx = [0, 1, 2, 3, 4] ∧
    H264Encoder.encode ⟨fun _ => (0, 7), 5, true⟩ ([⟨.disposable, .sei, 0, 40, 0⟩] ++ units ++ []) =
      .ok e' ∧
    List.ofFn e'.chunks = units.map X264Nal.range ∧
    Tiles 40 (List.ofFn e'.chunks) (40 + (6 : ℕ)) :=
  chunks_tile_frame thinFrame true .highest 40 ⟨fun _ => (0, 7), 5, true⟩
    [⟨.disposable, .sei, 0, 40, 0⟩] [] (by decide)

end Pc2Drc
