import Pc2Drc.Lib.Fragment
import Pc2Drc.VstrmPacket

/-! How an encoded frame becomes `vstrm` packets, and how it is read back from them. -/
namespace Pc2Drc
open Lib

abbrev kH264ChunksPerFrame : ℕ := 5

abbrev H264ChunkArray := Vector (List UInt8) kH264ChunksPerFrame

/-- The loop of `AsChunkArray`; what it does not reach stays an empty chunk. -/
def asChunkArrayFrom (chunkArray : H264ChunkArray) (index : ℕ) :
    List (List UInt8) → H264ChunkArray
  | [] => chunkArray
  | chunk :: chunks =>
    if h : index < kH264ChunksPerFrame then
      asChunkArrayFrom (chunkArray.set index chunk) (index + 1) chunks
    else chunkArray

def asChunkArray (chunks : List (List UInt8)) : H264ChunkArray :=
  asChunkArrayFrom (Vector.replicate _ []) 0 chunks

/-- What all packets of a frame have in common. -/
structure FrameParams where
  timestamp : UInt32
  idr : Bool
  init : Bool
  frameRate : VideoFrameRate
  deriving DecidableEq, Repr

/-- The counter is incremented and brought back to zero at 1024. -/
def nextSeqId (seqid : UInt16) : UInt16 :=
  if 1024 ≤ seqid + 1 then 0 else seqid + 1

/-- One packet, written by its setters in the order of the source. -/
def framePacket (f : FrameParams) (seqid : UInt16) (data : List UInt8)
    (frameBegin chunkEnd frameEnd : Bool) : Except Fault VstrmPacket := do
  let pkt ← (VstrmPacket.resetPacket.setSeqId seqid).setPayload data
  let pkt := (pkt.setTimestamp f.timestamp).setInitFlag f.init
  let pkt := ((pkt.setFrameBeginFlag frameBegin).setChunkEndFlag chunkEnd).setFrameEndFlag frameEnd
  return (pkt.setIdrFlag f.idr).setFrameRate f.frameRate

/-- The `do … while` loop over one chunk. -/
def chunkPackets (f : FrameParams) (firstChunk lastChunk firstPacket : Bool)
    (chunk : List UInt8) (seqid : UInt16) : Except Fault (List VstrmPacket × UInt16) := do
  let lastPacket := (chunk.drop kMaxVstrmPayloadSize).isEmpty
  let pkt ← framePacket f seqid (chunk.take kMaxVstrmPayloadSize) (firstChunk && firstPacket)
    lastPacket (lastChunk && lastPacket)
  if _h : chunk.drop kMaxVstrmPayloadSize = [] then return ([pkt], nextSeqId seqid)
  else
    let (pkts, seqid) ← chunkPackets f firstChunk lastChunk false
      (chunk.drop kMaxVstrmPayloadSize) (nextSeqId seqid)
    return (pkt :: pkts, seqid)
termination_by chunk.length
decreasing_by
  have hmax : 0 < kMaxVstrmPayloadSize := by decide
  rw [List.drop_eq_nil_iff] at _h
  rw [List.length_drop]
  omega

/-- The loop over the chunks from index `i`. -/
def framePackets (f : FrameParams) (i : ℕ) :
    List (List UInt8) → UInt16 → Except Fault (List VstrmPacket × UInt16)
  | [], seqid => return ([], seqid)
  | chunk :: chunks, seqid => do
    let (pkts, seqid) ← chunkPackets f (i = 0) (i = kH264ChunksPerFrame - 1) true chunk seqid
    let (rest, seqid) ← framePackets f (i + 1) chunks seqid
    return (pkts ++ rest, seqid)

/-- The init flag is set on the first frame ever sent. -/
def generateVstrmPackets (vstrmPackets : List VstrmPacket) (chunks : H264ChunkArray)
    (timestamp : UInt32) (idr vstrmInited : Bool) (vstrmSeqid : UInt16)
    (frameRate : VideoFrameRate) : Except Fault (List VstrmPacket × Bool × UInt16) := do
  let f : FrameParams := ⟨timestamp, idr, !vstrmInited, frameRate⟩
  let (pkts, seqid) ← framePackets f 0 chunks.toList vstrmSeqid
  return (vstrmPackets ++ pkts, true, seqid)

/-- The datagram a packet of a frame is read as. -/
def FrameParams.datagram (f : FrameParams) (seqid : ℕ) (frameBegin frameEnd : Bool)
    (piece : Bool × List UInt8) : VstrmDatagram :=
  { magic := 0xF, packetType := 0, seqId := seqid, init := f.init, frameBegin := frameBegin,
    chunkEnd := piece.1, frameEnd := frameEnd, timestamp := some f.timestamp.toNat,
    extHeader := extOptions f.idr f.frameRate, payload := piece.2 }

/-- The datagrams of the pieces from index `k` on, of `total` pieces in all. -/
def datagramsFrom (f : FrameParams) (s total k : ℕ) (cut : List (Bool × List UInt8)) :
    List VstrmDatagram :=
  cut.mapIdx fun j piece =>
    f.datagram ((s + (k + j)) % 1024) (k + j = 0) (k + j + 1 = total) piece

/-- What a frame should be sent as: its pieces numbered through from `s` modulo 1024, the first
and the last of them marked. -/
def frameDatagrams (f : FrameParams) (s : ℕ) (chunks : List (List UInt8)) : List VstrmDatagram :=
  let cut := chunks.flatMap (pieces kMaxVstrmPayloadSize)
  datagramsFrom f s cut.length 0 cut

/-- The packets are read, one by one, as the given datagrams. -/
def ReadAs (pkts : List VstrmPacket) (ds : List VstrmDatagram) : Prop :=
  pkts.map (fun p => VstrmDatagram.read p.getBytes) = ds.map some

variable {f : FrameParams} {s total k i : ℕ} {seqid : UInt16}

theorem datagramsFrom_append (f : FrameParams) (s total k : ℕ) (a b : List (Bool × List UInt8)) :
    datagramsFrom f s total k (a ++ b) =
      datagramsFrom f s total k a ++ datagramsFrom f s total (k + a.length) b := by
  simp [datagramsFrom, List.mapIdx_append, Nat.add_assoc, Nat.add_comm, Nat.add_left_comm]

theorem datagramsFrom_cons (f : FrameParams) (s total k : ℕ) (piece : Bool × List UInt8)
    (cut : List (Bool × List UInt8)) : datagramsFrom f s total k (piece :: cut) =
      f.datagram ((s + k) % 1024) (k = 0) (k + 1 = total) piece ::
        datagramsFrom f s total (k + 1) cut := by
  have h := datagramsFrom_append f s total k [piece] cut
  simpa [datagramsFrom] using h

/-- The datagrams carry the pieces they are made of. -/
theorem map_datagramsFrom (f : FrameParams) (s total k : ℕ) (cut : List (Bool × List UInt8)) :
    (datagramsFrom f s total k cut).map (fun d => (d.chunkEnd, d.payload)) = cut := by
  induction cut generalizing k with
  | nil => rfl
  | cons piece cut ih => rw [datagramsFrom_cons, List.map_cons, ih]; rfl

theorem ReadAs.append {pkts pkts' : List VstrmPacket} {ds ds' : List VstrmDatagram}
    (h : ReadAs pkts ds) (h' : ReadAs pkts' ds') : ReadAs (pkts ++ pkts') (ds ++ ds') := by
  rw [ReadAs] at *
  rw [List.map_append, List.map_append, h, h']

theorem toNat_nextSeqId {n : ℕ} (h : seqid.toNat = n % 1024) :
    (nextSeqId seqid).toNat = (n + 1) % 1024 := by
  have hs : (seqid + 1).toNat = seqid.toNat + 1 := by
    simp
    omega
  unfold nextSeqId
  split
  · rename_i hle
    have := UInt16.le_iff_toNat_le.mp hle
    simp at this
    simp
    omega
  · rename_i hle
    rw [UInt16.le_iff_toNat_le] at hle
    simp at hle
    omega

theorem framePacket_read {data : List UInt8} (hseq : seqid.toNat < 1024)
    (hlen : data.length ≤ kMaxVstrmPayloadSize) (fb ce fe : Bool) :
    ∃ p, framePacket f seqid data fb ce fe = .ok p ∧
      VstrmDatagram.read p.getBytes = some (f.datagram seqid.toNat fb fe (ce, data)) := by
  obtain ⟨q, hq⟩ := VstrmPacket.setPayload_ok (p := VstrmPacket.resetPacket.setSeqId seqid) hlen
  rw [framePacket, hq]
  exact ⟨_, rfl, VstrmPacket.read_setters _ _ _ _ _ _ _ hseq hlen hq⟩

theorem chunkPackets_last {fc lc fp : Bool} {chunk : List UInt8}
    (h : chunk.drop kMaxVstrmPayloadSize = []) : chunkPackets f fc lc fp chunk seqid = (do
      let pkt ← framePacket f seqid (chunk.take kMaxVstrmPayloadSize) (fc && fp) true lc
      return ([pkt], nextSeqId seqid)) := by
  rw [chunkPackets]
  simp [h]

theorem chunkPackets_more {fc lc fp : Bool} {chunk : List UInt8}
    (h : chunk.drop kMaxVstrmPayloadSize ≠ []) : chunkPackets f fc lc fp chunk seqid = (do
      let pkt ← framePacket f seqid (chunk.take kMaxVstrmPayloadSize) (fc && fp) false false
      let (pkts, seqid) ← chunkPackets f fc lc false (chunk.drop kMaxVstrmPayloadSize)
        (nextSeqId seqid)
      return (pkt :: pkts, seqid)) := by
  rw [chunkPackets]
  simp only [List.isEmpty_eq_false_iff.mpr h, Bool.and_false, h, dite_false]

/-- One chunk's loop sends the chunk's pieces, the first marked if it is the frame's first and the
last marked if it is the frame's last. -/
theorem chunkPackets_read (fc lc fp : Bool) (chunk : List UInt8)
    (hseq : seqid.toNat = (s + k) % 1024) (hfirst : (fc && fp) = decide (k = 0))
    (hlast : lc = decide (k + (pieces kMaxVstrmPayloadSize chunk).length = total))
    (htotal : k + (pieces kMaxVstrmPayloadSize chunk).length ≤ total) :
    ∃ pkts seqid', chunkPackets f fc lc fp chunk seqid = .ok (pkts, seqid') ∧
      ReadAs pkts (datagramsFrom f s total k (pieces kMaxVstrmPayloadSize chunk)) ∧
      seqid'.toNat = (s + (k + (pieces kMaxVstrmPayloadSize chunk).length)) % 1024 := by
  have hmax : kMaxVstrmPayloadSize ≠ 0 := by decide
  have hlt : seqid.toNat < 1024 := by omega
  induction chunk using pieces.induct kMaxVstrmPayloadSize generalizing k seqid fp with
  | case1 chunk h =>
    have hdrop := h.resolve_left hmax
    obtain ⟨p, hp, hread⟩ := framePacket_read (f := f) hlt
      (List.length_take_le kMaxVstrmPayloadSize chunk) (fc && fp) true lc
    rw [pieces_last hdrop] at hlast ⊢
    rw [chunkPackets_last hdrop, hp]
    refine ⟨[p], nextSeqId seqid, rfl, ?_, toNat_nextSeqId hseq⟩
    rw [datagramsFrom_cons, ← hseq, ← hfirst, ReadAs]
    simp only [List.length_singleton] at hlast
    simp [hread, ← hlast, datagramsFrom]
  | case2 chunk h ih =>
    obtain ⟨-, hdrop⟩ := not_or.mp h
    obtain ⟨p, hp, hread⟩ := framePacket_read (f := f) hlt
      (List.length_take_le kMaxVstrmPayloadSize chunk) (fc && fp) false false
    rw [pieces_more hmax hdrop, List.length_cons] at hlast htotal ⊢
    have hpos := length_pieces_pos (n := kMaxVstrmPayloadSize) (chunk.drop kMaxVstrmPayloadSize)
    have hnext : (nextSeqId seqid).toNat = (s + (k + 1)) % 1024 := toNat_nextSeqId hseq
    obtain ⟨pkts, seqid', hpkts, hreads, hseqid'⟩ := ih false hnext (by simp)
      (by rw [hlast]; congr 2; omega) (by omega) (by omega)
    rw [chunkPackets_more hdrop, hp]
    refine ⟨p :: pkts, seqid', ?_, ?_, by rw [hseqid']; congr 1; omega⟩
    · simp only [bind, Except.bind, hpkts]
      rfl
    · have hne : decide (k + 1 = total) = false := by simp; omega
      rw [datagramsFrom_cons, ← hseq, ← hfirst, hne, ReadAs, List.map_cons, List.map_cons, hread,
        hreads]

/-- The frame's loop sends the pieces of all its chunks. -/
theorem framePackets_read (chunks : List (List UInt8)) (hseq : seqid.toNat = (s + k) % 1024)
    (hfirst : i = 0 ↔ k = 0) (hlen : i + chunks.length = kH264ChunksPerFrame)
    (htotal : k + (chunks.flatMap (pieces kMaxVstrmPayloadSize)).length = total) :
    ∃ pkts seqid', framePackets f i chunks seqid = .ok (pkts, seqid') ∧
      ReadAs pkts (datagramsFrom f s total k (chunks.flatMap (pieces kMaxVstrmPayloadSize))) ∧
      seqid'.toNat = (s + total) % 1024 := by
  induction chunks generalizing i k seqid with
  | nil => exact ⟨[], seqid, rfl, rfl, by rw [hseq, ← htotal]; rfl⟩
  | cons chunk chunks ih =>
    rw [List.flatMap_cons, List.length_append] at htotal
    have hpos := length_pieces_pos (n := kMaxVstrmPayloadSize) chunk
    have hlast : decide (i = kH264ChunksPerFrame - 1) =
        decide (k + (pieces kMaxVstrmPayloadSize chunk).length = total) := by
      have hfive : kH264ChunksPerFrame = 5 := rfl
      cases chunks with
      | nil =>
        simp only [List.flatMap_nil, List.length_nil, List.length_singleton] at hlen htotal
        simp
        omega
      | cons chunk' chunks =>
        have hpos' := length_pieces_pos (n := kMaxVstrmPayloadSize) chunk'
        simp only [List.flatMap_cons, List.length_append, List.length_cons] at hlen htotal
        simp
        omega
    obtain ⟨pkts, seqid', hpkts, hreads, hseq'⟩ := chunkPackets_read (f := f) (i = 0)
      (i = kH264ChunksPerFrame - 1) true chunk hseq (by simp [hfirst]) hlast (by omega)
    obtain ⟨rest, seqid'', hrest, hreads', hseq''⟩ := ih (i := i + 1) hseq' (by omega)
      (by simp only [List.length_cons] at hlen; omega) (by omega)
    refine ⟨pkts ++ rest, seqid'', ?_, ?_, hseq''⟩
    · simp only [framePackets, bind, Except.bind, hpkts, hrest]
      rfl
    · rw [List.flatMap_cons, datagramsFrom_append]
      exact hreads.append hreads'

theorem length_frameDatagrams (f : FrameParams) (s : ℕ) (chunks : List (List UInt8)) :
    (frameDatagrams f s chunks).length =
      (chunks.flatMap (pieces kMaxVstrmPayloadSize)).length := List.length_mapIdx

/-- The packets appended for a frame are read as the datagrams it should be sent as. -/
theorem generateVstrmPackets_read (vstrmPackets : List VstrmPacket) (chunks : H264ChunkArray)
    (timestamp : UInt32) (idr vstrmInited : Bool) (frameRate : VideoFrameRate)
    (hseq : seqid.toNat < 1024) :
    ∃ pkts seqid', generateVstrmPackets vstrmPackets chunks timestamp idr vstrmInited seqid
        frameRate = .ok (vstrmPackets ++ pkts, true, seqid') ∧
      ReadAs pkts (frameDatagrams ⟨timestamp, idr, !vstrmInited, frameRate⟩ seqid.toNat
        chunks.toList) ∧
      seqid'.toNat = (seqid.toNat + (frameDatagrams ⟨timestamp, idr, !vstrmInited, frameRate⟩
        seqid.toNat chunks.toList).length) % 1024 := by
  obtain ⟨pkts, seqid', hpkts, hread, hseq'⟩ := framePackets_read
    (f := ⟨timestamp, idr, !vstrmInited, frameRate⟩) (s := seqid.toNat) (k := 0) (i := 0)
    chunks.toList (Nat.mod_eq_of_lt hseq).symm Iff.rfl (by simp) rfl
  refine ⟨pkts, seqid', ?_, ?_, ?_⟩
  · simp only [generateVstrmPackets, bind, Except.bind, hpkts]
    rfl
  · simpa [frameDatagrams] using hread
  · rw [length_frameDatagrams, hseq', Nat.zero_add]

/-- The loop copies what fits, one chunk at a time. -/
theorem toList_asChunkArrayFrom {arr : H264ChunkArray} {index : ℕ} (chunks : List (List UInt8))
    (h : index ≤ kH264ChunksPerFrame) : (asChunkArrayFrom arr index chunks).toList =
      blit arr.toList index (chunks.take (kH264ChunksPerFrame - index)) := by
  induction chunks generalizing arr index with
  | nil => simp [asChunkArrayFrom, blit]
  | cons chunk chunks ih =>
    rw [asChunkArrayFrom]
    split
    · rename_i hlt
      rw [ih hlt]
      have hlen : index < arr.toList.length := by simpa using hlt
      have hsub : kH264ChunksPerFrame - index = kH264ChunksPerFrame - (index + 1) + 1 := by omega
      rw [hsub, List.take_succ_cons, Vector.toList_set, blit_set hlen]
    · rename_i hge
      have hzero : kH264ChunksPerFrame - index = 0 := by omega
      simp [hzero, blit]

/-- The first five chunks, padded with empty ones. -/
theorem toList_asChunkArray (chunks : List (List UInt8)) : (asChunkArray chunks).toList =
    chunks.take kH264ChunksPerFrame ++ List.replicate (kH264ChunksPerFrame - chunks.length) [] := by
  rw [asChunkArray, toList_asChunkArrayFrom chunks (Nat.zero_le _)]
  simp [blit]
  omega

/-- Datagrams that are a frame's and can be put together to its chunks again. -/
structure Packetized (f : FrameParams) (s : ℕ) (chunks : List (List UInt8))
    (ds : List VstrmDatagram) : Prop where
  undone : reassemble [] (ds.map fun d => (d.chunkEnd, d.payload)) = some chunks
  frameBegin : ∀ i d, ds[i]? = some d → (d.frameBegin = true ↔ i = 0)
  frameEnd : ∀ i d, ds[i]? = some d → (d.frameEnd = true ↔ i + 1 = ds.length)
  full : ∀ d ∈ ds, d.payload.length ≤ kMaxVstrmPayloadSize ∧
    (d.payload.length < kMaxVstrmPayloadSize → d.chunkEnd = true)
  seqId : ∀ i d, ds[i]? = some d → d.seqId = (s + i) % 1024
  extHeader : ∀ d ∈ ds, d.extHeader = extOptions f.idr f.frameRate
  header : ∀ d ∈ ds, d.init = f.init ∧ d.timestamp = some f.timestamp.toNat

theorem getElem?_frameDatagrams {chunks : List (List UInt8)} {d : VstrmDatagram}
    (h : (frameDatagrams f s chunks)[i]? = some d) :
    ∃ piece ∈ chunks.flatMap (pieces kMaxVstrmPayloadSize),
      d = f.datagram ((s + i) % 1024) (i = 0) (i + 1 = (frameDatagrams f s chunks).length)
        piece := by
  simp only [frameDatagrams, datagramsFrom, List.getElem?_mapIdx, Option.map_eq_some_iff] at h
  obtain ⟨piece, hpiece, rfl⟩ := h
  refine ⟨piece, List.mem_of_getElem? hpiece, ?_⟩
  simp [frameDatagrams, datagramsFrom]

theorem packetized_frameDatagrams (f : FrameParams) (s : ℕ) (chunks : List (List UInt8)) :
    Packetized f s chunks (frameDatagrams f s chunks) := by
  have hmem : ∀ d ∈ frameDatagrams f s chunks,
      ∃ i, (frameDatagrams f s chunks)[i]? = some d := fun d hd => List.mem_iff_getElem?.mp hd
  refine ⟨?_, ?_, ?_, ?_, ?_, ?_, ?_⟩
  · rw [frameDatagrams, map_datagramsFrom, reassemble_flatMap (by decide)]
  · intro i d hd
    obtain ⟨piece, -, rfl⟩ := getElem?_frameDatagrams hd
    simp [FrameParams.datagram]
  · intro i d hd
    obtain ⟨piece, -, rfl⟩ := getElem?_frameDatagrams hd
    simp [FrameParams.datagram]
  · intro d hd
    obtain ⟨i, hi⟩ := hmem d hd
    obtain ⟨piece, hpiece, rfl⟩ := getElem?_frameDatagrams hi
    obtain ⟨chunk, -, hin⟩ := List.mem_flatMap.mp hpiece
    exact pieces_full hin
  · intro i d hd
    obtain ⟨piece, -, rfl⟩ := getElem?_frameDatagrams hd
    rfl
  · intro d hd
    obtain ⟨i, hi⟩ := hmem d hd
    obtain ⟨piece, -, rfl⟩ := getElem?_frameDatagrams hi
    rfl
  · intro d hd
    obtain ⟨i, hi⟩ := hmem d hd
    obtain ⟨piece, -, rfl⟩ := getElem?_frameDatagrams hi
    exact ⟨rfl, rfl⟩

/-- What `GenerateVstrmPackets` appends is read back as the frame it was given, and the array
`AsChunkArray` builds is the first five chunks of its list, padded with empty ones. -/
theorem generateVstrmPackets_undone (vstrmPackets : List VstrmPacket) (chunks : H264ChunkArray)
    (timestamp : UInt32) (idr vstrmInited : Bool) (frameRate : VideoFrameRate)
    (hseq : seqid.toNat < 1024) :
    (∃ pkts ds seqid', generateVstrmPackets vstrmPackets chunks timestamp idr vstrmInited seqid
        frameRate = .ok (vstrmPackets ++ pkts, true, seqid') ∧ ReadAs pkts ds ∧
      Packetized ⟨timestamp, idr, !vstrmInited, frameRate⟩ seqid.toNat chunks.toList ds ∧
      seqid'.toNat = (seqid.toNat + ds.length) % 1024) ∧
    ∀ l, (asChunkArray l).toList =
      l.take kH264ChunksPerFrame ++ List.replicate (kH264ChunksPerFrame - l.length) [] := by
  obtain ⟨pkts, seqid', hpkts, hread, hseq'⟩ := generateVstrmPackets_read vstrmPackets chunks
    timestamp idr vstrmInited frameRate hseq
  exact ⟨⟨pkts, _, seqid', hpkts, hread, packetized_frameDatagrams _ _ _, hseq'⟩,
    toList_asChunkArray⟩

/-- The theorem at a frame with two empty chunks whose numbering wraps around. -/
theorem generateVstrmPackets_undone_wrap : (1023 : UInt16).toNat < 1024 ∧
    ∃ pkts ds seqid', generateVstrmPackets [] #v[[1], [], [2, 3], [], [4]] 7 true false 1023
      .k59_94Hz = .ok (pkts, true, seqid') ∧ ReadAs pkts ds ∧
      reassemble [] (ds.map fun d => (d.chunkEnd, d.payload)) =
        some [[1], [], [2, 3], [], [4]] := by
  have hseq : (1023 : UInt16).toNat < 1024 := by decide
  obtain ⟨⟨pkts, ds, seqid', hpkts, hread, hds, -⟩, -⟩ := generateVstrmPackets_undone []
    #v[[1], [], [2, 3], [], [4]] 7 true false .k59_94Hz hseq
  exact ⟨hseq, pkts, ds, seqid', hpkts, hread, hds.undone⟩

end Pc2Drc
