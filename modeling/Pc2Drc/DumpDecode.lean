import Pc2Drc.CabacChunks
import Pc2Drc.DumpStream

/-! From the symbols of the macroblocks to the file and back: the frames that the encoder codes, as
the dump writes them, and what a decoder makes of the slices it finds there. -/
namespace Pc2Drc
open Lib

/-- What a decoder is given besides the file, as the macroblock layer of the standard tells it: the
initial values of the contexts, which symbol is asked for next, and how many samples a macroblock
has that is not coded. -/
structure SliceLayout where
  table : Fin 1024 → ℤ × ℤ
  segments : List (List BinRequest × ℕ)
  last : List BinRequest

/-- The symbols and samples of a slice, with the contexts for the QP of its header. -/
def SliceLayout.decode (x : SliceLayout) (slice : SliceInfo) :
    Option (List (List Bool × List UInt8) × List Bool × List UInt8) :=
  decodeSlice x.last (fun c => cabacContext (x.table c).1 (x.table c).2 slice.qp.toNat) slice.data
    x.segments

section Contexts

variable {ctxCount : ℕ} {s s' t : Fin 1024 → ℕ} {r : BinRequest} {rs : List BinRequest}
  {d d' : DecoderState} {bytes post : List UInt8} {bins : List Bool}

/-- The states agree in the contexts that are set. -/
def ContextsAgree (ctxCount : ℕ) (s s' : Fin 1024 → ℕ) : Prop :=
  ∀ c : Fin 1024, c < ctxCount → s c = s' c

/-- No other context is asked for. -/
def RequestFits (ctxCount : ℕ) (r : BinRequest) : Prop :=
  ∀ c, r = .decision c → c.val < ctxCount

theorem decodeSymbol_congr (h : ContextsAgree ctxCount s s') (hr : RequestFits ctxCount r) :
    cabacEngine.decodeSymbol s d r = cabacEngine.decodeSymbol s' d r := by
  have hsplit : cabacEngine.split s r d.range = cabacEngine.split s' r d.range := by
    cases r with
    | decision c => simp only [cabacEngine, h c (hr c rfl)]
    | bypass => rfl
    | terminate => rfl
  rw [BinaryCoder.decodeSymbol, BinaryCoder.decodeSymbol, hsplit]

theorem ContextsAgree.next (h : ContextsAgree ctxCount s s') (b : Bool) :
    ContextsAgree ctxCount (cabacEngine.next s r b) (cabacEngine.next s' r b) := by
  cases r with
  | decision c =>
    intro c' hc'
    by_cases heq : c' = c
    · subst heq
      simp [cabacEngine, h c' hc']
    · simp [cabacEngine, Function.update_of_ne heq, h c' hc']
  | bypass => exact h
  | terminate => exact h

theorem decode_congr (h : ContextsAgree ctxCount s s') (hrs : ∀ r ∈ rs, RequestFits ctxCount r)
    (hd : cabacEngine.decode s d rs = some (bins, t, d')) :
    ∃ t', ContextsAgree ctxCount t t' ∧ cabacEngine.decode s' d rs = some (bins, t', d') := by
  induction rs generalizing s s' d bins with
  | nil =>
    cases hd
    exact ⟨s', h, rfl⟩
  | cons r rs ih =>
    have hr : RequestFits ctxCount r := hrs r List.mem_cons_self
    obtain ⟨x, hx, hd⟩ := Option.bind_eq_some_iff.mp hd
    obtain ⟨⟨bins', t₁, d₁⟩, hy, hpair⟩ := Option.map_eq_some_iff.mp hd
    cases hpair
    obtain ⟨t', ht', hdecode⟩ := ih (h.next x.1) (fun q hq => hrs q (List.mem_cons_of_mem _ hq)) hy
    refine ⟨t', ht', ?_⟩
    rw [BinaryCoder.decode, ← decodeSymbol_congr h hr, hx, Option.bind_some, hdecode]
    rfl

theorem decodeSegment_congr (h : ContextsAgree ctxCount s s')
    (hrs : ∀ r ∈ rs, RequestFits ctxCount r)
    (hd : decodeSegment s bytes rs = some (bins, t, post)) :
    ∃ t', ContextsAgree ctxCount t t' ∧ decodeSegment s' bytes rs = some (bins, t', post) := by
  obtain ⟨d, hinit, hd⟩ := Option.bind_eq_some_iff.mp hd
  obtain ⟨⟨bins', t₁, d₁⟩, hdecode, hd⟩ := Option.bind_eq_some_iff.mp hd
  obtain ⟨t', ht', hdecode'⟩ := decode_congr h hrs hdecode
  split_ifs at hd with hend
  cases hd
  refine ⟨t', ht', ?_⟩
  rw [decodeSegment, hinit, Option.bind_some, hdecode', Option.bind_some]
  exact if_pos hend

/-- The decoder looks at no other context. -/
theorem decodeSlice_congr {qs : List (List BinRequest × ℕ)}
    {y : List (List Bool × List UInt8) × List Bool × List UInt8}
    (h : ContextsAgree ctxCount s s') (hqs : ∀ q ∈ qs, ∀ r ∈ q.1, RequestFits ctxCount r)
    (hrs : ∀ r ∈ rs, RequestFits ctxCount r) (hd : decodeSlice rs s bytes qs = some y) :
    decodeSlice rs s' bytes qs = some y := by
  induction qs generalizing s s' bytes y with
  | nil =>
    obtain ⟨⟨bins, t, post⟩, hsegment, hy⟩ := Option.map_eq_some_iff.mp hd
    obtain ⟨t', -, hsegment'⟩ := decodeSegment_congr h hrs hsegment
    rw [decodeSlice, hsegment', ← hy]
    rfl
  | cons q qs ih =>
    obtain ⟨⟨bins, t, post⟩, hsegment, hd⟩ := Option.bind_eq_some_iff.mp hd
    obtain ⟨z, hz, hy⟩ := Option.map_eq_some_iff.mp hd
    obtain ⟨t', ht', hsegment'⟩ := decodeSegment_congr h (hqs q List.mem_cons_self) hsegment
    have hrest := ih ht' (fun q' hq' => hqs q' (List.mem_cons_of_mem _ hq')) hz
    rw [decodeSlice, hsegment', Option.bind_some, hrest, ← hy]
    rfl

theorem requestFits_of_allowed {calls : List CabacCall}
    (h : ∀ c ∈ calls, c.Allowed ctxCount) :
    ∀ r ∈ (binsOf calls).map Prod.fst, RequestFits ctxCount r := by
  intro r hr c hc
  obtain ⟨x, hx, rfl⟩ := List.mem_map.mp hr
  have hallowed := binAllowed_of_mem_binsOf h x hx
  rw [hc] at hallowed
  exact hallowed

end Contexts

/-- A frame as the encoder codes it: the coder and the contexts it starts with, what the bitstream
holds already, the macroblocks, and the units that x264 hands out around the chunks. -/
structure CodedFrame where
  cabac : Cabac
  table : Fin 1024 → ℤ × ℤ
  ctxCount : ℕ
  iFrame : ℕ
  bs : List UInt8
  mbs : ℕ → MbWrite ctxCount
  isIdr : Bool
  ref : NalPriority
  encoder : H264Encoder
  before : List X264Nal
  after : List X264Nal
  sei : ∀ u ∈ before ++ after, u.iType = .sei

/-- `h->sh.i_qp` of every slice, which the contexts are set up for. -/
def drhSliceQp : ℕ := 32

namespace CodedFrame

def start (f : CodedFrame) (iQp : ℕ) : Cabac :=
  (f.cabac.contextInit f.table f.ctxCount iQp).encodeInit f.bs

/-- What the bitstream holds after the frame. -/
def bitstream (f : CodedFrame) : List UInt8 :=
  (((f.start drhSliceQp).afterMb f.iFrame f.mbs iLastMb).encodeFlush f.iFrame).buf

def groups (f : CodedFrame) : List PcmSegment × List CabacCall := segmentsOf f.mbs iLastMb

/-- The symbols and samples that are asked for, without their values. -/
def layout (f : CodedFrame) : SliceLayout :=
  ⟨f.table, f.groups.1.map PcmSegment.request, (binsOf f.groups.2).map Prod.fst⟩

/-- The symbols and samples that were coded. -/
def content (f : CodedFrame) : List (List Bool × List UInt8) × List Bool × List UInt8 :=
  (f.groups.1.map PcmSegment.content, (binsOf f.groups.2).map Prod.snd, [])

/-- The frame that `Encode` hands to the dump: the bytes that its chunks point to. -/
def encoded (f : CodedFrame) : Option DumpedFrame := do
  let units ← sliceWrite (Cabac.frame
    (midSlice_encodeInit f.cabac f.table f.ctxCount drhSliceQp f.bs) f.iFrame f.mbs)
    f.isIdr f.ref f.bs.length
  match f.encoder.encode (f.before ++ units ++ f.after) with
  | .error _ => none
  | .ok e => some ⟨Vector.ofFn fun i => chunkBytes f.bitstream (e.chunks i), f.isIdr⟩

theorem encoded_spec (f : CodedFrame) : ∃ d, f.encoded = some d ∧ d.isIdr = f.isIdr ∧
    d.payload.getLast? ≠ some 0 ∧
    ∀ slice, slice.qp = 32 → slice.data = d.payload →
      f.layout.decode slice = some f.content := by
  obtain ⟨units, e, data, hunits, -, he, -, -, -, hpieces, hlast, hdecode⟩ :=
    frame_chunks_data f.cabac f.table f.ctxCount drhSliceQp f.iFrame f.bs f.mbs f.isIdr f.ref
      f.encoder f.before f.after f.sei
  have hencoded : f.encoded =
      some ⟨Vector.ofFn fun i => chunkBytes f.bitstream (e.chunks i), f.isIdr⟩ := by
    rw [encoded, hunits]
    change (match f.encoder.encode (f.before ++ units ++ f.after) with
      | .error _ => none
      | .ok e => _) = _
    rw [he]
  have hpayload : (Vector.ofFn fun i => chunkBytes f.bitstream (e.chunks i)).toList.flatten =
      data := by
    rw [Vector.toList_ofFn, ← hpieces, List.flatMap_def, List.map_ofFn]
    rfl
  refine ⟨_, hencoded, rfl, ?_, ?_⟩
  · rw [DumpedFrame.payload, hpayload]
    exact hlast
  · intro slice hqp hdata
    have hpost := hdecode []
    rw [List.append_nil, ← hpayload] at hpost
    obtain ⟨hsegs, hcalls⟩ := groupsAllowed_segmentsOf f.mbs iLastMb
    have hagree : ContextsAgree f.ctxCount (f.start drhSliceQp).state
        fun c => cabacContext (f.table c).1 (f.table c).2 drhSliceQp := fun c hc => if_pos hc
    have hrequests : ∀ q ∈ f.layout.segments, ∀ r ∈ q.1, RequestFits f.ctxCount r := by
      intro q hq
      obtain ⟨seg, hseg, rfl⟩ := List.mem_map.mp hq
      exact requestFits_of_allowed (hsegs seg hseg)
    rw [SliceLayout.decode, hqp, hdata]
    exact decodeSlice_congr hagree hrequests (requestFits_of_allowed hcalls) hpost

end CodedFrame

variable {fs : List CodedFrame}

/-- Every frame is coded, and its slice is decoded whatever number it has. -/
theorem exists_encoded (fs : List CodedFrame) : ∃ ds, fs.mapM CodedFrame.encoded = some ds ∧
    (∀ d ∈ ds, d.payload.getLast? ≠ some 0) ∧
    ∀ prev, List.Forall₂
      (fun f slice => slice.isIdr = f.isIdr ∧ f.layout.decode slice = some f.content)
      fs (sliceInfos prev ds) := by
  induction fs with
  | nil => exact ⟨[], rfl, (fun _ hd => nomatch hd), fun _ => List.Forall₂.nil⟩
  | cons f fs ih =>
    obtain ⟨ds, hds, hlast, hdecode⟩ := ih
    obtain ⟨d, hd, hidr, hdlast, hddecode⟩ := f.encoded_spec
    refine ⟨d :: ds, ?_, ?_, ?_⟩
    · rw [List.mapM_cons, hd, hds]
      rfl
    · intro d' hd'
      rcases List.mem_cons.mp hd' with rfl | hd'
      · exact hdlast
      · exact hlast d' hd'
    · intro prev
      exact List.Forall₂.cons ⟨hidr, hddecode _ rfl rfl⟩ (hdecode _)

/-- Frames of any macroblocks, coded, cut into chunks and dumped: a decoder that has the file, the
frame number before it and the layout of each slice finds in every slice the symbols and samples
that were coded. -/
theorem dump_file_decodes (n : UInt32) (fs : List CodedFrame) :
    ∃ ds file slices, fs.mapM CodedFrame.encoded = some ds ∧ dumpFile n ds = .ok file ∧
      readStream (n.toNat % 256) file = some (⟨8, 54, 30, 854, 480⟩, ⟨true, 32, true⟩, slices) ∧
      List.Forall₂
        (fun f slice => slice.isIdr = f.isIdr ∧ f.layout.decode slice = some f.content)
        fs slices := by
  obtain ⟨ds, hds, hlast, hdecode⟩ := exists_encoded fs
  exact ⟨ds, _, _, hds, dumpFile_eq n ds, readStream_frames n hlast, hdecode _⟩

/-- A macroblock that is not coded, all of it grey. -/
def greyMb : MbWrite 460 := { skippedMb with samples := some (List.replicate 384 128) }

/-- A frame that starts with a grey macroblock, and goes on with macroblocks of one symbol. -/
def sampleFrame (isIdr : Bool) : CodedFrame where
  cabac := .fresh
  table := fun _ => (0, 64)
  ctxCount := 460
  iFrame := 7
  bs := [0, 0, 0, 1, 0x65]
  mbs k := if k = 0 then greyMb else skippedMb
  isIdr := isIdr
  ref := .high
  encoder := ⟨fun _ => (0, 7), 5, true⟩
  before := [⟨.disposable, .sei, 0, 40, 0⟩]
  after := []
  sei := by decide

/-- An IDR picture and one that follows it. -/
theorem dump_file_decodes_sample : ∃ ds file slices,
    [sampleFrame true, sampleFrame false].mapM CodedFrame.encoded = some ds ∧
      dumpFile 12 ds = .ok file ∧
      readStream 12 file = some (⟨8, 54, 30, 854, 480⟩, ⟨true, 32, true⟩, slices) ∧
      List.Forall₂
        (fun f slice => slice.isIdr = f.isIdr ∧ f.layout.decode slice = some f.content)
        [sampleFrame true, sampleFrame false] slices :=
  dump_file_decodes 12 [sampleFrame true, sampleFrame false]

end Pc2Drc
