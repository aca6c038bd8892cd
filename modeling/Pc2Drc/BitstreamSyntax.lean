import Pc2Drc.BitstreamGolomb
import Pc2Drc.CabacStream

/-! Syntax elements written with the bit writer and read back from the bytes, and the samples of an
`I_PCM` macroblock. -/
namespace Pc2Drc
open Lib

variable {w : WordSize} {before : List UInt8}

/-- A syntax element and the call that writes it. -/
inductive SyntaxElement
  | u (count v : ℕ)
  | u32 (v : ℕ)
  | flag (b : Bool)
  | ueBig (v : ℕ)
  | ue (v : ℕ)
  | se (z : ℤ)
  | te (x v : ℕ)
  deriving DecidableEq, Repr

/-- What a reader knows of an element beforehand. -/
inductive SyntaxKind
  | u (count : ℕ)
  | ue
  | se
  | te (x : ℕ)
  deriving DecidableEq, Repr

namespace SyntaxElement

def call : SyntaxElement → BsCall
  | u count v => .write count v
  | u32 v => .write32 v
  | flag b => .write1 b.toNat
  | ueBig v => .ueBig v
  | ue v => .ue v
  | se z => .se z
  | te x v => .te x v

def kind : SyntaxElement → SyntaxKind
  | u count _ => .u count
  | u32 _ => .u 32
  | flag _ => .u 1
  | ueBig _ => .ue
  | ue _ => .ue
  | se _ => .se
  | te x _ => .te x

def value : SyntaxElement → ℤ
  | u _ v => v
  | u32 v => v
  | flag b => b.toNat
  | ueBig v => v
  | ue v => v
  | se z => z
  | te _ v => v

/-- The cost that the decisions of the encoder reckon with. -/
def size : SyntaxElement → ℕ
  | u count _ => count
  | u32 _ => 32
  | flag _ => 1
  | ueBig v => Bs.sizeUeBig v
  | ue v => Bs.sizeUe v
  | se z => Bs.sizeSe z
  | te x v => Bs.sizeTe x v

/-- The ranges of the calls; a truncated code also has to stay within its bound. -/
def InRange : SyntaxElement → Prop
  | te x v => v ≤ x ∧ v < 255
  | e => e.call.InRange

/-- `bs_size_ue_big` stops at two bytes. -/
def Sized : SyntaxElement → Prop
  | ueBig v => v + 1 < 2 ^ 16
  | _ => True

/-- The bits of the element. -/
def bits : SyntaxElement → List Bool
  | u count v => bitsOfNat count v
  | u32 v => bitsOfNat 32 v
  | flag b => [b]
  | ueBig v => ueBits v
  | ue v => ueBits v
  | se z => seBits z
  | te x v => teBits x v

end SyntaxElement

def readElement : SyntaxKind → List Bool → Option (ℤ × List Bool)
  | .u count, l => (readBits count l).map fun r => ((r.1 : ℤ), r.2)
  | .ue, l => (readUe l).map fun r => ((r.1 : ℤ), r.2)
  | .se, l => readSe l
  | .te x, l => (readTe x l).map fun r => ((r.1 : ℤ), r.2)

def readElements : List SyntaxKind → List Bool → Option (List ℤ × List Bool)
  | [], l => some ([], l)
  | k :: ks, l => (readElement k l).bind fun r =>
      (readElements ks r.2).map fun rs => (r.1 :: rs.1, rs.2)

variable {e : SyntaxElement} {elems : List SyntaxElement}

theorem call_inRange (h : e.InRange) : e.call.InRange := by
  cases e with
  | te x v => exact ⟨fun hx => hx ▸ h.1, h.2⟩
  | _ => exact h

theorem code_call (e : SyntaxElement) (n : ℕ) : e.call.code n = e.bits := by
  cases e with
  | flag b => cases b <;> rfl
  | _ => rfl

theorem readElement_bits (h : e.InRange) (rest : List Bool) :
    readElement e.kind (e.bits ++ rest) = some (e.value, rest) := by
  cases e with
  | u count v =>
    rw [SyntaxElement.bits, SyntaxElement.kind, readElement, readBits_bitsOfNat h.2]
    rfl
  | u32 v =>
    rw [SyntaxElement.bits, SyntaxElement.kind, readElement, readBits_bitsOfNat h]
    rfl
  | flag b => cases b <;> rfl
  | ueBig v =>
    rw [SyntaxElement.bits, SyntaxElement.kind, readElement, readUe_ueBits]
    rfl
  | ue v =>
    rw [SyntaxElement.bits, SyntaxElement.kind, readElement, readUe_ueBits]
    rfl
  | se z => exact readSe_seBits z rest
  | te x v =>
    rw [SyntaxElement.bits, SyntaxElement.kind, readElement, readTe_teBits h.1]
    rfl

theorem readElements_bits (h : ∀ e ∈ elems, e.InRange) (rest : List Bool) :
    readElements (elems.map SyntaxElement.kind) (elems.flatMap SyntaxElement.bits ++ rest) =
      some (elems.map SyntaxElement.value, rest) := by
  induction elems with
  | nil => rfl
  | cons e elems ih =>
    rw [List.map_cons, List.flatMap_cons, List.append_assoc, readElements,
      readElement_bits (h e List.mem_cons_self), Option.bind_some,
      ih fun e' he' => h e' (List.mem_cons_of_mem _ he')]
    rfl

theorem codeAll_map_call (b : List Bool) (elems : List SyntaxElement) :
    codeAll b (elems.map SyntaxElement.call) = b ++ elems.flatMap SyntaxElement.bits := by
  induction elems generalizing b with
  | nil => exact (List.append_nil b).symm
  | cons e elems ih =>
    rw [List.map_cons, codeAll, List.foldl_cons, code_call, List.flatMap_cons, ← List.append_assoc]
    exact ih (b ++ e.bits)

theorem sizeUe_eq {v : ℕ} (hv : v < 255) : Bs.sizeUe v = (ueBits v).length := by
  rw [length_ueBits, Bs.sizeUe, ueSize_eq (Nat.succ_ne_zero v) (by omega)]

/-- The sizes that are reckoned with are those of the bits that are written. -/
theorem length_bits_eq_size (h : e.InRange) (hs : e.Sized) : e.bits.length = e.size := by
  cases e with
  | u count v => exact length_bitsOfNat count v
  | u32 v => exact length_bitsOfNat 32 v
  | flag b => rfl
  | ueBig v =>
    have hv : v + 1 < 2 ^ 16 := hs
    rw [SyntaxElement.bits, SyntaxElement.size, Bs.sizeUeBig, length_ueBits]
    split
    · rename_i hlt
      rw [ueSize_eq (Nat.succ_ne_zero v) (by omega)]
    · rename_i hge
      rw [ueSize_shiftRight (by omega) hv]
  | ue v => exact (sizeUe_eq h).symm
  | se z =>
    have hz : Bs.seTmp z < 2 ^ 16 := h
    have hcode := seTmp_eq z
    rw [SyntaxElement.bits, SyntaxElement.size, Bs.sizeSe, seBits, length_ueBits, ← hcode]
    split
    · rename_i hlt
      rw [ueSize_eq (by omega) hlt]
    · rename_i hge
      rw [ueSize_shiftRight (by omega) hz]
  | te x v =>
    rw [SyntaxElement.bits, SyntaxElement.size, Bs.sizeTe, teBits]
    split
    · rfl
    · exact (sizeUe_eq h.2).symm

theorem length_flatMap_bits (h : ∀ e ∈ elems, e.InRange) (hs : ∀ e ∈ elems, e.Sized) :
    (elems.flatMap SyntaxElement.bits).length = (elems.map SyntaxElement.size).sum := by
  induction elems with
  | nil => rfl
  | cons e elems ih =>
    rw [List.flatMap_cons, List.length_append, List.map_cons, List.sum_cons,
      length_bits_eq_size (h e List.mem_cons_self) (hs e List.mem_cons_self),
      ih (fun e' he' => h e' (List.mem_cons_of_mem _ he'))
        fun e' he' => hs e' (List.mem_cons_of_mem _ he')]

/-- A header: its elements and the trailing bits. -/
def headerBytes (w : WordSize) (before : List UInt8) (elems : List SyntaxElement) : List UInt8 :=
  bsBytes w before (elems.map SyntaxElement.call ++ [.rbspTrailing])

theorem bitsOfBytes_headerBytes (hb : before.length < 4) (h : ∀ e ∈ elems, e.InRange) :
    bitsOfBytes (headerBytes w before elems) = bitsOfBytes before ++
      elems.flatMap SyntaxElement.bits ++ true :: List.replicate
        (padding ((bitsOfBytes before ++ elems.flatMap SyntaxElement.bits).length + 1)) false := by
  have hcalls : ∀ c ∈ elems.map SyntaxElement.call ++ [.rbspTrailing], c.InRange := by
    intro c hc
    rcases List.mem_append.mp hc with hc | hc
    · obtain ⟨e, he, rfl⟩ := List.mem_map.mp hc
      exact call_inRange (h e he)
    · rw [List.mem_singleton.mp hc]
      trivial
  have hall : codeAll (bitsOfBytes before) (elems.map SyntaxElement.call ++ [.rbspTrailing]) =
      bitsOfBytes before ++ elems.flatMap SyntaxElement.bits ++ true :: List.replicate
        (padding ((bitsOfBytes before ++ elems.flatMap SyntaxElement.bits).length + 1)) false := by
    rw [← codeAll_map_call, codeAll, List.foldl_append]
    rfl
  rw [headerBytes, bitsOfBytes_bsBytes hb hcalls, hall]
  generalize bitsOfBytes before ++ elems.flatMap SyntaxElement.bits = l
  have hpad : padding (l ++ true :: List.replicate (padding (l.length + 1)) false).length = 0 := by
    rw [List.length_append, List.length_cons, List.length_replicate, Nat.add_comm (padding _) 1,
      ← Nat.add_assoc, padding_add_padding]
  rw [hpad, List.replicate_zero, List.append_nil]

/-- What is written behind any bytes is read back with its values, up to the trailing bits; the
bytes before it stay, and the sizes that the encoder reckons with add up to the bits written, where
`bs_size_ue_big` is asked for no number of more than two bytes. -/
theorem syntax_elements_round_trip (hb : before.length < 4) (h : ∀ e ∈ elems, e.InRange)
    (w : WordSize) :
    ∃ zeros < 8, readElements (elems.map SyntaxElement.kind)
        ((bitsOfBytes (headerBytes w before elems)).drop (8 * before.length)) =
          some (elems.map SyntaxElement.value, true :: List.replicate zeros false) ∧
      (headerBytes w before elems).take before.length = before ∧
      ((∀ e ∈ elems, e.Sized) → 8 * (headerBytes w before elems).length =
        8 * before.length + (elems.map SyntaxElement.size).sum + 1 + zeros) := by
  have hbits := bitsOfBytes_headerBytes (w := w) hb h
  refine ⟨padding ((bitsOfBytes before ++ elems.flatMap SyntaxElement.bits).length + 1),
    Nat.mod_lt _ (by decide), ?_, ?_, ?_⟩
  · rw [hbits, ← length_bitsOfBytes, List.append_assoc, List.drop_left]
    exact readElements_bits h _
  · apply bitsOfBytes_injective
    rw [bitsOfBytes_take, hbits, ← length_bitsOfBytes, List.append_assoc, List.take_left]
  · intro hs
    have hlen := congrArg List.length hbits
    rw [length_bitsOfBytes] at hlen
    rw [hlen, List.length_append, List.length_append, length_bitsOfBytes,
      length_flatMap_bits h hs, List.length_cons, List.length_replicate, padding]
    omega

/-- From an address that four does not divide, with a number of the most bits that have a size. -/
theorem syntax_elements_round_trip_sample : ∃ zeros < 8,
    readElements [.ue, .u 8, .se, .te 1]
      ((bitsOfBytes (headerBytes .four [1, 2, 3] [.ueBig 60000, .u 8 200, .se (-3), .te 1 1])).drop
        24) = some ([60000, 200, -3, 1], true :: List.replicate zeros false) ∧
      8 * (headerBytes .four [1, 2, 3] [.ueBig 60000, .u 8 200, .se (-3), .te 1 1]).length =
        24 + (31 + 8 + 5 + 1) + 1 + zeros := by
  have h : ∀ e ∈ [SyntaxElement.ueBig 60000, .u 8 200, .se (-3), .te 1 1], e.InRange := by
    intro e he
    simp only [List.mem_cons, List.not_mem_nil, or_false] at he
    rcases he with rfl | rfl | rfl | rfl
    · exact (by decide : 60000 + 1 < 2 ^ 31)
    · exact (by decide : 8 ≤ 31 ∧ 200 < 2 ^ 8)
    · exact (by decide : Bs.seTmp (-3) < 2 ^ 16)
    · exact (by decide : 1 ≤ 1 ∧ 1 < 255)
  have hs : ∀ e ∈ [SyntaxElement.ueBig 60000, .u 8 200, .se (-3), .te 1 1], e.Sized := by
    intro e he
    simp only [List.mem_cons, List.not_mem_nil, or_false] at he
    rcases he with rfl | rfl | rfl | rfl
    · exact (by decide : 60000 + 1 < 2 ^ 16)
    · trivial
    · trivial
    · trivial
  obtain ⟨zeros, hlt, hread, _, hsize⟩ := syntax_elements_round_trip
    (by decide : ([1, 2, 3] : List UInt8).length < 4) h .four
  exact ⟨zeros, hlt, hread, hsize hs⟩

def sampleCalls (samples : List UInt8) : List BsCall := samples.map fun c => .write 8 c.toNat

theorem codeAll_sampleCalls (b : List Bool) (samples : List UInt8) :
    codeAll b (sampleCalls samples) = b ++ bitsOfBytes samples := by
  induction samples generalizing b with
  | nil => exact (List.append_nil b).symm
  | cons c samples ih =>
    rw [bitsOfBytes_cons, ← List.append_assoc]
    exact ih (b ++ bitsOfNat 8 c.toNat)

/-- Samples behind bytes that do not fill a word. -/
theorem bsBytes_samples (hb : before.length < 4) (samples : List UInt8) :
    bsBytes w before (sampleCalls samples) = before ++ samples := by
  have hcalls : ∀ c ∈ sampleCalls samples, c.InRange := by
    intro c hc
    obtain ⟨x, _, rfl⟩ := List.mem_map.mp hc
    exact ⟨by decide, x.toNat_lt⟩
  have hpad : padding (8 * (before ++ samples).length) = 0 := by
    unfold padding
    omega
  apply bitsOfBytes_injective
  rw [bitsOfBytes_bsBytes hb hcalls, codeAll_sampleCalls, ← bitsOfBytes_append, length_bitsOfBytes,
    hpad, List.replicate_zero, List.append_nil]

/-- The samples of an `I_PCM` macroblock as they are written: the writer begins at the coder's `p`
and takes back the `offset` bytes between it and the last address that four divides. -/
def Cabac.writePcm (w : WordSize) (cb : Cabac) (iFrame offset : ℕ) (samples : List UInt8) : Cabac :=
  let cb := cb.encodeFlush iFrame
  let start := cb.buf.length - offset
  { cb with buf := cb.buf.take start ++
      bsBytes w (cb.buf.drop start) (sampleCalls samples) }.encodeInitCore

/-- Wherever the coder stopped, the samples follow as they are. -/
theorem writePcm_eq_encodePcm (w : WordSize) (cb : Cabac) (iFrame : ℕ) (samples : List UInt8)
    {offset : ℕ} (h : offset < 4) :
    cb.writePcm w iFrame offset samples = cb.encodePcm iFrame samples := by
  have hdrop : ((cb.encodeFlush iFrame).buf.drop
      ((cb.encodeFlush iFrame).buf.length - offset)).length < 4 := by
    rw [List.length_drop]
    omega
  rw [Cabac.writePcm, Cabac.encodePcm]
  simp only [bsBytes_samples hdrop, ← List.append_assoc, List.take_append_drop]

theorem writePcm_eq_encodePcm_unaligned :
    (Cabac.fresh.encodeInit [0x65, 1]).writePcm .four 0 3 [7, 8] =
      (Cabac.fresh.encodeInit [0x65, 1]).encodePcm 0 [7, 8] :=
  writePcm_eq_encodePcm .four _ 0 [7, 8] (by decide)

end Pc2Drc
