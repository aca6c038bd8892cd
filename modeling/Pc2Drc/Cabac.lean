import Pc2Drc.Lib.ArithmeticCoder
import Mathlib.Data.List.ModifyLast

/-! The CABAC coder of the encoder: a 9-bit interval register, a queue of bits that are not written
yet, and bytes 0xff that are held back because a carry can still pass through them. -/
namespace Pc2Drc

open Lib

/-- `x264_cabac_range_lps`. -/
def rangeLps : List (List ℕ) :=
  [[2, 2, 2, 2], [6, 7, 8, 9], [6, 7, 9, 10], [6, 8, 9, 11],
    [7, 8, 10, 11], [7, 9, 10, 12], [7, 9, 11, 12], [8, 9, 11, 13],
    [8, 10, 12, 14], [9, 11, 12, 14], [9, 11, 13, 15], [10, 12, 14, 16],
    [10, 12, 15, 17], [11, 13, 15, 18], [11, 14, 16, 19], [12, 14, 17, 20],
    [12, 15, 18, 21], [13, 16, 19, 22], [14, 17, 20, 23], [14, 18, 21, 24],
    [15, 19, 22, 25], [16, 20, 23, 27], [17, 21, 25, 28], [18, 22, 26, 30],
    [19, 23, 27, 31], [20, 24, 29, 33], [21, 26, 30, 35], [22, 27, 32, 37],
    [23, 28, 33, 39], [24, 30, 35, 41], [26, 31, 37, 43], [27, 33, 39, 45],
    [29, 35, 41, 48], [30, 37, 43, 50], [32, 39, 46, 53], [33, 41, 48, 56],
    [35, 43, 51, 59], [37, 45, 54, 62], [39, 48, 56, 65], [41, 50, 59, 69],
    [43, 53, 63, 72], [46, 56, 66, 76], [48, 59, 69, 80], [51, 62, 73, 85],
    [53, 65, 77, 89], [56, 69, 81, 94], [59, 72, 86, 99], [62, 76, 90, 104],
    [66, 80, 95, 110], [69, 85, 100, 116], [73, 89, 105, 122], [77, 94, 111, 128],
    [81, 99, 117, 135], [85, 104, 123, 142], [90, 110, 130, 150], [95, 116, 137, 158],
    [100, 122, 144, 166], [105, 128, 152, 175], [111, 135, 160, 185], [116, 142, 169, 195],
    [123, 150, 178, 205], [128, 158, 187, 216], [128, 167, 197, 227], [128, 176, 208, 240]]

/-- `x264_cabac_transition`. -/
def transition : List (ℕ × ℕ) :=
  [(0, 0), (1, 1), (2, 50), (51, 3), (2, 50), (51, 3), (4, 52), (53, 5),
    (6, 52), (53, 7), (8, 52), (53, 9), (10, 54), (55, 11), (12, 54), (55, 13),
    (14, 54), (55, 15), (16, 56), (57, 17), (18, 56), (57, 19), (20, 56), (57, 21),
    (22, 58), (59, 23), (24, 58), (59, 25), (26, 60), (61, 27), (28, 60), (61, 29),
    (30, 60), (61, 31), (32, 62), (63, 33), (34, 62), (63, 35), (36, 64), (65, 37),
    (38, 66), (67, 39), (40, 66), (67, 41), (42, 66), (67, 43), (44, 68), (69, 45),
    (46, 68), (69, 47), (48, 70), (71, 49), (50, 72), (73, 51), (52, 72), (73, 53),
    (54, 74), (75, 55), (56, 74), (75, 57), (58, 76), (77, 59), (60, 78), (79, 61),
    (62, 78), (79, 63), (64, 80), (81, 65), (66, 82), (83, 67), (68, 82), (83, 69),
    (70, 84), (85, 71), (72, 84), (85, 73), (74, 88), (89, 75), (76, 88), (89, 77),
    (78, 90), (91, 79), (80, 90), (91, 81), (82, 94), (95, 83), (84, 94), (95, 85),
    (86, 96), (97, 87), (88, 96), (97, 89), (90, 100), (101, 91), (92, 100), (101, 93),
    (94, 102), (103, 95), (96, 104), (105, 97), (98, 104), (105, 99), (100, 108), (109, 101),
    (102, 108), (109, 103), (104, 110), (111, 105), (106, 112), (113, 107), (108, 114), (115, 109),
    (110, 116), (117, 111), (112, 118), (119, 113), (114, 118), (119, 115), (116, 122), (123, 117),
    (118, 122), (123, 119), (120, 124), (125, 121), (122, 126), (127, 123), (124, 127), (126, 125)]

/-- `x264_cabac_renorm_shift`. -/
def renormShift : List ℕ :=
  [6, 5, 4, 4, 3, 3, 3, 3, 2, 2, 2, 2, 2, 2, 2, 2,
    1, 1, 1, 1, 1, 1, 1, 1, 1, 1, 1, 1, 1, 1, 1, 1,
    0, 0, 0, 0, 0, 0, 0, 0, 0, 0, 0, 0, 0, 0, 0, 0,
    0, 0, 0, 0, 0, 0, 0, 0, 0, 0, 0, 0, 0, 0, 0, 0]

def bypassLut : List ℤ :=
  [-1, 0x2, 0x14, 0x68, 0x1d0, 0x7a0, 0x1f40, 0x7e80, 0x1fd00, 0x7fa00, 0x1ff400, 0x7fe800,
    0x1ffd000, 0x7ffa000, 0x1fff4000, 0x7ffe8000]

def rangeLpsAt (iState iRange : ℕ) : ℕ :=
  (rangeLps.getD (iState >>> 1) []).getD ((iRange >>> 6) - 4) 0

def transitionAt (iState : ℕ) (b : Bool) : ℕ :=
  let row := transition.getD iState (0, 0)
  if b then row.2 else row.1

def renormShiftAt (iRange : ℕ) : ℕ :=
  renormShift.getD (iRange >>> 3) 0

/-- `x264_cabac_t`. The memory up to `p` is kept as a list, so `p` is its length, and `p_start` is
an index into it. -/
structure Cabac where
  iLow : ℕ
  iRange : ℕ
  iQueue : ℤ
  iBytesOutstanding : ℕ
  pStart : ℕ
  buf : List UInt8
  state : Fin 1024 → ℕ

namespace Cabac

def encodeInitCore (cb : Cabac) : Cabac :=
  { cb with iLow := 0, iRange := 0x1FE, iQueue := -9, iBytesOutstanding := 0 }

/-- `x264_cabac_encode_init`, after what the bitstream holds. -/
def encodeInit (cb : Cabac) (bs : List UInt8) : Cabac :=
  { cb.encodeInitCore with pStart := bs.length, buf := bs }

/-- `cb->p[-1] += carry`, the held back bytes, and the new one. -/
def writeOut (cb : Cabac) (out : ℕ) : Cabac :=
  let carry := UInt8.ofNat (out >>> 8)
  { cb with
    buf := cb.buf.modifyLast (· + carry) ++ List.replicate cb.iBytesOutstanding (carry - 1) ++
      [UInt8.ofNat out]
    iBytesOutstanding := 0 }

def putbyte (cb : Cabac) : Cabac :=
  if 0 ≤ cb.iQueue then
    let queue := cb.iQueue.toNat
    let out := cb.iLow >>> (queue + 10)
    let cb := { cb with iLow := cb.iLow &&& ((0x400 <<< queue) - 1), iQueue := cb.iQueue - 8 }
    if out &&& 0xff = 0xff then { cb with iBytesOutstanding := cb.iBytesOutstanding + 1 }
    else cb.writeOut out
  else cb

def encodeRenorm (cb : Cabac) : Cabac :=
  let shift := renormShiftAt cb.iRange
  { cb with
    iRange := cb.iRange <<< shift
    iLow := cb.iLow <<< shift
    iQueue := cb.iQueue + shift }.putbyte

def encodeDecision (cb : Cabac) (iCtx : Fin 1024) (b : Bool) : Cabac :=
  let iState := cb.state iCtx
  let iRangeLps := rangeLpsAt iState cb.iRange
  let iRange := cb.iRange - iRangeLps
  let cb :=
    if b.toNat ≠ iState &&& 1 then { cb with iLow := cb.iLow + iRange, iRange := iRangeLps }
    else { cb with iRange := iRange }
  { cb with state := Function.update cb.state iCtx (transitionAt iState b) }.encodeRenorm

/-- The parameter of the source is 0 or -1. -/
def encodeBypass (cb : Cabac) (b : Bool) : Cabac :=
  { cb with
    iLow := (cb.iLow <<< 1) + if b then cb.iRange else 0
    iQueue := cb.iQueue + 1 }.putbyte

/-- The loop of `x264_cabac_encode_ue_bypass`; `fuel` bounds its rounds. -/
def encodeUeBypassLoop (x : ℕ) : ℕ → ℕ → ℕ → Cabac → Cabac
  | 0, _, _, cb => cb
  | fuel + 1, k, i, cb =>
    let k := k - i
    let cb := putbyte { cb with
      iLow := (cb.iLow <<< i) + ((x >>> k) &&& 0xff) * cb.iRange
      iQueue := cb.iQueue + i }
    if 0 < k then encodeUeBypassLoop x fuel k 8 cb else cb

def encodeUeBypass (cb : Cabac) (expBits val : ℕ) : Cabac :=
  let v := val + (1 <<< expBits)
  let k := v.log2
  let x := ((bypassLut.getD (k - expBits) 0 * 2 ^ expBits + v) % 2 ^ 32).toNat
  let k := 2 * k + 1 - expBits
  encodeUeBypassLoop x k k (((k - 1) &&& 7) + 1) cb

def encodeTerminal (cb : Cabac) : Cabac :=
  { cb with iRange := cb.iRange - 2 }.encodeRenorm

/-- The bit that ends the last byte, from the number of the frame. -/
def flushBit (iFrame : ℕ) : ℕ :=
  (0x35a4e4f5 >>> (iFrame &&& 31)) &&& 1

def encodeFlush (cb : Cabac) (iFrame : ℕ) : Cabac :=
  let cb := { cb with
    iLow := ((cb.iLow + (cb.iRange - 2)) ||| 1) <<< 9
    iQueue := cb.iQueue + 9 }
  let cb := cb.putbyte.putbyte
  let cb := { cb with
    iLow := (cb.iLow <<< (-cb.iQueue).toNat) ||| (flushBit iFrame <<< 10)
    iQueue := 0 }
  let cb := cb.putbyte
  { cb with
    buf := cb.buf ++ List.replicate cb.iBytesOutstanding 0xff
    iBytesOutstanding := 0 }

/-- `x264_cabac_pos`. -/
def pos (cb : Cabac) : ℤ :=
  ((cb.buf.length - cb.pStart + cb.iBytesOutstanding : ℕ) : ℤ) * 8 + cb.iQueue

/-- `cabac_size_bytes`. -/
def sizeBytes (cb : Cabac) : ℕ :=
  cb.buf.length - cb.pStart + cb.iBytesOutstanding

end Cabac

/-- `x264_clip3`. -/
def clip3 (v iMin iMax : ℤ) : ℤ :=
  if v < iMin then iMin else if v > iMax then iMax else v

/-- An entry of `x264_cabac_contexts`, from a pair of the tables of initial values. -/
def cabacContext (m n : ℤ) (qp : ℕ) : ℕ :=
  let state := (clip3 (((m * qp) >>> (4 : ℕ)) + n) 1 126).toNat
  (min state (127 - state) <<< 1) ||| (state >>> 6)

/-- `x264_cabac_context_init`, with the table of the slice's type; only the first `ctxCount`
contexts are set. -/
def Cabac.contextInit (cb : Cabac) (table : Fin 1024 → ℤ × ℤ) (ctxCount iQp : ℕ) : Cabac :=
  { cb with
    state := fun c =>
      if c < ctxCount then cabacContext (table c).1 (table c).2 iQp else cb.state c }

end Pc2Drc
