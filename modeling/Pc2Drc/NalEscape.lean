import Pc2Drc.Lib.Buffer
import Pc2Drc.Lib.StartCode
import Pc2Drc.Packetization

/-! The dump of an encoded frame: `NalEscape` copies the slice into a buffer of twice its size and
puts in the bytes that keep start codes out of it. -/
namespace Pc2Drc

open Lib

variable {n : ℕ}

/-- The loop of `NalEscape`; `dst` is kept as the index `i` into the buffer. -/
def nalEscapeLoop (dst : Buffer n) (i : ℕ) : List UInt8 → Except Fault (Buffer n × ℕ)
  | [] => .ok (dst, i)
  | b :: src =>
    if b ≤ 0x03 ∧ dst.get (i - 2) = 0 ∧ dst.get (i - 1) = 0 then do
      let dst ← dst.store i 0x03
      let dst ← dst.store (i + 1) b
      nalEscapeLoop dst (i + 2) src
    else do
      let dst ← dst.store i b
      nalEscapeLoop dst (i + 1) src

/-- The buffer after the call, and the number of bytes written to it. -/
def nalEscape (dst : Buffer n) : List UInt8 → Except Fault (Buffer n × ℕ)
  | [] => .ok (dst, 0)
  | [a] => do
    let dst ← dst.store 0 a
    return (dst, 1)
  | a :: b :: src => do
    let dst ← dst.store 0 a
    let dst ← dst.store 1 b
    nalEscapeLoop dst 2 src

def nalStartCode : List UInt8 := [0x00, 0x00, 0x00, 0x01]

def nalIdrFrame : List UInt8 := [0x25, 0xb8, 0x04, 0xff]

def nalPFrame (frameNumber : UInt32) : List UInt8 :=
  [0x21, (0xe0 : UInt8) ||| (frameNumber >>> 3).toUInt8,
    (0x03 : UInt8) ||| (frameNumber <<< 5).toUInt8, 0xff]

/-- `frame_number` after the call and the bytes written to the file. -/
def dumpH264Frame (frameNumber : UInt32) (chunks : H264ChunkArray) (isIdr : Bool) :
    Except Fault (UInt32 × List UInt8) := do
  let frameNumber := if isIdr then 0 else (frameNumber + 1) &&& 0xFF
  let header := if isIdr then nalIdrFrame else nalPFrame frameNumber
  let nalLength := (chunks.toList.map List.length).sum
  let unescaped := chunks.toList.flatten
  let (escaped, escapedSize) ← nalEscape (Buffer.zeros (2 * nalLength)) unescaped
  return (frameNumber, nalStartCode ++ header ++ escaped.bytes.take escapedSize)

/-- What a call that stores `out` from index `i` on returns. -/
def storedAt (dst : Buffer n) (i : ℕ) (out : List UInt8) : Except Fault (Buffer n × ℕ) :=
  (dst.memcpy i out).map fun dst' => (dst', i + out.length)

theorem storedAt_cons (dst : Buffer n) (i : ℕ) (b : UInt8) (out : List UInt8) :
    storedAt dst i (b :: out) = (dst.store i b >>= fun dst' => storedAt dst' (i + 1) out) := by
  rw [storedAt, Buffer.memcpy_cons]
  cases dst.store i b with
  | error e => rfl
  | ok dst' =>
    have hlen : i + (b :: out).length = i + 1 + out.length := by
      simp only [List.length_cons]
      omega
    simp only [storedAt, hlen]
    rfl

/-- A call that stores one byte and goes on. -/
theorem store_bind_eq {dst : Buffer n} {i : ℕ} {b : UInt8} {out : List UInt8}
    {next : Buffer n → Except Fault (Buffer n × ℕ)}
    (h : i < n → next (dst.set i b) = storedAt (dst.set i b) (i + 1) out) :
    (dst.store i b >>= next) = storedAt dst i (b :: out) := by
  rw [storedAt_cons]
  apply bind_congr_ok
  intro dst' hstore
  obtain ⟨hin, rfl⟩ := Buffer.store_eq_ok.mp hstore
  exact h hin

/-- The two bytes behind the index are the ones the next byte is checked against. -/
theorem nalEscapeLoop_eq (src : List UInt8) {dst : Buffer n} {i : ℕ} (hlow : 2 ≤ i) (hi : i ≤ n) :
    nalEscapeLoop dst i src =
      storedAt dst i (escapeFrom (dst.get (i - 2)) (dst.get (i - 1)) src) := by
  induction src generalizing dst i with
  | nil =>
    rw [escapeFrom, storedAt, Buffer.memcpy_nil hi]
    rfl
  | cons b src ih =>
    rw [nalEscapeLoop, escapeFrom]
    split
    · apply store_bind_eq
      intro hin
      apply store_bind_eq
      intro hin'
      rw [ih (by omega) hin', show i + 2 - 2 = i by omega, show i + 2 - 1 = i + 1 by omega,
        Buffer.get_set_self hin', Buffer.get_set_of_ne (by omega), Buffer.get_set_self hin]
    · apply store_bind_eq
      intro hin
      have hnext : i + 1 ≤ n := hin
      rw [ih (by omega) hnext, show i + 1 - 2 = i - 1 by omega, Nat.add_sub_cancel,
        Buffer.get_set_self hin, Buffer.get_set_of_ne (by omega)]

theorem nalEscape_eq (dst : Buffer n) (src : List UInt8) :
    nalEscape dst src = storedAt dst 0 (escape src) := by
  cases src with
  | nil =>
    rw [escape, storedAt, Buffer.memcpy_nil (Nat.zero_le n)]
    rfl
  | cons a src =>
    cases src with
    | nil =>
      apply store_bind_eq
      intro hin
      rw [storedAt, Buffer.memcpy_nil hin]
      rfl
    | cons b src =>
      apply store_bind_eq
      intro hin
      apply store_bind_eq
      intro hin'
      rw [nalEscapeLoop_eq src (le_refl 2) hin', Buffer.get_set_self hin',
        Buffer.get_set_of_ne (by omega), Buffer.get_set_self hin]

theorem storedAt_zero_of_fits {dst : Buffer n} {out : List UInt8} (h : out.length ≤ n) :
    ∃ dst', storedAt dst 0 out = .ok (dst', out.length) ∧ dst'.bytes.take out.length = out := by
  have hfits : 0 + out.length ≤ n := by omega
  obtain ⟨dst', hcopy⟩ := Buffer.memcpy_ok (b := dst) hfits
  refine ⟨dst', ?_, ?_⟩
  · rw [storedAt, hcopy, Nat.zero_add]
    rfl
  · rw [(Buffer.memcpy_eq_ok.mp hcopy).2]
    simp [blit]

theorem nalEscape_of_fits (dst : Buffer n) {src : List UInt8} (h : (escape src).length ≤ n) :
    ∃ dst', nalEscape dst src = .ok (dst', (escape src).length) ∧
      dst'.bytes.take (escape src).length = escape src := by
  rw [nalEscape_eq]
  exact storedAt_zero_of_fits h

def nextFrameNumber (n : UInt32) (isIdr : Bool) : UInt32 := if isIdr then 0 else (n + 1) &&& 0xFF

/-- The bytes between the start code and the slice. -/
def frameHeader (n : UInt32) (isIdr : Bool) : List UInt8 :=
  if isIdr then nalIdrFrame else nalPFrame n

/-- The buffer of a dump holds the escaped slice, whatever the chunks are. -/
theorem dumpH264Frame_bytes (n : UInt32) (chunks : H264ChunkArray) (isIdr : Bool) :
    dumpH264Frame n chunks isIdr = .ok (nextFrameNumber n isIdr, nalStartCode ++
      (frameHeader (nextFrameNumber n isIdr) isIdr ++ escape chunks.toList.flatten)) := by
  have hlen := length_escape chunks.toList.flatten
  rw [List.length_flatten] at hlen
  have hfits : (escape chunks.toList.flatten).length ≤ 2 * (chunks.toList.map List.length).sum := by
    omega
  obtain ⟨escaped, hescape, hbytes⟩ := nalEscape_of_fits (Buffer.zeros _) hfits
  simp only [dumpH264Frame, hescape]
  change Except.ok (_, _ ++ escaped.bytes.take _) = _
  rw [hbytes, List.append_assoc]
  rfl

theorem nalEscape_sound (x : List UInt8) :
    ∃ out : List UInt8, NoStartCode out ∧ unescape out = x ∧
      out.length ≤ x.length + x.length / 2 ∧
      (∀ (n : ℕ) (dst : Buffer n), out.length ≤ n →
        ∃ dst', nalEscape dst x = .ok (dst', out.length) ∧ dst'.bytes.take out.length = out) ∧
      ∀ (frameNumber : UInt32) (chunks : H264ChunkArray) (isIdr : Bool),
        chunks.toList.flatten = x →
        ∃ frameNumber' header, dumpH264Frame frameNumber chunks isIdr =
          .ok (frameNumber', nalStartCode ++ header ++ out) := by
  refine ⟨escape x, noStartCode_escape x, unescape_escape x, length_escape x, ?_, ?_⟩
  · intro n dst hfits
    exact nalEscape_of_fits dst hfits
  · rintro frameNumber chunks isIdr rfl
    have hdump := dumpH264Frame_bytes frameNumber chunks isIdr
    rw [← List.append_assoc] at hdump
    exact ⟨_, _, hdump⟩

end Pc2Drc
