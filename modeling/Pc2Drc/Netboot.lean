import Pc2Drc.Lib.Fill
import Pc2Drc.Lib.Tlv

/-! The boot server: the pattern of hardware addresses on its command line, and one turn of its loop
for a datagram on the DHCP port. The reply is written over the request, in the same array. -/
namespace Pc2Drc
open Lib

/-- An `in_addr_t`, in network order. -/
structure InAddr where
  a : UInt8
  b : UInt8
  c : UInt8
  d : UInt8
  deriving DecidableEq, Repr

def InAddr.bytes (x : InAddr) : List UInt8 := [x.a, x.b, x.c, x.d]

def InAddr.zero : InAddr := ⟨0, 0, 0, 0⟩

/-- The bytes of `macpat` that are set; `macskip` is how many of the six are not. -/
abbrev MacPattern := { pat : List UInt8 // pat.length ≤ 6 }

def hexDigit (c : UInt8) : Option UInt8 :=
  if 48 ≤ c ∧ c ≤ 57 then some (c - 48)
  else if 97 ≤ c ∧ c ≤ 102 then some (c - 97 + 10)
  else if 65 ≤ c ∧ c ≤ 70 then some (c - 65 + 10)
  else none

def MacPattern.push (pat : MacPattern) (d : UInt8) : Except Fault MacPattern :=
  if h : pat.1.length < 6 then
    .ok ⟨pat.1 ++ [d], by rw [List.length_append, List.length_singleton]; omega⟩
  else .error .overrun

/-- The loop over `argv[4]`. -/
def macLoop : List UInt8 → MacPattern → Except Fault MacPattern
  | [], pat => .ok pat
  | [c], pat =>
    match hexDigit c with
    | none => .ok pat
    -- The terminator is taken for the second digit, and the loop goes on behind it.
    | some d => do
      let _ ← pat.push (d <<< 4)
      .error .outOfBounds
  | c :: c' :: text, pat =>
    match hexDigit c with
    | none => macLoop (c' :: text) pat
    | some d => do
      let pat ← pat.push (d <<< 4 ||| (hexDigit c').getD 0)
      macLoop text pat

/-- What `main` keeps of its arguments. -/
structure NetbootConfig where
  bc : InAddr
  sc : InAddr
  cc : InAddr
  macpat : MacPattern
  deriving DecidableEq

def NetbootConfig.macskip (c : NetbootConfig) : ℕ := 6 - c.macpat.1.length

def NetbootConfig.ofArgs (bc sc cc : InAddr) (mac : List UInt8) : Except Fault NetbootConfig := do
  let macpat ← macLoop mac ⟨[], by decide⟩
  return ⟨bc, sc, cc, macpat⟩

/-- What the loop over the options has found: the message type, and where the lengths of options 97
and 12 stand. -/
structure OptionScan where
  type : Option UInt8
  pos97 : Option ℕ
  pos12 : Option ℕ
  deriving DecidableEq, Repr

def OptionScan.record (s : OptionScan) (tag first : UInt8) (i : ℕ) : OptionScan where
  type := if tag = 53 then some first else s.type
  pos97 := if tag = 97 then some (i + 1) else s.pos97
  pos12 := if tag = 12 then some (i + 1) else s.pos12

/-- The byte behind the length is read for the message type only. -/
def firstOfType (p : Buffer 1500) (i : ℕ) : Except Fault UInt8 :=
  if p.get i = 53 then p.fetch (i + 2) else .ok 0

/-- Every turn moves `i` on, so `fuel` bounds nothing that the code does not. -/
def scanOptions (p : Buffer 1500) : ℕ → ℕ → OptionScan → Except Fault OptionScan
  | 0, _, s => .ok s
  | fuel + 1, i, s =>
    if i < 1500 then
      if p.get i = 0xff then .ok s
      else if p.get i = 0 then scanOptions p fuel (i + 1) s
      else do
        let first ← firstOfType p i
        let n ← p.fetch (i + 1)
        scanOptions p fuel (i + n.toNat + 2) (s.record (p.get i) first i)
    else .ok s

/-- The bytes that `%.*s` prints. -/
def printString (p : Buffer 1500) : ℕ → ℕ → Except Fault (List UInt8)
  | 0, _ => .ok []
  | limit + 1, i => do
    let c ← p.fetch i
    if c = 0 then return []
    else return c :: (← printString p limit (i + 1))

/-- The name in the line about the request: that of option 12, or else the server name. -/
def requestName (p : Buffer 1500) : Option ℕ → Except Fault (List UInt8)
  | some pos12 => do
    let n ← p.fetch pos12
    printString p n.toNat (pos12 + 1)
  -- No precision: the terminator is met before the limit or not inside the array.
  | none => printString p 1500 44

/-- Where the reply is written: `p` and `i`. -/
structure ReplyCursor where
  p : Buffer 1500
  i : ℕ

namespace ReplyCursor

/-- `p[i++] = …`, byte after byte. -/
def put (w : ReplyCursor) (l : List UInt8) : Except Fault ReplyCursor := do
  let p ← w.p.memcpy w.i l
  return ⟨p, w.i + l.length⟩

/-- An option whose length is filled in at the end, less one for the last byte of the body. -/
def putMeasured (w : ReplyCursor) (tag : UInt8) (body : List UInt8) :
    Except Fault ReplyCursor := do
  let w ← w.put [tag]
  let m := w.i
  let w ← ReplyCursor.put ⟨w.p, w.i + 1⟩ body
  let p ← w.p.store m (UInt8.ofNat (w.i - m - 2))
  return ⟨p, w.i⟩

/-- Option 97 of the request, moved to the front. -/
def echo (w : ReplyCursor) : Option ℕ → Except Fault ReplyCursor
  | none => .ok w
  | some pos97 => do
    let w ← w.put [97]
    let n ← w.p.fetch pos97
    let w ← w.put [n]
    let p ← w.p.copyForward w.i (pos97 + 1) n.toNat
    return ⟨p, w.i + n.toNat⟩

end ReplyCursor

/-- `"PXEClient"` and the texts of the boot options. -/
def vendorClass : List UInt8 := [80, 88, 69, 67, 108, 105, 101, 110, 116]

def clientName : List UInt8 := [112, 120, 101, 99, 108, 105, 101, 110, 116]

def bootFile : List UInt8 := [112, 120, 101, 108, 105, 110, 117, 120, 46, 48]

def ReplyCursor.putBoot (w : ReplyCursor) (type : UInt8) : Except Fault ReplyCursor :=
  if type = 3 then do
    let w ← w.put [1, 4, 255, 0, 0, 0]
    let w ← w.put ([12, 9] ++ clientName)
    w.putMeasured 67 (bootFile ++ [0])
  else .ok w

/-- The body of option 43, without its end mark. -/
def vendorOptions (sc : InAddr) (type : UInt8) : List UInt8 :=
  if type = 1 then [6, 1, 0] ++ [8, 7, 0, 0, 1] ++ sc.bytes else []

namespace NetbootConfig

def replyFields (c : NetbootConfig) (p : Buffer 1500) : Except Fault (Buffer 1500) := do
  let p ← p.store 0 2
  let p ← p.memcpy 12 [0, 0, 0, 0]
  let p ← p.memcpy 16 c.cc.bytes
  p.memcpy 20 c.sc.bytes

/-- The part for messages of type 1 and 3. -/
def reply (c : NetbootConfig) (type : UInt8) (pos97 : Option ℕ) (p : Buffer 1500) :
    Except Fault (List UInt8) := do
  let p ← c.replyFields p
  let w ← ReplyCursor.echo ⟨p, 240⟩ pos97
  let w ← w.put [53, 1, if type = 1 then 2 else 5]
  let w ← w.put [51, 4, 255, 255, 255, 255]
  let w ← w.put ([54, 4] ++ c.sc.bytes)
  let w ← w.put ([60, 9] ++ vendorClass)
  let w ← w.putBoot type
  let w ← w.putMeasured 43 (vendorOptions c.sc type ++ [255])
  let w ← w.put [255]
  return w.p.bytes.take w.i

/-- Whether `memcmp` finds the pattern at the end of the six bytes of the hardware address. -/
def macMatches (c : NetbootConfig) (p : Buffer 1500) : Bool :=
  (p.bytes.drop (28 + c.macskip)).take c.macpat.1.length == c.macpat.1

end NetbootConfig

/-- One turn: what is printed about the request, and what is sent to port 68 of which host. -/
structure NetbootTurn where
  request : Option (UInt8 × List UInt8 × List UInt8)
  matched : Bool
  sent : Option (InAddr × List UInt8)
  deriving DecidableEq, Repr

/-- `p` after `recv`. -/
def received (datagram : List UInt8) : Buffer 1500 where
  bytes := blit (0xff :: List.replicate 1499 0) 0 (datagram.take 1500)
  length_bytes := by
    rw [length_blit]
    · rw [List.length_cons, List.length_replicate]
    · rw [List.length_cons, List.length_replicate, List.length_take]
      omega

/-- `type` is not set before the loop over the options. -/
def initialized (type : Option UInt8) : Except Fault UInt8 :=
  match type with
  | none => .error .indeterminate
  | some t => .ok t

def NetbootConfig.receive (c : NetbootConfig) (datagram : List UInt8) :
    Except Fault NetbootTurn := do
  let p := received datagram
  if p.get 0 = 2 then return ⟨none, false, none⟩
  let s ← scanOptions p 1500 240 ⟨none, none, none⟩
  let type ← initialized s.type
  let name ← requestName p s.pos12
  let request := (type, (p.bytes.drop 28).take 6, name)
  if c.cc = InAddr.zero then return ⟨some request, false, none⟩
  if ¬ c.macMatches p then return ⟨some request, false, none⟩
  if type = 1 ∨ type = 3 then
    let d ← c.reply type s.pos97 p
    return ⟨some request, true, some (c.bc, d)⟩
  else return ⟨some request, true, none⟩

/-- The digit of a number below 16, in one of its two cases. -/
def hexChar (upper : Bool) (d : UInt8) : UInt8 :=
  if d < 10 then 48 + d else if upper then 65 + (d - 10) else 97 + (d - 10)

/-- A byte of the pattern as it may be written: after anything that is no digit, in any case. -/
structure SpelledByte where
  before : List UInt8
  upperHigh : Bool
  upperLow : Bool
  byte : UInt8

def SpelledByte.text (e : SpelledByte) : List UInt8 :=
  e.before ++ [hexChar e.upperHigh (e.byte >>> 4), hexChar e.upperLow (e.byte &&& 15)]

def spelledMac (entries : List SpelledByte) (tail : List UInt8) : List UInt8 :=
  entries.flatMap SpelledByte.text ++ tail

def NoDigits (text : List UInt8) : Prop := ∀ c ∈ text, hexDigit c = none

theorem hexDigit_hexChar (upper : Bool) {d : UInt8} (h : d < 16) :
    hexDigit (hexChar upper d) = some d := by
  have hall : ∀ k : Fin 16, hexDigit (hexChar upper (UInt8.ofNat k)) = some (UInt8.ofNat k) := by
    cases upper <;> decide
  have hd := hall ⟨d.toNat, h⟩
  rwa [UInt8.ofNat_toNat] at hd

theorem nibbles (b : UInt8) :
    (b >>> 4) <<< 4 ||| (b &&& 15) = b ∧ b >>> 4 < 16 ∧ b &&& 15 < 16 := by
  have hall : ∀ k : Fin 256,
      (UInt8.ofNat k >>> 4) <<< 4 ||| (UInt8.ofNat k &&& 15) = UInt8.ofNat k ∧
      UInt8.ofNat k >>> 4 < 16 ∧ UInt8.ofNat k &&& 15 < 16 := by
    decide +kernel
  have hb := hall ⟨b.toNat, b.toNat_lt⟩
  rwa [UInt8.ofNat_toNat] at hb

theorem macLoop_skip {text more : List UInt8} {pat : MacPattern} (h : NoDigits text) :
    macLoop (text ++ more) pat = macLoop more pat := by
  induction text with
  | nil => rfl
  | cons c text ih =>
    have hc := h c List.mem_cons_self
    rw [← ih fun c' hc' => h c' (List.mem_cons_of_mem _ hc'), List.cons_append]
    cases text ++ more with
    | nil => simp only [macLoop, hc]
    | cons c' more => simp only [macLoop, hc]

theorem macLoop_spelled {entries : List SpelledByte} {tail : List UInt8} {pat : MacPattern}
    (h : ∀ e ∈ entries, NoDigits e.before) (htail : NoDigits tail)
    (hlen : pat.1.length + entries.length ≤ 6) :
    ∃ pat', macLoop (spelledMac entries tail) pat = .ok pat' ∧
      pat'.1 = pat.1 ++ entries.map SpelledByte.byte := by
  induction entries generalizing pat with
  | nil =>
    refine ⟨pat, ?_, (List.append_nil _).symm⟩
    have hskip : macLoop (tail ++ []) pat = macLoop [] pat := macLoop_skip htail
    rwa [List.append_nil] at hskip
  | cons e entries ih =>
    rw [List.length_cons] at hlen
    have hpush : ∃ pushed, pat.push e.byte = .ok pushed ∧ pushed.1 = pat.1 ++ [e.byte] :=
      ⟨_, dif_pos (by omega), rfl⟩
    obtain ⟨pushed, hpush, heq⟩ := hpush
    have hpushed : pushed.1.length + entries.length ≤ 6 := by
      rw [heq, List.length_append, List.length_singleton]
      omega
    obtain ⟨pat', hpat', happ⟩ := ih (fun x hx => h x (List.mem_cons_of_mem _ hx)) hpushed
    refine ⟨pat', ?_, by rw [happ, heq, List.map_cons, List.append_assoc, List.singleton_append]⟩
    obtain ⟨hbyte, hhigh, hlow⟩ := nibbles e.byte
    rw [spelledMac, List.flatMap_cons, SpelledByte.text, List.append_assoc, List.append_assoc,
      macLoop_skip (h e List.mem_cons_self), List.cons_append, List.singleton_append, macLoop,
      hexDigit_hexChar _ hhigh, hexDigit_hexChar _ hlow]
    change (pat.push ((e.byte >>> 4) <<< 4 ||| (e.byte &&& 15)) >>= _) = _
    rw [hbyte, hpush]
    exact hpat'

/-- Any spelling of at most six bytes sets the pattern to them. -/
theorem ofArgs_spelled {entries : List SpelledByte} {tail : List UInt8} (bc sc cc : InAddr)
    (h : ∀ e ∈ entries, NoDigits e.before) (htail : NoDigits tail) (hlen : entries.length ≤ 6) :
    ∃ c, NetbootConfig.ofArgs bc sc cc (spelledMac entries tail) = .ok c ∧ c.bc = bc ∧ c.sc = sc ∧
      c.cc = cc ∧ c.macpat.1 = entries.map SpelledByte.byte := by
  obtain ⟨pat, hpat, heq⟩ := @macLoop_spelled entries tail ⟨[], by decide⟩ h htail
    (by rw [List.length_nil]; omega)
  refine ⟨⟨bc, sc, cc, pat⟩, ?_, rfl, rfl, rfl, heq⟩
  rw [NetbootConfig.ofArgs, hpat]
  rfl

end Pc2Drc
