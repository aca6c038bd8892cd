import Mathlib.Data.List.TakeWhile
import Pc2Drc.Lib.MachineInt
import Pc2Drc.Lib.Memory

/-! The file server of the boot server: one turn for a datagram, and the options of a request.
`disk` is what `open` finds under a name. -/
namespace Pc2Drc
open Lib

/-- Bytes behind the datagram are used, `o` is overrun, or an `int` overflows. -/
inductive TftpdFault
  | indeterminate
  | overrun
  | overflow
  deriving DecidableEq, Repr

/-- What a descriptor reads, and its offset. -/
structure OpenFile where
  content : List UInt8
  offset : ℕ
  deriving DecidableEq, Repr

/-- The static variables; the descriptor −1 is `none`. -/
structure Tftpd where
  f : Option OpenFile
  blksize : ℤ
  lastSent : ℕ
  wasLast : Bool
  deriving DecidableEq, Repr

def receivedAt (d : List UInt8) (i : ℕ) : Except TftpdFault UInt8 :=
  match d[i]? with
  | none => .error .indeterminate
  | some b => .ok b

/-- The bytes from `pp` up to a zero or the end. -/
def stringFrom (d : List UInt8) (pp : ℕ) : List UInt8 := (d.drop pp).takeWhile (· ≠ 0)

/-- The string at `pp`, for the functions that look for its end without a limit. -/
def stringAt (d : List UInt8) (pp : ℕ) : Except TftpdFault (List UInt8) :=
  if pp + (stringFrom d pp).length < d.length then .ok (stringFrom d pp)
  else .error .indeterminate

/-- The loop that stops at a zero or at `epp`, and the increment behind it. -/
def skipString (d : List UInt8) (pp : ℕ) : ℕ := pp + (stringFrom d pp).length + 1

/-- `%u` -/
def decimal (n : ℕ) : List UInt8 := (Nat.toDigits 10 n).map fun c => UInt8.ofNat c.toNat

def isSpace (c : UInt8) : Bool := c = 32 ∨ 9 ≤ c ∧ c ≤ 13

def isDigit (c : UInt8) : Bool := 48 ≤ c ∧ c ≤ 57

/-- The number at the front of what is behind the sign. -/
def digitsValue (s : List UInt8) : ℕ :=
  Nat.ofDigitChars 10 ((s.takeWhile isDigit).map fun c => Char.ofNat c.toNat) 0

def signedValue : List UInt8 → ℤ
  | 45 :: s => -digitsValue s
  | 43 :: s => digitsValue s
  | s => digitsValue s

def atoi (s : List UInt8) : Except TftpdFault ℤ :=
  let n := signedValue (s.dropWhile isSpace)
  if FitsInt n then .ok n else .error .overflow

/-- `"tsize"`, `"blksize"` and `"Not found"` -/
def tsizeName : List UInt8 := [116, 115, 105, 122, 101]

def blksizeName : List UInt8 := [98, 108, 107, 115, 105, 122, 101]

def notFound : List UInt8 := [78, 111, 116, 32, 102, 111, 117, 110, 100]

/-- The answer as far as it is written to `o`, and the block size. -/
structure OptionAnswer where
  o : List UInt8
  blksize : ℤ
  deriving DecidableEq, Repr

def OptionAnswer.put (s : OptionAnswer) (l : List UInt8) : Except TftpdFault OptionAnswer :=
  if s.o.length + l.length ≤ 1500 then .ok { s with o := s.o ++ l } else .error .overrun

/-- What a pair of strings is answered with. -/
def OptionAnswer.answer (size : ℕ) (s : OptionAnswer) (option : List UInt8 × List UInt8) :
    Except TftpdFault OptionAnswer :=
  if option.1 = tsizeName then do
    let s ← s.put (tsizeName ++ [0])
    s.put (decimal (size % 2 ^ 32) ++ [0])
  else if option.1 = blksizeName then do
    let s ← s.put (blksizeName ++ [0])
    let blksize ← atoi option.2
    OptionAnswer.put { s with blksize := blksize } (option.2 ++ [0])
  else .ok s

/-- The loop over the options, which moves on by two strings in each of its branches. -/
def requestOptions (d : List UInt8) (size : ℕ) : ℕ → ℕ → OptionAnswer →
    Except TftpdFault OptionAnswer
  | 0, _, s => .ok s
  | fuel + 1, pp, s =>
    if pp < d.length then do
      let name ← stringAt d pp
      let value ← stringAt d (pp + name.length + 1)
      let s ← s.answer size (name, value)
      requestOptions d size fuel (pp + name.length + 1 + value.length + 1) s
    else .ok s

/-- `lseek` and `read`, which refuse a negative offset and a negative count. -/
def OpenFile.readAt (file : OpenFile) (offset count : ℤ) : OpenFile × Option (List UInt8) :=
  let start := if 0 ≤ offset then offset.toNat else file.offset
  if 0 ≤ count then
    let bytes := (file.content.drop start).take count.toNat
    (⟨file.content, start + bytes.length⟩, some bytes)
  else (⟨file.content, start⟩, none)

def dataHeader (no : ℕ) : List UInt8 := [0, 3, UInt8.ofNat (no / 256), UInt8.ofNat no]

namespace Tftpd

/-- The descriptor is that of the standard input before the first request. -/
def create (stdin : OpenFile) : Tftpd := ⟨some stdin, 512, 0, false⟩

def closed : Tftpd := ⟨none, 512, 0, false⟩

/-- Without an option there is no answer: the first block waits for an acknowledgement. -/
def readRequest (s : Tftpd) (disk : List UInt8 → Option (List UInt8)) (d : List UInt8) :
    Except TftpdFault (Tftpd × Option (List UInt8)) := do
  let pp := skipString d (skipString d 2)
  let name ← stringAt d 2
  match disk name with
  | none => return ({ s with f := none }, some ([0, 5, 0, 1] ++ notFound ++ [0]))
  | some content =>
    let s := { s with f := some ⟨content, 0⟩ }
    if pp < d.length ∧ d[pp]? ≠ some 0 then
      let r ← requestOptions d content.length d.length pp ⟨[0, 6], s.blksize⟩
      return ({ s with blksize := r.blksize }, some r.o)
    else return (s, none)

/-- A read that fails counts as −1 byte, so the packet has three bytes. -/
def sendBlock (s : Tftpd) (no : ℕ) : Except TftpdFault (Tftpd × Option (List UInt8)) :=
  if FitsInt ((no - 1) * s.blksize) then
    let (f, bytes) : Option OpenFile × Option (List UInt8) :=
      match s.f with
      | none => (none, none)
      | some file =>
        let (file, bytes) := file.readAt ((no - 1) * s.blksize) s.blksize
        (some file, bytes)
    match bytes with
    | none =>
      .ok ({ s with
          f := f
          lastSent := no
          wasLast := s.wasLast || decide (-1 < s.blksize) },
        some ((dataHeader no).take 3))
    | some bytes =>
      if bytes.length ≤ 10236 then
        .ok ({ s with
            f := f
            lastSent := no
            wasLast := s.wasLast || decide ((bytes.length : ℤ) < s.blksize) },
          some (dataHeader no ++ bytes))
      else .error .overrun
  else .error .overflow

def acknowledge (s : Tftpd) (no : ℕ) : Except TftpdFault (Tftpd × Option (List UInt8)) :=
  let s := if s.wasLast then closed else s
  if no = s.lastSent then s.sendBlock (no + 1) else .ok (s, none)

/-- One datagram, and what is sent back. -/
def receive (s : Tftpd) (disk : List UInt8 → Option (List UInt8)) (datagram : List UInt8) :
    Except TftpdFault (Tftpd × Option (List UInt8)) := do
  let d := datagram.take 1500
  let op ← receivedAt d 1
  if op = 1 then s.readRequest disk d
  else if op = 4 then do
    let hi ← receivedAt d 2
    let lo ← receivedAt d 3
    s.acknowledge (hi.toNat * 256 + lo.toNat)
  else return (s, none)

end Tftpd

def TftpdStep (disk : List UInt8 → Option (List UInt8)) (s : Tftpd) (datagram : List UInt8)
    (out : Option (List UInt8)) (s' : Tftpd) : Prop :=
  s.receive disk datagram = .ok (s', out)

/-- The request of a client. -/
def tftpRequest (name mode : List UInt8) (options : List (List UInt8 × List UInt8)) : List UInt8 :=
  [0, 1] ++ name ++ [0] ++ mode ++ [0] ++ options.flatMap fun x => x.1 ++ [0] ++ x.2 ++ [0]

variable {disk : List UInt8 → Option (List UInt8)} {s s' : Tftpd} {d : List UInt8}
  {out : Option (List UInt8)}

/-- A string that is ended is read, and skipped with its end. -/
theorem string_facts {pp : ℕ} {l rest : List UInt8} (h : d.drop pp = l ++ 0 :: rest)
    (hl : ∀ c ∈ l, c ≠ 0) : stringAt d pp = .ok l ∧ skipString d pp = pp + l.length + 1 ∧
      d.drop (pp + l.length + 1) = rest := by
  have hfrom : stringFrom d pp = l := by
    have hpos : ∀ c ∈ l, decide (c ≠ 0) = true := fun c hc => decide_eq_true (hl c hc)
    rw [stringFrom, h, List.takeWhile_append_of_pos hpos]
    exact List.append_nil l
  have hlen := congrArg List.length h
  rw [List.length_drop, List.length_append, List.length_cons] at hlen
  refine ⟨?_, ?_, ?_⟩
  · rw [stringAt, hfrom, if_pos (by omega)]
  · rw [skipString, hfrom]
  · rw [Nat.add_assoc, ← List.drop_drop, h]
    simp

/-- The loop answers the options that the client has written, in their order. -/
theorem requestOptions_options {size : ℕ} (options : List (List UInt8 × List UInt8))
    (hzero : ∀ x ∈ options, (∀ c ∈ x.1, c ≠ 0) ∧ ∀ c ∈ x.2, c ≠ 0) {fuel pp : ℕ}
    (hfuel : options.length ≤ fuel) (r : OptionAnswer)
    (h : d.drop pp = options.flatMap fun x => x.1 ++ [0] ++ x.2 ++ [0]) :
    requestOptions d size fuel pp r = options.foldlM (OptionAnswer.answer size) r := by
  induction options generalizing fuel pp r with
  | nil =>
    have hend : ¬ pp < d.length := Nat.not_lt.mpr (List.drop_eq_nil_iff.mp h)
    cases fuel with
    | zero => rfl
    | succ fuel => exact if_neg hend
  | cons x options ih =>
    obtain ⟨hname, hvalue⟩ := hzero x List.mem_cons_self
    have hsplit : d.drop pp = x.1 ++ 0 :: (x.2 ++ 0 ::
        options.flatMap fun x => x.1 ++ [0] ++ x.2 ++ [0]) := by
      rw [h, List.flatMap_cons]
      simp
    obtain ⟨hname, -, hrest⟩ := string_facts hsplit hname
    obtain ⟨hvalue, -, hrest⟩ := string_facts hrest hvalue
    have hlt : pp < d.length := by
      by_contra hge
      rw [List.drop_eq_nil_of_le (Nat.not_lt.mp hge)] at hsplit
      simp at hsplit
    cases fuel with
    | zero => simp at hfuel
    | succ fuel =>
      have hloop : requestOptions d size (fuel + 1) pp r = (r.answer size x >>= fun r =>
          requestOptions d size fuel (pp + x.1.length + 1 + x.2.length + 1) r) := by
        rw [requestOptions, if_pos hlt, hname]
        change (stringAt d (pp + x.1.length + 1) >>= _) = _
        rw [hvalue]
        rfl
      rw [hloop, List.foldlM_cons]
      congr 1
      funext r'
      exact ih (fun y hy => hzero y (List.mem_cons_of_mem x hy))
        (Nat.le_of_succ_le_succ hfuel) r' hrest

theorem length_le_options (options : List (List UInt8 × List UInt8)) :
    options.length ≤ (options.flatMap fun x => x.1 ++ [0] ++ x.2 ++ [0]).length := by
  induction options with
  | nil => exact Nat.le_refl 0
  | cons x options ih =>
    rw [List.flatMap_cons, List.length_append, List.length_append, List.length_cons,
      List.length_singleton]
    omega

theorem char_of_digit {c : Char} (h : c.isDigit = true) :
    Char.ofNat (UInt8.ofNat c.toNat).toNat = c ∧ 48 ≤ UInt8.ofNat c.toNat ∧
      UInt8.ofNat c.toNat ≤ 57 := by
  have hbounds : 48 ≤ c.toNat ∧ c.toNat ≤ 57 := by
    simpa [Char.isDigit, UInt32.le_iff_toNat_le] using h
  have hbyte : (UInt8.ofNat c.toNat).toNat = c.toNat := by
    rw [UInt8.toNat_ofNat']
    omega
  refine ⟨by rw [hbyte, Char.ofNat_toNat], ?_, ?_⟩
  · rw [UInt8.le_iff_toNat_le, hbyte]
    exact hbounds.1
  · rw [UInt8.le_iff_toNat_le, hbyte]
    exact hbounds.2

theorem digit_of_decimal {n : ℕ} {c : UInt8} (h : c ∈ decimal n) : 48 ≤ c ∧ c ≤ 57 := by
  obtain ⟨x, hx, rfl⟩ := List.mem_map.mp h
  exact (char_of_digit (Nat.isDigit_of_mem_toDigits (by decide) (by decide) hx)).2

theorem ne_zero_of_decimal {n : ℕ} {c : UInt8} (h : c ∈ decimal n) : c ≠ 0 := by
  rintro rfl
  exact absurd (digit_of_decimal h).1 (by decide)

theorem digitsValue_decimal (n : ℕ) : digitsValue (decimal n) = n := by
  have hall : (decimal n).takeWhile isDigit = decimal n :=
    List.takeWhile_eq_self_iff.mpr fun c hc => decide_eq_true (digit_of_decimal hc)
  have hback : (decimal n).map (fun c => Char.ofNat c.toNat) = Nat.toDigits 10 n := by
    rw [decimal, List.map_map]
    refine (List.map_congr_left fun c hc => ?_).trans (List.map_id _)
    exact (char_of_digit (Nat.isDigit_of_mem_toDigits (by decide) (by decide) hc)).1
  rw [digitsValue, hall, hback, Nat.ofDigitChars_ten_toDigits]

/-- What is printed as a number is read as that number. -/
theorem atoi_decimal {n : ℕ} (h : n < 2 ^ 31) : atoi (decimal n) = .ok n := by
  obtain ⟨c, s, hcons⟩ : ∃ c s, decimal n = c :: s :=
    List.exists_cons_of_ne_nil fun hnil => Nat.toDigits_ne_nil (List.map_eq_nil_iff.mp hnil)
  obtain ⟨hlow, -⟩ := digit_of_decimal (n := n) (hcons ▸ List.mem_cons_self)
  have hspace : (decimal n).dropWhile isSpace = decimal n := by
    rw [hcons, List.dropWhile_cons_of_neg]
    rw [isSpace, decide_eq_true_iff]
    rintro (rfl | ⟨-, hc⟩)
    · exact absurd hlow (by decide)
    · exact absurd (UInt8.le_trans hlow hc) (by decide)
  have hsign : signedValue (decimal n) = digitsValue (decimal n) := by
    rw [hcons, signedValue]
    · rintro s ⟨⟩
      exact absurd hlow (by decide)
    · rintro s ⟨⟩
      exact absurd hlow (by decide)
  rw [atoi, hspace, hsign, digitsValue_decimal]
  exact if_pos ⟨by omega, by omega⟩

theorem length_decimal {n k : ℕ} (hk : 0 < k) (h : n < 10 ^ k) : (decimal n).length ≤ k := by
  rw [decimal, List.length_map]
  exact (Nat.length_toDigits_le_iff (by decide) hk).mpr h

theorem put_ok {r : OptionAnswer} {l : List UInt8} (h : r.o.length + l.length ≤ 1500) :
    r.put l = .ok { r with o := r.o ++ l } := if_pos h

/-- The options that a boot loader sends are answered with the size of the file and its own block
size. -/
theorem answer_size_and_blksize (size b : ℕ) (hsize : size < 2 ^ 32) (hb : b < 2 ^ 31)
    (value : List UInt8) (blksize : ℤ) :
    [(tsizeName, value), (blksizeName, decimal b)].foldlM (OptionAnswer.answer size)
        ⟨[0, 6], blksize⟩ =
      .ok ⟨[0, 6] ++ (tsizeName ++ [0]) ++ (decimal size ++ [0]) ++ (blksizeName ++ [0]) ++
        (decimal b ++ [0]), b⟩ := by
  have hlen := length_decimal (n := size) (k := 10) (by decide) (by omega)
  have hlen' := length_decimal (n := b) (k := 10) (by decide) (by omega)
  have htsize : OptionAnswer.answer size ⟨[0, 6], blksize⟩ (tsizeName, value) =
      .ok ⟨[0, 6] ++ (tsizeName ++ [0]) ++ (decimal size ++ [0]), blksize⟩ := by
    rw [OptionAnswer.answer, if_pos rfl, put_ok (by simp [tsizeName]), Nat.mod_eq_of_lt hsize]
    refine put_ok ?_
    simp [tsizeName]
    omega
  have hblksize : ∀ o, o.length ≤ 100 →
      OptionAnswer.answer size ⟨o, blksize⟩ (blksizeName, decimal b) =
        .ok ⟨o ++ (blksizeName ++ [0]) ++ (decimal b ++ [0]), b⟩ := by
    intro o ho
    have hne : blksizeName ≠ tsizeName := by decide
    rw [OptionAnswer.answer, if_neg hne, if_pos rfl, put_ok (by simp [blksizeName]; omega)]
    change (atoi (decimal b) >>= _) = _
    rw [atoi_decimal hb]
    refine put_ok ?_
    simp [blksizeName]
    omega
  have hshort : ([0, 6] ++ (tsizeName ++ [0]) ++ (decimal size ++ [0])).length ≤ 100 := by
    simp [tsizeName]
    omega
  rw [List.foldlM_cons, htsize]
  change (OptionAnswer.answer size _ (blksizeName, decimal b) >>= _) = _
  rw [hblksize _ hshort]
  rfl

theorem receivedAt_op {op : UInt8} (hd : d[1]? = some op) :
    receivedAt (d.take 1500) 1 = .ok op := by
  rw [receivedAt, List.getElem?_take_of_lt (by decide), hd]

/-- A request leaves the number of the last packet as it is. -/
theorem step_request (h : TftpdStep disk s d out s') (hd : d[1]? = some 1) :
    s'.lastSent = s.lastSent ∧ s'.wasLast = s.wasLast := by
  obtain ⟨op, hop, h⟩ := bind_eq_ok.mp h
  rw [receivedAt_op hd] at hop
  cases hop
  obtain ⟨name, -, h⟩ := bind_eq_ok.mp h
  dsimp only at h
  -- the file is not there, or it is and the options are read or absent
  split at h
  · cases h
    exact ⟨rfl, rfl⟩
  · split at h
    · obtain ⟨r, -, h⟩ := bind_eq_ok.mp h
      cases h
      exact ⟨rfl, rfl⟩
    · cases h
      exact ⟨rfl, rfl⟩

end Pc2Drc
