import Mathlib.Data.List.Infix
import Pc2Drc.Lib.Run
import Pc2Drc.Tftpd

/-! Transfers of the file server: the packets of a file against the acknowledgements that come. -/
namespace Pc2Drc
open Lib

abbrev TftpdTrace := List (List UInt8 × Option (List UInt8))

def repliesIn (tr : TftpdTrace) : List (List UInt8) := tr.filterMap Prod.snd

def tftpAck (no : ℕ) : List UInt8 := [0, 4, UInt8.ofNat (no / 256), UInt8.ofNat no]

/-- Block `k` of a file, counted from 0. -/
def fileBlock (content : List UInt8) (b k : ℕ) : List UInt8 := (content.drop (k * b)).take b

/-- The packets of a file; the last is the one with a short block, which may be empty. -/
def filePackets (content : List UInt8) (b : ℕ) : List (List UInt8) :=
  (List.range (content.length / b + 1)).map fun k => dataHeader (k + 1) ++ fileBlock content b k

/-- `m` blocks of the file have been sent. -/
structure Transferring (content : List UInt8) (b m : ℕ) (s : Tftpd) : Prop where
  file : ∃ offset, s.f = some ⟨content, offset⟩
  blksize : s.blksize = b
  lastSent : s.lastSent = m
  wasLast : s.wasLast = true ↔ content.length < m * b
  count : m ≤ content.length / b + 1
  number : m ≤ 65536

/-- The packet that is sent when the first block of the descriptor −1 is read: a data packet that
ends within its number. -/
def emptyPacket : List UInt8 := [0, 3, 0]

/-- The packets are sent in their order, each once. Behind the last one an acknowledgement of block
0 is answered, each time, with the packet of three bytes, and no other acknowledgement is; numbers
of two bytes end at a file of 65536 full blocks. -/
structure SendsInOrder (content : List UInt8) (b : ℕ) (tr : TftpdTrace) : Prop where
  blocks : repliesIn tr <+: filePackets content b ∨
    ∃ n, repliesIn tr = filePackets content b ++ List.replicate n emptyPacket
  after : ∀ pre d out post, tr = pre ++ (d, out) :: post →
    filePackets content b <+: repliesIn pre →
    out = if d[2]? = some 0 ∧ d[3]? = some 0 then some emptyPacket else none
  stalls : 65536 * b ≤ content.length → ∃ m ≤ 65536, repliesIn tr = (filePackets content b).take m

/-- Whatever is acknowledged, the file comes in order; if the client acknowledges one packet after
the other, it comes as a whole, and the server is ready for another request. A request before the
end is answered, but what the client acknowledges then is not. -/
structure ServesFile (disk : List UInt8 → Option (List UInt8)) (content : List UInt8) (b : ℕ)
    (s : Tftpd) : Prop where
  inOrder : ∀ tr s', Steps (TftpdStep disk) s tr s' → (∀ x ∈ tr, x.1[1]? = some 4) →
    SendsInOrder content b tr
  complete : content.length < 65535 * b → ∃ tr, Steps (TftpdStep disk) s tr .closed ∧
    tr.map Prod.fst = (List.range (content.length / b + 2)).map tftpAck ∧
    repliesIn tr = filePackets content b ∧ ((repliesIn tr).map (List.drop 4)).flatten = content
  unfinished : ∀ tr s', Steps (TftpdStep disk) s tr s' → (∀ x ∈ tr, x.1[1]? = some 4) →
    0 < (repliesIn tr).length → (repliesIn tr).length * b ≤ content.length →
    ∀ d out s'', TftpdStep disk s' d out s'' → d[1]? = some 1 →
      TftpdStep disk s'' (tftpAck 0) none s''

variable {disk : List UInt8 → Option (List UInt8)} {content : List UInt8} {b m no : ℕ}
  {s s' : Tftpd} {d : List UInt8} {out : Option (List UInt8)} {tr tr' : TftpdTrace}

theorem repliesIn_append (tr tr' : TftpdTrace) :
    repliesIn (tr ++ tr') = repliesIn tr ++ repliesIn tr' :=
  List.filterMap_append

theorem length_filePackets (content : List UInt8) (b : ℕ) :
    (filePackets content b).length = content.length / b + 1 := by
  rw [filePackets, List.length_map, List.length_range]

theorem take_succ_filePackets (h : m < content.length / b + 1) :
    (filePackets content b).take (m + 1) =
      (filePackets content b).take m ++ [dataHeader (m + 1) ++ fileBlock content b m] := by
  have hm : m < (filePackets content b).length := by rwa [length_filePackets]
  rw [List.take_succ_eq_append_getElem hm]
  congr 2
  simp [filePackets]

theorem length_fileBlock_lt (hb : 0 < b) :
    (fileBlock content b m).length < b ↔ content.length < (m + 1) * b := by
  rw [fileBlock, List.length_take, List.length_drop, Nat.add_mul]
  omega

/-- A block that is sent leaves the transfer one block further. -/
theorem Transferring.sendBlock (h : Transferring content b m s) (hb : 0 < b) (hb' : b ≤ 10236)
    (hm : m < 65536) (hmore : m * b ≤ content.length) :
    ∃ s', s.sendBlock (m + 1) = .ok (s', some (dataHeader (m + 1) ++ fileBlock content b m)) ∧
      Transferring content b (m + 1) s' := by
  obtain ⟨offset, hfile⟩ := h.file
  have hnot : s.wasLast = false := by
    rw [Bool.eq_false_iff]
    exact fun hlast => absurd (h.wasLast.mp hlast) (by omega)
  have hoffset : (((m + 1 : ℕ) : ℤ) - 1) * s.blksize = ((m * b : ℕ) : ℤ) := by
    rw [h.blksize]
    push_cast
    rw [add_sub_cancel_right]
  have hbound : m * b ≤ 65535 * 10236 := Nat.mul_le_mul (by omega) hb'
  have hfits : FitsInt ((((m + 1 : ℕ) : ℤ) - 1) * s.blksize) := by
    rw [hoffset, FitsInt]
    omega
  have hread : OpenFile.readAt ⟨content, offset⟩ ((m * b : ℕ) : ℤ) (b : ℤ) =
      (⟨content, m * b + (fileBlock content b m).length⟩, some (fileBlock content b m)) := by
    rw [OpenFile.readAt, if_pos (Int.natCast_nonneg _), if_pos (Int.natCast_nonneg _),
      Int.toNat_natCast, Int.toNat_natCast]
    rfl
  have hlen : (fileBlock content b m).length ≤ 10236 := by
    rw [fileBlock, List.length_take]
    omega
  rw [Tftpd.sendBlock, if_pos hfits, hfile]
  dsimp only
  rw [hoffset, h.blksize, hread]
  dsimp only
  rw [if_pos hlen]
  refine ⟨_, rfl, ⟨_, rfl⟩, rfl, rfl, ?_, ?_, by omega⟩
  · rw [hnot, Bool.false_or, decide_eq_true_iff, Int.ofNat_lt]
    exact length_fileBlock_lt hb
  · exact Nat.succ_le_succ ((Nat.le_div_iff_mul_le hb).mpr hmore)

/-- The acknowledgement of the last block sent is answered with the next one, and no other is. -/
theorem Transferring.acknowledge (h : Transferring content b m s) (hb : 0 < b) (hb' : b ≤ 10236)
    (hno : no < 65536) (hmore : m * b ≤ content.length) :
    (no = m → ∃ s',
        s.acknowledge no = .ok (s', some (dataHeader (m + 1) ++ fileBlock content b m)) ∧
          Transferring content b (m + 1) s') ∧
      (no ≠ m → s.acknowledge no = .ok (s, none)) := by
  have hnot : ¬ s.wasLast = true := fun hlast => absurd (h.wasLast.mp hlast) (by omega)
  have hack : s.acknowledge no =
      if no = m then s.sendBlock (no + 1) else .ok (s, none) := by
    rw [Tftpd.acknowledge, if_neg hnot, h.lastSent]
  refine ⟨?_, ?_⟩
  · rintro rfl
    rw [hack, if_pos rfl]
    exact h.sendBlock hb hb' hno hmore
  · intro hne
    rw [hack, if_neg hne]

theorem receivedAt_eq_ok {i : ℕ} {x : UInt8} (h : receivedAt (d.take 1500) i = .ok x)
    (hi : i < 1500) : d[i]? = some x := by
  unfold receivedAt at h
  rw [List.getElem?_take_of_lt hi] at h
  cases hx : d[i]? with
  | none =>
    rw [hx] at h
    cases h
  | some y =>
    rw [hx] at h
    cases h
    rfl

theorem step_ack (h : TftpdStep disk s d out s') (hd : d[1]? = some 4) :
    ∃ no < 65536, s.acknowledge no = .ok (s', out) ∧
      (no = 0 ↔ d[2]? = some 0 ∧ d[3]? = some 0) := by
  obtain ⟨op, hop, h⟩ := bind_eq_ok.mp h
  rw [receivedAt_op hd] at hop
  cases hop
  obtain ⟨hi, hhi, h⟩ := bind_eq_ok.mp h
  obtain ⟨lo, hlo, h⟩ := bind_eq_ok.mp h
  have hhi' := hi.toNat_lt
  have hlo' := lo.toNat_lt
  refine ⟨hi.toNat * 256 + lo.toNat, by omega, h, ?_⟩
  rw [receivedAt_eq_ok hhi (by decide), receivedAt_eq_ok hlo (by decide), Option.some_inj,
    Option.some_inj, ← UInt8.toNat_inj, ← UInt8.toNat_inj, UInt8.toNat_zero]
  omega

theorem receive_ack (hno : no < 65536) : s.receive disk (tftpAck no) = s.acknowledge no := by
  have hnumber : (UInt8.ofNat (no / 256)).toNat * 256 + (UInt8.ofNat no).toNat = no := by
    rw [UInt8.toNat_ofNat', UInt8.toNat_ofNat']
    omega
  have hreceive : s.receive disk (tftpAck no) =
      s.acknowledge ((UInt8.ofNat (no / 256)).toNat * 256 + (UInt8.ofNat no).toNat) := rfl
  rw [hreceive, hnumber]

/-- The next acknowledgement finds the server as new, with no file. -/
def Ended (s : Tftpd) : Prop := s.wasLast = true ∨ s = .closed

theorem Ended.acknowledge (h : Ended s) : ∃ s', Ended s' ∧
    s.acknowledge no = .ok (s', if no = 0 then some emptyPacket else none) := by
  have hclosed : s.acknowledge no =
      if no = 0 then Tftpd.closed.sendBlock (no + 1) else .ok (.closed, none) := by
    rcases h with hlast | rfl
    · rw [Tftpd.acknowledge, if_pos hlast]
      rfl
    · rfl
  rw [hclosed]
  by_cases hno : no = 0
  · subst hno
    exact ⟨{ Tftpd.closed with lastSent := 1, wasLast := true }, Or.inl rfl, rfl⟩
  · rw [if_neg hno, if_neg hno]
    exact ⟨.closed, Or.inr rfl, rfl⟩

theorem Transferring.ended (h : Transferring content b m s) (hover : content.length < m * b) :
    Ended s := Or.inl (h.wasLast.mpr hover)

/-- The packets that are sent are the first ones of the file, as long as there are more. -/
def InOrder (content : List UInt8) (b : ℕ) (tr : TftpdTrace) (s : Tftpd) : Prop :=
  (∃ m, Transferring content b m s ∧ repliesIn tr = (filePackets content b).take m) ∨
    content.length < 65536 * b ∧ Ended s ∧
      ∃ n, repliesIn tr = filePackets content b ++ List.replicate n emptyPacket

/-- Once all packets are sent, the transfer is over. -/
theorem InOrder.ended (h : InOrder content b tr s) (hb : 0 < b)
    (hall : filePackets content b <+: repliesIn tr) : content.length < 65536 * b ∧ Ended s ∧
      ∃ n, repliesIn tr = filePackets content b ++ List.replicate n emptyPacket := by
  rcases h with ⟨m, hm, hsent⟩ | hover
  · have hlen := hall.length_le
    rw [hsent, length_filePackets, List.length_take, length_filePackets] at hlen
    have hcount : content.length / b + 1 ≤ m := hlen.trans (Nat.min_le_left _ _)
    have hover : content.length < m * b := (Nat.div_lt_iff_lt_mul hb).mp hcount
    refine ⟨lt_of_lt_of_le hover (Nat.mul_le_mul_right b hm.number), hm.ended hover, 0, ?_⟩
    rw [hsent, List.take_of_length_le ((length_filePackets content b).trans_le hcount)]
    exact (List.append_nil _).symm
  · exact hover

/-- What is acknowledged behind the last packet. -/
theorem ended_step (h : Ended s) (hs : TftpdStep disk s d out s') (hd : d[1]? = some 4) :
    Ended s' ∧ out = if d[2]? = some 0 ∧ d[3]? = some 0 then some emptyPacket else none := by
  obtain ⟨no, -, hack, hzero⟩ := step_ack hs hd
  obtain ⟨s'', hs'', hack'⟩ : ∃ s'', Ended s'' ∧ s.acknowledge no = _ := h.acknowledge
  cases hack.symm.trans hack'
  exact ⟨hs'', if_congr hzero rfl rfl⟩

theorem inOrder_step (hb : 0 < b) (hb' : b ≤ 10236) (h : InOrder content b tr s)
    (hs : TftpdStep disk s d out s') (hd : d[1]? = some 4) :
    InOrder content b (tr ++ [(d, out)]) s' := by
  by_cases hall : filePackets content b <+: repliesIn tr
  · right
    obtain ⟨hsize, hended, n, hsent⟩ := h.ended hb hall
    obtain ⟨hended', rfl⟩ := ended_step hended hs hd
    refine ⟨hsize, hended', ?_⟩
    rw [repliesIn_append, hsent]
    by_cases hzero : d[2]? = some 0 ∧ d[3]? = some 0
    · refine ⟨n + 1, ?_⟩
      rw [if_pos hzero, List.replicate_succ', List.append_assoc]
      rfl
    · refine ⟨n, ?_⟩
      rw [if_neg hzero]
      exact List.append_nil _
  · rcases h with ⟨m, hm, hsent⟩ | ⟨-, -, n, hsent⟩
    · left
      have hlt : m < content.length / b + 1 := by
        by_contra hge
        rw [hsent, List.take_of_length_le ((length_filePackets content b).trans_le
          (Nat.le_of_not_lt hge))] at hall
        exact hall (List.prefix_refl _)
      have hmore : m * b ≤ content.length :=
        (Nat.le_div_iff_mul_le hb).mp (Nat.le_of_lt_succ hlt)
      obtain ⟨no, hno, hack, -⟩ := step_ack hs hd
      obtain ⟨hnext, hother⟩ := hm.acknowledge hb hb' hno hmore
      by_cases heq : no = m
      · obtain ⟨s'', hack', hm'⟩ := hnext heq
        cases hack.symm.trans hack'
        refine ⟨m + 1, hm', ?_⟩
        rw [repliesIn_append, hsent, take_succ_filePackets hlt]
        rfl
      · cases hack.symm.trans (hother heq)
        refine ⟨m, hm, ?_⟩
        rw [repliesIn_append, hsent]
        exact List.append_nil _
    · rw [hsent] at hall
      exact (hall (List.prefix_append _ _)).elim

theorem Transferring.inOrder (h : Transferring content b 0 s) (hb : 0 < b) (hb' : b ≤ 10236)
    (hrun : Steps (TftpdStep disk) s tr s') (hacks : ∀ x ∈ tr, x.1[1]? = some 4) :
    InOrder content b tr s' := by
  have hinv : (∀ x ∈ tr, x.1[1]? = some 4) → InOrder content b tr s' := by
    refine Steps.invariant
      (P := fun (tr : TftpdTrace) s => (∀ x ∈ tr, x.1[1]? = some 4) → InOrder content b tr s)
      hrun (fun _ => Or.inl ⟨0, h, rfl⟩) ?_
    intro tr s d out s' ih hs hacks
    have hprev : ∀ x ∈ tr, x.1[1]? = some 4 := fun x hx => hacks x (List.mem_append_left _ hx)
    exact inOrder_step hb hb' (ih hprev) hs
      (hacks (d, out) (List.mem_append_right tr List.mem_cons_self))
  exact hinv hacks

theorem Transferring.sendsInOrder (h : Transferring content b 0 s) (hb : 0 < b) (hb' : b ≤ 10236)
    (hrun : Steps (TftpdStep disk) s tr s') (hacks : ∀ x ∈ tr, x.1[1]? = some 4) :
    SendsInOrder content b tr := by
  have hin := h.inOrder hb hb' hrun hacks
  refine ⟨?_, ?_, ?_⟩
  · rcases hin with ⟨m, -, hsent⟩ | ⟨-, -, hsent⟩
    · exact Or.inl (hsent ▸ List.take_prefix _ _)
    · exact Or.inr hsent
  · rintro pre d out post rfl hall
    obtain ⟨u, v, hpre, hs, -⟩ := hrun.split
    have hpreacks : ∀ x ∈ pre, x.1[1]? = some 4 := fun x hx =>
      hacks x (List.mem_append_left _ hx)
    have hended := ((h.inOrder hb hb' hpre hpreacks).ended hb hall).2.1
    exact (ended_step hended hs (hacks (d, out) (by simp))).2
  · intro hlarge
    rcases hin with ⟨m, hm, hsent⟩ | ⟨hsize, -, -⟩
    · exact ⟨m, hm.number, hsent⟩
    · exact absurd hsize (Nat.not_lt.mpr hlarge)

/-- The first acknowledgement of a client that asks again does not match the last packet. -/
theorem InOrder.unfinished (h : InOrder content b tr s) (hb : 0 < b)
    (hsome : 0 < (repliesIn tr).length) (hmore : (repliesIn tr).length * b ≤ content.length)
    (hs : TftpdStep disk s d out s') (hd : d[1]? = some 1) :
    TftpdStep disk s' (tftpAck 0) none s' := by
  obtain ⟨hlast, hwas⟩ := step_request hs hd
  rcases h with ⟨m, hm, hsent⟩ | ⟨-, -, n, hsent⟩
  · have hlen : (repliesIn tr).length = m := by
      rw [hsent, List.length_take, length_filePackets, Nat.min_eq_left hm.count]
    rw [hlen] at hsome hmore
    have hnot : ¬ s'.wasLast = true := by
      rw [hwas, hm.wasLast]
      exact Nat.not_lt.mpr hmore
    have hne : 0 ≠ s'.lastSent := by
      rw [hlast, hm.lastSent]
      exact hsome.ne
    refine (receive_ack (by decide)).trans ?_
    rw [Tftpd.acknowledge, if_neg hnot, if_neg hne]
  · have hcount : (filePackets content b).length ≤ (repliesIn tr).length := by
      rw [hsent]
      exact (List.prefix_append _ _).length_le
    rw [length_filePackets] at hcount
    have hover : content.length < (repliesIn tr).length * b := (Nat.div_lt_iff_lt_mul hb).mp hcount
    omega

/-- A client that acknowledges packet after packet gets them one after the other. -/
theorem Transferring.lockstep (disk : List UInt8 → Option (List UInt8))
    (h : Transferring content b 0 s) (hb : 0 < b) (hb' : b ≤ 10236) (n : ℕ)
    (hn : n ≤ content.length / b + 1) (hnumber : n ≤ 65536) :
    ∃ tr s', Steps (TftpdStep disk) s tr s' ∧ tr.map Prod.fst = (List.range n).map tftpAck ∧
      repliesIn tr = (filePackets content b).take n ∧ Transferring content b n s' := by
  induction n with
  | zero => exact ⟨[], s, .refl, rfl, rfl, h⟩
  | succ n ih =>
    obtain ⟨tr, s', hrun, hacks, hsent, hn'⟩ := ih (by omega) (by omega)
    have hmore : n * b ≤ content.length :=
      (Nat.le_div_iff_mul_le hb).mp (Nat.le_of_succ_le_succ hn)
    obtain ⟨s'', hack, hnext⟩ := (hn'.acknowledge hb hb' (by omega) hmore).1 rfl
    have hstep : TftpdStep disk s' (tftpAck n) _ s'' := (receive_ack (by omega)).trans hack
    refine ⟨_, s'', hrun.snoc hstep, ?_, ?_, hnext⟩
    · rw [List.map_append, hacks, List.range_succ, List.map_append]
      rfl
    · rw [repliesIn_append, hsent, take_succ_filePackets (by omega)]
      rfl

theorem flatten_fileBlocks (content : List UInt8) (b n : ℕ) :
    ((List.range n).map (fileBlock content b)).flatten = content.take (n * b) := by
  induction n with
  | zero =>
    rw [Nat.zero_mul, List.take_zero]
    rfl
  | succ n ih =>
    rw [List.range_succ, List.map_append, List.flatten_append, ih, Nat.succ_mul, List.take_add]
    congr 1
    exact List.append_nil _

theorem filePackets_content (hb : 0 < b) :
    ((filePackets content b).map (List.drop 4)).flatten = content := by
  have hover : content.length < (content.length / b + 1) * b :=
    (Nat.div_lt_iff_lt_mul hb).mp (Nat.lt_succ_self _)
  rw [filePackets, List.map_map]
  exact (flatten_fileBlocks content b _).trans (List.take_of_length_le hover.le)

theorem Transferring.complete (h : Transferring content b 0 s) (hb : 0 < b) (hb' : b ≤ 10236)
    (hsize : content.length < 65535 * b) : ∃ tr, Steps (TftpdStep disk) s tr .closed ∧
      tr.map Prod.fst = (List.range (content.length / b + 2)).map tftpAck ∧
      repliesIn tr = filePackets content b ∧
      ((repliesIn tr).map (List.drop 4)).flatten = content := by
  have hcount : content.length / b < 65535 := (Nat.div_lt_iff_lt_mul hb).mpr hsize
  have hover : content.length < (content.length / b + 1) * b :=
    (Nat.div_lt_iff_lt_mul hb).mp (Nat.lt_succ_self _)
  obtain ⟨tr, s', hrun, hacks, hsent, hlast⟩ :=
    h.lockstep disk hb hb' (content.length / b + 1) le_rfl (by omega)
  have hend : s'.acknowledge (content.length / b + 1) = .ok (.closed, none) := by
    rw [Tftpd.acknowledge, if_pos (hlast.wasLast.mpr hover)]
    exact if_neg (Nat.succ_ne_zero _)
  have hstep : TftpdStep disk s' (tftpAck (content.length / b + 1)) none .closed :=
    (receive_ack (by omega)).trans hend
  have hall : repliesIn (tr ++ [(tftpAck (content.length / b + 1), none)]) =
      filePackets content b := by
    rw [repliesIn_append, hsent, List.take_of_length_le (length_filePackets content b).le]
    exact List.append_nil _
  have hrange : List.range (content.length / b + 2) =
      List.range (content.length / b + 1) ++ [content.length / b + 1] := List.range_succ
  refine ⟨_, hrun.snoc hstep, ?_, hall, ?_⟩
  · rw [List.map_append, hacks, hrange, List.map_append]
    rfl
  · rw [hall]
    exact filePackets_content hb

/-- A server that is in no transfer accepts a request for a file that it has. -/
theorem request_accepted {name mode : List UInt8} {options : List (List UInt8 × List UInt8)}
    {r : OptionAnswer} (hlast : s.lastSent = 0) (hwas : s.wasLast = false)
    (hdisk : disk name = some content) (hname : ∀ c ∈ name, c ≠ 0) (hmode : ∀ c ∈ mode, c ≠ 0)
    (hzero : ∀ x ∈ options, (∀ c ∈ x.1, c ≠ 0) ∧ ∀ c ∈ x.2, c ≠ 0)
    (hfirst : ∃ x ∈ options.head?, x.1 ≠ [])
    (hlen : (tftpRequest name mode options).length ≤ 1500)
    (hr : options.foldlM (OptionAnswer.answer content.length) ⟨[0, 6], s.blksize⟩ = .ok r)
    (hb : r.blksize = b) :
    ∃ s₁, TftpdStep disk s (tftpRequest name mode options) (some r.o) s₁ ∧
      Transferring content b 0 s₁ := by
  generalize hd : tftpRequest name mode options = d at hlen
  have hdrop : d.drop 2 = name ++ 0 :: (mode ++ 0 ::
      options.flatMap fun x => x.1 ++ [0] ++ x.2 ++ [0]) := by
    rw [← hd, tftpRequest]
    simp
  have hop : d[1]? = some 1 := by
    rw [← hd]
    rfl
  obtain ⟨hstring, hskip, hrest⟩ := string_facts hdrop hname
  obtain ⟨-, hskip', hrest⟩ := string_facts hrest hmode
  obtain ⟨c, hc, hne⟩ : ∃ c, d[2 + name.length + 1 + mode.length + 1]? = some c ∧ c ≠ 0 := by
    obtain ⟨⟨first, value⟩, hhead, hne⟩ := hfirst
    obtain ⟨c, first, rfl⟩ := List.exists_cons_of_ne_nil hne
    obtain ⟨rest, rfl⟩ := List.head?_eq_some_iff.mp hhead
    refine ⟨c, ?_, (hzero _ List.mem_cons_self).1 c List.mem_cons_self⟩
    rw [← Nat.add_zero (2 + name.length + 1 + mode.length + 1), ← List.getElem?_drop, hrest]
    rfl
  have hmore : 2 + name.length + 1 + mode.length + 1 < d.length ∧
      d[2 + name.length + 1 + mode.length + 1]? ≠ some 0 := by
    refine ⟨(List.getElem?_eq_some_iff.mp hc).1, ?_⟩
    rw [hc]
    exact fun h => hne (Option.some_inj.mp h)
  have hfuel : options.length ≤ d.length := by
    have hle := congrArg List.length hrest
    rw [List.length_drop] at hle
    have hpairs := length_le_options options
    omega
  have hloop := (requestOptions_options options hzero hfuel _ hrest).trans hr
  have hread : s.readRequest disk d =
      .ok ({ s with f := some ⟨content, 0⟩, blksize := r.blksize }, some r.o) := by
    simp only [Tftpd.readRequest, hskip, hskip', hstring, bind, Except.bind, hdisk, if_pos hmore,
      hloop, pure, Except.pure]
  have hreceive : s.receive disk d = s.readRequest disk d := by
    rw [Tftpd.receive, List.take_of_length_le hlen, receivedAt, hop]
    rfl
  refine ⟨_, hreceive.trans hread, ⟨0, rfl⟩, hb, hlast, ?_, Nat.zero_le _, Nat.zero_le _⟩
  rw [Nat.zero_mul]
  exact iff_of_false (by rw [hwas]; exact Bool.false_ne_true) (Nat.not_lt_zero _)

end Pc2Drc
