import Pc2Drc.Netboot

/-! What the boot server answers: the reply as a header and a list of options, for a request that is
well formed, and what holds for any bytes that arrive. -/
namespace Pc2Drc
open Lib

variable {c : NetbootConfig} {p : Buffer 1500} {w : ReplyCursor} {pre l : List UInt8}
  {type : UInt8} {pos97 : Option ℕ}

/-- The fixed part of the reply to a request with the fixed part `h`. -/
def NetbootConfig.replyHeader (c : NetbootConfig) (h : List UInt8) : List UInt8 :=
  [2] ++ (h.drop 1).take 11 ++ [0, 0, 0, 0] ++ c.cc.bytes ++ c.sc.bytes ++ h.drop 24

/-- The text of option 67 is followed by a pad, its terminator. -/
def bootItems : List TlvItem :=
  [.record 1 [255, 0, 0, 0], .record 12 clientName, .record 67 bootFile, .pad]

/-- The options of the reply. -/
def NetbootConfig.replyItems (c : NetbootConfig) (type : UInt8) (uuid : Option (List UInt8)) :
    List TlvItem :=
  (uuid.map (TlvItem.record 97)).toList ++
    [.record 53 [if type = 1 then 2 else 5], .record 51 [255, 255, 255, 255],
      .record 54 c.sc.bytes, .record 60 vendorClass] ++
    (if type = 3 then bootItems else []) ++
    [.record 43 (vendorOptions c.sc type)]

/-- The value of the option that is echoed. -/
def echoed (p : Buffer 1500) (pos97 : Option ℕ) : Option (List UInt8) :=
  pos97.map fun k => (p.bytes.drop (k + 1)).take (p.get k).toNat

/-- The cursor stands behind the new bytes `pre`. -/
structure ReplyCursor.At (p : Buffer 1500) (pre : List UInt8) (w : ReplyCursor) : Prop where
  filled : p.Filled pre w.p
  pos : w.i = pre.length

theorem ReplyCursor.At.put (h : w.At p pre) (hn : pre.length + l.length ≤ 1500) :
    ∃ w', w.put l = .ok w' ∧ w'.At p (pre ++ l) := by
  obtain ⟨b, hb, hfill⟩ := h.filled.memcpy h.pos (by rw [h.pos]; exact hn)
  refine ⟨⟨b, w.i + l.length⟩, ?_, hfill, by rw [h.pos, List.length_append]⟩
  rw [ReplyCursor.put, hb]
  rfl

theorem ReplyCursor.At.putMeasured (tag last : UInt8) (body : List UInt8) (h : w.At p pre)
    (hn : pre.length + body.length + 3 ≤ 1500) :
    ∃ w', w.putMeasured tag (body ++ [last]) = .ok w' ∧
      w'.At p (pre ++ (TlvItem.record tag body).bytes ++ [last]) := by
  obtain ⟨w₁, hput₁, h₁⟩ := h.put (l := [tag]) (by rw [List.length_singleton]; omega)
  have hpre : (pre ++ [tag]).length = pre.length + 1 := by simp
  have hskip :
      (⟨w₁.p, w₁.i + 1⟩ : ReplyCursor).At p (pre ++ [tag] ++ [p.get (pre.length + 1)]) := by
    have hkeep := h₁.filled.keep 1 (by omega)
    rw [Buffer.drop_take_succ p (by omega), List.take_zero, hpre] at hkeep
    exact ⟨hkeep, by rw [h₁.pos]; simp⟩
  obtain ⟨w₂, hput₂, h₂⟩ := hskip.put (l := body ++ [last]) (by simp; omega)
  have hfill := h₂.filled
  rw [List.append_assoc (pre ++ [tag])] at hfill
  obtain ⟨b, hb, hback⟩ := hfill.back (v := UInt8.ofNat body.length)
  have hlen : w₂.i - w₁.i - 2 = body.length := by
    rw [h₂.pos, h₁.pos]
    simp only [List.length_append, List.length_singleton]
    omega
  refine ⟨⟨b, w₂.i⟩, ?_, ?_, ?_⟩
  · rw [ReplyCursor.putMeasured, hput₁]
    change (ReplyCursor.put ⟨w₁.p, w₁.i + 1⟩ (body ++ [last]) >>= _) = _
    rw [hput₂]
    change (w₂.p.store w₁.i (UInt8.ofNat (w₂.i - w₁.i - 2)) >>= _) = _
    rw [hlen, h₁.pos, hb]
    rfl
  · simpa [TlvItem.bytes] using hback
  · rw [h₂.pos]
    simp [TlvItem.bytes]

theorem InAddr.length_bytes (x : InAddr) : x.bytes.length = 4 := rfl

theorem replyFields_at (c : NetbootConfig) (p : Buffer 1500) :
    ∃ b, c.replyFields p = .ok b ∧
      (⟨b, 240⟩ : ReplyCursor).At p (c.replyHeader (p.bytes.take 240)) := by
  have hnil : p.Filled [] p := ⟨rfl, Nat.zero_le _⟩
  obtain ⟨b₁, hb₁, h₁⟩ := hnil.store 2 (by decide)
  have hop : p.Filled ([2] ++ (p.bytes.drop 1).take 11) b₁ := h₁.keep 11 (by decide)
  obtain ⟨b₂, hb₂, h₂⟩ := hop.memcpy (i := 12) (l := [0, 0, 0, 0]) (by simp [p.length_bytes])
    (by decide)
  obtain ⟨b₃, hb₃, h₃⟩ := h₂.memcpy (i := 16) (l := c.cc.bytes) (by simp [p.length_bytes])
    (by rw [c.cc.length_bytes]; decide)
  obtain ⟨b₄, hb₄, h₄⟩ := h₃.memcpy (i := 20) (l := c.sc.bytes)
    (by simp [p.length_bytes, InAddr.length_bytes]) (by rw [c.sc.length_bytes]; decide)
  have hlen : ([2] ++ (p.bytes.drop 1).take 11 ++ [0, 0, 0, 0] ++ c.cc.bytes ++
      c.sc.bytes).length = 24 := by
    simp [p.length_bytes, InAddr.length_bytes]
  have hrest := h₄.keep 216 (by rw [hlen]; decide)
  have hhead : (((p.bytes.take 240).drop 1).take 11) = (p.bytes.drop 1).take 11 := by
    rw [List.drop_take, List.take_take]
    rfl
  have htail : (p.bytes.take 240).drop 24 = (p.bytes.drop 24).take 216 := List.drop_take
  refine ⟨b₄, ?_, ?_, ?_⟩
  · exact bind_eq_ok.mpr ⟨b₁, hb₁, bind_eq_ok.mpr ⟨b₂, hb₂, bind_eq_ok.mpr ⟨b₃, hb₃, hb₄⟩⟩⟩
  · rw [hlen] at hrest
    rw [NetbootConfig.replyHeader, hhead, htail]
    exact hrest
  · simp [NetbootConfig.replyHeader, p.length_bytes, InAddr.length_bytes]

/-- Where the option that is echoed may stand. -/
def EchoInside (p : Buffer 1500) (pos97 : Option ℕ) : Prop :=
  ∀ k ∈ pos97, 241 ≤ k ∧ k + 1 + (p.get k).toNat ≤ 1500

theorem length_echoed {k : ℕ} (h : k + 1 + (p.get k).toNat ≤ 1500) :
    ((p.bytes.drop (k + 1)).take (p.get k).toNat).length = (p.get k).toNat := by
  rw [List.length_take, List.length_drop, p.length_bytes]
  omega

/-- Before the copy: the tag and the length are there, and what follows is still the request. -/
theorem echo_start {k : ℕ} (h : w.At p pre) (hpre : pre.length = 240) (hk : 241 ≤ k)
    (hlt : k < 1500) : ∃ w' : ReplyCursor, w'.At p (pre ++ [97, p.get k]) ∧ w.echo (some k) = (do
      let b ← w'.p.copyForward w'.i (k + 1) (p.get k).toNat
      return ⟨b, w'.i + (p.get k).toNat⟩) := by
  obtain ⟨w₁, hput₁, h₁⟩ := h.put (l := [97]) (by rw [hpre]; decide)
  have hread : w₁.p.fetch k = .ok (p.get k) := by
    refine Buffer.fetch_eq_ok.mpr ⟨hlt, (h₁.filled.get ?_).symm⟩
    rw [List.length_append, hpre]
    exact hk
  obtain ⟨w₂, hput₂, h₂⟩ := h₁.put (l := [p.get k])
    (by rw [List.length_append, hpre, List.length_singleton, List.length_singleton]; decide)
  refine ⟨w₂, by rwa [List.append_assoc] at h₂, ?_⟩
  rw [ReplyCursor.echo, hput₁]
  change (w₁.p.fetch k >>= _) = _
  rw [hread]
  change (w₁.put [p.get k] >>= _) = _
  rw [hput₂]
  rfl

theorem echo_at (h : w.At p pre) (hpre : pre.length = 240) (hin : EchoInside p pos97) :
    ∃ w', w.echo pos97 = .ok w' ∧
      w'.At p (pre ++ tlvBytes ((echoed p pos97).map (TlvItem.record 97)).toList) := by
  cases pos97 with
  | none => exact ⟨w, rfl, by rwa [echoed, Option.map_none, Option.map_none, Option.toList_none,
      tlvBytes, List.flatMap_nil, List.append_nil]⟩
  | some k =>
    obtain ⟨hk, hend⟩ := hin k rfl
    obtain ⟨w', h', hecho⟩ := echo_start h hpre hk (by omega)
    have hlen : (pre ++ [97, p.get k]).length = 242 := by
      rw [List.length_append, hpre]
      rfl
    have hbehind : (pre ++ [97, p.get k]).length ≤ k + 1 := by
      rw [hlen]
      omega
    obtain ⟨b, hb, hfill⟩ := h'.filled.copyForward hbehind hend
    have hvalue : [97, p.get k] ++ (p.bytes.drop (k + 1)).take (p.get k).toNat =
        tlvBytes ((echoed p (some k)).map (TlvItem.record 97)).toList := by
      rw [echoed, Option.map_some, Option.map_some, Option.toList_some, tlvBytes,
        List.flatMap_singleton, TlvItem.bytes, length_echoed hend, UInt8.ofNat_toNat]
      rfl
    rw [← h'.pos] at hb
    rw [List.append_assoc, hvalue] at hfill
    refine ⟨⟨b, w'.i + (p.get k).toNat⟩, ?_, hfill, ?_⟩
    · rw [hecho, hb]
      rfl
    · change w'.i + (p.get k).toNat = _
      rw [h'.pos, ← hvalue, ← List.append_assoc, @List.length_append _ _ (List.take _ _),
        length_echoed hend]

theorem echo_outOfBounds {k : ℕ} (h : w.At p pre) (hpre : pre.length = 240) (hk : 241 ≤ k)
    (hlt : k < 1500) (hend : 1500 < k + 1 + (p.get k).toNat) :
    w.echo (some k) = .error .outOfBounds := by
  obtain ⟨w', h', hecho⟩ := echo_start h hpre hk hlt
  have hpos : w'.i = 242 := by
    rw [h'.pos, List.length_append, hpre]
    rfl
  rw [hecho, Buffer.copyForward_outOfBounds (by omega) (by omega) hend]
  rfl

theorem length_replyHeader {h : List UInt8} (hh : h.length = 240) :
    (c.replyHeader h).length = 240 := by
  simp [NetbootConfig.replyHeader, InAddr.length_bytes, hh]

theorem length_take_header (p : Buffer 1500) : (p.bytes.take 240).length = 240 := by
  rw [List.length_take, p.length_bytes]
  rfl

theorem length_vendorOptions (sc : InAddr) (type : UInt8) :
    (vendorOptions sc type).length ≤ 12 := by
  unfold vendorOptions
  split
  · exact le_rfl
  · exact Nat.zero_le _

theorem length_tlvBytes_echo (p : Buffer 1500) (pos97 : Option ℕ) :
    (tlvBytes ((echoed p pos97).map (TlvItem.record 97)).toList).length ≤ 257 := by
  cases pos97 with
  | none => exact Nat.zero_le _
  | some k =>
    have hn := (p.get k).toNat_lt
    simp only [echoed, Option.map_some, Option.toList_some, tlvBytes, List.flatMap_singleton,
      TlvItem.bytes, List.length_cons, List.length_take]
    omega

theorem ReplyCursor.At.putBoot (type : UInt8) (h : w.At p pre) (hn : pre.length ≤ 1400) :
    ∃ w', w.putBoot type = .ok w' ∧
      w'.At p (pre ++ tlvBytes (if type = 3 then bootItems else [])) := by
  by_cases h3 : type = 3
  · obtain ⟨w₁, e₁, h₁⟩ := h.put (l := [1, 4, 255, 0, 0, 0]) (by simp; omega)
    obtain ⟨w₂, e₂, h₂⟩ := h₁.put (l := [12, 9] ++ clientName) (by simp [clientName]; omega)
    obtain ⟨w₃, e₃, h₃⟩ := h₂.putMeasured 67 0 bootFile
      (by simp [clientName, bootFile]; omega)
    refine ⟨w₃, ?_, ?_⟩
    · rw [ReplyCursor.putBoot, if_pos h3]
      exact bind_eq_ok.mpr ⟨w₁, e₁, bind_eq_ok.mpr ⟨w₂, e₂, e₃⟩⟩
    · have hbytes : tlvBytes bootItems = [1, 4, 255, 0, 0, 0] ++ ([12, 9] ++ clientName) ++
          (TlvItem.record 67 bootFile).bytes ++ [0] := rfl
      rw [if_pos h3, hbytes]
      simpa only [List.append_assoc] using h₃
  · refine ⟨w, if_neg h3, ?_⟩
    rwa [if_neg h3, tlvBytes, List.flatMap_nil, List.append_nil]

/-- The reply of a turn whose option 97 lies inside the array. -/
theorem reply_eq (hin : EchoInside p pos97) :
    c.reply type pos97 p = .ok (c.replyHeader (p.bytes.take 240) ++
      tlvBytes (c.replyItems type (echoed p pos97)) ++ [255, 255]) := by
  obtain ⟨b, hb, hhead⟩ := replyFields_at c p
  have hlen := length_replyHeader (c := c) (length_take_header p)
  obtain ⟨w₀, he, h₀⟩ := echo_at hhead hlen hin
  have hecho := length_tlvBytes_echo p pos97
  generalize hpre : c.replyHeader (p.bytes.take 240) ++
    tlvBytes ((echoed p pos97).map (TlvItem.record 97)).toList = pre at h₀
  have hle : pre.length ≤ 497 := by
    rw [← hpre, List.length_append, hlen]
    omega
  obtain ⟨w₁, e₁, h₁⟩ := h₀.put (l := [53, 1, if type = 1 then 2 else 5]) (by simp; omega)
  obtain ⟨w₂, e₂, h₂⟩ := h₁.put (l := [51, 4, 255, 255, 255, 255]) (by simp; omega)
  obtain ⟨w₃, e₃, h₃⟩ := h₂.put (l := [54, 4] ++ c.sc.bytes)
    (by simp [InAddr.length_bytes]; omega)
  obtain ⟨w₄, e₄, h₄⟩ := h₃.put (l := [60, 9] ++ vendorClass)
    (by simp [InAddr.length_bytes, vendorClass]; omega)
  obtain ⟨w₅, e₅, h₅⟩ := h₄.putBoot type
    (by simp [InAddr.length_bytes, vendorClass]; omega)
  have hboot : (tlvBytes (if type = 3 then bootItems else [])).length ≤ 30 := by
    split <;> decide
  have hvendor := length_vendorOptions c.sc type
  obtain ⟨w₆, e₆, h₆⟩ := h₅.putMeasured 43 255 (vendorOptions c.sc type)
    (by simp [InAddr.length_bytes, vendorClass]; omega)
  obtain ⟨w₇, e₇, h₇⟩ := h₆.put (l := [255])
    (by simp [InAddr.length_bytes, vendorClass, TlvItem.bytes]; omega)
  have hreply : c.reply type pos97 p = .ok (w₇.p.bytes.take w₇.i) := by
    rw [NetbootConfig.reply]
    simp only [hb, he, e₁, e₂, e₃, e₄, e₅, e₆, e₇, bind, Except.bind, pure, Except.pure]
  rw [hreply, h₇.filled.bytes, h₇.pos, List.take_left, ← hpre]
  simp only [NetbootConfig.replyItems, tlvBytes, List.flatMap_append, List.flatMap_cons,
    List.flatMap_nil, List.append_nil, List.append_assoc]
  rfl

end Pc2Drc
