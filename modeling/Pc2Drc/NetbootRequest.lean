import Pc2Drc.NetbootReply

/-! Requests: the loop over the options of a well-formed one, and the turn that it leads to. -/
namespace Pc2Drc
open Lib

variable {c : NetbootConfig} {p : Buffer 1500} {pre rest : List UInt8} {items done : List TlvItem}
  {s s' : OptionScan} {fuel i : ℕ} {tag : UInt8} {value datagram : List UInt8}

/-- A request with a fixed part and options that can be told apart. -/
structure DhcpRequest where
  header : List UInt8
  options : List TlvItem
  length_header : header.length = 240
  valid : ∀ x ∈ options, x.Valid
  typed : ∀ v, TlvItem.record 53 v ∈ options → v ≠ []

namespace DhcpRequest

def bytes (r : DhcpRequest) : List UInt8 := r.header ++ (tlvBytes r.options ++ [255])

/-- The hardware address, as long as an Ethernet one. -/
def chaddr (r : DhcpRequest) : List UInt8 := (r.header.drop 28).take 6

end DhcpRequest

/-- What the loop knows when it has passed `done`. -/
structure Scanned (p : Buffer 1500) (done : List TlvItem) (s : OptionScan) : Prop where
  type : s.type = (tlvLast 53 done).bind List.head?
  uuid : echoed p s.pos97 = tlvLast 97 done
  uuid_inside : EchoInside p s.pos97
  name : echoed p s.pos12 = tlvLast 12 done
  name_inside : EchoInside p s.pos12

theorem scanned_nil (p : Buffer 1500) : Scanned p [] ⟨none, none, none⟩ :=
  ⟨rfl, rfl, (fun _ hk => nomatch hk), rfl, (fun _ hk => nomatch hk)⟩

/-- The bytes of a record where the loop finds it. -/
structure RecordAt (p : Buffer 1500) (i : ℕ) (tag : UInt8) (value : List UInt8) : Prop where
  get_tag : p.get i = tag
  get_length : (p.get (i + 1)).toNat = value.length
  take_value : (p.bytes.drop (i + 2)).take value.length = value
  inside : i + 2 + value.length ≤ 1500

theorem recordAt_of_bytes (h : (TlvItem.record tag value).Valid)
    (hbytes : p.bytes = pre ++ ((TlvItem.record tag value).bytes ++ rest)) :
    RecordAt p pre.length tag value := by
  have hlen := congrArg List.length hbytes
  rw [p.length_bytes] at hlen
  simp only [TlvItem.bytes, List.length_append, List.length_cons] at hlen
  have hnext : p.bytes = (pre ++ [tag]) ++ UInt8.ofNat value.length :: (value ++ rest) := by
    rw [hbytes, List.append_assoc]
    rfl
  refine ⟨Buffer.get_of_bytes hbytes, ?_, ?_, by omega⟩
  · have hget := Buffer.get_of_bytes hnext
    rw [List.length_append, List.length_singleton] at hget
    rw [hget, UInt8.toNat_ofNat', Nat.mod_eq_of_lt h.2.2]
  · have hdrop : p.bytes.drop (pre.length + 2) = value ++ rest := by
      rw [hbytes, ← List.drop_drop, List.drop_left]
      rfl
    rw [hdrop, List.take_left]

theorem RecordAt.first (h : RecordAt p i tag value) (hne : value ≠ []) :
    p.fetch (i + 2) = .ok (value.headD 0) := by
  obtain ⟨x, value, rfl⟩ := List.exists_cons_of_ne_nil hne
  have hin := h.inside
  rw [List.length_cons] at hin
  refine Buffer.fetch_eq_ok.mpr ⟨by omega, ?_⟩
  have hvalue := h.take_value
  rw [List.length_cons, Buffer.drop_take_succ p (by omega), List.cons.injEq] at hvalue
  exact hvalue.1.symm

/-- Where one of the two positions is set. -/
theorem RecordAt.echoed_eq (h : RecordAt p i tag value) (hi : 240 ≤ i) :
    echoed p (some (i + 1)) = some value ∧ EchoInside p (some (i + 1)) := by
  have hin := h.inside
  refine ⟨?_, ?_⟩
  · rw [echoed, Option.map_some, h.get_length, h.take_value]
  · intro k hk
    cases hk
    rw [h.get_length]
    omega

/-- One turn of the loop. -/
theorem scanOptions_record (h : RecordAt p i tag value) (hv : (TlvItem.record tag value).Valid)
    (h53 : tag = 53 → value ≠ []) :
    scanOptions p (fuel + 1) i s =
      scanOptions p fuel (i + value.length + 2) (s.record tag (value.headD 0) i) := by
  have hin := h.inside
  have hn : p.fetch (i + 1) = .ok (p.get (i + 1)) := Buffer.fetch_eq_ok.mpr ⟨by omega, rfl⟩
  rw [scanOptions, firstOfType, if_pos (by omega), h.get_tag, if_neg hv.2.1, if_neg hv.1]
  by_cases ht : tag = 53
  · rw [if_pos ht, h.first (h53 ht), hn, ← h.get_length]
    rfl
  · have hsame : s.record tag (value.headD 0) i = s.record tag 0 i := by
      simp only [OptionScan.record, if_neg ht]
    rw [if_neg ht, hn, hsame, ← h.get_length]
    rfl

theorem Scanned.record (hs : Scanned p done s) (h : RecordAt p i tag value) (hi : 240 ≤ i)
    (h53 : tag = 53 → value ≠ []) :
    Scanned p (done ++ [.record tag value]) (s.record tag (value.headD 0) i) := by
  obtain ⟨hecho, hinside⟩ := h.echoed_eq hi
  refine ⟨?_, ?_, ?_, ?_, ?_⟩
  · rw [tlvLast_snoc_record, OptionScan.record]
    by_cases ht : tag = 53
    · obtain ⟨x, value, rfl⟩ := List.exists_cons_of_ne_nil (h53 ht)
      rw [if_pos ht, if_pos ht]
      rfl
    · rw [if_neg ht, if_neg ht, hs.type]
  · change echoed p (if tag = 97 then _ else _) = _
    rw [tlvLast_snoc_record]
    split
    · exact hecho
    · exact hs.uuid
  · change EchoInside p (if tag = 97 then _ else _)
    split
    · exact hinside
    · exact hs.uuid_inside
  · change echoed p (if tag = 12 then _ else _) = _
    rw [tlvLast_snoc_record]
    split
    · exact hecho
    · exact hs.name
  · change EchoInside p (if tag = 12 then _ else _)
    split
    · exact hinside
    · exact hs.name_inside

theorem Scanned.pad (hs : Scanned p done s) : Scanned p (done ++ [.pad]) s := by
  refine ⟨?_, ?_, hs.uuid_inside, ?_, hs.name_inside⟩
  · rw [tlvLast_snoc_pad, hs.type]
  · rw [tlvLast_snoc_pad, hs.uuid]
  · rw [tlvLast_snoc_pad, hs.name]

/-- The loop passes every option and stops at the end mark. -/
theorem scanOptions_items (hbytes : p.bytes = pre ++ (tlvBytes items ++ 255 :: rest))
    (hpre : 240 ≤ pre.length) (hvalid : ∀ x ∈ items, x.Valid)
    (h53 : ∀ v, TlvItem.record 53 v ∈ items → v ≠ []) (hfuel : items.length < fuel)
    (hs : Scanned p done s) :
    ∃ s', scanOptions p fuel pre.length s = .ok s' ∧ Scanned p (done ++ items) s' := by
  induction items generalizing pre done s fuel with
  | nil =>
    cases fuel with
    | zero => omega
    | succ fuel =>
      have hlen := congrArg List.length hbytes
      rw [p.length_bytes, List.length_append, List.length_append, List.length_cons] at hlen
      refine ⟨s, ?_, by rwa [List.append_nil]⟩
      rw [scanOptions, if_pos (by omega), Buffer.get_of_bytes hbytes, if_pos rfl]
  | cons x items ih =>
    cases fuel with
    | zero => omega
    | succ fuel =>
      have hrest : p.bytes = (pre ++ x.bytes) ++ (tlvBytes items ++ 255 :: rest) := by
        rw [hbytes, tlvBytes_cons, List.append_assoc, List.append_assoc]
      have htail {done' : List TlvItem} {s₁ : OptionScan} (hs₁ : Scanned p done' s₁) :=
        ih hrest (by rw [List.length_append]; omega)
          (fun y hy => hvalid y (List.mem_cons_of_mem _ hy))
          (fun v hv => h53 v (List.mem_cons_of_mem _ hv)) (Nat.lt_of_succ_lt_succ hfuel) hs₁
      rw [List.append_assoc] at hrest
      rw [← List.singleton_append, ← List.append_assoc]
      cases x with
      | pad =>
        have hlen := congrArg List.length hrest
        rw [p.length_bytes, List.length_append, List.length_append, TlvItem.bytes,
          List.length_singleton] at hlen
        obtain ⟨s', hscan, hs'⟩ := htail hs.pad
        refine ⟨s', ?_, hs'⟩
        rw [scanOptions, if_pos (by omega), Buffer.get_of_bytes hrest, if_neg (by decide),
          if_pos rfl, ← hscan, List.length_append]
        rfl
      | record tag value =>
        have hv := hvalid _ List.mem_cons_self
        have hne : tag = 53 → value ≠ [] := by
          rintro rfl
          exact h53 value List.mem_cons_self
        have hat := recordAt_of_bytes hv hrest
        obtain ⟨s', hscan, hs'⟩ := htail (hs.record hat hpre hne)
        refine ⟨s', ?_, hs'⟩
        rw [scanOptions_record hat hv hne, ← hscan, List.length_append, TlvItem.bytes,
          List.length_cons, List.length_cons]
        rfl

theorem printString_inside {limit : ℕ} (h : i + limit ≤ 1500) :
    ∃ text, printString p limit i = .ok text := by
  induction limit generalizing i with
  | zero => exact ⟨[], rfl⟩
  | succ limit ih =>
    obtain ⟨text, htext⟩ := ih (i := i + 1) (by omega)
    rw [printString, Buffer.fetch_eq_ok.mpr ⟨by omega, rfl⟩]
    by_cases hz : p.get i = 0
    · exact ⟨[], if_pos hz⟩
    · refine ⟨p.get i :: text, (if_neg hz).trans ?_⟩
      rw [htext]
      rfl

theorem printString_terminated {limit j : ℕ} (hij : i ≤ j) (hj : j < 1500) (hz : p.get j = 0) :
    ∃ text, printString p limit i = .ok text := by
  induction limit generalizing i with
  | zero => exact ⟨[], rfl⟩
  | succ limit ih =>
    rw [printString, Buffer.fetch_eq_ok.mpr ⟨by omega, rfl⟩]
    by_cases hzi : p.get i = 0
    · exact ⟨[], if_pos hzi⟩
    · have hne : i ≠ j := by
        rintro rfl
        exact hzi hz
      obtain ⟨text, htext⟩ := ih (i := i + 1) (by omega)
      refine ⟨p.get i :: text, (if_neg hzi).trans ?_⟩
      rw [htext]
      rfl

/-- The array is longer than the request, so even the server name ends inside. -/
theorem requestName_ok {pos12 : Option ℕ} (h : EchoInside p pos12) (hz : p.get 1499 = 0) :
    ∃ name, requestName p pos12 = .ok name := by
  cases pos12 with
  | none => exact printString_terminated (by decide) (by decide) hz
  | some k =>
    obtain ⟨_, hend⟩ := h k rfl
    obtain ⟨name, hname⟩ := printString_inside (p := p) hend
    refine ⟨name, ?_⟩
    rw [requestName, Buffer.fetch_eq_ok.mpr ⟨by omega, rfl⟩]
    exact hname

theorem macMatches_iff : c.macMatches p = true ↔ c.macpat.1 <:+ (p.bytes.drop 28).take 6 := by
  have hle := c.macpat.2
  have hlen : ((p.bytes.drop 28).take 6).length = 6 := by
    rw [List.length_take, List.length_drop, p.length_bytes]
    rfl
  rw [NetbootConfig.macMatches, beq_iff_eq, List.suffix_iff_eq_drop, hlen, List.drop_take,
    List.drop_drop, NetbootConfig.macskip, Nat.sub_sub_self hle]
  exact eq_comm

/-- A turn that gets to the end of the loop over the options. -/
theorem receive_eq {name : List UInt8} {type : UInt8} (hp : received datagram = p)
    (hop : p.get 0 ≠ 2) (hscan : scanOptions p 1500 240 ⟨none, none, none⟩ = .ok s)
    (htype : s.type = some type) (hname : requestName p s.pos12 = .ok name) :
    c.receive datagram =
      if c.cc ≠ InAddr.zero ∧ c.macMatches p = true then
        if type = 1 ∨ type = 3 then do
          let d ← c.reply type s.pos97 p
          return ⟨some (type, (p.bytes.drop 28).take 6, name), true, some (c.bc, d)⟩
        else .ok ⟨some (type, (p.bytes.drop 28).take 6, name), true, none⟩
      else .ok ⟨some (type, (p.bytes.drop 28).take 6, name), false, none⟩ := by
  subst hp
  rw [NetbootConfig.receive, if_neg hop]
  simp only [hscan, htype, hname, initialized, bind, Except.bind, pure, Except.pure]
  by_cases hcc : c.cc = InAddr.zero
  · rw [if_pos hcc, if_neg fun h => h.1 hcc]
  · by_cases hmac : c.macMatches (received datagram) = true
    · rw [if_neg hcc, if_neg (not_not_intro hmac), if_pos (And.intro hcc hmac)]
    · rw [if_neg hcc, if_pos hmac, if_neg fun h => hmac h.2]

theorem bytes_received (hne : datagram ≠ []) (hlen : datagram.length ≤ 1500) :
    (received datagram).bytes = datagram ++ List.replicate (1500 - datagram.length) 0 := by
  obtain ⟨x, l, rfl⟩ := List.exists_cons_of_ne_nil hne
  have hdrop : (0xff :: List.replicate 1499 (0 : UInt8)).drop (0 + (x :: l).length) =
      List.replicate (1500 - (x :: l).length) 0 := by
    rw [Nat.zero_add, List.length_cons, List.drop_succ_cons, List.drop_replicate,
      Nat.add_sub_add_right 1499 1]
  have hbytes : (received (x :: l)).bytes =
      blit (0xff :: List.replicate 1499 0) 0 ((x :: l).take 1500) := rfl
  rw [hbytes, List.take_of_length_le hlen, blit, hdrop, List.take_zero, List.nil_append]

theorem get_received_of_le (hne : datagram ≠ [])
    (hlen : datagram.length ≤ 1500) (hi : datagram.length ≤ i) :
    (received datagram).get i = 0 := by
  rw [Buffer.get, bytes_received hne hlen, List.getD_eq_getElem?_getD,
    List.getElem?_append_right hi, List.getElem?_replicate]
  split <;> rfl

theorem DhcpRequest.length_bytes (r : DhcpRequest) :
    r.bytes.length = 240 + (tlvBytes r.options).length + 1 := by
  rw [DhcpRequest.bytes, List.length_append, List.length_append, r.length_header]
  rfl

theorem DhcpRequest.bytes_ne_nil (r : DhcpRequest) : r.bytes ++ rest ≠ [] := by
  simp [DhcpRequest.bytes]

theorem DhcpRequest.bytes_received (r : DhcpRequest) (h : (r.bytes ++ rest).length < 1500) :
    (received (r.bytes ++ rest)).bytes = r.header ++ (tlvBytes r.options ++ 255 :: (rest ++
      List.replicate (1500 - (r.bytes ++ rest).length) 0)) := by
  rw [Pc2Drc.bytes_received r.bytes_ne_nil h.le, DhcpRequest.bytes]
  simp only [List.append_assoc, List.cons_append, List.nil_append]

theorem replyItems_valid {type : UInt8} {uuid : Option (List UInt8)}
    (h : ∀ v ∈ uuid, v.length < 256) : ∀ x ∈ c.replyItems type uuid, x.Valid := by
  have hboot : ∀ x ∈ bootItems, x.Valid := by decide
  have hvendor := length_vendorOptions c.sc type
  intro x hx
  simp only [NetbootConfig.replyItems, List.mem_append] at hx
  rcases hx with ((hx | hx) | hx) | hx
  · obtain ⟨v, hv, rfl⟩ := Option.map_eq_some_iff.mp (Option.mem_toList.mp hx)
    exact ⟨by decide, by decide, h v hv⟩
  · simp only [List.mem_cons, List.not_mem_nil, or_false] at hx
    rcases hx with rfl | rfl | rfl | rfl <;>
      exact ⟨by decide, by decide, by simp [InAddr.bytes, vendorClass]⟩
  · split at hx
    · exact hboot x hx
    · cases hx
  · rw [List.mem_singleton.mp hx]
    exact ⟨by decide, by decide, by omega⟩

theorem length_replyItems (c : NetbootConfig) (type : UInt8) (uuid : Option (List UInt8)) :
    (c.replyItems type uuid).length ≤ 10 := by
  have hboot : (if type = 3 then bootItems else []).length ≤ 4 := by
    split <;> decide
  have huuid : (uuid.map (TlvItem.record 97)).toList.length ≤ 1 := Option.length_toList_le
  simp only [NetbootConfig.replyItems, List.length_append, List.length_cons, List.length_nil]
  omega

/-- A reply that a client can read: the fixed part for the request with the fixed part `h`, and
options that decode to what is offered. -/
structure IsDhcpReply (c : NetbootConfig) (h : List UInt8) (type : UInt8)
    (uuid : Option (List UInt8)) (d : List UInt8) : Prop where
  header : d.take 240 = c.replyHeader h
  options : decodeTlv 1500 (d.drop 240) = some (tlvRecords (c.replyItems type uuid))

theorem isDhcpReply_of_eq {h d : List UInt8} {type : UInt8} {uuid : Option (List UInt8)}
    (hh : h.length = 240) (huuid : ∀ v ∈ uuid, v.length < 256)
    (hd : d = c.replyHeader h ++ tlvBytes (c.replyItems type uuid) ++ [255, 255]) :
    IsDhcpReply c h type uuid d := by
  have hlen := length_replyHeader (c := c) hh
  have hitems := length_replyItems c type uuid
  subst hd
  rw [List.append_assoc]
  refine ⟨by rw [← hlen, List.take_left], ?_⟩
  rw [← hlen, List.drop_left]
  exact decodeTlv_tlvBytes (replyItems_valid huuid) (by omega) [255]

theorem length_of_mem_echoed {pos : Option ℕ} : ∀ v ∈ echoed p pos, v.length < 256 := by
  intro v hv
  obtain ⟨k, _, rfl⟩ := Option.map_eq_some_iff.mp hv
  have hlt := (p.get k).toNat_lt
  rw [List.length_take]
  omega

/-- A server that is told a pattern of addresses, in any spelling, answers the requests of types 1
and 3 from those addresses and no others; the client reads back its own option 97 and the
addresses it is given. -/
theorem dhcp_request_answered {bc sc cc : InAddr} {entries : List SpelledByte}
    {tail rest value : List UInt8} {type : UInt8} {r : DhcpRequest}
    (hsep : ∀ e ∈ entries, NoDigits e.before) (htail : NoDigits tail) (hlen : entries.length ≤ 6)
    (hsize : (r.bytes ++ rest).length < 1500) (hop : r.header.head? ≠ some 2)
    (htype : tlvLast 53 r.options = some (type :: value)) :
    ∃ c turn, NetbootConfig.ofArgs bc sc cc (spelledMac entries tail) = .ok c ∧ c.sc = sc ∧
      c.cc = cc ∧ c.receive (r.bytes ++ rest) = .ok turn ∧
      (turn.sent ≠ none ↔ cc ≠ InAddr.zero ∧ entries.map SpelledByte.byte <:+ r.chaddr ∧
        (type = 1 ∨ type = 3)) ∧
      ∀ dest d, turn.sent = some (dest, d) →
        dest = bc ∧ IsDhcpReply c r.header type (tlvLast 97 r.options) d := by
  obtain ⟨c, hc, rfl, rfl, rfl, hpat⟩ := ofArgs_spelled bc sc cc hsep htail hlen
  have hbytes := r.bytes_received hsize
  have hlast := get_received_of_le r.bytes_ne_nil hsize.le (Nat.le_of_lt_succ hsize)
  generalize hp : received (r.bytes ++ rest) = p at hbytes hlast
  have hheader : p.bytes.take 240 = r.header := by
    rw [hbytes, ← r.length_header, List.take_left]
  have hchaddr : (p.bytes.drop 28).take 6 = r.chaddr := by
    rw [DhcpRequest.chaddr, ← hheader, List.drop_take, List.take_take]
    rfl
  have hzero : p.get 0 ≠ 2 := by
    intro h2
    obtain ⟨x, h, hcons⟩ :=
      List.exists_cons_of_ne_nil (List.ne_nil_of_length_eq_add_one r.length_header)
    rw [hcons] at hop hbytes
    rw [Buffer.get, hbytes] at h2
    exact hop (congrArg some h2)
  have hcount : r.options.length < 1500 := by
    have hle := length_le_tlvBytes r.options
    rw [List.length_append, DhcpRequest.length_bytes] at hsize
    omega
  obtain ⟨s, hscan, hs⟩ := scanOptions_items hbytes r.length_header.ge r.valid r.typed hcount
    (scanned_nil p)
  rw [r.length_header] at hscan
  rw [List.nil_append] at hs
  have hst : s.type = some type := by
    rw [hs.type, htype]
    rfl
  obtain ⟨name, hname⟩ := requestName_ok hs.name_inside hlast
  have hreceive := receive_eq (c := c) hp hzero hscan hst hname
  have hmatch : c.macMatches p = true ↔ entries.map SpelledByte.byte <:+ r.chaddr := by
    rw [macMatches_iff, hpat, hchaddr]
  rw [reply_eq hs.uuid_inside] at hreceive
  by_cases hto : c.cc ≠ InAddr.zero ∧ c.macMatches p = true
  · by_cases h13 : type = 1 ∨ type = 3
    · rw [if_pos hto, if_pos h13] at hreceive
      refine ⟨c, _, hc, rfl, rfl, hreceive, ?_, ?_⟩
      · exact iff_of_true (Option.some_ne_none _) ⟨hto.1, hmatch.mp hto.2, h13⟩
      · intro dest d hd
        obtain ⟨rfl, rfl⟩ := Prod.mk.inj (Option.some.inj hd)
        refine ⟨rfl, isDhcpReply_of_eq r.length_header ?_ ?_⟩
        · rw [← hs.uuid]
          exact length_of_mem_echoed
        · rw [hheader, hs.uuid]
    · rw [if_pos hto, if_neg h13] at hreceive
      exact ⟨c, _, hc, rfl, rfl, hreceive, iff_of_false (fun h => h rfl) fun h => h13 h.2.2,
        fun _ _ hd => absurd hd.symm (Option.some_ne_none _)⟩
  · rw [if_neg hto] at hreceive
    exact ⟨c, _, hc, rfl, rfl, hreceive,
      iff_of_false (fun h => h rfl) fun h => hto ⟨h.1, hmatch.mpr h.2.1⟩,
      fun _ _ hd => absurd hd.symm (Option.some_ne_none _)⟩

/-- A request of type 1 from `00:00:00:00:66:ef`. -/
def sampleRequest : DhcpRequest where
  header := List.replicate 32 0 ++ [0x66, 0xef] ++ List.replicate 206 0
  options := [.record 97 [0, 1, 2], .pad, .record 53 [1]]
  length_header := by
    rw [List.length_append, List.length_append, List.length_replicate, List.length_replicate]
    rfl
  valid := by decide
  typed := by
    intro v hv
    simp only [List.mem_cons, TlvItem.record.injEq, List.not_mem_nil, or_false] at hv
    rcases hv with ⟨h, _⟩ | hv | ⟨_, rfl⟩
    · cases h
    · cases hv
    · decide

/-- For the pattern `-66-EF`. -/
theorem dhcp_request_answered_sample :
    ∃ c turn, NetbootConfig.ofArgs ⟨192, 168, 1, 255⟩ ⟨192, 168, 1, 10⟩ ⟨192, 168, 1, 11⟩
      [45, 54, 54, 45, 69, 70] = .ok c ∧ c.receive sampleRequest.bytes = .ok turn ∧
      turn.sent ≠ none := by
  have hdash : NoDigits [45] := by
    intro c hc
    rw [List.mem_singleton.mp hc]
    rfl
  obtain ⟨c, turn, hc, _, _, hturn, hsent, _⟩ := @dhcp_request_answered
    ⟨192, 168, 1, 255⟩ ⟨192, 168, 1, 10⟩ ⟨192, 168, 1, 11⟩
    [⟨[45], false, false, 0x66⟩, ⟨[45], true, true, 0xef⟩] [] [] [] 1 sampleRequest
    (by
      intro e he
      simp only [List.mem_cons, List.not_mem_nil, or_false] at he
      rcases he with rfl | rfl <;> exact hdash)
    (fun _ h => nomatch h) (by decide)
    (by rw [List.append_nil, DhcpRequest.length_bytes]; decide) (by decide) (by decide)
  rw [List.append_nil] at hturn
  exact ⟨c, turn, hc, hturn, hsent.mpr (by decide)⟩

/-- Whatever the bytes are, the positions the loop keeps are inside. -/
theorem scanOptions_pos97 (h : scanOptions p fuel i s = .ok s') (hi : 240 ≤ i)
    (hs : ∀ k ∈ s.pos97, 241 ≤ k ∧ k < 1500) : ∀ k ∈ s'.pos97, 241 ≤ k ∧ k < 1500 := by
  induction fuel generalizing i s with
  | zero =>
    cases h
    exact hs
  | succ fuel ih =>
    rw [scanOptions] at h
    split at h
    · split at h
      · cases h
        exact hs
      · split at h
        · exact ih h (by omega) hs
        · obtain ⟨first, _, h⟩ := bind_eq_ok.mp h
          obtain ⟨n, hn, h⟩ := bind_eq_ok.mp h
          have hlt := (Buffer.fetch_eq_ok.mp hn).1
          refine ih h (by omega) ?_
          intro k hk
          change k ∈ (if p.get i = 97 then some (i + 1) else s.pos97) at hk
          split at hk
          · cases hk
            omega
          · exact hs k hk
    · cases h
      exact hs

/-- The loop over the options can only read past the array. -/
theorem scanOptions_error {e : Fault} (h : scanOptions p fuel i s = .error e) :
    e = .outOfBounds := by
  induction fuel generalizing i s with
  | zero => cases h
  | succ fuel ih =>
    rw [scanOptions] at h
    split at h
    · split at h
      · cases h
      · split at h
        · exact ih h
        · rcases bind_eq_error.mp h with h | ⟨first, _, h⟩
          · unfold firstOfType at h
            split at h
            · exact Buffer.fetch_error h
            · cases h
          · rcases bind_eq_error.mp h with h | ⟨n, _, h⟩
            · exact Buffer.fetch_error h
            · exact ih h
    · cases h

theorem printString_error {limit : ℕ} {e : Fault} (h : printString p limit i = .error e) :
    e = .outOfBounds := by
  induction limit generalizing i with
  | zero => cases h
  | succ limit ih =>
    rcases bind_eq_error.mp h with h | ⟨x, _, h⟩
    · exact Buffer.fetch_error h
    · split at h
      · cases h
      · rcases bind_eq_error.mp h with h | ⟨text, _, h⟩
        · exact ih h
        · cases h

theorem requestName_error {pos12 : Option ℕ} {e : Fault} (h : requestName p pos12 = .error e) :
    e = .outOfBounds := by
  cases pos12 with
  | none => exact printString_error h
  | some k =>
    rcases bind_eq_error.mp h with h | ⟨n, _, h⟩
    · exact Buffer.fetch_error h
    · exact printString_error h

theorem reply_cases (c : NetbootConfig) (type : UInt8) {pos97 : Option ℕ}
    (h : ∀ k ∈ pos97, 241 ≤ k ∧ k < 1500) :
    EchoInside p pos97 ∨ c.reply type pos97 p = .error .outOfBounds := by
  cases pos97 with
  | none => exact Or.inl fun _ hk => nomatch hk
  | some k =>
    obtain ⟨hk, hlt⟩ := h k rfl
    by_cases hend : k + 1 + (p.get k).toNat ≤ 1500
    · left
      intro j hj
      cases hj
      exact ⟨hk, hend⟩
    · right
      obtain ⟨b, hb, hhead⟩ := replyFields_at c p
      have hecho := echo_outOfBounds hhead (length_replyHeader (length_take_header p)) hk hlt
        (Nat.lt_of_not_le hend)
      rw [NetbootConfig.reply, hb]
      change (ReplyCursor.echo ⟨b, 240⟩ (some k) >>= _) = _
      rw [hecho]
      rfl

/-- How a turn can end. -/
theorem receive_cases (hp : received datagram = p) :
    (∃ e, c.receive datagram = .error e ∧ (e = .outOfBounds ∨ e = .indeterminate)) ∨
    (∃ turn, c.receive datagram = .ok turn ∧ turn.sent = none) ∨
    ∃ turn type pos97, c.receive datagram = .ok turn ∧ c.cc ≠ InAddr.zero ∧
      c.macMatches p = true ∧ (type = 1 ∨ type = 3) ∧
      turn.sent = some (c.bc, c.replyHeader (p.bytes.take 240) ++
        tlvBytes (c.replyItems type (echoed p pos97)) ++ [255, 255]) := by
  by_cases hop : p.get 0 = 2
  · subst hp
    exact Or.inr (Or.inl ⟨_, if_pos hop, rfl⟩)
  cases hscan : scanOptions p 1500 240 ⟨none, none, none⟩ with
  | error e =>
    refine Or.inl ⟨e, ?_, Or.inl (scanOptions_error hscan)⟩
    rw [NetbootConfig.receive, hp, if_neg hop, hscan]
    rfl
  | ok s =>
    cases htype : s.type with
    | none =>
      refine Or.inl ⟨.indeterminate, ?_, Or.inr rfl⟩
      rw [NetbootConfig.receive, hp, if_neg hop, hscan]
      change (initialized s.type >>= _) = _
      rw [htype]
      rfl
    | some type =>
      cases hname : requestName p s.pos12 with
      | error e =>
        refine Or.inl ⟨e, ?_, Or.inl (requestName_error hname)⟩
        rw [NetbootConfig.receive, hp, if_neg hop, hscan]
        change (initialized s.type >>= _) = _
        rw [htype]
        change (requestName p s.pos12 >>= _) = _
        rw [hname]
        rfl
      | ok name =>
        rw [receive_eq hp hop hscan htype hname]
        have hinside := scanOptions_pos97 hscan le_rfl fun _ hk => nomatch hk
        by_cases hto : c.cc ≠ InAddr.zero ∧ c.macMatches p = true
        · by_cases h13 : type = 1 ∨ type = 3
          · rw [if_pos hto, if_pos h13]
            rcases reply_cases c type hinside with hin | herror
            · rw [reply_eq hin]
              exact Or.inr (Or.inr ⟨_, type, s.pos97, rfl, hto.1, hto.2, h13, rfl⟩)
            · rw [herror]
              exact Or.inl ⟨.outOfBounds, rfl, Or.inl rfl⟩
          · rw [if_pos hto, if_neg h13]
            exact Or.inr (Or.inl ⟨_, rfl, rfl⟩)
        · rw [if_neg hto]
          exact Or.inr (Or.inl ⟨_, rfl, rfl⟩)

/-- Whatever arrives, no byte is written outside the array: a turn fails at a read past it, or at a
type that no option set. And what is sent goes to the addresses of the pattern only, and can be read
by the client. -/
theorem receive_any_datagram (c : NetbootConfig) (datagram : List UInt8) :
    c.receive datagram ≠ .error .overrun ∧
    (∀ e, c.receive datagram = .error e → e = .outOfBounds ∨ e = .indeterminate) ∧
    ∀ turn dest d, c.receive datagram = .ok turn → turn.sent = some (dest, d) →
      dest = c.bc ∧ c.cc ≠ InAddr.zero ∧
      c.macpat.1 <:+ ((received datagram).bytes.drop 28).take 6 ∧
      ∃ type uuid, (type = 1 ∨ type = 3) ∧
        IsDhcpReply c ((received datagram).bytes.take 240) type uuid d := by
  rcases receive_cases (c := c) (rfl : received datagram = _) with
    ⟨e, he, hcases⟩ | ⟨turn, hturn, hnone⟩ | ⟨turn, type, pos97, hturn, hcc, hmac, h13, hsent⟩
  · rw [he]
    refine ⟨?_, ?_, fun _ _ _ h => nomatch h⟩
    · rintro ⟨⟩
      rcases hcases with h | h <;> cases h
    · intro e' h
      cases h
      exact hcases
  · rw [hturn]
    refine ⟨(fun h => nomatch h), (fun _ h => nomatch h), ?_⟩
    intro turn' dest d h hd
    cases h
    rw [hnone] at hd
    cases hd
  · rw [hturn]
    refine ⟨(fun h => nomatch h), (fun _ h => nomatch h), ?_⟩
    intro turn' dest d h hd
    cases h
    rw [hsent] at hd
    obtain ⟨rfl, rfl⟩ := Prod.mk.inj (Option.some.inj hd)
    exact ⟨rfl, hcc, macMatches_iff.mp hmac, type, echoed _ pos97, h13,
      isDhcpReply_of_eq (length_take_header _) length_of_mem_echoed rfl⟩

end Pc2Drc
