import Pc2Drc.DeviceConfigGroups
import Mathlib.Data.Int.CharZero

/-! Which bytes a configuration depends on: those that a successful check covers, and one more. -/
namespace Pc2Drc

open Lib

variable {blob blob' : List UInt8} {p n : ℕ} {g : ConfigGroup} {c : DeviceConfig} {l : Loading}
  {k : Check}

/-- The checks made on copies tried in turn. -/
def tried (blob : List UInt8) (n : ℕ) : List ℕ → List Check
  | [] => []
  | p :: ps =>
    if checkCRC16 blob p n then [⟨p, n, true⟩] else ⟨p, n, false⟩ :: tried blob n ps

theorem checks_tryCopies (ps : List ℕ) :
    (g.tryCopies blob ps l).checks = l.checks ++ tried blob g.size ps := by
  induction ps generalizing l with
  | nil => simp [ConfigGroup.tryCopies, tried]
  | cons p ps ih =>
    by_cases h : checkCRC16 blob p g.size = true
    · simp [ConfigGroup.tryCopies, tried, h]
    · simp [ConfigGroup.tryCopies, tried, h, ih]

theorem checks_loads (gs : List ConfigGroup) :
    (gs.foldl (ConfigGroup.load blob) l).checks =
      l.checks ++ gs.flatMap fun g => tried blob g.size g.copies := by
  induction gs generalizing l with
  | nil => simp
  | cons g gs ih =>
    rw [List.foldl_cons, ih, ConfigGroup.load, checks_tryCopies, List.flatMap_cons,
      List.append_assoc]

theorem checks_loadFromBlob : (loadFromBlob blob c).checks =
    if blob.length = 0x300 then
      (checkLayouts blob layouts).1 ++
        if (checkLayouts blob layouts).2 then
          groupOrder.flatMap fun g => tried blob g.size g.copies
        else []
    else [] := by
  by_cases hlen : blob.length = 0x300
  · cases hpages : (checkLayouts blob layouts).2 with
    | true => simp only [loadFromBlob, hlen, hpages, if_true, checks_loads]
    | false => simp [loadFromBlob, hlen, hpages]
  · simp [loadFromBlob, hlen]

theorem checks_accepted (h : LayoutOk blob) :
    (loadFromBlob blob c).checks = (checkLayouts blob layouts).1 ++
      groupOrder.flatMap fun g => tried blob g.size g.copies := by
  rw [checks_loadFromBlob, if_pos h.1, if_pos ((checkLayouts_snd layouts).mpr h.2)]

theorem tried_eq {ps : List ℕ} (h : k ∈ tried blob n ps) :
    k.ok = checkCRC16 blob k.offset k.size ∧ k.offset ∈ ps ∧ k.size = n := by
  induction ps with
  | nil => cases h
  | cons p ps ih =>
    rw [tried] at h
    split_ifs at h with hp
    · obtain rfl := List.mem_singleton.mp h
      exact ⟨hp.symm, List.mem_cons_self, rfl⟩
    · rcases List.mem_cons.mp h with rfl | h
      · exact ⟨(Bool.not_eq_true _ ▸ hp).symm, List.mem_cons_self, rfl⟩
      · exact ⟨(ih h).1, List.mem_cons_of_mem p (ih h).2.1, (ih h).2.2⟩

theorem checkLayouts_eq {pages : List (ℕ × UInt8)} (h : k ∈ (checkLayouts blob pages).1) :
    k.ok = checkCRC16 blob k.offset k.size ∧ k.offset ∈ pages.map Prod.fst ∧ k.size = 1 := by
  induction pages with
  | nil => cases h
  | cons page pages ih =>
    rw [checkLayouts] at h
    split_ifs at h with hcrc hv
    · rcases List.mem_cons.mp h with rfl | h
      · exact ⟨hcrc.symm, List.mem_cons_self, rfl⟩
      · exact ⟨(ih h).1, List.mem_cons_of_mem _ (ih h).2.1, (ih h).2.2⟩
    · obtain rfl := List.mem_singleton.mp h
      exact ⟨hcrc.symm, List.mem_cons_self, rfl⟩
    · obtain rfl := List.mem_singleton.mp h
      exact ⟨(Bool.not_eq_true _ ▸ hcrc).symm, List.mem_cons_self, rfl⟩

/-- Every check is one of a page layout or one of a copy. -/
theorem mem_checks (hk : k ∈ (loadFromBlob blob c).checks) :
    k ∈ (checkLayouts blob layouts).1 ∨
      LayoutOk blob ∧ ∃ g : ConfigGroup, k ∈ tried blob g.size g.copies := by
  rw [checks_loadFromBlob] at hk
  split_ifs at hk with hlen hpages
  · rcases List.mem_append.mp hk with hk | hk
    · exact .inl hk
    · obtain ⟨g, -, hk⟩ := List.mem_flatMap.mp hk
      exact .inr ⟨⟨hlen, (checkLayouts_snd layouts).mp hpages⟩, g, hk⟩
  · exact .inl (by simpa using hk)
  · cases hk

/-- The recorded outcomes are those of the blob. -/
theorem checks_eq (hk : k ∈ (loadFromBlob blob c).checks) :
    k.ok = checkCRC16 blob k.offset k.size := by
  rcases mem_checks hk with hk | ⟨-, g, hk⟩
  · exact (checkLayouts_eq hk).1
  · exact (tried_eq hk).1

theorem mem_checks_of_tried (h : LayoutOk blob) (hk : k ∈ tried blob g.size g.copies) :
    k ∈ (loadFromBlob blob c).checks := by
  rw [checks_accepted h, List.mem_append, List.mem_flatMap]
  exact .inr ⟨g, mem_groupOrder g, hk⟩

/-- A blob is accepted exactly when its wifi group is checked. -/
theorem layoutOk_iff_checks :
    LayoutOk blob ↔ ∃ k ∈ (loadFromBlob blob c).checks, k.offset = 1 := by
  constructor
  · intro h
    refine ⟨⟨1, 0x6a, checkCRC16 blob 1 0x6a⟩, mem_checks_of_tried (g := .wifi) h ?_, rfl⟩
    cases hcrc : checkCRC16 blob 1 0x6a with
    | true => simp [tried, ConfigGroup.copies, ConfigGroup.size, hcrc]
    | false => simp [tried, ConfigGroup.copies, ConfigGroup.size, hcrc]
  · rintro ⟨k, hk, hone⟩
    rcases mem_checks hk with hk | ⟨h, -⟩
    · have hmem := (checkLayouts_eq hk).2.1
      simp [layouts, hone] at hmem
    · exact h

/-- The choice of a copy depends on the outcomes of the checks that were made for it. -/
theorem find?_of_tried {ps : List ℕ}
    (h : ∀ k ∈ tried blob n ps, checkCRC16 blob' k.offset k.size = k.ok) :
    (ps.find? fun p => checkCRC16 blob' p n) = ps.find? fun p => checkCRC16 blob p n := by
  induction ps with
  | nil => rfl
  | cons p ps ih =>
    by_cases hp : checkCRC16 blob p n = true
    · have hp' : checkCRC16 blob' p n = true := h ⟨p, n, true⟩ (by simp [tried, hp])
      simp [hp, hp']
    · have hp' : checkCRC16 blob' p n = false := h ⟨p, n, false⟩ (by simp [tried, hp])
      simp only [List.find?_cons, hp, hp']
      exact ih fun k hk => h k (by simp [tried, hp, hk])

theorem tried_of_find? {ps : List ℕ} (h : (ps.find? fun p => checkCRC16 blob p n) = some p) :
    ⟨p, n, true⟩ ∈ tried blob n ps := by
  induction ps with
  | nil => cases h
  | cons q ps ih =>
    by_cases hq : checkCRC16 blob q n = true
    · simp only [List.find?_cons, hq, Option.some.injEq] at h
      subst h
      simp [tried, hq]
    · simp only [List.find?_cons, hq] at h
      simp [tried, hq, ih h]

theorem checkCRC16_of_goodCopy (h : g.goodCopy blob = some p) :
    checkCRC16 blob p g.size = true :=
  List.find?_some (p := fun p => checkCRC16 blob p g.size) h

theorem getCRC_inj (h : getCRC blob p = getCRC blob' p) :
    byteAt blob p = byteAt blob' p ∧ byteAt blob (p + 1) = byteAt blob' (p + 1) := by
  have hn := congrArg UInt16.toNat h
  rw [getCRC, getCRC, toNat_u16OfBytes, toNat_u16OfBytes] at hn
  have hb := (byteAt blob p).toNat_lt
  have hb' := (byteAt blob' p).toNat_lt
  exact ⟨UInt8.toNat_inj.mp (by omega), UInt8.toNat_inj.mp (by omega)⟩

/-- Two checks that succeed on the same data found the same CRC behind it. -/
theorem agreeOn_crc (h : checkCRC16 blob p n = true) (h' : checkCRC16 blob' p n = true)
    (hdata : AgreeOn blob blob' p (p + n)) : AgreeOn blob blob' p (p + n + 2) := by
  have hcrc : getCRC blob (p + n) = getCRC blob' (p + n) := by
    rw [beq_iff_eq.mp h, beq_iff_eq.mp h', crc16, crc16, bytesAt_congr hdata]
  obtain ⟨hlow, hhigh⟩ := getCRC_inj hcrc
  intro i hi hi'
  by_cases hdat : i < p + n
  · exact hdata i hi hdat
  · rcases (by omega : i = p + n ∨ i = p + n + 1) with rfl | rfl
    · exact hlow
    · exact hhigh

/-- Two blobs pass and fail the same checks, and agree on the data of those that succeeded. -/
def SameVerified (c : DeviceConfig) (blob blob' : List UInt8) : Prop :=
  (loadFromBlob blob c).checks = (loadFromBlob blob' c).checks ∧
  ∀ k ∈ (loadFromBlob blob c).checks, k.ok = true →
    AgreeOn blob blob' k.offset (k.offset + k.size)

theorem SameVerified.layoutOk_iff (h : SameVerified c blob blob') :
    LayoutOk blob ↔ LayoutOk blob' := by
  rw [layoutOk_iff_checks (c := c), layoutOk_iff_checks (c := c), h.1]

theorem SameVerified.goodCopy_eq (h : SameVerified c blob blob') (hok : LayoutOk blob) :
    g.goodCopy blob' = g.goodCopy blob := by
  apply find?_of_tried
  intro k hk
  have hmem : k ∈ (loadFromBlob blob' c).checks := h.1 ▸ mem_checks_of_tried hok hk
  exact (checks_eq hmem).symm

theorem SameVerified.agreeOn_copy (h : SameVerified c blob blob') (hok : LayoutOk blob)
    (hp : g.goodCopy blob = some p) : AgreeOn blob blob' p (p + g.size + 2) := by
  have hp' : g.goodCopy blob' = some p := (h.goodCopy_eq hok).trans hp
  have hk : ⟨p, g.size, true⟩ ∈ (loadFromBlob blob c).checks :=
    mem_checks_of_tried hok (tried_of_find? hp)
  exact agreeOn_crc (checkCRC16_of_goodCopy hp) (checkCRC16_of_goodCopy hp') (h.2 _ hk rfl)

/-- Only the language version is decoded from beyond the checked data and its CRC. -/
theorem reads_le (hg : g ≠ .languageBank) : g.reads ≤ g.size + 2 := by
  cases g <;> first | exact absurd rfl hg | decide

theorem SameVerified.loaded_eq (h : SameVerified c blob blob') (hok : LayoutOk blob)
    (hg : g ≠ .languageBank) {old : List (List ℤ)} : g.loaded blob old = g.loaded blob' old := by
  rw [ConfigGroup.loaded, ConfigGroup.loaded, h.goodCopy_eq hok]
  cases hp : g.goodCopy blob with
  | none => rfl
  | some p =>
    have hle := reads_le hg
    exact congrArg g.decode (bytesAt_congr ((h.agreeOn_copy hok hp).mono (le_refl p) (by omega)))

theorem goodCopy_languageBank : ConfigGroup.languageBank.goodCopy blob =
    if checkCRC16 blob 0x256 1 then some 0x256 else none := by
  cases hcrc : checkCRC16 blob 0x256 1 with
  | true => simp [ConfigGroup.goodCopy, ConfigGroup.copies, ConfigGroup.size, hcrc]
  | false => simp [ConfigGroup.goodCopy, ConfigGroup.copies, ConfigGroup.size, hcrc]

/-- The language version agrees exactly when its last byte does. -/
theorem SameVerified.languageBank_iff (h : SameVerified c blob blob') (hok : LayoutOk blob)
    {old : List (List ℤ)} :
    ConfigGroup.languageBank.loaded blob old = ConfigGroup.languageBank.loaded blob' old ↔
      (checkCRC16 blob 0x256 1 = true → byteAt blob 0x259 = byteAt blob' 0x259) := by
  rw [ConfigGroup.loaded, ConfigGroup.loaded, h.goodCopy_eq hok, goodCopy_languageBank]
  by_cases hcrc : checkCRC16 blob 0x256 1 = true
  · have hagree := h.agreeOn_copy (g := .languageBank) hok
      (goodCopy_languageBank.trans (if_pos hcrc))
    have h0 := hagree 0x256 (by decide) (by decide)
    have h1 := hagree 0x257 (by decide) (by decide)
    have h2 := hagree 0x258 (by decide) (by decide)
    simp [hcrc, ConfigGroup.decode, ConfigGroup.reads, byteValue_bytesAt, h0, h1, h2,
      UInt8.toNat_inj]
  · simp [hcrc]

/-- Nothing but verified bytes enters the configuration, the last byte of the language version
apart. -/
theorem same_verified_load_iff (c : DeviceConfig) (blob blob' : List UInt8)
    (h : SameVerified c blob blob') :
    (loadFromBlob blob c).config = (loadFromBlob blob' c).config ↔
      (LayoutOk blob → checkCRC16 blob 0x256 1 = true →
        byteAt blob 0x259 = byteAt blob' 0x259) := by
  by_cases hok : LayoutOk blob
  · have hok' := h.layoutOk_iff.mp hok
    rw [forall_prop_of_true hok, ← h.languageBank_iff hok]
    constructor
    · intro heq
      rw [← get_loadFromBlob (c := c) hok, ← get_loadFromBlob (c := c) hok', heq]
    · intro hbank
      apply config_ext
      intro g
      rw [get_loadFromBlob hok, get_loadFromBlob hok']
      by_cases hg : g = .languageBank
      · subst hg
        exact hbank
      · exact h.loaded_eq hok hg
  · have hok' := fun hok' => hok (h.layoutOk_iff.mpr hok')
    simp [config_rejected hok, config_rejected hok', hok]

theorem tried_congr {ps : List ℕ} (h : ∀ p ∈ ps, checkCRC16 blob p n = checkCRC16 blob' p n) :
    tried blob n ps = tried blob' n ps := by
  induction ps with
  | nil => rfl
  | cons p ps ih =>
    rw [List.forall_mem_cons] at h
    rw [tried, tried, h.1, ih h.2]

theorem checkLayouts_congr {pages : List (ℕ × UInt8)}
    (h : ∀ page ∈ pages, AgreeOn blob blob' page.1 (page.1 + 1 + 2)) :
    checkLayouts blob pages = checkLayouts blob' pages := by
  induction pages with
  | nil => rfl
  | cons page pages ih =>
    rw [List.forall_mem_cons] at h
    have hbyte := h.1 page.1 (le_refl _) (by omega)
    rw [checkLayouts, checkLayouts, checkCRC16_congr h.1, hbyte, ih h.2]

/-- No check looks at the last byte of the language version. -/
theorem page_skips : ∀ page ∈ layouts, page.1 + 1 + 2 ≤ 0x259 ∨ 0x259 + 1 ≤ page.1 := by
  decide

theorem copy_skips (hp : p ∈ g.copies) : p + g.size + 2 ≤ 0x259 ∨ 0x259 + 1 ≤ p := by
  have hall : ∀ g ∈ groupOrder, ∀ p ∈ g.copies, p + g.size + 2 ≤ 0x259 ∨ 0x259 + 1 ≤ p := by
    decide
  exact hall g (mem_groupOrder g) p hp

/-- So that byte can be anything. -/
theorem sameVerified_blit (hlen : blob.length = 0x300) (b : UInt8) :
    SameVerified c blob (blit blob 0x259 [b]) := by
  have hin : 0x259 + [b].length ≤ blob.length := by simp [hlen]
  have hskip : ∀ {p q : ℕ}, q ≤ 0x259 ∨ 0x259 + 1 ≤ p → AgreeOn blob (blit blob 0x259 [b]) p q := by
    intro p q hpq i hi hi'
    exact (byteAt_blit_of_outside hin (by simp only [List.length_singleton]; omega)).symm
  have hpages := checkLayouts_congr fun page hpage => hskip (page_skips page hpage)
  have hgroups : (groupOrder.flatMap fun g => tried blob g.size g.copies) =
      groupOrder.flatMap fun g => tried (blit blob 0x259 [b]) g.size g.copies := by
    congr 1
    funext g
    exact tried_congr fun p hp => checkCRC16_congr (hskip (copy_skips hp))
  constructor
  · rw [checks_loadFromBlob, checks_loadFromBlob, length_blit hin, hpages, hgroups]
  · intro k hk _
    apply hskip
    rcases mem_checks hk with hk | ⟨-, g, hk⟩
    · obtain ⟨-, hmem, hsize⟩ := checkLayouts_eq hk
      obtain ⟨page, hpage, hoff⟩ := List.mem_map.mp hmem
      have := page_skips page hpage
      omega
    · obtain ⟨-, hmem, hsize⟩ := tried_eq hk
      have := copy_skips hmem
      omega

/-- A blob with a good language bank. -/
def bankBlob : List UInt8 :=
  sampleBlob [(0x256, [1, 0x0e, 0x1e])]

theorem same_verified_load_iff_bank :
    let c := DeviceConfig.init (Vector.replicate 16 0)
    ¬ (loadFromBlob bankBlob c).config = (loadFromBlob (blit bankBlob 0x259 [1]) c).config := by
  intro c
  rw [same_verified_load_iff _ _ _ (sameVerified_blit (by decide +kernel) 1)]
  decide +kernel

/-- The language version follows a byte that nothing verified. -/
theorem unverified_byte_loaded :
    ¬ ∀ (c : DeviceConfig) (blob blob' : List UInt8), SameVerified c blob blob' →
      (loadFromBlob blob c).config = (loadFromBlob blob' c).config := by
  intro h
  have hload := h (DeviceConfig.init (Vector.replicate 16 0)) bankBlob (blit bankBlob 0x259 [1])
    (sameVerified_blit (by decide +kernel) 1)
  have hversion := congrArg (ConfigGroup.get .languageBank) hload
  rw [get_loadFromBlob (by decide +kernel), get_loadFromBlob (by decide +kernel)] at hversion
  revert hversion
  decide +kernel

end Pc2Drc
