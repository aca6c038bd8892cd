import Pc2Drc.DeviceConfig
import Mathlib.Data.List.Find

/-! What loading does to each group: the first good copy is decoded, and no group can reach
into another. -/
namespace Pc2Drc

open Lib

variable {blob blob' : List UInt8} {p q n : ℕ} {g g' : ConfigGroup} {c c' : DeviceConfig}
  {l : Loading}

/-- Bytes as numbers. -/
def numbers (bs : List UInt8) : List ℤ :=
  bs.map fun b => (b.toNat : ℤ)

/-- The fields of a group, each as the numbers it holds. -/
def ConfigGroup.get : ConfigGroup → DeviceConfig → List (List ℤ)
  | .wifi, c =>
    [numbers c.wifiSsid, [c.wifiAuthType.toNat], [c.wifiAuthMode.value.toNat],
      [c.wifiEncType.value.toNat], numbers c.wifiKey]
  | .wowlKey, c => [numbers c.wowlKey.toList]
  | .wowlMac, c => [numbers c.wowlMac.toList]
  | .wowlSetting, c => [[c.wowlSetting.toNat]]
  | .lastChannel, c => [[c.lastChannel.toNat]]
  | .board, c => [[c.boardMainVersion.value.toNat], [c.boardSubVersion.value.toNat]]
  | .region, c => [[c.region.value.toNat]]
  | .volume, c => [[c.volumeMin.toNat], [c.volumeMax.toNat]]
  | .gyro, c =>
    [c.gyroZer.toList.map Int32.toInt, c.gyroRot.toList.map Int32.toInt, [c.gyroSpd.toNat]]
  | .language, c => [[c.language.value.toNat]]
  | .openingScreen, c => [[c.openingScreen.toNat]]
  | .developmentConfig, c => [[c.developmentConfig.toNat]]
  | .accel, c => [c.accel0g.toList.map Int16.toInt, c.accel1g.toList.map Int16.toInt]
  | .panel, c =>
    [c.panelRef1.toList.map Int16.toInt, c.panelRef2.toList.map Int16.toInt,
      c.panelRaw1.toList.map Int16.toInt, c.panelRaw2.toList.map Int16.toInt]
  | .languageBank, c => [[c.languageBank.toNat], [c.languageVersion.toNat]]
  | .tvRemoconVersion, c => [[c.tvRemoconVersion.toNat]]
  | .serviceVersion, c => [[c.serviceVersion.toNat]]
  | .openingScreen1Version, c => [[c.openingScreen1Version.toNat]]
  | .openingScreen2Version, c => [[c.openingScreen2Version.toNat]]
  | .initialBootFlag, c => [[c.initialBootFlag.toNat]]
  | .lcdLevels, c =>
    [numbers (c.lcdLevels.modes.toList.map Level.level),
      numbers (c.lcdLevels.modes.toList.map Level.frequency), [c.lcdLevels.threshold.toNat]]
  | .lcdSetting, c => [[c.lcdSetting.toNat]]
  | .tvRemoconIds, c => [numbers c.tvRemoconId1.toList, numbers c.tvRemoconId2.toList]
  | .airwaveSetting, c => [[c.airwaveSetting.toNat]]

/-- A number of an enumeration, or the number that stands for every other. -/
def known (ns : List ℕ) (n : ℕ) : List ℤ :=
  [if n ∈ ns then (n : ℤ) else 0xffffffff]

def byteValue (w : List UInt8) (i : ℕ) : ℤ :=
  (byteAt w i).toNat

/-- A text of at most `size` bytes at `i`, cut at the length byte. -/
def textAt (w : List UInt8) (i size lengthAt : ℕ) : List ℤ :=
  numbers (bytesAt w i (min (byteAt w lengthAt).toNat size))

/-- The two's complement number in the `n` bytes at `i`. -/
def signedAt (w : List UInt8) (n i : ℕ) : ℤ :=
  signed (8 * n) (littleEndian (bytesAt w i n))

/-- What the bytes of a copy stand for. -/
def ConfigGroup.decode : ConfigGroup → List UInt8 → List (List ℤ)
  | .wifi, w =>
    [textAt w 0 0x20 0x20, [byteValue w 0x21], known [0, 1, 4, 0x80] (byteAt w 0x22).toNat,
      known [0, 1, 2, 3] (byteAt w 0x23).toNat, textAt w 0x24 0x40 0x64]
  | .wowlKey, w => [numbers (bytesAt w 0 0x10)]
  | .wowlMac, w => [numbers (bytesAt w 0 6)]
  | .board, w =>
    [known (List.range 14) ((byteAt w 0).toNat % 16),
      known (List.range 11) ((byteAt w 0).toNat / 16)]
  | .region, w => [known (List.range 7) (byteAt w 0).toNat]
  | .volume, w => [[byteValue w 0], [byteValue w 1]]
  | .gyro, w =>
    [[0, 3, 6].map (signedAt w 3), [9, 12, 15].map (signedAt w 3), [byteValue w 18]]
  | .language, w => [known (List.range 16) (byteAt w 0).toNat]
  | .accel, w => [[0, 2, 4].map (signedAt w 2), [6, 8, 10].map (signedAt w 2)]
  | .panel, w =>
    [[0, 2].map (signedAt w 2), [4, 6].map (signedAt w 2), [8, 10].map (signedAt w 2),
      [12, 14].map (signedAt w 2)]
  | .languageBank, w =>
    [[byteValue w 0], [byteValue w 1 * 2 ^ 16 + byteValue w 2 * 2 ^ 8 + byteValue w 3]]
  | .tvRemoconVersion, w | .serviceVersion, w | .openingScreen1Version, w
  | .openingScreen2Version, w => [[(littleEndian (bytesAt w 0 4) : ℤ)]]
  | .lcdLevels, w =>
    [[0, 2, 4, 6, 8, 10].map (byteValue w), [1, 3, 5, 7, 9, 11].map (byteValue w),
      [byteValue w 12]]
  | .tvRemoconIds, w => [numbers (bytesAt w 0 5), numbers (bytesAt w 5 5)]
  | .wowlSetting, w | .lastChannel, w | .openingScreen, w | .developmentConfig, w
  | .initialBootFlag, w | .lcdSetting, w | .airwaveSetting, w => [[byteValue w 0]]

/-- How many bytes from a copy on enter the configuration: the language version lies behind
the data that the CRC of its group covers. -/
def ConfigGroup.reads : ConfigGroup → ℕ
  | .languageBank => 4
  | g => g.size

theorem byteAt_bytesAt {i : ℕ} (h : i < n) : byteAt (bytesAt blob p n) i = byteAt blob (p + i) := by
  simp [byteAt, bytesAt, h]

theorem bytesAt_bytesAt {m : ℕ} (h : q + m ≤ n) :
    bytesAt (bytesAt blob p n) q m = bytesAt blob (p + q) m := by
  apply List.map_congr_left
  intro i hi
  have hi := List.mem_range.mp hi
  rw [byteAt_bytesAt (by omega), Nat.add_assoc]

/-- The switch keeps exactly the numbers of its cases. -/
theorem known_switchEnum {E : Type} {value : E → UInt32} {cases : List E} {other : E} {b : UInt8}
    (hother : value other = 0xffffffff) :
    [((value (switchEnum value cases other b)).toNat : ℤ)] =
      known (cases.map fun e => (value e).toNat) b.toNat := by
  induction cases with
  | nil => simp [switchEnum, known, hother]
  | cons e es ih =>
    have he : (value e == b.toUInt32) = true ↔ b.toNat = (value e).toNat := by
      rw [beq_iff_eq, ← UInt32.toNat_inj, UInt8.toNat_toUInt32, eq_comm]
    by_cases h : b.toNat = (value e).toNat
    · simp [switchEnum, known, he.mpr h, h]
    · have hb : (value e == b.toUInt32) = false := by simpa [h] using he
      simp only [switchEnum, known, List.find?_cons, hb, List.map_cons, List.mem_cons, h, false_or]
      exact ih

theorem known_wifiAuthMode (b : UInt8) :
    [((wifiAuthModeOf b).value.toNat : ℤ)] = known [0, 1, 4, 0x80] b.toNat :=
  known_switchEnum rfl

theorem known_wifiEncType (b : UInt8) :
    [((wifiEncTypeOf b).value.toNat : ℤ)] = known [0, 1, 2, 3] b.toNat :=
  known_switchEnum rfl

theorem known_boardMainVersion (b : UInt8) :
    [((boardMainVersionOf b).value.toNat : ℤ)] = known (List.range 14) b.toNat :=
  known_switchEnum rfl

theorem known_boardSubVersion (b : UInt8) :
    [((boardSubVersionOf b).value.toNat : ℤ)] = known (List.range 11) b.toNat :=
  known_switchEnum rfl

theorem known_region (b : UInt8) :
    [((regionOf b).value.toNat : ℤ)] = known (List.range 7) b.toNat :=
  known_switchEnum rfl

theorem known_language (b : UInt8) :
    [((languageOf b).value.toNat : ℤ)] = known (List.range 16) b.toNat :=
  known_switchEnum rfl

theorem toInt_readInt16 : (readInt16 blob p).toInt = signedAt blob 2 p := by
  have hbytes : bytesAt blob p 2 = [byteAt blob p, byteAt blob (p + 1)] := rfl
  rw [readInt16, toInt_toInt16, toNat_u16OfBytes, signedAt, hbytes]
  congr 1
  simp only [littleEndian]
  omega

theorem toInt_readInt24 : (readInt24 blob p).toInt = signedAt blob 3 p := by
  have hbytes : bytesAt blob p 3 = [byteAt blob p, byteAt blob (p + 1), byteAt blob (p + 2)] := rfl
  have hword : (byteAt blob p).toUInt32 <<< 8 ||| (byteAt blob (p + 1)).toUInt32 <<< 16 |||
      (byteAt blob (p + 2)).toUInt32 <<< 24 =
      u32OfBytes (byteAt blob (p + 2)) (byteAt blob (p + 1)) (byteAt blob p) 0 := by
    change _ = _ ||| (0 : UInt32)
    rw [UInt32.or_zero, UInt32.or_comm, UInt32.or_comm ((byteAt blob p).toUInt32 <<< 8),
      UInt32.or_assoc]
  have hhigh := (byteAt blob (p + 2)).toNat_lt
  rw [readInt24, hword, toInt_shiftRight_eight, toInt_toInt32, toNat_u32OfBytes, signedAt, hbytes]
  simp only [signed, littleEndian, UInt8.toNat_zero]
  split_ifs <;> omega

theorem toNat_copyUInt32 : (copyUInt32 blob p).toNat = littleEndian (bytesAt blob p 4) := by
  have hbytes : bytesAt blob p 4 =
      [byteAt blob p, byteAt blob (p + 1), byteAt blob (p + 2), byteAt blob (p + 3)] := rfl
  rw [copyUInt32, toNat_u32OfBytes, hbytes]
  simp only [littleEndian]
  omega

theorem signedAt_bytesAt {m i : ℕ} (h : i + m ≤ n) :
    signedAt (bytesAt blob p n) m i = signedAt blob m (p + i) := by
  rw [signedAt, bytesAt_bytesAt h, signedAt]

theorem textAt_bytesAt {i size len : ℕ} (h : i + size ≤ n) (hlen : len < n) :
    textAt (bytesAt blob p n) i size len =
      numbers (bytesAt blob (p + i) (min (byteAt blob (p + len)).toNat size)) := by
  rw [textAt, byteAt_bytesAt hlen, bytesAt_bytesAt (by omega)]

theorem byteValue_bytesAt {i : ℕ} (h : i < n) :
    byteValue (bytesAt blob p n) i = (byteAt blob (p + i)).toNat := by
  rw [byteValue, byteAt_bytesAt h]

theorem toNat_languageVersion : ((byteAt blob (p + 1)).toUInt32 <<< 16 |||
      (byteAt blob (p + 2)).toUInt32 <<< 8 ||| (byteAt blob (p + 3)).toUInt32).toNat =
    (byteAt blob (p + 1)).toNat * 2 ^ 16 + (byteAt blob (p + 2)).toNat * 2 ^ 8 +
      (byteAt blob (p + 3)).toNat := by
  have hword : u32OfBytes 0 (byteAt blob (p + 1)) (byteAt blob (p + 2)) (byteAt blob (p + 3)) =
      (byteAt blob (p + 1)).toUInt32 <<< 16 ||| (byteAt blob (p + 2)).toUInt32 <<< 8 |||
        (byteAt blob (p + 3)).toUInt32 := by
    change (0 : UInt32) ||| _ ||| _ ||| _ = _
    rw [UInt32.zero_or]
  rw [← hword, toNat_u32OfBytes, UInt8.toNat_zero]
  omega

/-- What is stored for a group is what the bytes of the copy stand for. -/
theorem get_store_self : g.get (g.store blob p c) = g.decode (bytesAt blob p g.reads) := by
  cases g with
  | wifi =>
    simp [ConfigGroup.get, ConfigGroup.store, ConfigGroup.decode, ConfigGroup.reads,
      ConfigGroup.size, textAt_bytesAt, byteValue_bytesAt, byteAt_bytesAt, known_wifiAuthMode,
      known_wifiEncType]
  | board =>
    have hmain : (byteAt blob p &&& 0xf).toNat = (byteAt blob p).toNat % 16 :=
      Nat.and_two_pow_sub_one_eq_mod _ 4
    have hsub : (byteAt blob p >>> 4).toNat = (byteAt blob p).toNat / 16 :=
      Nat.shiftRight_eq_div_pow _ 4
    simp only [ConfigGroup.get, ConfigGroup.store, ConfigGroup.decode, ConfigGroup.reads,
      ConfigGroup.size, known_boardMainVersion, known_boardSubVersion, hmain, hsub]
    rw [byteAt_bytesAt (by decide), Nat.add_zero]
  | region =>
    simp [ConfigGroup.get, ConfigGroup.store, ConfigGroup.decode, ConfigGroup.reads,
      ConfigGroup.size, byteAt_bytesAt, known_region]
  | language =>
    simp [ConfigGroup.get, ConfigGroup.store, ConfigGroup.decode, ConfigGroup.reads,
      ConfigGroup.size, byteAt_bytesAt, known_language]
  | gyro =>
    simp [ConfigGroup.get, ConfigGroup.store, ConfigGroup.decode, ConfigGroup.reads,
      ConfigGroup.size, toInt_readInt24, signedAt_bytesAt, byteValue_bytesAt]
  | accel | panel =>
    simp [ConfigGroup.get, ConfigGroup.store, ConfigGroup.decode, ConfigGroup.reads,
      ConfigGroup.size, toInt_readInt16, signedAt_bytesAt]
  | languageBank =>
    simp [ConfigGroup.get, ConfigGroup.store, ConfigGroup.decode, ConfigGroup.reads,
      byteValue_bytesAt, toNat_languageVersion, -UInt32.toNat_or]
  | tvRemoconVersion | serviceVersion | openingScreen1Version | openingScreen2Version =>
    simp [ConfigGroup.get, ConfigGroup.store, ConfigGroup.decode, ConfigGroup.reads,
      ConfigGroup.size, toNat_copyUInt32, bytesAt_bytesAt]
  | lcdLevels =>
    simp [ConfigGroup.get, ConfigGroup.store, ConfigGroup.decode, ConfigGroup.reads,
      ConfigGroup.size, byteValue_bytesAt, numbers]
  | wowlKey | wowlMac | tvRemoconIds =>
    simp [ConfigGroup.get, ConfigGroup.store, ConfigGroup.decode, ConfigGroup.reads,
      ConfigGroup.size, copyN, bytesAt_bytesAt]
  | _ =>
    simp [ConfigGroup.get, ConfigGroup.store, ConfigGroup.decode, ConfigGroup.reads,
      ConfigGroup.size, byteValue_bytesAt]

theorem get_store_other (h : g' ≠ g) : g'.get (g.store blob p c) = g'.get c := by
  cases g <;> cases g' <;> first | rfl | exact absurd rfl h

/-- The copy that is used: the first whose CRC matches. -/
def ConfigGroup.goodCopy (blob : List UInt8) (g : ConfigGroup) : Option ℕ :=
  g.copies.find? fun p => checkCRC16 blob p g.size

/-- A group's value after loading, its own value before being `old`. -/
def ConfigGroup.loaded (blob : List UInt8) (g : ConfigGroup) (old : List (List ℤ)) :
    List (List ℤ) :=
  match g.goodCopy blob with
  | some p => g.decode (bytesAt blob p g.reads)
  | none => old

theorem config_tryCopies (ps : List ℕ) :
    (g.tryCopies blob ps l).config =
      match ps.find? fun p => checkCRC16 blob p g.size with
      | some p => g.store blob p l.config
      | none => l.config := by
  induction ps generalizing l with
  | nil => rfl
  | cons p ps ih =>
    by_cases h : checkCRC16 blob p g.size = true
    · simp [ConfigGroup.tryCopies, h]
    · simp [ConfigGroup.tryCopies, h, ih]

theorem get_load_self : g.get (g.load blob l).config = g.loaded blob (g.get l.config) := by
  rw [ConfigGroup.load, config_tryCopies, ConfigGroup.loaded, ConfigGroup.goodCopy]
  cases g.copies.find? fun p => checkCRC16 blob p g.size with
  | none => rfl
  | some p => exact get_store_self

theorem get_load_other (h : g' ≠ g) : g'.get (g.load blob l).config = g'.get l.config := by
  rw [ConfigGroup.load, config_tryCopies]
  cases g.copies.find? fun p => checkCRC16 blob p g.size with
  | none => rfl
  | some p => exact get_store_other h

theorem get_loads_other {gs : List ConfigGroup} (h : g ∉ gs) :
    g.get (gs.foldl (ConfigGroup.load blob) l).config = g.get l.config := by
  induction gs generalizing l with
  | nil => rfl
  | cons g' gs ih =>
    rw [List.mem_cons, not_or] at h
    rw [List.foldl_cons, ih h.2, get_load_other h.1]

/-- Each group is written once, so the loads of the others leave it alone. -/
theorem get_loads {gs : List ConfigGroup} (hnodup : gs.Nodup) (h : g ∈ gs) :
    g.get (gs.foldl (ConfigGroup.load blob) l).config = g.loaded blob (g.get l.config) := by
  induction gs generalizing l with
  | nil => cases h
  | cons g' gs ih =>
    rw [List.nodup_cons] at hnodup
    rw [List.foldl_cons]
    by_cases hg : g = g'
    · subst hg
      rw [get_loads_other hnodup.1, get_load_self]
    · have hmem : g ∈ gs := (List.mem_cons.mp h).resolve_left hg
      rw [ih hnodup.2 hmem, get_load_other hg]

theorem mem_groupOrder (g : ConfigGroup) : g ∈ groupOrder := by
  cases g <;> decide

/-- The length and the three page layouts are as they should be. -/
def LayoutOk (blob : List UInt8) : Prop :=
  blob.length = 0x300 ∧ ∀ page ∈ layouts, checkCRC16 blob page.1 1 ∧ byteAt blob page.1 = page.2

theorem checkLayouts_snd (pages : List (ℕ × UInt8)) :
    (checkLayouts blob pages).2 = true ↔
      ∀ page ∈ pages, checkCRC16 blob page.1 1 ∧ byteAt blob page.1 = page.2 := by
  induction pages with
  | nil => simp [checkLayouts]
  | cons page pages ih =>
    rw [List.forall_mem_cons, ← ih, checkLayouts]
    by_cases hcrc : checkCRC16 blob page.1 1 = true
    · by_cases hv : byteAt blob page.1 = page.2
      · simp [hcrc, hv]
      · simp [hcrc, hv]
    · simp [hcrc]

theorem loadFromBlob_accepted (h : LayoutOk blob) :
    loadFromBlob blob c =
      groupOrder.foldl (ConfigGroup.load blob) ⟨c, (checkLayouts blob layouts).1⟩ := by
  simp [loadFromBlob, h.1, (checkLayouts_snd layouts).mpr h.2]

theorem config_rejected (h : ¬ LayoutOk blob) : (loadFromBlob blob c).config = c := by
  by_cases hlen : blob.length = 0x300
  · have hpages : ¬ (checkLayouts blob layouts).2 = true := fun hok =>
      h ⟨hlen, (checkLayouts_snd layouts).mp hok⟩
    simp [loadFromBlob, hlen, hpages]
  · simp [loadFromBlob, hlen]

theorem get_loadFromBlob (h : LayoutOk blob) :
    g.get (loadFromBlob blob c).config = g.loaded blob (g.get c) := by
  rw [loadFromBlob_accepted h]
  exact get_loads (by decide) (mem_groupOrder g)

theorem numbers_inj {bs bs' : List UInt8} : numbers bs = numbers bs' ↔ bs = bs' := by
  apply List.map_inj_right
  intro b b' h
  exact UInt8.toNat_inj.mp (Int.natCast_inj.mp h)

theorem WifiAuthMode.value_inj {e e' : WifiAuthMode} : e.value = e'.value ↔ e = e' := by
  cases e <;> cases e' <;> decide

theorem WifiEncType.value_inj {e e' : WifiEncType} : e.value = e'.value ↔ e = e' := by
  cases e <;> cases e' <;> decide

theorem BoardMainVersion.value_inj {e e' : BoardMainVersion} : e.value = e'.value ↔ e = e' := by
  cases e <;> cases e' <;> decide

theorem BoardSubVersion.value_inj {e e' : BoardSubVersion} : e.value = e'.value ↔ e = e' := by
  cases e <;> cases e' <;> decide

theorem Region.value_inj {e e' : Region} : e.value = e'.value ↔ e = e' := by
  cases e <;> cases e' <;> decide

theorem Language.value_inj {e e' : Language} : e.value = e'.value ↔ e = e' := by
  cases e <;> cases e' <;> decide

theorem toInt16s_inj {v v' : List Int16} : v.map Int16.toInt = v'.map Int16.toInt ↔ v = v' :=
  List.map_inj_right fun _ _ => Int16.toInt_inj.mp

theorem toInt32s_inj {v v' : List Int32} : v.map Int32.toInt = v'.map Int32.toInt ↔ v = v' :=
  List.map_inj_right fun _ _ => Int32.toInt_inj.mp

theorem levels_inj {v v' : List Level} :
    v.map Level.level = v'.map Level.level ∧ v.map Level.frequency = v'.map Level.frequency ↔
      v = v' := by
  induction v generalizing v' with
  | nil => cases v' <;> simp
  | cons a v ih =>
    cases v' with
    | nil => simp
    | cons a' v' =>
      rcases a with ⟨l, f⟩
      rcases a' with ⟨l', f'⟩
      simp only [List.map_cons, List.cons.injEq, Level.mk.injEq, ← ih]
      tauto

theorem lcdLevels_inj {v v' : LCDLevels} :
    v.modes.toList.map Level.level = v'.modes.toList.map Level.level ∧
      v.modes.toList.map Level.frequency = v'.modes.toList.map Level.frequency ∧
      v.threshold = v'.threshold ↔ v = v' := by
  rcases v with ⟨modes, threshold⟩
  rcases v' with ⟨modes', threshold'⟩
  rw [LCDLevels.mk.injEq, ← and_assoc, levels_inj, Vector.toList_inj]

/-- The groups hold the whole configuration. -/
theorem config_ext (h : ∀ g : ConfigGroup, g.get c = g.get c') : c = c' := by
  have hall : ∀ g ∈ groupOrder, g.get c = g.get c' := fun g _ => h g
  simp only [groupOrder, List.forall_mem_cons, ConfigGroup.get, List.cons.injEq, numbers_inj,
    Int.natCast_inj, UInt8.toNat_inj, UInt32.toNat_inj, WifiAuthMode.value_inj,
    WifiEncType.value_inj, BoardMainVersion.value_inj, BoardSubVersion.value_inj, Region.value_inj,
    Language.value_inj, toInt16s_inj, toInt32s_inj, Vector.toList_inj, lcdLevels_inj,
    and_true] at hall
  apply DeviceConfig.ext <;> simp only [hall]

/-- The blobs hold the same bytes in `[p, q)`. -/
def AgreeOn (blob blob' : List UInt8) (p q : ℕ) : Prop :=
  ∀ i, p ≤ i → i < q → byteAt blob i = byteAt blob' i

theorem bytesAt_congr (h : AgreeOn blob blob' p (p + n)) :
    bytesAt blob p n = bytesAt blob' p n := by
  apply List.map_congr_left
  intro i hi
  have hi := List.mem_range.mp hi
  exact h (p + i) (by omega) (by omega)

theorem AgreeOn.mono {p' q' : ℕ} (h : AgreeOn blob blob' p q) (hp : p ≤ p') (hq : q' ≤ q) :
    AgreeOn blob blob' p' q' :=
  fun i hi hi' => h i (hp.trans hi) (hi'.trans_le hq)

theorem checkCRC16_congr (h : AgreeOn blob blob' p (p + n + 2)) :
    checkCRC16 blob p n = checkCRC16 blob' p n := by
  have hdata := bytesAt_congr (h.mono (le_refl p) (Nat.le_add_right (p + n) 2))
  have hlow := h (p + n) (by omega) (by omega)
  have hhigh := h (p + n + 1) (by omega) (by omega)
  rw [checkCRC16, checkCRC16, getCRC, getCRC, crc16, crc16, hdata, hlow, hhigh]

/-- How far from a copy on the loader looks: its data, its CRC and what else is decoded. -/
def ConfigGroup.span (g : ConfigGroup) : ℕ :=
  max (g.size + 2) g.reads

theorem loaded_congr {old : List (List ℤ)}
    (h : ∀ p ∈ g.copies, AgreeOn blob blob' p (p + g.span)) :
    g.loaded blob old = g.loaded blob' old := by
  have hgood : g.goodCopy blob = g.goodCopy blob' := by
    apply List.find?_congr
    intro p hp
    exact checkCRC16_congr ((h p hp).mono (le_refl p) (by simp [ConfigGroup.span, Nat.add_assoc]))
  rw [ConfigGroup.loaded, ConfigGroup.loaded, ← hgood]
  cases hp : g.goodCopy blob with
  | none => rfl
  | some p =>
    have hmem : p ∈ g.copies := List.mem_of_find?_eq_some hp
    exact congrArg g.decode
      (bytesAt_congr ((h p hmem).mono (le_refl p) (Nat.add_le_add_left (le_max_right _ _) p)))

/-- The byte belongs to the data or the CRC of a copy of the group. -/
def ConfigGroup.Owns (g : ConfigGroup) (i : ℕ) : Prop :=
  ∃ p ∈ g.copies, p ≤ i ∧ i < p + g.size + 2

/-- What the loader looks at for one group lies apart from the copies of every other. -/
theorem copies_apart (h : g' ≠ g) (hp : p ∈ g'.copies) (hq : q ∈ g.copies) :
    p + g'.span ≤ q ∨ q + g.size + 2 ≤ p := by
  have hall : ∀ g ∈ groupOrder, ∀ g' ∈ groupOrder, g' ≠ g → ∀ p ∈ g'.copies, ∀ q ∈ g.copies,
      p + g'.span ≤ q ∨ q + g.size + 2 ≤ p := by decide +kernel
  exact hall g (mem_groupOrder g) g' (mem_groupOrder g') h p hp q hq

theorem agreeOn_other (hsame : ∀ i, ¬ g.Owns i → byteAt blob i = byteAt blob' i) (h : g' ≠ g)
    (hp : p ∈ g'.copies) : AgreeOn blob blob' p (p + g'.span) := by
  intro i hi hi'
  apply hsame
  rintro ⟨q, hq, hqi, hiq⟩
  rcases copies_apart h hp hq with hbefore | hafter
  · omega
  · omega

/-- Loading takes each group from its first good copy and nothing from anywhere else. -/
theorem load_by_groups (c : DeviceConfig) (blob : List UInt8) :
    (¬ LayoutOk blob → (loadFromBlob blob c).config = c) ∧
    (LayoutOk blob → ∀ g : ConfigGroup, g.get (loadFromBlob blob c).config =
      match g.copies.find? (fun p => checkCRC16 blob p g.size) with
      | some p => g.decode (bytesAt blob p g.reads)
      | none => g.get c) ∧
    (∀ (blob' : List UInt8) (g : ConfigGroup), LayoutOk blob → LayoutOk blob' →
      (∀ i, ¬ g.Owns i → byteAt blob i = byteAt blob' i) →
      ∀ g', g' ≠ g →
        g'.get (loadFromBlob blob c).config = g'.get (loadFromBlob blob' c).config) := by
  refine ⟨config_rejected, fun h g => get_loadFromBlob h, ?_⟩
  intro blob' g h h' hsame g' hg
  rw [get_loadFromBlob h, get_loadFromBlob h']
  exact loaded_congr fun p hp => agreeOn_other hsame hg hp

instance : Decidable (LayoutOk blob) :=
  inferInstanceAs (Decidable (_ ∧ _))

/-- A blob whose pages are laid out as expected, with some parts written over it. -/
def sampleBlob (parts : List (ℕ × List UInt8)) : List UInt8 :=
  ([(0xfd, [3, 0x1c, 0x3d]), (0x1fd, [5, 0x2a, 0x58]), (0x2fd, [4, 0xa3, 0x49])] ++ parts).foldl
    (fun blob (part : ℕ × List UInt8) => blit blob part.1 part.2) (List.replicate 0x300 0)

theorem byteAt_blit_of_outside {src : List UInt8} {i : ℕ} (h : p + src.length ≤ blob.length)
    (hi : i < p ∨ p + src.length ≤ i) : byteAt (blit blob p src) i = byteAt blob i := by
  rw [byteAt, byteAt, List.getD_eq_getElem?_getD, List.getD_eq_getElem?_getD,
    getElem?_blit_of_outside h hi]

/-- With only the second copy of the volume good, that copy is taken; repairing the first one
changes the volume and not the gyro. -/
theorem load_by_groups_fallback :
    let c := DeviceConfig.init (Vector.replicate 16 0)
    let blob := sampleBlob [(0x19a, [0x10, 0xff, 0x51, 0x6a])]
    let blob' := blit blob 0x11a [0x20, 0xf0, 0x04, 0x24]
    ConfigGroup.volume.get (loadFromBlob blob c).config = [[0x10], [0xff]] ∧
    ConfigGroup.volume.get (loadFromBlob blob' c).config = [[0x20], [0xf0]] ∧
    ConfigGroup.gyro.get (loadFromBlob blob c).config =
      ConfigGroup.gyro.get (loadFromBlob blob' c).config := by
  intro c blob blob'
  have h : LayoutOk blob := by decide +kernel
  have h' : LayoutOk blob' := by decide +kernel
  have hsame : ∀ i, ¬ ConfigGroup.volume.Owns i → byteAt blob i = byteAt blob' i := by
    intro i hi
    refine (byteAt_blit_of_outside (by decide +kernel) ?_).symm
    by_contra hin
    have hrange : 0x11a ≤ i ∧ i < 0x11a + 2 + 2 := by
      simp only [List.length_cons, List.length_nil] at hin
      omega
    exact hi ⟨0x11a, by decide, hrange⟩
  obtain ⟨-, hgroups, happart⟩ := load_by_groups c blob
  refine ⟨(hgroups h .volume).trans (by decide +kernel), ?_,
    happart blob' .volume h h' hsame .gyro (by decide)⟩
  exact ((load_by_groups c blob').2.1 h' .volume).trans (by decide +kernel)

end Pc2Drc
