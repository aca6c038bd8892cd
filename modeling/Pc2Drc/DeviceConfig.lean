import Pc2Drc.Lib.Memory

/-! The device configuration: CRC-protected groups of fields, some stored in several copies, and
the loader that fills them from a 0x300-byte blob. A pointer into the blob is its offset. -/
namespace Pc2Drc

open Lib

/-- `blob[i]`. Every offset the loader uses lies below the length it insists on. -/
def byteAt (blob : List UInt8) (i : ℕ) : UInt8 :=
  blob.getD i 0

/-- The `n` bytes from `&blob[p]` on, as `std::copy_n` and the `std::string` constructor take
them. -/
def bytesAt (blob : List UInt8) (p n : ℕ) : List UInt8 :=
  (List.range n).map fun i => byteAt blob (p + i)

def copyN (blob : List UInt8) (p n : ℕ) : Vector UInt8 n :=
  ⟨(bytesAt blob p n).toArray, by simp [bytesAt]⟩

def getCRC (blob : List UInt8) (p : ℕ) : UInt16 :=
  u16OfBytes (byteAt blob (p + 1)) (byteAt blob p)

/-- One turn of the inner loop of `CRC16`. -/
def crcBit (crc : UInt16) : UInt16 :=
  if crc &&& 1 = 1 then (crc >>> 1) ^^^ 0x8408 else crc >>> 1

def crc16 (blob : List UInt8) (p n : ℕ) : UInt16 :=
  (bytesAt blob p n).foldl (fun crc b => crcBit^[8] (crc ^^^ b.toUInt16)) 0xffff

def checkCRC16 (blob : List UInt8) (p n : ℕ) : Bool :=
  getCRC blob (p + n) == crc16 blob p n

def readInt16 (blob : List UInt8) (p : ℕ) : Int16 :=
  (u16OfBytes (byteAt blob (p + 1)) (byteAt blob p)).toInt16

def readInt24 (blob : List UInt8) (p : ℕ) : Int32 :=
  ((byteAt blob p).toUInt32 <<< 8 ||| (byteAt blob (p + 1)).toUInt32 <<< 16 |||
    (byteAt blob (p + 2)).toUInt32 <<< 24).toInt32 >>> 8

/-- Four bytes copied over a `uint32_t` of a little-endian host. -/
def copyUInt32 (blob : List UInt8) (p : ℕ) : UInt32 :=
  u32OfBytes (byteAt blob (p + 3)) (byteAt blob (p + 2)) (byteAt blob (p + 1)) (byteAt blob p)

inductive WifiAuthMode
  | disabled
  | none
  | wpa
  | wpa2
  | unknown
  deriving DecidableEq, Repr

inductive WifiEncType
  | none
  | wep
  | tkip
  | aes
  | unknown
  deriving DecidableEq, Repr

inductive BoardMainVersion
  | dk1
  | epDk2
  | dp1
  | dp2
  | dk3
  | dk4
  | dp3
  | dk5
  | dp4
  | dkmp
  | dp5
  | mass
  | dkmp2
  | drcI
  | unknown
  deriving DecidableEq, Repr

inductive BoardSubVersion
  | dk1EpDk2
  | dp1Dk3
  | dk4
  | dp3
  | dk5
  | dp4
  | dkmp
  | dp5
  | mass
  | dkmp2
  | drcI
  | unknown
  deriving DecidableEq, Repr

inductive Region
  | japan
  | northAmerica
  | europe
  | china
  | southKorea
  | taiwan
  | australia
  | unsupported
  deriving DecidableEq, Repr

inductive Language
  | english
  | french
  | spanish
  | portuguese
  | english2
  | french2
  | spanish2
  | portuguese2
  | dutch
  | italian
  | german
  | russian
  | japanese
  | chineseSimpified
  | korean
  | chineseTraditional
  | unsupported
  deriving DecidableEq, Repr

def WifiAuthMode.value : WifiAuthMode → UInt32
  | .disabled => 0x0
  | .none => 0x1
  | .wpa => 0x4
  | .wpa2 => 0x80
  | .unknown => 0xffffffff

def WifiEncType.value : WifiEncType → UInt32
  | .none => 0x0
  | .wep => 0x1
  | .tkip => 0x2
  | .aes => 0x3
  | .unknown => 0xffffffff

def BoardMainVersion.value : BoardMainVersion → UInt32
  | .dk1 => 0x0
  | .epDk2 => 0x1
  | .dp1 => 0x2
  | .dp2 => 0x3
  | .dk3 => 0x4
  | .dk4 => 0x5
  | .dp3 => 0x6
  | .dk5 => 0x7
  | .dp4 => 0x8
  | .dkmp => 0x9
  | .dp5 => 0xa
  | .mass => 0xb
  | .dkmp2 => 0xc
  | .drcI => 0xd
  | .unknown => 0xffffffff

def BoardSubVersion.value : BoardSubVersion → UInt32
  | .dk1EpDk2 => 0x0
  | .dp1Dk3 => 0x1
  | .dk4 => 0x2
  | .dp3 => 0x3
  | .dk5 => 0x4
  | .dp4 => 0x5
  | .dkmp => 0x6
  | .dp5 => 0x7
  | .mass => 0x8
  | .dkmp2 => 0x9
  | .drcI => 0xa
  | .unknown => 0xffffffff

def Region.value : Region → UInt32
  | .japan => 0x0
  | .northAmerica => 0x1
  | .europe => 0x2
  | .china => 0x3
  | .southKorea => 0x4
  | .taiwan => 0x5
  | .australia => 0x6
  | .unsupported => 0xffffffff

def Language.value : Language → UInt32
  | .english => 0x0
  | .french => 0x1
  | .spanish => 0x2
  | .portuguese => 0x3
  | .english2 => 0x4
  | .french2 => 0x5
  | .spanish2 => 0x6
  | .portuguese2 => 0x7
  | .dutch => 0x8
  | .italian => 0x9
  | .german => 0xa
  | .russian => 0xb
  | .japanese => 0xc
  | .chineseSimpified => 0xd
  | .korean => 0xe
  | .chineseTraditional => 0xf
  | .unsupported => 0xffffffff

/-- `switch (b) { case …: field = (E)b; break; default: field = other; }`. -/
def switchEnum {E : Type} (value : E → UInt32) (cases : List E) (other : E) (b : UInt8) : E :=
  (cases.find? fun e => value e == b.toUInt32).getD other

def wifiAuthModeOf : UInt8 → WifiAuthMode :=
  switchEnum WifiAuthMode.value [.disabled, .none, .wpa, .wpa2] .unknown

def wifiEncTypeOf : UInt8 → WifiEncType :=
  switchEnum WifiEncType.value [.none, .wep, .tkip, .aes] .unknown

def boardMainVersionOf : UInt8 → BoardMainVersion :=
  switchEnum BoardMainVersion.value
    [.dk1, .epDk2, .dp1, .dp2, .dk3, .dk4, .dp3, .dk5, .dp4, .dkmp, .dp5, .mass, .dkmp2, .drcI]
    .unknown

def boardSubVersionOf : UInt8 → BoardSubVersion :=
  switchEnum BoardSubVersion.value
    [.dk1EpDk2, .dp1Dk3, .dk4, .dp3, .dk5, .dp4, .dkmp, .dp5, .mass, .dkmp2, .drcI] .unknown

def regionOf : UInt8 → Region :=
  switchEnum Region.value
    [.japan, .northAmerica, .europe, .china, .southKorea, .taiwan, .australia] .unsupported

def languageOf : UInt8 → Language :=
  switchEnum Language.value
    [.english, .french, .spanish, .portuguese, .english2, .french2, .spanish2, .portuguese2, .dutch,
      .italian, .german, .russian, .japanese, .chineseSimpified, .korean, .chineseTraditional]
    .unsupported

structure Level where
  level : UInt8
  frequency : UInt8
  deriving DecidableEq, Repr

structure LCDLevels where
  modes : Vector Level 6
  threshold : UInt8
  deriving DecidableEq, Repr

@[ext]
structure DeviceConfig where
  wifiSsid : List UInt8
  wifiAuthType : UInt8
  wifiAuthMode : WifiAuthMode
  wifiEncType : WifiEncType
  wifiKey : List UInt8
  wowlKey : Vector UInt8 16
  wowlMac : Vector UInt8 6
  wowlSetting : UInt8
  lastChannel : UInt8
  boardMainVersion : BoardMainVersion
  boardSubVersion : BoardSubVersion
  region : Region
  volumeMin : UInt8
  volumeMax : UInt8
  gyroZer : Vector Int32 3
  gyroRot : Vector Int32 3
  gyroSpd : UInt8
  language : Language
  openingScreen : UInt8
  developmentConfig : UInt8
  accel0g : Vector Int16 3
  accel1g : Vector Int16 3
  panelRef1 : Vector Int16 2
  panelRef2 : Vector Int16 2
  panelRaw1 : Vector Int16 2
  panelRaw2 : Vector Int16 2
  languageBank : UInt8
  languageVersion : UInt32
  tvRemoconVersion : UInt32
  serviceVersion : UInt32
  openingScreen1Version : UInt32
  openingScreen2Version : UInt32
  initialBootFlag : UInt8
  lcdLevels : LCDLevels
  lcdSetting : UInt8
  tvRemoconId1 : Vector UInt8 5
  tvRemoconId2 : Vector UInt8 5
  airwaveSetting : UInt8
  deriving DecidableEq, Repr

/-- The constructor. It leaves `wowl_key_` as the memory was. -/
def DeviceConfig.init (wowlKey : Vector UInt8 16) : DeviceConfig where
  wifiSsid := []
  wifiAuthType := 0
  wifiAuthMode := .unknown
  wifiEncType := .unknown
  wifiKey := []
  wowlKey := wowlKey
  wowlMac := #v[0, 0, 0, 0, 0, 0]
  wowlSetting := 0
  lastChannel := 0
  boardMainVersion := .unknown
  boardSubVersion := .unknown
  region := .unsupported
  volumeMin := 0
  volumeMax := 0
  gyroZer := #v[0, 0, 0]
  gyroRot := #v[0, 0, 0]
  gyroSpd := 0
  language := .unsupported
  openingScreen := 0
  developmentConfig := 0
  accel0g := #v[0, 0, 0]
  accel1g := #v[0, 0, 0]
  panelRef1 := #v[20, 20]
  panelRef2 := #v[834, 460]
  panelRaw1 := #v[195, 3818]
  panelRaw2 := #v[3877, 373]
  languageBank := 0
  languageVersion := 0
  tvRemoconVersion := 0
  serviceVersion := 0
  openingScreen1Version := 0
  openingScreen2Version := 0
  initialBootFlag := 0
  lcdLevels := ⟨#v[⟨0, 0⟩, ⟨0, 0⟩, ⟨0, 0⟩, ⟨0, 0⟩, ⟨0, 0⟩, ⟨0, 0⟩], 0⟩
  lcdSetting := 0
  tvRemoconId1 := #v[0, 0, 0, 0, 0]
  tvRemoconId2 := #v[0, 0, 0, 0, 0]
  airwaveSetting := 0

/-- The groups of fields, in the order in which they are loaded. -/
inductive ConfigGroup
  | wifi
  | wowlKey
  | wowlMac
  | wowlSetting
  | lastChannel
  | board
  | region
  | volume
  | gyro
  | language
  | openingScreen
  | developmentConfig
  | accel
  | panel
  | languageBank
  | tvRemoconVersion
  | serviceVersion
  | openingScreen1Version
  | openingScreen2Version
  | initialBootFlag
  | lcdLevels
  | lcdSetting
  | tvRemoconIds
  | airwaveSetting
  deriving DecidableEq, Repr

/-- The copies of a group in the blob, in the order in which they are tried. -/
def ConfigGroup.copies : ConfigGroup → List ℕ
  | .wifi => [1]
  | .wowlKey => [0x6d]
  | .wowlMac => [0x7f]
  | .wowlSetting => [0x87]
  | .lastChannel => [0x8a]
  | .board => [0x100, 0x180]
  | .region => [0x103, 0x183]
  | .volume => [0x11a, 0x19a]
  | .gyro => [0x12c, 0x1ac]
  | .language => [0x200]
  | .openingScreen => [0x203]
  | .developmentConfig => [0x206]
  | .accel => [0x213, 0x11e, 0x19e]
  | .panel => [0x244, 0x153, 0x1d3]
  | .languageBank => [0x256]
  | .tvRemoconVersion => [0x25c]
  | .serviceVersion => [0x262, 0x165, 0x1e5]
  | .openingScreen1Version => [0x268]
  | .openingScreen2Version => [0x26e]
  | .initialBootFlag => [0x274]
  | .lcdLevels => [0x277]
  | .lcdSetting => [0x286]
  | .tvRemoconIds => [0x289]
  | .airwaveSetting => [0x296]

/-- How many bytes of a copy its CRC is computed over. -/
def ConfigGroup.size : ConfigGroup → ℕ
  | .wifi => 0x6a
  | .wowlKey => 0x10
  | .wowlMac => 6
  | .volume => 2
  | .gyro => 19
  | .accel => 12
  | .panel => 16
  | .tvRemoconVersion | .serviceVersion | .openingScreen1Version | .openingScreen2Version => 4
  | .lcdLevels => 13
  | .tvRemoconIds => 10
  | .wowlSetting | .lastChannel | .board | .region | .language | .openingScreen
  | .developmentConfig | .languageBank | .initialBootFlag | .lcdSetting | .airwaveSetting => 1

/-- What is assigned once the check of the copy at `p` has succeeded. -/
def ConfigGroup.store (blob : List UInt8) (p : ℕ) : ConfigGroup → DeviceConfig → DeviceConfig
  | .wifi, c =>
    { c with
      wifiSsid := bytesAt blob p (min (byteAt blob (p + 0x20)).toNat 0x20)
      wifiAuthType := byteAt blob (p + 0x21)
      wifiAuthMode := wifiAuthModeOf (byteAt blob (p + 0x22))
      wifiEncType := wifiEncTypeOf (byteAt blob (p + 0x23))
      wifiKey := bytesAt blob (p + 0x24) (min (byteAt blob (p + 0x64)).toNat 0x40) }
  | .wowlKey, c => { c with wowlKey := copyN blob p 0x10 }
  | .wowlMac, c => { c with wowlMac := copyN blob p 6 }
  | .wowlSetting, c => { c with wowlSetting := byteAt blob p }
  | .lastChannel, c => { c with lastChannel := byteAt blob p }
  | .board, c =>
    { c with
      boardMainVersion := boardMainVersionOf (byteAt blob p &&& 0xf)
      boardSubVersion := boardSubVersionOf (byteAt blob p >>> 4) }
  | .region, c => { c with region := regionOf (byteAt blob p) }
  | .volume, c => { c with volumeMin := byteAt blob p, volumeMax := byteAt blob (p + 1) }
  | .gyro, c =>
    { c with
      gyroZer := #v[readInt24 blob p, readInt24 blob (p + 3), readInt24 blob (p + 6)]
      gyroRot := #v[readInt24 blob (p + 9), readInt24 blob (p + 12), readInt24 blob (p + 15)]
      gyroSpd := byteAt blob (p + 18) }
  | .language, c => { c with language := languageOf (byteAt blob p) }
  | .openingScreen, c => { c with openingScreen := byteAt blob p }
  | .developmentConfig, c => { c with developmentConfig := byteAt blob p }
  | .accel, c =>
    { c with
      accel0g := #v[readInt16 blob p, readInt16 blob (p + 2), readInt16 blob (p + 4)]
      accel1g := #v[readInt16 blob (p + 6), readInt16 blob (p + 8), readInt16 blob (p + 10)] }
  | .panel, c =>
    { c with
      panelRef1 := #v[readInt16 blob p, readInt16 blob (p + 2)]
      panelRef2 := #v[readInt16 blob (p + 4), readInt16 blob (p + 6)]
      panelRaw1 := #v[readInt16 blob (p + 8), readInt16 blob (p + 10)]
      panelRaw2 := #v[readInt16 blob (p + 12), readInt16 blob (p + 14)] }
  | .languageBank, c =>
    { c with
      languageBank := byteAt blob p
      languageVersion := (byteAt blob (p + 1)).toUInt32 <<< 16 |||
        (byteAt blob (p + 2)).toUInt32 <<< 8 ||| (byteAt blob (p + 3)).toUInt32 }
  | .tvRemoconVersion, c => { c with tvRemoconVersion := copyUInt32 blob p }
  | .serviceVersion, c => { c with serviceVersion := copyUInt32 blob p }
  | .openingScreen1Version, c => { c with openingScreen1Version := copyUInt32 blob p }
  | .openingScreen2Version, c => { c with openingScreen2Version := copyUInt32 blob p }
  | .initialBootFlag, c => { c with initialBootFlag := byteAt blob p }
  | .lcdLevels, c =>
    { c with
      lcdLevels :=
        { modes := #v[
            ⟨byteAt blob p, byteAt blob (p + 1)⟩, ⟨byteAt blob (p + 2), byteAt blob (p + 3)⟩,
            ⟨byteAt blob (p + 4), byteAt blob (p + 5)⟩, ⟨byteAt blob (p + 6), byteAt blob (p + 7)⟩,
            ⟨byteAt blob (p + 8), byteAt blob (p + 9)⟩,
            ⟨byteAt blob (p + 10), byteAt blob (p + 11)⟩]
          threshold := byteAt blob (p + 12) } }
  | .lcdSetting, c => { c with lcdSetting := byteAt blob p }
  | .tvRemoconIds, c =>
    { c with tvRemoconId1 := copyN blob p 5, tvRemoconId2 := copyN blob (p + 5) 5 }
  | .airwaveSetting, c => { c with airwaveSetting := byteAt blob p }

/-- A call of `CheckCRC16(&blob[offset], size)` and what it returned. -/
structure Check where
  offset : ℕ
  size : ℕ
  ok : Bool
  deriving DecidableEq, Repr

/-- The configuration so far, and the checks made so far. -/
structure Loading where
  config : DeviceConfig
  checks : List Check
  deriving DecidableEq, Repr

/-- `if (CheckCRC16(&blob[p], n)) { … } else if (CheckCRC16(&blob[q], n)) { … } …` -/
def ConfigGroup.tryCopies (blob : List UInt8) (g : ConfigGroup) : List ℕ → Loading → Loading
  | [], l => l
  | p :: ps, l =>
    if checkCRC16 blob p g.size then
      ⟨g.store blob p l.config, l.checks ++ [⟨p, g.size, true⟩]⟩
    else
      tryCopies blob g ps ⟨l.config, l.checks ++ [⟨p, g.size, false⟩]⟩

def ConfigGroup.load (blob : List UInt8) (l : Loading) (g : ConfigGroup) : Loading :=
  g.tryCopies blob g.copies l

def groupOrder : List ConfigGroup :=
  [.wifi, .wowlKey, .wowlMac, .wowlSetting, .lastChannel, .board, .region, .volume, .gyro,
    .language, .openingScreen, .developmentConfig, .accel, .panel, .languageBank, .tvRemoconVersion,
    .serviceVersion, .openingScreen1Version, .openingScreen2Version, .initialBootFlag, .lcdLevels,
    .lcdSetting, .tvRemoconIds, .airwaveSetting]

/-- Where each page keeps its layout version, and the version expected there. -/
def layouts : List (ℕ × UInt8) :=
  [(0xfd, 0x03), (0x1fd, 0x05), (0x2fd, 0x04)]

/-- `if (!CheckCRC16(&blob[p], 1) || (blob[p] != v)) return;` for the pages in turn: the checks
made, and whether the pages were all accepted. -/
def checkLayouts (blob : List UInt8) : List (ℕ × UInt8) → List Check × Bool
  | [] => ([], true)
  | (p, v) :: pages =>
    if checkCRC16 blob p 1 then
      if byteAt blob p = v then
        let rest := checkLayouts blob pages
        (⟨p, 1, true⟩ :: rest.1, rest.2)
      else ([⟨p, 1, true⟩], false)
    else ([⟨p, 1, false⟩], false)

def loadFromBlob (blob : List UInt8) (config : DeviceConfig) : Loading :=
  if blob.length = 0x300 then
    let (checks, ok) := checkLayouts blob layouts
    if ok then groupOrder.foldl (ConfigGroup.load blob) ⟨config, checks⟩
    else ⟨config, checks⟩
  else ⟨config, []⟩

end Pc2Drc
