import HackyLens.Storage.SettingsCodec
import Mathlib.Data.Nat.Bitwise
import Mathlib.Tactic

-- What is left of a snapshot after it has been packed into a payload.

namespace Settings

section Packing

variable {low high mask k : UInt8}

-- What is masked of the lower bits.
theorem pack_and (hm : mask.toNat < 2 ^ k.toNat) (hk : k.toNat < 8) :
    (low ||| high <<< k) &&& mask = low &&& mask := by
  refine UInt8.toNat_inj.mp (Nat.eq_of_testBit_eq fun i => ?_)
  simp only [UInt8.toNat_and, UInt8.toNat_or, UInt8.toNat_shiftLeft, Nat.mod_eq_of_lt hk,
    Nat.testBit_and, Nat.testBit_or, Nat.testBit_mod_two_pow, Nat.testBit_shiftLeft]
  by_cases hi : i < k.toNat
  case pos => simp [Nat.not_le.mpr hi]
  case neg =>
    have hle := Nat.pow_le_pow_right Nat.two_pos (Nat.not_lt.mp hi)
    rw [Nat.testBit_lt_two_pow (Nat.lt_of_lt_of_le hm hle), Bool.and_false, Bool.and_false]

-- The upper bits.
theorem pack_shiftRight (hl : low.toNat < 2 ^ k.toNat) (hh : high.toNat < 2 ^ (8 - k.toNat))
    (hk : k.toNat < 8) : (low ||| high <<< k) >>> k = high := by
  refine UInt8.toNat_inj.mp (Nat.eq_of_testBit_eq fun i => ?_)
  have hlow : low.toNat.testBit (k.toNat + i) = false :=
    Nat.testBit_lt_two_pow (Nat.lt_of_lt_of_le hl
      (Nat.pow_le_pow_right Nat.two_pos (Nat.le_add_right _ _)))
  simp only [UInt8.toNat_or, UInt8.toNat_shiftLeft, UInt8.toNat_shiftRight, Nat.mod_eq_of_lt hk,
    Nat.testBit_shiftRight, Nat.testBit_or, Nat.testBit_mod_two_pow, Nat.testBit_shiftLeft, hlow,
    Bool.false_or]
  by_cases hi : k.toNat + i < 8
  case pos => simp [hi]
  case neg =>
    have hle := Nat.pow_le_pow_right Nat.two_pos (show 8 - k.toNat ≤ i by omega)
    rw [Nat.testBit_lt_two_pow (Nat.lt_of_lt_of_le hh hle), decide_eq_false hi, Bool.false_and]

theorem and_mask {x : UInt8} {n : Nat} (hx : x.toNat < 2 ^ n) (hm : mask.toNat = 2 ^ n - 1) :
    x &&& mask = x := by
  refine UInt8.toNat_inj.mp ?_
  rw [UInt8.toNat_and, hm, Nat.and_two_pow_sub_one_eq_mod, Nat.mod_eq_of_lt hx]

end Packing

section Clamp

variable {x low high : UInt8}

theorem clampU8_le (h : low ≤ high) : clampU8 x low high ≤ high := by
  rw [clampU8]
  split_ifs <;> grind

theorem le_clampU8 (h : low ≤ high) : low ≤ clampU8 x low high := by
  rw [clampU8]
  split_ifs <;> grind

theorem clampU8_eq (h₁ : low ≤ x) (h₂ : x ≤ high) : clampU8 x low high = x := by
  rw [clampU8, if_neg (UInt8.not_lt.mpr h₁), if_neg (UInt8.not_lt.mpr h₂)]

end Clamp

section Normalized

variable (reservedAutostartIds : List UInt16)

def flag (value : UInt8) : UInt8 :=
  if value ≠ 0 then 1 else 0

-- What a snapshot is after each field has been brought into its range. Of the speed there are two
-- bits.
def CameraSettings.normalized (camera : CameraSettings) : CameraSettings where
  reviewAfterShot := flag camera.reviewAfterShot
  fpsEnabled      := flag camera.fpsEnabled
  lightMode       := if camera.lightMode = cameraLightRgb then cameraLightRgb else cameraLightLed
  rgbRed          := tens camera.rgbRed * 10
  rgbGreen        := tens camera.rgbGreen * 10
  rgbBlue         := tens camera.rgbBlue * 10
  photoFormat     :=
    if camera.photoFormat < photoFormatCount then camera.photoFormat else photoFormatRaw565
  size            := if cameraSizeIsSafe camera.size then camera.size else cameraSize320x240

def normalSpeed (speed : UInt8) : UInt8 :=
  if speed &&& 3 < uartSpeedCount then speed &&& 3 else uartSpeed115200

def Snapshot.normalized (s : Snapshot) : Snapshot where
  ledEnabled            := flag s.ledEnabled
  ledBrightness         := clampU8 s.ledBrightness 0 100
  rgbEnabled            := flag s.rgbEnabled
  rgbRed                := clampU8 s.rgbRed 0 100
  rgbGreen              := clampU8 s.rgbGreen 0 100
  rgbBlue               := clampU8 s.rgbBlue 0 100
  screenBrightness      := clampU8 s.screenBrightness 10 100
  autoSleepMinutes      := clampU8 s.autoSleepMinutes 1 30
  featureFlags          := s.featureFlags &&& featureFlagsMask
  externalLinkUartSpeed := normalSpeed s.externalLinkUartSpeed
  autostartId           :=
    if autostartIdIsPersistable reservedAutostartIds s.autostartId then s.autostartId else 0
  appData               := s.appData
  camera                := s.camera.map CameraSettings.normalized
  qrDecodeRate          := clampU8 s.qrDecodeRate qrDecodeRateMin qrDecodeRateMax

theorem flag_flag (value : UInt8) : flag (flag value) = flag value := by
  rw [flag, flag]
  split <;> decide

theorem clampU8_clampU8 {x low high : UInt8} (h : low ≤ high) :
    clampU8 (clampU8 x low high) low high = clampU8 x low high :=
  clampU8_eq (le_clampU8 h) (clampU8_le h)

theorem percent_percent (value : UInt8) :
    clampU8 (clampU8 value 0 100) 0 100 = clampU8 value 0 100 :=
  clampU8_clampU8 (by decide)

variable {s : Snapshot}

theorem decodeAutoSleep_encode : decodeAutoSleep (encode reservedAutostartIds s) =
    clampU8 s.autoSleepMinutes 1 30 := by
  have hlow : 1 ≤ clampU8 s.autoSleepMinutes 1 30 := le_clampU8 (by decide)
  have hhigh : clampU8 s.autoSleepMinutes 1 30 ≤ 30 := clampU8_le (by decide)
  have hlt : (clampU8 s.autoSleepMinutes 1 30).toNat < 2 ^ 5 :=
    Nat.lt_of_le_of_lt (UInt8.le_iff_toNat_le.mp hhigh) (by decide)
  have hpacked : (encode reservedAutostartIds s).autoSleepMinutes &&& payloadAutoSleepMask =
      clampU8 s.autoSleepMinutes 1 30 := by
    refine (pack_and (k := 5) (by decide) (by decide)).trans ?_
    exact and_mask hlt rfl
  rw [decodeAutoSleep, hpacked]
  exact if_pos ⟨hlow, hhigh⟩

theorem featureFlags_encode : (encode reservedAutostartIds s).autoSleepMinutes >>> 5 &&&
    featureFlagsMask = s.featureFlags &&& featureFlagsMask := by
  have hhigh : clampU8 s.autoSleepMinutes 1 30 ≤ 30 := clampU8_le (by decide)
  have hlt : (clampU8 s.autoSleepMinutes 1 30).toNat < 2 ^ 5 :=
    Nat.lt_of_le_of_lt (UInt8.le_iff_toNat_le.mp hhigh) (by decide)
  have hflags : (s.featureFlags &&& featureFlagsMask).toNat < 2 ^ 3 := by
    rw [UInt8.toNat_and]
    exact Nat.and_lt_two_pow _ (by decide)
  have hpacked : (encode reservedAutostartIds s).autoSleepMinutes >>> 5 =
      s.featureFlags &&& featureFlagsMask := pack_shiftRight (k := 5) hlt hflags (by decide)
  rw [hpacked, UInt8.and_assoc, UInt8.and_self]

theorem tens_le (value : UInt8) : tens value ≤ 10 := by
  have hle : clampU8 value 0 100 ≤ 100 := clampU8_le (by decide)
  have hdiv := Nat.div_le_div_right (c := 10) (UInt8.le_iff_toNat_le.mp hle)
  rw [tens, UInt8.le_iff_toNat_le, UInt8.toNat_div]
  exact hdiv

theorem tens_lt (value : UInt8) : (tens value).toNat < 2 ^ 4 :=
  Nat.lt_of_le_of_lt (UInt8.le_iff_toNat_le.mp (tens_le value)) (by decide)

-- The lower half of a byte with the speed.
def linkHalf (speed enabled : UInt8) : UInt8 :=
  (uartSpeedMark ||| speed <<< 1 &&& uartSpeedMask) ||| enabled

theorem linkHalf_bits {speed enabled : UInt8} (h : enabled = 0 ∨ enabled = 1) :
    (linkHalf speed enabled).toNat < 2 ^ 4 ∧ linkHalf speed enabled &&& uartSpeedMark ≠ 0 ∧
      (linkHalf speed enabled &&& uartSpeedMask) >>> 1 = speed &&& 3 ∧
      linkHalf speed enabled &&& 0x01 = enabled := by
  have hshift : speed <<< 1 &&& uartSpeedMask = (speed &&& 3) <<< 1 :=
    (UInt8.shiftLeft_and (b := 3) (c := 1)).symm
  have hcases : speed &&& 3 = 0 ∨ speed &&& 3 = 1 ∨ speed &&& 3 = 2 ∨ speed &&& 3 = 3 := by
    have hmod := Nat.and_two_pow_sub_one_eq_mod speed.toNat 2
    simp only [← UInt8.toNat_inj, UInt8.toNat_and]
    have h3 : (3 : UInt8).toNat = 2 ^ 2 - 1 := rfl
    rw [h3, hmod]
    show _ % 4 = 0 ∨ _ % 4 = 1 ∨ _ % 4 = 2 ∨ _ % 4 = 3
    omega
  rw [linkHalf, hshift]
  obtain h3 | h3 | h3 | h3 := hcases
  all_goals
    rw [h3]
    obtain rfl | rfl := h <;> decide

theorem encode_fpsRgbBlue : (encode reservedAutostartIds s).fpsRgbBlue =
    (uartSpeedMark ||| s.externalLinkUartSpeed <<< 1 &&& uartSpeedMask) |||
      s.camera.elim (0 : UInt8) fun camera =>
        encodeFps camera.fpsEnabled ||| tens camera.rgbBlue <<< 4 :=
  rfl

theorem fpsRgbBlue_encode : ∃ enabled blue : UInt8,
    (enabled = 0 ∨ enabled = 1) ∧ blue.toNat < 2 ^ 4 ∧
    (encode reservedAutostartIds s).fpsRgbBlue =
      linkHalf s.externalLinkUartSpeed enabled ||| blue <<< 4 ∧
    ∀ camera ∈ s.camera, enabled = flag camera.fpsEnabled ∧ blue = tens camera.rgbBlue := by
  cases hc : s.camera with
  | none =>
    refine ⟨0, 0, .inl rfl, by decide, ?_, nofun⟩
    rw [encode_fpsRgbBlue, hc]
    exact UInt8.or_zero.symm
  | some camera =>
    refine ⟨flag camera.fpsEnabled, tens camera.rgbBlue, ?_, tens_lt _, ?_, ?_⟩
    · rw [flag]
      split
      case isTrue  => exact .inr rfl
      case isFalse => exact .inl rfl
    · rw [encode_fpsRgbBlue, hc]
      exact (UInt8.or_assoc ..).symm
    · rintro _ ⟨⟩
      exact ⟨rfl, rfl⟩

theorem decodeUartSpeed_encode : decodeUartSpeed (encode reservedAutostartIds s) =
    normalSpeed s.externalLinkUartSpeed := by
  obtain ⟨enabled, blue, henabled, _, hbyte, _⟩ := fpsRgbBlue_encode reservedAutostartIds (s := s)
  obtain ⟨_, hmark, hspeed, _⟩ := @linkHalf_bits s.externalLinkUartSpeed enabled henabled
  have hk : (4 : UInt8).toNat < 8 := by decide
  rw [decodeUartSpeed, hbyte, pack_and (by decide) hk, pack_and (by decide) hk, if_pos hmark,
    hspeed]
  rfl

theorem mark_encode : (encode reservedAutostartIds s).qrRateFpsMark &&& 0x0F = fpsMarkLow := by
  show ((_ : UInt8) <<< 4 ||| fpsMarkLow) &&& 0x0F = fpsMarkLow
  rw [UInt8.or_comm, pack_and (by decide) (by decide)]
  rfl

theorem decodeQrRate_encode : decodeQrRate (encode reservedAutostartIds s) =
    clampU8 s.qrDecodeRate qrDecodeRateMin qrDecodeRateMax := by
  have hlow : qrDecodeRateMin ≤ clampU8 s.qrDecodeRate qrDecodeRateMin qrDecodeRateMax :=
    le_clampU8 (by decide)
  have hhigh : clampU8 s.qrDecodeRate qrDecodeRateMin qrDecodeRateMax ≤ qrDecodeRateMax :=
    clampU8_le (by decide)
  have hlt := Nat.lt_of_le_of_lt (UInt8.le_iff_toNat_le.mp hhigh) (show 5 < 2 ^ 4 by decide)
  have hrate : (encode reservedAutostartIds s).qrRateFpsMark >>> 4 =
      clampU8 s.qrDecodeRate qrDecodeRateMin qrDecodeRateMax := by
    show ((_ : UInt8) <<< 4 ||| fpsMarkLow) >>> 4 = _
    rw [UInt8.or_comm, pack_shiftRight (by decide) hlt (by decide)]
  rw [decodeQrRate, if_pos (mark_encode _), hrate]
  exact if_pos ⟨hlow, hhigh⟩

theorem fromTens_pack {low value : UInt8} (hl : low.toNat < 2 ^ 4) :
    fromTens (low ||| tens value <<< 4) = tens value * 10 := by
  have hle : (tens value).toNat ≤ 10 := UInt8.le_iff_toNat_le.mp (tens_le value)
  have hlt : (tens value).toNat * 10 < 256 := by omega
  have hmul : (tens value * 10).toNat = (tens value).toNat * 10 := Nat.mod_eq_of_lt hlt
  rw [fromTens, pack_shiftRight (k := 4) hl (tens_lt value) (by decide),
    and_mask (n := 4) (tens_lt value) rfl]
  refine clampU8_eq UInt8.zero_le (UInt8.le_iff_toNat_le.mpr ?_)
  rw [hmul]
  exact Nat.mul_le_mul_right 10 hle

theorem encodeFormat_cases (format : UInt32) : (encodeFormat format).toNat < 4 ∧
    (encodeFormat format).toUInt32 =
      if format < photoFormatCount then format else photoFormatRaw565 := by
  rw [encodeFormat]
  split
  case isTrue h =>
    have hlt : format.toNat < 4 := UInt32.lt_iff_toNat_lt.mp h
    refine ⟨?_, UInt32.toNat_inj.mp ?_⟩
    · rw [UInt32.toNat_toUInt8]
      omega
    · rw [UInt8.toNat_toUInt32, UInt32.toNat_toUInt8]
      omega
  case isFalse => decide

theorem cameraSizeIsSafe_iff (size : UInt32) : cameraSizeIsSafe size ↔ size < cameraSizeCount := by
  rw [cameraSizeIsSafe, List.contains_iff_mem]
  simp only [List.mem_cons, List.not_mem_nil, or_false, ← UInt32.toNat_inj,
    UInt32.lt_iff_toNat_lt]
  show _ = 0 ∨ _ = 1 ∨ _ = 2 ↔ _ < 3
  omega

theorem encodeSize_cases (size : UInt32) : (encodeSize size).toNat < 3 ∧
    (encodeSize size).toUInt32 =
      if cameraSizeIsSafe size then size else cameraSize320x240 := by
  rw [encodeSize]
  split
  case isTrue h =>
    have hlt : size.toNat < 3 := UInt32.lt_iff_toNat_lt.mp ((cameraSizeIsSafe_iff size).mp h)
    refine ⟨?_, UInt32.toNat_inj.mp ?_⟩
    · rw [UInt32.toNat_toUInt8]
      omega
    · rw [UInt8.toNat_toUInt32, UInt32.toNat_toUInt8]
      omega
  case isFalse => decide

theorem decodeFormat_pack {payload : Payload} {format : UInt32} {red : UInt8}
    (h : payload.cameraFormatRgbRed = encodeFormat format ||| red <<< 4) :
    decodeFormat payload = if format < photoFormatCount then format else photoFormatRaw565 := by
  obtain ⟨hlt, he⟩ := encodeFormat_cases format
  have hlt : (encodeFormat format).toNat < 2 ^ 4 := Nat.lt_trans hlt (by decide)
  rw [decodeFormat, h, pack_and (by decide) (by decide), and_mask (n := 4) hlt rfl, he]
  refine if_pos ?_
  split
  case isTrue hf => exact hf
  case isFalse   => decide

theorem decodeSize_pack {payload : Payload} {size : UInt32} {green : UInt8}
    (h : payload.cameraSizeRgbGreen = encodeSize size ||| green <<< 4) :
    decodeSize payload = if cameraSizeIsSafe size then size else cameraSize320x240 := by
  obtain ⟨hlt, he⟩ := encodeSize_cases size
  have hlt : (encodeSize size).toNat < 2 ^ 4 := Nat.lt_trans hlt (by decide)
  have hsafe : cameraSizeIsSafe (if cameraSizeIsSafe size then size else cameraSize320x240) := by
    split
    case isTrue hs => exact hs
    case isFalse   => decide
  rw [decodeSize, h, pack_and (by decide) (by decide), and_mask (n := 4) hlt rfl, he]
  rw [if_pos ((cameraSizeIsSafe_iff _).mp hsafe), if_pos hsafe]

-- The light mode is the upper bit.
theorem encode_rgbRedLightMode : ∃ light : UInt8, (light = 0 ∨ light = 1) ∧
    (encode reservedAutostartIds s).rgbRedLightMode =
      clampU8 s.rgbRed 0 100 ||| light <<< 7 ∧
    ∀ camera ∈ s.camera, light = 1 ↔ camera.lightMode = cameraLightRgb := by
  have hbyte : (encode reservedAutostartIds s).rgbRedLightMode = clampU8 s.rgbRed 0 100 |||
      s.camera.elim (0 : UInt8) fun camera =>
        if camera.lightMode = cameraLightRgb then 0x80 else 0 := rfl
  rw [hbyte]
  cases hc : s.camera with
  | none        => exact ⟨0, .inl rfl, rfl, nofun⟩
  | some camera =>
    by_cases hl : camera.lightMode = cameraLightRgb
    case pos =>
      refine ⟨1, .inr rfl, congrArg _ (if_pos hl), ?_⟩
      rintro _ ⟨⟩
      exact ⟨fun _ => hl, fun _ => rfl⟩
    case neg =>
      refine ⟨0, .inl rfl, congrArg _ (if_neg hl), ?_⟩
      rintro _ ⟨⟩
      exact ⟨nofun, fun h => absurd h hl⟩

theorem upperBit {low light : UInt8} (hl : low.toNat < 2 ^ 7) (h : light = 0 ∨ light = 1) :
    (low ||| light <<< 7) &&& 0x80 ≠ 0 ↔ light = 1 := by
  have hlow : low.toNat.testBit 7 = false := Nat.testBit_lt_two_pow hl
  have hbit : ((low ||| light <<< 7) &&& 0x80).toNat =
      ((light <<< 7).toNat.testBit 7).toNat * 2 ^ 7 := by
    rw [UInt8.toNat_and, UInt8.toNat_or]
    refine (Nat.and_two_pow _ 7).trans ?_
    rw [Nat.testBit_or, hlow, Bool.false_or]
  rw [Ne, ← UInt8.toNat_inj, hbit]
  obtain rfl | rfl := h <;> decide

theorem clamped_lt (value : UInt8) : (clampU8 value 0 100).toNat < 2 ^ 7 := by
  have hle : clampU8 value 0 100 ≤ 100 := clampU8_le (by decide)
  exact Nat.lt_of_le_of_lt (UInt8.le_iff_toNat_le.mp hle) (by decide)

theorem rgbRed_encode : clampU8 ((encode reservedAutostartIds s).rgbRedLightMode &&& 0x7F) 0 100 =
    clampU8 s.rgbRed 0 100 := by
  obtain ⟨light, _, hbyte, _⟩ := encode_rgbRedLightMode reservedAutostartIds (s := s)
  rw [hbyte, pack_and (k := 7) (by decide) (by decide), and_mask (n := 7) (clamped_lt _) rfl,
    percent_percent]

theorem decodeCamera_encode {camera : CameraSettings} (h : s.camera = some camera) :
    decodeCamera (encode reservedAutostartIds s) = camera.normalized := by
  obtain ⟨enabled, blue, henabled, hblue, hfps, hcamera⟩ :=
    fpsRgbBlue_encode reservedAutostartIds (s := s)
  obtain ⟨henabled', rfl⟩ := hcamera camera h
  obtain ⟨hlink, _, _, hbit⟩ := @linkHalf_bits s.externalLinkUartSpeed enabled henabled
  obtain ⟨light, hlight, hred, hmode⟩ := encode_rgbRedLightMode reservedAutostartIds (s := s)
  have hmark : (encode reservedAutostartIds s).cameraSchemaMark = cameraMark := by
    show s.camera.elim (0 : UInt8) _ = _
    rw [h]
    rfl
  have hformat : (encode reservedAutostartIds s).cameraFormatRgbRed =
      encodeFormat camera.photoFormat ||| tens camera.rgbRed <<< 4 := by
    show s.camera.elim (0 : UInt8) _ = _
    rw [h]
    rfl
  have hsize : (encode reservedAutostartIds s).cameraSizeRgbGreen =
      encodeSize camera.size ||| tens camera.rgbGreen <<< 4 := by
    show s.camera.elim (0 : UInt8) _ = _
    rw [h]
    rfl
  have hreview : (encode reservedAutostartIds s).cameraReviewAfterShot =
      flag camera.reviewAfterShot := by
    show s.camera.elim (0 : UInt8) _ = _
    rw [h]
    rfl
  have hlow {n : Nat} {x : UInt8} (hx : x.toNat < n) (hn : n ≤ 16 := by decide) :
      x.toNat < 2 ^ 4 := Nat.lt_of_lt_of_le hx hn
  apply CameraSettings.ext
  all_goals simp only [decodeCamera, CameraSettings.normalized, hmark, true_or, if_true]
  case reviewAfterShot =>
    rw [hreview]
    exact flag_flag _
  case fpsEnabled =>
    rw [decodeFpsEnabled, if_pos (mark_encode _), hfps, pack_and (by decide) (by decide), hbit,
      henabled']
    exact flag_flag _
  case lightMode =>
    rw [hred]
    simp only [true_and, upperBit (clamped_lt _) hlight, hmode camera h]
  case rgbRed      => rw [hformat, fromTens_pack (hlow (encodeFormat_cases _).left)]
  case rgbGreen    => rw [hsize, fromTens_pack (hlow (encodeSize_cases _).left)]
  case rgbBlue     => rw [hfps, fromTens_pack hlink]
  case photoFormat => exact decodeFormat_pack hformat
  case size        => exact decodeSize_pack hsize

theorem persistable_persistable (id : UInt16) :
    (if autostartIdIsPersistable reservedAutostartIds
        (if autostartIdIsPersistable reservedAutostartIds id then id else 0) then
      if autostartIdIsPersistable reservedAutostartIds id then id else 0
    else
      0) = if autostartIdIsPersistable reservedAutostartIds id then id else 0 := by
  by_cases h : autostartIdIsPersistable reservedAutostartIds id
  case pos => rw [if_pos h, if_pos h]
  case neg =>
    rw [if_neg h]
    exact ite_self 0

-- A snapshot is brought into its ranges when it is packed and unpacked.
theorem decode_encode :
    decode reservedAutostartIds s.camera.isSome (encode reservedAutostartIds s) =
      s.normalized reservedAutostartIds := by
  have colored (x : UInt8) : (if (encode reservedAutostartIds s).rgbSchemaMark = rgbMark then x
    else clampU8 (encode reservedAutostartIds s).rgbBrightness 0 100) = x := if_pos rfl
  apply Snapshot.ext
  case ledEnabled            => exact flag_flag _
  case ledBrightness         => exact percent_percent _
  case rgbEnabled            => exact flag_flag _
  case rgbRed                => exact (colored _).trans (rgbRed_encode _)
  case rgbGreen              => exact (colored _).trans (percent_percent _)
  case rgbBlue               => exact (colored _).trans (percent_percent _)
  case screenBrightness      => exact clampU8_clampU8 (show (10 : UInt8) ≤ 100 by decide)
  case autoSleepMinutes      => exact decodeAutoSleep_encode _
  case featureFlags          => exact featureFlags_encode _
  case externalLinkUartSpeed => exact decodeUartSpeed_encode _
  case autostartId           => exact persistable_persistable _ _
  case appData               => rfl
  case qrDecodeRate          => exact decodeQrRate_encode _
  case camera =>
    show (if s.camera.isSome then some (decodeCamera (encode reservedAutostartIds s)) else none) =
      s.camera.map CameraSettings.normalized
    cases hc : s.camera with
    | none        => rfl
    | some camera => exact congrArg some (decodeCamera_encode _ hc)

section Decoded

variable {camera : Bool} {payload : Payload}

theorem normalSpeed_decode : normalSpeed (decodeUartSpeed payload) = decodeUartSpeed payload := by
  have small {speed : UInt8} (h : speed < uartSpeedCount) : normalSpeed speed = speed := by
    have hlt : speed.toNat < 2 ^ 2 := Nat.lt_trans (UInt8.lt_iff_toNat_lt.mp h) (by decide)
    rw [normalSpeed, and_mask (n := 2) hlt rfl, if_pos h]
  refine small ?_
  rw [decodeUartSpeed]
  dsimp only
  split_ifs with _ h
  · exact h
  all_goals decide

theorem clampU8_decodeAutoSleep :
    clampU8 (decodeAutoSleep payload) 1 30 = decodeAutoSleep payload := by
  rw [decodeAutoSleep]
  split
  case isTrue h => exact clampU8_eq h.left h.right
  case isFalse  => decide

theorem clampU8_decodeQrRate : clampU8 (decodeQrRate payload) qrDecodeRateMin qrDecodeRateMax =
    decodeQrRate payload := by
  rw [decodeQrRate]
  split
  case isTrue =>
    dsimp only
    split
    case isTrue h => exact clampU8_eq h.left h.right
    case isFalse  => decide
  case isFalse => decide

theorem tens_fromTens (packed : UInt8) : tens (fromTens packed) * 10 = fromTens packed := by
  have hlt : (packed >>> 4 &&& 0x0F).toNat < 16 := by
    rw [UInt8.toNat_and]
    exact Nat.and_lt_two_pow _ (show (0x0F : UInt8).toNat < 2 ^ 4 by decide)
  have tenfold : ∀ n < 16, let value := clampU8 (UInt8.ofNat n * 10) 0 100
      tens value * 10 = value := by decide
  have h := tenfold _ hlt
  rw [UInt8.ofNat_toNat] at h
  exact h

theorem normalized_decodeCamera : (decodeCamera payload).normalized = decodeCamera payload := by
  have color {b : Prop} [Decidable b] (packed : UInt8) :
      tens (if b then fromTens packed else 100) * 10 = if b then fromTens packed else 100 := by
    split
    case isTrue  => exact tens_fromTens packed
    case isFalse => decide
  apply CameraSettings.ext
  case reviewAfterShot => exact flag_flag _
  case fpsEnabled =>
    show flag (decodeFpsEnabled payload) = decodeFpsEnabled payload
    rw [decodeFpsEnabled]
    split_ifs <;> decide
  case lightMode =>
    show (if (if _ then cameraLightRgb else cameraLightLed) = cameraLightRgb then cameraLightRgb
      else cameraLightLed) = if _ then cameraLightRgb else cameraLightLed
    split_ifs <;> first | rfl | contradiction
  case rgbRed      => exact color _
  case rgbGreen    => exact color _
  case rgbBlue     => exact color _
  case photoFormat =>
    refine if_pos ?_
    show (if _ then decodeFormat payload else photoFormatRaw565) < photoFormatCount
    rw [decodeFormat]
    split_ifs <;> first | assumption | decide
  case size =>
    refine if_pos ?_
    show cameraSizeIsSafe (if _ then decodeSize payload else cameraSize320x240)
    rw [decodeSize]
    split_ifs <;> first | assumption | decide

theorem normalized_decode : (decode reservedAutostartIds camera payload).normalized
    reservedAutostartIds = decode reservedAutostartIds camera payload := by
  have color {b : Prop} [Decidable b] (x y : UInt8) :
      clampU8 (if b then clampU8 x 0 100 else clampU8 y 0 100) 0 100 =
        if b then clampU8 x 0 100 else clampU8 y 0 100 := by
    split <;> exact percent_percent _
  apply Snapshot.ext
  case ledEnabled            => exact flag_flag _
  case ledBrightness         => exact percent_percent _
  case rgbEnabled            => exact flag_flag _
  case rgbRed                => exact color _ _
  case rgbGreen              => exact color _ _
  case rgbBlue               => exact color _ _
  case screenBrightness      => exact clampU8_clampU8 (show (10 : UInt8) ≤ 100 by decide)
  case autoSleepMinutes      => exact clampU8_decodeAutoSleep
  case featureFlags          => exact (UInt8.and_assoc ..).trans (congrArg _ UInt8.and_self)
  case externalLinkUartSpeed => exact normalSpeed_decode
  case autostartId           => exact persistable_persistable _ _
  case appData               => rfl
  case qrDecodeRate          => exact clampU8_decodeQrRate
  case camera =>
    show (if camera then some (decodeCamera payload) else none).map CameraSettings.normalized =
      if camera then some (decodeCamera payload) else none
    cases camera with
    | false => rfl
    | true  => exact congrArg some normalized_decodeCamera

end Decoded

-- What is packed is unpacked in its ranges, and does not change when this is done again.
theorem packing_loses_precision :
    (∀ s : Snapshot, decode reservedAutostartIds s.camera.isSome (encode reservedAutostartIds s) =
      s.normalized reservedAutostartIds) ∧
    ∀ camera payload, let s := decode reservedAutostartIds camera payload
      decode reservedAutostartIds camera (encode reservedAutostartIds s) = s := by
  refine ⟨fun _ => decode_encode _, fun camera payload => ?_⟩
  have hcamera : (decode reservedAutostartIds camera payload).camera.isSome = camera := by
    cases camera <;> rfl
  have h := decode_encode reservedAutostartIds (s := decode reservedAutostartIds camera payload)
  rw [hcamera, normalized_decode] at h
  exact h

-- A speed of 4 is neither kept, nor the fastest one, nor the default.
theorem packing_wraps_speed : ¬∀ s : Snapshot,
    let speed := (decode [] s.camera.isSome (encode [] s)).externalLinkUartSpeed
    speed = s.externalLinkUartSpeed ∨
      speed = clampU8 s.externalLinkUartSpeed 0 (uartSpeedCount - 1) ∨ speed = uartSpeed115200 := by
  intro h
  have h4 := h ⟨0, 0, 0, 0, 0, 0, 0, 0, 0, 4, 0, .replicate appDataSize 0, none, 0⟩
  rw [decode_encode] at h4
  exact absurd h4 (by decide)

end Normalized

end Settings
