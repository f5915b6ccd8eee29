import HackyLens.Storage.Settings

-- `settings_payload_codec.c`, with what it uses of `hk_app_registry.c` and `hk_camera_sizes.c`.

namespace Settings

def rgbMark : UInt8 := 0xC3
def cameraMarkV1 : UInt8 := 0xA5
def cameraMark : UInt8 := 0xA6
def fpsMarkLow : UInt8 := 0xF5 &&& 0x0F
def payloadAutoSleepMask : UInt8 := 0x1F
def featureFlagsMask : UInt8 := 0x07
def uartSpeedMask : UInt8 := 0x06
def uartSpeedMark : UInt8 := 0x08
def qrDecodeRateDefault : UInt8 := 5
def qrDecodeRateMin : UInt8 := 1
def qrDecodeRateMax : UInt8 := 5

-- `photo_format_t`, `camera_size_t`, `camera_light_mode_t` and `external_link_uart_speed_t`
def photoFormatRaw565 : UInt32 := 1
def photoFormatCount : UInt32 := 4
def cameraSize160x120 : UInt32 := 0
def cameraSize320x240 : UInt32 := 1
def cameraSize640x480 : UInt32 := 2
def cameraSizeCount : UInt32 := 3
def cameraLightLed : UInt32 := 0
def cameraLightRgb : UInt32 := 1
def uartSpeed115200 : UInt8 := 1
def uartSpeedCount : UInt8 := 3

-- `camera_persist_settings_t`
@[ext]
structure CameraSettings where
  reviewAfterShot : UInt8
  fpsEnabled : UInt8
  lightMode : UInt32
  rgbRed : UInt8
  rgbGreen : UInt8
  rgbBlue : UInt8
  photoFormat : UInt32
  size : UInt32
  deriving DecidableEq

-- `settings_snapshot_t`. It has settings of the camera where this is a feature of the build.
@[ext]
structure Snapshot where
  ledEnabled : UInt8
  ledBrightness : UInt8
  rgbEnabled : UInt8
  rgbRed : UInt8
  rgbGreen : UInt8
  rgbBlue : UInt8
  screenBrightness : UInt8
  autoSleepMinutes : UInt8
  featureFlags : UInt8
  externalLinkUartSpeed : UInt8
  autostartId : UInt16
  appData : Vector UInt8 appDataSize
  camera : Option CameraSettings
  qrDecodeRate : UInt8
  deriving DecidableEq

def clampU8 (value minValue maxValue : UInt8) : UInt8 :=
  if value < minValue then minValue else if value > maxValue then maxValue else value

def cameraSizeIsSafe (size : UInt32) : Bool :=
  [cameraSize160x120, cameraSize320x240, cameraSize640x480].contains size

namespace Payload

variable (payload : Payload)

abbrev ledEnabled : UInt8 := payload.head[0]
abbrev ledBrightness : UInt8 := payload.head[1]
abbrev rgbEnabled : UInt8 := payload.head[2]
abbrev rgbBrightness : UInt8 := payload.head[3]
abbrev screenBrightness : UInt8 := payload.head[4]
abbrev cameraReviewAfterShot : UInt8 := payload.head[5]
abbrev autoSleepMinutes : UInt8 := payload.head[6]
abbrev cameraFormatRgbRed : UInt8 := payload.head[7]
abbrev cameraSizeRgbGreen : UInt8 := payload.head[8]
abbrev cameraSchemaMark : UInt8 := payload.head[9]
abbrev rgbRedLightMode : UInt8 := payload.head[10]
abbrev rgbGreen : UInt8 := payload.head[11]
abbrev rgbBlue : UInt8 := payload.head[12]
abbrev rgbSchemaMark : UInt8 := payload.head[13]
abbrev fpsRgbBlue : UInt8 := payload.head[14]
abbrev qrRateFpsMark : UInt8 := payload.head[15]

end Payload

section Codec

-- The ids that the generated registry reserves.
variable (reservedAutostartIds : List UInt16)

def autostartIdIsPersistable (id : UInt16) : Bool :=
  id = 0 || reservedAutostartIds.contains id

-- A component of a color of the camera, in tens.
def tens (value : UInt8) : UInt8 :=
  clampU8 value 0 100 / 10

def encodeFormat (format : UInt32) : UInt8 :=
  if format < photoFormatCount then format.toUInt8 else photoFormatRaw565.toUInt8

def encodeSize (size : UInt32) : UInt8 :=
  if cameraSizeIsSafe size then size.toUInt8 else cameraSize320x240.toUInt8

def encodeFps (enabled : UInt8) : UInt8 :=
  if enabled ≠ 0 then 1 else 0

-- `settings_payload_encode`, for a snapshot that there is.
def encode (snapshot : Snapshot) : Payload where
  head :=
    let camera (f : CameraSettings → UInt8) : UInt8 := snapshot.camera.elim 0 f
    let rgbSum :=
      snapshot.rgbRed.toUInt16 + snapshot.rgbGreen.toUInt16 + snapshot.rgbBlue.toUInt16
    let speed := uartSpeedMark ||| snapshot.externalLinkUartSpeed <<< 1 &&& uartSpeedMask
    #v[if snapshot.ledEnabled ≠ 0 then 1 else 0,
      clampU8 snapshot.ledBrightness 0 100,
      if snapshot.rgbEnabled ≠ 0 then 1 else 0,
      clampU8 (rgbSum / 3).toUInt8 0 100,
      clampU8 snapshot.screenBrightness 10 100,
      camera fun camera => if camera.reviewAfterShot ≠ 0 then 1 else 0,
      clampU8 snapshot.autoSleepMinutes 1 30 ||| (snapshot.featureFlags &&& featureFlagsMask) <<< 5,
      camera fun camera => encodeFormat camera.photoFormat ||| tens camera.rgbRed <<< 4,
      camera fun camera => encodeSize camera.size ||| tens camera.rgbGreen <<< 4,
      camera fun _ => cameraMark,
      clampU8 snapshot.rgbRed 0 100 |||
        camera fun camera => if camera.lightMode = cameraLightRgb then 0x80 else 0,
      clampU8 snapshot.rgbGreen 0 100,
      clampU8 snapshot.rgbBlue 0 100,
      rgbMark,
      speed |||
        camera fun camera => encodeFps camera.fpsEnabled ||| tens camera.rgbBlue <<< 4,
      clampU8 snapshot.qrDecodeRate qrDecodeRateMin qrDecodeRateMax <<< 4 ||| fpsMarkLow]
  appData     := snapshot.appData
  autostartId :=
    if autostartIdIsPersistable reservedAutostartIds snapshot.autostartId then
      snapshot.autostartId
    else
      0

def decodeAutoSleep (payload : Payload) : UInt8 :=
  let minutes := payload.autoSleepMinutes &&& payloadAutoSleepMask
  if minutes ≥ 1 ∧ minutes ≤ 30 then minutes else 1

def decodeUartSpeed (payload : Payload) : UInt8 :=
  if payload.fpsRgbBlue &&& uartSpeedMark ≠ 0 then
    let speed := (payload.fpsRgbBlue &&& uartSpeedMask) >>> 1
    if speed < uartSpeedCount then speed else uartSpeed115200
  else
    uartSpeed115200

def decodeQrRate (payload : Payload) : UInt8 :=
  if payload.qrRateFpsMark &&& 0x0F = fpsMarkLow then
    let rate := payload.qrRateFpsMark >>> 4
    if rate ≥ qrDecodeRateMin ∧ rate ≤ qrDecodeRateMax then rate else qrDecodeRateDefault
  else
    qrDecodeRateDefault

-- A component of a color of the camera, from the upper half of a byte.
def fromTens (packed : UInt8) : UInt8 :=
  clampU8 ((packed >>> 4 &&& 0x0F) * 10) 0 100

def decodeFormat (payload : Payload) : UInt32 :=
  let format := (payload.cameraFormatRgbRed &&& 0x0F).toUInt32
  if format < photoFormatCount then format else photoFormatRaw565

def decodeSize (payload : Payload) : UInt32 :=
  let size := (payload.cameraSizeRgbGreen &&& 0x0F).toUInt32
  let size := if size < cameraSizeCount then size else cameraSize320x240
  if cameraSizeIsSafe size then size else cameraSize320x240

def decodeFpsEnabled (payload : Payload) : UInt8 :=
  if payload.qrRateFpsMark &&& 0x0F = fpsMarkLow then
    if payload.fpsRgbBlue &&& 0x01 ≠ 0 then 1 else 0
  else
    1

-- What is known of the colors depends on the mark.
def decodeCamera (payload : Payload) : CameraSettings :=
  let known := payload.cameraSchemaMark = cameraMark ∨ payload.cameraSchemaMark = cameraMarkV1
  let colored := payload.cameraSchemaMark = cameraMark
  { reviewAfterShot := if payload.cameraReviewAfterShot ≠ 0 then 1 else 0
    fpsEnabled  := decodeFpsEnabled payload
    lightMode   :=
      if colored ∧ payload.rgbRedLightMode &&& 0x80 ≠ 0 then cameraLightRgb else cameraLightLed
    rgbRed      := if colored then fromTens payload.cameraFormatRgbRed else 100
    rgbGreen    := if colored then fromTens payload.cameraSizeRgbGreen else 100
    rgbBlue     := if colored then fromTens payload.fpsRgbBlue else 100
    photoFormat := if known then decodeFormat payload else photoFormatRaw565
    size        := if known then decodeSize payload else cameraSize320x240 }

-- `settings_payload_decode`, in a build with or without a camera.
def decode (camera : Bool) (payload : Payload) : Snapshot :=
  let rgbBrightness := clampU8 payload.rgbBrightness 0 100
  let colored := payload.rgbSchemaMark = rgbMark
  { ledEnabled       := if payload.ledEnabled ≠ 0 then 1 else 0
    ledBrightness    := clampU8 payload.ledBrightness 0 100
    rgbEnabled       := if payload.rgbEnabled ≠ 0 then 1 else 0
    rgbRed           :=
      if colored then clampU8 (payload.rgbRedLightMode &&& 0x7F) 0 100 else rgbBrightness
    rgbGreen         := if colored then clampU8 payload.rgbGreen 0 100 else rgbBrightness
    rgbBlue          := if colored then clampU8 payload.rgbBlue 0 100 else rgbBrightness
    screenBrightness := clampU8 payload.screenBrightness 10 100
    autoSleepMinutes := decodeAutoSleep payload
    featureFlags     := payload.autoSleepMinutes >>> 5 &&& featureFlagsMask
    externalLinkUartSpeed := decodeUartSpeed payload
    autostartId      :=
      if autostartIdIsPersistable reservedAutostartIds payload.autostartId then
        payload.autostartId
      else
        0
    appData          := payload.appData
    camera           := if camera then some (decodeCamera payload) else none
    qrDecodeRate     := decodeQrRate payload }

end Codec
end Settings
