/-
# The built-in catalog

The targets of a voice module on Windows and macOS, as of the build that the version names.
Most are fixed bytes; the two injection targets are slots for function bodies.
-/

import BinaryPatch.Catalog.Basic

namespace BinaryPatch
namespace Catalog
namespace Builtin

/-- Report two channels from the stereo capability check. -/
def emulateStereoSuccess1 : Target where
  id := "EmulateStereoSuccess1"
  category := .stereo
  description :=
    "Report two channels from the stereo capability check"
  variants := {
    windows := some {
      expected := [0x01]
      signature := some {
        pattern := "E8 ?? ?? ?? ?? 80 7D ?? ?? ?? ?? 48 8B 4D"
        anchor := 8 }
      payload := .bytes [0x02]
      lastKnown := some 0xA296FF }
    macos := some {
      expected := [0x01]
      signature := some {
        pattern := "E8 ?? ?? ?? ?? 80 7B ?? ?? ?? ?? 48 8B 7B"
        anchor := 8 }
      payload := .bytes [0x02]
      lastKnown := some 0x8C1A2F } }

/-- Take the success branch of the stereo capability check unconditionally. -/
def emulateStereoSuccess2 : Target where
  id := "EmulateStereoSuccess2"
  category := .stereo
  description :=
    "Take the success branch of the stereo capability check unconditionally"
  variants := {
    windows := some {
      expected := [0x75]
      payload := .bytes [0xEB]
      lastKnown := some 0xA29700 }
    macos := some {
      expected := [0x75]
      payload := .bytes [0xEB]
      lastKnown := some 0x8C1A30 } }

/-- Keep the channel count when building outgoing audio frames. -/
def createAudioFrameStereo : Target where
  id := "CreateAudioFrameStereo"
  category := .stereo
  description :=
    "Keep the channel count when building outgoing audio frames"
  variants := {
    windows := some {
      expected := [0x4C, 0x8B, 0x65, 0xE8]
      signature := some {
        pattern := "48 8B CE E8 ?? ?? ?? ?? ?? ?? ?? ?? 4C 89 ?? 24"
        anchor := 8 }
      payload := .bytes [0x49, 0x89, 0xC4, 0x90]
      lastKnown := some 0xA1E34A }
    macos := some {
      expected := [0x4C, 0x8B, 0x65, 0xD0]
      signature := some {
        pattern := "48 89 DF E8 ?? ?? ?? ?? ?? ?? ?? ?? 4C 89 ?? 24"
        anchor := 8 }
      payload := .bytes [0x49, 0x89, 0xC4, 0x90]
      lastKnown := some 0x8B5E2A } }

/-- Configure the Opus encoder for two channels. -/
def audioEncoderOpusConfigSetChannels : Target where
  id := "AudioEncoderOpusConfigSetChannels"
  category := .encoder
  description :=
    "Configure the Opus encoder for two channels"
  variants := {
    windows := some {
      expected := [0x01]
      signature := some {
        pattern := "C7 41 08 ?? 00 00 00 C7 81 A0 00 00 00 ?? ?? ?? ?? C3"
        anchor := 3 }
      payload := .bytes [0x02]
      lastKnown := some 0x41BE45 }
    macos := some {
      expected := [0x01]
      signature := some {
        pattern := "C7 47 08 ?? 00 00 00 C7 87 A0 00 00 00 ?? ?? ?? ?? 5D C3"
        anchor := 3 }
      payload := .bytes [0x02]
      lastKnown := some 0x3A0C85 } }

/-- Skip the mono downmix of captured audio. -/
def monoDownmixer : Target where
  id := "MonoDownmixer"
  category := .stereo
  description :=
    "Skip the mono downmix of captured audio"
  variants := {
    windows := some {
      expected := [0x83, 0xBE, 0x44, 0x01, 0x00, 0x00, 0x09, 0x7F, 0x05, 0xE8, 0x72, 0x11, 0x00]
      signature := some {
        pattern := "48 8B CE E8 ?? ?? ?? ?? ?? ?? ?? ?? ?? ?? ?? ?? ?? ?? ?? ?? ?? 00 00 48 8B 8E"
        anchor := 8 }
      payload := .bytes [0x90, 0x90, 0x90, 0x90, 0x90, 0x90, 0x90, 0x90, 0x90, 0x90, 0x90,
        0x90, 0xE9]
      lastKnown := some 0x9E9DEB }
    macos := some {
      expected := [0x83, 0xBB, 0x44, 0x01, 0x00, 0x00, 0x09, 0x7F, 0x05, 0xE8, 0xA2, 0x0F, 0x00]
      signature := some {
        pattern := "48 89 DF E8 ?? ?? ?? ?? ?? ?? ?? ?? ?? ?? ?? ?? ?? ?? ?? ?? ?? 00 00 48 8B BB"
        anchor := 8 }
      payload := .bytes [0x90, 0x90, 0x90, 0x90, 0x90, 0x90, 0x90, 0x90, 0x90, 0x90, 0x90,
        0x90, 0xE9]
      lastKnown := some 0x883B1B } }

/-- Report 384 kbps as the negotiated bitrate. -/
def emulateBitrateModified : Target where
  id := "EmulateBitrateModified"
  category := .bitrate
  description :=
    "Report 384 kbps as the negotiated bitrate"
  variants := {
    windows := some {
      expected := [0x00, 0x7D, 0x00]
      signature := some {
        pattern := "C7 87 ?? ?? ?? ?? ?? ?? ?? 00 48 8B 8F"
        anchor := 6 }
      payload := .bytes [0x00, 0xDC, 0x05]
      lastKnown := some 0xA29B5E }
    macos := some {
      expected := [0x00, 0x7D, 0x00]
      signature := some {
        pattern := "C7 83 ?? ?? ?? ?? ?? ?? ?? 00 48 8B BB"
        anchor := 6 }
      payload := .bytes [0x00, 0xDC, 0x05]
      lastKnown := some 0x8C1ED2 } }

/-- Raise the bitrate constant to 384 kbps. -/
def setsBitrateBitrateValue : Target where
  id := "SetsBitrateBitrateValue"
  category := .bitrate
  description :=
    "Raise the bitrate constant to 384 kbps"
  variants := {
    windows := some {
      expected := [0x00, 0x7D, 0x00, 0x00, 0x00]
      signature := some {
        pattern := "48 B8 ?? ?? ?? ?? ?? 00 00 00 ?? ?? ?? 48 89 4E"
        anchor := 2 }
      payload := .bytes [0x00, 0xDC, 0x05, 0x00, 0x00]
      lastKnown := some 0x6091E0 }
    macos := some {
      expected := [0x00, 0x7D, 0x00, 0x00, 0x00]
      signature := some {
        pattern := "48 B8 ?? ?? ?? ?? ?? 00 00 00 ?? ?? ?? 48 89 7B"
        anchor := 2 }
      payload := .bytes [0x00, 0xDC, 0x05, 0x00, 0x00]
      lastKnown := some 0x4E2C60 } }

/-- Drop the flag merge that clamps the bitrate. -/
def setsBitrateBitwiseOr : Target where
  id := "SetsBitrateBitwiseOr"
  category := .bitrate
  description :=
    "Drop the flag merge that clamps the bitrate"
  variants := {
    windows := some {
      expected := [0x48, 0x09, 0xC1]
      payload := .bytes [0x90, 0x90, 0x90]
      lastKnown := some 0x6091E8 }
    macos := some {
      expected := [0x48, 0x09, 0xC7]
      payload := .bytes [0x90, 0x90, 0x90]
      lastKnown := some 0x4E2C68 } }

/-- Second copy of the negotiated bitrate report. -/
def duplicateEmulateBitrateModified : Target where
  id := "DuplicateEmulateBitrateModified"
  category := .bitrate
  description :=
    "Second copy of the negotiated bitrate report"
  variants := {
    windows := some {
      expected := [0x00, 0x7D, 0x00]
      signature := some {
        pattern := "C7 86 ?? ?? ?? ?? ?? ?? ?? 00 E9"
        anchor := 6 }
      payload := .bytes [0x00, 0xDC, 0x05]
      lastKnown := some 0xA2EA44 }
    macos := some {
      expected := [0x00, 0x7D, 0x00]
      signature := some {
        pattern := "C7 86 ?? ?? ?? ?? ?? ?? ?? 00 E9"
        anchor := 6 }
      payload := .bytes [0x00, 0xDC, 0x05]
      lastKnown := some 0x8C6A14 } }

/-- Return early from the capture high-pass filter. -/
def highPassFilter : Target where
  id := "HighPassFilter"
  category := .filter
  description :=
    "Return early from the capture high-pass filter"
  variants := {
    windows := some {
      expected := [0x48]
      signature := some {
        pattern := "?? 89 5C 24 08 57 48 83 EC 20 0F 29 74 24 ?? 48 8B F9"
        anchor := 0 }
      payload := .bytes [0xC3]
      lastKnown := some 0x2B6EC0 }
    macos := some {
      expected := [0x55]
      signature := some {
        pattern := "?? 48 89 E5 41 57 41 56 53 48 83 EC 18 0F 29 45"
        anchor := 0 }
      payload := .bytes [0xC3]
      lastKnown := some 0x23A110 } }

/-- Return early from the channel downmix routine. -/
def downmixFunc : Target where
  id := "DownmixFunc"
  category := .filter
  description :=
    "Return early from the channel downmix routine"
  variants := {
    windows := some {
      expected := [0x40]
      signature := some {
        pattern := "?? 53 48 83 EC 30 48 8B D9 8B 89"
        anchor := 0 }
      payload := .bytes [0xC3]
      lastKnown := some 0x3FAE70 }
    macos := some {
      expected := [0x55]
      signature := some {
        pattern := "?? 48 89 E5 53 48 83 EC 28 48 89 FB 8B 8F"
        anchor := 0 }
      payload := .bytes [0xC3]
      lastKnown := some 0x3624F0 } }

/-- Accept any encoder configuration. -/
def audioEncoderOpusConfigIsOk : Target where
  id := "AudioEncoderOpusConfigIsOk"
  category := .encoder
  description :=
    "Accept any encoder configuration"
  variants := {
    windows := some {
      expected := [0x48]
      signature := some {
        pattern := "?? 83 EC 28 8B 01 FF C8 83 F8 01"
        anchor := 0 }
      payload := .bytes [0xC3]
      lastKnown := some 0x41C150 }
    macos := some {
      expected := [0x55]
      signature := some {
        pattern := "?? 48 89 E5 8B 07 FF C8 83 F8 01"
        anchor := 0 }
      payload := .bytes [0xC3]
      lastKnown := some 0x3A0F90 } }

/-- Swallow encoder configuration errors. -/
def errorThrower : Target where
  id := "ThrowError"
  category := .encoder
  description :=
    "Swallow encoder configuration errors"
  variants := {
    windows := some {
      expected := [0x48]
      signature := some {
        pattern := "?? 89 5C 24 10 48 89 74 24 18 57 48 83 EC 40 48 8B F1 48 8D"
        anchor := 0 }
      payload := .bytes [0xC3]
      lastKnown := some 0x945240 }
    macos := some {
      expected := [0x55]
      signature := some {
        pattern := "?? 48 89 E5 41 56 53 48 83 EC 30 49 89 FE 48 8D"
        anchor := 0 }
      payload := .bytes [0xC3]
      lastKnown := some 0x7F8A40 } }

/-- Initial encoder bitrate in the channel setup path. -/
def encoderConfigInit1 : Target where
  id := "EncoderConfigInit1"
  category := .encoder
  description :=
    "Initial encoder bitrate in the channel setup path"
  variants := {
    windows := some {
      expected := [0x80, 0xBB, 0x00, 0x00]
      payload := .bytes [0x00, 0xDC, 0x05, 0x00]
      lastKnown := some 0x41BE4F }
    macos := some {
      expected := [0x80, 0xBB, 0x00, 0x00]
      payload := .bytes [0x00, 0xDC, 0x05, 0x00]
      lastKnown := some 0x3A0C8F } }

/-- Initial encoder bitrate in the default config. -/
def encoderConfigInit2 : Target where
  id := "EncoderConfigInit2"
  category := .encoder
  description :=
    "Initial encoder bitrate in the default config"
  variants := {
    windows := some {
      expected := [0x80, 0xBB, 0x00, 0x00]
      signature := some {
        pattern := "C7 43 04 ?? ?? ?? ?? 89 7B 08 48 8B 5C 24"
        anchor := 3 }
      payload := .bytes [0x00, 0xDC, 0x05, 0x00]
      lastKnown := some 0x41B9C8 }
    macos := some {
      expected := [0x80, 0xBB, 0x00, 0x00]
      signature := some {
        pattern := "C7 43 04 ?? ?? ?? ?? 44 89 73 08 48 83 C4"
        anchor := 3 }
      payload := .bytes [0x00, 0xDC, 0x05, 0x00]
      lastKnown := some 0x3A08B8 } }

/-- Replacement body for the high-pass cutoff filter. -/
def highpassCutoffFilter : Target where
  id := "HighpassCutoffFilter"
  category := .injection
  description :=
    "Replacement body for the high-pass cutoff filter"
  variants := {
    windows := some {
      expected := [0x48, 0x89, 0x5C, 0x24, 0x08, 0x48, 0x89, 0x74, 0x24, 0x10, 0x57, 0x48,
        0x83, 0xEC, 0x30]
      signature := some {
        pattern := "0F 28 74 24 20 48 83 C4 30 5F C3 CC CC CC CC CC"
        anchor := 16 }
      payload := .slot 400
      lastKnown := some 0x403A90 }
    macos := some {
      expected := [0x55, 0x48, 0x89, 0xE5, 0x41, 0x57, 0x41, 0x56, 0x53, 0x50, 0x49, 0x89, 0xFE]
      signature := some {
        pattern := "48 83 C4 18 5B 41 5E 41 5F 5D C3 66 2E 0F 1F 84"
        anchor := 16 }
      payload := .slot 400
      lastKnown := some 0x36B5E0 } }

/-- Replacement body for the DC reject filter. -/
def dcReject : Target where
  id := "DcReject"
  category := .injection
  description :=
    "Replacement body for the DC reject filter"
  variants := {
    windows := some {
      expected := [0x40, 0x53, 0x48, 0x83, 0xEC, 0x20]
      payload := .slot 400
      lastKnown := some 0x403C20 }
    macos := some {
      expected := [0x55, 0x48, 0x89, 0xE5, 0x53, 0x50, 0x48, 0x89, 0xFB]
      payload := .slot 400
      lastKnown := some 0x36B770 } }

/-- The targets, in order. -/
def targets : List Target := [
  emulateStereoSuccess1, emulateStereoSuccess2, createAudioFrameStereo,
  audioEncoderOpusConfigSetChannels, monoDownmixer, emulateBitrateModified,
  setsBitrateBitrateValue, setsBitrateBitwiseOr, duplicateEmulateBitrateModified, highPassFilter,
  downmixFunc, audioEncoderOpusConfigIsOk, errorThrower, encoderConfigInit1, encoderConfigInit2,
  highpassCutoffFilter, dcReject]

/-- The rules between them. -/
def rules : List Rule := [
  { platform := .windows
    source := "EmulateStereoSuccess1"
    dest := "EmulateStereoSuccess2"
    delta := 1
    description := "Branch opcode follows the compared immediate" },
  { platform := .windows
    source := "EmulateStereoSuccess1"
    dest := "EmulateBitrateModified"
    delta := 1119
    description := "Bitrate store in the same capability check" },
  { platform := .windows
    source := "SetsBitrateBitrateValue"
    dest := "SetsBitrateBitwiseOr"
    delta := 8
    description := "Merge instruction follows the 64-bit immediate" },
  { platform := .windows
    source := "AudioEncoderOpusConfigSetChannels"
    dest := "EncoderConfigInit1"
    delta := 10
    description := "Bitrate immediate of the next store" },
  { platform := .windows
    source := "HighpassCutoffFilter"
    dest := "DcReject"
    delta := 400
    description := "Adjacent filter slot" },
  { platform := .macos
    source := "EmulateStereoSuccess1"
    dest := "EmulateStereoSuccess2"
    delta := 1
    description := "Branch opcode follows the compared immediate" },
  { platform := .macos
    source := "EmulateStereoSuccess1"
    dest := "EmulateBitrateModified"
    delta := 1187
    description := "Bitrate store in the same capability check" },
  { platform := .macos
    source := "SetsBitrateBitrateValue"
    dest := "SetsBitrateBitwiseOr"
    delta := 8
    description := "Merge instruction follows the 64-bit immediate" },
  { platform := .macos
    source := "AudioEncoderOpusConfigSetChannels"
    dest := "EncoderConfigInit1"
    delta := 10
    description := "Bitrate immediate of the next store" },
  { platform := .macos
    source := "HighpassCutoffFilter"
    dest := "DcReject"
    delta := 400
    description := "Adjacent filter slot" }]

end Builtin

/-- The built-in catalog. -/
def builtin : Catalog where
  version := "2025.10-384k"
  targets := Builtin.targets
  rules := Builtin.rules

end Catalog
end BinaryPatch
