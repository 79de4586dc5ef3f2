import TuyaSdk.Airkiss.Bounds

/-!
# What a sender transmits

The abstract side of the decoder: a sender encodes a password, a random byte and an SSID as
code numbers and sends data frames whose lengths are its base length plus a code. Other frames
arrive in between; the ones that the filter in force rejects are noise.
-/

namespace TuyaSdk.Airkiss

/-- A sender with what it has to tell. -/
structure Sender where
  mac : Vector UInt8 6
  /-- 1 for an access point, 2 for a station. -/
  apSta : Nat
  baseLen : Nat
  pwd : List UInt8
  random : UInt8
  ssid : List UInt8
  apSta_eq : apSta = 1 ∨ apSta = 2
  baseLen_ge : 24 ≤ baseLen
  baseLen_le : baseLen ≤ 251
  pwd_le : pwd.length ≤ 32
  ssid_pos : 1 ≤ ssid.length
  ssid_le : ssid.length ≤ 32
  total_ge : 16 ≤ pwd.length + 1 + ssid.length
  total_le : pwd.length + 1 + ssid.length ≤ 63

namespace Sender

variable (t : Sender)

def total : Nat := t.pwd.length + 1 + t.ssid.length

def payload : List UInt8 := t.pwd ++ t.random :: t.ssid

def macCrc : UInt8 := calcrcBytes t.mac.toList

/-- The number of sequence groups. -/
def groups : Nat := (t.total + 3) / 4

def guideCodes : List Nat := [1, 2, 3, 4]

/-- The magic code: the total length and a checksum of the SSID. -/
def magicCodes (ssidCrc : UInt8) : List Nat :=
  [t.total / 16, 0x10 + t.total % 16, 0x20 + ssidCrc.toNat / 16, 0x30 + ssidCrc.toNat % 16]

/-- The prefix code: the length of the password and its checksum. -/
def prefixCodes : List Nat :=
  let crc := (calcrc1byte (UInt8.ofNat t.pwd.length)).toNat
  [0x40 + t.pwd.length / 16, 0x50 + t.pwd.length % 16, 0x60 + crc / 16, 0x70 + crc % 16]

/-- A sequence group: checksum, index and up to four bytes of the payload. -/
def groupCodes (i : Nat) : List Nat :=
  let bytes := (t.payload.drop (i * 4)).take 4
  (0x80 + (calcrcBytes (UInt8.ofNat i :: bytes)).toNat % 128) :: (0x80 + i) ::
    bytes.map fun b => 0x100 + b.toNat

/-- The codes after the guide: runs of the magic and the prefix code, then the groups in some
order. -/
def bodyCodes (ssidCrc : UInt8) (magicRuns prefixRuns : Nat) (order : List Nat) : List Nat :=
  (List.replicate magicRuns (t.magicCodes ssidCrc)).flatten ++
    (List.replicate prefixRuns t.prefixCodes).flatten ++ order.flatMap t.groupCodes

/-- The frame carries the code. -/
def Sends (code : Nat) (frame : Frame) : Prop :=
  macFctrlDataT = frame.hdr.fctl &&& macFctrlTypeMask ∧
    sourceOf frame.hdr = (some t.mac, t.apSta) ∧ frame.length.toNat = t.baseLen + code

/-- The frame is rejected by the filter of a decoder that is locked on the sender. -/
def Rejected (frame : Frame) : Prop :=
  airkissFilter { LocalContext.zero with
    baseLen := t.baseLen
    srcApSta := t.apSta
    srcMacCrc := t.macCrc } frame = some false

end Sender

/-- The frames are those of the signal in order, with noise in between. -/
inductive Interleaved (noise : Frame → Prop) : List Frame → List Frame → Prop
  | nil : Interleaved noise [] []
  | signal {frame : Frame} {signal frames : List Frame} :
    Interleaved noise signal frames → Interleaved noise (frame :: signal) (frame :: frames)
  | noise {frame : Frame} {signal frames : List Frame} :
    noise frame → Interleaved noise signal frames → Interleaved noise signal (frame :: frames)

theorem Interleaved.refl (noise : Frame → Prop) (signal : List Frame) :
    Interleaved noise signal signal := by
  induction signal with
  | nil => exact .nil
  | cons frame signal ih => exact .signal ih

/-- The frames are a transmission of the sender: the four guide lengths in frames with new
sequence numbers, then at least one run each of the magic and the prefix code, then every group
at least once; with frames in between that the filter of the phase rejects. -/
def Sender.Transmits (t : Sender) (frames : List Frame) : Prop :=
  ∃ guide guideFrames body bodyFrames : List Frame,
    frames = guideFrames ++ bodyFrames ∧
    Interleaved (fun frame => airkissDiscoverFilter frame = false) guide guideFrames ∧
    List.Forall₂ t.Sends Sender.guideCodes guide ∧
    guide.IsChain (fun f g => f.hdr.seq.toNat >>> 4 ≠ g.hdr.seq.toNat >>> 4) ∧
    Interleaved t.Rejected body bodyFrames ∧
    ∃ ssidCrc magicRuns prefixRuns order,
      0 < magicRuns ∧ 0 < prefixRuns ∧ (∀ i, i ∈ order ↔ i < t.groups) ∧
      List.Forall₂ t.Sends (t.bodyCodes ssidCrc magicRuns prefixRuns order) body

/-! ## A transmission of every sender -/

namespace Sender

variable (t : Sender)

/-- A frame of the sender with the code and the sequence number. -/
def frame (code seq : Nat) : Frame where
  hdr :=
    { fctl := macFctrlDataT ||| if t.apSta = 1 then macFctrlFromds else macFctrlTods
      addr2 := t.mac
      addr3 := t.mac
      seq := UInt16.ofNat (seq * 16) }
  length := UInt16.ofNat (t.baseLen + code)

theorem sends_frame {code : Nat} (hcode : code < 0x200) (seq : Nat) :
    t.Sends code (t.frame code seq) := by
  have hle := t.baseLen_le
  refine ⟨?_, ?_, ?_⟩
  · rcases t.apSta_eq with h | h
    · simp only [frame, h]
      decide
    · simp only [frame, h]
      decide
  · rcases t.apSta_eq with h | h
    · simp only [sourceOf, frame, h]
      rw [if_pos (by decide)]
    · simp only [sourceOf, frame, h]
      rw [if_neg (by decide), if_pos (by decide)]
  · change (t.baseLen + code) % 2 ^ 16 = t.baseLen + code
    omega

/-- The frames of a transmission without noise. -/
def transmission (ssidCrc : UInt8) (magicRuns prefixRuns : Nat) (order : List Nat) : List Frame :=
  [t.frame 1 1, t.frame 2 2, t.frame 3 3, t.frame 4 4] ++
    (t.bodyCodes ssidCrc magicRuns prefixRuns order).map fun code => t.frame code 5

theorem bodyCodes_lt {ssidCrc : UInt8} {magicRuns prefixRuns : Nat} {order : List Nat}
    (horder : ∀ i ∈ order, i < t.groups) :
    ∀ code ∈ t.bodyCodes ssidCrc magicRuns prefixRuns order, code < 0x200 := by
  intro code hcode
  have htotal : t.total ≤ 63 := t.total_le
  have hpwd := t.pwd_le
  have hcrc : ssidCrc.toNat < 256 := ssidCrc.toNat_lt
  rw [bodyCodes, List.mem_append, List.mem_append] at hcode
  rcases hcode with (hcode | hcode) | hcode
  · obtain ⟨run, hrun, hcode⟩ := List.mem_flatten.mp hcode
    rw [List.eq_of_mem_replicate hrun, magicCodes] at hcode
    simp only [List.mem_cons, List.not_mem_nil, or_false] at hcode
    omega
  · obtain ⟨run, hrun, hcode⟩ := List.mem_flatten.mp hcode
    have hlt : (calcrc1byte (UInt8.ofNat t.pwd.length)).toNat < 256 := UInt8.toNat_lt _
    rw [List.eq_of_mem_replicate hrun, prefixCodes] at hcode
    simp only [List.mem_cons, List.not_mem_nil, or_false] at hcode
    omega
  · obtain ⟨i, hi, hcode⟩ := List.mem_flatMap.mp hcode
    have hlt : i < (t.total + 3) / 4 := horder i hi
    rw [groupCodes] at hcode
    simp only [List.mem_cons, List.mem_map] at hcode
    rcases hcode with rfl | rfl | ⟨b, -, rfl⟩
    · omega
    · omega
    · have : b.toNat < 256 := b.toNat_lt
      omega

end Sender

theorem forall₂_map_right {α β : Type} {R : α → β → Prop} {f : α → β} {xs : List α}
    (h : ∀ x ∈ xs, R x (f x)) : List.Forall₂ R xs (xs.map f) := by
  rw [List.forall₂_map_right_iff, List.forall₂_same]
  exact h

/-- Every sender has transmissions. -/
theorem Sender.transmits_transmission (t : Sender) (ssidCrc : UInt8) {magicRuns prefixRuns : Nat}
    {order : List Nat} (hm : 0 < magicRuns) (hp : 0 < prefixRuns)
    (horder : ∀ i, i ∈ order ↔ i < t.groups) :
    t.Transmits (t.transmission ssidCrc magicRuns prefixRuns order) := by
  refine ⟨_, _, _, _, rfl, .refl _ _, ?_, ?_, .refl _ _, ssidCrc, magicRuns, prefixRuns, order,
    hm, hp, horder, ?_⟩
  · refine .cons (t.sends_frame (by omega) 1) (.cons (t.sends_frame (by omega) 2)
      (.cons (t.sends_frame (by omega) 3) (.cons (t.sends_frame (by omega) 4) .nil)))
  · simp only [frame, List.isChain_cons_cons, List.isChain_singleton, and_true]
    decide
  · exact forall₂_map_right fun code hcode =>
      t.sends_frame (t.bodyCodes_lt (fun i hi => (horder i).mp hi) code hcode) 5

/-! ## The result -/

/-- Frames are received until the decoding is complete. -/
def decode : LocalContext → List Frame → Option (LocalContext × AirkissStatus)
  | ak, [] => some (ak, .continue)
  | ak, frame :: frames => do
    let (ak, status) ← airkissRecv ak frame
    if status = .complete then return (ak, .complete) else decode ak frames

/-- `len` bytes of the user data from a pointer into it. -/
def bytesAt (ak : LocalContext) (ptr len : Nat) : List UInt8 :=
  (ak.usrData.toList.drop ptr).take len

/-- The result is what the sender told, with both strings ended by a NUL. -/
def Sender.Told (t : Sender) (ak : LocalContext) : Prop :=
  let result := airkissGetResult ak
  ∃ pwd ssid, result.pwd = some pwd ∧ result.ssid = some ssid ∧
    result.pwdLength = t.pwd.length ∧ result.ssidLength = t.ssid.length ∧
    result.random = t.random ∧
    bytesAt ak pwd (t.pwd.length + 1) = t.pwd ++ [0] ∧
    bytesAt ak ssid (t.ssid.length + 1) = t.ssid ++ [0]

/-- The decoder is idle and has not seen a source. -/
def Idle (ak : LocalContext) : Prop := ak.airkissState = .idle ∧ ak.srcNum = 0

end TuyaSdk.Airkiss
