import TuyaSdk.TklOta.Steps

/-!
# Where an upgrade touches the flash

The receiver checks neither that a pack ends with the announced image nor that an image is
in when `tkl_ota_end_notify` is called. Runs whose calls keep to that, `Confining`, touch
the upgrade partition only.
-/

namespace TuyaSdk.TklOta
open TuyaSdk.Lib TuyaSdk.Flash

/-- The range lies in the upgrade partition. -/
def InPartition (addr size : Nat) : Prop :=
  ugStartAddr ≤ addr ∧ addr + size ≤ ugStartAddr + otaMaxBinSize

/-- The flash operation of an event lies in the upgrade partition. -/
def Confined : OtaEvent → Prop
  | .eraseSector addr _ => InPartition addr 4096
  | .write addr size _ | .restore addr size _ => InPartition addr size
  | .malloc _ | .free _ | .accepted _ | .reset => True

instance (addr size : Nat) : Decidable (InPartition addr size) :=
  inferInstanceAs (Decidable (_ ∧ _))

instance : DecidablePred Confined
  | .eraseSector addr _ => inferInstanceAs (Decidable (InPartition addr 4096))
  | .write addr size _ | .restore addr size _ => inferInstanceAs (Decidable (InPartition addr size))
  | .malloc _ | .free _ | .accepted _ | .reset => inferInstanceAs (Decidable True)

/-- What the upper layer has to keep to: no pack carries the units received past the
partition, and `tkl_ota_end_notify` is called when the image is in, or where it does not
get as far as the flash. -/
def Confining (s : OtaState) : OtaCall → Prop
  | .startNotify _ _ => True
  | .dataProcess _ pack => ∀ p, s.ugProc = some p → p.stat = .recvImgData →
      p.recvDataCnt + pack.data.length / 512 * 512 ≤ otaMaxBinSize
  | .endNotify env _ => ∀ p, Seals env s p → p.stat = .finish

theorem mem_tklEraseSectors_inPartition {n a : Nat} (hn : n ≤ otaMaxBinSize)
    (h : a ∈ tklEraseSectors ugStartAddr n) : InPartition a 4096 := by
  have hmax : n ≤ 679936 := hn
  obtain ⟨hlo, hhi⟩ := mem_tklEraseSectors (by decide) (by unfold ugStartAddr; omega)
    (by unfold ugStartAddr; omega) h
  refine ⟨hlo, ?_⟩
  have : (n + 4095) / 4096 * 4096 ≤ otaMaxBinSize := by
    unfold otaMaxBinSize
    omega
  omega

/-- The counter of a confining call does not wrap. -/
theorem Confining.packLen_lt {s : OtaState} {c : OtaCall} (hinv : OtaInv s) (h : Confining s c) :
    s.recvd + c.packLen < 2 ^ 32 := by
  have hlt := hinv.recvd_lt
  cases c with
  | startNotify env n => exact hlt
  | endNotify env reset => exact hlt
  | dataProcess env pack =>
    show s.recvd + pack.data.length < 2 ^ 32
    have hpack := pack.length_lt
    by_cases himg : ∃ p, s.ugProc = some p ∧ p.stat = .recvImgData
    · obtain ⟨p, hs, hp⟩ := himg
      have hroom := h p hs hp
      unfold otaMaxBinSize at hroom
      rw [OtaState.recvd_img hs hp]
      omega
    · rw [OtaState.recvd_zero fun p hs hp => absurd ⟨p, hs, hp⟩ himg]
      omega

end TuyaSdk.TklOta
