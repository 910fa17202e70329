import WlanDriver.Join.AssocRecords

/-!
# The records of an association command

An association command is to be a chain of records : those of the options that apply, each once, in a fixed order. There are
two records whose length can be another one than the value has. The HE capabilities of the user are copied with the header that
came from the firmware, and the length of the copy is kept apart. The access point's RSN element is rewritten, and
`wlan_update_rsn_ie` counts PMKIDs that are not there. `associate_right_iff` : the command is right exactly if neither
happens; it always fits, as long as the lengths are right.
-/

namespace WlanDriver.Join.Assoc

open Tlv Ht Ethernet
open Option hiding map_map
open List hiding chain_cons

/-! ## What is due -/

/-- The options, in the order of their records. -/
inductive Opt
  | ssid | phyDs | cf | rates | authType | saePwe | chanList
  | wpaIe | securityCfg | apWpaIe | apRsnIe | lateAuthType | apRsnxIe
  | htCap | htChanList | bssCo2040 | extCap | operClass | vhtCap | operMode | heCap
  | wmm | wapi | osen | generic | mobility | tsf
  | hostMlme | prevBssid | multiAp | powerCapability | powerConstraint | channels
  deriving DecidableEq

namespace Opt

/-- The options in front of the access point's RSN element. -/
def first : List Opt :=
  [ssid, phyDs, cf, rates, authType, saePwe, chanList, wpaIe, securityCfg, apWpaIe]

/-- The options between the RSN element and the HE capabilities. -/
def middle : List Opt :=
  [lateAuthType, apRsnxIe, htCap, htChanList, bssCo2040, extCap, operClass, vhtCap, operMode]

/-- The options behind the HE capabilities. -/
def last : List Opt :=
  [wmm, wapi, osen, generic, mobility, tsf, hostMlme, prevBssid, multiAp, powerCapability, powerConstraint, channels]

/-- All options. -/
def all : List Opt :=
  first ++ (apRsnIe :: (middle ++ (heCap :: last)))

end Opt

/-- An element as a record. -/
def ieTlv (ie : Mem) : Tlv :=
  make (UInt16.ofNat (ie 0).toNat) (ie.read 2 (Rsn.len ie))

/-- The access point's RSN element. -/
def apRsn (ap : Mem) : RsnCopy :=
  ⟨ap, Rsn.len ap, Setting.rsnLen_le ap⟩

namespace Setting

variable (e : Setting)

/-- The supplicant's element is sent. -/
def UsesWpaIe : Prop :=
  ¬e.priv.wpsSession ∧ (e.priv.wpaEnabled ∨ e.priv.wpa2Enabled)

/-- The access point's elements are sent. -/
def UsesApIes : Prop :=
  ¬e.priv.wpsSession ∧ ¬(e.priv.wpaEnabled ∨ e.priv.wpa2Enabled) ∧
    (e.priv.ewpaEnabled ∨ e.bss.oweTransition ∨ e.priv.authMode = authModeOwe)

/-- 802.11h is joined. -/
def Joins11h : Prop :=
  ¬e.priv.mediaConnected ∧ e.bss.sensed11h ∧ (e.calls.fw11dIsEnabled ∨ e.calls.enable11d)

instance : Decidable e.UsesWpaIe :=
  inferInstanceAs (Decidable (_ ∧ _))

instance : Decidable e.UsesApIes :=
  inferInstanceAs (Decidable (_ ∧ _))

instance : Decidable e.Joins11h :=
  inferInstanceAs (Decidable (_ ∧ _))

/-- The authentication type of the access point's AKM suite that is selected. -/
def akmType : ℕ :=
  e.bss.prsnIe.elim 0 fun ap => ((apRsn ap).akm e.akmTypeBefore).elim 0 ((apRsn ap).chosen e.akmTypeBefore)

/-- The options that apply. -/
def Applies : Opt → Prop
  | .ssid | .phyDs | .cf | .rates | .tsf => True
  | .authType => e.authType.isSome
  | .saePwe => e.authType = some authWpa3Sae ∧ e.saeH2e.isSome
  | .chanList => e.TellsChannel
  | .wpaIe | .securityCfg => e.UsesWpaIe
  | .apWpaIe => e.UsesApIes ∧ e.bss.pwpaIe.isSome
  | .apRsnIe => e.UsesApIes ∧ e.bss.prsnIe.isSome
  | .lateAuthType => e.UsesApIes ∧ e.bss.prsnIe.isSome ∧ e.authType = none ∧ e.priv.authMode = authModeAuto
  | .apRsnxIe => e.UsesApIes ∧ e.bss.prsnxIe.isSome ∧ e.akmType = authWpa3Sae
  | .htCap => e.Has11n ∧ e.bss.phtCap.isSome
  | .htChanList => e.Has11n ∧ e.bss.phtCap.isSome ∧ e.bss.phtInfo.isSome
  | .bssCo2040 => e.Has11n ∧ e.bss.phtCap.isSome ∧ e.bss.pbssCo2040.isSome
  | .extCap =>
    (e.Has11n ∧ e.bss.phtCap.isSome ∧
      (e.bss.pextCap.isSome ∨ isExtCapaSupport e.priv.toPrivate ∨ e.priv.configBands.getLsbD 6)) ∨ ¬e.Has11n ∧ e.Hotspot
  | .operClass => e.tellsOperClass.isSome
  | .vhtCap | .operMode => e.Has11ac
  | .heCap => e.Has11ax ∧ e.heTlv.len ≠ 0
  | .wmm => e.priv.wmmRequired ∧ e.bss.wmmId = 221
  | .wapi => e.priv.wapiEnabled ∧ e.priv.wapiIe.length ≠ 0
  | .osen => e.priv.osenEnabled ∧ e.priv.osenIeLen ≠ 0
  | .generic => e.priv.genIe.length ≠ 0
  | .mobility => e.ftAkm ∧ e.bss.pmdIe.any fun ie => Rsn.len ie ≠ 0
  | .hostMlme => e.priv.hostMlme
  | .prevBssid => e.priv.prevBssid.octets ≠ [0, 0, 0, 0, 0, 0]
  | .multiAp => e.priv.multiApFlag ≠ 0
  | .powerCapability | .powerConstraint => e.Joins11h
  | .channels => e.Joins11h ∧ e.calls.subbands ≠ []

instance (o : Opt) : Decidable (e.Applies o) := by
  cases o <;> delta Applies <;> infer_instance

/-- The rates in common. -/
def ratesValue : List UInt8 :=
  (setupRates e.priv.fixedRate e.priv.supportedRates e.bss.supportedRates).elim [] fun r => r.outRates.take r.outRatesSize

/-- The access point's RSN element as it is to be rewritten. -/
def apRsnValue (ap : Mem) : List UInt8 :=
  ((apRsn ap).akm e.akmTypeBefore).elim [] ((apRsn ap).rewritten e.priv.pmfcfg)

/-- The record of a type that `wlan_cmd_append_11n_tlv` writes. -/
def htRecord (type : UInt16) : Tlv :=
  (ofType ((parse e.append11n.written).getD []) type).getD (make 0 [])

/-- The HE capabilities of the user, adapted to the hardware. -/
def heOctets : List UInt8 :=
  (List.range e.heTlv.len).map fun i => e.heOctet i (e.heTlv.octets.getD i 0)

/-- The record of an option. That of `TLV_TYPE_CF` has what is in the buffer. -/
def record (m : Mem) : Opt → Tlv
  | .ssid => make 0x0000 e.bss.ssid
  | .phyDs => make 0x0003 [e.bss.currentChan]
  | .cf => make 0x0004 (m.read (tlvStart + (4 + e.bss.ssid.length) + 5 + 4) 6)
  | .rates => make 0x0001 e.ratesValue
  | .authType => make 0x011f (le16 (e.authType.getD 0))
  | .saePwe => make 0x0253 [e.saeH2e.getD 0]
  | .chanList => make 0x0101 e.chanScanParam.octets
  | .wpaIe => ieTlv e.priv.wpaIe
  | .securityCfg => make 0x013a [if e.useMfp then 1 else 0]
  | .apWpaIe => e.bss.pwpaIe.elim (make 0 []) ieTlv
  | .apRsnIe => e.bss.prsnIe.elim (make 0 []) fun ap => make (UInt16.ofNat (ap 0).toNat) (e.apRsnValue ap)
  | .lateAuthType => make 0x011f (le16 e.akmType)
  | .apRsnxIe => e.bss.prsnxIe.elim (make 0 []) ieTlv
  | .htCap => e.htRecord 45
  | .htChanList => e.htRecord 0x0101
  | .bssCo2040 => e.htRecord 72
  | .extCap =>
    if e.Has11n then e.htRecord 127
    else make 127 (leOctets (addExtCapaInfo e.adapter.toAdapter e.priv.toPrivate e.bss.toBssDesc) 11)
  | .operClass => make 59 (e.tellsOperClass.getD 0 :: e.adapter.countryId.operClass)
  | .vhtCap => make 191 e.calls.vhtCap
  | .operMode => make 199 [e.calls.operMode]
  | .heCap => make (UInt16.ofNat (get16 e.heTlv.octets)) (e.heOctets.drop 4)
  | .wmm => make 221 [0x00, 0x50, 0xf2, 0x02, 0x00, 0x01, if e.bss.wmmUapsd then e.priv.wmmQosinfo else 0]
  | .wapi => make 0x015e e.priv.wapiIe
  | .osen => make 0x00dd (e.priv.osenIe.read 2 (Rsn.len e.priv.osenIe))
  | .generic => make 0x010a e.priv.genIe
  | .mobility => e.bss.pmdIe.elim (make 0 []) fun ie => make 0x010a (ie.read 0 (Rsn.size ie))
  | .tsf => make 0x0113 (leOctets e.bss.networkTsf 8 ++ e.bss.timeStamp)
  | .hostMlme => make 0x0233 [1]
  | .prevBssid => make 0x024a e.priv.prevBssid.octets
  | .multiAp => make 0x0246 [e.priv.multiApFlag]
  | .powerCapability => make 0x0021 [e.adapter.minTxPower, e.adapter.maxTxPower]
  | .powerConstraint => make 0x0020 [e.bss.currentChan, e.bss.localConstraint]
  | .channels => make 0x010a e.suppChannelsIe

/-- The options that are due. -/
def due : List Opt :=
  Opt.all.filter fun o => e.Applies o

/-- Behind the fixed part a command has the records that are due and nothing else, each option that applies is due once, and
the command fits into its buffer. -/
structure Right (m : Mem) (c : Command) : Prop where
  records : parse (c.mem.read tlvStart (c.size - tlvStart)) = some (e.due.map (e.record m))
  once : ∀ o, e.due.count o = if e.Applies o then 1 else 0
  fits : c.size ≤ sizeOfCmdBuffer

/-- The octets that options have in the command. -/
def octets (m : Mem) (os : List Opt) : List UInt8 :=
  chain ((os.filter fun o => e.Applies o).map (e.record m))

theorem octets_append (m : Mem) (os os' : List Opt) : e.octets m (os ++ os') = e.octets m os ++ e.octets m os' := by
  unfold octets
  rw [filter_append, map_append, chain_append]

/-- The writer goes on over the octets of options. -/
def Puts (m : Mem) (w w' : TlvWriter) (os : List Opt) : Prop :=
  w.Appends w' (e.octets m os)

variable {e} {m : Mem} {w w' w'' : TlvWriter} {os os' : List Opt} {o : Opt}

theorem Puts.trans (h : e.Puts m w w' os) (h' : e.Puts m w' w'' os') : e.Puts m w w'' (os ++ os') := by
  unfold Puts
  rw [octets_append]
  exact TlvWriter.Appends.trans h h'

/-- Octets with a header that has another length than the value of a record. -/
def Mislabelled (bs : List UInt8) (t : Tlv) : Prop :=
  4 ≤ bs.length ∧ get16 (bs.drop 2) ≠ t.value.length

/-- Such octets are not where the record is. -/
theorem Mislabelled.ne {bs : List UInt8} {t : Tlv} {a : ℕ} (h : Mislabelled bs t) (hbs : m.read a bs.length = bs) :
    m.read a t.octets.length ≠ t.octets := by
  intro ht
  have hlen := (Mem.get16_of_octets ht).2
  refine h.2 (Eq.trans ?_ hlen)
  have hpart := @Mem.read_part m a (a + 2) bs.length 2 (Nat.le_add_right a 2) (by have := h.1; omega)
  unfold Mem.get16
  rw [hpart, hbs, Nat.add_sub_cancel_left]
  match bs, h.1 with
  | b₀ :: b₁ :: b₂ :: b₃ :: bs, _ => rfl

/-- The room that an option's record needs. -/
def room : Opt → ℕ
  | .wpaIe | .apWpaIe | .apRsnIe | .apRsnxIe | .wapi | .osen | .generic => 260
  | .mobility => 262
  | .heCap => 54
  | _ => 36

/-- A command that is right has the octets of the options. -/
theorem Right.read {c : Command} (h : e.Right m c) :
    c.mem.read tlvStart (chain (e.due.map (e.record m))).length = chain (e.due.map (e.record m)) := by
  have hchain := parse_eq_some_iff.mp h.records
  have hlen := congrArg List.length hchain
  rw [Mem.length_read] at hlen
  rwa [← hlen]

end Setting

end WlanDriver.Join.Assoc
