import Mathlib.Data.Nat.Init
import Mathlib.Data.Option.Basic
import Mathlib.Tactic.Common

/-!
# The channel report event

What `wlan_11h_handle_event_chanrpt_ready` reads out of `EVENT_CHANNEL_REPORT_RDY` : the result of the request, and from the
TLVs behind it whether radar was found, and the channel where one is named. `event_buf` is cleared before the event is
copied into it, so that what lies behind the event reads as zero.
-/

namespace WlanDriver.Dfs

/-- The bytes of an event. -/
abbrev EventBuf := List UInt8

namespace EventBuf

variable (buf : EventBuf)

/-- A byte of `event_buf`. -/
def byte (i : ℕ) : ℕ :=
  (buf.getD i 0).toNat

def le16 (i : ℕ) : ℕ :=
  buf.byte i + 256 * buf.byte (i + 1)

def le32 (i : ℕ) : ℕ :=
  buf.le16 i + 65536 * buf.le16 (i + 2)

end EventBuf

def tlvTypeChanRpt11hBasic : ℕ := 0x015b

def tlvTypeChannelBandList : ℕ := 0x012a

/-- What the TLVs of a report say. -/
structure Findings where
  dfsRadarFound : Bool
  /-- The channel and `chanWidth` of the last channel TLV. -/
  named : Option (ℕ × ℕ)
  deriving DecidableEq

namespace Findings

/-- One TLV at `pos`. `radar` is bit 3 of the map, `chanWidth` are bits 2 and 3 of the band configuration. -/
def readTlv (buf : EventBuf) (pos : ℕ) (f : Findings) : Findings :=
  if buf.le16 pos = tlvTypeChanRpt11hBasic then
    if (buf.byte (pos + 4)).testBit 3 then { f with dfsRadarFound := true } else f
  else if buf.le16 pos = tlvTypeChannelBandList then
    { f with named := some (buf.byte (pos + 5), buf.byte (pos + 4) / 4 % 4) }
  else f

/-- The TLVs from `pos`, of which `evtLen` bytes are left. -/
def readTlvs (buf : EventBuf) : ℕ → ℕ → ℕ → Findings → Findings
  | 0, _, _, f => f
  | fuel + 1, pos, evtLen, f =>
    if 4 ≤ evtLen then
      readTlvs buf fuel (pos + (buf.le16 (pos + 2) + 4)) (evtLen - (buf.le16 (pos + 2) + 4)) (f.readTlv buf pos)
    else f

end Findings

/-- Offset of `tlv_buffer` in `HostCmd_DS_CHAN_RPT_RSP`. -/
def tlvBufferOffset : ℕ := 16

/-- What the handler finds : `cmd_result`, and the TLVs if it is `MLAN_CMD_RESULT_SUCCESS`. -/
structure ReportEvent where
  success : Bool
  findings : Findings
  deriving DecidableEq

/-- The reading of the event. -/
def ReportEvent.read (buf : EventBuf) : ReportEvent :=
  if buf.le32 0 = 0 then
    let evtLen := buf.length - tlvBufferOffset
    ⟨true, .readTlvs buf evtLen tlvBufferOffset evtLen ⟨false, none⟩⟩
  else ⟨false, ⟨false, none⟩⟩

/-- The channel and bandwidth that the event is about, where `chan` and `bw` were asked for. -/
def ReportEvent.group (r : ReportEvent) (chan bw : ℕ) : ℕ × ℕ :=
  r.findings.named.getD (chan, bw)

/-- A report without radar on channel 52, 80 MHz, and one without a channel that failed. -/
example :
    ReportEvent.read ([0, 0, 0, 0] ++ List.replicate 12 0 ++ [0x5b, 1, 1, 0, 0] ++ [0x2a, 1, 2, 0, 0x0d, 52]) =
        ⟨true, ⟨false, some (52, 3)⟩⟩ ∧
      ReportEvent.read ([1, 0, 0, 0] ++ List.replicate 12 0) = ⟨false, ⟨false, none⟩⟩ := by
  decide +kernel

end WlanDriver.Dfs
