import Mathlib.Algebra.BigOperators.Group.Finset.Basic
import Mathlib.Data.List.Sublists
import WlanDriver.Lib.System
import WlanDriver.Tx.Descriptor

/-!
# From the queues to the card

The main process takes frames from the bypass queue of an interface or from one of its RA lists, puts a descriptor before
each (`wlan_process_tx`) and hands it to the card; a frame that is refused with `MLAN_STATUS_RESOURCE` goes back to
the head of its queue, with its descriptor. An RA list tells such a frame by `MLAN_BUF_FLAG_REQUEUED_PKT`, and
`wlan_send_processed_packet` sends it as it is; `wlan_process_bypass_tx` sets no flag and puts a second descriptor
before it.

`one_descriptor` : along every run in which no refused bypass frame has room for another descriptor, and `ra_mac` is not
written into a frame, what is handed over is one descriptor and the frame as it was enqueued, bypass frames leave in the
order in which they were added, and `bypass_pkt_count` counts them whenever no thread is between the step of a queue and
that of the counter. `two_descriptors` is a run that refuses a bypass frame.

Other threads add bypass frames and clean the queues up, in two steps each. What happens to RA lists and held packets
under `ra_list_spinlock` (`wlan_hold_tdls_packets`, `wlan_restore_tdls_packets`, `wlan_wmm_delete_tdls_ralist`, clean-ups)
is `moveAll` : the packets of a queue that meet a condition go to the tail of others, or are completed.
-/

set_option linter.unusedSectionVars false

open Finset Function

namespace WlanDriver.Tx

open Option WlanDriver.System

/-- A queue under `ra_list_spinlock` : an RA list by its address, or `tdls_pending_txq`. -/
inductive QueueId
  | ralist (a : ℕ)
  | tdlsPending
  deriving DecidableEq

/-- What `host_to_card` returns. -/
inductive Result
  | success | pending | failure | resource | presource
  deriving DecidableEq

/-- Where the main process is with a packet. A bypass frame is taken from the queue, counted down, sent, and if it is
refused, counted up and put back; a packet of an RA list is taken, sent, and put back. -/
inductive Phase (ι : Type*)
  | idle
  | bypassTaken (i : ι) (b : MlanBuffer)
  | bypassCounted (i : ι) (b : MlanBuffer)
  | bypassRefused (i : ι) (b : MlanBuffer)
  | bypassRecounted (i : ι) (b : MlanBuffer)
  | wmmTaken (i : ι) (a : ℕ) (b : MlanBuffer)
  | wmmRefused (i : ι) (a : ℕ) (b : MlanBuffer)

/-- Where another thread is : a frame is counted and not yet queued, or unlinked and still counted. -/
inductive Worker (ι : Type*)
  | idle
  | adding (i : ι) (b : MlanBuffer)
  | cleaning

/-- What was handed to the card : a frame as it was enqueued, and the octets of its buffer. -/
structure Handed (ι : Type*) where
  iface : ι
  frame : List UInt8
  octets : List UInt8

/-- The queues of all interfaces and the threads at work on them. `handed`, `added` and `left` are history variables : what
was handed over, and the bypass frames that were queued and that the card has taken. -/
structure Path (ι θ : Type*) where
  bypassTxq : ι → List MlanBuffer
  bypassPktCount : ℕ
  queues : ι → QueueId → List MlanBuffer
  /-- `wlan_is_ralist_valid`. -/
  valid : ι → ℕ → Bool
  phase : Phase ι
  worker : θ → Worker ι
  handed : List (Handed ι)
  added : ι → List ℕ
  left : ι → List ℕ

/-- The steps. `drop` tells whether `tp_state_drop_point` is 4, `locked` whether `pps_uapsd_mode` and `tx_lock_flag` are set when
the card refuses. -/
inductive Step (ι θ : Type*)
  | startAdd (w : θ) (i : ι) (b : MlanBuffer)
  | finishAdd (w : θ)
  | startCleanup (w : θ) (i : ι)
  | finishCleanup (w : θ)
  | takeBypass (i : ι)
  | countBypass
  | sendBypass (env : TxEnv) (drop : Bool) (r : Result) (locked : Bool)
  | recountBypass
  | requeueBypass
  | addWmm (i : ι) (q : QueueId) (b : MlanBuffer)
  | createRalist (i : ι) (a : ℕ)
  | freeRalist (i : ι) (a : ℕ)
  | moveAll (i : ι) (src : QueueId) (p : MlanBuffer → Bool) (tdls : Option Bool) (dst : MlanBuffer → Option QueueId)
  | takeWmm (i : ι) (a : ℕ)
  | sendWmm (env : TxEnv) (drop : Bool) (r : Result) (locked : Bool)
  | requeueWmm

namespace Step

variable {ι θ : Type*}

/-- The first octets of the buffer are `mac`. -/
def isTo (mac : List UInt8) (b : MlanBuffer) : Bool :=
  b.mem.read b.dataOffset 6 = mac

/-- `wlan_hold_tdls_packets`, in the RA list that is the first of its TID. -/
def holdTdlsPackets (i : ι) (mac : List UInt8) (a : ℕ) : Step ι θ :=
  .moveAll i (.ralist a) (isTo mac) none fun _ => some .tdlsPending

/-- The loop of `wlan_restore_tdls_packets`. `setup` : the status is `TDLS_SETUP_COMPLETE`. -/
def restoreTdlsPackets (i : ι) (mac : List UInt8) (setup : Bool) (raList : MlanBuffer → Option ℕ) : Step ι θ :=
  .moveAll i .tdlsPending (isTo mac) (some setup) fun b => (raList b).map .ralist

end Step

namespace MlanBuffer

instance decidableBare (b : MlanBuffer) : Decidable b.Bare :=
  decidable_of_iff (b.rawLen ≤ b.dataLen ∧ b.mem.read b.frameOffset (b.dataLen - b.rawLen) = b.frame)
    ⟨fun h => ⟨h.1, h.2⟩, fun h => ⟨h.1, h.2⟩⟩

/-- A buffer as `mlan_send_packet` gets it : the frame is in it, without a descriptor. -/
def Fresh (b : MlanBuffer) : Prop :=
  b.flags.requeuedPkt = false ∧ b.described = false ∧ b.Bare
  deriving Decidable

/-- `buf_type` is `MLAN_BUF_TYPE_DATA` in the RA lists. -/
def asData (b : MlanBuffer) : MlanBuffer :=
  { b with rawData := false }

/-- `MLAN_BUF_FLAG_REQUEUED_PKT` is set. -/
def requeue (b : MlanBuffer) : MlanBuffer :=
  { b with flags := { b.flags with requeuedPkt := true } }

/-- `MLAN_BUF_FLAG_TDLS` is set or cleared, if at all. -/
def mark (tdls : Option Bool) (b : MlanBuffer) : MlanBuffer :=
  { b with flags := { b.flags with tdls := tdls.getD b.flags.tdls } }

end MlanBuffer

namespace Path

variable {ι θ : Type*} [DecidableEq ι] [DecidableEq θ] (priv : ι → Priv) (s : Path ι θ)

/-- Hand the octets of a buffer to the card. -/
def hand (i : ι) (b : MlanBuffer) : Path ι θ :=
  { s with handed := s.handed ++ [⟨i, b.frame, b.octets⟩] }

/-- What a refused packet is after `wlan_process_tx`. -/
def refused (i : ι) (locked : Bool) (b : MlanBuffer) : MlanBuffer :=
  if (priv i).isSta && locked then b.clearFlags (priv i) else b

/-- `wlan_process_tx` of a bypass frame. -/
def sendBypass (i : ι) (b : MlanBuffer) (env : TxEnv) (drop : Bool) (r : Result) (locked : Bool) : Path ι θ :=
  match b.processTxpd (priv i) env with
  | none => { s with phase := .idle }
  | some b' =>
    if drop then { s with phase := .idle }
    else if r = .resource then { s.hand i b' with phase := .bypassRefused i (refused priv i locked b') }
    else { s.hand i b' with phase := .idle, left := update s.left i (s.left i ++ [b.id]) }

/-- `wlan_send_processed_packet` for a packet that has its descriptor, and else `wlan_process_tx`. -/
def sendWmm (i : ι) (a : ℕ) (b : MlanBuffer) (env : TxEnv) (drop : Bool) (r : Result) (locked : Bool) : Path ι θ :=
  if b.flags.requeuedPkt then
    { s.hand i b with phase := if r = .resource then .wmmRefused i a b else .idle }
  else
    match b.processTxpd (priv i) env with
    | none => { s with phase := .idle }
    | some b' =>
      if drop then { s with phase := .idle }
      else { s.hand i b' with phase := if r = .resource then .wmmRefused i a (refused priv i locked b') else .idle }

/-- The packets of `src` with `p` go to the tail of other queues, one after the other; a packet without a queue to go to is
completed. -/
def moveAll (i : ι) (src : QueueId) (p : MlanBuffer → Bool) (tdls : Option Bool) (dst : MlanBuffer → Option QueueId) :
    Path ι θ :=
  let moved := (s.queues i src).filter p
  { s with
    queues := update s.queues i fun q =>
      (if q = src then (s.queues i src).filter fun b => !p b else s.queues i q) ++
        (moved.filter fun b => dst b = some q).map (MlanBuffer.mark tdls) }

/-- One step. -/
def step : Step ι θ → Option (Path ι θ)
  | .startAdd w i b =>
    match s.worker w with
    | .idle =>
      if b.Fresh then
        some { s with bypassPktCount := s.bypassPktCount + 1, worker := update s.worker w (.adding i b) }
      else none
    | _ => none
  | .finishAdd w =>
    match s.worker w with
    | .adding i b =>
      some { s with
        bypassTxq := update s.bypassTxq i (s.bypassTxq i ++ [b])
        worker := update s.worker w .idle
        added := update s.added i (s.added i ++ [b.id]) }
    | _ => none
  | .startCleanup w i =>
    match s.worker w, s.bypassTxq i with
    | .idle, _ :: rest =>
      some { s with
        bypassTxq := update s.bypassTxq i rest
        worker := update s.worker w .cleaning }
    | _, _ => none
  | .finishCleanup w =>
    match s.worker w with
    | .cleaning =>
      some { s with bypassPktCount := s.bypassPktCount - 1, worker := update s.worker w .idle }
    | _ => none
  | .takeBypass i =>
    match s.phase, s.bypassTxq i with
    | .idle, b :: rest =>
      some { s with bypassTxq := update s.bypassTxq i rest, phase := .bypassTaken i b }
    | _, _ => none
  | .countBypass =>
    match s.phase with
    | .bypassTaken i b => some { s with bypassPktCount := s.bypassPktCount - 1, phase := .bypassCounted i b }
    | _ => none
  | .sendBypass env drop r locked =>
    match s.phase with
    | .bypassCounted i b => some (s.sendBypass priv i b env drop r locked)
    | _ => none
  | .recountBypass =>
    match s.phase with
    | .bypassRefused i b => some { s with bypassPktCount := s.bypassPktCount + 1, phase := .bypassRecounted i b }
    | _ => none
  | .requeueBypass =>
    match s.phase with
    | .bypassRecounted i b =>
      some { s with bypassTxq := update s.bypassTxq i (b :: s.bypassTxq i), phase := .idle }
    | _ => none
  | .addWmm i q b =>
    if b.asData.Fresh then
      some { s with
        queues := update s.queues i (update (s.queues i) q (s.queues i q ++ [b.asData])) }
    else none
  | .createRalist i a => some { s with valid := update s.valid i (update (s.valid i) a true) }
  | .freeRalist i a =>
    if s.queues i (.ralist a) = [] then
      some { s with valid := update s.valid i (update (s.valid i) a false) }
    else none
  | .moveAll i src p tdls dst => some (s.moveAll i src p tdls dst)
  | .takeWmm i a =>
    match s.phase, s.queues i (.ralist a) with
    | .idle, b :: rest =>
      some { s with
        queues := update s.queues i (update (s.queues i) (.ralist a) rest)
        phase := .wmmTaken i a b }
    | _, _ => none
  | .sendWmm env drop r locked =>
    match s.phase with
    | .wmmTaken i a b => some (s.sendWmm priv i a b env drop r locked)
    | _ => none
  | .requeueWmm =>
    match s.phase with
    | .wmmRefused i a b =>
      if s.valid i a then
        some { s with
          queues := update s.queues i
            (update (s.queues i) (.ralist a) (b.requeue :: s.queues i (.ralist a)))
          phase := .idle }
      else some { s with phase := .idle }
    | _ => none

/-- Nothing is queued and no thread is at work. -/
def Init : Prop :=
  (∀ i, s.bypassTxq i = []) ∧ s.bypassPktCount = 0 ∧ (∀ i q, s.queues i q = []) ∧ s.phase = .idle ∧
    (∀ w, s.worker w = .idle) ∧ s.handed = [] ∧ (∀ i, s.added i = []) ∧ ∀ i, s.left i = []

end Path

/-- The transmit path over time. -/
def txPath {ι θ : Type*} [DecidableEq ι] [DecidableEq θ] (priv : ι → Priv) : System (Path ι θ) (Step ι θ) where
  init := Path.Init
  step := Path.step priv

namespace Path

section Steps

variable {ι θ : Type*} [DecidableEq ι] [DecidableEq θ] {priv : ι → Priv} {s s' : Path ι θ} {i : ι} {b b' : MlanBuffer}

/-! ## What a step comes to -/

/-- What sending a bypass frame comes to : it gets no descriptor or is dropped, or it is handed over. -/
inductive SentBypass (priv : ι → Priv) (s : Path ι θ) (i : ι) (b : MlanBuffer) (env : TxEnv) : Path ι θ → Prop
  | failed : SentBypass priv s i b env { s with phase := .idle }
  | refused {b' : MlanBuffer} {locked : Bool} (h : b.processTxpd (priv i) env = some b') :
      SentBypass priv s i b env { s.hand i b' with phase := .bypassRefused i (refused priv i locked b') }
  | taken {b' : MlanBuffer} (h : b.processTxpd (priv i) env = some b') :
      SentBypass priv s i b env
        { s.hand i b' with phase := .idle, left := update s.left i (s.left i ++ [b.id]) }

/-- What sending a packet of an RA list comes to : it is not handed over, or handed over as `c`, and either done or refused
as `d`. -/
inductive SentWmm (priv : ι → Priv) (s : Path ι θ) (i : ι) (a : ℕ) (b : MlanBuffer) (env : TxEnv) : Path ι θ → Prop
  | failed : SentWmm priv s i a b env { s with phase := .idle }
  | done {c : MlanBuffer} (hc : if b.flags.requeuedPkt then c = b else b.processTxpd (priv i) env = some c) :
      SentWmm priv s i a b env { s.hand i c with phase := .idle }
  | refused {c d : MlanBuffer} (hc : if b.flags.requeuedPkt then c = b else b.processTxpd (priv i) env = some c)
      (hd : d = c ∨ d = c.clearFlags (priv i)) :
      SentWmm priv s i a b env { s.hand i c with phase := .wmmRefused i a d }

/-- What a step comes to. -/
inductive Stepped (priv : ι → Priv) (s : Path ι θ) : Step ι θ → Path ι θ → Prop
  | startAdd {w : θ} {i : ι} {b : MlanBuffer} (hw : s.worker w = .idle) (hb : b.Fresh) :
      Stepped priv s (.startAdd w i b)
        { s with bypassPktCount := s.bypassPktCount + 1, worker := update s.worker w (.adding i b) }
  | finishAdd {w : θ} {i : ι} {b : MlanBuffer} (hw : s.worker w = .adding i b) :
      Stepped priv s (.finishAdd w)
        { s with
          bypassTxq := update s.bypassTxq i (s.bypassTxq i ++ [b])
          worker := update s.worker w .idle
          added := update s.added i (s.added i ++ [b.id]) }
  | startCleanup {w : θ} {i : ι} {b : MlanBuffer} {rest : List MlanBuffer} (hw : s.worker w = .idle)
      (hq : s.bypassTxq i = b :: rest) :
      Stepped priv s (.startCleanup w i)
        { s with
          bypassTxq := update s.bypassTxq i rest
          worker := update s.worker w .cleaning }
  | finishCleanup {w : θ} (hw : s.worker w = .cleaning) :
      Stepped priv s (.finishCleanup w)
        { s with bypassPktCount := s.bypassPktCount - 1, worker := update s.worker w .idle }
  | takeBypass {i : ι} {b : MlanBuffer} {rest : List MlanBuffer} (hp : s.phase = .idle)
      (hq : s.bypassTxq i = b :: rest) :
      Stepped priv s (.takeBypass i)
        { s with bypassTxq := update s.bypassTxq i rest, phase := .bypassTaken i b }
  | countBypass {i : ι} {b : MlanBuffer} (hp : s.phase = .bypassTaken i b) :
      Stepped priv s .countBypass { s with bypassPktCount := s.bypassPktCount - 1, phase := .bypassCounted i b }
  | sendBypass {i : ι} {b : MlanBuffer} {env : TxEnv} {drop : Bool} {r : Result} {locked : Bool} {s' : Path ι θ}
      (hp : s.phase = .bypassCounted i b) (hs : SentBypass priv s i b env s') :
      Stepped priv s (.sendBypass env drop r locked) s'
  | recountBypass {i : ι} {b : MlanBuffer} (hp : s.phase = .bypassRefused i b) :
      Stepped priv s .recountBypass { s with bypassPktCount := s.bypassPktCount + 1, phase := .bypassRecounted i b }
  | requeueBypass {i : ι} {b : MlanBuffer} (hp : s.phase = .bypassRecounted i b) :
      Stepped priv s .requeueBypass
        { s with bypassTxq := update s.bypassTxq i (b :: s.bypassTxq i), phase := .idle }
  | addWmm {i : ι} {q : QueueId} {b : MlanBuffer} (hb : b.asData.Fresh) :
      Stepped priv s (.addWmm i q b)
        { s with queues := update s.queues i (update (s.queues i) q (s.queues i q ++ [b.asData])) }
  | valid {o : Step ι θ} (v : ι → ℕ → Bool) : Stepped priv s o { s with valid := v }
  | moveAll {i : ι} {src : QueueId} {p : MlanBuffer → Bool} {tdls : Option Bool} {dst : MlanBuffer → Option QueueId} :
      Stepped priv s (.moveAll i src p tdls dst) (s.moveAll i src p tdls dst)
  | takeWmm {i : ι} {a : ℕ} {b : MlanBuffer} {rest : List MlanBuffer} (hp : s.phase = .idle)
      (hq : s.queues i (.ralist a) = b :: rest) :
      Stepped priv s (.takeWmm i a)
        { s with
          queues := update s.queues i (update (s.queues i) (.ralist a) rest)
          phase := .wmmTaken i a b }
  | sendWmm {i : ι} {a : ℕ} {b : MlanBuffer} {env : TxEnv} {drop : Bool} {r : Result} {locked : Bool} {s' : Path ι θ}
      (hp : s.phase = .wmmTaken i a b) (hs : SentWmm priv s i a b env s') :
      Stepped priv s (.sendWmm env drop r locked) s'
  | requeueWmm {i : ι} {a : ℕ} {b : MlanBuffer} (hp : s.phase = .wmmRefused i a b) :
      Stepped priv s .requeueWmm
        { s with
          queues := update s.queues i
            (update (s.queues i) (.ralist a) (b.requeue :: s.queues i (.ralist a)))
          phase := .idle }
  | dropWmm {i : ι} {a : ℕ} {b : MlanBuffer} (hp : s.phase = .wmmRefused i a b) :
      Stepped priv s .requeueWmm { s with phase := .idle }

theorem sentBypass (priv : ι → Priv) (s : Path ι θ) (i : ι) (b : MlanBuffer) (env : TxEnv) (drop : Bool) (r : Result)
    (locked : Bool) : SentBypass priv s i b env (s.sendBypass priv i b env drop r locked) := by
  unfold Path.sendBypass
  split
  · exact .failed
  · next b' h =>
    split
    · exact .failed
    split
    · exact .refused h
    · exact .taken h

theorem refused_cases (priv : ι → Priv) (i : ι) (locked : Bool) (b : MlanBuffer) :
    refused priv i locked b = b ∨ refused priv i locked b = b.clearFlags (priv i) := by
  unfold refused
  split
  · exact .inr rfl
  · exact .inl rfl

theorem sentWmm (priv : ι → Priv) (s : Path ι θ) (i : ι) (a : ℕ) (b : MlanBuffer) (env : TxEnv) (drop : Bool) (r : Result)
    (locked : Bool) : SentWmm priv s i a b env (s.sendWmm priv i a b env drop r locked) := by
  unfold Path.sendWmm
  split
  · next hreq =>
    split
    · exact .refused (if_pos hreq ▸ rfl) (.inl rfl)
    · exact .done (if_pos hreq ▸ rfl)
  · next hreq =>
    split
    · exact .failed
    · next c h =>
      split
      · exact .failed
      have hc : if b.flags.requeuedPkt then c = b else b.processTxpd (priv i) env = some c := by
        rwa [if_neg hreq]
      split
      · exact .refused hc (refused_cases priv i locked c)
      · exact .done hc

/-- There is nothing else. -/
theorem stepped_of_step {o : Step ι θ} (h : (txPath priv).step s o = some s') : Stepped priv s o s' := by
  change Path.step priv s o = some s' at h
  cases o <;> unfold Path.step at h <;> dsimp only at h
  case startAdd w i b =>
    split at h
    · next hw =>
      obtain ⟨hb, rfl⟩ := of_guard h
      exact .startAdd hw hb
    · exact absurd h.symm (some_ne_none _)
  case finishAdd w =>
    split at h
    · next i b hw =>
      obtain rfl := some.inj h
      exact .finishAdd hw
    · exact absurd h.symm (some_ne_none _)
  case startCleanup w i =>
    split at h
    · next b rest hw hq =>
      obtain rfl := some.inj h
      exact .startCleanup hw hq
    · exact absurd h.symm (some_ne_none _)
  case finishCleanup w =>
    split at h
    · next hw =>
      obtain rfl := some.inj h
      exact .finishCleanup hw
    · exact absurd h.symm (some_ne_none _)
  case takeBypass i =>
    split at h
    · next b rest hp hq =>
      obtain rfl := some.inj h
      exact .takeBypass hp hq
    · exact absurd h.symm (some_ne_none _)
  case countBypass =>
    split at h
    · next i b hp =>
      obtain rfl := some.inj h
      exact .countBypass hp
    · exact absurd h.symm (some_ne_none _)
  case sendBypass env drop r locked =>
    split at h
    · next i b hp =>
      obtain rfl := some.inj h
      exact .sendBypass hp (sentBypass priv s i b env drop r locked)
    · exact absurd h.symm (some_ne_none _)
  case recountBypass =>
    split at h
    · next i b hp =>
      obtain rfl := some.inj h
      exact .recountBypass hp
    · exact absurd h.symm (some_ne_none _)
  case requeueBypass =>
    split at h
    · next i b hp =>
      obtain rfl := some.inj h
      exact .requeueBypass hp
    · exact absurd h.symm (some_ne_none _)
  case addWmm i q b =>
    obtain ⟨hb, rfl⟩ := of_guard h
    exact .addWmm hb
  case createRalist i a =>
    obtain rfl := some.inj h
    exact .valid _
  case freeRalist i a =>
    obtain ⟨-, rfl⟩ := of_guard h
    exact .valid _
  case moveAll i src p tdls dst =>
    obtain rfl := some.inj h
    exact .moveAll
  case takeWmm i a =>
    split at h
    · next b rest hp hq =>
      obtain rfl := some.inj h
      exact .takeWmm hp hq
    · exact absurd h.symm (some_ne_none _)
  case sendWmm env drop r locked =>
    split at h
    · next i a b hp =>
      obtain rfl := some.inj h
      exact .sendWmm hp (sentWmm priv s i a b env drop r locked)
    · exact absurd h.symm (some_ne_none _)
  case requeueWmm =>
    split at h
    · next i a b hp =>
      split at h
      · obtain rfl := some.inj h
        exact .requeueWmm hp
      · obtain rfl := some.inj h
        exact .dropWmm hp
    · exact absurd h.symm (some_ne_none _)

/-- What a descriptor leaves of a buffer. -/
theorem processTxpd_kept {p : Priv} {env : TxEnv} (h : b.processTxpd p env = some b') :
    b'.id = b.id ∧ b'.frame = b.frame ∧ b'.described = true := by
  unfold MlanBuffer.processTxpd at h
  split_ifs at h
  obtain rfl := some.inj h
  exact ⟨rfl, rfl, rfl⟩

theorem refused_id (priv : ι → Priv) (i : ι) (locked : Bool) (b : MlanBuffer) : (refused priv i locked b).id = b.id := by
  unfold refused
  split <;> rfl

end Steps

end Path

/-! ## The counter -/

namespace Worker

/-- How far the counter is ahead of the queues because of a thread. -/
def ahead {ι : Type*} : Worker ι → ℕ
  | .idle => 0
  | .adding _ _ => 1
  | .cleaning => 1

end Worker

namespace Phase

variable {ι : Type*}

/-- How far the counter is ahead of the queues because of the main process. -/
def ahead : Phase ι → ℕ
  | .bypassTaken _ _ => 1
  | .bypassRecounted _ _ => 1
  | _ => 0

/-- The frame of a bypass queue that the main process has in hand. -/
def inHand [DecidableEq ι] (i : ι) : Phase ι → List ℕ
  | .bypassTaken j b => if j = i then [b.id] else []
  | .bypassCounted j b => if j = i then [b.id] else []
  | .bypassRefused j b => if j = i then [b.id] else []
  | .bypassRecounted j b => if j = i then [b.id] else []
  | _ => []

end Phase

namespace Path

section Counter

variable {ι θ : Type*} [DecidableEq ι] [DecidableEq θ] {priv : ι → Priv} {s s' : Path ι θ}

/-- No thread is between the step of a queue and that of the counter. -/
def Quiet (s : Path ι θ) : Prop :=
  s.phase.ahead = 0 ∧ ∀ w, (s.worker w).ahead = 0

instance decidableQuiet [Fintype θ] (s : Path ι θ) : Decidable s.Quiet :=
  inferInstanceAs (Decidable (_ ∧ _))

variable [Fintype ι] [Fintype θ]

/-- The counter is the length of the queues, and what threads at work add to it. -/
def Counted (s : Path ι θ) : Prop :=
  s.bypassPktCount = poolSum List.length s.bypassTxq + poolSum Worker.ahead s.worker + s.phase.ahead

theorem Counted.step {o : Step ι θ} (hs : s.Counted) (h : Stepped priv s o s') : s'.Counted := by
  unfold Counted at hs ⊢
  cases h with
  | @startAdd w i b hw _ =>
    have hpool := poolSum_update Worker.ahead s.worker w (.adding i b)
    simp only [hw, Worker.ahead] at hpool ⊢
    omega
  | @finishAdd w i b hw =>
    have hpool := poolSum_update Worker.ahead s.worker w .idle
    have hqueue := poolSum_update List.length s.bypassTxq i (s.bypassTxq i ++ [b])
    simp only [hw, Worker.ahead, List.length_append, List.length_singleton] at hpool hqueue ⊢
    omega
  | @startCleanup w i b rest hw hq =>
    have hpool := poolSum_update Worker.ahead s.worker w .cleaning
    have hqueue := poolSum_update List.length s.bypassTxq i rest
    simp only [hw, hq, Worker.ahead, List.length_cons] at hpool hqueue ⊢
    omega
  | @finishCleanup w hw =>
    have hpool := poolSum_update Worker.ahead s.worker w .idle
    simp only [hw, Worker.ahead] at hpool ⊢
    omega
  | @takeBypass i b rest hp hq =>
    have hqueue := poolSum_update List.length s.bypassTxq i rest
    simp only [hp, hq, Phase.ahead, List.length_cons] at hs hqueue ⊢
    omega
  | countBypass hp =>
    simp only [hp, Phase.ahead] at hs ⊢
    omega
  | sendBypass hp hsent =>
    rw [hp] at hs
    cases hsent <;> exact hs
  | recountBypass hp =>
    simp only [hp, Phase.ahead] at hs ⊢
    omega
  | @requeueBypass i b hp =>
    have hqueue := poolSum_update List.length s.bypassTxq i (b :: s.bypassTxq i)
    simp only [hp, Phase.ahead, List.length_cons] at hs hqueue ⊢
    omega
  | addWmm _ => exact hs
  | valid _ => exact hs
  | moveAll => exact hs
  | takeWmm hp _ =>
    rw [hp] at hs
    exact hs
  | sendWmm hp hsent =>
    rw [hp] at hs
    cases hsent <;> exact hs
  | requeueWmm hp =>
    rw [hp] at hs
    exact hs
  | dropWmm hp =>
    rw [hp] at hs
    exact hs

theorem Counted.of_init (h : s.Init) : s.Counted := by
  obtain ⟨hq, hcount, -, hphase, hworker, -⟩ := h
  have hlen : poolSum List.length s.bypassTxq = 0 := poolSum_eq_zero.mpr fun i => by rw [hq i, List.length_nil]
  have hahead : poolSum Worker.ahead s.worker = 0 := poolSum_eq_zero.mpr fun w => by rw [hworker w, Worker.ahead]
  have hphase' : s.phase.ahead = 0 := by rw [hphase]; rfl
  unfold Counted
  rw [hcount, hlen, hahead, hphase']

theorem Counted.of_quiet (hs : s.Counted) (h : s.Quiet) : s.bypassPktCount = ∑ i, (s.bypassTxq i).length := by
  have hahead : poolSum Worker.ahead s.worker = 0 := poolSum_eq_zero.mpr h.2
  unfold Counted at hs
  rw [h.1, hahead] at hs
  exact hs

end Counter

/-! ## The order of bypass frames -/

section Order

variable {ι θ : Type*} [DecidableEq ι] [DecidableEq θ] {priv : ι → Priv} {s s' : Path ι θ}

/-- The bypass frames of an interface : those that left, the one in hand, and those that wait. -/
def line (s : Path ι θ) (i : ι) : List ℕ :=
  s.left i ++ (s.phase.inHand i ++ (s.bypassTxq i).map MlanBuffer.id)

/-- They are in the order in which they were added. -/
def Ordered (s : Path ι θ) : Prop :=
  ∀ i, (s.line i).Sublist (s.added i)

/-- A step that only drops frames keeps the order. -/
theorem Ordered.of_sublist (hs : s.Ordered) (hline : ∀ i, (s'.line i).Sublist (s.line i)) (hadded : s'.added = s.added) :
    s'.Ordered := by
  intro i
  rw [hadded]
  exact (hline i).trans (hs i)

theorem line_finishAdd {w : θ} {j : ι} {b : MlanBuffer} {i : ι} :
    ({ s with
        bypassTxq := update s.bypassTxq j (s.bypassTxq j ++ [b])
        worker := update s.worker w .idle
        added := update s.added j (s.added j ++ [b.id]) } : Path ι θ).line i =
      s.line i ++ if i = j then [b.id] else [] := by
  unfold line
  by_cases hij : i = j
  · subst hij
    simp
  · simp [hij]

/-- What the main process does with a frame in hand. -/
theorem line_sent {env : TxEnv} {j : ι} {b : MlanBuffer} (hp : s.phase = .bypassCounted j b)
    (h : SentBypass priv s j b env s') (i : ι) : (s'.line i).Sublist (s.line i) ∧ s'.added = s.added := by
  have hline : s.line i = s.left i ++ ((if j = i then [b.id] else []) ++ (s.bypassTxq i).map MlanBuffer.id) := by
    rw [line, hp, Phase.inHand]
  cases h with
  | failed =>
    refine ⟨?_, rfl⟩
    rw [hline]
    exact (List.sublist_append_right _ _).append_left _
  | refused h =>
    refine ⟨?_, rfl⟩
    rw [hline]
    change (s.left i ++ ((if j = i then [(refused priv j _ _).id] else []) ++ _)).Sublist _
    rw [refused_id, (processTxpd_kept h).1]
    exact List.Sublist.refl _
  | taken _ =>
    refine ⟨?_, rfl⟩
    rw [hline]
    change (update s.left j (s.left j ++ [b.id]) i ++ ([] ++ (s.bypassTxq i).map MlanBuffer.id)).Sublist _
    by_cases hij : i = j
    · subst hij
      simp
    · rw [update_of_ne hij, if_neg fun h => hij h.symm]

theorem Ordered.step {o : Step ι θ} (hs : s.Ordered) (h : Stepped priv s o s') : s'.Ordered := by
  cases h with
  | @finishAdd w j b _ =>
    intro i
    rw [line_finishAdd]
    change (s.line i ++ _).Sublist (update s.added j (s.added j ++ [b.id]) i)
    by_cases hij : i = j
    · subst hij
      rw [update_self, if_pos rfl]
      exact (hs i).append (List.Sublist.refl _)
    · rw [update_of_ne hij, if_neg hij, List.append_nil]
      exact hs i
  | @startCleanup w j b rest _ hq =>
    refine hs.of_sublist (fun i => ?_) rfl
    refine ((List.Sublist.map _ ?_).append_left _).append_left _
    change (update s.bypassTxq j rest i).Sublist (s.bypassTxq i)
    by_cases hij : i = j
    · subst hij
      rw [update_self, hq]
      exact List.sublist_cons_self _ _
    · rw [update_of_ne hij]
  | @takeBypass j b rest hp hq =>
    refine hs.of_sublist (fun i => ?_) rfl
    rw [line, line, hp]
    change (s.left i ++ ((if j = i then [b.id] else []) ++
      (update s.bypassTxq j rest i).map MlanBuffer.id)).Sublist
      (s.left i ++ ([] ++ (s.bypassTxq i).map MlanBuffer.id))
    by_cases hij : i = j
    · subst hij
      rw [update_self, hq, if_pos rfl]
      exact List.Sublist.refl _
    · rw [update_of_ne hij, if_neg fun h => hij h.symm]
  | countBypass hp =>
    refine hs.of_sublist (fun i => ?_) rfl
    rw [line, line, hp]
    exact List.Sublist.refl _
  | sendBypass hp hsent => exact hs.of_sublist (fun i => (line_sent hp hsent i).1) (by cases hsent <;> rfl)
  | recountBypass hp =>
    refine hs.of_sublist (fun i => ?_) rfl
    rw [line, line, hp]
    exact List.Sublist.refl _
  | @requeueBypass j b hp =>
    refine hs.of_sublist (fun i => ?_) rfl
    rw [line, line, hp]
    change (s.left i ++ ([] ++ (update s.bypassTxq j (b :: s.bypassTxq j) i).map MlanBuffer.id)).Sublist
      (s.left i ++ ((if j = i then [b.id] else []) ++ (s.bypassTxq i).map MlanBuffer.id))
    by_cases hij : i = j
    · subst hij
      rw [update_self, if_pos rfl]
      exact List.Sublist.refl _
    · rw [update_of_ne hij, if_neg fun h => hij h.symm]
  | startAdd _ _ => exact hs
  | finishCleanup _ => exact hs
  | addWmm _ => exact hs
  | valid _ => exact hs
  | moveAll => exact hs
  | takeWmm hp _ =>
    refine hs.of_sublist (fun i => ?_) rfl
    rw [line, line, hp]
    exact List.Sublist.refl _
  | sendWmm hp hsent =>
    refine hs.of_sublist (fun i => ?_) (by cases hsent <;> rfl)
    rw [line, line, hp]
    cases hsent <;> exact List.Sublist.refl _
  | requeueWmm hp =>
    refine hs.of_sublist (fun i => ?_) rfl
    rw [line, line, hp]
    exact List.Sublist.refl _
  | dropWmm hp =>
    refine hs.of_sublist (fun i => ?_) rfl
    rw [line, line, hp]
    exact List.Sublist.refl _

theorem Ordered.of_init (h : s.Init) : s.Ordered := by
  obtain ⟨hq, -, -, hphase, -, -, -, hleft⟩ := h
  intro i
  rw [line, hleft i, hphase, hq i]
  exact List.nil_sublist _

theorem Ordered.left (hs : s.Ordered) (i : ι) : (s.left i).Sublist (s.added i) :=
  (List.sublist_append_left _ _).trans (hs i)

end Order

end Path

/-! ## One descriptor -/

namespace MlanBuffer

variable {p : Priv} {env : TxEnv} {b b' : MlanBuffer}

/-- A buffer has the frame alone, or behind one descriptor that was put before it. -/
structure Fits (p : Priv) (b : MlanBuffer) : Prop where
  bare : b.described = false → b.Bare
  one : b.described = true → CarriesOne p b.frame b.octets

/-- `MLAN_BUF_FLAG_REQUEUED_PKT` tells whether it has a descriptor. -/
structure Told (p : Priv) (b : MlanBuffer) : Prop extends Fits p b where
  told : b.flags.requeuedPkt = b.described

theorem Fresh.fits (hb : b.Fresh) : b.Fits p := by
  obtain ⟨-, hdescribed, hbare⟩ := hb
  exact ⟨fun _ => hbare, fun h => absurd (hdescribed.symm.trans h) Bool.false_ne_true⟩

/-- A descriptor before a frame alone. -/
theorem Fits.processTxpd (hb : b.Fits p) (hbare : b.described = false) (hmesh : b.MeshRoom p)
    (h : b.processTxpd p env = some b') : b'.Fits p ∧ b'.described = true := by
  obtain ⟨-, hframe, hdescribed⟩ := Path.processTxpd_kept h
  have hone := carriesOne_processTxpd h (hb.bare hbare) hmesh
  rw [← hframe] at hone
  refine ⟨⟨fun hd => ?_, fun _ => hone⟩, hdescribed⟩
  exact absurd (hd.symm.trans hdescribed) Bool.false_ne_true

theorem Fits.clearFlags (hb : b.Fits p) (hd : b.described = true) : (b.clearFlags p).Fits p := by
  refine ⟨fun h => ?_, fun _ => carriesOne_clearFlags (hb.one hd)⟩
  exact absurd (h.symm.trans hd) Bool.false_ne_true

/-- A refused packet is told by its flag from now on. -/
theorem Fits.requeue (hb : b.Fits p) (hd : b.described = true) : b.requeue.Told p where
  bare h := absurd (h.symm.trans hd) Bool.false_ne_true
  one := hb.one
  told := hd.symm

theorem Told.mark (hb : b.Told p) (tdls : Option Bool) : (b.mark tdls).Told p where
  bare h := ⟨(hb.bare h).raw, (hb.bare h).frame⟩
  one := hb.one
  told := hb.told

end MlanBuffer

/-- What the main process has in hand. -/
def Phase.Fits {ι : Type*} (priv : ι → Priv) : Phase ι → Prop
  | .idle => True
  | .bypassTaken i b => b.Fits (priv i)
  | .bypassCounted i b => b.Fits (priv i)
  | .bypassRefused i b => b.Fits (priv i) ∧ b.described = true
  | .bypassRecounted i b => b.Fits (priv i) ∧ b.described = true
  | .wmmTaken i _ b => b.Told (priv i)
  | .wmmRefused i _ b => b.Fits (priv i) ∧ b.described = true

def Worker.Fits {ι : Type*} (priv : ι → Priv) : Worker ι → Prop
  | .adding i b => b.Fits (priv i)
  | _ => True

namespace Path

section Once

variable {ι θ : Type*} [DecidableEq ι] [DecidableEq θ] {priv : ι → Priv} {s s' : Path ι θ} {i : ι} {b : MlanBuffer}
  {env : TxEnv}

/-- A descriptor is made for a frame that has none, and `ra_mac` does not reach into the frame. -/
def DescribesOnce (p : Priv) (env : TxEnv) (b : MlanBuffer) : Prop :=
  (b.processTxpd p env).isSome = true → b.described = false ∧ b.MeshRoom p
  deriving Decidable

/-- What the steps meet : a bypass frame that was refused has no room for another descriptor when its turn comes again, and
`ra_mac` is not written into a frame. -/
def SendsOnce (priv : ι → Priv) (s : Path ι θ) : Step ι θ → Prop
  | .sendBypass env _ _ _ =>
    match s.phase with
    | .bypassCounted i b => DescribesOnce (priv i) env b
    | _ => True
  | .sendWmm env _ _ _ =>
    match s.phase with
    | .wmmTaken i _ b => b.flags.requeuedPkt = true ∨ (b.processTxpd (priv i) env).isNone = true ∨ b.MeshRoom (priv i)
    | _ => True
  | _ => True

instance decidableSendsOnce (priv : ι → Priv) (s : Path ι θ) (o : Step ι θ) : Decidable (SendsOnce priv s o) := by
  unfold SendsOnce
  split
  · split <;> infer_instance
  · split <;> infer_instance
  · infer_instance

/-- Every buffer fits, and what was handed over is one descriptor and the frame. -/
structure Fitting (priv : ι → Priv) (s : Path ι θ) : Prop where
  bypassTxq : ∀ i, ∀ b ∈ s.bypassTxq i, b.Fits (priv i)
  queues : ∀ i q, ∀ b ∈ s.queues i q, b.Told (priv i)
  phase : s.phase.Fits priv
  worker : ∀ w, (s.worker w).Fits priv
  handed : ∀ x ∈ s.handed, CarriesOne (priv x.iface) x.frame x.octets

theorem fits_update {Q : ι → MlanBuffer → Prop} {f : ι → List MlanBuffer} {l : List MlanBuffer}
    (hf : ∀ i, ∀ b ∈ f i, Q i b) (hl : ∀ b ∈ l, Q i b) : ∀ j, ∀ b ∈ update f i l j, Q j b := by
  intro j
  by_cases hij : j = i
  · subst hij
    rwa [update_self]
  · rw [update_of_ne hij]
    exact hf j

theorem told_update {f : ι → QueueId → List MlanBuffer} {q : QueueId} {l : List MlanBuffer}
    (hf : ∀ i q, ∀ b ∈ f i q, b.Told (priv i)) (hl : ∀ b ∈ l, b.Told (priv i)) :
    ∀ j r, ∀ b ∈ update f i (update (f i) q l) j r, b.Told (priv j) := by
  intro j
  by_cases hij : j = i
  · subst hij
    rw [update_self]
    intro r
    by_cases hr : r = q
    · subst hr
      rwa [update_self]
    · rw [update_of_ne hr]
      exact hf j r
  · rw [update_of_ne hij]
    exact hf j

theorem worker_update {f : θ → Worker ι} {w : θ} {x : Worker ι} (hf : ∀ w, (f w).Fits priv) (hx : x.Fits priv) :
    ∀ v, (update f w x v).Fits priv := by
  intro v
  by_cases hv : v = w
  · subst hv
    rwa [update_self]
  · rw [update_of_ne hv]
    exact hf v

theorem handed_hand (hs : ∀ x ∈ s.handed, CarriesOne (priv x.iface) x.frame x.octets) (hb : b.Fits (priv i))
    (hd : b.described = true) : ∀ x ∈ (s.hand i b).handed, CarriesOne (priv x.iface) x.frame x.octets := by
  intro x hx
  rcases List.mem_append.mp hx with hx | hx
  · exact hs x hx
  · rw [List.mem_singleton] at hx
    subst hx
    exact hb.one hd

/-- What a refused packet is has a descriptor. -/
theorem refused_fits {c d : MlanBuffer} (hc : c.Fits (priv i)) (hd : c.described = true)
    (h : d = c ∨ d = c.clearFlags (priv i)) : d.Fits (priv i) ∧ d.described = true := by
  rcases h with rfl | rfl
  · exact ⟨hc, hd⟩
  · exact ⟨hc.clearFlags hd, hd⟩

theorem Fitting.sentBypass (hs : s.Fitting priv) (hb : b.Fits (priv i)) (hcond : DescribesOnce (priv i) env b)
    (h : SentBypass priv s i b env s') : s'.Fitting priv := by
  cases h with
  | failed => exact { hs with phase := trivial }
  | @refused b' locked h =>
    obtain ⟨hbare, hmesh⟩ := hcond (isSome_of_mem h)
    obtain ⟨hb', hd⟩ := hb.processTxpd hbare hmesh h
    exact { hs with
      phase := refused_fits hb' hd (refused_cases priv i locked b')
      handed := handed_hand hs.handed hb' hd }
  | @taken b' h =>
    obtain ⟨hbare, hmesh⟩ := hcond (isSome_of_mem h)
    obtain ⟨hb', hd⟩ := hb.processTxpd hbare hmesh h
    exact { hs with
      phase := trivial
      handed := handed_hand hs.handed hb' hd }

/-- What an RA list hands over. -/
theorem sent_fits {c : MlanBuffer} (hb : b.Told (priv i))
    (hcond : b.flags.requeuedPkt = true ∨ (b.processTxpd (priv i) env).isNone = true ∨ b.MeshRoom (priv i))
    (hc : if b.flags.requeuedPkt then c = b else b.processTxpd (priv i) env = some c) :
    c.Fits (priv i) ∧ c.described = true := by
  split at hc
  · next hreq =>
    subst hc
    exact ⟨hb.toFits, hb.told.symm.trans hreq⟩
  · next hreq =>
    have hbare := hb.told.symm.trans (Bool.eq_false_iff.mpr hreq)
    rcases hcond with h | h | hmesh
    · exact absurd h hreq
    · rw [hc] at h
      exact absurd h Bool.false_ne_true
    · exact hb.toFits.processTxpd hbare hmesh hc

theorem Fitting.sentWmm {a : ℕ} (hs : s.Fitting priv) (hb : b.Told (priv i))
    (hcond : b.flags.requeuedPkt = true ∨ (b.processTxpd (priv i) env).isNone = true ∨ b.MeshRoom (priv i))
    (h : SentWmm priv s i a b env s') : s'.Fitting priv := by
  cases h with
  | failed => exact { hs with phase := trivial }
  | done hc =>
    obtain ⟨hfits, hd⟩ := sent_fits hb hcond hc
    exact { hs with
      phase := trivial
      handed := handed_hand hs.handed hfits hd }
  | refused hc hdc =>
    obtain ⟨hfits, hd⟩ := sent_fits hb hcond hc
    exact { hs with
      phase := refused_fits hfits hd hdc
      handed := handed_hand hs.handed hfits hd }

theorem told_moveAll {src : QueueId} {p : MlanBuffer → Bool} {tdls : Option Bool} {dst : MlanBuffer → Option QueueId}
    (hs : ∀ i q, ∀ b ∈ s.queues i q, b.Told (priv i)) :
    ∀ j q, ∀ b ∈ (s.moveAll i src p tdls dst).queues j q, b.Told (priv j) := by
  intro j q b hb
  change b ∈ update s.queues i _ j q at hb
  by_cases hij : j = i
  · subst hij
    rw [update_self] at hb
    rcases List.mem_append.mp hb with hb | hb
    · split at hb
      · exact hs j src b (List.mem_of_mem_filter hb)
      · exact hs j q b hb
    · obtain ⟨c, hc, rfl⟩ := List.mem_map.mp hb
      exact (hs j src c (List.mem_of_mem_filter (List.mem_of_mem_filter hc))).mark tdls
  · rw [update_of_ne hij] at hb
    exact hs j q b hb

theorem Fitting.step {o : Step ι θ} (hs : s.Fitting priv) (hcond : SendsOnce priv s o) (h : Stepped priv s o s') :
    s'.Fitting priv := by
  have hphase := hs.phase
  cases h with
  | startAdd _ hb => exact { hs with worker := worker_update hs.worker hb.fits }
  | @finishAdd w i b hw =>
    have hb := hs.worker w
    rw [hw] at hb
    have htail : ∀ c ∈ s.bypassTxq i ++ [b], c.Fits (priv i) := by
      intro c hc
      rcases List.mem_append.mp hc with hc | hc
      · exact hs.bypassTxq i c hc
      · rw [List.mem_singleton] at hc
        exact hc ▸ hb
    exact { hs with
      bypassTxq := fits_update hs.bypassTxq htail
      worker := worker_update hs.worker trivial }
  | @startCleanup w i b rest _ hq =>
    have hrest := (List.forall_mem_cons.mp (hq ▸ hs.bypassTxq i)).2
    exact { hs with
      bypassTxq := fits_update hs.bypassTxq hrest
      worker := worker_update hs.worker trivial }
  | finishCleanup _ => exact { hs with worker := worker_update hs.worker trivial }
  | @takeBypass i b rest _ hq =>
    have hqueue := List.forall_mem_cons.mp (hq ▸ hs.bypassTxq i)
    exact { hs with
      bypassTxq := fits_update hs.bypassTxq hqueue.2
      phase := hqueue.1 }
  | countBypass hp =>
    rw [hp] at hphase
    exact { hs with phase := hphase }
  | sendBypass hp hsent =>
    rw [hp] at hphase
    unfold SendsOnce at hcond
    rw [hp] at hcond
    exact hs.sentBypass hphase hcond hsent
  | recountBypass hp =>
    rw [hp] at hphase
    exact { hs with phase := hphase }
  | requeueBypass hp =>
    rw [hp] at hphase
    exact { hs with
      bypassTxq := fits_update hs.bypassTxq (List.forall_mem_cons.mpr ⟨hphase.1, hs.bypassTxq _⟩)
      phase := trivial }
  | @addWmm i q b hb =>
    have htail : ∀ c ∈ s.queues i q ++ [b.asData], c.Told (priv i) := by
      intro c hc
      rcases List.mem_append.mp hc with hc | hc
      · exact hs.queues i q c hc
      · rw [List.mem_singleton] at hc
        subst hc
        exact { hb.fits with told := hb.1.trans hb.2.1.symm }
    exact { hs with queues := told_update hs.queues htail }
  | valid _ => exact { hs with }
  | moveAll => exact { hs with queues := told_moveAll hs.queues }
  | @takeWmm i a b rest _ hq =>
    have hqueue := List.forall_mem_cons.mp (hq ▸ hs.queues i (.ralist a))
    exact { hs with
      queues := told_update hs.queues hqueue.2
      phase := hqueue.1 }
  | sendWmm hp hsent =>
    rw [hp] at hphase
    unfold SendsOnce at hcond
    rw [hp] at hcond
    exact hs.sentWmm hphase hcond hsent
  | requeueWmm hp =>
    rw [hp] at hphase
    have hb := MlanBuffer.Fits.requeue hphase.1 hphase.2
    exact { hs with
      queues := told_update hs.queues (List.forall_mem_cons.mpr ⟨hb, hs.queues _ _⟩)
      phase := trivial }
  | dropWmm _ => exact { hs with phase := trivial }

theorem Fitting.of_init (h : s.Init) : s.Fitting priv := by
  obtain ⟨hbypass, -, hqueues, hphase, hworker, hhanded, -⟩ := h
  constructor
  · intro i b hb
    rw [hbypass i] at hb
    exact absurd hb List.not_mem_nil
  · intro i q b hb
    rw [hqueues i q] at hb
    exact absurd hb List.not_mem_nil
  · rw [hphase]
    exact trivial
  · intro w
    rw [hworker w]
    exact trivial
  · intro x hx
    rw [hhanded] at hx
    exact absurd hx List.not_mem_nil

end Once

/-! ## Runs -/

section Runs

variable {ι θ : Type*} [DecidableEq ι] [DecidableEq θ] [Fintype ι] [Fintype θ] {priv : ι → Priv} {s : Path ι θ}

/-- One descriptor and the frame, bypass frames in order, and a counter that counts them. -/
theorem one_descriptor (h : (txPath priv).ReachableWhen (SendsOnce priv) s) :
    (∀ x ∈ s.handed, CarriesOne (priv x.iface) x.frame x.octets) ∧ (∀ i, (s.left i).Sublist (s.added i)) ∧
      (s.Quiet → s.bypassPktCount = ∑ i, (s.bypassTxq i).length) := by
  have hinv : s.Fitting priv ∧ s.Ordered ∧ s.Counted := by
    refine h.invariant (I := fun s => s.Fitting priv ∧ s.Ordered ∧ s.Counted) ?_ fun _ _ _ hi hc hs => ?_
    · exact fun _ hinit => ⟨.of_init hinit, .of_init hinit, .of_init hinit⟩
    · have hstep := stepped_of_step hs
      exact ⟨hi.1.step hc hstep, hi.2.1.step hstep, hi.2.2.step hstep⟩
  obtain ⟨hfitting, hordered, hcounted⟩ := hinv
  exact ⟨hfitting.handed, hordered.left, hcounted.of_quiet⟩

end Runs

/-! ## Small runs -/

/-- A station whose header has four octets. -/
def station : Unit → Priv := fun _ =>
  ⟨true, 0, 0, 4, false⟩

/-- No packet has settings of its own. -/
def plain : TxEnv :=
  ⟨[], 0, 0, false, fun _ => 0⟩

/-- A buffer with a frame of four octets behind 200 octets of headroom. -/
def smallBuffer (id : ℕ) : MlanBuffer where
  pbuf := 0
  mem := Mem.write (fun _ => 0) 200 [2, 4, 6, 8]
  dataOffset := 200
  dataLen := 4
  rawData := false
  priority := 0
  flags := ⟨false, false, false, false, false, false, false⟩
  mac := []
  txSeqNum := 0
  txInfo := ⟨0, 0, 0, false, 0, 0⟩
  mcTxInfo := ⟨0, 0, 0, 0, 0⟩
  id := id
  frame := [2, 4, 6, 8]
  described := false

/-- The path before its first packet. -/
def idlePath : Path Unit Unit :=
  ⟨fun _ => [], 0, fun _ _ => [], fun _ _ => false, .idle, fun _ => .idle, [], fun _ => [], fun _ => []⟩

theorem idlePath_init : idlePath.Init :=
  ⟨fun _ => rfl, rfl, fun _ _ => rfl, rfl, fun _ => rfl, rfl, fun _ => rfl, fun _ => rfl⟩

/-- A bypass frame is added. -/
def addBypass (id : ℕ) : List (Step Unit Unit) :=
  [.startAdd () () (smallBuffer id), .finishAdd ()]

/-- A bypass frame is taken and handed over. -/
def passBypass (r : Result) : List (Step Unit Unit) :=
  [.takeBypass (), .countBypass, .sendBypass plain false r false]

/-- A refused packet of an RA list is held, given back, and sent as it is, and two bypass frames go out. -/
theorem one_descriptor_requeued : ∃ s : Path Unit Unit, s.handed.length = 4 ∧
    (∀ x ∈ s.handed, CarriesOne (station x.iface) x.frame x.octets) ∧ s.left () = [1, 2] ∧
    (s.left ()).Sublist (s.added ()) ∧ s.bypassPktCount = (s.bypassTxq ()).length := by
  obtain ⟨s, hs, hp⟩ := exists_reachableWhen_of_runWhen (M := txPath (ι := Unit) (θ := Unit) station)
    (C := SendsOnce station)
    (P := fun s => decide (s.Quiet ∧ s.handed.length = 4 ∧ s.left () = [1, 2]))
    (l := addBypass 1 ++ addBypass 2 ++ addBypass 3 ++ passBypass .pending ++ passBypass .success ++
      [Step.createRalist () 100, .createRalist () 101, .addWmm () (.ralist 100) (smallBuffer 4), .takeWmm () 100,
        .sendWmm plain false .resource false, .requeueWmm, .holdTdlsPackets () [0, 0, 0, 0, 0, 0] 100,
        .restoreTdlsPackets () [0, 0, 0, 0, 0, 0] true fun _ => some 101, .takeWmm () 101,
        .sendWmm plain false .pending false])
    (s := idlePath) (.init idlePath_init) (by decide +kernel)
  obtain ⟨hquiet, hlen, hleft⟩ := of_decide_eq_true hp
  obtain ⟨hone, horder, hcount⟩ := one_descriptor hs
  exact ⟨s, hlen, hone, hleft, horder (), hcount hquiet⟩

/-- A bypass frame that is refused is handed over again, behind two descriptors. -/
theorem two_descriptors : ∃ s : Path Unit Unit, (txPath station).Reachable s ∧
    ∃ x ∈ s.handed, ¬CarriesOne (station x.iface) x.frame x.octets := by
  obtain ⟨s, hs, hp⟩ := exists_reachable_of_run (M := txPath (ι := Unit) (θ := Unit) station)
    (P := fun s => decide (∃ x ∈ s.handed, x.octets.length ≠ 4 + read16 (x.octets.drop 4) 4 + x.frame.length))
    (l := addBypass 1 ++ passBypass .resource ++ [Step.recountBypass, .requeueBypass] ++ passBypass .pending)
    (s := idlePath) idlePath_init (by decide +kernel)
  obtain ⟨x, hx, hlen⟩ := of_decide_eq_true hp
  exact ⟨s, hs, x, hx, fun h => hlen h.length⟩

end Path

end WlanDriver.Tx
