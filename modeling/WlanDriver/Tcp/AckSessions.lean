import WlanDriver.Lib.System
import WlanDriver.Lib.Ethernet

/-!
# Coalescing of TCP acknowledgements

`woal_process_tcp_ack` holds one acknowledgement for each TCP session (`TcpSess`) for a millisecond. A later one of the
same length with a greater number is copied over it and freed; when `tcp_ack_max_hold` of them were, or when the timer
expires, what is held is sent.

The state is that of all parties : threads in `woal_process_tcp_ack` and in `woal_flush_tcp_sess_queue`, and the
timer of each session with its handler. A section under `tcp_sess_lock` is one step; the lock is dropped around
every cancellation of a timer, which takes two steps. A session that is freed has no data any more, but its
timer, its handler and parties inside of it may be left; a step of theirs is then a fault.
-/

namespace WlanDriver.Tcp

open Ethernet

/-! ## Packets -/

/-- The addresses and ports of a packet, as in `woal_get_tcp_sess`. -/
structure Flow where
  saddr : UInt32
  source : UInt16
  daddr : UInt32
  dest : UInt16
  deriving DecidableEq

/-- What `woal_process_tcp_ack` reads of a packet; `len` is the length of its skb. -/
structure Packet where
  hProto : UInt16
  protocol : UInt8
  ihl : ℕ
  totLen : ℕ
  doff : ℕ
  tcpFlags : UInt8
  flow : Flow
  ackSeq : UInt32
  len : ℕ

def ipprotoTcp : UInt8 := 6

/-- A TCP packet over IPv4 with the flag ACK alone and without payload. -/
def Packet.isPureAck (p : Packet) : Bool :=
  p.hProto == ethPIp && p.protocol == ipprotoTcp && p.tcpFlags == 0x10 && !decide ((p.ihl + p.doff) * 4 < p.totLen)

def tcpAckMaxSess : ℕ := 100

/-- `TCP_SESS_AGEOUT`, in seconds. -/
def tcpSessAgeout : ℕ := 300

/-! ## Sessions -/

/-- `ack_skb` with its `pmbuf` : the skb, its length, the number in it, and `cb[0]`. `covers` are the numbers that were
dropped in its favour. -/
structure Held where
  skb : ℕ
  len : ℕ
  seq : UInt32
  count : UInt8
  covers : List UInt32
  deriving DecidableEq

/-- `tcp_sess`; `canceled` is `timer_is_canceled` of its timer. -/
structure TcpSess where
  flow : Flow
  ackSeq : UInt32
  held : Option Held
  isTimerSet : Bool
  updateTime : ℕ
  canceled : Bool

/-- Where `woal_timer_handler` is : not running, in front of its look at `timer_is_canceled`, called
`woal_tcp_ack_timer_func`, about to send, or at its end, where it writes the timer. -/
inductive Handler
  | idle
  | fired
  | calling
  | sending (h : Held)
  | tail
  deriving DecidableEq

def Handler.hand : Handler → Option Held
  | .sending h => some h
  | _ => none

/-- An address that `kmalloc` gave : the session, unless it was freed; whether its timer is in the wheel; and its
handler. -/
structure Obj where
  sess : Option TcpSess := none
  armed : Bool := false
  handler : Handler := .idle

/-! ## Parties -/

/-- Where a thread is. In `woal_process_tcp_ack` it has dropped the lock to cancel the timer of `i` (before
`del_timer`, before `timer_is_canceled` is set, before it takes the lock again), is about to send what was held,
or to free its own skb `own`, or has returned 0, so that the caller sends `own`. In `woal_flush_tcp_sess_queue`
it has dropped the lock with session `i` unlinked, and `tmp_node` is the next one. -/
inductive Pc
  | idle
  | window (i own : ℕ)
  | deleted (i own : ℕ)
  | canceled (i own : ℕ)
  | sending (i : ℕ) (h : Held) (own : ℕ)
  | freeing (own : ℕ)
  | passing (own : ℕ)
  | flushWindow (i : ℕ) (tmp : Option ℕ)
  | flushDeleted (i : ℕ) (tmp : Option ℕ)
  | flushCanceled (i : ℕ) (tmp : Option ℕ)
  deriving DecidableEq

namespace Pc

/-- The session the thread is inside of. -/
def inside : Pc → Option ℕ
  | .window i _ | .deleted i _ | .canceled i _ | .flushWindow i _ | .flushDeleted i _ | .flushCanceled i _ => some i
  | .idle | .sending _ _ _ | .freeing _ | .passing _ => none

def own : Pc → Option ℕ
  | .window _ o | .deleted _ o | .canceled _ o | .sending _ _ o | .freeing o | .passing o => some o
  | .idle | .flushWindow _ _ | .flushDeleted _ _ | .flushCanceled _ _ => none

/-- What was held by a session and is about to be sent. -/
def hand : Pc → Option (ℕ × Held)
  | .sending i h _ => some (i, h)
  | _ => none

def inFlush : Pc → Bool
  | .flushWindow _ _ | .flushDeleted _ _ | .flushCanceled _ _ => true
  | _ => false

end Pc

/-- An skb, and as what a session holds it, or held it until a party took it over. -/
structure Skb where
  id : ℕ
  ack : Option (ℕ × Held)
  deriving DecidableEq

/-- The sessions and all parties. `now` are seconds; `issued` counts the skbs that were handed in; `sent` are those that
`mlan_send_packet` has taken, `freed` those that were freed, `dropped` the numbers that were given up in a session for
greater ones, and `fault` says that a session was used that had been freed. -/
structure State (ι : Type*) where
  obj : ℕ → Obj
  fresh : ℕ
  queue : List ℕ
  cnt : ℕ
  pc : ι → Pc
  now : ℕ
  issued : ℕ
  sent : List Skb
  freed : List ℕ
  dropped : List (ℕ × UInt32)
  fault : Bool

/-- What happens next; `maxHold` is `tcp_ack_max_hold`, `alloc` says whether `kmalloc` succeeds, `sync` whether
a timer is cancelled with `del_timer_sync`, and `pending` whether `mlan_send_packet` takes the skb. -/
inductive Act (ι : Type*)
  | process (t : ι) (p : Packet) (maxHold : UInt8) (alloc : Bool)
  | flush (t : ι)
  | thread (t : ι) (sync pending : Bool)
  | expire (i : ℕ)
  | handler (i : ℕ) (pending : Bool)
  | tick

variable {ι : Type*} [DecidableEq ι]

namespace State

variable (s : State ι)

def init : State ι where
  obj := fun _ => {}
  fresh := 0
  queue := []
  cnt := 0
  pc := fun _ => .idle
  now := 0
  issued := 0
  sent := []
  freed := []
  dropped := []
  fault := false

def setObj (i : ℕ) (o : Obj) : State ι :=
  { s with obj := Function.update s.obj i o }

def setPc (t : ι) (p : Pc) : State ι :=
  { s with pc := Function.update s.pc t p }

def putSess (i : ℕ) (x : TcpSess) : State ι :=
  s.setObj i { s.obj i with sess := some x }

/-- A use of session `i`. -/
def withSess (i : ℕ) (f : TcpSess → State ι) : State ι :=
  match (s.obj i).sess with
  | some x => f x
  | none => { s with fault := true }

/-- `mlan_send_packet`, and the skb is freed if it is not taken. -/
def send (k : Skb) (pending : Bool) : State ι :=
  if pending then { s with sent := k :: s.sent } else { s with freed := k.id :: s.freed }

/-- The skb that session `x` holds is freed, and the session. -/
def kfreeSess (i : ℕ) (x : TcpSess) : State ι :=
  { s.setObj i { s.obj i with sess := none } with freed := (x.held.map Held.skb).toList ++ s.freed }

/-! ## Under the lock -/

def getTcpSess (f : Flow) : Option ℕ :=
  s.queue.find? fun i => (s.obj i).sess.any fun x => x.flow = f

/-- One round of `woal_ageout_tcp_sess_queue`; interrupts are off, so the timer is cancelled with `del_timer`. -/
def ageoutOne (i : ℕ) : State ι :=
  s.withSess i fun x =>
    if x.updateTime + tcpSessAgeout < s.now then
      let s := { s with queue := s.queue.erase i, cnt := (s.cnt + 255) % 256 }
      let s := if x.isTimerSet then s.setObj i { s.obj i with armed := false } else s
      s.kfreeSess i x
    else s

def ageoutTcpSessQueue : State ι :=
  s.queue.foldl ageoutOne s

/-- A new session holds the packet, and its timer is started. -/
def createSess (p : Packet) (skb : ℕ) : State ι :=
  let x : TcpSess :=
    { flow := p.flow, ackSeq := p.ackSeq, held := some ⟨skb, p.len, p.ackSeq, 0, []⟩, isTimerSet := true,
      updateTime := s.now, canceled := false }
  { s.setObj s.fresh { s.obj s.fresh with sess := some x, armed := true } with
    queue := s.queue ++ [s.fresh]
    cnt := (s.cnt + 1) % 256
    fresh := s.fresh + 1 }

/-- A session that holds nothing holds the packet, and its timer is started. -/
def holdAck (i : ℕ) (x : TcpSess) (p : Packet) (skb : ℕ) : State ι :=
  let x :=
    { x with
      held := some ⟨skb, p.len, p.ackSeq, 0, []⟩, ackSeq := p.ackSeq, isTimerSet := true, updateTime := s.now,
      canceled := false }
  s.setObj i { s.obj i with sess := some x, armed := true }

/-- The packet is copied over the one that is held. -/
def Replaces (x : TcpSess) (h : Held) (p : Packet) : Prop :=
  x.ackSeq < p.ackSeq ∧ h.len = p.len
  deriving Decidable

/-- What is held once `p` was copied over `h`. -/
def replaced (h : Held) (p : Packet) : Held :=
  { h with seq := p.ackSeq, count := h.count + 1, covers := h.seq :: h.covers }

/-- A session that holds `h` gets another packet; what is held is sent once enough were dropped. -/
def replaceAck (t : ι) (i : ℕ) (x : TcpSess) (h : Held) (p : Packet) (maxHold : UInt8) (skb : ℕ) : State ι :=
  if Replaces x h p then
    let h' := replaced h p
    let x := { x with updateTime := s.now, ackSeq := p.ackSeq, held := some h' }
    let s := { s with dropped := (i, h.seq) :: s.dropped }
    if maxHold ≤ h'.count then
      if x.isTimerSet then (s.putSess i { x with isTimerSet := false }).setPc t (.window i skb)
      else (s.putSess i { x with held := none }).setPc t (.sending i h' skb)
    else (s.putSess i x).setPc t (.freeing skb)
  else (s.putSess i { x with updateTime := s.now }).setPc t (.passing skb)

/-- `woal_process_tcp_ack` of thread `t`, for the next skb, up to where it drops the lock for the first time. -/
def processTcpAck (t : ι) (p : Packet) (maxHold : UInt8) (alloc : Bool) : State ι :=
  let skb := s.issued
  if !p.isPureAck then s.setPc t (.passing skb)
  else if s.queue.any fun i => (s.obj i).sess.isNone then { s with fault := true }
  else
    match s.getTcpSess p.flow with
    | none =>
      let s := s.ageoutTcpSessQueue
      if tcpAckMaxSess ≤ s.cnt then s.setPc t (.passing skb)
      else if !alloc then s.setPc t (.passing skb)
      else s.createSess p skb
    | some i => s.withSess i fun x =>
      match x.held with
      | none => s.holdAck i x p skb
      | some h => s.replaceAck t i x h p maxHold skb

/-- `woal_flush_tcp_sess_queue` from the sessions `l` of the queue on, up to where it drops the lock. -/
def flushFrom (t : ι) : List ℕ → State ι → State ι
  | [], s => { s.setPc t .idle with queue := [], cnt := 0 }
  | i :: l, s => s.withSess i fun x =>
    let s := { s with queue := s.queue.erase i }
    if x.isTimerSet then s.setPc t (.flushWindow i l.head?)
    else flushFrom t l (s.kfreeSess i x)

/-- The lock is taken again : session `i` is freed, and the flush goes on with `tmp_node`, which must still be on the
queue. -/
def flushOn (t : ι) (i : ℕ) (tmp : Option ℕ) : State ι :=
  s.withSess i fun x =>
    let s := s.kfreeSess i x
    match tmp with
    | none => flushFrom t [] s
    | some j => if j ∈ s.queue then flushFrom t (s.queue.dropWhile (· ≠ j)) s else { s with fault := true }

/-! ## Without the lock -/

/-- The timer of `i` is taken out of the wheel : `del_timer`, or `del_timer_sync`, which waits for its handler. -/
def delTimer (t : ι) (i : ℕ) (sync : Bool) (next : Pc) : Option (State ι) :=
  if sync ∧ (s.obj i).handler ≠ .idle then none
  else some (s.withSess i fun _ => (s.setObj i { s.obj i with armed := false }).setPc t next)

/-- The end of `woal_cancel_timer`. -/
def markCanceled (t : ι) (i : ℕ) (next : Pc) : State ι :=
  s.withSess i fun x => (s.putSess i { x with canceled := true }).setPc t next

/-- The lock is taken again, and what is held is taken over. -/
def takeHeld (t : ι) (i own : ℕ) : State ι :=
  s.withSess i fun x =>
    (s.putSess i { x with held := none }).setPc t (match x.held with
      | some h => .sending i h own
      | none => .freeing own)

/-- The next step of a thread. -/
def threadStep (t : ι) (sync pending : Bool) : Option (State ι) :=
  match s.pc t with
  | .idle => none
  | .window i own => s.delTimer t i sync (.deleted i own)
  | .deleted i own => some (s.markCanceled t i (.canceled i own))
  | .canceled i own => some (s.takeHeld t i own)
  | .sending i h own => some ((s.send ⟨h.skb, some (i, h)⟩ pending).setPc t (.freeing own))
  | .freeing own => some ({ s with freed := own :: s.freed }.setPc t .idle)
  | .passing own => some ((s.send ⟨own, none⟩ pending).setPc t .idle)
  | .flushWindow i tmp => s.delTimer t i sync (.flushDeleted i tmp)
  | .flushDeleted i tmp => some (s.markCanceled t i (.flushCanceled i tmp))
  | .flushCanceled i tmp => some (s.flushOn t i tmp)

/-- The timer of `i` expires; its handler does not run twice at a time. -/
def expire (i : ℕ) : Option (State ι) :=
  if (s.obj i).armed ∧ (s.obj i).handler = .idle then
    some (s.withSess i fun _ => s.setObj i { s.obj i with armed := false, handler := .fired })
  else none

/-- The next step of `woal_timer_handler` for session `i`, with `woal_tcp_ack_timer_func`. -/
def handlerStep (i : ℕ) (pending : Bool) : Option (State ι) :=
  match (s.obj i).handler with
  | .idle => none
  | .fired => some (s.withSess i fun x =>
      s.setObj i { s.obj i with handler := if x.canceled then .tail else .calling })
  | .calling => some (s.withSess i fun x =>
      s.setObj i { s.obj i with
        sess := some { x with isTimerSet := false, held := none }
        handler := match x.held with
          | some h => .sending h
          | none => .tail })
  | .sending h => some ((s.setObj i { s.obj i with handler := .tail }).send ⟨h.skb, some (i, h)⟩ pending)
  | .tail => some (s.withSess i fun _ => s.setObj i { s.obj i with handler := .idle })

def step : Act ι → Option (State ι)
  | .process t p maxHold alloc =>
    if s.pc t = .idle then some { s.processTcpAck t p maxHold alloc with issued := s.issued + 1 } else none
  | .flush t => if s.pc t = .idle then some (flushFrom t s.queue s) else none
  | .thread t sync pending => s.threadStep t sync pending
  | .expire i => s.expire i
  | .handler i pending => s.handlerStep i pending
  | .tick => some { s with now := s.now + 1 }

end State

/-- The sessions, with any number of parties. -/
def tcpAcks (ι : Type*) [DecidableEq ι] : System (State ι) (Act ι) where
  init s := s = State.init
  step := State.step

end WlanDriver.Tcp
