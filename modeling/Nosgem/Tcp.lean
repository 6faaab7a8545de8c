/-
This file models a TCP socket of mTCP as a whole: what `Tcp::process2` does with a
packet in each state, what `TcpSocket::sendPacket` makes of a buffer, the driving
of the queues, and the calls of the user. Buffers are objects with a name, since
the packet of the connection itself is queued again while it may still wait in a
queue. The packets handed to the packet driver and the bytes queued by the user
are recorded.

Listening sockets are not compiled in. The ports, the checksums and the addresses
are left out: a packet is one that belongs to the socket.
-/

import Nosgem.TcpQueues
import Mathlib.Logic.Function.Basic

namespace Nosgem.Tcp

open CText Buffers Circular

/-! ### Headers and packets -/

/-- A sequence number: `uint32_t`. -/
abbrev SeqNum := BitVec 32

/-- The code bits of a header that the code uses. -/
structure CodeBits where
  ack : Bool := false
  psh : Bool := false
  rst : Bool := false
  syn : Bool := false
  fin : Bool := false
  deriving DecidableEq, Repr

/-- `TcpHeader`, without the ports and the checksum. -/
structure TcpHeader where
  seqnum : SeqNum := 0
  acknum : SeqNum := 0
  tcpHlen : Nat := 0
  codeBits : CodeBits := {}
  window : Nat := 0
  deriving DecidableEq, Repr

/-- `ntohs`. -/
def ntohs (bytes : Text) : Nat := (bytes.getD 0 0).toNat * 256 + (bytes.getD 1 0).toNat

/-- `ntohl`. -/
def ntohl (bytes : Text) : Nat := ntohs bytes * 65536 + ntohs (bytes.drop 2)

/-- A packet that came in: the memory from its TCP header on, and `ip->payloadLen()`. -/
structure Packet where
  memory : Text
  payloadLen : Nat
  deriving Repr

/-- The fields at their places in the memory. -/
def Packet.header (packet : Packet) : TcpHeader where
  seqnum := BitVec.ofNat 32 (ntohl (packet.memory.drop 4))
  acknum := BitVec.ofNat 32 (ntohl (packet.memory.drop 8))
  tcpHlen := (packet.memory.getD 12 0).toNat / 4
  codeBits :=
    let bits := packet.memory.getD 13 0
    { fin := bits &&& 1 ≠ 0, syn := bits &&& 2 ≠ 0, rst := bits &&& 4 ≠ 0,
      psh := bits &&& 8 ≠ 0, ack := bits &&& 16 ≠ 0 }
  window := ntohs (packet.memory.drop 14)

/-- `incomingDataLen`: the difference is cut to 16 bits. -/
def Packet.incomingDataLen (packet : Packet) : Nat :=
  toUint16 ((packet.payloadLen : Int) - packet.header.tcpHlen)

/-- `userData`: the memory behind the header. -/
def Packet.userData (packet : Packet) : Text := packet.memory.drop packet.header.tcpHlen

/-- The loop of `TcpHeader::readMSS` from an option on, unrolled `fuel` times. -/
def readMSSLoop (packet : Packet) : Nat → Nat → Nat → Except Stop Nat
  | 0, _, _ => .error .failed
  | fuel + 1, optionsStart, rc =>
    if optionsStart = packet.header.tcpHlen then return rc
    else do
      let option ← load packet.memory optionsStart 1
      if option = [0] then return rc
      else if option = [1] then readMSSLoop packet fuel (optionsStart + 1) rc
      else if option = [2] then do
        let mss ← load packet.memory (optionsStart + 2) 2
        readMSSLoop packet fuel (optionsStart + 4) (ntohs mss)
      else do
        let length ← load packet.memory (optionsStart + 1) 1
        readMSSLoop packet fuel (optionsStart + (length.getD 0 0).toNat) rc

/-- `TcpHeader::readMSS`, its loop unrolled `fuel` times. -/
def readMSS (fuel : Nat) (packet : Packet) : Except Stop Nat :=
  if packet.header.tcpHlen ≠ 20 then readMSSLoop packet fuel 20 536 else return 536

/-! ### Buffers and queues -/

/-- The buffers for packets to send: that of the connection, and those of the pool. -/
inductive BufId where
  | connectPacket
  | pool (index : Nat)
  deriving DecidableEq, Repr

/-- `TcpBuffer`; the options stand where user data would. -/
structure TcpBuffer where
  seqNum : SeqNum := 0
  data : Text := []
  options : Text := []
  timeSent : Nat := 0
  overdueAt : Nat := 0
  attempts : Nat := 0
  pendingArp : Bool := false
  wasAckOnly : Bool := false
  forceAckOnly : Bool := false
  forceProbe : Bool := false
  headers : TcpHeader := {}
  deriving Repr

/-- What is handed to the packet driver. -/
structure Sent where
  header : TcpHeader
  options : Text
  data : Text
  deriving Repr

/-- A ring as the list of its entries. -/
structure Ring (Item : Type) where
  items : List Item
  bounded : items.length ≤ tcpSocketRingSize

section Rings

variable {Item : Type}

/-- A ring without entries. -/
def Ring.empty : Ring Item := ⟨[], Nat.zero_le _⟩

/-- `RingBuffer::hasRoom`. -/
def Ring.hasRoom (ring : Ring Item) : Bool := ring.items.length < tcpSocketRingSize

/-- `RingBuffer::enqueue`; without room it is `none`. -/
def Ring.enqueue (ring : Ring Item) (data : Item) : Option (Ring Item) :=
  if room : ring.items.length < tcpSocketRingSize then
    some ⟨ring.items ++ [data], by rw [List.length_append]; exact room⟩
  else none

/-- `RingBuffer::dequeue`, with what is left. -/
def Ring.dequeue (ring : Ring Item) : Ring Item :=
  ⟨ring.items.tail, by have := ring.bounded; rw [List.length_tail]; omega⟩

end Rings

/-! ### The socket -/

/-- The states of a socket. -/
inductive TcpState where
  | closed
  | listen
  | synSent
  | synRecved
  | established
  | closeWait
  | lastAck
  | finWait1
  | finWait2
  | closing
  | timeWait
  | sendFin1
  | sendFin2
  | sendFin3
  deriving DecidableEq, Repr

/-- `TCP_MAX_SRTT`. -/
def tcpMaxSrtt : Nat := 181

/-- `TcpSocket`, with `Tcp::Pending_Sent`, `Tcp::Pending_Outgoing`, the pool of transmit buffers,
`TcpSocketMgr::MSS_to_advertise` and whether the socket is in the table of active ones. What was
handed to the packet driver and the bytes that the user queued are recorded at the end. -/
structure TcpSocket (rcvBufSize : Nat) where
  seqNum : SeqNum
  ackNum : SeqNum := 0
  oldestUnackedSeq : SeqNum
  lastAckRcvd : Nat
  closeStarted : Nat := 0
  state : TcpState := .closed
  disableReads : Bool := false
  closeReason : Nat := 0
  remoteMSS : Nat := 0
  maxEnqueueSize : Nat := 0
  remoteWindow : Nat := 0
  outgoing : Ring BufId := .empty
  sent : Ring BufId := .empty
  incoming : Ring Packet := .empty
  buffers : BufId → TcpBuffer
  rcvBuffer : Option (ReceiveBuffer rcvBufSize) := none
  cachedMacAddr : Bool := false
  srtt : Nat := tcpMaxSrtt
  rttDeviation : Nat := 0
  consecutiveGoodPackets : Nat := 0
  consecutiveSeqErrs : Nat := 0
  reportSmallWindow : Bool := false
  active : Bool := false
  xmitBuffers : List Nat
  pendingSent : BitVec 16 := 0
  pendingOutgoing : BitVec 16 := 0
  mssToAdvertise : Nat
  wire : List Sent := []
  queued : Text := []

/-- `TCP_RC_TOO_MUCH_DATA`. -/
def tcpRcTooMuchData : Int := -5

/-- `TCP_RC_RECV_BAD_STATE`. -/
def tcpRcRecvBadState : Int := -6

namespace TcpSocket

variable {rcvBufSize : Nat}

/-- An assignment to a buffer. -/
def setBuffer (sock : TcpSocket rcvBufSize) (id : BufId) (buf : TcpBuffer) :
    TcpSocket rcvBufSize :=
  { sock with buffers := Function.update sock.buffers id buf }

/-- `Packet_send_pkt`. -/
def transmit (sock : TcpSocket rcvBufSize) (buf : TcpBuffer) : TcpSocket rcvBufSize :=
  { sock with wire := sock.wire ++ [⟨buf.headers, buf.options, buf.data⟩] }

/-- `TcpBuffer::getXmitBuf`. -/
def getXmitBuf (sock : TcpSocket rcvBufSize) : Option (BufId × TcpSocket rcvBufSize) :=
  match sock.xmitBuffers with
  | [] => none
  | index :: rest => some (.pool index, { sock with xmitBuffers := rest })

/-- `TcpBuffer::returnXmitBuf`: the packet of the connection does not belong to the pool. -/
def returnXmitBuf (sock : TcpSocket rcvBufSize) : BufId → TcpSocket rcvBufSize
  | .connectPacket => sock
  | .pool index => { sock with xmitBuffers := index :: sock.xmitBuffers }

/-- `TcpSocket::clearQueues`. -/
def clearQueues (sock : TcpSocket rcvBufSize) : TcpSocket rcvBufSize :=
  let freed := (sock.outgoing.items ++ sock.sent.items).foldl returnXmitBuf sock
  { freed with
    outgoing := .empty, sent := .empty, incoming := .empty,
    pendingOutgoing := sock.pendingOutgoing - BitVec.ofNat 16 sock.outgoing.items.length,
    pendingSent := sock.pendingSent - BitVec.ofNat 16 sock.sent.items.length }

/-- `TcpSocket::destroy`. -/
def destroy (sock : TcpSocket rcvBufSize) : TcpSocket rcvBufSize :=
  { sock.clearQueues with state := .closed, active := false, rcvBuffer := none }

/-- The part of `TcpSocket::enqueue` that discards a packet which is only an acknowledgement. -/
def discardAck (sock : TcpSocket rcvBufSize) : TcpSocket rcvBufSize :=
  match sock.outgoing.items with
  | [first] =>
    if sock.state = .established ∧ (sock.buffers first).data.length = 0 then
      { sock with outgoing := sock.outgoing.dequeue }.returnXmitBuf first
    else sock
  | _ => sock

/-- `TcpSocket::enqueue`. -/
def enqueue (sock : TcpSocket rcvBufSize) (id : BufId) : Int × TcpSocket rcvBufSize :=
  if sock.state = .closed ∨ sock.state = .listen ∨ sock.state = .closing ∨
      (sock.state = .timeWait ∧ id ≠ .connectPacket) then (tcpRcBad, sock)
  else if (sock.buffers id).data.length > sock.maxEnqueueSize then (tcpRcTooMuchData, sock)
  else
    let sock := sock.discardAck
    let sock := sock.setBuffer id { sock.buffers id with
      timeSent := 0, attempts := 0, pendingArp := false, wasAckOnly := false,
      forceAckOnly := false, forceProbe := false }
    match sock.outgoing.enqueue id with
    | some outgoing => (0, { sock with
        outgoing, pendingOutgoing := sock.pendingOutgoing + 1,
        queued := sock.queued ++ (sock.buffers id).data })
    | none => (-1, sock)

/-- `connectPacket.pkt.dataLen = 0` and the enqueueing of that packet. -/
def enqueueConnectPacket (sock : TcpSocket rcvBufSize) : TcpSocket rcvBufSize :=
  ((sock.setBuffer .connectPacket { sock.buffers .connectPacket with data := [] }).enqueue
    .connectPacket).2

/-- `TcpSocket::connect2`. -/
def connect2 (sock : TcpSocket rcvBufSize) : Int × TcpSocket rcvBufSize :=
  if sock.state ≠ .closed then (tcpRcBad, sock)
  else (0, { sock with active := true, state := .synSent }.enqueueConnectPacket)

/-! ### Sending -/

/-- The window that a packet announces. -/
def winSize (sock : TcpSocket rcvBufSize) : Nat :=
  let winSize :=
    if rcvBufSize ≠ 0 then
      rcvBufSize - (sock.rcvBuffer.map fun buffer => buffer.rcvBufEntries).getD 0
    else sock.mssToAdvertise * 4 % 65536
  if sock.reportSmallWindow then min (winSize / 2) sock.mssToAdvertise else winSize

/-- The MSS option of a SYN packet. -/
def mssOption (sock : TcpSocket rcvBufSize) : Text :=
  let mss := if rcvBufSize ≠ 0 ∧ rcvBufSize < sock.mssToAdvertise then rcvBufSize
    else sock.mssToAdvertise
  [2, 4, (mss / 256).toUInt8, mss.toUInt8]

/-- The code bits and the sequence number that a state adds to a packet, and the next state. -/
def addCodeBits (sock : TcpSocket rcvBufSize) (buf : TcpBuffer) :
    CodeBits × Bool × TcpState :=
  match sock.state with
  | .established => ({ ack := true, psh := buf.data.length ≠ 0 }, false, .established)
  | .synSent => ({ syn := true }, true, .synSent)
  | .synRecved => ({ syn := true, ack := true }, true, .synRecved)
  | .sendFin1 | .sendFin2 | .sendFin3 =>
    if buf.forceAckOnly = false ∧ sock.outgoing.items.length = 1 then
      ({ ack := true, fin := true }, true,
        if sock.state = .sendFin2 then .lastAck else .finWait1)
    else ({ ack := true }, false, sock.state)
  | state => ({ ack := true }, false, state)

/-- The part of `TcpSocket::sendPacket` that fills in a packet. -/
def fillPacket (sock : TcpSocket rcvBufSize) (buf : TcpBuffer) :
    TcpSocket rcvBufSize × TcpBuffer :=
  let (codeBits, counts, state) := sock.addCodeBits buf
  let behind := sock.seqNum + BitVec.ofNat 32 buf.data.length
  let seqNum := if counts then behind + 1 else behind
  let isSyn := codeBits.syn
  ({ sock with
      seqNum, state,
      remoteWindow := sock.remoteWindow - buf.data.length },
    { buf with
      seqNum := seqNum - 1,
      options := if isSyn then sock.mssOption else [],
      wasAckOnly := buf.wasAckOnly ||
        (buf.data.length = 0 && codeBits = { ack := true : CodeBits }),
      headers := {
        seqnum := if buf.forceProbe then behind - 1 else sock.seqNum
        acknum := sock.ackNum
        tcpHlen := if isSyn then 24 else 20
        codeBits
        window := sock.winSize } })

/-- `TcpSocket::sendPacket`: the socket and the packet, whose `pendingArp` is the result. The
address is looked up when it is not cached, and `arp` tells whether the lookup is pending. -/
def sendPacket (sock : TcpSocket rcvBufSize) (arp : Bool) (buf : TcpBuffer) :
    TcpSocket rcvBufSize × TcpBuffer :=
  if buf.pendingArp then
    if arp then (sock, buf)
    else ({ sock with cachedMacAddr := true }.transmit buf, { buf with pendingArp := false })
  else
    let (sock, buf) := sock.fillPacket buf
    if !sock.cachedMacAddr && arp then (sock, { buf with pendingArp := true })
    else (sock.transmit buf, buf)

/-- `TcpSocket::sendPureAck`. -/
def sendPureAck (sock : TcpSocket rcvBufSize) (arp forceProbe : Bool) : TcpSocket rcvBufSize :=
  if sock.state ≠ .established then sock
  else (sock.sendPacket arp { forceAckOnly := true, forceProbe }).1

/-- `TcpSocket::sendResetPacket`; `arp` tells whether the address is not known. -/
def sendResetPacket (sock : TcpSocket rcvBufSize) (arp : Bool) (packet : Packet) :
    TcpSocket rcvBufSize :=
  if packet.header.codeBits.rst || arp then sock
  else
    let ackNum := packet.header.seqnum + BitVec.ofNat 32 packet.incomingDataLen
    sock.transmit { headers := {
      seqnum := if packet.header.codeBits.ack then packet.header.acknum else 0
      acknum := if packet.header.codeBits.syn then ackNum + 1 else ackNum
      tcpHlen := 20
      codeBits := { rst := true, ack := true } } }

/-- The time after which a packet is sent again. -/
def overdueAt (sock : TcpSocket rcvBufSize) (timeSent : Nat) : Nat :=
  timeSent + (sock.srtt + sock.rttDeviation * 4 % 65536) % 65536 + 2

/-- The loop of `Tcp::drivePackets2` over the outgoing packets; each of its iterations but the last
one takes a packet off the queue. -/
def driveOutgoing (sock : TcpSocket rcvBufSize) (now : Nat) (arp : Bool) :
    Nat → TcpSocket rcvBufSize
  | 0 => sock
  | entries + 1 =>
    match sock.outgoing.items with
    | [] => sock
    | id :: _ =>
      if !sock.sent.hasRoom then sock
      else if (sock.buffers id).data.length > sock.remoteWindow then
        if now - sock.lastAckRcvd > 1000 / 55 then
          { sock with lastAckRcvd := now }.sendPureAck arp true
        else sock
      else
        let (sock, buf) := sock.sendPacket arp (sock.buffers id)
        if buf.pendingArp then sock.setBuffer id buf
        else
          let buf := { buf with
            attempts := buf.attempts + 1, timeSent := now, overdueAt := sock.overdueAt now }
          let sock := { sock.setBuffer id buf with
            outgoing := sock.outgoing.dequeue, pendingOutgoing := sock.pendingOutgoing - 1 }
          if buf.wasAckOnly then (sock.returnXmitBuf id).driveOutgoing now arp entries
          else
            match sock.sent.enqueue id with
            | some sent =>
              { sock with sent, pendingSent := sock.pendingSent + 1 }.driveOutgoing now arp entries
            | none => sock

/-- `TcpSocket::resendPacket`, with the times of the packet. -/
def resendPacket (sock : TcpSocket rcvBufSize) (now : Nat) (id : BufId) : TcpSocket rcvBufSize :=
  let sock := { sock with srtt := min (sock.srtt * 2 % 65536) tcpMaxSrtt }
  let buf := { sock.buffers id with timeSent := now, overdueAt := sock.overdueAt now }
  (sock.transmit buf).setBuffer id { buf with attempts := buf.attempts + 1 }

/-- `Tcp::drivePackets2` for the one socket. -/
def drivePackets2 (sock : TcpSocket rcvBufSize) (now : Nat) (arp : Bool) : TcpSocket rcvBufSize :=
  if !sock.active then sock
  else
    match sock.sent.items with
    | [] => sock.driveOutgoing now arp sock.outgoing.items.length
    | oldest :: _ =>
      if now > (sock.buffers oldest).overdueAt then
        if (sock.buffers oldest).attempts > 10 then { sock.destroy with closeReason := 4 }
        else sock.resendPacket now oldest
      else sock.driveOutgoing now arp sock.outgoing.items.length

/-- `Tcp::drivePackets`. -/
def drivePackets (sock : TcpSocket rcvBufSize) (now : Nat) (arp : Bool) : TcpSocket rcvBufSize :=
  if sock.pendingSent ≠ 0 ∨ sock.pendingOutgoing ≠ 0 then sock.drivePackets2 now arp else sock

/-! ### Acknowledgements -/

/-- The round trip time and its deviation after a packet that was sent once. -/
def updateRTT (sock : TcpSocket rcvBufSize) (rtt : Nat) : TcpSocket rcvBufSize :=
  let srtt := (sock.srtt * 8 % 65536 + rtt * 4 % 65536) % 65536 / 10
  let delta := if srtt > rtt then srtt - rtt else rtt - srtt
  { sock with
    rttDeviation := (sock.rttDeviation * 8 % 65536 + delta * 4 % 65536) % 65536 / 10,
    srtt := if srtt = 0 then 1 else if srtt > tcpMaxSrtt then tcpMaxSrtt else srtt }

/-- Whether an acknowledgement covers a packet, up to the wrap of the sequence numbers. -/
def isAcked (sock : TcpSocket rcvBufSize) (target : SeqNum) (p : TcpBuffer) : Bool :=
  p.seqNum < target ||
    (p.seqNum > target && target < sock.oldestUnackedSeq && p.seqNum ≥ sock.oldestUnackedSeq)

/-- The first packet leaves the sent queue. -/
def removeFirst (sock : TcpSocket rcvBufSize) (now : Nat) (id : BufId) : TcpSocket rcvBufSize :=
  let p := sock.buffers id
  let sock := if p.attempts = 1 then sock.updateRTT ((now - p.timeSent) % 65536) else sock
  { sock with
    sent := sock.sent.dequeue, pendingSent := sock.pendingSent - 1 }.returnXmitBuf id

/-- The loop of `TcpSocket::removeSentPackets`, for the packets of the sent queue. -/
def removeSentLoop (sock : TcpSocket rcvBufSize) (now : Nat) (target : SeqNum) :
    List BufId → TcpSocket rcvBufSize
  | [] => { sock with oldestUnackedSeq := sock.seqNum }
  | id :: rest =>
    if sock.isAcked target (sock.buffers id) then
      (sock.removeFirst now id).removeSentLoop now target rest
    else { sock with oldestUnackedSeq := (sock.buffers id).headers.seqnum }

/-- `TcpSocket::removeSentPackets`. -/
def removeSentPackets (sock : TcpSocket rcvBufSize) (now : Nat) (target : SeqNum) :
    TcpSocket rcvBufSize :=
  sock.removeSentLoop now target sock.sent.items

/-! ### Receiving -/

/-- `isIncomingAckProper`. -/
def isIncomingAckProper (sock : TcpSocket rcvBufSize) (packet : Packet) : Bool :=
  packet.header.codeBits.ack &&
    if sock.oldestUnackedSeq < sock.seqNum then
      packet.header.acknum ≥ sock.oldestUnackedSeq && packet.header.acknum ≤ sock.seqNum
    else packet.header.acknum ≥ sock.oldestUnackedSeq || packet.header.acknum ≤ sock.seqNum

/-- `isIncomingSeqProper`. -/
def isIncomingSeqProper (sock : TcpSocket rcvBufSize) (packet : Packet) : Bool :=
  packet.header.seqnum = sock.ackNum ||
    (sock.state = .synRecved && packet.header.seqnum = sock.ackNum - 1)

/-- `incomingAckNumIsCurrent`. -/
def incomingAckNumIsCurrent (sock : TcpSocket rcvBufSize) (packet : Packet) : Bool :=
  packet.header.codeBits.ack && packet.header.acknum = sock.seqNum

/-- `Tcp::processPacketData`, true when the code is to play dead. -/
def processPacketData (sock : TcpSocket rcvBufSize) (packet : Packet) :
    Except Stop (Bool × TcpSocket rcvBufSize) :=
  let acknowledged :=
    { sock with ackNum := sock.ackNum + BitVec.ofNat 32 packet.incomingDataLen }
  if sock.disableReads then return (false, acknowledged)
  else
    match sock.rcvBuffer with
    | none =>
      match sock.incoming.enqueue packet with
      | some incoming => return (false, { acknowledged with incoming })
      | none => return (true, sock)
    | some buffer => do
      match ← buffer.addToRcvBuf packet.userData packet.incomingDataLen with
      | some buffer => return (false, { acknowledged with rcvBuffer := some buffer })
      | none => return (true, sock)

/-- `TcpSocket::setMaxEnqueueSize`. -/
def setMaxEnqueueSize (sock : TcpSocket rcvBufSize) (fuel : Nat) (packet : Packet) :
    Except Stop (TcpSocket rcvBufSize) := do
  let remoteMSS ← readMSS fuel packet
  return { sock with remoteMSS, maxEnqueueSize := min remoteMSS sock.mssToAdvertise }

/-- The part of `Tcp::process2` for a socket in SYN_SENT, true when a packet is to be generated. -/
def processSynSent (sock : TcpSocket rcvBufSize) (fuel : Nat) (now : Nat) (arp : Bool)
    (packet : Packet) : Except Stop (Bool × TcpSocket rcvBufSize) :=
  let bits := packet.header.codeBits
  if bits.rst then
    if sock.incomingAckNumIsCurrent packet then
      return (false, { sock.destroy with closeReason := 1 })
    else return (false, sock)
  else if bits.syn then
    if bits.ack then
      if sock.incomingAckNumIsCurrent packet then do
        let sock := sock.removeSentPackets now packet.header.acknum
        let sock := { sock with state := .established, ackNum := packet.header.seqnum + 1 }
        let sock ← sock.setMaxEnqueueSize fuel packet
        return (true, { sock with remoteWindow := packet.header.window })
      else return (false, sock.sendResetPacket arp packet)
    else do
      -- both sides open the connection
      let sock := { sock with state := .synRecved, ackNum := packet.header.seqnum + 1 }
      let sock ← sock.setMaxEnqueueSize fuel packet
      let sock := { sock with seqNum := sock.seqNum - 1 }.clearQueues
      return (false, sock.enqueueConnectPacket)
  else return (false, sock.sendResetPacket arp packet)

/-- The changes of the state by an acceptable packet, true when a packet is to be generated. -/
def changeState (sock : TcpSocket rcvBufSize) (arp : Bool) (packet : Packet) :
    Bool × TcpSocket rcvBufSize :=
  let isFinSet := packet.header.codeBits.fin
  let isCurrent := sock.incomingAckNumIsCurrent packet
  let next := sock.ackNum + 1
  match sock.state with
  | .established =>
    if isFinSet then (true, { sock with state := .closeWait, ackNum := next }) else (false, sock)
  | .sendFin1 =>
    if isFinSet then (false, { sock with state := .sendFin2, ackNum := next }) else (false, sock)
  | .synRecved =>
    if isCurrent then
      (false, { sock with state := .established, remoteWindow := packet.header.window })
    else (false, sock.clearQueues.sendResetPacket arp packet)
  | .lastAck => (false, { sock with state := .closed })
  | .finWait1 =>
    if isFinSet then
      (true, { sock with state := if isCurrent then .timeWait else .closing, ackNum := next })
    else (false, if isCurrent then { sock with state := .finWait2 } else sock)
  | .finWait2 =>
    if isFinSet then (true, { sock with state := .timeWait, ackNum := next }) else (false, sock)
  | .closing => (false, if isCurrent then { sock with state := .timeWait } else sock)
  | _ => (false, sock)

/-- The counts of a connection after an acceptable packet. -/
def countGoodPacket (sock : TcpSocket rcvBufSize) (now : Nat) : TcpSocket rcvBufSize :=
  let good := if sock.consecutiveGoodPackets < 255 then sock.consecutiveGoodPackets + 1
    else sock.consecutiveGoodPackets
  { sock with
    consecutiveGoodPackets := good, consecutiveSeqErrs := 0, lastAckRcvd := now,
    reportSmallWindow := if good > 50 then false else sock.reportSmallWindow }

/-- The counts of a connection after a packet with a wrong number. -/
def countSeqError (sock : TcpSocket rcvBufSize) : TcpSocket rcvBufSize :=
  let errors := if sock.consecutiveSeqErrs < 255 then sock.consecutiveSeqErrs + 1
    else sock.consecutiveSeqErrs
  { sock with
    consecutiveGoodPackets := 0, consecutiveSeqErrs := errors,
    reportSmallWindow := if errors > 4 then true else sock.reportSmallWindow }

/-- The window of a packet counts when no packet waits for its acknowledgement. -/
def updateWindow (sock : TcpSocket rcvBufSize) (packet : Packet) : TcpSocket rcvBufSize :=
  if sock.sent.items.length = 0 then { sock with remoteWindow := packet.header.window } else sock

/-- What an acceptable packet changes before its data is looked at. -/
def processAck (sock : TcpSocket rcvBufSize) (now : Nat) (packet : Packet) :
    TcpSocket rcvBufSize :=
  let sock := sock.countGoodPacket now
  if sock.sent.items.length ≠ 0 then
    (sock.removeSentPackets now packet.header.acknum).updateWindow packet
  else sock.updateWindow packet

/-- The part of `Tcp::process2` for an acceptable packet. The second result tells whether a packet
is to be generated; after playing dead nothing is. -/
def processAcceptable (sock : TcpSocket rcvBufSize) (now : Nat) (arp : Bool) (packet : Packet) :
    Except Stop (Bool × TcpSocket rcvBufSize) :=
  let sock := sock.processAck now packet
  if packet.incomingDataLen ≠ 0 then do
    let (playDead, sock) ← sock.processPacketData packet
    if playDead then return (false, sock)
    else
      let (generatePkt, after) := sock.changeState arp packet
      return (generatePkt || sock.outgoing.items.length = 0, after)
  else return sock.changeState arp packet

/-- The branches of `Tcp::process2`, with whether a packet is to be generated. -/
def processBranches (sock : TcpSocket rcvBufSize) (fuel : Nat) (now : Nat) (arp : Bool)
    (packet : Packet) : Except Stop (Bool × TcpSocket rcvBufSize) :=
  if sock.state = .synSent then sock.processSynSent fuel now arp packet
  else if packet.header.codeBits.rst then
    if sock.isIncomingSeqProper packet then .ok (false, { sock.destroy with closeReason := 1 })
    else .ok (false, sock)
  else if sock.isIncomingAckProper packet && sock.isIncomingSeqProper packet then
    sock.processAcceptable now arp packet
  else .ok (false, (sock.sendPureAck arp false).countSeqError)

/-- `Tcp::process2`; the loop over the options of a SYN packet is unrolled `fuel` times. -/
def process2 (sock : TcpSocket rcvBufSize) (fuel : Nat) (now : Nat) (arp : Bool)
    (packet : Packet) : Except Stop (TcpSocket rcvBufSize) := do
  let (generatePkt, sock) ← sock.processBranches fuel now arp packet
  return if generatePkt then sock.enqueueConnectPacket else sock

/-- `Tcp::process`, for a packet with the ports and the address of the socket. -/
def process (sock : TcpSocket rcvBufSize) (fuel : Nat) (now : Nat) (arp : Bool)
    (packet : Packet) : Except Stop (TcpSocket rcvBufSize) :=
  if !sock.active || sock.state = .closed || sock.state = .timeWait then
    .ok (sock.sendResetPacket arp packet)
  else sock.process2 fuel now arp packet

/-! ### The calls of the user -/

/-- `TcpSocket::isRemoteClosed`. -/
def isRemoteClosed (sock : TcpSocket rcvBufSize) : Bool :=
  sock.state = .closed || sock.state = .closeWait || sock.state = .lastAck ||
    sock.state = .sendFin2 || sock.state = .closing || sock.state = .timeWait

/-- `TcpSocket::recv`: what it returns, the bytes it stores, and the socket. -/
def recv (sock : TcpSocket rcvBufSize) (arp : Bool) (userBufLen : Nat) :
    Except Stop (Int × Text × TcpSocket rcvBufSize) :=
  if sock.state = .closed ∨ sock.state = .listen ∨ sock.state = .synSent ∨
      sock.state = .synRecved then return (tcpRcRecvBadState, [], sock)
  else
    match sock.rcvBuffer with
    | none => return (0, [], sock)
    | some buffer =>
      if buffer.rcvBufEntries = 0 ∨ userBufLen = 0 then return (0, [], sock)
      else do
        let (userBuf, taken) ← buffer.recv userBufLen
        let after := { sock with rcvBuffer := some taken }
        return (userBuf.length, userBuf,
          if buffer.rcvBufEntries = rcvBufSize then after.sendPureAck arp false else after)

/-- `TcpSocket::getSuggestedSendSize`. -/
def getSuggestedSendSize (sock : TcpSocket rcvBufSize) : Nat :=
  if sock.maxEnqueueSize < sock.remoteWindow then sock.maxEnqueueSize else sock.remoteWindow

/-- The loop of `TcpSocket::send`, unrolled `fuel` times. -/
def sendLoop (sock : TcpSocket rcvBufSize) (userBuf : Text) :
    Nat → Nat → Option (Nat × TcpSocket rcvBufSize)
  | 0, _ => none
  | fuel + 1, bytesSent =>
    if bytesSent < userBuf.length then
      if !sock.outgoing.hasRoom then some (bytesSent, sock)
      else
        match sock.getXmitBuf with
        | none => some (bytesSent, sock)
        | some (tmp, sock) =>
          let cpyLen := min sock.getSuggestedSendSize (userBuf.length - bytesSent)
          let sock := sock.setBuffer tmp { sock.buffers tmp with
            data := (userBuf.drop bytesSent).take cpyLen }
          (sock.enqueue tmp).2.sendLoop userBuf fuel (bytesSent + cpyLen)
    else some (bytesSent, sock)

/-- `TcpSocket::send`, its loop unrolled `fuel` times. -/
def send (sock : TcpSocket rcvBufSize) (fuel : Nat) (userBuf : Text) :
    Option (Int × TcpSocket rcvBufSize) :=
  if sock.state ≠ .established then some (tcpRcBad, sock)
  else if sock.remoteWindow = 0 then some (0, sock)
  else (sock.sendLoop userBuf fuel 0).map fun done => (toInt16 done.1, done.2)

/-- `TcpSocket::closeLocal`. -/
def closeLocal (sock : TcpSocket rcvBufSize) : TcpSocket rcvBufSize :=
  let sendFin (state : TcpState) : TcpSocket rcvBufSize :=
    let sock := { sock with state }
    if sock.outgoing.items.length = 0 then sock.enqueueConnectPacket else sock
  match sock.state with
  | .closed | .timeWait | .listen | .synSent => { sock with state := .closed }
  | .synRecved => sendFin .sendFin3
  | .established => sendFin .sendFin1
  | .closeWait => sendFin .sendFin2
  | _ => sock

/-- `TcpSocket::closeNonblocking`. -/
def closeNonblocking (sock : TcpSocket rcvBufSize) (now : Nat) : TcpSocket rcvBufSize :=
  { sock with
    closeStarted := if sock.closeStarted = 0 then now else sock.closeStarted }.closeLocal

/-- `TcpSocket::shutdown`; the numbers are `TCP_SHUT_RD`, `TCP_SHUT_WR` and `TCP_SHUT_RDWR`. -/
def shutdown (sock : TcpSocket rcvBufSize) (how : Nat) : TcpSocket rcvBufSize :=
  match how with
  | 0 => { sock with disableReads := true }
  | 1 => sock.closeLocal
  | 2 => { sock with disableReads := true }.closeLocal
  | _ => sock

/-- `TcpSocket::isCloseDone`; `TCP_CLOSE_TIMEOUT` is 15 seconds. -/
def isCloseDone (sock : TcpSocket rcvBufSize) (now : Nat) : Bool × TcpSocket rcvBufSize :=
  if sock.state = .timeWait ∨ sock.state = .closed then
    (true, { sock.destroy with closeReason := 0 })
  else if now - sock.closeStarted < 15000 / 55 then (false, sock)
  else (true, { sock.destroy with closeReason := 2 })

end TcpSocket

/-- `TcpSocket::reinit` and `setRecvBuffer`: a socket with its receive buffer, if it has one. -/
def fresh {rcvBufSize : Nat} (seqNum : SeqNum) (now mssToAdvertise : Nat)
    (buffers : BufId → TcpBuffer) (xmitBuffers : List Nat)
    (rcvBuffer : Option (ReceiveBuffer rcvBufSize)) : TcpSocket rcvBufSize where
  seqNum
  oldestUnackedSeq := seqNum
  lastAckRcvd := now
  buffers
  xmitBuffers
  mssToAdvertise
  rcvBuffer

end Nosgem.Tcp
