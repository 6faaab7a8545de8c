/-
This file models ARP.CPP: the table of the Ethernet addresses of the machines on
the network, the requests that wait for an answer, and what is done with a
packet that arrives, with a request that is getting old, and with a packet that
is to be sent (`IpHeader::setDestEth` of IP.CPP, which chooses the next hop).

Two facts carry everything else. The table is a cache in the sense of
CacheTable. And `pendingEntries` is the number of the slots of `pending` that
are in use, which are for different addresses: the source relies on that where
it looks for an empty slot and does not ask whether it has found one.
-/

import Nosgem.CacheTable

namespace Nosgem.Arp

open Buffers CacheTable

/-! ### The source -/

/-- `ARP_MAX_ENTRIES` of nosgem.cfg. -/
def arpMaxEntries : Nat := 5

/-- `ARP_MAX_PENDING` of nosgem.cfg. -/
def arpMaxPending : Nat := 2

/-- `ARP_RETRIES` of nosgem.cfg. -/
def arpRetries : Int := 3

/-- `TIMER_MS_TO_TICKS( ARP_TIMEOUT )`, ticks of 55 ms. -/
def arpTimeout : Nat := 500 / 55

/-- `IpAddr_t`, read as a word like `Ip::isSame` does. -/
abbrev IpAddr : Type := BitVec 32

/-- `EthAddr_t`. -/
abbrev EthAddr : Type := BitVec 48

/-- `clockTicks_t`. -/
abbrev ClockTicks : Type := BitVec 32

/-- `Eth::Eth_Broadcast`. -/
def ethBroadcast : EthAddr := BitVec.allOnes 48

/-- `IpBroadcastNonRoutable`. -/
def ipBroadcastNonRoutable : IpAddr := BitVec.allOnes 32

/-- `MyIpAddr`, `Netmask`, `Gateway` and `MyEthAddr`. -/
structure Host where
  myIpAddr : IpAddr
  netmask : IpAddr
  gateway : IpAddr
  myEthAddr : EthAddr

/-- The fields of `ArpHeader` that are read. -/
structure ArpHeader where
  operation : Nat
  senderHa : EthAddr
  senderIp : IpAddr
  targetHa : EthAddr
  targetIp : IpAddr

/-- `Pending_t`; no attempts are counted as -1 in a slot that is not in use. -/
structure Pending where
  target : IpAddr
  start : ClockTicks
  attempts : Int

/-- What is given to `Packet_send_pkt`. -/
inductive Frame where
  | request (targetIp : IpAddr)
  | response (targetHa : EthAddr) (targetIp : IpAddr)
  deriving DecidableEq

/-- The static variables of the class, and the frames that were sent. -/
structure State where
  arpTable : Table IpAddr EthAddr arpMaxEntries
  pending : Vector Pending arpMaxPending
  pendingEntries : Nat
  sent : List Frame

/-- `Timer_diff`. -/
def timerDiff (start current : ClockTicks) : Nat := (current - start).toNat

/-- A slot of the pending requests that is in use. -/
def Pending.active (slot : Pending) : Bool := slot.attempts ≠ -1

/-- A request slot that a reply is for: an answer about the own address counts only if it gives
another Ethernet address. -/
def answeredBy (host : Host) (ah : ArpHeader) (slot : Pending) : Bool :=
  slot.active && ah.senderIp = slot.target &&
    (ah.senderIp ≠ host.myIpAddr || ah.senderHa ≠ host.myEthAddr)

namespace State

def clearPendingTable (arp : State) : State :=
  { arp with pending := arp.pending.map fun slot => { slot with attempts := -1 }
             pendingEntries := 0 }

/-- `Arp::init`, with MTCPSLIP set or not. The table has no entries before. -/
def init (host : Host) (slip : Bool) (slots : Vector (Slot IpAddr EthAddr) arpMaxEntries)
    (pending : Vector Pending arpMaxPending) (now : Nat) : Except Stop State := do
  let arp := clearPendingTable ⟨⟨slots, 0⟩, pending, 0, []⟩
  if slip then
    let slots ← put slots 0 ⟨host.gateway, ethBroadcast, now⟩
    return { arp with arpTable := ⟨slots, 1⟩ }
  else return arp

def findEth (arp : State) (targetIp : IpAddr) : Except Stop (Option Nat) :=
  find id arp.arpTable targetIp

def updateEntry (arp : State) (index : Nat) (newEthAddr : EthAddr) (now : Nat) :
    Except Stop State := do
  let arpTable ← CacheTable.updateEntry arp.arpTable index newEthAddr now
  return { arp with arpTable }

def updateOrAddCache (arp : State) (newEthAddr : EthAddr) (newIpAddr : IpAddr) (now : Nat) :
    Except Stop State := do
  let arpTable ← updateOrAdd id arp.arpTable newIpAddr newEthAddr now
  return { arp with arpTable }

def sendArpRequest2 (arp : State) (targetIp : IpAddr) : State :=
  { arp with sent := arp.sent ++ [.request targetIp] }

def sendArpResponse (arp : State) (ah : ArpHeader) : State :=
  { arp with sent := arp.sent ++ [.response ah.senderHa ah.senderIp] }

/-- The first slot that is not in use, or the end of the table. -/
def emptySlot (arp : State) : Nat := arp.pending.toList.findIdx fun slot => !slot.active

def sendArpRequest (arp : State) (targetIp : IpAddr) (ticks : ClockTicks) : Except Stop State :=
  if arp.pending.toList.any fun slot => slot.active && slot.target = targetIp then return arp
  else if arp.pendingEntries = arpMaxPending then return arp
  else do
    let pending ← put arp.pending arp.emptySlot ⟨targetIp, ticks, 0⟩
    return sendArpRequest2
      { arp with pending, pendingEntries := (arp.pendingEntries + 1) % 65536 } targetIp

def resolve (arp : State) (targetIp : IpAddr) (ticks : ClockTicks) :
    Except Stop (Option EthAddr × State) := do
  match ← arp.findEth targetIp with
  | some index =>
    let slot ← fetch arp.arpTable.slots index
    return (some slot.value, arp)
  | none =>
    let arp ← arp.sendArpRequest targetIp ticks
    return (none, arp)

/-- An update of an entry that is there. -/
def correct (arp : State) (ip : IpAddr) (newEthAddr : EthAddr) (now : Nat) :
    Except Stop State := do
  match ← arp.findEth ip with
  | some index => arp.updateEntry index newEthAddr now
  | none => return arp

/-- `pending[i].attempts = -1; pendingEntries--;` -/
def release (arp : State) (index : Nat) : Except Stop State := do
  let slot ← fetch arp.pending index
  let pending ← put arp.pending index { slot with attempts := -1 }
  return { arp with pending, pendingEntries := (arp.pendingEntries + 65535) % 65536 }

/-- `Arp::processArp`; the clock is read at most twice. -/
def processArp (host : Host) (arp : State) (ah : ArpHeader) (now later : Nat) :
    Except Stop State :=
  if ah.operation = 1 then
    if ah.targetIp = host.myIpAddr ∧ ah.senderIp ≠ host.myIpAddr then do
      let arp ← arp.updateOrAddCache ah.senderHa ah.senderIp now
      return arp.sendArpResponse ah
    else return arp
  else if ah.operation = 2 then
    match arp.pending.toList.findIdx? (answeredBy host ah) with
    | some index => do
      let arp ← arp.updateOrAddCache ah.senderHa ah.senderIp now
      arp.release index
    | none => do
      let arp ← arp.correct ah.targetIp ah.targetHa now
      arp.correct ah.senderIp ah.senderHa later
  else return arp

/-- The body of the loop of `Arp::driveArp2`. -/
def driveSlot (arp : State) (index : Nat) (current : ClockTicks) : Except Stop State := do
  let slot ← fetch arp.pending index
  if !slot.active then return arp
  else if slot.attempts = arpRetries then arp.release index
  else if timerDiff slot.start current > arpTimeout then
    let pending ← put arp.pending index
      { slot with start := current, attempts := slot.attempts + 1 }
    return sendArpRequest2 { arp with pending } slot.target
  else return arp

/-- The loop of `Arp::driveArp2`, with the reading of the timer at each slot. -/
def driveFrom (ticks : Nat → ClockTicks) (arp : State) : Nat → Nat → Except Stop State
  | 0, _ => return arp
  | remaining + 1, index => do
    let arp ← arp.driveSlot index (ticks index)
    driveFrom ticks arp remaining (index + 1)

/-- `Arp::driveArp`. -/
def driveArp (arp : State) (ticks : Nat → ClockTicks) : Except Stop State :=
  if arp.pendingEntries = 0 then return arp else driveFrom ticks arp arpMaxPending 0

/-- `IpHeader::setDestEth`. -/
def setDestEth (host : Host) (arp : State) (ipDest : IpAddr) (ticks : ClockTicks) :
    Except Stop (Option EthAddr × State) :=
  if ipDest = ipBroadcastNonRoutable then return (some ethBroadcast, arp)
  else if host.myIpAddr &&& host.netmask ≠ ipDest &&& host.netmask then
    arp.resolve host.gateway ticks
  else if ipDest &&& ~~~host.netmask = ~~~host.netmask then return (some ethBroadcast, arp)
  else arp.resolve ipDest ticks

end State

/-- What happens to the class: a packet is to be sent, the own address is asked for (as
`Utils::initStack` does), a packet has arrived, the old requests are driven, or they are dropped. -/
inductive Event where
  | send (ipDest : IpAddr) (ticks : ClockTicks)
  | probe (ticks : ClockTicks)
  | packet (ah : ArpHeader) (now later : Nat)
  | drive (ticks : Nat → ClockTicks)
  | clear

/-- An event, and the Ethernet address that a packet to be sent was given. -/
def step (host : Host) (arp : State) : Event → Except Stop (Option EthAddr × State)
  | .send ipDest ticks => arp.setDestEth host ipDest ticks
  | .probe ticks => arp.resolve host.myIpAddr ticks
  | .packet ah now later => do
    let arp ← arp.processArp host ah now later
    return (none, arp)
  | .drive ticks => do
    let arp ← arp.driveArp ticks
    return (none, arp)
  | .clear => return (none, arp.clearPendingTable)

end Nosgem.Arp
