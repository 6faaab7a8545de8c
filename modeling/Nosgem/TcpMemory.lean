/-
This file shows that no packet makes the receiving side of a socket read or write
outside of its memory, whatever its header says. The length of the data is the
difference of two lengths that the sender chose, cut to 16 bits; when the header
claims to be longer than its packet the difference is close to 65536, and no
receive buffer has room for it.

What a packet can still do is in the options of a SYN: `TcpHeader::readMSS`
stops only at the exact end of the options.
-/

import Nosgem.TcpStream

namespace Nosgem.Tcp

open CText Buffers Circular

/-! ### Lengths -/

/-- A packet whose payload, as its IP header gives it, lies in the packet's buffer. -/
structure Packet.InBuffer (packet : Packet) : Prop where
  inside : packet.payloadLen ≤ packet.memory.length
  small : packet.payloadLen < 65536

/-- The data of a packet lies in its buffer, or is longer than every receive buffer. -/
theorem Packet.InBuffer.fits {packet : Packet} (inBuffer : packet.InBuffer) :
    packet.incomingDataLen ≤ packet.userData.length ∨ 16384 < packet.incomingDataLen := by
  obtain ⟨inside, small⟩ := inBuffer
  have short : packet.header.tcpHlen < 64 := by
    have byte := (packet.memory.getD 12 0).toNat_lt
    show (packet.memory.getD 12 0).toNat / 4 < 64
    omega
  rw [userData, List.length_drop, incomingDataLen, toUint16]
  omega

/-! ### Receive buffers -/

section Inbounds

variable {rcvBufSize : Nat}

/-- The receive buffer, if there is one, holds some bytes. -/
def Inbound.Sound (inbound : Inbound rcvBufSize) : Prop :=
  ∀ buffer, inbound.rcvBuffer = some buffer → ∃ waiting, buffer.Holds waiting

variable {inbound after : Inbound rcvBufSize} {packet : Packet}

theorem Inbound.Sound.takes (sound : inbound.Sound) (small : rcvBufSize ≤ 16384)
    (inBuffer : packet.InBuffer) (takes : TakesData packet inbound after) : after.Sound := by
  cases takes with
  | tossed _ => exact sound
  | queued _ => exact sound
  | @stored buffer longer _ here adds =>
    obtain ⟨waiting, holds⟩ := sound buffer here
    intro buffer' here'
    obtain rfl : longer = buffer' := Option.some.inj here'
    have room : waiting.length + packet.incomingDataLen ≤ rcvBufSize := by
      by_contra full
      rw [ReceiveBuffer.addToRcvBuf_full holds (by omega)] at adds
      cases adds
    obtain ⟨stored, adds', holds'⟩ := ReceiveBuffer.addToRcvBuf_room holds room
      (inBuffer.fits.resolve_right (by omega))
    rw [adds'] at adds
    obtain rfl : stored = longer := Option.some.inj (Except.ok.inj adds)
    exact ⟨_, holds'⟩

theorem Inbound.Sound.receives (sound : inbound.Sound) (small : rcvBufSize ≤ 16384)
    (inBuffer : packet.InBuffer) (receives : Receives packet inbound after) : after.Sound := by
  cases receives with
  | keeps => exact sound
  | resets => exact fun _ none => by cases none
  | opens _ _ => exact sound
  | @accepts middle _ _ _ _ takes turns =>
    have middleSound : middle.Sound := by
      rcases takes with ⟨-, rfl⟩ | takes
      · exact sound
      · exact sound.takes small inBuffer takes
    cases turns <;> exact middleSound

/-! ### Single steps -/

/-- The packets of a run lie in their buffers. -/
def Event.InBuffer : Event → Prop
  | .packet _ _ _ received => received.InBuffer
  | _ => True

variable {sock next : TcpSocket rcvBufSize}

theorem TcpSocket.recv_sound {arp : Bool} {userBufLen : Nat} {answer : Int} {bytes : Text}
    (sound : sock.inbound.Sound)
    (receives : sock.recv arp userBufLen = .ok (answer, bytes, next)) : next.inbound.Sound := by
  rcases recv_spec receives with ⟨-, rfl, -⟩ | ⟨-, buffer, taken, here, got, same, -⟩
  · exact sound
  · obtain ⟨waiting, holds⟩ := sound buffer here
    obtain ⟨taken', got', holds'⟩ := ReceiveBuffer.recv_holds holds userBufLen
    obtain ⟨-, rfl⟩ := Prod.mk.inj (Except.ok.inj (got.symm.trans got'))
    rw [same]
    intro buffer' here'
    obtain rfl : taken = buffer' := Option.some.inj here'
    exact ⟨_, holds'⟩

theorem TcpSocket.closeLocal_sound (sound : sock.inbound.Sound) :
    sock.closeLocal.inbound.Sound := by
  obtain ⟨phase, same, -⟩ := sock.closeLocal_inbound
  rw [same]
  exact sound

/-- The step lemma: after every event the receive buffer holds some bytes, if there is one. -/
theorem TcpSocket.step_sound {event : Event} {got : Text} (small : rcvBufSize ≤ 16384)
    (sound : sock.inbound.Sound) (inBuffer : event.InBuffer)
    (steps : sock.step event = .ok (got, next)) : next.inbound.Sound := by
  cases event with
  | packet fuel now arp packet =>
    obtain ⟨after, processed, done⟩ := bind_eq_ok steps
    cases done
    exact sound.receives small inBuffer (process_spec processed)
  | drivePackets now arp =>
    cases steps
    rcases sock.drivePackets_inbound now arp with same | same <;> rw [same]
    · exact sound
    · exact fun _ none => by cases none
  | recv arp userBufLen =>
    obtain ⟨⟨answer, bytes, after⟩, received, done⟩ := bind_eq_ok steps
    cases done
    exact recv_sound sound received
  | send fuel userBuf =>
    unfold step at steps
    dsimp only at steps
    split at steps
    · cases steps
    · cases steps
      rw [send_inbound ‹_›]
      exact sound
  | closeNonblocking now =>
    cases steps
    have started : { sock with
        closeStarted := if sock.closeStarted = 0 then now else sock.closeStarted }.inbound.Sound :=
      sound
    exact closeLocal_sound started
  | isCloseDone now =>
    cases steps
    have destroyed : sock.destroy.inbound.Sound := by
      rw [destroy_inbound]
      exact fun _ none => by cases none
    unfold isCloseDone
    split
    · exact destroyed
    · split
      · exact sound
      · exact destroyed
  | shutdown how =>
    cases steps
    have disabled : { sock with disableReads := true }.inbound.Sound := sound
    unfold shutdown
    split
    · exact disabled
    · exact closeLocal_sound sound
    · exact closeLocal_sound disabled
    · exact sound

/-- The run lemma. -/
theorem Runs.sound {last : TcpSocket rcvBufSize} {events : List Event} {bytes : Text}
    (runs : Runs sock events bytes last) (small : rcvBufSize ≤ 16384)
    (inBuffer : ∀ event ∈ events, event.InBuffer) (sound : sock.inbound.Sound) :
    last.inbound.Sound := by
  induction runs with
  | refl sock => exact sound
  | step steps _ inductionHypothesis =>
    exact inductionHypothesis (fun event member => inBuffer event (List.mem_cons_of_mem _ member))
      (TcpSocket.step_sound small sound (inBuffer _ List.mem_cons_self) steps)

/-! ### Accesses -/

/-- Data that lies in its packet is taken or refused. -/
theorem TcpSocket.processPacketData_returns (sound : sock.inbound.Sound)
    (small : rcvBufSize ≤ 16384) (inBuffer : packet.InBuffer) :
    ∃ result, sock.processPacketData packet = .ok result := by
  unfold processPacketData
  dsimp only
  split
  · exact ⟨_, rfl⟩
  · split
    · split <;> exact ⟨_, rfl⟩
    · rename_i buffer here
      obtain ⟨waiting, holds⟩ := sound buffer here
      by_cases room : waiting.length + packet.incomingDataLen ≤ rcvBufSize
      · obtain ⟨stored, adds, -⟩ := ReceiveBuffer.addToRcvBuf_room holds room
          (inBuffer.fits.resolve_right (by omega))
        rw [adds]
        exact ⟨_, rfl⟩
      · rw [ReceiveBuffer.addToRcvBuf_full holds (by omega)]
        exact ⟨_, rfl⟩

theorem TcpSocket.processSynSent_returns (sock : TcpSocket rcvBufSize) (fuel now : Nat) (arp : Bool)
    (packet : Packet) :
    (∃ result, sock.processSynSent fuel now arp packet = .ok result) ∨
      (packet.header.codeBits.syn ∧ ∃ stop, readMSS fuel packet = .error stop) := by
  by_cases syn : packet.header.codeBits.syn
  · cases read : readMSS fuel packet with
    | error stop => exact .inr ⟨syn, stop, rfl⟩
    | ok remoteMSS =>
      refine .inl ?_
      unfold processSynSent setMaxEnqueueSize
      rw [read]
      dsimp only
      split_ifs <;> exact ⟨_, rfl⟩
  · refine .inl ?_
    unfold processSynSent
    dsimp only
    split_ifs <;> exact ⟨_, rfl⟩

theorem TcpSocket.processAcceptable_returns (sound : sock.inbound.Sound)
    (small : rcvBufSize ≤ 16384) (inBuffer : packet.InBuffer) (now : Nat) (arp : Bool) :
    ∃ result, sock.processAcceptable now arp packet = .ok result := by
  unfold processAcceptable
  dsimp only
  split
  · have acked : (sock.processAck now packet).inbound.Sound := by
      rwa [processAck_inbound]
    obtain ⟨⟨playDead, after⟩, processed⟩ := processPacketData_returns acked small inBuffer
    rw [processed, ok_bind]
    dsimp only
    split <;> exact ⟨_, rfl⟩
  · exact ⟨_, rfl⟩

/-- Only the options of a SYN can lead astray. -/
theorem TcpSocket.process_returns (sound : sock.inbound.Sound) (small : rcvBufSize ≤ 16384)
    (inBuffer : packet.InBuffer) (fuel now : Nat) (arp : Bool) :
    (∃ after, sock.process fuel now arp packet = .ok after) ∨
      (sock.state = .synSent ∧ packet.header.codeBits.syn ∧
        ∃ stop, readMSS fuel packet = .error stop) := by
  have branches : (∃ result, sock.processBranches fuel now arp packet = .ok result) ∨
      (sock.state = .synSent ∧ packet.header.codeBits.syn ∧
        ∃ stop, readMSS fuel packet = .error stop) := by
    unfold processBranches
    split
    · rename_i opening
      exact (sock.processSynSent_returns fuel now arp packet).imp id fun wrong => ⟨opening, wrong⟩
    · refine .inl ?_
      split
      · split <;> exact ⟨_, rfl⟩
      · split
        · exact processAcceptable_returns sound small inBuffer now arp
        · exact ⟨_, rfl⟩
  unfold process
  split
  · exact .inl ⟨_, rfl⟩
  · refine branches.imp (fun returns => ?_) id
    obtain ⟨⟨generatePkt, after⟩, processed⟩ := returns
    rw [process2, processed]
    exact ⟨_, rfl⟩

theorem TcpSocket.recv_returns (sound : sock.inbound.Sound) (arp : Bool) (userBufLen : Nat) :
    ∃ result, sock.recv arp userBufLen = .ok result := by
  unfold recv
  split
  · exact ⟨_, rfl⟩
  · split
    · exact ⟨_, rfl⟩
    · rename_i buffer here
      split
      · exact ⟨_, rfl⟩
      · obtain ⟨waiting, holds⟩ := sound buffer here
        obtain ⟨taken, got, -⟩ := ReceiveBuffer.recv_holds holds userBufLen
        rw [got]
        exact ⟨_, rfl⟩

end Inbounds

/-! ### Every run -/

theorem Connecting.sound {rcvBufSize : Nat} {sock : TcpSocket rcvBufSize}
    (connecting : Connecting sock) : sock.inbound.Sound := by
  obtain ⟨-, -, buffer, here, holds⟩ := connecting
  intro buffer' here'
  obtain rfl : buffer = buffer' := Option.some.inj (here.symm.trans here')
  exact ⟨[], holds⟩

/-- After any run over any packets, the next packet is processed and the next call of
`TcpSocket::recv` answered without an access outside of the receive buffer or of the packet; only
the options of a SYN that is awaited may lead `TcpHeader::readMSS` astray. -/
theorem runs_inside {rcvBufSize : Nat} (small : rcvBufSize ≤ 16384)
    {sock last : TcpSocket rcvBufSize} {events : List Event} {bytes : Text}
    (connecting : Connecting sock) (runs : Runs sock events bytes last)
    (inBuffer : ∀ event ∈ events, event.InBuffer) :
    (∀ (packet : Packet) (fuel now : Nat) (arp : Bool), packet.InBuffer →
      (∃ after, last.process fuel now arp packet = .ok after) ∨
        (last.state = .synSent ∧ packet.header.codeBits.syn ∧
          ∃ stop, readMSS fuel packet = .error stop)) ∧
    ∀ (arp : Bool) (userBufLen : Nat), ∃ result, last.recv arp userBufLen = .ok result := by
  have sound := runs.sound small inBuffer connecting.sound
  exact ⟨fun packet fuel now arp fits => TcpSocket.process_returns sound small fits fuel now arp,
    fun arp userBufLen => TcpSocket.recv_returns sound arp userBufLen⟩

/-- A header that claims 60 bytes in a packet of 20. -/
def shortHeader : Packet := ⟨[0, 0, 0, 0, 0, 0, 0, 101, 0, 0, 0, 1, 240, 16, 1, 0, 0, 0, 0, 0], 20⟩

theorem runs_inside_short : shortHeader.incomingDataLen = 65496 ∧ ∃ last after,
    Runs shortSocket shortEvents (text "ok") last ∧
      last.process 9 0 false shortHeader = .ok after := by
  obtain ⟨last, runs, state, -⟩ := shortEvents_run
  have inBuffer : ∀ event ∈ shortEvents, event.InBuffer := by
    simp only [shortEvents, List.forall_mem_cons]
    exact ⟨trivial, ⟨by decide, by decide⟩, ⟨by decide, by decide⟩, ⟨by decide, by decide⟩,
      ⟨by decide, by decide⟩, trivial, List.forall_mem_nil _⟩
  have returns := (runs_inside (by decide) shortSocket_connecting runs inBuffer).1 shortHeader 9 0
    false ⟨by decide, by decide⟩
  obtain ⟨after, processed⟩ := returns.resolve_right fun wrong => by
    rw [state] at wrong
    exact absurd wrong.1 (by decide)
  exact ⟨by decide, last, after, runs, processed⟩

end Nosgem.Tcp
