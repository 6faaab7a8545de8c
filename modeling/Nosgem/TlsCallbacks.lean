/-
This file models the two callbacks through which the TLS library reaches the TCP
socket: `nos_tls_recv` and `nos_tls_send` of `tls_io.cpp`. They are programs
over the operations of the socket and of packet processing; what a socket
answers is left to the environments they are run against. An `int` has 16 bits,
and so have the lengths that the socket takes and returns.
-/

import Nosgem.CText
import Nosgem.Interaction

namespace Nosgem

open CText Interaction

/-! ### The socket -/

/-- What the callbacks call: the methods of the socket, the processing of packets, and the
comparison of the timer with the start of a call. -/
inductive SockOp where
  | recv (userBufLen : Nat)
  | isRemoteClosed
  | isClosed
  | getSuggestedSendSize
  | send (userBuf : Text)
  | packetProcess
  | drivePackets
  | timedOut
  deriving DecidableEq, Repr

/-- The answers: `recv` gives the bytes it stored, `send` what it returns. -/
abbrev SockAnswer : SockOp → Type
  | .recv _ => Text
  | .isRemoteClosed => Bool
  | .isClosed => Bool
  | .getSuggestedSendSize => Nat
  | .send _ => Int
  | .packetProcess => Unit
  | .drivePackets => Unit
  | .timedOut => Bool

/-- Programs that work on a socket. -/
abbrev SockIo (Result : Type) : Type := Prog SockAnswer Result

/-- A call of the socket. -/
def onSock (op : SockOp) : SockIo (SockAnswer op) := perform op

/-! ### Integers of 16 bits -/

/-- `(uint16_t)sz`. -/
def toUint16 (value : Int) : Nat := (value % 65536).toNat

/-- `(int16_t)value`. -/
def toInt16 (value : Nat) : Int :=
  if value % 65536 < 32768 then value % 65536 else value % 65536 - 65536

/-- The sizes of the buffers: the positive values of an `int`. -/
def IsSize (sz : Int) : Prop := 0 < sz ∧ sz < 32768

theorem toUint16_size {sz : Int} (isSize : IsSize sz) : (toUint16 sz : Int) = sz := by
  unfold toUint16 IsSize at *
  omega

theorem toInt16_small {value : Nat} (small : value < 32768) : toInt16 value = value := by
  unfold toInt16
  omega

/-! ### The callbacks -/

/-- `WOLFSSL_CBIO_ERR_GENERAL`. -/
def cbioErrGeneral : Int := -1

/-- `WOLFSSL_CBIO_ERR_WANT_READ`. -/
def cbioErrWantRead : Int := -2

/-- `WOLFSSL_CBIO_ERR_WANT_WRITE`. -/
def cbioErrWantWrite : Int := -2

/-- `WOLFSSL_CBIO_ERR_CONN_CLOSE`. -/
def cbioErrConnClose : Int := -5

/-- `TCP_RC_BAD`. -/
def tcpRcBad : Int := -1

/-- `TCP_RC_NO_XMIT_BUFFERS`. -/
def tcpRcNoXmitBuffers : Int := -2

/-- `nos_tls_recv`, its loop unrolled `fuel` times: what it returns, and what it stores in the
buffer. -/
def nosTlsRecv (fuel : Nat) (sz : Int) : SockIo (Int × Text) := do
  let got ← onSock (.recv (toUint16 sz))
  if toInt16 got.length > 0 then return (toInt16 got.length, got)
  if ← onSock .isRemoteClosed then return (cbioErrConnClose, got)
  loop (fun _ => do
    onSock .packetProcess
    onSock .drivePackets
    let got ← onSock (.recv (toUint16 sz))
    if toInt16 got.length > 0 then return .inr (toInt16 got.length, got)
    if ← onSock .isRemoteClosed then return .inr (cbioErrConnClose, got)
    if ← onSock .timedOut then return .inr (cbioErrWantRead, got)
    return .inl ()) fuel ()

/-- `nos_tls_send` for the first `sz` bytes of a buffer. -/
def nosTlsSend (buf : Text) (sz : Int) : SockIo Int := do
  if ← onSock .isClosed then return cbioErrConnClose
  let canSend ← onSock .getSuggestedSendSize
  if canSend = 0 then
    onSock .packetProcess
    onSock .drivePackets
    return cbioErrWantWrite
  let sz := if toUint16 sz > canSend then toInt16 canSend else sz
  let sent ← onSock (.send (buf.take (toUint16 sz)))
  if sent = sz then
    onSock .packetProcess
    onSock .drivePackets
    return sent
  if sent = tcpRcNoXmitBuffers then return cbioErrWantWrite
  return cbioErrGeneral

end Nosgem
