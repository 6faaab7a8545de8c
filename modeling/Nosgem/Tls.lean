/-
This file models the connection side of `tls_io.cpp`: name resolution, the TCP
connect with its polling loop, the TLS handshake with its ladder of cleanups,
and the close. The receive and send callbacks run inside wolfSSL and are not
part of it. The two polling loops are unrolled `fuel` times and then cut.
-/

import Nosgem.Platform

namespace Nosgem

open CText Interaction

/-- `nos_tls_ctx_t`. -/
structure NosTlsCtx where
  ctx : Option WolfCtx
  ssl : Option WolfSsl
  tcpSock : Option TcpSocket
  deriving DecidableEq, Repr

/-- `memset(c, 0, sizeof(*c))`. -/
def NosTlsCtx.zero : NosTlsCtx := ⟨none, none, none⟩

/-- The loop of `nos_dns_resolve`: poll until resolved or timed out. -/
def awaitDns (fuel : Nat) : Io Unit :=
  loop (fun _ => do
    if ← invoke .dnsIsQueryPending then
      invoke .drivePackets
      return .inl ()
    else return .inr ()) fuel ()

/-- `nos_dns_resolve`. -/
def nosDnsResolve (fuel : Nat) (host : Text) : Io Int := do
  if (← invoke (.dnsResolve host true)) < 0 then return -1
  awaitDns fuel
  if (← invoke (.dnsResolve host false)) ≠ 0 then return -1
  return 0

/-- The loop of `nos_tls_connect`: poll until connected or timed out. -/
def awaitConnect (fuel : Nat) (sock : TcpSocket) : Io Int :=
  loop (fun _ => do
    invoke .drivePackets
    if ← invoke (.isConnectComplete sock) then return .inr 0
    if ← invoke (.isClosed sock) then return .inr (-1)
    if ← invoke .connectTimedOut then return .inr (-1)
    return .inl ()) fuel ()

/-- The label `fail_tcp`. -/
def failTcp (sock : TcpSocket) (c : NosTlsCtx) : Io (Int × NosTlsCtx) := do
  invoke (.socketClose sock)
  invoke (.freeSocket sock)
  return (-1, { c with tcpSock := none })

/-- The label `fail_ctx`. -/
def failCtx (ctx : WolfCtx) (sock : TcpSocket) (c : NosTlsCtx) : Io (Int × NosTlsCtx) := do
  invoke (.ctxFree ctx)
  failTcp sock { c with ctx := none }

/-- The label `fail_ssl`. -/
def failSsl (ssl : WolfSsl) (ctx : WolfCtx) (sock : TcpSocket) (c : NosTlsCtx) :
    Io (Int × NosTlsCtx) := do
  invoke (.sslFree ssl)
  failCtx ctx sock { c with ssl := none }

/-- The second half of `nos_tls_connect`, from the wolfSSL context on. -/
def handshake (sock : TcpSocket) (host : Text) : Io (Int × NosTlsCtx) := do
  let c : NosTlsCtx := { NosTlsCtx.zero with tcpSock := some sock }
  if !(← invoke .clientMethod) then return ← failTcp sock c
  let some ctx ← invoke .ctxNew | failTcp sock c
  let c := { c with ctx := some ctx }
  invoke (.ctxSetup ctx)
  let some ssl ← invoke (.sslNew ctx) | failCtx ctx sock c
  let c := { c with ssl := some ssl }
  invoke (.sslSetup ssl host)
  if !(← invoke (.sslConnect ssl)) then
    invoke (.sslDiagnose ssl)
    return ← failSsl ssl ctx sock c
  return (0, c)

/-- `nos_tls_connect`: the result and the context it fills. -/
def nosTlsConnect (fuel : Nat) (host : Text) (port : Nat) : Io (Int × NosTlsCtx) := do
  if (← nosDnsResolve fuel host) ≠ 0 then return (-1, .zero)
  let some sock ← invoke .getSocket | return (-1, .zero)
  if ← invoke (.setRecvBuffer sock) then
    invoke (.freeSocket sock)
    return (-1, .zero)
  if ← invoke (.connectNonBlocking sock (port % 65536)) then
    invoke (.freeSocket sock)
    return (-1, .zero)
  if (← awaitConnect fuel sock) ≠ 0 then
    invoke (.socketClose sock)
    invoke (.freeSocket sock)
    return (-1, .zero)
  handshake sock host

/-- `nos_tls_close`: the context it leaves behind. -/
def nosTlsClose (c : NosTlsCtx) : Io NosTlsCtx := do
  if let some ssl := c.ssl then
    invoke (.sslShutdown ssl)
    invoke (.sslFree ssl)
  if let some ctx := c.ctx then
    invoke (.ctxFree ctx)
  if let some sock := c.tcpSock then
    invoke (.socketClose sock)
    invoke (.freeSocket sock)
  return .zero

end Nosgem
