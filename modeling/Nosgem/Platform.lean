/-
This file declares what the browser calls and does not implement: the mTCP
stack, wolfSSL, and the C standard library's files and streams. The functions
of the browser are programs over these operations, so that the same program
text is run against every behaviour of servers, users and disks that a
statement is about.

Pointers that may be NULL are options. An answer carries the bounds its C
function documents: a read of `n` bytes delivers between one and `n` of them,
`fgets` stores fewer bytes than its buffer has and an LF only as the last one,
and a SHA-256 digest has 32 bytes.
-/

import Nosgem.Interaction
import Nosgem.CText

namespace Nosgem

open CText Interaction

/-! ### Objects -/

/-- `TcpSocket *`. -/
structure TcpSocket where
  id : Nat
  deriving DecidableEq, Repr

/-- `WOLFSSL_CTX *`. -/
structure WolfCtx where
  id : Nat
  deriving DecidableEq, Repr

/-- `WOLFSSL *`. -/
structure WolfSsl where
  id : Nat
  deriving DecidableEq, Repr

/-- The files the browser names. -/
inductive Path where
  | knownHosts
  | knownHostsTmp
  | homepage
  | bookmarks
  deriving DecidableEq, Repr

/-- How a file is opened for writing: `"w"` or `"a"`. -/
inductive WriteMode where
  | write
  | append
  deriving DecidableEq, Repr

/-! ### Answers -/

/-- What `wolfSSL_read` may leave behind: some bytes of the stream, or a result that is not
positive, for which `wolfSSL_get_error` tells why. -/
inductive ReadFailure where
  | closeNotify
  | connClosed
  | wantRead
  | error
  deriving DecidableEq, Repr

inductive ReadResult (size : Nat) where
  | data (bytes : Text) (some : bytes ≠ []) (fits : bytes.length ≤ size)
  | failed (reason : ReadFailure)

/-- A line `fgets` stores in a buffer of `size` bytes. -/
structure FgetsLine (size : Nat) where
  bytes : Text
  some : bytes ≠ []
  fits : bytes.length < size
  oneLine : lf ∉ bytes.dropLast
  deriving DecidableEq

/-- `WC_SHA256_DIGEST_SIZE` bytes. -/
abbrev Digest := Vector Byte 32

/-! ### Operations -/

/-- The calls that leave the browser's own code. -/
inductive Op where
  /-- `Dns::resolve(host, addr, sendReq)`, the address left out -/
  | dnsResolve (host : Text) (sendReq : Bool)
  /-- `Dns::isQueryPending()` -/
  | dnsIsQueryPending
  /-- `PACKET_PROCESS_MULT(5)` and the drive calls of the stack -/
  | drivePackets
  /-- `TcpSocketMgr::getSocket()` -/
  | getSocket
  /-- `sock->setRecvBuffer(NOS_TCP_RECV_BUF)`, true when it fails -/
  | setRecvBuffer (sock : TcpSocket)
  /-- `sock->connectNonBlocking(localPort, hostAddr, port)`, true when it fails -/
  | connectNonBlocking (sock : TcpSocket) (port : Nat)
  /-- `sock->isConnectComplete()` -/
  | isConnectComplete (sock : TcpSocket)
  /-- `sock->isClosed()` -/
  | isClosed (sock : TcpSocket)
  /-- `Timer_diff(start, TIMER_GET_CURRENT()) > TIMER_MS_TO_TICKS(NOS_CONNECT_TIMEOUT)` -/
  | connectTimedOut
  /-- `sock->close()` -/
  | socketClose (sock : TcpSocket)
  /-- `TcpSocketMgr::freeSocket(sock)` -/
  | freeSocket (sock : TcpSocket)
  /-- `wolfTLSv1_2_client_method() != NULL` -/
  | clientMethod
  /-- `wolfSSL_CTX_new(method)` -/
  | ctxNew
  /-- `wolfSSL_CTX_set_verify`, `wolfSSL_CTX_SetIOSend` and `wolfSSL_CTX_SetIORecv` -/
  | ctxSetup (ctx : WolfCtx)
  /-- `wolfSSL_new(ctx)` -/
  | sslNew (ctx : WolfCtx)
  /-- `wolfSSL_SetIOReadCtx`, `wolfSSL_SetIOWriteCtx` and `wolfSSL_UseSNI` for the host -/
  | sslSetup (ssl : WolfSsl) (host : Text)
  /-- `wolfSSL_connect(ssl) == WOLFSSL_SUCCESS` -/
  | sslConnect (ssl : WolfSsl)
  /-- `wolfSSL_get_error` and `wolfSSL_get_alert_history`, for the diagnostics -/
  | sslDiagnose (ssl : WolfSsl)
  /-- `wolfSSL_shutdown(ssl)` -/
  | sslShutdown (ssl : WolfSsl)
  /-- `wolfSSL_free(ssl)` -/
  | sslFree (ssl : WolfSsl)
  /-- `wolfSSL_CTX_free(ctx)` -/
  | ctxFree (ctx : WolfCtx)
  /-- `wolfSSL_write(ssl, data, strlen(data))` -/
  | sslWrite (ssl : Option WolfSsl) (data : Text)
  /-- `wolfSSL_read(ssl, buffer, size)` -/
  | sslRead (ssl : Option WolfSsl) (size : Nat)
  /-- `wolfSSL_get_peer_certificate` and `wolfSSL_X509_get_der`: the certificate, if there is one -/
  | peerCertificate (ssl : WolfSsl)
  /-- `wc_InitSha256`, `wc_Sha256Update` and `wc_Sha256Final`; nothing when the first one fails -/
  | sha256 (der : Text)
  /-- `fgets(buffer, size, stdin)` -/
  | fgetsStdin (size : Nat)
  /-- `printf` and `fputs` to the screen, and `fprintf(stderr, ...)` -/
  | print (output : Text)
  /-- `getch()`, the key that ends a pause -/
  | getch
  /-- `fopen(path, "r")`, with the text the stream delivers: what the C runtime makes of CR and
  Ctrl-Z in a text stream is left out, and the text is the same however late the program reads it -/
  | fopenRead (path : Path)
  /-- `fopen(path, "w")` or `fopen(path, "a")`, false when it fails -/
  | fopenWrite (path : Path) (mode : WriteMode)
  /-- `fputs` and `fprintf` to a file opened for writing, false when it fails -/
  | fputs (path : Path) (output : Text)
  /-- `fclose` of a file opened for writing, false when it fails -/
  | fclose (path : Path)
  /-- `remove(path)`, false when it fails -/
  | remove (path : Path)
  /-- `rename(source, target)`, false when it fails -/
  | rename (source target : Path)
  /-- the request loop calls its body callback with a chunk -/
  | callback (chunk : Text)
  /-- the flag `userAbort`, which the control-break handler sets -/
  | userAbort
  /-- an `unsigned int` in memory to which nothing was written -/
  | strayUint
  /-- the C string in memory to which nothing was written -/
  | strayText

/-- The type of the answer of an operation. -/
abbrev Answer : Op → Type
  | .dnsResolve _ _ => Int
  | .dnsIsQueryPending => Bool
  | .drivePackets => Unit
  | .getSocket => Option TcpSocket
  | .setRecvBuffer _ => Bool
  | .connectNonBlocking _ _ => Bool
  | .isConnectComplete _ => Bool
  | .isClosed _ => Bool
  | .connectTimedOut => Bool
  | .socketClose _ => Unit
  | .freeSocket _ => Unit
  | .clientMethod => Bool
  | .ctxNew => Option WolfCtx
  | .ctxSetup _ => Unit
  | .sslNew _ => Option WolfSsl
  | .sslSetup _ _ => Unit
  | .sslConnect _ => Bool
  | .sslDiagnose _ => Unit
  | .sslShutdown _ => Unit
  | .sslFree _ => Unit
  | .ctxFree _ => Unit
  | .sslWrite _ _ => Int
  | .sslRead _ size => ReadResult size
  | .peerCertificate _ => Option Text
  | .sha256 _ => Option Digest
  | .fgetsStdin size => Option (FgetsLine size)
  | .print _ => Unit
  | .getch => Unit
  | .fopenRead _ => Option Text
  | .fopenWrite _ _ => Bool
  | .fputs _ _ => Bool
  | .fclose _ => Bool
  | .remove _ => Bool
  | .rename _ _ => Bool
  | .callback _ => Unit
  | .userAbort => Bool
  | .strayUint => Nat
  | .strayText => Text

/-- A program of the browser. -/
abbrev Io (Result : Type) := Prog Answer Result

/-- The call of one operation. -/
abbrev invoke (op : Op) : Io (Answer op) := perform op

end Nosgem
