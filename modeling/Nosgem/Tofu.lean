/-
This file models `tofu.c`, the trust-on-first-use store: the fingerprint of the
peer's certificate, the trust prompt, the two loops over the lines of
`known_hosts.txt`, the rewrite of the file through a temporary one, and the
policy that ties them together.

The loops read the file in the pieces `fgets` delivers into a buffer of 512
bytes and treat every piece as a C string. The key buffer of 256 bytes is not
checked by the source; the model keeps the whole key, so it speaks about the
source where the text of the key fits.
-/

import Nosgem.Platform

namespace Nosgem

open CText Interaction

/-! ### The source functions -/

/-- `set_err`: the message as the buffer of `errMax` bytes keeps it. -/
def tofuErr (errMax : Nat) (message : String) : Text := (text message).take (errMax - 1)

/-- `str_ieq`. -/
def strIEq : Text → Text → Bool
  | [], [] => true
  | a :: as, b :: bs => toLower a == toLower b && strIEq as bs
  | _, _ => false

/-- `rstrip_newline` on the C string in a buffer. -/
def rstripNewline (s : Text) : Text :=
  ((cString s).reverse.dropWhile fun c => c == lf || c == cr).reverse

/-- The loop of `compute_peer_fingerprint`: `%02X` for every byte. -/
def fingerprintText (hash : Digest) : Text :=
  hash.toList.flatMap fun c => [hexDigit (c.toNat / 16), hexDigit (c.toNat % 16)]

/-- `compute_peer_fingerprint`, nothing where it returns -1. -/
def computePeerFingerprint (ssl : WolfSsl) : Io (Option Text) := do
  let some der ← invoke (.peerCertificate ssl) | return none
  let some hash ← invoke (.sha256 der) | return none
  return some (fingerprintText hash)

/-- `line[0] == 'y' || line[0] == 'Y'`. -/
def saysYes (line : Text) : Bool :=
  line.head? == some (byte 'y') || line.head? == some (byte 'Y')

/-- `prompt_trust`. -/
def promptTrust (hostport fp : Text) : Io Bool := do
  invoke (.print (text "TLS fingerprint for " ++ hostport ++ text ":\n"))
  invoke (.print (text "SHA256 " ++ fp ++ text "\n"))
  invoke (.print (text "Trust and save? (y/N): "))
  match ← invoke (.fgetsStdin 16) with
  | none => return false
  | some line => return saysYes line.bytes

/-- The size of the line buffers of both loops. -/
def lineSize : Nat := 512

/-- The pieces a reading loop sees of a file that may be missing. -/
def storePieces (store : Option Text) : List Text :=
  match store with
  | none => []
  | some stream => pieces lineSize stream

/-- `hostportTok`, `algoTok` and `fpTok`. -/
structure KnownHost where
  hostport : Text
  algo : Text
  fp : Text
  deriving DecidableEq, Repr

/-- `sscanf(line, "%255s %31s %127s", ...) == 3`. -/
def scanKnownHost (line : Text) : Option KnownHost :=
  match scanWord 255 line with
  | none => none
  | some (hostport, rest) =>
    match scanWord 31 rest with
    | none => none
    | some (algo, rest) =>
      match scanWord 127 rest with
      | none => none
      | some (fp, _) => some ⟨hostport, algo, fp⟩

def hash : Byte := byte '#'

/-- `fprintf(out, "%s SHA256 %s\n", hostport, fp)`. -/
def recordText (hostport fp : Text) : Text :=
  hostport ++ text " SHA256 " ++ fp ++ [lf]

/-- The loop of `update_known_hosts_file` over the pieces of the old file; the result is
`replaced`. -/
def copyKnownHosts (hostport fp : Text) : List Text → (replaced : Bool) → Io Bool
  | [], replaced => return replaced
  | line :: rest, replaced => do
    let lineCopy := rstripNewline line
    if lineCopy = [] ∨ lineCopy.head? = some hash then
      let _ ← invoke (.fputs .knownHostsTmp (cString line))
      copyKnownHosts hostport fp rest replaced
    else
      match scanKnownHost lineCopy with
      | some known =>
        if strIEq known.hostport hostport then
          let _ ← invoke (.fputs .knownHostsTmp (recordText hostport fp))
          copyKnownHosts hostport fp rest true
        else
          let _ ← invoke (.fputs .knownHostsTmp (cString line))
          copyKnownHosts hostport fp rest replaced
      | none =>
        let _ ← invoke (.fputs .knownHostsTmp (cString line))
        copyKnownHosts hostport fp rest replaced

/-- `update_known_hosts_file`. -/
def updateKnownHostsFile (hostport fp : Text) : Io Int := do
  let input ← invoke (.fopenRead .knownHosts)
  if !(← invoke (.fopenWrite .knownHostsTmp .write)) then return -1
  let replaced ← copyKnownHosts hostport fp (storePieces input) false
  if !replaced then
    let _ ← invoke (.fputs .knownHostsTmp (recordText hostport fp))
  let _ ← invoke (.fclose .knownHostsTmp)
  let _ ← invoke (.remove .knownHosts)
  if !(← invoke (.rename .knownHostsTmp .knownHosts)) then return -1
  return 0

/-- The lookup loop of `check_known_host` over the pieces of the file: the first entry for the
key. -/
def findKnownHost (hostport : Text) : List Text → Option KnownHost
  | [] => none
  | line :: rest =>
    let line := rstripNewline line
    if line = [] ∨ line.head? = some hash then findKnownHost hostport rest
    else
      match scanKnownHost line with
      | some known =>
        if strIEq known.hostport hostport then some known else findKnownHost hostport rest
      | none => findKnownHost hostport rest

/-- `sprintf(hostport, "%s:%u", host, port)`. -/
def hostportText (host : Text) (port : Nat) : Text := host ++ byte ':' :: decimal port

/-- `check_known_host`: the result and the error text. -/
def checkKnownHost (host : Text) (port : Nat) (fp : Text) (errMax : Nat) : Io (Int × Text) := do
  let hostport := hostportText host port
  let store ← invoke (.fopenRead .knownHosts)
  match findKnownHost hostport (storePieces store) with
  | some known =>
    if !strIEq known.algo (text "SHA256") then
      return (-1, tofuErr errMax "unsupported fingerprint algorithm")
    if strIEq known.fp fp then return (0, [])
    invoke (.print (text "WARNING: certificate fingerprint has changed for " ++ hostport ++
      text "\n"))
    if !(← promptTrust hostport fp) then return (-1, tofuErr errMax "certificate changed")
    if (← updateKnownHostsFile hostport fp) ≠ 0 then
      return (-1, tofuErr errMax "failed to update known_hosts")
    return (0, [])
  | none =>
    if !(← promptTrust hostport fp) then return (-1, tofuErr errMax "certificate not trusted")
    if !(← invoke (.fopenWrite .knownHosts .append)) then
      return (-1, tofuErr errMax "failed to write known_hosts")
    let _ ← invoke (.fputs .knownHosts (recordText hostport fp))
    let _ ← invoke (.fclose .knownHosts)
    return (0, [])

/-- `nos_tofu_check`: the result and the error text. -/
def nosTofuCheck (ssl : Option WolfSsl) (host : Text) (port : Nat) (errMax : Nat) :
    Io (Int × Text) := do
  let some ssl := ssl | return (-1, tofuErr errMax "invalid arguments")
  let some fingerprint ← computePeerFingerprint ssl
    | return (-1, tofuErr errMax "fingerprint failed")
  let (rc, err) ← checkKnownHost host port fingerprint errMax
  if rc ≠ 0 then return (-1, err)
  return (0, err)

end Nosgem
