import UnixHomework.Ports.EchoFrame

/-!
# The echo client

The client's loop builds a frame for each input line, sends it, and unless the
line says `CLOSE` waits for one frame, which it prints if that frame passes
its filter.  As in the server, `none` is an access outside an array.
-/

namespace UnixHomework.Ports.Echo

open UnixHomework.Verified

/-- The client's command line. -/
structure ClientConfig where
  clientIp : CharArray 4
  serverIp : CharArray 4
  clientMac : CharArray 6
  serverMac : CharArray 6

/-! ## The request -/

def requestEth (cfg : ClientConfig) (b : Buffer) : Option Buffer :=
  ethHeader cfg.serverMac.bytes cfg.clientMac.bytes b

def requestIp (cfg : ClientConfig) (length : Nat) (b : Buffer) :
    Option Buffer := do
  let b ← ipHeader 54321 length b
  let b ← b.write? (ethHlen + 12) cfg.clientIp.bytes
  let b ← b.write? (ethHlen + 16) cfg.serverIp.bytes
  ipCheck b

def requestUdp (length : Nat) (b : Buffer) : Option Buffer := do
  let off ← udpOffset b
  let b ← b.write? off (htons clientPort)
  let b ← b.write? (off + 2) (htons serverPort)
  let b ← b.write? (off + 4) (htons (sizeofUdphdr + length))
  b.write? (off + 6) [0, 0]

/-- `memcpy` of the line and the NUL behind it. -/
def requestData (line : List UInt8) (b : Buffer) : Option Buffer := do
  let off ← udpOffset b
  let b ← b.write? (off + sizeofUdphdr) line
  b.write? (off + sizeofUdphdr + line.length) [0]

/-- The first half of the loop: the frame given to `sendto`, and the buffer,
which the reply will be received in. -/
def clientSend (cfg : ClientConfig) (b : Buffer) (line : List UInt8) :
    Option (Buffer × List UInt8) := do
  let b ← requestEth cfg b
  let b ← requestIp cfg line.length b
  let b ← requestUdp line.length b
  let b ← requestData line b
  let totLen ← b.read? (ethHlen + 2) 2
  let frame ← b.read? 0 (ethHlen + ntohs totLen)
  some (b, frame)

/-! ## The reply -/

/-- The second half of the loop, on a frame received: the text printed, if
any. -/
def clientReceive (b : Buffer) (frame : List UInt8) :
    Option (Option (List UInt8)) :=
  let (b, bytes) := recvfrom b frame
  if bytes < ethHlen + sizeofIphdr then some none
  else do
    let protocol ← b.read? (ethHlen + 9) 1
    if protocol ≠ [17] then some none
    else do
      let vihl ← b.read? ethHlen 1
      let ipLen := headerLength vihl
      let udp := ethHlen + ipLen
      let source ← b.read? udp 2
      let dest ← b.read? (udp + 2) 2
      if ntohs source ≠ serverPort ∨ ntohs dest ≠ clientPort then some none
      else do
        let dataLen : Int := bytes - ethHlen - ipLen - sizeofUdphdr
        if 0 < dataLen then do
          let data := udp + sizeofUdphdr
          let b ← b.write? (data + dataLen.toNat) [0]
          some (some (b.strAt data))
        else some none

end UnixHomework.Ports.Echo
