/-
# A console over UDP (`netconsole.c`)

`netconsole_poll` receives a command line into the static `rx_buf`, from where
`netconsole_read_byte` hands it on up to its terminator; `netconsole_write_string`
collects output in `tx_buf` and sends it to the peer the last command came from.

## What is proved

A packet for another address should have no effect.  But `ptpd_netif_recvfrom` is given
`rx_buf` and the peer's own address to fill in, and `check_dest_ip` comes after it.
What stays is the peer's IP address and port and the status.
-/
import Wrpc.Net.Udp
import Wrpc.Net.Sendto

namespace Wrpc.Net

open Nat

/-- `netconsole_status` -/
inductive NcStatus where
  | enabled | disabled | wait
deriving DecidableEq

/-- The statics of `netconsole.c` and of `netconsole_write_string`.  Of the address that
`ptpd_netif_recvfrom` fills in, only the MAC address is used again. -/
structure Netconsole where
  status : NcStatus
  sockMac : BitVec 48
  udpAddr : UdpAddr
  rxBuf : Mem
  /-- `cmd_rx_p`, as an index of `rx_buf` -/
  cmdRxP : Option Nat
  txBuf : Mem
  /-- `d`, as an index of `tx_buf` -/
  d : Option Nat
  len : Nat
  recLevel : Nat

/-- `UDP_END + SH_MAX_LINE_LEN + 1`, the size of the two buffers. -/
def ncBufSize : Nat := 28 + 80 + 1

/-- `netconsole_read_byte`; `none` is -1. -/
def netconsoleReadByte (nc : Netconsole) : Option Byte × Netconsole :=
  match nc.cmdRxP with
  | none => (none, nc)
  | some p =>
    if nc.rxBuf p ≠ 0 then (some (nc.rxBuf p), { nc with cmdRxP := some (p + 1) }) else (none, nc)

/-- `netconsole_poll`, from where a record has been fetched; `ptpd_netif_recvfrom` writes
the address and the buffer. -/
def netconsoleInput (ip : IpState) (nc : Netconsole) (f : Fetched) : Netconsole :=
  let nc := { nc with sockMac := f.hdr.srcmac, rxBuf := nc.rxBuf.write 0 f.data }
  let len := min f.size ncBufSize
  if len = 0 then nc
  -- wrong destination IP
  else if checkDestIp ip.myIP nc.rxBuf = false then nc
  else
    let rxBuf := nc.rxBuf.set len 0
    { nc with
      rxBuf := rxBuf
      udpAddr := { nc.udpAddr with daddr := inAddrAt rxBuf 12, dport := (rxBuf 20, rxBuf 21) }
      cmdRxP := some 28
      status := .enabled }

/-- `netconsole_poll`. -/
def netconsolePoll (o : Order) (net : NetState) (sock : Nat) (ip : IpState) (nc : Netconsole) :
    Netconsole × NetState :=
  if ip.status = .training ∨ nc.status = .disabled then (nc, net)
  else
    let r := net.recvfrom o sock ncBufSize
    match r.1 with
    | none => (nc, r.2)
    | some f => (netconsoleInput ip nc f, r.2)

/-- `if (!d) { d = &tx_buf[UDP_END]; len = 0; }` -/
def Netconsole.startLine (nc : Netconsole) : Netconsole :=
  match nc.d with
  | none => { nc with d := some 28, len := 0 }
  | some _ => nc

/-- The loop of `netconsole_write_string` over the characters of the string: a line is
sent at a newline, at the `#` of the prompt and when it is full. -/
def writeLoop (ip : IpState) : Netconsole → List Byte → Netconsole × List Answer
  | nc, [] => (nc.startLine, [])
  | nc, c :: s =>
    let nc := nc.startLine
    let d := nc.d.getD 28
    let nc := { nc with txBuf := nc.txBuf.set d c, len := nc.len + 1 }
    if c = 0x0a ∨ c = 0x23 ∨ nc.len = 80 then
      let len := nc.len + 28
      let udpAddr := { nc.udpAddr with sport := (0, 55), saddr := ip.myIP }
      let txBuf := fillUdp nc.txBuf len (some udpAddr)
      let r := writeLoop ip
        { nc with len := len, udpAddr := udpAddr, txBuf := txBuf, d := none } s
      (r.1, ⟨nc.sockMac, txBuf, len⟩ :: r.2)
    else writeLoop ip { nc with d := some (d + 1) } s

/-- `netconsole_write_string`: the statics, and the packets sent. -/
def netconsoleWriteString (ip : IpState) (nc : Netconsole) (s : List Byte) :
    Netconsole × List Answer :=
  if nc.status ≠ .enabled then (nc, [])
  else if 0 < nc.recLevel then (nc, [])
  else
    let r := writeLoop ip { nc with recLevel := nc.recLevel + 1 } s
    ({ r.1 with recLevel := r.1.recLevel - 1 }, r.2)

/-! ## The pending text -/

/-- What `n` calls of `netconsole_read_byte` return. -/
def Netconsole.readBytes : Nat → Netconsole → List (Option Byte)
  | 0, _ => []
  | n + 1, nc => (netconsoleReadByte nc).1 :: readBytes n (netconsoleReadByte nc).2

def readsFrom (rx : Mem) : Nat → Nat → List (Option Byte)
  | 0, _ => []
  | n + 1, p => if rx p ≠ 0 then some (rx p) :: readsFrom rx n (p + 1) else none :: readsFrom rx n p

theorem readBytes_none : ∀ (n : Nat) {nc : Netconsole}, nc.cmdRxP = none →
    nc.readBytes n = List.replicate n none
  | 0, _, _ => rfl
  | n + 1, nc, h => by
    have hread : netconsoleReadByte nc = (none, nc) := by
      unfold netconsoleReadByte
      rw [h]
    rw [Netconsole.readBytes, hread, readBytes_none n h]
    rfl

theorem readBytes_some : ∀ (n : Nat) {nc : Netconsole} {p : Nat}, nc.cmdRxP = some p →
    nc.readBytes n = readsFrom nc.rxBuf n p
  | 0, _, _, _ => rfl
  | n + 1, nc, p, h => by
    rw [Netconsole.readBytes, readsFrom, netconsoleReadByte, h]
    dsimp only
    split
    · rw [readBytes_some n rfl]
    · rw [readBytes_some n h]

theorem eq_of_readsFrom {rx rx' : Mem} : ∀ {k p : Nat},
    (∀ n, readsFrom rx' n p = readsFrom rx n p) → (∀ j, j < k → rx (p + j) ≠ 0) →
      rx' (p + k) = rx (p + k)
  | 0, p, h, _ => by
    have hone := h 1
    rw [readsFrom, readsFrom, readsFrom, readsFrom] at hone
    rw [add_zero]
    split at hone
    · next hne =>
      split at hone
      · exact Option.some.inj (List.cons.inj hone).1
      · cases hone
    · next heq =>
      split at hone
      · cases hone
      · next heq' => rw [not_not.mp heq, not_not.mp heq']
  | k + 1, p, h, hne => by
    have hp : rx p ≠ 0 := hne 0 (succ_pos k)
    have hsame : rx' p = rx p :=
      eq_of_readsFrom h fun j hj => absurd hj (not_lt_zero j)
    have hnext : ∀ n, readsFrom rx' n (p + 1) = readsFrom rx n (p + 1) := by
      intro n
      have hn := h (n + 1)
      rw [readsFrom, readsFrom, hsame, if_pos hp, if_pos hp] at hn
      exact (List.cons.inj hn).2
    have hrest := eq_of_readsFrom hnext fun j hj => by
      rw [add_assoc, add_comm 1 j]
      exact hne (j + 1) (succ_lt_succ hj)
    rw [add_assoc, add_comm 1 k] at hrest
    exact hrest

theorem readsFrom_congr {rx rx' : Mem} : ∀ {n p : Nat},
    (∀ k, (∀ j, j < k → rx (p + j) ≠ 0) → rx' (p + k) = rx (p + k)) →
      readsFrom rx' n p = readsFrom rx n p
  | 0, _, _ => rfl
  | n + 1, p, h => by
    have hsame : rx' p = rx p := h 0 fun j hj => absurd hj (not_lt_zero j)
    rw [readsFrom, readsFrom, hsame]
    split
    · next hne =>
      congr 1
      refine readsFrom_congr fun k hk => ?_
      rw [add_assoc, add_comm 1 k]
      refine h (k + 1) fun j hj => ?_
      cases j with
      | zero => exact hne
      | succ j =>
        have hj' := hk j (lt_of_succ_lt_succ hj)
        rwa [add_assoc, add_comm 1 j] at hj'
    · rw [readsFrom_congr h]

/-- The bytes received agree with the text from `p` on, its terminator included. -/
def KeepsText (rx : Mem) (p : Nat) (data : List Byte) : Prop :=
  ∀ k, (∀ j, j < k → rx (p + j) ≠ 0) → p + k < data.length → data.getD (p + k) 0 = rx (p + k)

/-- **What is read stays the same** exactly if the bytes received agree with the text. -/
theorem reads_keep_iff {rx : Mem} {p : Nat} {data : List Byte} :
    (∀ n, readsFrom (rx.write 0 data) n p = readsFrom rx n p) ↔ KeepsText rx p data := by
  have hbyte : ∀ i, i < data.length → rx.write 0 data i = data.getD i 0 := by
    intro i hi
    have h : rx.write 0 data (0 + i) = data.getD i 0 := Mem.write_at hi
    rwa [zero_add] at h
  constructor
  · intro h k hk hlt
    rw [← hbyte _ hlt]
    exact eq_of_readsFrom h hk
  · intro h n
    refine readsFrom_congr fun k hk => ?_
    by_cases hlt : p + k < data.length
    · rw [hbyte _ hlt, h k hk hlt]
    · exact Mem.write_other (.inr (by omega))

theorem readBytes_keep_iff {data : List Byte} (nc nc' : Netconsole) (hp : nc'.cmdRxP = nc.cmdRxP)
    (hrx : nc'.rxBuf = nc.rxBuf.write 0 data) :
    (∀ n, nc'.readBytes n = nc.readBytes n) ↔
      ∀ p, nc.cmdRxP = some p → KeepsText nc.rxBuf p data := by
  cases hcmd : nc.cmdRxP with
  | none =>
    rw [hcmd] at hp
    refine ⟨fun _ p h => absurd h (by simp), fun _ n => ?_⟩
    rw [readBytes_none n hcmd, readBytes_none n hp]
  | some p =>
    rw [hcmd] at hp
    simp [readBytes_some _ hcmd, readBytes_some _ hp, hrx, reads_keep_iff]

/-! ## Rejected packets -/

/-- Nothing has changed that the console shows: who it talks to, its status, and the
command that is still to be read. -/
structure Unchanged (nc nc' : Netconsole) : Prop where
  mac : nc'.sockMac = nc.sockMac
  daddr : nc'.udpAddr.daddr = nc.udpAddr.daddr
  dport : nc'.udpAddr.dport = nc.udpAddr.dport
  status : nc'.status = nc.status
  text : ∀ n, nc'.readBytes n = nc.readBytes n

theorem netconsoleInput_rejected {ip : IpState} {nc : Netconsole} {f : Fetched}
    (hdest : inAddrAt (nc.rxBuf.write 0 f.data) 16 ≠ ip.myIP) :
    netconsoleInput ip nc f =
      { nc with sockMac := f.hdr.srcmac, rxBuf := nc.rxBuf.write 0 f.data } := by
  have hcheck : checkDestIp ip.myIP (nc.rxBuf.write 0 f.data) = false := decide_eq_false hdest
  unfold netconsoleInput
  by_cases hlen : min f.size ncBufSize = 0
  · rw [if_pos hlen]
  · rw [if_neg hlen, if_pos hcheck]

/-- **A packet for another address has no effect** exactly if the poll does not fetch it,
or it comes from the MAC address of the peer and agrees with the command text that is
still to be read. -/
theorem netconsolePoll_rejected_iff {o : Order} {net : NetState} {sock : Nat} {ip : IpState}
    {nc : Netconsole} {f : Fetched} (hrecv : (net.recvfrom o sock ncBufSize).1 = some f)
    (hdest : inAddrAt (nc.rxBuf.write 0 f.data) 16 ≠ ip.myIP) :
    Unchanged nc (netconsolePoll o net sock ip nc).1 ↔
      (ip.status = .training ∨ nc.status = .disabled) ∨
      f.hdr.srcmac = nc.sockMac ∧ ∀ p, nc.cmdRxP = some p → KeepsText nc.rxBuf p f.data := by
  unfold netconsolePoll
  by_cases hearly : ip.status = .training ∨ nc.status = .disabled
  · rw [if_pos hearly]
    exact ⟨fun _ => .inl hearly, fun _ => ⟨rfl, rfl, rfl, rfl, fun _ => rfl⟩⟩
  · rw [if_neg hearly]
    dsimp only
    rw [hrecv]
    dsimp only
    rw [netconsoleInput_rejected hdest, or_iff_right hearly]
    have htext := readBytes_keep_iff nc { nc with
      sockMac := f.hdr.srcmac
      rxBuf := nc.rxBuf.write 0 f.data } rfl rfl
    constructor
    · intro h
      exact ⟨h.mac, htext.mp h.text⟩
    · rintro ⟨hmac, hkeep⟩
      exact ⟨hmac, rfl, rfl, rfl, htext.mpr hkeep⟩

/-- A UDP packet from 10.0.0.1 to port 55 of 10.0.0.`dest`, `len` bytes in all and in a
frame of `recvd`; the payload and what stands behind it are all `fill`. -/
def consoleFrame (dest len fill : Byte) (recvd : Nat) (h : 46 ≤ recvd) : RxFrame where
  hdr := { dstmac := 0x080030000002, srcmac := 0x080030000001, ethtype := 0x0800 }
  buffer := fun i =>
    [0x45, 0, 0, len, 0, 0, 0, 0, 64, 17, 0, 0, 10, 0, 0, 1, 10, 0, 0, dest, 0x12, 0x34, 0, 55,
      0, len - 20, 0, 0].getD i fill
  recvd := recvd
  hrecvd := h
  hwts := { valid := 1, ahead := 0, sec := 1, nsec := 8, phase := 0 }
  pad := 0

def consoleNet (rx : RxFrame) : NetState :=
  (((NetState.boot 0).createSocket 0 152 none true 55 0).netifPoll .little 0 (some rx)).2

def consoleIp : IpState := ⟨.okStatic, ⟨10, 0, 0, 2⟩⟩

/-- A console at work, with the given peer and the text `ver` to be read. -/
def busyConsole (mac : BitVec 48) : Netconsole where
  status := .enabled
  sockMac := mac
  udpAddr := ⟨⟨10, 0, 0, 2⟩, ⟨10, 0, 0, 1⟩, (0, 55), (0x12, 0x34)⟩
  rxBuf := Mem.write (fun _ => 0) 28 [0x76, 0x65, 0x72]
  cmdRxP := some 28
  txBuf := fun _ => 0
  d := none
  len := 0
  recLevel := 0

def RxFrame.fetched (rx : RxFrame) : Fetched :=
  ⟨rx.recvd, rx.hwts, rx.hdr, rx.buffer.read 0 (min rx.recvd ncBufSize)⟩

/-- Before a first command there is no text: a packet from the peer's address that is for
10.0.0.3 has no effect. -/
theorem netconsolePoll_rejected_first :
    Unchanged { busyConsole 0x080030000001 with cmdRxP := none }
      (netconsolePoll .little (consoleNet (consoleFrame 3 33 0x41 46 (by decide))) 0 consoleIp
        { busyConsole 0x080030000001 with cmdRxP := none }).1 := by
  have hrecv : ((consoleNet (consoleFrame 3 33 0x41 46 (by decide))).recvfrom .little 0
      ncBufSize).1 = some (consoleFrame 3 33 0x41 46 (by decide)).fetched := by
    decide +kernel
  exact (netconsolePoll_rejected_iff hrecv (by decide)).mpr (.inr ⟨by decide, fun p h => nomatch h⟩)

/-- A packet for 10.0.0.3 from another node changes the MAC address of the peer and the
command. -/
theorem netconsolePoll_rejected_effect :
    (netconsolePoll .little (consoleNet (consoleFrame 3 33 0x41 46 (by decide))) 0 consoleIp
        (busyConsole 0x080030000009)).1.sockMac = 0x080030000001 ∧
      (netconsolePoll .little (consoleNet (consoleFrame 3 33 0x41 46 (by decide))) 0 consoleIp
        (busyConsole 0x080030000009)).1.readBytes 1 = [some 0x41] := by
  decide +kernel

end Wrpc.Net
