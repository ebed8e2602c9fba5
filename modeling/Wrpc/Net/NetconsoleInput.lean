/-
# What `netconsole_read_byte` returns

`netconsole_poll` ends the packet it accepts with a zero behind the bytes received, and
`netconsole_read_byte` goes from the end of the UDP header to the next zero.  Beside the
statics of `netconsole.c`, `Traced` keeps what is left of the payload of the latest
packet accepted; polls, reads, output and `netconsole` commands come in any order.

## What is proved

`ncRun_input_iff`: along a run all stores are inside `rx_buf`, and reading gives bytes
of that payload in order and then -1, exactly if

  * no packet accepted has `sizeof(rx_buf)` bytes or more: the zero goes behind them;
  * each packet accepted has a zero in its payload or right behind it: the frame may
    be longer than the packet, and what pads it is read as part of the command;
  * one shorter than the headers finds a zero in the first byte of the payload;
  * what a rejected packet writes over a command leaves bytes of it and a zero.
-/
import Wrpc.Net.Netconsole
import Wrpc.Lib.Run

namespace Wrpc.Net

open List Mem

/-! ## Runs of the console -/

/-- `netconsole_poll` goes on with the packet. -/
def accepts (ip : IpState) (nc : Netconsole) (f : Fetched) : Bool :=
  decide (min f.size ncBufSize ≠ 0) && checkDestIp ip.myIP (nc.rxBuf.write 0 f.data)

/-- The UDP payload, as far as it has been received; the socket takes no packets with
options in the IP header. -/
def udpPayload (data : List Byte) : List Byte :=
  (data.drop 28).take (wordAt (Mem.write (fun _ => 0) 0 data) 24 - 8)

/-- The statics of `netconsole.c`, and what is left of the payload of the latest packet
accepted. -/
structure Traced where
  nc : Netconsole
  rest : List Byte

inductive NcEvent where
  /-- a poll, with the sockets and our address as they are then -/
  | poll (net : NetState) (sock : Nat) (ip : IpState)
  | read
  | write (ip : IpState) (s : List Byte)
  /-- `cmd_netconsole` or an SNMP set -/
  | setStatus (status : NcStatus)

def pollFetch (o : Order) (net : NetState) (sock : Nat) (ip : IpState) (nc : Netconsole) :
    Option Fetched :=
  if ip.status = .training ∨ nc.status = .disabled then none
  else (net.recvfrom o sock ncBufSize).1

def restAfter (ip : IpState) (c : Traced) : Option Fetched → List Byte
  | none => c.rest
  | some f => if accepts ip c.nc f then udpPayload f.data else c.rest

/-- A read takes a byte off the payload; -1 says that there are no more. -/
def readStep (c : Traced) : Traced :=
  ⟨(netconsoleReadByte c.nc).2, if (netconsoleReadByte c.nc).1 = none then [] else c.rest.tail⟩

def ncStep (o : Order) (c : Traced) : NcEvent → Traced
  | .poll net sock ip =>
    ⟨(netconsolePoll o net sock ip c.nc).1, restAfter ip c (pollFetch o net sock ip c.nc)⟩
  | .read => readStep c
  | .write ip s => { c with nc := (netconsoleWriteString ip c.nc s).1 }
  | .setStatus status => { c with nc := { c.nc with status := status } }

/-- The indices of `rx_buf` that a poll stores to. -/
def rxBufStores (ip : IpState) (nc : Netconsole) : Option Fetched → List Nat
  | none => []
  | some f =>
    List.range f.data.length ++ if accepts ip nc f then [min f.size ncBufSize] else []

/-- The stores of an event are inside `rx_buf`. -/
def StoresInside (o : Order) (c : Traced) : NcEvent → Prop
  | .poll net sock ip =>
    ∀ i ∈ rxBufStores ip c.nc (pollFetch o net sock ip c.nc), i < ncBufSize
  | _ => True

/-- The next byte returned is the next one of the payload, or -1. -/
def ReadOk (c : Traced) : Prop :=
  (netconsoleReadByte c.nc).1 = none ∨ (netconsoleReadByte c.nc).1 = c.rest.head?

/-- So are the next `n`. -/
def ReadsOk : Nat → Traced → Prop
  | 0, _ => True
  | n + 1, c => ReadOk c ∧ ReadsOk n (readStep c)

variable {nc : Netconsole} {ip : IpState} {f : Fetched} {c : Traced} {p : Nat} {o : Order}

theorem netconsolePoll_eq (o : Order) (net : NetState) (sock : Nat) (ip : IpState)
    (nc : Netconsole) : (netconsolePoll o net sock ip nc).1 =
      match pollFetch o net sock ip nc with
      | none => nc
      | some f => netconsoleInput ip nc f := by
  unfold netconsolePoll pollFetch
  by_cases hearly : ip.status = .training ∨ nc.status = .disabled
  · rw [if_pos hearly, if_pos hearly]
  · rw [if_neg hearly, if_neg hearly]
    dsimp only
    cases (net.recvfrom o sock ncBufSize).1 with
    | none => rfl
    | some f => rfl

theorem netconsoleInput_accepted (h : accepts ip nc f = true) :
    (netconsoleInput ip nc f).cmdRxP = some 28 ∧
      (netconsoleInput ip nc f).rxBuf =
        (nc.rxBuf.write 0 f.data).set (min f.size ncBufSize) 0 := by
  obtain ⟨hlen, hdest⟩ := Bool.and_eq_true_iff.mp h
  unfold netconsoleInput
  rw [if_neg (of_decide_eq_true hlen), hdest]
  exact ⟨rfl, rfl⟩

theorem netconsoleInput_refused (h : accepts ip nc f = false) :
    (netconsoleInput ip nc f).cmdRxP = nc.cmdRxP ∧
      (netconsoleInput ip nc f).rxBuf = nc.rxBuf.write 0 f.data := by
  unfold netconsoleInput
  by_cases hlen : min f.size ncBufSize = 0
  · rw [if_pos hlen]
    exact ⟨rfl, rfl⟩
  · have hdest : checkDestIp ip.myIP (nc.rxBuf.write 0 f.data) = false := by
      rcases Bool.and_eq_false_iff.mp h with h | h
      · exact absurd hlen (of_decide_eq_false h)
      · exact h
    rw [if_neg hlen, if_pos hdest]
    exact ⟨rfl, rfl⟩

theorem pollFetch_length {net : NetState} {sock : Nat} (h : pollFetch o net sock ip nc = some f) :
    f.data.length = min f.size ncBufSize := by
  unfold pollFetch at h
  split at h
  · cases h
  · exact Sockq.fetch_data_length (by decide) h

/-! ## The text -/

/-- From `p` on, the buffer has bytes of the list in order, and then a zero. -/
def Terminated (rx : Mem) : Nat → List Byte → Prop
  | p, [] => rx p = 0
  | p, b :: rest => rx p = 0 ∨ rx p = b ∧ Terminated rx (p + 1) rest

/-- The same where `cmd_rx_p` points to. -/
def Pending (rx : Mem) (cmdRxP : Option Nat) (rest : List Byte) : Prop :=
  match cmdRxP with
  | none => True
  | some p => Terminated rx p rest

instance decTerminated (rx : Mem) : ∀ (p : Nat) (rest : List Byte), Decidable (Terminated rx p rest)
  | p, [] => inferInstanceAs (Decidable (rx p = 0))
  | p, b :: rest =>
    have := decTerminated rx (p + 1) rest
    inferInstanceAs (Decidable (rx p = 0 ∨ rx p = b ∧ Terminated rx (p + 1) rest))

instance decPending (rx : Mem) : ∀ (cmdRxP : Option Nat) (rest : List Byte),
    Decidable (Pending rx cmdRxP rest)
  | none, _ => inferInstanceAs (Decidable True)
  | some p, rest => decTerminated rx p rest

theorem terminated_of_zero {rx : Mem} (h : rx p = 0) :
    ∀ (rest : List Byte), Terminated rx p rest
  | [] => h
  | _ :: _ => .inl h

theorem terminated_iff {rx : Mem} : ∀ {p : Nat} {rest : List Byte},
    rx.read p rest.length = rest → (Terminated rx p rest ↔ 0 ∈ rest ∨ rx (p + rest.length) = 0)
  | p, [], _ => by simp [Terminated]
  | p, b :: rest, h => by
    obtain ⟨hb, hrest⟩ := List.cons.inj h
    rw [Terminated, terminated_iff hrest, hb, mem_cons, length_cons, Nat.add_assoc,
      Nat.add_comm 1, or_assoc, eq_comm, and_iff_right rfl]

theorem read_zero (hp : nc.cmdRxP = some p) (h : nc.rxBuf p = 0) :
    netconsoleReadByte nc = (none, nc) := by
  unfold netconsoleReadByte
  rw [hp]
  exact if_neg (not_not.mpr h)

theorem read_byte (hp : nc.cmdRxP = some p) (h : nc.rxBuf p ≠ 0) :
    netconsoleReadByte nc = (some (nc.rxBuf p), { nc with cmdRxP := some (p + 1) }) := by
  unfold netconsoleReadByte
  rw [hp]
  exact if_pos h

theorem readStep_zero (hp : c.nc.cmdRxP = some p) (h : c.nc.rxBuf p = 0) :
    readStep c = ⟨c.nc, []⟩ := by
  unfold readStep
  rw [read_zero hp h, if_pos rfl]

theorem readStep_byte (hp : c.nc.cmdRxP = some p) (h : c.nc.rxBuf p ≠ 0) :
    readStep c = ⟨{ c.nc with cmdRxP := some (p + 1) }, c.rest.tail⟩ := by
  unfold readStep
  rw [read_byte hp h, if_neg (by simp)]

theorem readOk_of_pending (h : Pending c.nc.rxBuf c.nc.cmdRxP c.rest) :
    ReadOk c ∧ Pending (readStep c).nc.rxBuf (readStep c).nc.cmdRxP (readStep c).rest := by
  cases hp : c.nc.cmdRxP with
  | none =>
    have hread : netconsoleReadByte c.nc = (none, c.nc) := by
      unfold netconsoleReadByte
      rw [hp]
    refine ⟨.inl (by rw [hread]), ?_⟩
    unfold readStep
    rw [hread, hp]
    trivial
  | some p =>
    rw [hp] at h
    by_cases hz : c.nc.rxBuf p = 0
    · refine ⟨.inl (by rw [read_zero hp hz]), ?_⟩
      rw [readStep_zero hp hz, hp]
      exact hz
    · rw [ReadOk, read_byte hp hz, readStep_byte hp hz]
      obtain ⟨nc, rest⟩ := c
      cases rest with
      | nil => exact absurd h hz
      | cons b rest =>
        obtain ⟨hb, hrest⟩ := h.resolve_left hz
        exact ⟨.inr (congrArg some hb), hrest⟩

theorem terminated_of_reads : ∀ {rest : List Byte} {nc : Netconsole} {p : Nat},
    nc.cmdRxP = some p → (∀ n, ReadsOk n ⟨nc, rest⟩) → Terminated nc.rxBuf p rest
  | rest, nc, p, hp, h => by
    by_cases hz : nc.rxBuf p = 0
    · exact terminated_of_zero hz rest
    · have hread : some (nc.rxBuf p) = rest.head? := by
        have hone := (h 1).1
        rw [ReadOk, read_byte hp hz] at hone
        exact hone.resolve_left (by simp)
      cases rest with
      | nil => cases hread
      | cons b rest =>
        have hnext : ∀ n, ReadsOk n ⟨{ nc with cmdRxP := some (p + 1) }, rest⟩ := by
          intro n
          have hn := (h (n + 1)).2
          rwa [readStep_byte hp hz] at hn
        have hrest := terminated_of_reads rfl hnext
        exact .inr ⟨Option.some.inj hread, hrest⟩

/-- **Reading** gives bytes of the payload in order and then -1 exactly if the buffer has
such a text. -/
theorem readsOk_iff : (∀ n, ReadsOk n c) ↔ Pending c.nc.rxBuf c.nc.cmdRxP c.rest := by
  constructor
  · intro h
    cases hp : c.nc.cmdRxP with
    | none => trivial
    | some p => exact terminated_of_reads hp h
  · intro h n
    induction n generalizing c with
    | zero => trivial
    | succ n ih =>
      obtain ⟨hok, hnext⟩ := readOk_of_pending h
      exact ⟨hok, ih hnext⟩

/-! ## The packets accepted -/

theorem udpPayload_length_le (data : List Byte) :
    (udpPayload data).length ≤ data.length - 28 := by
  rw [udpPayload, length_take, length_drop]
  exact Nat.min_le_right _ _

theorem read_udpPayload (rx : Mem) (data : List Byte) :
    ((rx.write 0 data).set data.length 0).read 28 (udpPayload data).length = udpPayload data := by
  by_cases hlen : 28 ≤ data.length
  · have hall : (rx.write 0 data).read 28 (data.length - 28) = data.drop 28 := by
      have hsplit := read_append (rx.write 0 data) 28 0 (data.length - 28)
      rw [Nat.add_sub_cancel' hlen, read_write, Nat.zero_add] at hsplit
      conv_rhs => rw [hsplit]
      rw [drop_left' (read_length _ _ _)]
    have hle := udpPayload_length_le data
    rw [read_set_other (.inr (by omega)), ← take_read _ 28 hle, hall]
    exact (List.prefix_iff_eq_take.mp ( take_prefix _ _)).symm
  · have hnil : udpPayload data = [] := by
      rw [udpPayload, drop_of_length_le (by omega), take_nil]
    rw [hnil]
    rfl

/-- A packet ends its own text: there is a zero in the payload, or right behind it in the
bytes received; one shorter than the headers finds it in the buffer. -/
def EndsText (rx : Mem) (data : List Byte) : Prop :=
  0 ∈ udpPayload data ∨
    if 28 ≤ data.length then data.getD (28 + (udpPayload data).length) 0 = 0 else rx 28 = 0

instance (rx : Mem) (data : List Byte) : Decidable (EndsText rx data) :=
  inferInstanceAs (Decidable (0 ∈ udpPayload data ∨
    if 28 ≤ data.length then data.getD (28 + (udpPayload data).length) 0 = 0 else rx 28 = 0))

theorem terminated_accepted_iff (rx : Mem) (data : List Byte) :
    Terminated ((rx.write 0 data).set data.length 0) 28 (udpPayload data) ↔ EndsText rx data := by
  rw [terminated_iff (read_udpPayload rx data), EndsText]
  have hle := udpPayload_length_le data
  by_cases hlen : 28 ≤ data.length
  · rw [if_pos hlen]
    by_cases hend : 28 + (udpPayload data).length = data.length
    · have hnone : data.getD data.length 0 = 0 := by simp
      rw [hend, set_same, hnone]
    · have hbyte : rx.write 0 data (0 + (28 + (udpPayload data).length)) =
          data.getD (28 + (udpPayload data).length) 0 := write_at (by omega)
      rw [Nat.zero_add] at hbyte
      rw [set_other hend, hbyte]
  · have hzero : (udpPayload data).length = 0 := by omega
    rw [if_neg hlen, hzero, set_other (by omega), write_other (.inr (by omega))]

theorem storesInside_iff {net : NetState} {sock : Nat} (hf : pollFetch o net sock ip nc = some f) :
    (∀ i ∈ rxBufStores ip nc (some f), i < ncBufSize) ↔
      (accepts ip nc f = true → f.size < ncBufSize) := by
  have hlen := pollFetch_length hf
  dsimp only [rxBufStores]
  cases hacc : accepts ip nc f with
  | true =>
    rw [if_pos rfl]
    constructor
    · intro h _
      have hend := h _ (mem_append_right _ (mem_singleton_self _))
      omega
    · intro h i hi
      have hsize := h rfl
      rcases List.mem_append.mp hi with hi | hi
      · rw [mem_range] at hi
        omega
      · rw [mem_singleton] at hi
        omega
  | false =>
    refine iff_of_true (fun i hi => ?_) (fun h => absurd h Bool.false_ne_true)
    rw [if_neg Bool.false_ne_true, append_nil, mem_range] at hi
    omega

/-! ## Runs -/

def PacketOk (ip : IpState) (c : Traced) : Option Fetched → Prop
  | none => True
  | some f =>
    if accepts ip c.nc f then f.size < ncBufSize ∧ EndsText c.nc.rxBuf f.data
    else Pending (c.nc.rxBuf.write 0 f.data) c.nc.cmdRxP c.rest

instance decPacketOk (ip : IpState) (c : Traced) : ∀ (r : Option Fetched),
    Decidable (PacketOk ip c r)
  | none => inferInstanceAs (Decidable True)
  | some f => inferInstanceAs (Decidable (if accepts ip c.nc f then
      f.size < ncBufSize ∧ EndsText c.nc.rxBuf f.data
      else Pending (c.nc.rxBuf.write 0 f.data) c.nc.cmdRxP c.rest))

def EventOk (o : Order) (c : Traced) : NcEvent → Prop
  | .poll net sock ip => PacketOk ip c (pollFetch o net sock ip c.nc)
  | _ => True

instance decEventOk (o : Order) (c : Traced) : ∀ (e : NcEvent), Decidable (EventOk o c e)
  | .poll net sock ip => decPacketOk ip c (pollFetch o net sock ip c.nc)
  | .read => inferInstanceAs (Decidable True)
  | .write _ _ => inferInstanceAs (Decidable True)
  | .setStatus _ => inferInstanceAs (Decidable True)

theorem Netconsole.startLine_input (nc : Netconsole) :
    nc.startLine.rxBuf = nc.rxBuf ∧ nc.startLine.cmdRxP = nc.cmdRxP := by
  unfold Netconsole.startLine
  split
  · exact ⟨rfl, rfl⟩
  · exact ⟨rfl, rfl⟩

theorem writeLoop_input (ip : IpState) : ∀ (s : List Byte) (nc : Netconsole),
    (writeLoop ip nc s).1.rxBuf = nc.rxBuf ∧ (writeLoop ip nc s).1.cmdRxP = nc.cmdRxP
  | [], nc => nc.startLine_input
  | c :: s, nc => by
    obtain ⟨hrx, hcmd⟩ := nc.startLine_input
    rw [writeLoop]
    split
    · rw [← hrx, ← hcmd]
      exact writeLoop_input ip s _
    · rw [← hrx, ← hcmd]
      exact writeLoop_input ip s _

theorem netconsoleWriteString_input (ip : IpState) (nc : Netconsole) (s : List Byte) :
    (netconsoleWriteString ip nc s).1.rxBuf = nc.rxBuf ∧
      (netconsoleWriteString ip nc s).1.cmdRxP = nc.cmdRxP := by
  unfold netconsoleWriteString
  split
  · exact ⟨rfl, rfl⟩
  · split
    · exact ⟨rfl, rfl⟩
    · exact writeLoop_input ip s _

/-- One step keeps what is to be read as it should be exactly if the packet it fetches
allows it; the room in the buffer is another matter. -/
theorem ncStep_pending_iff {e : NcEvent} (h : Pending c.nc.rxBuf c.nc.cmdRxP c.rest)
    (hroom : StoresInside o c e) :
    Pending (ncStep o c e).nc.rxBuf (ncStep o c e).nc.cmdRxP (ncStep o c e).rest ↔
      EventOk o c e := by
  cases e with
  | read => exact iff_of_true (readOk_of_pending h).2 trivial
  | write ip s =>
    obtain ⟨hrx, hcmd⟩ := netconsoleWriteString_input ip c.nc s
    refine iff_of_true ?_ trivial
    dsimp only [ncStep]
    rwa [hrx, hcmd]
  | setStatus status => exact iff_of_true h trivial
  | poll net sock ip =>
    dsimp only [ncStep, EventOk, StoresInside] at hroom ⊢
    rw [netconsolePoll_eq]
    cases hf : pollFetch o net sock ip c.nc with
    | none => exact iff_of_true h trivial
    | some f =>
      rw [hf] at hroom
      dsimp only [restAfter, PacketOk]
      have hlen := pollFetch_length hf
      cases hacc : accepts ip c.nc f with
      | true =>
        obtain ⟨hcmd, hrx⟩ := netconsoleInput_accepted hacc
        rw [hcmd, hrx, if_pos rfl, if_pos rfl, ← hlen, Pending, terminated_accepted_iff,
          and_iff_right ((storesInside_iff hf).mp hroom hacc)]
      | false =>
        obtain ⟨hcmd, hrx⟩ := netconsoleInput_refused hacc
        rw [hcmd, hrx, if_neg Bool.false_ne_true, if_neg Bool.false_ne_true]

theorem storesInside_of_eventOk (c : Traced) (e : NcEvent) (h : EventOk o c e) :
    StoresInside o c e := by
  cases e with
  | read => trivial
  | write ip s => trivial
  | setStatus status => trivial
  | poll net sock ip =>
    dsimp only [EventOk, StoresInside] at h ⊢
    cases hf : pollFetch o net sock ip c.nc with
    | none => exact fun i hi => nomatch hi
    | some f =>
      rw [hf, PacketOk] at h
      refine (storesInside_iff hf).mpr fun hacc => ?_
      rw [if_pos hacc] at h
      exact h.1

/-- **Input stays in its buffer**: from before the first packet on, every store to
`rx_buf` is inside it, and at any time reading gives bytes of the payload of the latest
packet accepted, in order, and then -1, exactly if the packets fetched are as
`PacketOk` says. -/
theorem ncRun_input_iff {o : Order} {nc : Netconsole} {es : List NcEvent}
    (hfirst : nc.cmdRxP = none) :
    (Run.Steps (ncStep o) (StoresInside o) ⟨nc, []⟩ es ∧
      Run.Always (ncStep o) (fun c => ∀ n, ReadsOk n c) ⟨nc, []⟩ es) ↔
    Run.Steps (ncStep o) (EventOk o) ⟨nc, []⟩ es := by
  have hpending : Pending nc.rxBuf nc.cmdRxP [] := by
    rw [hfirst]
    trivial
  have hiff : Run.Steps (ncStep o) (StoresInside o) ⟨nc, []⟩ es →
      (Run.Always (ncStep o) (fun c => ∀ n, ReadsOk n c) ⟨nc, []⟩ es ↔
        Run.Steps (ncStep o) (EventOk o) ⟨nc, []⟩ es) :=
    Run.always_iff_steps (I := fun _ => True) (fun _ _ _ _ => trivial)
      (fun _ _ _ hroom hreads => readsOk_iff.trans
        (ncStep_pending_iff (readsOk_iff.mp hreads) hroom)) trivial (readsOk_iff.mpr hpending)
  constructor
  · rintro ⟨hroom, hreads⟩
    exact (hiff hroom).mp hreads
  · intro h
    have hroom := Run.Steps.mono storesInside_of_eventOk h
    exact ⟨hroom, (hiff hroom).mpr h⟩

def idleConsole : Traced := ⟨{ busyConsole 0x080030000001 with cmdRxP := none }, []⟩

/-- A poll that finds the frame in the 152-byte queue of the socket. -/
def consolePoll (rx : RxFrame) : NcEvent := .poll (consoleNet rx) 0 consoleIp

/-- A packet that fills its frame, and two bytes read of it. -/
theorem ncRun_input_full :
    Run.Steps (ncStep .little) (StoresInside .little) idleConsole
        [consolePoll (consoleFrame 2 46 0x41 46 (by decide)), .read, .read] ∧
      Run.Always (ncStep .little) (fun c => ∀ n, ReadsOk n c) idleConsole
        [consolePoll (consoleFrame 2 46 0x41 46 (by decide)), .read, .read] :=
  (ncRun_input_iff rfl).mpr (by decide +kernel)

/-- After a packet of 109 bytes the zero goes behind `rx_buf`; after one with 5 bytes of
payload in a padded frame a sixth byte is read. -/
theorem ncRun_input_outside :
    109 ∈ rxBufStores consoleIp idleConsole.nc (pollFetch .little
        (consoleNet (consoleFrame 2 109 0x41 109 (by decide))) 0 consoleIp idleConsole.nc) ∧
      (ncStep .little idleConsole (consolePoll (consoleFrame 2 33 0x41 46 (by decide)))).rest =
        List.replicate 5 0x41 ∧
      (ncStep .little idleConsole
        (consolePoll (consoleFrame 2 33 0x41 46 (by decide)))).nc.readBytes 6 =
          List.replicate 6 (some 0x41) := by
  decide +kernel

end Wrpc.Net
