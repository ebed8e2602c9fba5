/-
# Which socket a frame is queued to (`net.c`)

`netif_poll` first guesses a UDP port from the payload, and then looks through the
table of sockets for one that matches the ethertype and the port.  The abstract
side is `Meant`, the socket a frame is meant for:

    frame                       socket
    not IPv4                    the raw socket of its ethertype
    IPv4, UDP                   the UDP socket of its destination port
    IPv4, anything else         the raw IPv4 socket

## What is proved

With one raw socket per ethertype and one UDP socket per port, the search finds the
socket `Chosen` describes (`demux_eq_some_iff`), and a frame is queued to one socket
at most.  `Chosen` and `Meant` agree on all frames but three kinds (`Misread`):

  * frames that are not IPv4, but whose payload looks like UDP: the port is guessed
    without a look at the ethertype, and no socket matches then;
  * UDP packets with IP options: these are taken for raw IPv4;
  * UDP packets for port 0: so are these.
-/
import Wrpc.Net.Fifo

namespace Wrpc.Net

open List

def ethIpv4 : BitVec 16 := 0x0800

/-! ## Sockets and what they are for -/

section Sockets

variable (s : NetState) (nif : Nat)

def IsOpen (a : Nat) : Prop := some a ∈ s.socks ∧ (s.sock a).nif = nif

def IsRaw (ethtype : BitVec 16) (a : Nat) : Prop :=
  IsOpen s nif a ∧ (s.sock a).ethertype = ethtype ∧ (s.sock a).udpport = 0

def IsUdp (port : BitVec 16) (a : Nat) : Prop :=
  IsOpen s nif a ∧ (s.sock a).udpport = port ∧ port ≠ 0

/-- One raw socket per ethertype, one UDP socket per port, and UDP sockets are bound to
IPv4. -/
structure SocketTable : Prop where
  raw_unique : ∀ {ethtype a b}, IsRaw s nif ethtype a → IsRaw s nif ethtype b → a = b
  udp_unique : ∀ {port a b}, IsUdp s nif port a → IsUdp s nif port b → a = b
  udp_ipv4 : ∀ {a}, IsOpen s nif a → (s.sock a).udpport ≠ 0 → (s.sock a).ethertype = ethIpv4

end Sockets

def Untagged.ihl (u : Untagged) : Nat := (u.payload 0).toNat % 16

/-- An IPv4 packet with a UDP header that has been received up to the ports. -/
def Untagged.IsUdp (u : Untagged) : Prop :=
  u.hdr.ethtype = ethIpv4 ∧ (u.payload 0).toNat / 16 = 4 ∧ 5 ≤ u.ihl ∧ u.payload 9 = 17 ∧
    4 * u.ihl + 4 ≤ u.recvd

def Untagged.dport (u : Untagged) : BitVec 16 :=
  u.payload (4 * u.ihl + 2) ++ u.payload (4 * u.ihl + 3)

instance (u : Untagged) : Decidable u.IsUdp := by
  unfold Untagged.IsUdp
  infer_instance

def Meant (s : NetState) (nif : Nat) (u : Untagged) (a : Nat) : Prop :=
  if u.IsUdp then IsUdp s nif u.dport a else IsRaw s nif u.hdr.ethtype a

def Chosen (s : NetState) (nif : Nat) (u : Untagged) (a : Nat) : Prop :=
  if u.port = 0 then IsRaw s nif u.hdr.ethtype a
  else u.hdr.ethtype = ethIpv4 ∧ IsUdp s nif u.port a

def Misread (u : Untagged) : Prop :=
  u.hdr.ethtype ≠ ethIpv4 ∧ u.port ≠ 0 ∨ u.IsUdp ∧ (u.payload 0 ≠ 0x45 ∨ u.dport = 0)

instance (u : Untagged) : Decidable (Misread u) := by
  unfold Misread
  infer_instance

/-! ## The search -/

/-- The last entry of the table that satisfies `p`. -/
def lastMatch (p : Nat → Bool) : List (Option Nat) → Option Nat → Option Nat
  | [], found => found
  | none :: rest, found => lastMatch p rest found
  | some a :: rest, found => lastMatch p rest (if p a then some a else found)

variable (o : Order) (rx : RxFrame) {u : Untagged}

theorem lastMatch_cases (p : Nat → Bool) : ∀ (l : List (Option Nat)) (found : Option Nat),
    (∃ a, some a ∈ l ∧ p a ∧ lastMatch p l found = some a) ∨
      (∀ a, some a ∈ l → p a = false) ∧ lastMatch p l found = found
  | [], _ => .inr ⟨fun _ h => absurd h not_mem_nil, rfl⟩
  | none :: rest, found => by
    rcases lastMatch_cases p rest found with ⟨a, hmem, hp, hres⟩ | ⟨hnone, hres⟩
    · exact .inl ⟨a, mem_cons_of_mem _ hmem, hp, hres⟩
    · refine .inr ⟨fun a ha => ?_, hres⟩
      rcases mem_cons.mp ha with heq | ha
      · cases heq
      · exact hnone a ha
  | some b :: rest, found => by
    rw [lastMatch]
    rcases lastMatch_cases p rest (if p b then some b else found) with
      ⟨a, hmem, hp, hres⟩ | ⟨hnone, hres⟩
    · exact .inl ⟨a, mem_cons_of_mem _ hmem, hp, hres⟩
    · cases hb : p b with
      | true =>
        rw [hb, if_pos rfl] at hres
        refine .inl ⟨b, mem_cons_self, hb, ?_⟩
        rw [if_pos rfl, hres]
      | false =>
        rw [hb, if_neg (by decide)] at hres
        refine .inr ⟨fun a ha => ?_, by rw [if_neg (by decide), hres]⟩
        rcases mem_cons.mp ha with heq | ha
        · cases heq
          exact hb
        · exact hnone a ha

theorem lastMatch_eq_some_iff {p : Nat → Bool} {l : List (Option Nat)}
    (huniq : ∀ a b, some a ∈ l → p a → some b ∈ l → p b → a = b) {a : Nat} :
    lastMatch p l none = some a ↔ some a ∈ l ∧ p a := by
  constructor
  · intro h
    rcases lastMatch_cases p l none with ⟨b, hmem, hp, hres⟩ | ⟨-, hres⟩
    · cases h.symm.trans hres
      exact ⟨hmem, hp⟩
    · cases h.symm.trans hres
  · rintro ⟨hmem, hp⟩
    rcases lastMatch_cases p l none with ⟨b, hmem', hp', hres⟩ | ⟨hnone, -⟩
    · rw [hres, huniq a b hmem hp hmem' hp']
    · rw [hnone a hmem] at hp
      cases hp

variable {s : NetState} {nif : Nat}

def rawTest (s : NetState) (nif : Nat) (ethtype port : BitVec 16) (a : Nat) : Bool :=
  (s.sock a).nif = nif ∧ ethtype = (s.sock a).ethertype ∧ port = 0 ∧ (s.sock a).udpport = 0

def udpTest (s : NetState) (nif : Nat) (ethtype port : BitVec 16) (a : Nat) : Bool :=
  (s.sock a).nif = nif ∧ ethtype = (s.sock a).ethertype ∧ port ≠ 0 ∧ (s.sock a).udpport = port

theorem matchSocks_eq (ethtype port : BitVec 16) :
    ∀ (l : List (Option Nat)) (raws udps : Option Nat),
      s.matchSocks nif ethtype port l (raws, udps) =
        (lastMatch (rawTest s nif ethtype port) l raws,
          lastMatch (udpTest s nif ethtype port) l udps)
  | [], _, _ => rfl
  | none :: rest, raws, udps => matchSocks_eq ethtype port rest raws udps
  | some a :: rest, raws, udps => by
    rw [NetState.matchSocks, lastMatch, lastMatch]
    split
    · next hnif => simp [rawTest, udpTest, hnif, matchSocks_eq ethtype port rest]
    · next hnif =>
      split
      · next heth => simp [rawTest, udpTest, heth, matchSocks_eq ethtype port rest]
      · next heth =>
        rw [matchSocks_eq ethtype port rest]
        rw [not_not] at hnif heth
        simp [rawTest, udpTest, hnif, heth]

theorem lastMatch_false {p : Nat → Bool} {l : List (Option Nat)} (h : ∀ a, p a = false) :
    lastMatch p l none = none := by
  rcases lastMatch_cases p l none with ⟨a, -, hp, -⟩ | ⟨-, hres⟩
  · rw [h a] at hp
    cases hp
  · exact hres

/-- **The search finds the socket it is for.** -/
theorem demux_eq_some_iff (h : SocketTable s nif) (u : Untagged) {a : Nat} :
    s.demux nif u = some a ↔ Chosen s nif u a := by
  unfold NetState.demux
  rw [matchSocks_eq]
  by_cases hport : u.port = 0
  · have hudp : lastMatch (udpTest s nif u.hdr.ethtype u.port) s.socks none = none :=
      lastMatch_false fun b => decide_eq_false fun hb => hb.2.2.1 hport
    have hraw : ∀ b, some b ∈ s.socks ∧ rawTest s nif u.hdr.ethtype u.port b ↔
        IsRaw s nif u.hdr.ethtype b := by
      intro b
      simp only [rawTest, hport, decide_eq_true_eq, IsRaw, IsOpen, true_and]
      constructor
      · rintro ⟨hmem, hnif, heth, hzero⟩
        exact ⟨⟨hmem, hnif⟩, heth.symm, hzero⟩
      · rintro ⟨⟨hmem, hnif⟩, heth, hzero⟩
        exact ⟨hmem, hnif, heth.symm, hzero⟩
    rw [hudp, Option.orElse_none, Chosen, if_pos hport, ← hraw a]
    apply lastMatch_eq_some_iff
    intro b c hb hpb hc hpc
    exact h.raw_unique ((hraw b).mp ⟨hb, hpb⟩) ((hraw c).mp ⟨hc, hpc⟩)
  · have hraw : lastMatch (rawTest s nif u.hdr.ethtype u.port) s.socks none = none :=
      lastMatch_false fun b => decide_eq_false fun hb => hport hb.2.2.1
    have hudp : ∀ b, some b ∈ s.socks ∧ udpTest s nif u.hdr.ethtype u.port b ↔
        u.hdr.ethtype = ethIpv4 ∧ IsUdp s nif u.port b := by
      intro b
      simp only [udpTest, decide_eq_true_eq, IsUdp, IsOpen]
      constructor
      · rintro ⟨hmem, hnif, heth, -, hp⟩
        have hipv4 := h.udp_ipv4 ⟨hmem, hnif⟩ (by rwa [hp])
        exact ⟨heth.trans hipv4, ⟨hmem, hnif⟩, hp, hport⟩
      · rintro ⟨heth, ⟨hmem, hnif⟩, hp, -⟩
        have hipv4 := h.udp_ipv4 ⟨hmem, hnif⟩ (by rwa [hp])
        exact ⟨hmem, hnif, heth.trans hipv4.symm, hport, hp⟩
    rw [hraw, Option.orElse_eq_or, Option.or_none, Chosen, if_neg hport, ← hudp a]
    apply lastMatch_eq_some_iff
    intro b c hb hpb hc hpc
    exact h.udp_unique ((hudp b).mp ⟨hb, hpb⟩).2 ((hudp c).mp ⟨hc, hpc⟩).2

/-! ## The frame in its queue -/

def Room (s : NetState) (u : Untagged) (a : Nat) : Prop :=
  14 + u.recvd + 24 + 2 ≤ (s.sock a).queue.avail

instance (s : NetState) (u : Untagged) (a : Nat) : Decidable (Room s u a) := by
  unfold Room
  infer_instance

/-- The frame is queued to the socket at `a`. -/
def NetState.queueTo (o : Order) (s : NetState) (rx : RxFrame) (a : Nat) : NetState :=
  s.setQueue a ((s.sock a).queue.store o rx.hwts rx.pad rx.untag.hdr
    (rx.untag.payload.read 0 rx.untag.recvd))

theorem netifPoll_of_vlan {rx : RxFrame} (hvlan : rx.untag.tag.toNat % 4096 = s.vlan) :
    (s.netifPoll o nif (some rx)).2 =
      match s.demux nif rx.untag with
      | none => s
      | some a => if Room s rx.untag a then s.queueTo o rx a else s := by
  unfold NetState.netifPoll
  dsimp only
  rw [if_neg (not_not.mpr hvlan)]
  cases s.demux nif rx.untag with
  | none => rfl
  | some a =>
    dsimp only
    by_cases hroom : Room s rx.untag a
    · rw [if_pos hroom, if_neg (Nat.not_lt.mpr hroom)]
      rfl
    · rw [if_neg hroom, if_pos (Nat.lt_of_not_le hroom)]

theorem wrapCopyOut_n : ∀ (q : Sockq) (bs : List Byte), (q.wrapCopyOut bs).n = q.n
  | _, [] => rfl
  | q, b :: bs => by
    rw [Sockq.wrapCopyOut, wrapCopyOut_n]

theorem store_n_ne (q : Sockq) (hwts : HwTimestamp) (pad : BitVec 24) (hdr : EthHdr)
    (payload : List Byte) : (q.store o hwts pad hdr payload).n ≠ q.n := by
  have hn : (q.store o hwts pad hdr payload).n = u16 (q.n + 1) := by
    simp only [Sockq.store, Sockq.putIn, wrapCopyOut_n]
  rw [hn, u16]
  omega

theorem queueTo_queue_ne (a : Nat) : ((s.queueTo o rx a).sock a).queue ≠ (s.sock a).queue := by
  intro h
  have hn := congrArg Sockq.n h
  rw [NetState.queueTo, NetState.setQueue] at hn
  dsimp only at hn
  rw [Function.update_self] at hn
  exact store_n_ne _ _ _ _ _ _ hn

theorem queueTo_other {a b : Nat} (h : b ≠ a) : (s.queueTo o rx a).sock b = s.sock b := by
  exact Function.update_of_ne h _ _

theorem queueTo_ne (a : Nat) : s.queueTo o rx a ≠ s := by
  intro h
  exact queueTo_queue_ne o rx a (by rw [h])

theorem queueTo_inj {a b : Nat} (h : s.queueTo o rx a = s.queueTo o rx b) : a = b := by
  by_contra hne
  apply queueTo_queue_ne o rx a
  rw [h, queueTo_other o rx hne]

def AtMostOne (s s' : NetState) : Prop :=
  ∀ a b, (s'.sock a).queue ≠ (s.sock a).queue → (s'.sock b).queue ≠ (s.sock b).queue → a = b

/-- The frame is queued to the socket it is meant for, if there is one with room, and to
none otherwise. -/
def QueuedAsMeant (o : Order) (s : NetState) (nif : Nat) (rx : RxFrame) (s' : NetState) : Prop :=
  (∀ a, Meant s nif rx.untag a → Room s rx.untag a → s' = s.queueTo o rx a) ∧
    ((∀ a, Meant s nif rx.untag a → ¬Room s rx.untag a) → s' = s)

theorem atMostOne_netifPoll (hvlan : rx.untag.tag.toNat % 4096 = s.vlan) :
    AtMostOne s (s.netifPoll o nif (some rx)).2 := by
  rw [netifPoll_of_vlan o hvlan]
  intro a b ha hb
  cases hdest : s.demux nif rx.untag with
  | none =>
    rw [hdest] at ha
    exact absurd rfl ha
  | some c =>
    rw [hdest] at ha hb
    dsimp only at ha hb
    by_cases hroom : Room s rx.untag c
    · rw [if_pos hroom] at ha hb
      have hac : a = c := by
        by_contra hne
        exact ha (by rw [queueTo_other o rx hne])
      have hbc : b = c := by
        by_contra hne
        exact hb (by rw [queueTo_other o rx hne])
      rw [hac, hbc]
    · rw [if_neg hroom] at ha
      exact absurd rfl ha

/-- The frame is queued as meant when, among the sockets with room, the search is for
those it is meant for. -/
theorem queuedAsMeant_iff (h : SocketTable s nif) (o : Order) (rx : RxFrame)
    (hvlan : rx.untag.tag.toNat % 4096 = s.vlan) :
    QueuedAsMeant o s nif rx (s.netifPoll o nif (some rx)).2 ↔
      ∀ a, Room s rx.untag a → (Chosen s nif rx.untag a ↔ Meant s nif rx.untag a) := by
  have hdest := fun a => demux_eq_some_iff h rx.untag (a := a)
  rw [netifPoll_of_vlan o hvlan]
  constructor
  · rintro ⟨hmeant, hnone⟩ a hroom
    constructor
    · intro hchosen
      rw [(hdest a).mpr hchosen] at hnone hmeant
      dsimp only at hnone hmeant
      rw [if_pos hroom] at hnone hmeant
      -- the frame has been queued, so somebody was meant to have it
      by_contra hnot
      have hno : ∀ b, Meant s nif rx.untag b → ¬Room s rx.untag b := by
        intro b hb hroomb
        have hab := queueTo_inj o rx (hmeant b hb hroomb)
        rw [hab] at hnot
        exact hnot hb
      exact queueTo_ne o rx a (hnone hno)
    · intro ha
      have hres := hmeant a ha hroom
      cases hd : s.demux nif rx.untag with
      | none =>
        rw [hd] at hres
        exact absurd hres.symm (queueTo_ne o rx a)
      | some c =>
        rw [hd] at hres
        dsimp only at hres
        split at hres
        · rw [← queueTo_inj o rx hres]
          exact (hdest c).mp hd
        · exact absurd hres.symm (queueTo_ne o rx a)
  · intro hagree
    constructor
    · intro a ha hroom
      rw [(hdest a).mpr ((hagree a hroom).mpr ha)]
      exact if_pos hroom
    · intro hno
      cases hd : s.demux nif rx.untag with
      | none => rfl
      | some c =>
        refine if_neg fun hroom => ?_
        exact hno c ((hagree c hroom).mp ((hdest c).mp hd)) hroom

/-! ## The frames that are misread -/

theorem port_eq_zero (h : ¬(u.payload 0 = 0x45 ∧ u.payload 9 = 17)) : u.port = 0 :=
  if_neg h

theorem port_eq_dport (h₀ : u.payload 0 = 0x45) (h₉ : u.payload 9 = 17) : u.port = u.dport := by
  have hihl : u.ihl = 5 := by
    rw [Untagged.ihl, h₀]
    rfl
  rw [Untagged.port, if_pos ⟨h₀, h₉⟩, Untagged.dport, hihl]

theorem isUdp_of_plain {rx : RxFrame} (heth : rx.untag.hdr.ethtype = ethIpv4)
    (h₀ : rx.untag.payload 0 = 0x45) (h₉ : rx.untag.payload 9 = 17) : rx.untag.IsUdp := by
  have hihl : rx.untag.ihl = 5 := by
    rw [Untagged.ihl, h₀]
    rfl
  have hrecvd : 42 ≤ rx.untag.recvd := by
    have := rx.hrecvd
    unfold RxFrame.untag
    split
    · change 42 ≤ rx.recvd - 4
      omega
    · change 42 ≤ rx.recvd
      omega
  refine ⟨heth, by rw [h₀]; rfl, Nat.le_of_eq hihl.symm, h₉, ?_⟩
  omega

theorem chosen_iff_meant {rx : RxFrame} (h : ¬Misread rx.untag) (a : Nat) :
    Chosen s nif rx.untag a ↔ Meant s nif rx.untag a := by
  rw [Misread, not_or, not_and_or, not_not, not_not] at h
  obtain ⟨hother, hudp⟩ := h
  unfold Chosen Meant
  by_cases hisUdp : rx.untag.IsUdp
  · rw [not_and, not_or, not_not] at hudp
    obtain ⟨hplain, hport⟩ := hudp hisUdp
    have hp := port_eq_dport hplain hisUdp.2.2.2.1
    rw [if_pos hisUdp, if_neg (by rwa [hp]), hp]
    exact and_iff_right hisUdp.1
  · rw [if_neg hisUdp]
    have hzero : rx.untag.port = 0 := by
      rcases hother with heth | hzero
      · exact port_eq_zero fun hlooks => hisUdp (isUdp_of_plain heth hlooks.1 hlooks.2)
      · exact hzero
    rw [if_pos hzero]

/-- For a misread frame, the socket found and the socket meant are never the same one, and
the one found is the raw socket of the ethertype. -/
theorem chosen_iff_meant_of_misread (h : Misread u) (a : Nat) :
    (Chosen s nif u a ↔ Meant s nif u a) ↔ ¬IsRaw s nif u.hdr.ethtype a ∧ ¬Meant s nif u a := by
  rcases h with ⟨heth, hport⟩ | ⟨hisUdp, hwrong⟩
  · have hnot : ¬u.IsUdp := fun hu => heth hu.1
    unfold Chosen Meant
    rw [if_neg hport, if_neg hnot]
    simp [heth]
  · have hzero : u.port = 0 := by
      rcases hwrong with hplain | hdport
      · exact port_eq_zero fun hlooks => hplain hlooks.1
      · by_cases hplain : u.payload 0 = 0x45
        · rw [port_eq_dport hplain hisUdp.2.2.2.1, hdport]
        · exact port_eq_zero fun hlooks => hplain hlooks.1
    unfold Chosen Meant
    rw [if_pos hzero, if_pos hisUdp]
    constructor
    · intro hiff
      have hraw : ¬IsRaw s nif u.hdr.ethtype a := fun hr =>
        (hiff.mp hr).2.2 ((hiff.mp hr).2.1.symm.trans hr.2.2)
      exact ⟨hraw, fun hm => hraw (hiff.mpr hm)⟩
    · rintro ⟨hraw, hm⟩
      exact ⟨fun h => absurd h hraw, fun h => absurd h hm⟩

/-- **Demultiplexing is exact** for a frame of the right VLAN exactly if the frame is not
misread, or neither the raw socket of its ethertype nor the socket it is meant for has
room for it. -/
theorem netifPoll_exact_iff (h : SocketTable s nif) (o : Order) (rx : RxFrame)
    (hvlan : rx.untag.tag.toNat % 4096 = s.vlan) :
    (AtMostOne s (s.netifPoll o nif (some rx)).2 ∧
      QueuedAsMeant o s nif rx (s.netifPoll o nif (some rx)).2) ↔
    (Misread rx.untag → ∀ a, Room s rx.untag a →
      ¬IsRaw s nif rx.untag.hdr.ethtype a ∧ ¬Meant s nif rx.untag a) := by
  rw [and_iff_right (atMostOne_netifPoll o rx hvlan), queuedAsMeant_iff h o rx hvlan]
  by_cases hmis : Misread rx.untag
  · simp [hmis, chosen_iff_meant_of_misread hmis]
  · simp only [hmis, false_implies, iff_true]
    exact fun a _ => chosen_iff_meant hmis a

instance (s : NetState) (nif : Nat) (u : Untagged) (a : Nat) : Decidable (Meant s nif u a) := by
  unfold Meant IsUdp IsRaw IsOpen
  infer_instance

/-- One raw socket for PTP, with an empty queue of 512 bytes. -/
def ptpState : NetState where
  socks := [some 0, none]
  sock := fun _ =>
    { ethertype := 0x88f7, udpport := 0, nif := 0,
      queue := { head := 0, tail := 0, avail := 512, size := 512, n := 0, buff := fun _ => 0 } }
  vlan := 0

theorem ptpState_table : SocketTable ptpState 0 where
  raw_unique := by
    rintro ethtype a b ⟨⟨ha, -⟩, -⟩ ⟨⟨hb, -⟩, -⟩
    simp only [ptpState, mem_cons, Option.some.injEq, reduceCtorEq, not_mem_nil,
      or_false] at ha hb
    rw [ha, hb]
  udp_unique := by
    rintro port a b ⟨-, hport, hne⟩
    exact absurd hport.symm hne
  udp_ipv4 := fun _ h => absurd rfl h

theorem netifPoll_exact_ptp :
    Room ptpState minimalFrame.untag 0 ∧ Meant ptpState 0 minimalFrame.untag 0 ∧
      QueuedAsMeant .little ptpState 0 minimalFrame
        (ptpState.netifPoll .little 0 (some minimalFrame)).2 :=
  ⟨by decide, by decide,
    ((netifPoll_exact_iff ptpState_table .little minimalFrame rfl).mpr
      fun hmis => absurd hmis (by decide)).2⟩

/-- A PTP frame whose payload looks like UDP to port 257. -/
def lookalikeFrame : RxFrame :=
  { minimalFrame with buffer := fun i => if i = 0 then 0x45 else if i = 9 then 17 else 1 }

/-- It is meant for the PTP socket, which has room, and is dropped. -/
theorem netifPoll_lookalike_dropped :
    lookalikeFrame.untag.hdr.ethtype ≠ ethIpv4 ∧ Meant ptpState 0 lookalikeFrame.untag 0 ∧
      Room ptpState lookalikeFrame.untag 0 ∧
      ((ptpState.netifPoll .little 0 (some lookalikeFrame)).2.sock 0).queue.n = 0 := by
  decide

end Wrpc.Net
