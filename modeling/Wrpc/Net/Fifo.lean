/-
# A receive queue as a FIFO of records

The purpose of a receive queue: a first-in first-out list of records with room
for a fixed number of bytes.  `Repr o q f` says that the ring `q` stores the
FIFO `f`: the stretch of the ring from `tail` on, as long as the bytes in use,
is the concatenation of the records' images.

## What is proved

Every call into `net.c` keeps the representation of every socket and returns
what the FIFO returns (`netStep_refines`, `netRun_lossless`), except for one
path.  When the caller's buffer is shorter than the payload, `wrap_copy_in`
skips the rest with

    q->tail += len - buflen;
    while (q->tail > q->size)
            q->tail -= q->size;

which leaves `tail = size` when the record ends exactly at the end of the ring
(the copying loop would have wrapped to 0), and which adds in 16 bits.
`SkipOk` rules out these two cases, for truncated reads only.
-/
import Wrpc.Lib.Ring
import Wrpc.Lib.Run
import Wrpc.Net.Sockq

namespace Wrpc.Net

open List Function Bytes Nat

variable {buflen : Nat} {o : Order}

/-! ## The specification -/

structure Record where
  hwts : HwTimestamp
  pad : BitVec 24
  hdr : EthHdr
  payload : List Byte

def Record.image (o : Order) (r : Record) : List Byte :=
  Bytes.imageOf o 2 r.payload.length ++ (hwtsImage o r.hwts r.pad ++ (r.hdr.image ++ r.payload))

/-- What a reader with a buffer of `buflen` bytes gets of a record. -/
def Record.fetched (r : Record) (buflen : Nat) : Fetched where
  size := r.payload.length
  hwts := r.hwts
  hdr := r.hdr
  data := r.payload.take buflen

/-- A FIFO of records with room for `cap` bytes. -/
structure Fifo where
  cap : Nat
  recs : List Record

variable {f : Fifo}

namespace Fifo

def stream (o : Order) (f : Fifo) : List Byte := f.recs.flatMap (Record.image o)

def held (f : Fifo) : Nat := (f.recs.map fun r => 40 + r.payload.length).sum

def push (f : Fifo) (r : Record) : Fifo :=
  if f.held + (40 + r.payload.length) ≤ f.cap then { f with recs := f.recs ++ [r] } else f

def pop (f : Fifo) : Fifo := { f with recs := f.recs.tail }

end Fifo

abbrev NetSpec := Nat → Fifo

/-- The record `netif_poll` makes of a frame. -/
def RxFrame.record (rx : RxFrame) : Record where
  hwts := rx.hwts
  pad := rx.pad
  hdr := rx.untag.hdr
  payload := rx.untag.payload.read 0 rx.untag.recvd

/-- What each call does to the FIFOs.  The socket table decides which one. -/
def NetSpec.step (f : NetSpec) (s : NetState) : NetEvent → NetSpec
  | .create addr len _ _ _ _ =>
    match NetState.claimSlot addr s.socks with
    | none => f
    | some _ => Function.update f addr { cap := u16 len, recs := [] }
  | .close _ => f
  | .poll _ none => f
  | .poll nif (some rx) =>
    if rx.untag.tag.toNat % 4096 ≠ s.vlan then f
    else
      match s.demux nif rx.untag with
      | none => f
      | some a => Function.update f a ((f a).push rx.record)
  | .recv addr _ => Function.update f addr (f addr).pop

variable {q : Sockq}

@[simp] theorem EthHdr.image_length (h : EthHdr) : h.image.length = 14 := by
  simp [EthHdr.image]

@[simp] theorem hwtsImage_length (o : Order) (t : HwTimestamp) (pad : BitVec 24) :
    (hwtsImage o t pad).length = 24 := by
  simp [hwtsImage]

@[simp] theorem Record.image_length (o : Order) (r : Record) :
    (r.image o).length = 40 + r.payload.length := by
  simp [Record.image]
  omega

theorem EthHdr.ofImage_image (h : EthHdr) : EthHdr.ofImage h.image = h := by
  have h₁ : BitVec.ofNat 48 _ = _ := ofNat_ofImage .big 6 h.dstmac
  have h₂ : BitVec.ofNat 48 _ = _ := ofNat_ofImage .big 6 h.srcmac
  have h₃ : BitVec.ofNat 16 _ = _ := ofNat_ofImage .big 2 h.ethtype
  simp [EthHdr.ofImage, EthHdr.image, drop_append, h₁, h₂, h₃]

theorem hwtsOfImage_image (o : Order) (t : HwTimestamp) (pad : BitVec 24) :
    hwtsOfImage o (hwtsImage o t pad) = t := by
  have h₁ : BitVec.ofNat 8 _ = _ := ofNat_ofImage o 1 t.valid
  have h₂ : BitVec.ofNat 32 _ = _ := ofNat_ofImage o 4 t.ahead
  have h₃ : BitVec.ofNat 64 _ = _ := ofNat_ofImage o 8 t.sec
  have h₄ : BitVec.ofNat 32 _ = _ := ofNat_ofImage o 4 t.nsec
  have h₅ : BitVec.ofNat 32 _ = _ := ofNat_ofImage o 4 t.phase
  simp [hwtsOfImage, hwtsImage, drop_append, h₁, h₂, h₃, h₄, h₅]

/-! ## The cursors on the ring -/

section Cursors

variable {q : Sockq} (hsize : q.size < 65536)
include hsize

theorem cursor_next {p : Nat} (hp : p < q.size) :
    (if u16 (p + 1) = q.size then 0 else u16 (p + 1)) = (p + 1) % q.size := by
  have hu : u16 (p + 1) = p + 1 := mod_eq_of_lt (by omega)
  rw [hu]
  split
  · next h => rw [h, mod_self]
  · exact (mod_eq_of_lt (by omega)).symm

theorem copyInLoop_eq (i : Nat) (htail : q.tail < q.size) : Sockq.copyInLoop i q =
      (Ring.read q.size q.buff q.tail i, { q with tail := (q.tail + i) % q.size }) := by
  induction i generalizing q with
  | zero => simp [Sockq.copyInLoop, Ring.read, mod_eq_of_lt htail]
  | succ i ih =>
    have hlt : (q.tail + 1) % q.size < q.size := mod_lt _ (by omega)
    have ih' := @ih { q with tail := (q.tail + 1) % q.size } hsize hlt
    simp [Sockq.copyInLoop, cursor_next hsize htail, ih', Ring.read, Ring.read_mod,
      mod_eq_of_lt htail, show q.tail + 1 + i = q.tail + (i + 1) by omega]

theorem wrapCopyOut_eq (bs : List Byte) (hhead : q.head < q.size) : q.wrapCopyOut bs =
      { q with buff := Ring.write q.size q.buff q.head bs,
               head := (q.head + bs.length) % q.size } := by
  induction bs generalizing q with
  | nil => simp [Sockq.wrapCopyOut, Ring.write, mod_eq_of_lt hhead]
  | cons b bs ih =>
    have hlt : (q.head + 1) % q.size < q.size := mod_lt _ (by omega)
    have ih' := @ih { q with buff := q.buff.set q.head b, head := (q.head + 1) % q.size }
      hsize hlt
    have hw : Ring.write q.size (q.buff.set q.head b) ((q.head + 1) % q.size) bs
        = Ring.write q.size (q.buff.set q.head b) (q.head + 1) bs :=
      Ring.write_congr_mod (mod_mod _ _)
    simp [Sockq.wrapCopyOut, cursor_next hsize hhead, ih', Ring.write, hw, mod_eq_of_lt hhead,
      show q.head + 1 + bs.length = q.head + (bs.length + 1) by omega]

end Cursors

/-- The skip of a truncated read neither ends on the end of the ring nor
overflows 16 bits. -/
def SkipOk (q : Sockq) (off len buflen : Nat) : Prop :=
  buflen < len → (q.tail + (off + len)) % q.size ≠ 0 ∧
      (q.tail + (off + buflen)) % q.size + (len - buflen) < 65536

instance (q : Sockq) (off len buflen : Nat) : Decidable (SkipOk q off len buflen) :=
  inferInstanceAs (Decidable (_ → _))

theorem skipLoop_eq {size : Nat} (hsize : 0 < size) :
    ∀ {fuel t : Nat}, t ≤ fuel → t % size ≠ 0 → Sockq.skipLoop size fuel t = t % size
  | 0, t, hle, hmod => by
    have ht : t = 0 := by omega
    exact absurd (by rw [ht, zero_mod]) hmod
  | fuel + 1, t, hle, hmod => by
    unfold Sockq.skipLoop
    split
    · next hgt =>
      have hsub : (t - size) % size = t % size := (mod_eq_sub_mod (by omega)).symm
      rw [skipLoop_eq hsize (by omega) (by rwa [hsub]), hsub]
    · next hle' =>
      have hne : t ≠ size := fun h => hmod (by rw [h, mod_self])
      rw [mod_eq_of_lt (by omega)]

section Transfers

variable {q : Sockq} (hsize : q.size < 65536)
include hsize

theorem takeOut_whole (len : Nat) (htail : q.tail < q.size) (havail : q.avail + len ≤ q.size) :
    q.takeOut len 0 = (Ring.read q.size q.buff q.tail len,
      { q with tail := (q.tail + len) % q.size, avail := q.avail + len }) := by
  have hu : u16 (q.avail + len) = q.avail + len := mod_eq_of_lt (by omega)
  simp [Sockq.takeOut, Sockq.wrapCopyIn, copyInLoop_eq hsize len htail, hu]

theorem takeOut_truncated {len : Nat} (hbuf : buflen ≠ 0) (htail : q.tail < q.size)
    (havail : q.avail + len ≤ q.size) (hskip : SkipOk q 0 len buflen) :
    q.takeOut len buflen = (Ring.read q.size q.buff q.tail (min len buflen),
      { q with tail := (q.tail + len) % q.size, avail := q.avail + len }) := by
  have hu : u16 (q.avail + len) = q.avail + len := mod_eq_of_lt (by omega)
  simp only [Sockq.takeOut, Sockq.wrapCopyIn, if_neg hbuf, copyInLoop_eq hsize _ htail]
  split
  · next hgt =>
    obtain ⟨hne, hlt⟩ := hskip hgt
    rw [Nat.zero_add] at hne hlt
    have hmin : min len buflen = buflen := by omega
    have hsum : ((q.tail + buflen) % q.size + (len - buflen)) % q.size
        = (q.tail + len) % q.size := by
      rw [mod_add_mod, show q.tail + buflen + (len - buflen) = q.tail + len by omega]
    have hu' : u16 ((q.tail + buflen) % q.size + (len - buflen))
        = (q.tail + buflen) % q.size + (len - buflen) := mod_eq_of_lt hlt
    have hloop := skipLoop_eq (show 0 < q.size by omega)
      (Nat.le_refl ((q.tail + buflen) % q.size + (len - buflen))) (by rwa [hsum])
    simp only [hmin, hu, hu', hloop, hsum]
  · next hle =>
    have hmin : min len buflen = len := by omega
    simp only [hmin, hu]

theorem putIn_eq {bs : List Byte} (hhead : q.head < q.size) (havail : q.avail ≤ q.size)
    (hfit : bs.length ≤ q.avail) :
    q.putIn bs = { q with buff := Ring.write q.size q.buff q.head bs,
                          head := (q.head + bs.length) % q.size,
                          avail := q.avail - bs.length } := by
  have hu : u16 (q.avail + 65536 - u16 bs.length) = q.avail - bs.length := by
    unfold u16
    omega
  simp only [Sockq.putIn, wrapCopyOut_eq hsize bs hhead, hu]

theorem putIn_putIn {as bs : List Byte} (hhead : q.head < q.size) (havail : q.avail ≤ q.size)
    (hfit : (as ++ bs).length ≤ q.avail) : (q.putIn as).putIn bs = q.putIn (as ++ bs) := by
  rw [length_append] at hfit
  have hlt : (q.head + as.length) % q.size < q.size := mod_lt _ (by omega)
  have hfirst := @putIn_eq q hsize as hhead havail (by omega)
  have hboth := @putIn_eq q hsize (as ++ bs) hhead havail (by rwa [length_append])
  have hsecond := @putIn_eq (q.putIn as) (by rwa [hfirst]) bs (by rwa [hfirst])
    (by rw [hfirst]; exact Nat.le_trans (sub_le _ _) havail)
    (by rw [hfirst]; exact Nat.le_sub_of_add_le' hfit)
  have hw : Ring.write q.size (Ring.write q.size q.buff q.head as)
      ((q.head + as.length) % q.size) bs = Ring.write q.size q.buff q.head (as ++ bs) := by
    rw [Ring.write_congr_mod (mod_mod _ _), Ring.write_append]
  rw [hsecond, hboth, hfirst]
  simp [hw, Nat.add_assoc, Nat.sub_sub]

end Transfers

/-! ## The ring stores the FIFO -/

/-- The ring `q` stores the FIFO `f`.  A queue of size 0 has no cells for its
cursors to point at, and never holds a record. -/
structure Repr (o : Order) (q : Sockq) (f : Fifo) : Prop where
  size_eq : q.size = f.cap
  cap_lt : f.cap < 65536
  avail_add_held : q.avail + f.held = f.cap
  n_eq : q.n = f.recs.length
  tail_lt : f.cap ≠ 0 → q.tail < f.cap
  head_eq : f.cap ≠ 0 → q.head = (q.tail + f.held) % f.cap
  stream_eq : Ring.read f.cap q.buff q.tail f.held = f.stream o

theorem Repr.empty (o : Order) (len : Nat) (m : Mem) :
    Repr o { head := 0, tail := 0, avail := u16 len, size := u16 len, n := 0, buff := m }
      { cap := u16 len, recs := [] } where
  size_eq := rfl
  cap_lt := mod_lt _ (by decide)
  avail_add_held := rfl
  n_eq := rfl
  tail_lt := Nat.pos_of_ne_zero
  head_eq := fun _ => (zero_mod _).symm
  stream_eq := rfl

theorem Fifo.held_append (f : Fifo) (r : Record) :
    ({ f with recs := f.recs ++ [r] } : Fifo).held = f.held + (40 + r.payload.length) := by
  simp [Fifo.held]

theorem Fifo.length_le_held (f : Fifo) : f.recs.length ≤ f.held := by
  unfold Fifo.held
  induction f.recs with
  | nil => exact Nat.le_refl 0
  | cons r rs ih =>
    simp only [length_cons, map_cons, sum_cons]
    omega

theorem store_eq (r : Record) (hsize : q.size < 65536) (hhead : q.head < q.size)
    (havail : q.avail ≤ q.size) (hfit : 40 + r.payload.length ≤ q.avail) :
    q.store o r.hwts r.pad r.hdr r.payload =
      { q with buff := Ring.write q.size q.buff q.head (r.image o),
               head := (q.head + (40 + r.payload.length)) % q.size,
               avail := q.avail - (40 + r.payload.length),
               n := u16 (q.n + 1) } := by
  have hu : u16 r.payload.length = r.payload.length := mod_eq_of_lt (by omega)
  have himage : (((q.putIn (Bytes.imageOf o 2 r.payload.length)).putIn
      (hwtsImage o r.hwts r.pad)).putIn r.hdr.image).putIn r.payload = q.putIn (r.image o) := by
    rw [putIn_putIn hsize hhead havail (by simp; omega),
      putIn_putIn hsize hhead havail (by simp; omega),
      putIn_putIn hsize hhead havail (by simp; omega)]
    simp [Record.image]
  have hput := @putIn_eq q hsize (r.image o) hhead havail (by rwa [Record.image_length])
  simp [Sockq.store, hu, himage, hput]

theorem Repr.store {q : Sockq} (h : Repr o q f) (r : Record)
    (hfit : 40 + r.payload.length ≤ q.avail) :
    Repr o (q.store o r.hwts r.pad r.hdr r.payload) { f with recs := f.recs ++ [r] } := by
  obtain ⟨hsize, hcap, havail, hn, htail, hhead, hstream⟩ := h
  have hpos : f.cap ≠ 0 := by omega
  have hn' : u16 (q.n + 1) = q.n + 1 := by
    have := f.length_le_held
    exact mod_eq_of_lt (by omega)
  have hstore := @store_eq o q r (by omega)
    (by rw [hsize, hhead hpos]; exact mod_lt _ (by omega)) (by omega) hfit
  rw [hsize] at hstore
  have hheld := f.held_append r
  refine ⟨?_, hcap, ?_, ?_, ?_, ?_, ?_⟩
  · rw [hstore]
  · rw [hstore, hheld]
    show q.avail - (40 + r.payload.length) + (f.held + (40 + r.payload.length)) = f.cap
    omega
  · rw [hstore, length_append]
    exact hn'.trans (by rw [hn]; rfl)
  · rw [hstore]
    exact htail
  · intro _
    rw [hstore, hheld]
    rw [hhead hpos, mod_add_mod, Nat.add_assoc]
  · rw [hstore, hheld]
    show Ring.read f.cap (Ring.write f.cap q.buff q.head (r.image o)) q.tail _ = _
    rw [hhead hpos, Ring.write_congr_mod (mod_mod _ _), ← r.image_length o,
      Ring.read_write_append (by rw [r.image_length]; omega), hstream]
    simp [Fifo.stream]

/-- The queue after `a` bytes of a record at `tail` have been read. -/
def Sockq.readTo (q : Sockq) (a : Nat) : Sockq :=
  { q with tail := (q.tail + a) % q.size, avail := q.avail + a }

theorem readTo_zero (htail : q.tail < q.size) : q.readTo 0 = q := by
  simp [Sockq.readTo, mod_eq_of_lt htail]

theorem takeOut_readTo {a len : Nat} (hsize : q.size < 65536) (hpos : 0 < q.size)
    (havail : q.avail + (a + len) ≤ q.size) :
    (q.readTo a).takeOut len 0 =
      (Ring.read q.size q.buff (q.tail + a) len, q.readTo (a + len)) := by
  rw [takeOut_whole (q := q.readTo a) hsize len (mod_lt _ hpos)
    (by simp only [Sockq.readTo]; omega)]
  simp [Sockq.readTo, Ring.read_mod, Nat.add_assoc]

theorem takeOut_readTo_truncated {a len : Nat} (hsize : q.size < 65536) (hpos : 0 < q.size)
    (hbuf : buflen ≠ 0) (havail : q.avail + (a + len) ≤ q.size) (hskip : SkipOk q a len buflen) :
    (q.readTo a).takeOut len buflen
      = (Ring.read q.size q.buff (q.tail + a) (min len buflen), q.readTo (a + len)) := by
  have hskip' : SkipOk (q.readTo a) 0 len buflen := by
    simpa only [SkipOk, Sockq.readTo, mod_add_mod, Nat.zero_add, Nat.add_assoc] using hskip
  rw [takeOut_truncated (q := q.readTo a) hsize hbuf (mod_lt _ hpos)
    (by simp only [Sockq.readTo]; omega) hskip']
  simp [Sockq.readTo, Ring.read_mod, Nat.add_assoc]

theorem read_fields {size : Nat} {m : Mem} {p : Nat} {r : Record}
    (h : Ring.read size m p (40 + r.payload.length) = r.image o) :
    Ring.read size m p 2 = Bytes.imageOf o 2 r.payload.length ∧
      Ring.read size m (p + 2) 24 = hwtsImage o r.hwts r.pad ∧
      Ring.read size m (p + 26) 14 = r.hdr.image ∧
      Ring.read size m (p + 40) r.payload.length = r.payload := by
  rw [show 40 + r.payload.length = 2 + (24 + (14 + r.payload.length)) by omega, Ring.read_add,
    Ring.read_add, Ring.read_add] at h
  obtain ⟨h₁, h⟩ := List.append_inj h (by simp)
  obtain ⟨h₂, h⟩ := List.append_inj h (by simp)
  obtain ⟨h₃, h₄⟩ := List.append_inj h (by simp)
  exact ⟨h₁, h₂, h₃, h₄⟩

theorem takeOut_fields {r : Record} (hsize : q.size < 65536)
    (htail : q.tail < q.size) (havail : q.avail + (40 + r.payload.length) ≤ q.size)
    (hbuf : buflen ≠ 0) (hskip : SkipOk q 40 r.payload.length buflen)
    (h : Ring.read q.size q.buff q.tail (40 + r.payload.length) = r.image o) :
    q.takeOut 2 0 = (Bytes.imageOf o 2 r.payload.length, q.readTo 2) ∧
      (q.readTo 2).takeOut 24 0 = (hwtsImage o r.hwts r.pad, q.readTo 26) ∧
      (q.readTo 26).takeOut 14 0 = (r.hdr.image, q.readTo 40) ∧
      (q.readTo 40).takeOut r.payload.length buflen
        = (r.payload.take buflen, q.readTo (40 + r.payload.length)) := by
  have hpos : 0 < q.size := by omega
  obtain ⟨h₁, h₂, h₃, h₄⟩ := read_fields h
  refine ⟨?_, ?_, ?_, ?_⟩
  · rw [← h₁, ← readTo_zero htail, takeOut_readTo hsize hpos (by omega), readTo_zero htail]
    rfl
  · rw [← h₂, takeOut_readTo hsize hpos (by omega)]
  · rw [← h₃, takeOut_readTo hsize hpos (by omega)]
  · rw [takeOut_readTo_truncated hsize hpos hbuf havail hskip, ← Ring.read_take, h₄]

theorem Repr.fetch {q : Sockq} (h : Repr o q f) {r : Record}
    {rs : List Record} (hrecs : f.recs = r :: rs) (hbuf : buflen ≠ 0)
    (hskip : SkipOk q 40 r.payload.length buflen) :
    q.fetch o buflen = (some (r.fetched buflen),
      ({ q with n := rs.length } : Sockq).readTo (40 + r.payload.length)) := by
  obtain ⟨hsize, hcap, havail, hn, htail, hhead, hstream⟩ := h
  have hheld : f.held = 40 + r.payload.length + ({ f with recs := rs } : Fifo).held := by
    simp [Fifo.held, hrecs]
  have hread : Ring.read q.size q.buff q.tail (40 + r.payload.length) = r.image o := by
    rw [hheld, Ring.read_add, Fifo.stream, hrecs] at hstream
    rw [hsize]
    exact (List.append_inj hstream (by simp)).1
  have hn₀ : ¬ q.n = 0 := by
    rw [hn, hrecs]
    exact succ_ne_zero _
  have hn₁ : u16 (q.n + 65535) = rs.length := by
    have hle := f.length_le_held
    rw [hn, u16]
    rw [hrecs, length_cons] at hle ⊢
    omega
  have hlen : Bytes.ofImage o (Bytes.imageOf o 2 r.payload.length) = r.payload.length :=
    ofImage_imageOf o (by omega)
  have hlt : q.size < 65536 := by rwa [hsize]
  have hfit : q.avail + (40 + r.payload.length) ≤ q.size := by omega
  have hcursor : q.tail < q.size := by
    rw [hsize]
    exact htail (by omega)
  obtain ⟨h₁, h₂, h₃, h₄⟩ := takeOut_fields (q := { q with n := rs.length }) (o := o) (r := r)
    hlt hcursor hfit hbuf hskip hread
  simp only [Sockq.fetch, if_neg hn₀, hn₁, h₁, h₂, h₃, hlen, h₄, Record.fetched,
    EthHdr.ofImage_image, hwtsOfImage_image]

theorem Repr.pop {q : Sockq} (h : Repr o q f)
    (hbuf : buflen ≠ 0) (hskip : ∀ r ∈ f.recs.head?, SkipOk q 40 r.payload.length buflen) :
    (q.fetch o buflen).1 = f.recs.head?.map (Record.fetched · buflen) ∧
      Repr o (q.fetch o buflen).2 f.pop := by
  cases hrecs : f.recs with
  | nil =>
    have hn : q.n = 0 := by rw [h.n_eq, hrecs]; rfl
    have hpop : f.pop = f := by
      cases f
      simp_all [Fifo.pop]
    rw [Sockq.fetch, if_pos hn, hpop]
    exact ⟨rfl, h⟩
  | cons r rs =>
    have hheld : f.held = 40 + r.payload.length + f.pop.held := by
      simp [Fifo.held, Fifo.pop, hrecs]
    have hstream : f.stream o = r.image o ++ f.pop.stream o := by
      simp [Fifo.stream, Fifo.pop, hrecs]
    rw [h.fetch hrecs hbuf (hskip r (by rw [hrecs]; rfl))]
    have havail := h.avail_add_held
    refine ⟨rfl, h.size_eq, h.cap_lt, ?_, ?_, ?_, ?_, ?_⟩
    · show q.avail + (40 + r.payload.length) + f.pop.held = f.cap
      omega
    · show rs.length = f.recs.tail.length
      rw [hrecs, tail_cons]
    · intro hpos
      rw [h.size_eq]
      exact mod_lt _ (Nat.pos_of_ne_zero hpos)
    · intro hpos
      show q.head = ((q.tail + (40 + r.payload.length)) % q.size + f.pop.held) % f.cap
      rw [h.head_eq hpos, h.size_eq, mod_add_mod, hheld, Nat.add_assoc q.tail]
    · show Ring.read f.cap q.buff ((q.tail + (40 + r.payload.length)) % q.size) f.pop.held = _
      have hall := h.stream_eq
      rw [hheld, Ring.read_add, hstream] at hall
      rw [h.size_eq, Ring.read_mod]
      exact (List.append_inj hall (by simp)).2

/-! ## Whole runs -/

abbrev NetPair := NetState × NetSpec

variable {c : NetPair}

def netStep (o : Order) (c : NetPair) (e : NetEvent) : NetPair := (c.1.step o e, c.2.step c.1 e)

def netBoot (vlan : Nat) : NetPair := (NetState.boot vlan, fun _ => { cap := 0, recs := [] })

def Refines (o : Order) (c : NetPair) : Prop := ∀ a, Repr o (c.1.sock a).queue (c.2 a)

def BufferOk : NetEvent → Prop
  | .recv _ dataLength => dataLength ≠ 0
  | _ => True

def RecvOk (c : NetPair) : NetEvent → Prop
  | .recv addr dataLength =>
    ∀ r ∈ (c.2 addr).recs.head?, SkipOk (c.1.sock addr).queue 40 r.payload.length dataLength
  | _ => True

instance decRecvOk (c : NetPair) : DecidablePred (RecvOk c)
  | .recv _ _ => inferInstanceAs (Decidable (∀ _ ∈ _, _))
  | .create _ _ _ _ _ _ => isTrue trivial
  | .close _ => isTrue trivial
  | .poll _ _ => isTrue trivial

def RecvExact (o : Order) (c : NetPair) : NetEvent → Prop
  | .recv addr dataLength =>
    (c.1.recvfrom o addr dataLength).1
      = (c.2 addr).recs.head?.map (Record.fetched · dataLength)
  | _ => True

theorem Refines.update {c : NetPair} (h : Refines o c) {a : Nat} {s : Socket}
    (hnew : Repr o s.queue f) :
    ∀ b, Repr o (Function.update c.1.sock a s b).queue (Function.update c.2 a f b) := by
  intro b
  by_cases hb : b = a
  · rw [hb, update_self, update_self]
    exact hnew
  · rw [update_of_ne hb, update_of_ne hb]
    exact h b

theorem Refines.accept (h : Refines o c) (a : Nat) (rx : RxFrame) :
    Repr o (if (c.1.sock a).queue.avail < 14 + rx.untag.recvd + 24 + 2 then (c.1.sock a).queue
        else (c.1.sock a).queue.store o rx.hwts rx.pad rx.untag.hdr
          (rx.untag.payload.read 0 rx.untag.recvd))
      ((c.2 a).push rx.record) := by
  have hlen : rx.record.payload.length = rx.untag.recvd := Mem.read_length _ _ _
  have havail := (h a).avail_add_held
  rw [Fifo.push]
  split
  · rw [if_neg (by omega)]
    exact h a
  · rw [if_pos (by omega)]
    exact (h a).store rx.record (by omega)

theorem netStep_refines {e : NetEvent} (h : Refines o c) (hbuf : BufferOk e) (hok : RecvOk c e) :
    Refines o (netStep o c e) := by
  cases e with
  | create addr len bindType udp udpport nif =>
    simp only [netStep, NetState.step, NetState.createSocket, NetSpec.step]
    cases NetState.claimSlot addr c.1.socks with
    | none => exact h
    | some socks => exact h.update (Repr.empty o len _)
  | close addr => exact h
  | poll nif rx =>
    cases rx with
    | none => exact h
    | some rx =>
      simp only [netStep, NetState.step, NetState.netifPoll, NetSpec.step]
      by_cases hvlan : rx.untag.tag.toNat % 4096 ≠ c.1.vlan
      · rw [if_pos hvlan, if_pos hvlan]
        exact h
      · rw [if_neg hvlan, if_neg hvlan]
        cases c.1.demux nif rx.untag with
        | none => exact h
        | some a =>
          have hacc := h.accept a rx
          by_cases hfull : (c.1.sock a).queue.avail < 14 + rx.untag.recvd + 24 + 2
          · rw [if_pos hfull] at hacc
            have hsame := h.update (a := a) hacc
            rw [update_eq_self] at hsame
            simp only [if_pos hfull]
            exact hsame
          · rw [if_neg hfull] at hacc
            simp only [if_neg hfull]
            exact h.update hacc
  | recv addr dataLength => exact h.update ((h addr).pop hbuf hok).2

theorem recvExact_of_refines {e : NetEvent} (h : Refines o c) (hbuf : BufferOk e)
    (hok : RecvOk c e) : RecvExact o c e := by
  cases e with
  | recv addr dataLength => exact ((h addr).pop hbuf hok).1
  | create | close | poll => trivial

def QueueOk (q : Sockq) (f : Fifo) : Prop :=
  q.head < q.size ∧ q.tail < q.size ∧ q.avail + f.held = q.size ∧ q.n = f.recs.length

instance (q : Sockq) (f : Fifo) : Decidable (QueueOk q f) := inferInstanceAs (Decidable (_ ∧ _))

def QueuesOk (c : NetPair) : Prop := ∀ a, (c.2 a).cap ≠ 0 → QueueOk (c.1.sock a).queue (c.2 a)

theorem Refines.queuesOk (h : Refines o c) : QueuesOk c := by
  intro a hpos
  obtain ⟨hsize, hcap, havail, hn, htail, hhead, hstream⟩ := h a
  refine ⟨?_, ?_, ?_, hn⟩
  · rw [hhead hpos, hsize]
    exact mod_lt _ (Nat.pos_of_ne_zero hpos)
  · rw [hsize]
    exact htail hpos
  · rw [hsize]
    exact havail

theorem refines_boot (o : Order) (vlan : Nat) : Refines o (netBoot vlan) :=
  fun _ => Repr.empty o 0 _

/-- In every run from boot whose truncated reads neither end on the end of the
ring nor overflow, every queue is a lossless FIFO: its cursors stay inside,
its books balance, and each read returns the oldest record. -/
theorem netRun_lossless (o : Order) (vlan : Nat) (es : List NetEvent)
    (hbuf : ∀ e ∈ es, BufferOk e) (hok : Run.Steps (netStep o) RecvOk (netBoot vlan) es) :
    Run.Always (netStep o) QueuesOk (netBoot vlan) es ∧
      Run.Steps (netStep o) (RecvExact o) (netBoot vlan) es := by
  have hsteps := (Run.steps_of_forall hbuf).and hok
  constructor
  · exact Run.always_of_inv (fun c e hI hp => netStep_refines hI hp.1 hp.2)
      (fun c hI => hI.queuesOk) (refines_boot o vlan) hsteps
  · exact Run.steps_of_inv (fun c e hI hp => netStep_refines hI hp.1 hp.2)
      (fun c e hI hp => recvExact_of_refines hI hp.1 hp.2) (refines_boot o vlan) hsteps

/-- A socket takes one minimal frame, whose reader has room for 10 bytes. -/
def truncatedRun (len : Nat) : List NetEvent :=
  [.create 0 len (some 0x88f7) false 0 0, .poll 0 (some minimalFrame), .recv 0 10]

theorem netRun_lossless_truncated :
    Run.Always (netStep .little) QueuesOk (netBoot 0) (truncatedRun 128) ∧
      Run.Steps (netStep .little) (RecvExact .little) (netBoot 0) (truncatedRun 128) :=
  netRun_lossless .little 0 (truncatedRun 128) (by simp [truncatedRun, BufferOk])
    (by decide +kernel)

/-- In a queue of 86 bytes the same read leaves `tail` on 86. -/
theorem netRun_tail_past_end : ¬ ∀ (o : Order) (vlan : Nat) (es : List NetEvent),
    (∀ e ∈ es, BufferOk e) → Run.Always (netStep o) QueuesOk (netBoot vlan) es ∧
        Run.Steps (netStep o) (RecvExact o) (netBoot vlan) es := by
  intro h
  have hrun := (h .little 0 (truncatedRun 86) (by simp [truncatedRun, BufferOk])).1.last
  exact absurd (hrun 0 (by decide)) (by decide +kernel)

end Wrpc.Net
