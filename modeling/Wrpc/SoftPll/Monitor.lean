/-
# The tracker of a monitored channel

The phase tracker of an auxiliary channel in `SPLL_AUX_MODE_PHASE_MONITOR` lies
over the first words of the PLL of that channel.  `spll_init` initialises the
PLL and leaves a bias where the tracker keeps `preserve_sign`, which
`ptrackers_update` adds to an index of `adj_tab`, and the tracker may still be
enabled.  What keeps such a tracker from being used is its tagger: `spll_init`
disables all taggers and empties the tag FIFO, and the channel's tagger is only
enabled again behind `ptracker_start`.

`Node` is the SoftPLL with its tag FIFO.  The invariant `Monitored` says that the
tracker is in order, or that no tag can reach it; `monitorRun_safe` follows for
every run in which the channel is not given to `spll_init` as the reference of a
slave.  With such a call the helper enables the tagger of the channel, and the
tracker is used as `spll_init` left it (`monitorRun_aux_reference`).
-/
import Wrpc.SoftPll.Taggers
import Wrpc.SoftPll.RefLock

namespace Wrpc.SoftPll

open CInt List Run

variable {trr : BitVec 32} {source : Nat} {v : Int}

variable {b : Board}

/-! ## The tag FIFO

A tag can be served after its tagger was switched off, so the invariant speaks of the tags in the
FIFO too. -/

structure Node where
  spll : State
  fifo : List (BitVec 32)

/-- A tag comes into the FIFO, `spll_irq_entry` takes one out of it, or something else happens to
the SoftPLL. -/
inductive NodeEvent
  | arrive (trr : BitVec 32)
  | serve
  | call (e : Event)

/-- Whether `spll_init` gets as far as the loop that empties the FIFO. -/
def purges (b : Board) : Event → Bool
  | .init mode _ => mode ≠ .grandMaster ∨ b.extSupported
  | _ => false

def Node.step (b : Board) (x : Node) : NodeEvent → Node
  | .arrive trr => { x with fifo := x.fifo ++ [trr] }
  | .serve =>
    match x.fifo with
    | [] => x
    | trr :: rest =>
      if x.spll.regs.eicEnabled ∧ x.spll.regs.irqOn then
        ⟨handleTag b x.spll (tagValueOf trr) (tagSourceOf trr), rest⟩
      else x
  | .call e => ⟨x.spll.step b e, if purges b e then [] else x.fifo⟩

theorem Node.step_serve {x : Node} {rest : List (BitVec 32)}
    (h : x.fifo = trr :: rest) (hon : x.spll.regs.eicEnabled = true ∧ x.spll.regs.irqOn = true) :
    x.step b .serve = ⟨handleTag b x.spll (tagValueOf trr) (tagSourceOf trr), rest⟩ := by
  simp only [Node.step, h, if_pos hon]

/-- Tags come from channels whose tagger is enabled, and only through the FIFO. -/
def TagAllowed (b : Board) (x : Node) : NodeEvent → Prop
  | .arrive trr => taggerOn b x.spll.regs (tagSourceOf trr) = true
  | .serve => True
  | .call (.tag _) => False
  | .call _ => True

/-- The channel of aux output `i`. -/
def auxChannel (b : Board) (i : Nat) : Nat := b.nChanRef + i + 1

/-- Aux output `i` is not the reference of a slave. -/
def KeepsAway (b : Board) (i : Nat) : NodeEvent → Prop
  | .call (.init _ refChannel) => refChannel ≠ auxChannel b i
  | _ => True

/-! ## What is asked of a monitored channel -/

/-- The state in which `update_loops` comes to the aux PLLs and the trackers, if it does. -/
def beforeAuxes (b : Board) (s : State) (v : Int) (source : Nat) : Option State :=
  let s := updateHelper (sequencingFsm b s source) v source
  if s.helper.ld.locked then
    let s := updateMain b s v source
    if s.seqState = .ready then some s else none
  else none

/-- The state in which it comes to the PLL of output `i`, in slave mode. -/
def beforeAux (b : Board) (s : State) (v : Int) (source i : Nat) : State :=
  (List.range i).foldl (fun s j => updateAux b s v source j) s

def beforeTrackers (b : Board) (s : State) (v : Int) (source : Nat) : State :=
  if s.mode = .slave then updateAuxes b s v source else s

/-- The index of `adj_tab` that `ptrackers_update` uses. -/
def adjIndex (reverseSpll tagRef : Int) (p : Ptracker) (tag : Int) : Int :=
  (if reverseSpll = 0 then (tagRef - tag) % 2 ^ 14 else (tag - tagRef) % 2 ^ 14) / 2 ^ 12 +
    p.preserveSign

/-- `ptrackers_update` on the tracker of output `i` stays inside of `adj_tab`; a disabled tracker
and the first sample of a block do not use the table. -/
def IndexInside (s : State) (i : Nat) (tag : Int) : Prop :=
  (s.aux i).tracker.enabled ≠ 0 → (s.aux i).tracker.avgCount ≠ 0 →
    0 ≤ adjIndex s.reverseSpll s.ptrackerTagRef (s.aux i).tracker tag ∧
      adjIndex s.reverseSpll s.ptrackerTagRef (s.aux i).tracker tag < 16

/-- `AUX_WAIT_MONITOR_LOCK` and `AUX_MONITOR_READY` -/
def Aux.Monitoring (a : Aux) : Prop := a.seqState = .waitMonitorLock ∨ a.seqState = .monitorReady

/-- What a tag may do to output `i`. -/
def TagSafe (b : Board) (i : Nat) (s : State) (v : Int) (source : Nat) : Prop :=
  ∀ u, beforeAuxes b s v source = some u →
    (u.mode = .slave → ((beforeAux b u v source i).aux i).Monitoring →
      ((updateAux b (beforeAux b u v source i) v source i).aux i).tracker =
        ((beforeAux b u v source i).aux i).tracker) ∧
    (source = auxChannel b i → IndexInside (beforeTrackers b u v source) i v)

/-- The same of every event.  `mpll_stop` is called by `spll_update`, when
it comes to the channel. -/
def MonitorSafeAt (b : Board) (i : Nat) (x : Node) : NodeEvent → Prop
  | .serve => ∀ trr rest, x.fifo = trr :: rest →
      x.spll.regs.eicEnabled = true ∧ x.spll.regs.irqOn = true →
        TagSafe b i x.spll (tagValueOf trr) (tagSourceOf trr)
  | .call .update =>
    let u := ((List.range' 1 i).foldl (auxTurn b) (alignPoll b x.spll)).1
    (u.aux i).Monitoring → ((spllStopChannel b u (i + 1)).aux i).tracker = (u.aux i).tracker
  | _ => True

/-! ## The invariant -/

/-- `preserve_sign` as `ptracker_start` and `ptrackers_update` leave it. -/
def Ptracker.Settled (p : Ptracker) : Prop := ∃ q, 0 ≤ q ∧ q < 4 ∧ p.preserveSign = q * 4

/-- No loop, tracker or other PLL is on the channel of output `i`. -/
structure Away (b : Board) (i : Nat) (s : State) : Prop where
  refSrc : s.helper.refSrc ≠ auxChannel b i
  idRef : s.mpll.idRef ≠ auxChannel b i
  idOut : s.mpll.idOut ≠ auxChannel b i
  trackerId : ∀ k, k < b.nChanRef → (s.ptrackers k).id.toNat ≠ auxChannel b i
  aux : ∀ j, j + 1 < b.nChanOut → j ≠ i →
    (s.aux j).dmtd.idRef ≠ auxChannel b i ∧ (s.aux j).dmtd.idOut ≠ auxChannel b i

/-- No tag of output `i` is on its way to the interrupt handler. -/
def OutOfReach (b : Board) (i : Nat) (fifo : List (BitVec 32)) (r : Regs) : Prop :=
  taggerOn b r (auxChannel b i) = false ∧
    ((∀ trr ∈ fifo, tagSourceOf trr ≠ auxChannel b i) ∨ r.eicEnabled = false)

structure Monitored (b : Board) (i : Nat) (fifo : List (BitVec 32)) (s : State) : Prop where
  mode : (s.aux i).mode = .phaseMonitor
  idle : (s.aux i).dmtd.enabled = false
  away : Away b i s
  tracker : (s.aux i).tracker.Settled ∨ OutOfReach b i fifo s.regs

section

variable {i : Nat} {s : State} {fifo : List (BitVec 32)}

theorem Ptracker.Settled.inside {p : Ptracker} (h : p.Settled) (reverseSpll tagRef tag : Int) :
    0 ≤ adjIndex reverseSpll tagRef p tag ∧ adjIndex reverseSpll tagRef p tag < 16 := by
  obtain ⟨q, hq, hq', hp⟩ := h
  unfold adjIndex
  split
  · omega
  · omega

theorem ptrackerUpdate_settled {p : Ptracker} (h : p.Settled) (reverseSpll tagRef tag : Int) :
    (ptrackerUpdate reverseSpll tagRef p tag).Settled := by
  have hrange : ∀ x : Int, 0 ≤ x % 2 ^ 14 / 2 ^ 12 ∧ x % 2 ^ 14 / 2 ^ 12 < 4 := fun x => by omega
  unfold ptrackerUpdate
  split
  · exact h
  · dsimp only
    split
    · -- the first sample of a block
      split
      · exact ⟨_, (hrange _).1, (hrange _).2, rfl⟩
      · exact ⟨_, (hrange _).1, (hrange _).2, rfl⟩
    · split
      · exact h
      · exact h

theorem taggable_aux (hi : i + 1 < b.nChanOut) : Taggable b (auxChannel b i) := by
  have := nChanOut_le b
  unfold Taggable auxChannel
  omega

theorem Away.not_uses (h : Away b i s) : ¬s.Uses b (auxChannel b i) := by
  intro huse
  cases huse with
  | main hc =>
    unfold auxChannel at hc
    omega
  | helper hc => exact h.refSrc hc
  | mpllRef hc => exact h.idRef hc
  | mpllOut hc => exact h.idOut hc
  | tracker hk hc => exact h.trackerId _ hk hc

theorem Away.of_same {s' : State} (h : Away b i s) (hs : s.SameChannels s') : Away b i s' := by
  refine ⟨?_, ?_, ?_, fun k hk => ?_, fun j hj hne => ?_⟩
  · rw [hs.refSrc]
    exact h.refSrc
  · rw [hs.idRef]
    exact h.idRef
  · rw [hs.idOut]
    exact h.idOut
  · rw [hs.trackerId]
    exact h.trackerId k hk
  · rw [hs.auxRef, hs.auxOut]
    exact h.aux j hj hne

theorem OutOfReach.congr {r r' : Regs} (h : OutOfReach b i fifo r)
    (ht : taggerOn b r' (auxChannel b i) = taggerOn b r (auxChannel b i))
    (he : r'.eicEnabled = r.eicEnabled) : OutOfReach b i fifo r' := by
  refine ⟨ht.trans h.1, ?_⟩
  rw [he]
  exact h.2

theorem Monitored.of_same {s' : State} (h : Monitored b i fifo s) (hs : s.SameChannels s')
    (ha : (s.aux i).Same (s'.aux i))
    (ht : taggerOn b s'.regs (auxChannel b i) = taggerOn b s.regs (auxChannel b i)) :
    Monitored b i fifo s' := by
  refine ⟨ha.mode.trans h.mode, ha.enabled.trans h.idle, h.away.of_same hs, ?_⟩
  rw [ha.tracker]
  exact h.tracker.imp_right fun hout => hout.congr ht hs.eicEnabled

/-! ### Tags -/

theorem beforeAux_aux (s : State) (h : (s.aux i).dmtd.enabled = false) (v : Int) (source n : Nat) :
    (beforeAux b s v source n).aux i = s.aux i := by
  rw [beforeAux, (updateAux_range s v source n).2 i]
  split
  · rw [mpllUpdate_of_disabled _ _ h]
  · rfl

theorem beforeTrackers_aux (s : State) (h : (s.aux i).dmtd.enabled = false) (v : Int)
    (source : Nat) :
    (beforeTrackers b s v source).aux i = s.aux i := by
  unfold beforeTrackers
  split
  · exact beforeAux_aux s h v source (b.nChanOut - 1)
  · rfl

theorem handleTag_of_some {u : State} (h : beforeAuxes b s v source = some u) :
    u.aux = s.aux ∧
      handleTag b s v source = updatePtrackers b (beforeTrackers b u v source) v source := by
  have haux := (sequencingFsm_frame (b := b) s source).aux
  unfold beforeAuxes at h
  dsimp only at h
  split at h
  case isFalse => cases h
  case isTrue hl =>
    split at h
    case isFalse => cases h
    case isTrue hr =>
      cases h
      refine ⟨haux, ?_⟩
      unfold handleTag updateLoops
      simp only [hl, hr]
      rfl

theorem handleTag_of_none (h : beforeAuxes b s v source = none) :
    (handleTag b s v source).aux = s.aux := by
  have haux := (sequencingFsm_frame (b := b) s source).aux
  unfold beforeAuxes at h
  unfold handleTag updateLoops
  dsimp only at h ⊢
  split
  case isFalse => exact haux
  case isTrue hl =>
    rw [if_pos hl] at h
    split
    case isFalse => exact haux
    case isTrue hr =>
      rw [if_pos hr] at h
      cases h

theorem updateRefPtrackers_aux (s : State) (v : Int) (source : Nat) :
    (updateRefPtrackers b s v source).aux = s.aux := by
  unfold updateRefPtrackers
  grind

/-- A tag of another channel does not get to the tracker of output `i`; one of its own leaves it
settled. -/
theorem updatePtrackers_monitored (s : State) (v : Int) (source : Nat) :
    (updatePtrackers b s v source).aux i = s.aux i ∨ (source = auxChannel b i ∧
        ∃ p, (updatePtrackers b s v source).aux i = (s.aux i).withTracker p ∧
        ((s.aux i).tracker.Settled → p.Settled)) := by
  have href := updateRefPtrackers_aux (b := b) s v source
  unfold updatePtrackers
  dsimp only
  split
  case isFalse => exact .inl (congrFun href i)
  case isTrue hsource =>
    by_cases hi : i = source - b.nChanRef - 1
    · refine .inr ⟨by unfold auxChannel; omega, ?_⟩
      rw [← hi]
      unfold updateAuxPtracker
      rw [href]
      split
      · exact ⟨_, setAux_aux_self _ _ _, id⟩
      · refine ⟨_, setAux_aux_self _ _ _, fun h => ptrackerUpdate_settled ?_ _ _ _⟩
        exact h
    · left
      unfold updateAuxPtracker
      split
      · rw [State.setAux_aux, if_neg hi, href]
      · rw [State.setAux_aux, if_neg hi, href]

theorem handleTag_monitored (hidle : (s.aux i).dmtd.enabled = false) (v : Int) (source : Nat) :
    (handleTag b s v source).aux i = s.aux i ∨
      (source = auxChannel b i ∧ ∃ p, (handleTag b s v source).aux i = (s.aux i).withTracker p ∧
        ((s.aux i).tracker.Settled → p.Settled)) := by
  cases h : beforeAuxes b s v source with
  | none => exact .inl (congrFun (handleTag_of_none h) i)
  | some u =>
    obtain ⟨haux, htag⟩ := handleTag_of_some h
    have hu : u.aux i = s.aux i := congrFun haux i
    have hbefore := beforeTrackers_aux (b := b) u (by rw [hu]; exact hidle) v source
    have hupdate := updatePtrackers_monitored (b := b) (i := i)
      (beforeTrackers b u v source) v source
    rw [hbefore, hu] at hupdate
    rw [htag]
    exact hupdate

theorem Monitored.settled (h : Monitored b i fifo s) (hmem : trr ∈ fifo)
    (he : s.regs.eicEnabled = true) (hsource : tagSourceOf trr = auxChannel b i) :
    (s.aux i).tracker.Settled := by
  rcases h.tracker with h | ⟨-, h | h⟩
  · exact h
  · exact absurd hsource (h trr hmem)
  · rw [he] at h
    cases h

theorem Monitored.serve (hi : i + 1 < b.nChanOut)
    (h : Monitored b i (trr :: fifo) s) (he : s.regs.eicEnabled = true) :
    Monitored b i fifo (handleTag b s (tagValueOf trr) (tagSourceOf trr)) := by
  have hsame := handleTag_sameChannels (b := b) s (tagValueOf trr) (tagSourceOf trr)
  have htagger : taggerOn b (handleTag b s (tagValueOf trr) (tagSourceOf trr)).regs
      (auxChannel b i) =
      taggerOn b s.regs (auxChannel b i) := by
    rcases handleTag_tagger s (tagValueOf trr) (tagSourceOf trr)
      (taggable_aux hi) with ht | ht | ht
    · exact ht
    · exact absurd ht.2 h.away.not_uses
    · exact absurd (.main ht.2) h.away.not_uses
  have hframe := (handleTag_monitored (b := b) h.idle (tagValueOf trr) (tagSourceOf trr))
  rcases hframe with haux | ⟨hsource, p, haux, hp⟩
  · refine ⟨by rw [haux]; exact h.mode, by rw [haux]; exact h.idle, h.away.of_same hsame, ?_⟩
    rw [haux]
    refine h.tracker.imp_right fun hout => (OutOfReach.congr ⟨hout.1, ?_⟩ htagger hsame.eicEnabled)
    exact hout.2.imp_left fun hfifo t ht => hfifo t (mem_cons_of_mem _ ht)
  · refine ⟨by rw [haux]; exact h.mode, by rw [haux]; exact h.idle, h.away.of_same hsame, .inl ?_⟩
    rw [haux]
    exact hp (h.settled mem_cons_self he hsource)

theorem Monitored.arrive (h : Monitored b i fifo s)
    (ht : taggerOn b s.regs (tagSourceOf trr) = true) : Monitored b i (fifo ++ [trr]) s := by
  refine ⟨h.mode, h.idle, h.away, h.tracker.imp_right fun hout => ⟨hout.1, ?_⟩⟩
  refine hout.2.imp_left fun hfifo t hmem => ?_
  rcases List.mem_append.mp hmem with hmem | hmem
  · exact hfifo t hmem
  · rw [List.mem_singleton.mp hmem]
    intro hsource
    rw [hsource, hout.1] at ht
    cases ht

/-! ### Polls -/

theorem Monitored.align (hi : i + 1 < b.nChanOut) (h : Monitored b i fifo s) :
    Monitored b i fifo (alignPoll b s).1 := by
  have hsame := alignPoll_sameChannels (b := b) s
  have haux := congrFun (alignPoll_alignFrame (b := b) s).aux i
  have htagger : taggerOn b (alignPoll b s).1.regs (auxChannel b i) =
      taggerOn b s.regs (auxChannel b i) := by
    rcases alignPoll_tagger s (taggable_aux hi) with ht | ht
    · exact ht
    · exact absurd ht h.away.not_uses
  exact h.of_same hsame (haux ▸ .refl _) htagger

theorem Monitored.other {ch : Nat} (hi : i + 1 < b.nChanOut) (h : Monitored b i fifo s)
    (hch : ch ≠ 0) (hlt : ch < b.nChanOut) (hne : ch - 1 ≠ i) :
    Monitored b i fifo (spllUpdateAuxClock b s ch).1 := by
  have hsame := spllUpdateAuxClock_sameChannels (b := b) s hch
  have haux := (spllUpdateAuxClock_auxFrame (b := b) s hch).aux i (Ne.symm hne)
  have hc := taggable_aux hi
  obtain ⟨href, hout⟩ := h.away.aux (ch - 1) (by omega) hne
  have htagger : taggerOn b (spllUpdateAuxClock b s ch).1.regs (auxChannel b i) =
      taggerOn b s.regs (auxChannel b i) := by
    obtain ⟨a, r, hs, hmove⟩ := spllUpdateAuxClock_moves (b := b) s hch
    rw [hs]
    cases hmove with
    | quiet _ hr => rcases hr with rfl | ⟨_, rfl⟩ <;> rfl
    | stop _ h' =>
      rw [h']
      exact (taggerOn_enableTagger _ _ _ hc).trans (if_neg hout)
    | start tics _ _ h' =>
      have hids := withRatio_ids (b := b) (s.aux (ch - 1))
      rw [h', mpllStart_tagger _ _ _ hc, hids.1, hids.2, if_neg (by simp [href, hout])]
    | monitor _ _ h' =>
      have hid : (ptrackerInit (s.aux (ch - 1)).tracker (ch + b.nChanRef) 512).id.toNat =
        ch + b.nChanRef := Int.toNat_natCast _
      rw [h', ptrackerStart_tagger _ _ hc, if_neg (by unfold auxChannel; omega)]
  exact h.of_same hsame (haux ▸ .refl _) htagger

theorem Monitored.poll (hi : i + 1 < b.nChanOut) (h : Monitored b i fifo s) :
    Monitored b i fifo (spllUpdateAuxClock b s (i + 1)).1 := by
  have hch : i + 1 ≠ 0 := Nat.succ_ne_zero i
  have hsame := spllUpdateAuxClock_sameChannels (b := b) s hch
  have haway := h.away.of_same hsame
  obtain ⟨a, r, hs, hmove⟩ := spllUpdateAuxClock_moves (b := b) s hch
  rw [Nat.add_sub_cancel] at hmove
  have haux : (spllUpdateAuxClock b s (i + 1)).1.aux i = a := by
    rw [hs]
    exact setAux_aux_self s i a
  cases hmove with
  | quiet ha hr =>
    refine h.of_same hsame (haux ▸ ha) ?_
    rw [hs]
    rcases hr with rfl | ⟨_, rfl⟩ <;> rfl
  | stop ha h' =>
    refine ⟨by rw [haux, ha]; exact h.mode, by rw [haux, ha], haway, ?_⟩
    rw [haux, ha]
    refine h.tracker.imp_right fun hout => ⟨?_, ?_⟩
    · rw [hs, h']
      refine (taggerOn_enableTagger _ _ _ (taggable_aux hi)).trans ?_
      split
      · rfl
      · exact hout.1
    · rw [hsame.eicEnabled]
      exact hout.2
  | start tics hm _ _ =>
    rw [h.mode] at hm
    cases hm
  | monitor _ ha _ =>
    refine ⟨by rw [haux, ha]; exact h.mode, by rw [haux, ha]; exact h.idle, haway, .inl ?_⟩
    rw [haux, ha]
    exact ⟨0, Int.le_refl 0, by decide, rfl⟩

theorem Monitored.update (hi : i + 1 < b.nChanOut) (h : Monitored b i fifo s) :
    Monitored b i fifo (spllUpdate b s).1 := by
  refine List.foldlRecOn _ _ (motive := fun u : State × Bool => Monitored b i fifo u.1)
    (h.align hi) ?_
  intro u hu ch hch
  have hrange := List.mem_range'_1.mp hch
  by_cases hown : ch - 1 = i
  · have hch' : ch = i + 1 := by omega
    rw [hch']
    exact hu.poll hi
  · exact hu.other hi (by omega) (by omega) hown

theorem spllInit_away (hi : i + 1 < b.nChanOut) (s : State) (mode : Mode) {refChannel : Nat}
    (href : refChannel ≠ auxChannel b i) : Away b i (spllInit b s mode refChannel) := by
  have hmain : b.nChanRef ≠ auxChannel b i := by
    unfold auxChannel
    omega
  have hloops : Away b i (initLoops b s mode refChannel) := by
    refine ⟨?_, href, hmain, fun k hk => ?_, fun j hj hne => ?_⟩
    · show (if mode = .slave then refChannel else b.nChanRef) ≠ auxChannel b i
      split
      · exact href
      · exact hmain
    · simp only [initLoops, if_pos hk, ptrackerInit]
      unfold auxChannel
      omega
    · simp only [initLoops, if_pos hj, mpllInit]
      refine ⟨href, ?_⟩
      unfold auxChannel
      omega
  cases mode with
  | disabled => exact hloops
  | grandMaster =>
    unfold spllInit
    dsimp only
    split
    · -- the external channel lies behind the outputs
      have hext : b.nChanRef + b.nChanOut +
          (if b.scbLjdPresent then 1 else 0) ≠ auxChannel b i := by
        unfold auxChannel
        omega
      exact ⟨hext, hext, hmain, hloops.trackerId, hloops.aux⟩
    · exact hloops
  | freeRunningMaster =>
    exact ⟨hloops.refSrc, hloops.idRef, hloops.idOut, hloops.trackerId, hloops.aux⟩
  | slave => exact ⟨hloops.refSrc, hloops.idRef, hloops.idOut, hloops.trackerId, hloops.aux⟩

/-- All taggers of the aux outputs are off behind `spll_init`, and the FIFO is empty if the
interrupt is on. -/
theorem spllInit_outOfReach (s : State) (mode : Mode) (refChannel : Nat)
    (fifo : List (BitVec 32)) :
    OutOfReach b i (if purges b (.init mode refChannel) then [] else fifo)
      (spllInit b s mode refChannel).regs := by
  have hbit : auxChannel b i - b.nChanRef = i + 1 := by
    unfold auxChannel
    omega
  have hoff : ∀ r : Regs, r.ocer = 0 ∨ r.ocer = 0 ||| 1 →
      taggerOn b r (auxChannel b i) = false := by
    intro r hr
    rw [taggerOn, if_pos (by omega), hbit]
    rcases hr with hr | hr
    · rw [hr]
      exact BitVec.getLsbD_zero
    · rw [hr]
      simp
  have hempty : ∀ trr ∈ ([] : List (BitVec 32)), tagSourceOf trr ≠ auxChannel b i :=
    forall_mem_nil _
  cases mode with
  | disabled => exact ⟨hoff _ (.inl rfl), .inl hempty⟩
  | grandMaster =>
    by_cases hext : b.extSupported = true
    · simp only [spllInit, purges, hext]
      exact ⟨hoff _ (.inr rfl), .inl hempty⟩
    · simp only [spllInit, hext]
      exact ⟨hoff _ (.inl rfl), .inr rfl⟩
  | freeRunningMaster => exact ⟨hoff _ (.inr rfl), .inl hempty⟩
  | slave => exact ⟨hoff _ (.inr rfl), .inl hempty⟩

theorem spllInit_monitored (hi : i + 1 < b.nChanOut)
    (hm : (s.aux i).mode = .phaseMonitor) (mode : Mode) {refChannel : Nat}
    (href : refChannel ≠ auxChannel b i) (fifo : List (BitVec 32)) :
    Monitored b i (if purges b (.init mode refChannel) then [] else fifo)
      (spllInit b s mode refChannel) := by
  have haux : (spllInit b s mode refChannel).aux i = { s.aux i with
      dmtd := mpllInit b false (s.aux i).dmtd refChannel (b.nChanRef + i + 1)
      seqState := .disabled } := by
    rw [(spllInit_spec s mode refChannel).1]
    exact if_pos hi
  refine ⟨by rw [haux]; exact hm, by rw [haux]; rfl, spllInit_away hi s mode href,
    .inr (spllInit_outOfReach s mode refChannel fifo)⟩

/-! ### Runs -/

theorem Monitored.call {e : Event} (hi : i + 1 < b.nChanOut) (h : Monitored b i fifo s)
    (htag : TagAllowed b ⟨s, fifo⟩ (.call e)) (haway : KeepsAway b i (.call e)) :
    Monitored b i (if purges b e then [] else fifo) (s.step b e) := by
  have hsame : ∀ s' : State, s'.aux = s.aux → s'.helper = s.helper → s'.mpll.idRef = s.mpll.idRef →
      s'.mpll.idOut = s.mpll.idOut → s'.ptrackers = s.ptrackers → s'.regs = s.regs →
      Monitored b i fifo s' := by
    intro s' haux hh href hout ht hr
    exact h.of_same ⟨by rw [hr], by rw [hh], href, hout, fun k => by rw [ht],
      fun j => by rw [haux], fun j => by rw [haux]⟩ (haux ▸ .refl _) (by rw [hr])
  cases e with
  | tag trr => exact htag.elim
  | irqEnd =>
    show Monitored b i fifo
      (if s.regs.eicEnabled ∧ s.regs.irqOn then { s with irqCount := s.irqCount + 1 } else s)
    split
    · exact hsame _ rfl rfl rfl rfl rfl rfl
    · exact h
  | update => exact h.update hi
  | setPhaseShift channel ps =>
    obtain ⟨_, _, _, hs⟩ := spllSetPhaseShift_shifted s channel ps
    rw [State.step, hs]
    exact h.of_same ⟨rfl, rfl, rfl, rfl, fun _ => rfl, fun _ => rfl, fun _ => rfl⟩
      ⟨rfl, rfl, rfl, rfl, rfl⟩ rfl
  | init mode refChannel => exact spllInit_monitored hi h.mode mode haway fifo
  | setPsFreeze freeze => exact hsame _ rfl rfl rfl rfl rfl rfl
  | setVcoFreeze freeze => exact hsame _ rfl rfl rfl rfl rfl rfl
  | hw hw => exact hsame _ rfl rfl rfl rfl rfl rfl

theorem Monitored.step {x : Node} (hi : i + 1 < b.nChanOut) (h : Monitored b i x.fifo x.spll)
    (e : NodeEvent) (htag : TagAllowed b x e) (haway : KeepsAway b i e) :
    Monitored b i (x.step b e).fifo (x.step b e).spll := by
  cases e with
  | arrive trr => exact h.arrive htag
  | serve =>
    cases hfifo : x.fifo with
    | nil =>
      have hstep : x.step b .serve = x := by simp only [Node.step, hfifo]
      rw [hstep]
      exact h
    | cons trr rest =>
      by_cases hon : x.spll.regs.eicEnabled = true ∧ x.spll.regs.irqOn = true
      · rw [Node.step_serve hfifo hon]
        exact (hfifo ▸ h).serve hi hon.1
      · have hstep : x.step b .serve = x := by simp only [Node.step, hfifo, if_neg hon]
        rw [hstep]
        exact h
  | call e => exact h.call hi htag haway

theorem Monitored.safe {x : Node} (h : Monitored b i x.fifo x.spll) (e : NodeEvent) :
    MonitorSafeAt b i x e := by
  cases e with
  | arrive trr => trivial
  | serve =>
    intro trr rest hfifo hon u hu
    have haux : u.aux i = x.spll.aux i := congrFun (handleTag_of_some hu).1 i
    have hidle : (u.aux i).dmtd.enabled = false := by
      rw [haux]
      exact h.idle
    refine ⟨fun _ _ => ?_, fun hsource => ?_⟩
    · have hbefore := beforeAux_aux (b := b) u hidle (tagValueOf trr) (tagSourceOf trr) i
      rw [updateAux_aux, if_pos rfl, mpllUpdate_of_disabled _ _ (by rw [hbefore]; exact hidle)]
    · have hmem : trr ∈ x.fifo := by
        rw [hfifo]
        exact mem_cons_self
      have hsettled := h.settled hmem hon.1 hsource
      have hbefore := beforeTrackers_aux (b := b) u hidle (tagValueOf trr) (tagSourceOf trr)
      unfold IndexInside
      rw [hbefore, haux]
      exact fun _ _ => hsettled.inside _ _ _
  | call e =>
    cases e with
    | update =>
      intro _
      simp only [spllStopChannel, if_neg (Nat.succ_ne_zero i), Nat.add_sub_cancel, setAux_aux_self]
      rfl
    | tag | irqEnd | setPhaseShift | init | setPsFreeze | setVcoFreeze | hw => trivial

end

/-- After `spll_very_init`, with the gain schedule, the trackers and the modes and ratios of the aux
outputs that a board asks for. -/
def State.setUp (b : Board) (reverseSpll : Int) (mask : BitVec 32) (sched : Option GainSchedule)
    (outputs : Nat → AuxMode × Int × Int) : State :=
  { State.boot b reverseSpll with
    ptrackerMask := mask
    mpll := { (default : Main) with gainSched := sched }
    aux := fun j => { (default : Aux) with
      mode := (outputs j).1, divRef := (outputs j).2.1, divFb := (outputs j).2.2 } }

theorem setUp_monitored {i : Nat} (reverseSpll : Int) (mask : BitVec 32)
    (sched : Option GainSchedule) {outputs : Nat → AuxMode × Int × Int}
    (hm : (outputs i).1 = .phaseMonitor) :
    Monitored b i [] (State.setUp b reverseSpll mask sched outputs) := by
  have hzero : 0 ≠ auxChannel b i := by
    unfold auxChannel
    omega
  refine ⟨hm, rfl, ⟨?_, hzero, hzero, fun _ _ => hzero, fun _ _ _ => ⟨hzero, hzero⟩⟩,
    .inl ⟨0, Int.le_refl 0, by decide, rfl⟩⟩
  exact hzero

/-! ## A node that locks to its reference

A whole start-up along which the conditions hold, up to a tracker that runs. -/

section

open Board

def deliver : List Event → List NodeEvent
  | [] => []
  | .tag trr :: es => .arrive trr :: .serve :: deliver es
  | e :: es => .call e :: deliver es

def Deliverable (b : Board) (s : State) : Event → Prop
  | .tag trr => taggerOn b s.regs (tagSourceOf trr) = true ∧
      s.regs.eicEnabled = true ∧ s.regs.irqOn = true
  | _ => True

theorem deliver_run {es : List Event} {s : State}
    (h : Run.Steps (State.step b) (Deliverable b) s es) :
    Run.Steps (Node.step b) (TagAllowed b) ⟨s, []⟩ (deliver es) ∧
      Run.run (Node.step b) ⟨s, []⟩ (deliver es) = ⟨Run.run (State.step b) s es, []⟩ := by
  induction es generalizing s with
  | nil => exact ⟨trivial, rfl⟩
  | cons e es ih =>
    obtain ⟨he, hes⟩ := h
    obtain ⟨hsteps, hrun⟩ := ih hes
    cases e with
    | tag trr =>
      have hserve : Node.step b ⟨s, [trr]⟩ .serve = ⟨s.step b (.tag trr), []⟩ := by
        rw [Node.step_serve rfl he.2]
        simp only [State.step, if_pos he.2]
      rw [← hserve] at hsteps hrun
      exact ⟨⟨he.1, trivial, hsteps⟩, hrun⟩
    | init mode ref =>
      have hcall : Node.step b ⟨s, []⟩ (.call (.init mode ref)) =
          ⟨s.step b (.init mode ref), []⟩ := by
        simp [Node.step]
      rw [← hcall] at hsteps hrun
      exact ⟨⟨trivial, hsteps⟩, hrun⟩
    | irqEnd | update | setPhaseShift | setPsFreeze | setVcoFreeze | hw =>
      exact ⟨⟨trivial, hsteps⟩, hrun⟩

variable {s : State} {k c n m : Nat}

/-- A slave of channel `k` that gets the tags of channel `c`. -/
structure Hears (k c : Nat) (s : State) : Prop extends SlaveOn k s where
  seqState : s.seqState ≠ .startExt
  tagger : taggerOn generic s.regs c = true

theorem sequence_ne_startExt (hm : s.mode = .slave) (hs : s.seqState ≠ .startExt) :
    (sequence b s).seqState ≠ .startExt := by
  unfold sequence
  grind [enterReady, clearDacs]

theorem taggable_generic (hc : c < 33) : Taggable generic c :=
  ⟨hc, fun href => Nat.lt_trans href (by decide)⟩

theorem Hears.tag (h : Hears k c s) (hc : c < 33) (v : Int) (source : Nat) :
    Hears k c (handleTag generic s v source) := by
  refine ⟨h.toSlaveOn.tag v source, ?_, ?_⟩
  · rw [handleTag_seqState, sequencingFsm_eq]
    exact sequence_ne_startExt h.mode h.seqState
  · rcases handleTag_tagger (b := generic) s v source
      (taggable_generic hc) with htagger | htagger | hext
    · exact htagger.trans h.tagger
    · exact htagger.1
    · exact absurd hext.1 h.seqState

theorem Hears.deliverable (h : Hears k c s) (hc : c < 33) (p : Nat) :
    Deliverable generic s (tagEvent c (period p)) := by
  have hlt : c < 2 ^ 7 := by omega
  have hsource := (tagEvent_fields hlt (period_range p)).1
  refine ⟨?_, h.interrupts⟩
  rw [hsource]
  exact h.tagger

theorem Hears.run (hmain : Hears k 1 s) (href : Hears k k s) (hk : k < 33) {es : List Event}
    (hes : ∀ e ∈ es, Heard 1 k e) :
    Run.Steps (State.step generic) (Deliverable generic) s es ∧
      Hears k k (Run.run (State.step generic) s es) := by
  have hstep : ∀ s e, Hears k 1 s ∧ Hears k k s → Heard 1 k e →
      Hears k 1 (s.step generic e) ∧ Hears k k (s.step generic e) := by
    rintro s e ⟨h₁, h₂⟩ ⟨source, p, hsource, rfl⟩
    rw [h₁.step_tag (by omega)]
    exact ⟨h₁.tag (by decide) _ _, h₂.tag hk _ _⟩
  have hheard : Run.Steps (State.step generic) (fun _ e => Heard 1 k e) s es :=
    steps_of_forall hes
  refine ⟨steps_of_inv hstep ?_ ⟨hmain, href⟩ hheard,
    (always_of_inv hstep (fun _ h => h.2) ⟨hmain, href⟩ hheard).last⟩
  rintro s e ⟨h₁, h₂⟩ ⟨source, p, rfl | rfl, rfl⟩
  · exact h₁.deliverable (by decide) p
  · exact h₂.deliverable hk p

theorem Waking.hears (h : Waking k s .startHelper) (hk : k < 33) (v : Int) :
    taggerOn generic (handleTag generic s v 1).regs k = true := by
  have hregs : (sequencingFsm generic s 1).regs =
      enableTagger generic s.regs s.helper.refSrc true := by
    rw [sequencingFsm_eq]
    simp [sequence, h.seqState, helperStart]
  have hloops := updateLoops_frame (b := generic) (sequencingFsm generic s 1) v 1
  rw [handleTag, taggerOn_congr hloops.ocer hloops.rcer, hregs,
    taggerOn_enableTagger _ _ _ (taggable_generic hk), if_pos h.refSrc]

theorem Waking.delivers (h : Waking k s .startHelper) (htagger : taggerOn generic s.regs 1 = true)
    (hk : k < 33) :
    Run.Steps (State.step generic) (Deliverable generic) s (lockEvents k n m) ∧
      Hears k k (Run.run (State.step generic) s (lockEvents k n m)) := by
  have hmain : Hears k 1 s := ⟨h.toSlaveOn, by rw [h.seqState]; nofun, htagger⟩
  have hmain' := hmain.tag (by decide) (period 0) 1
  have href : Hears k k (handleTag generic s (period 0) 1) :=
    ⟨hmain'.toSlaveOn, hmain'.seqState, h.hears hk _⟩
  rw [← h.step_tag (by decide)] at hmain' href
  obtain ⟨rest, hrest⟩ : ∃ rest, lockEvents k n m = tagEvent 1 (period 0) :: rest := ⟨_, rfl⟩
  have hheard : ∀ e ∈ lockEvents k n m, Heard 1 k e := lockEvents_heard
  rw [hrest] at hheard ⊢
  obtain ⟨hsteps, hhears⟩ := hmain'.run href hk (List.forall_mem_cons.mp hheard).2
  exact ⟨⟨hmain.deliverable (by decide) 0, hsteps⟩, hhears⟩

/-- `spll_init` on channel `k`, and the clean tag stream after it. -/
def acquireEvents (k n m : Nat) : List Event := .init .slave k :: wakeEvents ++ lockEvents k n m

/-- The detectors and the main PLL as `spll_init` has to find them for the node to lock. -/
structure LockSetup (s : State) : Prop where
  samples : s.helper.ld.lockSamples = 10000
  setup : s.helper.ld.threshold = 200 ∧ s.helper.ld.delockSamples = 100
  gainSched : s.mpll.gainSched = none
  deltas : s.mpll.drefDt = s.mpll.doutDt
  tics : s.hw.tics = 0

theorem LockSetup.acquires (h : LockSetup s) (hk : k ≠ 1 ∧ k < 33) (hn : n + 1 = 10000)
    (hm : m + 1 = 1049) :
    Run.Steps (State.step generic) (Deliverable generic) s (acquireEvents k n m) ∧
      Hears k k (Run.run (State.step generic) s (acquireEvents k n m)) ∧
      LockingOn k (Run.run (State.step generic) s (acquireEvents k n m))
        (period (n + 2 + m)) .waitMain MainOn 1049 ∧
      (Run.run (State.step generic) s (acquireEvents k n m)).aux =
        (spllInit generic s .slave k).aux := by
  have hwaking := spllInit_waking k h.samples h.setup h.gainSched h.deltas
  obtain ⟨hwoken, haside⟩ := hwaking.run (by omega) h.tics
  have h₁ : Hears k 1 (spllInit generic s .slave k) :=
    ⟨hwaking.toSlaveOn, nofun, (by decide : (0#32 ||| 1#32).getLsbD 0 = true)⟩
  have h₂ := h₁.tag (by decide) (period 0) 1
  rw [← h₁.step_tag (by decide)] at h₂
  have h₃ : Hears k 1 (((spllInit generic s .slave k).step generic (tagEvent 1 (period 0))).step
      generic (.hw { (default : Hw) with tics := 100 })) :=
    ⟨⟨h₂.mode, h₂.interrupts, h₂.refSrc, h₂.mpllIds⟩, h₂.seqState, h₂.tagger⟩
  have h₄ := h₃.tag (by decide) (period 0) 1
  rw [← h₃.step_tag (by decide)] at h₄
  obtain ⟨hsteps, hhears⟩ := hwoken.delivers h₄.tagger (by omega)
  obtain ⟨hlocked, haside'⟩ := hwoken.locks (by omega) (by omega) hn hm
  have hrun : Run.run (State.step generic) s (acquireEvents k n m) = Run.run (State.step generic)
      (Run.run (State.step generic) (spllInit generic s .slave k) wakeEvents)
        (lockEvents k n m) := by
    rw [acquireEvents]
    rfl
  rw [hrun]
  refine ⟨?_, hhears, hlocked, (haside.trans haside').aux⟩
  rw [acquireEvents]
  refine ⟨trivial, Run.steps_append.mpr ⟨⟨?_, trivial, ?_, trivial⟩, hsteps⟩⟩
  · exact h₁.deliverable (by decide) 0
  · exact h₃.deliverable (by decide) 0

def pollEvents : List Event := [.hw { (default : Hw) with outEn := 2 }, .update]

theorem LockingOn.monitors {t : Int} (h : LockingOn k s t .waitMain MainOn 1049)
    (hmode : (s.aux 0).mode = .phaseMonitor) (hseq : (s.aux 0).seqState = .disabled) :
    LockSetup (Run.run (State.step generic) s pollEvents) ∧
      ((Run.run (State.step generic) s pollEvents).aux 0).tracker.enabled = 1 := by
  have hlocked : s.mpll.locked = true := h.pairs.locked_eq
  let s₁ := s.step generic (.hw { (default : Hw) with outEn := 2 })
  have hrun : Run.run (State.step generic) s pollEvents = (spllUpdateAuxClock generic s₁ 1).1 :=
    spllUpdate_generic (s := s₁) h.mode
  have hframe := spllUpdateAuxClock_auxFrame (b := generic) s₁ (Nat.succ_ne_zero 0)
  have haux : ((spllUpdateAuxClock generic s₁ 1).1.aux 0).tracker.enabled = 1 := by
    have hseq' : (s₁.aux 0).seqState = .disabled := hseq
    have hmode' : (s₁.aux 0).mode = .phaseMonitor := hmode
    have hlocked' : s₁.mpll.locked = true := hlocked
    have hen : auxLockingEnabled s₁.hw 1 = true :=
      (by decide : auxLockingEnabled { (default : Hw) with outEn := 2 } 1 = true)
    unfold spllUpdateAuxClock
    simp only [hseq', hlocked', hen, enableAux, hmode']
    rfl
  rw [hrun]
  refine ⟨⟨?_, ?_, ?_, ?_, ?_⟩, haux⟩
  · rw [hframe.helper]
    exact h.helper.ld.lockSamples
  · rw [hframe.helper]
    exact h.helper.setup
  · rw [hframe.mpll]
    exact h.mpll.gainSched
  · rw [hframe.mpll]
    exact h.mpll.deltas
  · rw [hframe.hw]
    rfl

/-- For every board and output that is monitored, and every sequence of tags, interrupts, polls,
`spll_init` in any mode and changes of the hardware inputs. -/
theorem monitorRun_safe (b : Board) (i : Nat) (hi : i + 1 < b.nChanOut) (reverseSpll : Int)
    (mask : BitVec 32) (sched : Option GainSchedule) (outputs : Nat → AuxMode × Int × Int)
    (hm : (outputs i).1 = .phaseMonitor) (es : List NodeEvent)
    (htags : Run.Steps (Node.step b) (TagAllowed b)
      ⟨State.setUp b reverseSpll mask sched outputs, []⟩ es) (haway : ∀ e ∈ es, KeepsAway b i e) :
    Run.Steps (Node.step b) (MonitorSafeAt b i)
      ⟨State.setUp b reverseSpll mask sched outputs, []⟩ es :=
  steps_of_inv (I := fun x : Node => Monitored b i x.fifo x.spll)
    (fun _ e h hg => h.step hi e hg.1 hg.2) (fun _ e h _ => h.safe e)
    (setUp_monitored reverseSpll mask sched hm) (htags.and (steps_of_forall haway))

theorem deliver_keepsAway {i : Nat} : ∀ {es : List Event},
    (∀ e ∈ es, KeepsAway b i (.call e)) → ∀ e ∈ deliver es, KeepsAway b i e
  | [], _ => nofun
  | e :: es, h => by
    rw [forall_mem_cons] at h
    have hrest := deliver_keepsAway h.2
    cases e with
    | tag trr => exact forall_mem_cons.2 ⟨trivial, forall_mem_cons.2 ⟨trivial, hrest⟩⟩
    | irqEnd | update | setPhaseShift | init | setPsFreeze | setVcoFreeze | hw =>
      exact forall_mem_cons.2 ⟨h.1, hrest⟩

/-- A slave locks to channel `k`; then the monitored output is enabled, and the poll starts its
tracker. -/
def monitorEvents (k n m : Nat) : List Event := acquireEvents k n m ++ pollEvents

theorem monitorEvents_keepsAway : ∀ e ∈ monitorEvents 0 n m, KeepsAway generic 0 (.call e) := by
  have hlock : ∀ e ∈ lockEvents 0 n m, KeepsAway generic 0 (.call e) := by
    intro e he
    obtain ⟨source, p, -, rfl⟩ := lockEvents_heard e he
    trivial
  simp only [monitorEvents, acquireEvents, wakeEvents, pollEvents, forall_mem_append,
    forall_mem_cons]
  exact ⟨⟨⟨(by decide : 0 ≠ auxChannel generic 0), trivial, trivial, trivial, forall_mem_nil _⟩,
    hlock⟩, trivial, trivial, forall_mem_nil _⟩

/-- A node with one aux output, which is monitored, after the boot. -/
def monitorNode : State := State.setUp generic 1 0 none fun _ => (.phaseMonitor, 0, 0)

theorem monitorEvents_starts (hk : k ≠ 1 ∧ k < 33) (hn : n + 1 = 10000) (hm : m + 1 = 1049) :
    Run.Steps (State.step generic) (Deliverable generic) monitorNode (monitorEvents k n m) ∧
      LockSetup (Run.run (State.step generic) monitorNode (monitorEvents k n m)) ∧
      ((Run.run (State.step generic) monitorNode (monitorEvents k n m)).aux 0).tracker.enabled =
        1 := by
  have hready : LockSetup monitorNode := ⟨rfl, ⟨rfl, rfl⟩, rfl, rfl, rfl⟩
  obtain ⟨hsteps, -, hlocked, haux⟩ := hready.acquires hk hn hm
  have hmonitors := hlocked.monitors (by rw [haux]; rfl) (by rw [haux]; rfl)
  rw [← Run.run_append] at hmonitors
  exact ⟨Run.steps_append.mpr ⟨hsteps, trivial, trivial, trivial⟩, hmonitors⟩

theorem monitorEvents_delivered (hk : k ≠ 1 ∧ k < 33) (hn : n + 1 = 10000) (hm : m + 1 = 1049) :
    Run.Steps (Node.step generic) (TagAllowed generic) ⟨monitorNode, []⟩
        (deliver (monitorEvents k n m)) ∧
      ((Run.run (Node.step generic) ⟨monitorNode, []⟩ (deliver (monitorEvents k n m))).spll.aux
        0).tracker.enabled = 1 := by
  obtain ⟨hsteps, -, hon⟩ := monitorEvents_starts hk hn hm
  obtain ⟨hallowed, hrun⟩ := deliver_run hsteps
  rw [hrun]
  exact ⟨hallowed, hon⟩

theorem monitorRun_safe_generic :
    ((Run.run (Node.step generic) ⟨monitorNode, []⟩
        (deliver (monitorEvents 0 9999 1048))).spll.aux 0).tracker.enabled = 1 ∧
      Run.Steps (Node.step generic) (MonitorSafeAt generic 0) ⟨monitorNode, []⟩
        (deliver (monitorEvents 0 9999 1048)) :=
  have h := monitorEvents_delivered (k := 0) (n := 9999) (m := 1048) (by decide) rfl rfl
  ⟨h.2, monitorRun_safe generic 0 (by decide) 1 0 none _ rfl _ h.1
    (deliver_keepsAway monitorEvents_keepsAway)⟩

/-! ## An aux output as the reference

Why the reference has to be another channel. -/

/-- What `spll_init` makes of a tracker: it stays enabled, and the words of the PI controller that
lie below it are written. -/
theorem spllInit_tracker (s : State) (k : Nat) :
    ((spllInit generic s .slave k).aux 0).dmtd.enabled = false ∧
      ((spllInit generic s .slave k).aux 0).tracker.enabled = (s.aux 0).tracker.enabled ∧
      ((spllInit generic s .slave k).aux 0).tracker.avgCount = 12 ∧
      ((spllInit generic s .slave k).aux 0).tracker.preserveSign = 2 ^ 15 :=
  ⟨rfl, rfl, rfl, rfl⟩

theorem beforeAuxes_isSome (hl : (handleTag b s v source).helper.ld.locked = true)
    (hq : (handleTag b s v source).seqState = .ready) : ∃ u, beforeAuxes b s v source = some u := by
  rw [handleTag, updateLoops_helper] at hl
  rw [handleTag_seqState] at hq
  have hmain := updateMain_frame (b := b)
    (updateHelper (sequencingFsm b s source) v source) v source
  refine ⟨updateMain b (updateHelper (sequencingFsm b s source) v source) v source, ?_⟩
  unfold beforeAuxes
  rw [if_pos, if_pos]
  · exact hmain.seqState.trans hq
  · exact hl

/-- The tag that takes the sequencer to `SEQ_READY` is one for a tracker as
`spll_init` leaves it. -/
theorem LockingOn.not_tagSafe {t : Int} (h : LockingOn 2 s t .waitMain MainOn 1049)
    (hidle : (s.aux 0).dmtd.enabled = false) (hon : (s.aux 0).tracker.enabled = 1)
    (havg : (s.aux 0).tracker.avgCount = 12) (hsign : (s.aux 0).tracker.preserveSign = 2 ^ 15) :
    ¬TagSafe generic 0 s (nextTag t) 2 := by
  intro hsafe
  have hready := h.ref (by decide)
  obtain ⟨u, hu⟩ := beforeAuxes_isSome hready.locked hready.seqState
  have haux : u.aux 0 = s.aux 0 := congrFun (handleTag_of_some hu).1 0
  have hbefore := beforeTrackers_aux (b := generic) u (by rw [haux]; exact hidle) (nextTag t) 2
  have hinside := (hsafe u hu).2 rfl
  unfold IndexInside at hinside
  rw [hbefore, haux, hon, havg] at hinside
  have hlt := (hinside (by decide) (by decide)).2
  rw [adjIndex] at hlt
  split at hlt
  · omega
  · omega

/-- The aux output is started while the main PLL is locked to it; then
`spll_init` is called again. -/
def referenceEvents (n m : Nat) : List Event :=
  monitorEvents 2 n m ++ acquireEvents 2 n m

theorem referenceEvents_unsafe (hn : n + 1 = 10000) (hm : m + 1 = 1049) :
    let es := deliver (referenceEvents n m) ++ deliver [tagEvent 2 (period (n + 2 + m + 1))]
    Run.Steps (Node.step generic) (TagAllowed generic) ⟨monitorNode, []⟩ es ∧
      ¬Run.Steps (Node.step generic) (MonitorSafeAt generic 0) ⟨monitorNode, []⟩ es := by
  intro es
  obtain ⟨hsteps₁, hready, hon⟩ := monitorEvents_starts (k := 2) (by decide) hn hm
  generalize hs₁ : Run.run (State.step generic) monitorNode (monitorEvents 2 n m) =
    s₁ at hready hon
  obtain ⟨hsteps₂, hhears, hlocked, haux⟩ := hready.acquires (k := 2) (by decide) hn hm
  generalize hs₂ : Run.run (State.step generic) s₁ (acquireEvents 2 n m) =
    s₂ at hhears hlocked haux
  have hrun : Run.run (State.step generic) monitorNode (referenceEvents n m) = s₂ := by
    rw [referenceEvents, Run.run_append, hs₁, hs₂]
  have hsteps : Run.Steps (State.step generic) (Deliverable generic) monitorNode
      (referenceEvents n m) :=
    Run.steps_append.mpr ⟨hsteps₁, hs₁ ▸ hsteps₂⟩
  obtain ⟨hallowed, hdeliver⟩ := deliver_run hsteps
  rw [hrun] at hdeliver
  have hlast : Run.Steps (State.step generic) (Deliverable generic) s₂
      [tagEvent 2 (period (n + 2 + m + 1))] := ⟨hhears.deliverable (by decide) _, trivial⟩
  have htag := deliver_run hlast
  rw [← hdeliver] at htag
  refine ⟨Run.steps_append.mpr ⟨hallowed, htag.1⟩, fun hsafe => ?_⟩
  have hserve := (Run.steps_append.mp hsafe).2.2.1
  rw [hdeliver] at hserve
  obtain ⟨hsource, hvalue⟩ :=
    tagEvent_fields (by decide : 2 < 2 ^ 7) (period_range (n + 2 + m + 1))
  have htagSafe := hserve _ [] rfl hlocked.interrupts
  rw [hsource, hvalue, ← nextTag_period] at htagSafe
  obtain ⟨hidle, hon', havg, hsign⟩ := spllInit_tracker s₁ 2
  rw [← haux] at hidle hon' havg hsign
  exact hlocked.not_tagSafe hidle (hon'.trans hon) havg hsign htagSafe

/-- The monitored output is channel 2 of the node.  `spll_init` is called with it as the reference;
when the node is locked the output is enabled, which starts its tracker,
and `spll_init` is called again. -/
theorem monitorRun_aux_reference :
    let es := deliver (referenceEvents 9999 1048) ++
      deliver [tagEvent 2 (period (9999 + 2 + 1048 + 1))]
    Run.Steps (Node.step generic) (TagAllowed generic) ⟨monitorNode, []⟩ es ∧
      ¬Run.Steps (Node.step generic) (MonitorSafeAt generic 0) ⟨monitorNode, []⟩ es :=
  referenceEvents_unsafe rfl rfl

end

end Wrpc.SoftPll
