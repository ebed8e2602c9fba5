/-
# Which taggers are enabled, and for whom

A channel sends tags while its bit in `OCER` or `RCER` is set.  The sequencer
enables the taggers of the main channel and of the channels on which the helper,
the main PLL and the trackers are set up (`State.Uses`), the bottom half that of
an auxiliary channel.  The channel numbers themselves are written by `spll_init`
alone (`State.SameChannels`).

`AuxMove` lists what one poll can do to an auxiliary channel and to the taggers.
-/
import Wrpc.SoftPll.AuxChannels

namespace Wrpc.SoftPll

open CInt

variable {b : Board}

/-- The enable bit of the tagger of channel `c`. -/
def taggerOn (b : Board) (r : Regs) (c : Nat) : Bool :=
  if b.nChanRef ≤ c then r.ocer.getLsbD (c - b.nChanRef) else r.rcer.getLsbD c

theorem taggerOn_congr {r r' : Regs} (h : r'.ocer = r.ocer) (h' : r'.rcer = r.rcer) (c : Nat) :
    taggerOn b r' c = taggerOn b r c := by
  rw [taggerOn, taggerOn, h, h']

/-- The registers have a bit for channel `c`. -/
def Taggable (b : Board) (c : Nat) : Prop := c < b.nChanRef + 32 ∧ (c < b.nChanRef → c < 32)

theorem getLsbD_enable (w : BitVec 32) (j : Nat) (enable : Bool) {i : Nat} (hi : i < 32) :
    (if enable then w ||| 1#32 <<< j else w &&& ~~~(1#32 <<< j)).getLsbD i =
      if j = i then enable else w.getLsbD i := by
  have hbit : (1#32 <<< j).getLsbD i = decide (j = i) := by
    simp only [BitVec.getLsbD_shiftLeft, BitVec.getLsbD_one, hi]
    grind
  cases enable <;> by_cases hij : j = i <;> simp [-BitVec.getLsbD_eq_getElem, hbit, hi, hij]

theorem taggerOn_enableTagger (r : Regs) (channel : Nat) (enable : Bool) {c : Nat}
    (hc : Taggable b c) :
    taggerOn b (enableTagger b r channel enable) c =
      if channel = c then enable else taggerOn b r c := by
  obtain ⟨hout, href⟩ := hc
  unfold taggerOn enableTagger
  by_cases hch : b.nChanRef ≤ channel <;> by_cases hcc : b.nChanRef ≤ c
  · simp only [hch, hcc, if_true]
    rw [getLsbD_enable _ _ _ (by omega)]
    grind
  · grind
  · grind
  · simp only [hch, hcc, if_false]
    exact getLsbD_enable _ _ _ (href (by omega))

/-- Channel `c` is one that the sequencer enables. -/
inductive State.Uses (b : Board) (s : State) (c : Nat) : Prop
  | main (h : c = b.nChanRef)
  | helper (h : s.helper.refSrc = c)
  | mpllRef (h : s.mpll.idRef = c)
  | mpllOut (h : s.mpll.idOut = c)
  | tracker {k : Nat} (hk : k < b.nChanRef) (h : (s.ptrackers k).id.toNat = c)

section

variable {s : State} {c : Nat}

theorem mpllStart_tagger (tics : BitVec 32) (m : Main) (r : Regs)
    (hc : Taggable b c) :
    taggerOn b (mpllStart b tics m r).2 c =
      if m.idRef = c ∨ m.idOut = c then true else taggerOn b r c := by
  simp only [mpllStart, taggerOn_enableTagger _ _ _ hc]
  grind

theorem ptrackerStart_tagger (p : Ptracker) (r : Regs)
    (hc : Taggable b c) :
    taggerOn b (ptrackerStart b p r).2 c =
      if p.id.toNat = c ∨ b.nChanRef = c then true else taggerOn b r c := by
  simp only [ptrackerStart, taggerOn_enableTagger _ _ _ hc]
  grind

theorem startPtrackers_tagger (s : State) (hc : Taggable b c) :
    taggerOn b (startPtrackers b s).regs c = taggerOn b s.regs c ∨
      (taggerOn b (startPtrackers b s).regs c = true ∧ s.Uses b c) := by
  refine List.foldlRecOn _ _
    (motive := fun r : Regs => taggerOn b r c = taggerOn b s.regs c ∨
      (taggerOn b r c = true ∧ s.Uses b c)) (.inl rfl) ?_
  intro r h k hk
  have hlt : k < b.nChanRef := List.mem_range.mp hk
  split
  · rw [ptrackerStart_tagger _ _ hc]
    split
    case isTrue huse =>
      refine .inr ⟨rfl, ?_⟩
      rcases huse with huse | huse
      · exact .tracker hlt huse
      · exact .main huse.symm
    case isFalse => exact h
  · exact h

theorem sequence_tagger (s : State) (hc : Taggable b c) :
    taggerOn b (sequence b s).regs c = taggerOn b s.regs c ∨
      (taggerOn b (sequence b s).regs c = true ∧ s.Uses b c) ∨
      (s.seqState = .startExt ∧ c = b.nChanRef) := by
  have hready : taggerOn b (enterReady b s).regs c = taggerOn b s.regs c ∨
      (taggerOn b (enterReady b s).regs c = true ∧ s.Uses b c) ∨
      (s.seqState = .startExt ∧ c = b.nChanRef) := by
    rcases startPtrackers_tagger s hc with h | h
    · exact .inl h
    · exact .inr (.inl h)
  unfold sequence
  split
  · exact .inl rfl
  · exact .inl rfl
  · by_cases hmain : b.nChanRef = c
    · refine .inr (.inl ⟨?_, .main hmain.symm⟩)
      simp only [clearDacs, taggerOn_enableTagger _ _ _ hc, if_pos hmain]
    · refine .inl ?_
      simp only [clearDacs, taggerOn_enableTagger _ _ _ hc, if_neg hmain]
      rfl
  · split
    · exact .inl rfl
    · exact .inl rfl
  · next hseq =>
    by_cases hmain : b.nChanRef = c
    · exact .inr (.inr ⟨hseq, hmain.symm⟩)
    · have hoff : taggerOn b (enableTagger b s.regs b.nChanRef false) c =
          taggerOn b s.regs c := by
        rw [taggerOn_enableTagger _ _ _ hc, if_neg hmain]
      have htagger := taggerOn_enableTagger (enableTagger b s.regs b.nChanRef false)
        s.helper.refSrc true hc
      rw [hoff] at htagger
      split at htagger
      case isTrue href => exact .inr (.inl ⟨htagger, .helper href⟩)
      case isFalse => exact .inl htagger
  · split
    · exact hready
    · exact .inl rfl
  · have htagger := taggerOn_enableTagger s.regs s.helper.refSrc true hc
    split at htagger
    case isTrue href => exact .inr (.inl ⟨htagger, .helper href⟩)
    case isFalse => exact .inl htagger
  · split
    · split
      · exact .inl rfl
      · exact hready
    · exact .inl rfl
  · have htagger := mpllStart_tagger s.hw.tics s.mpll s.regs hc
    split at htagger
    case isTrue hid =>
      refine .inr (.inl ⟨htagger, ?_⟩)
      rcases hid with hid | hid
      · exact .mpllRef hid
      · exact .mpllOut hid
    case isFalse => exact .inl htagger
  · split
    · exact hready
    · exact .inl rfl
  · split
    · exact .inl rfl
    · exact .inl rfl

end

/-! ## Who writes the channel numbers

Only `spll_init` does, so the channels in use are fixed between two of its calls. -/

/-- What every event but `spll_init` leaves alone: the channels of the loops, the trackers and the
aux PLLs, and the mask of the SoftPLL interrupt. -/
structure State.SameChannels (s s' : State) : Prop where
  eicEnabled : s'.regs.eicEnabled = s.regs.eicEnabled
  refSrc : s'.helper.refSrc = s.helper.refSrc
  idRef : s'.mpll.idRef = s.mpll.idRef
  idOut : s'.mpll.idOut = s.mpll.idOut
  trackerId : ∀ k, (s'.ptrackers k).id = (s.ptrackers k).id
  auxRef : ∀ j, (s'.aux j).dmtd.idRef = (s.aux j).dmtd.idRef
  auxOut : ∀ j, (s'.aux j).dmtd.idOut = (s.aux j).dmtd.idOut

theorem State.SameChannels.trans {s s' s'' : State} (h : s.SameChannels s')
    (h' : s'.SameChannels s'') :
    s.SameChannels s'' :=
  ⟨h'.eicEnabled.trans h.eicEnabled, h'.refSrc.trans h.refSrc, h'.idRef.trans h.idRef,
    h'.idOut.trans h.idOut, fun k => (h'.trackerId k).trans (h.trackerId k),
    fun j => (h'.auxRef j).trans (h.auxRef j), fun j => (h'.auxOut j).trans (h.auxOut j)⟩

theorem sequencingFsm_sameChannels (s : State) (source : Nat) :
    s.SameChannels (sequencingFsm b s source) := by
  have h := sequencingFsm_frame (b := b) s source
  exact ⟨h.eicEnabled, h.refSrc, h.idRef, h.idOut, h.trackerId, fun j => by rw [h.aux],
    fun j => by rw [h.aux]⟩

theorem updateLoops_sameChannels (s : State) (v : Int) (source : Nat) :
    s.SameChannels (updateLoops b s v source) := by
  have h := updateLoops_frame (b := b) s v source
  refine ⟨h.eicEnabled, ?_, h.mpll.idRef, h.mpll.idOut, h.trackerId,
    fun j => (h.aux j).idRef, fun j => (h.aux j).idOut⟩
  rw [updateLoops_helper, helperUpdate_refSrc]

theorem handleTag_sameChannels (s : State) (v : Int) (source : Nat) :
    s.SameChannels (handleTag b s v source) :=
  (sequencingFsm_sameChannels s source).trans (updateLoops_sameChannels _ v source)

theorem handleTag_tagger {c : Nat} (s : State) (v : Int) (source : Nat)
    (hc : Taggable b c) :
    taggerOn b (handleTag b s v source).regs c = taggerOn b s.regs c ∨
      (taggerOn b (handleTag b s v source).regs c = true ∧ s.Uses b c) ∨
      (s.seqState = .startExt ∧ c = b.nChanRef) := by
  have hloops := updateLoops_frame (b := b) (sequencingFsm b s source) v source
  have h := sequence_tagger (countTag b s source) hc
  rw [countTag_eq] at h
  rw [handleTag, taggerOn_congr hloops.ocer hloops.rcer, sequencingFsm_eq]
  rcases h with h | ⟨h, huse⟩ | h
  · exact .inl h
  · refine .inr (.inl ⟨h, ?_⟩)
    cases huse with
    | main h => exact .main h
    | helper h => exact .helper h
    | mpllRef h => exact .mpllRef h
    | mpllOut h => exact .mpllOut h
    | tracker hk h => exact .tracker hk h
  · exact .inr (.inr h)

section

variable {s : State} {c ch : Nat}

theorem alignPoll_sameChannels (s : State) : s.SameChannels (alignPoll b s).1 := by
  have hframe := alignPoll_alignFrame (b := b) s
  obtain ⟨-, -, hidRef, -, -, -, hidOut⟩ := started_spec (b := b) s.hw.tics s.mpll
  have hpoll : (alignPoll b s).1.mpll.idRef = s.mpll.idRef ∧
      (alignPoll b s).1.mpll.idOut = s.mpll.idOut ∧ (alignPoll b s).1.ptrackers = s.ptrackers := by
    rcases alignPoll_aligned (b := b) s with ⟨_, _, _, _, _, _, h⟩ | ⟨_, _, _, _, _, _, h⟩
    · rw [h]
      exact ⟨rfl, rfl, rfl⟩
    · rw [h]
      exact ⟨hidRef, hidOut, rfl⟩
  exact ⟨hframe.eicEnabled, by rw [hframe.helper], hpoll.1, hpoll.2.1, fun k => by rw [hpoll.2.2],
    fun j => by rw [hframe.aux], fun j => by rw [hframe.aux]⟩

theorem alignPoll_tagger (s : State) (hc : Taggable b c) :
    taggerOn b (alignPoll b s).1.regs c = taggerOn b s.regs c ∨ s.Uses b c := by
  rcases alignPoll_aligned s with ⟨_, _, _, _, _, _, h⟩ | ⟨_, _, _, _, _, _, h⟩
  · rw [h]
    exact .inl rfl
  · have htagger := mpllStart_tagger s.hw.tics s.mpll s.regs hc
    rw [h]
    split at htagger
    case isTrue hid =>
      rcases hid with hid | hid
      · exact .inr (.mpllRef hid)
      · exact .inr (.mpllOut hid)
    case isFalse => exact .inl htagger

theorem withRatio_ids (a : Aux) :
    (a.withRatio b).idRef = a.dmtd.idRef ∧ (a.withRatio b).idOut = a.dmtd.idOut := by
  unfold Aux.withRatio
  split
  · exact ⟨rfl, rfl⟩
  · exact ⟨rfl, rfl⟩

theorem AuxMove.ids {a a' : Aux} {r r' : Regs} (h : AuxMove b a a' ch r r') :
    a'.dmtd.idRef = a.dmtd.idRef ∧ a'.dmtd.idOut = a.dmtd.idOut := by
  cases h with
  | quiet h _ => exact ⟨h.idRef, h.idOut⟩
  | stop h _ =>
    rw [h]
    exact ⟨rfl, rfl⟩
  | start tics _ h _ =>
    have hratio := withRatio_ids (b := b) a
    obtain ⟨-, -, href, -, -, -, hout⟩ := started_spec tics (a.withRatio b)
    rw [h]
    exact ⟨href.trans hratio.1, hout.trans hratio.2⟩
  | monitor _ h _ =>
    rw [h]
    exact ⟨rfl, rfl⟩

theorem spllUpdateAuxClock_sameChannels (s : State) (hch : ch ≠ 0) :
    s.SameChannels (spllUpdateAuxClock b s ch).1 := by
  have hframe := spllUpdateAuxClock_auxFrame (b := b) s hch
  obtain ⟨a, r, hs, hmove⟩ := spllUpdateAuxClock_moves (b := b) s hch
  have hids : ∀ j, ((spllUpdateAuxClock b s ch).1.aux j).dmtd.idRef = (s.aux j).dmtd.idRef ∧
      ((spllUpdateAuxClock b s ch).1.aux j).dmtd.idOut = (s.aux j).dmtd.idOut := by
    intro j
    by_cases hj : j = ch - 1
    · have haux : (spllUpdateAuxClock b s ch).1.aux (ch - 1) = a := by
        rw [hs]
        exact setAux_aux_self s (ch - 1) a
      rw [hj, haux]
      exact hmove.ids
    · rw [hframe.aux j hj]
      exact ⟨rfl, rfl⟩
  exact ⟨hframe.eicEnabled, by rw [hframe.helper], by rw [hframe.mpll], by rw [hframe.mpll],
    fun k => by rw [hs]; rfl, fun j => (hids j).1, fun j => (hids j).2⟩

end

end Wrpc.SoftPll
