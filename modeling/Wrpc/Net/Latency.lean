/-
# The latency probe (`lib/latency.c`)

The sender emits sets of three frames, types 1, 2 and 3, under one sequence
number; the third carries the transmit times of the first two.  `latencyPollRx`
keeps the receive times of the first two and, at the third, reports the two
differences.  It counts the frames of the set in `nframes`, and compares each
frame with the one before it (`prev_sequence`, `prev_type`) only.

When every type-3 frame is `InSet`, a report uses times of one set only
(`latencyRun_unmixed`).  Without it two consecutive losses are enough to mix two
sets (`latencyRun_mixed`): nothing resets `nframes` when a frame does not follow
its predecessor.

A complete set is reported whatever the times are (`latencyFrame_report`): the test
that should discard unsynchronised nodes looks at a `sec` that `ts_sub` sets to 0.
-/
import Wrpc.Net.Linearize
import Wrpc.Lib.CInt
import Wrpc.Lib.Run
import Mathlib.Data.List.Induction

namespace Wrpc.Net

open CInt List

/-- `struct latency_frame`, with the time it was received at. -/
structure Arrival where
  type : BitVec 32
  sequence : BitVec 32
  ts : WrTimestamp × WrTimestamp
  rx : WrTimestamp
deriving DecidableEq, Repr

/-- A call of `latency_poll_rx`: the complete frame it finds, if any, and the time. -/
structure LatencyPoll where
  arrival : Option Arrival
  jiffies : BitVec 32

/-- `CONFIG_LATENCY_SYSLOG`, `lat_verbose` and the last byte of the MAC address. -/
structure LatencyConfig where
  hasSyslog : Bool
  latVerbose : Bool
  mac5 : Nat

/-- The statics of `latency_report`. -/
structure LatencyStats where
  nextj : BitVec 32
  n : BitVec 32
  min : BitVec 32 × BitVec 32
  max : BitVec 32 × BitVec 32
  tot : BitVec 32 × BitVec 32
deriving DecidableEq, Repr

/-- The statics of `latency_poll_rx`, `prev_sequence` and `prev_type`. -/
structure Latency where
  prevSequence : BitVec 32
  prevType : BitVec 32
  ts₀ : WrTimestamp
  ts₁ : WrTimestamp
  nframes : Int
  lost : BitVec 32
  stats : LatencyStats

/-- A latency, as `ts_sub` leaves it: `sec` is always 0. -/
structure LatencyValue where
  nsec : BitVec 32
  phase : BitVec 32
deriving DecidableEq, Repr

/-- `ts_sub`; `__div64_32` takes its operand for unsigned. -/
def tsSub (t₂ t₁ : WrTimestamp) : LatencyValue :=
  let resll : BitVec 64 := t₂.sec - t₁.sec
  let resll := resll * 1000000000
  let resll := resll + BitVec.ofInt 64 (i32 (t₂.nsec - t₁.nsec))
  let resll := resll * 1000
  let resll := resll + BitVec.ofInt 64 (i32 (t₂.phase - t₁.phase))
  { nsec := (resll / 1000).setWidth 32, phase := (resll % 1000).setWidth 32 }

/-- One of the two entries of `min`, `max` and `tot`. -/
def statsEntry (min max tot nsec : BitVec 32) : BitVec 32 × BitVec 32 × BitVec 32 :=
  (if min = 0 ∨ nsec < min then nsec else min, if max < nsec then nsec else max, tot + nsec)

/-- `latency_report`: once a minute the statistics are sent and start again. -/
def latencyReport (cfg : LatencyConfig) (jiffies : BitVec 32) (st : LatencyStats)
    (lat₀ lat₁ : LatencyValue) : LatencyStats :=
  let nextj :=
    if st.nextj = 0 then jiffies + 1000 * BitVec.ofNat 32 (10 + cfg.mac5 % 60) else st.nextj
  let e₀ := statsEntry st.min.1 st.max.1 st.tot.1 lat₀.nsec
  let e₁ := statsEntry st.min.2 st.max.2 st.tot.2 lat₁.nsec
  let st : LatencyStats :=
    ⟨nextj, st.n + 1, (e₀.1, e₁.1), (e₀.2.1, e₁.2.1), (e₀.2.2, e₁.2.2)⟩
  if (jiffies - nextj).toInt < 0 then st
  else if st.n = 0 then { st with nextj := nextj + 60 * 1000 }
  else ⟨nextj + 60 * 1000, 0, (0, 0), (0, 0), (0, 0)⟩

structure LatencyReport where
  sequence : BitVec 32
  lat₀ : LatencyValue
  lat₁ : LatencyValue
deriving DecidableEq, Repr

/-- The `switch` on the frame's type. -/
def trackFrame (s : Latency) (f : Arrival) : Latency :=
  if f.type = 1 then
    { s with ts₀ := f.rx, nframes := 1, ts₁ := { s.ts₁ with sec := 0 } }
  else if f.type = 2 then
    if f.sequence ≠ s.prevSequence ∨ s.prevType ≠ 1 then s
    else { s with ts₁ := f.rx, nframes := i32 (s.nframes + 1) }
  else if f.type = 3 then
    if f.sequence ≠ s.prevSequence ∨ s.prevType ≠ 2 then s
    else { s with nframes := i32 (s.nframes + 1) }
  else s

/-- The count of lost frames, and the frame becomes the previous one. -/
def endFrame (cfg : LatencyConfig) (s : Latency) (f : Arrival) : Latency :=
  let i := s.prevSequence * 3 + s.prevType - 1
  let j := f.sequence * 3 + f.type - 2
  { s with
    lost := if cfg.hasSyslog ∧ j ≠ i then s.lost + (j - i) else s.lost
    prevSequence := f.sequence
    prevType := f.type }

/-- `latency_poll_rx` on a complete frame. -/
def latencyFrame (cfg : LatencyConfig) (jiffies : BitVec 32) (s : Latency) (f : Arrival) :
    Latency × Option LatencyReport :=
  let s := endFrame cfg (trackFrame s f) f
  if f.type ≠ 3 ∨ s.nframes ≠ 3 then (s, none)
  else
    let lat₀ := tsSub s.ts₀ f.ts.1
    let lat₁ := tsSub s.ts₁ f.ts.2
    let stats := if cfg.latVerbose then s.stats else latencyReport cfg jiffies s.stats lat₀ lat₁
    ({ s with stats := stats }, some ⟨f.sequence, lat₀, lat₁⟩)

/-- `latency_poll_rx`; a call that finds no complete frame returns at once. -/
def latencyPollRx (cfg : LatencyConfig) (s : Latency) (p : LatencyPoll) :
    Latency × Option LatencyReport :=
  match p.arrival with
  | none => (s, none)
  | some f => latencyFrame cfg p.jiffies s f

def Latency.init : Latency :=
  ⟨0, 0, ⟨0, 0, 0, 0, 0, 0, false⟩, ⟨0, 0, 0, 0, 0, 0, false⟩, 0, 0, ⟨0, 0, (0, 0), (0, 0), (0, 0)⟩⟩

def latencyRun (cfg : LatencyConfig) (polls : List LatencyPoll) : Latency :=
  Run.run (fun s p => (latencyPollRx cfg s p).1) Latency.init polls

/-! ## Frame sets -/

/-- The last type-1 frame among those received, and the frames since. -/
def frameSet (fs : List Arrival) : Option (Arrival × List Arrival) :=
  fs.foldl (fun set f =>
    if f.type = 1 then some (f, []) else set.map fun gs => (gs.1, gs.2 ++ [f])) none

variable (cfg : LatencyConfig) (jiffies : BitVec 32) {fs : List Arrival} {f : Arrival} {s : Latency}

theorem frameSet_concat (fs : List Arrival) (f : Arrival) :
    frameSet (fs ++ [f]) =
      if f.type = 1 then some (f, []) else (frameSet fs).map fun gs => (gs.1, gs.2 ++ [f]) := by
  rw [frameSet, foldl_append]
  rfl

theorem frameSet_split {g : Arrival} {since : List Arrival} (h : frameSet fs = some (g, since)) :
    g.type = 1 ∧ ∃ before, fs = before ++ g :: since := by
  induction fs using reverseRecOn generalizing since with
  | nil => cases h
  | append_singleton fs f ih =>
    rw [frameSet_concat] at h
    split at h
    · next htype =>
      cases h
      exact ⟨htype, fs, rfl⟩
    · obtain ⟨⟨g', since'⟩, hset, heq⟩ := Option.map_eq_some_iff.mp h
      cases heq
      obtain ⟨htype, before, hfs⟩ := ih hset
      exact ⟨htype, before, by rw [hfs, append_assoc]; rfl⟩

/-- The frame right behind the type-1 frame is the set's second. -/
def HasSecond (g : Arrival) (since : List Arrival) : Prop :=
  ∃ a ∈ since.head?, a.type = 2 ∧ a.sequence = g.sequence

/-- A type-3 frame of the last set, whose type-2 frame, if any has come, came in
its place. -/
def InSet (fs : List Arrival) (f : Arrival) : Prop :=
  ∃ g since, frameSet fs = some (g, since) ∧ g.sequence = f.sequence ∧
    ((∃ a ∈ since, a.type = 2 ∧ a.sequence = f.sequence) → HasSecond g since)

/-- Every type-3 frame is in the set that is open when it arrives. -/
def SetsInOrder (fs : List Arrival) : Prop :=
  ∀ before f after, fs = before ++ f :: after → f.type = 3 → InSet before f

/-! ## What the statics hold -/

/-- The statics after the frames `fs`. -/
inductive Tracked (s : Latency) (fs : List Arrival) : Prop
  /-- No set has begun. -/
  | fresh (set : frameSet fs = none) (prev : s.prevType ≠ 1) (count : s.nframes = 0)
  /-- The first time is there, the second is not. -/
  | first (g : Arrival) (since : List Arrival) (set : frameSet fs = some (g, since))
      (none : ¬HasSecond g since) (stored : s.ts₀ = g.rx) (count : s.nframes = 1)
      (prev : s.prevType = 1 ↔ since = []) (prevSeq : since = [] → s.prevSequence = g.sequence)
      (prevTwo : s.prevType = 2 → ∃ a ∈ since, a.type = 2 ∧ a.sequence = s.prevSequence)
  /-- Both are there, and both are of the open set. -/
  | second (g a : Arrival) (since : List Arrival) (set : frameSet fs = some (g, a :: since))
      (type : a.type = 2) (seq : a.sequence = g.sequence) (stored : s.ts₀ = g.rx)
      (stored' : s.ts₁ = a.rx) (prev : s.prevType ≠ 1)

theorem latencyFrame_state (s : Latency) (f : Arrival) :
    ∃ st, (latencyFrame cfg jiffies s f).1 =
      { endFrame cfg (trackFrame s f) f with stats := st } := by
  unfold latencyFrame
  dsimp only
  split
  · exact ⟨_, rfl⟩
  · exact ⟨_, rfl⟩

theorem Tracked.of_fields {s' : Latency} (h : Tracked s fs) (h₀ : s'.ts₀ = s.ts₀)
    (h₁ : s'.ts₁ = s.ts₁) (hn : s'.nframes = s.nframes) (hseq : s'.prevSequence = s.prevSequence)
    (htype : s'.prevType = s.prevType) : Tracked s' fs := by
  cases h with
  | fresh set prev count => exact .fresh set (by rwa [htype]) (by rwa [hn])
  | first g since set none stored count prev prevSeq prevTwo =>
    exact .first g since set none (by rwa [h₀]) (by rwa [hn]) (by rwa [htype]) (by rwa [hseq])
      (by rwa [htype, hseq])
  | second g a since set type seq stored stored' prev =>
    exact .second g a since set type seq (by rwa [h₀]) (by rwa [h₁]) (by rwa [htype])

theorem frameSet_extend (hf : f.type ≠ 1) :
    frameSet (fs ++ [f]) = (frameSet fs).map fun gs => (gs.1, gs.2 ++ [f]) := by
  rw [frameSet_concat, if_neg hf]

theorem hasSecond_concat {g : Arrival} {since : List Arrival} (h : since ≠ []) :
    HasSecond g (since ++ [f]) ↔ HasSecond g since := by
  cases since with
  | nil => exact absurd rfl h
  | cons a since => exact Iff.rfl

theorem Tracked.ignore {cfg : LatencyConfig} (h : Tracked s fs) (hf : f.type ≠ 1)
    (hsecond : f.type = 2 → s.prevType = 1 → f.sequence ≠ s.prevSequence) :
    Tracked (endFrame cfg s f) (fs ++ [f]) := by
  cases h with
  | fresh set prev count =>
    refine .fresh ?_ hf count
    rw [frameSet_extend hf, set]
    rfl
  | first g since set none stored count prev prevSeq prevTwo =>
    refine .first g (since ++ [f]) ?_ ?_ stored count ?_ ?_ ?_
    · rw [frameSet_extend hf, set]
      rfl
    · cases hsince : since with
      | nil =>
        rintro ⟨a, ha, htype, hseq⟩
        cases ha
        refine hsecond htype (prev.mpr hsince) ?_
        rw [hseq, prevSeq hsince]
      | cons a rest =>
        rw [← hsince, hasSecond_concat (by rw [hsince]; exact cons_ne_nil a rest)]
        exact none
    · exact ⟨fun h => absurd h hf, fun h => absurd h (append_ne_nil_of_right_ne_nil _
        (cons_ne_nil f []))⟩
    · exact fun h => absurd h (append_ne_nil_of_right_ne_nil _ (cons_ne_nil f []))
    · exact fun htype => ⟨f, mem_append_right _ mem_cons_self, htype, rfl⟩
  | second g a since set type seq stored stored' prev =>
    refine .second g a (since ++ [f]) ?_ type seq stored stored' hf
    rw [frameSet_extend hf, set]
    rfl

/-- **One frame.** -/
theorem Tracked.step {cfg : LatencyConfig} (h : Tracked s fs) (hset : f.type = 3 → InSet fs f) :
    Tracked (endFrame cfg (trackFrame s f) f) (fs ++ [f]) := by
  unfold trackFrame
  split
  · next htype =>
    refine .first f [] ?_ ?_ rfl rfl ?_ (fun _ => rfl) ?_
    · rw [frameSet_concat, if_pos htype]
    · rintro ⟨a, ha, -⟩
      cases ha
    · exact ⟨fun _ => rfl, fun _ => htype⟩
    · intro h2
      rw [endFrame, htype] at h2
      cases h2
  · next hnot1 =>
    split
    · next htype =>
      split
      · next hrej =>
        exact h.ignore hnot1 fun _ hprev => hrej.resolve_right (not_not.mpr hprev)
      · next hacc =>
        rw [not_or, not_not, not_not] at hacc
        -- the frame before is the type-1 frame of the open set
        cases h with
        | fresh set prev count => exact absurd hacc.2 prev
        | first g since set none stored count prev prevSeq prevTwo =>
          have hnil := prev.mp hacc.2
          refine .second g f [] ?_ htype ?_ stored rfl hnot1
          · rw [frameSet_extend hnot1, set, hnil]
            rfl
          · rw [hacc.1, prevSeq hnil]
        | second g a since set type seq stored stored' prev => exact absurd hacc.2 prev
    · next hnot2 =>
      have hign : Tracked (endFrame cfg s f) (fs ++ [f]) :=
        h.ignore hnot1 fun htype => absurd htype hnot2
      split
      · next htype =>
        split
        · exact hign
        · next hacc =>
          rw [not_or, not_not, not_not] at hacc
          -- counted: only once the second time is there
          obtain ⟨g', since', hset', hseq', hsec⟩ := hset htype
          cases h with
          | fresh set prev count =>
            rw [set] at hset'
            cases hset'
          | first g since set none stored count prev prevSeq prevTwo =>
            rw [set] at hset'
            cases hset'
            obtain ⟨a, ha, htype', hseq⟩ := prevTwo hacc.2
            exact absurd (hsec ⟨a, ha, htype', hseq.trans hacc.1.symm⟩) none
          | second g a since set type seq stored stored' prev =>
            refine .second g a (since ++ [f]) ?_ type seq stored stored' hnot1
            rw [frameSet_extend hnot1, set]
            rfl
      · exact hign

/-! ## Runs -/

def received (polls : List LatencyPoll) : List Arrival := polls.filterMap LatencyPoll.arrival

theorem SetsInOrder.left {gs : List Arrival} (h : SetsInOrder (fs ++ gs)) : SetsInOrder fs := by
  intro before f after hfs
  exact h before f (after ++ gs) (by rw [hfs, append_assoc]; rfl)

theorem latencyFrame_tracked (h : Tracked s fs) (horder : SetsInOrder (fs ++ [f])) :
    Tracked (latencyFrame cfg jiffies s f).1 (fs ++ [f]) := by
  obtain ⟨st, hst⟩ := latencyFrame_state cfg jiffies s f
  have hstep : Tracked (endFrame cfg (trackFrame s f) f) (fs ++ [f]) :=
    h.step fun htype => horder fs f [] rfl htype
  rw [hst]
  exact hstep.of_fields rfl rfl rfl rfl rfl

theorem latencyRun_tracked {polls : List LatencyPoll} (h : SetsInOrder (received polls)) :
    Tracked (latencyRun cfg polls) (received polls) := by
  induction polls using reverseRecOn with
  | nil => exact (.fresh rfl (by decide) rfl : Tracked Latency.init [])
  | append_singleton polls p ih =>
    rw [received, filterMap_append] at h
    rw [received, filterMap_append, latencyRun, Run.run_append]
    have ih' := ih h.left
    cases hp : p.arrival with
    | none =>
      have hnil : [p].filterMap LatencyPoll.arrival = [] := by
        rw [filterMap_cons_none hp]
        rfl
      rw [hnil, append_nil, Run.run_cons]
      simp only [latencyPollRx, hp]
      exact ih'
    | some f =>
      have hone : [p].filterMap LatencyPoll.arrival = [f] := by
        rw [filterMap_cons_some hp]
        rfl
      rw [hone] at h ⊢
      rw [Run.run_cons]
      simp only [latencyPollRx, hp]
      exact latencyFrame_tracked cfg _ ih' h

/-- **A report never mixes two sets** when the frames of a set arrive in order: the
two receive times are those of frames received with the sequence number of the
type-3 frame, and the latencies are their differences to the times it carries. -/
theorem latencyRun_unmixed {cfg : LatencyConfig} {polls : List LatencyPoll} {p : LatencyPoll}
    {f : Arrival} {r : LatencyReport} (hp : p.arrival = some f)
    (horder : SetsInOrder (received polls ++ [f]))
    (hrep : (latencyPollRx cfg (latencyRun cfg polls) p).2 = some r) :
    ∃ g ∈ received polls, ∃ a ∈ received polls,
      g.type = 1 ∧ g.sequence = f.sequence ∧ a.type = 2 ∧ a.sequence = f.sequence ∧
      (latencyPollRx cfg (latencyRun cfg polls) p).1.ts₀ = g.rx ∧
      (latencyPollRx cfg (latencyRun cfg polls) p).1.ts₁ = a.rx ∧
      r = ⟨f.sequence, tsSub g.rx f.ts.1, tsSub a.rx f.ts.2⟩ := by
  have htrack := latencyFrame_tracked cfg p.jiffies (latencyRun_tracked cfg horder.left) horder
  simp only [latencyPollRx, hp] at hrep ⊢
  generalize latencyRun cfg polls = s at *
  obtain ⟨st, hst⟩ := latencyFrame_state cfg p.jiffies s f
  have hcond : f.type = 3 ∧ (endFrame cfg (trackFrame s f) f).nframes = 3 := by
    by_contra hno
    rw [not_and_or] at hno
    rw [latencyFrame, if_pos hno] at hrep
    cases hrep
  have hr : r = ⟨f.sequence, tsSub (latencyFrame cfg p.jiffies s f).1.ts₀ f.ts.1,
      tsSub (latencyFrame cfg p.jiffies s f).1.ts₁ f.ts.2⟩ := by
    rw [hst]
    rw [latencyFrame, if_neg (by rw [not_or, not_not, not_not]; exact hcond)] at hrep
    exact (Option.some.inj hrep).symm
  have hcount : (latencyFrame cfg p.jiffies s f).1.nframes = 3 := by
    rw [hst]
    exact hcond.2
  cases htrack with
  | fresh set prev count =>
    rw [count] at hcount
    cases hcount
  | first g since set none stored count prev prevSeq prevTwo =>
    rw [count] at hcount
    cases hcount
  | second g a since set type seq stored stored' prev =>
    obtain ⟨g', since', hset, hseq, -⟩ := horder _ f [] rfl hcond.1
    have hne : f.type ≠ 1 := by
      rw [hcond.1]
      decide
    rw [frameSet_extend hne, hset] at set
    have hsplit := (frameSet_split hset).2
    have hg : g' = g := congrArg Prod.fst (Option.some.inj set)
    have hsince : since' ++ [f] = a :: since := congrArg Prod.snd (Option.some.inj set)
    -- the second frame is not the type-3 frame itself
    have ha : a ∈ since' := by
      cases since' with
      | nil =>
        cases hsince
        rw [hcond.1] at type
        cases type
      | cons b rest =>
        cases hsince
        exact mem_cons_self
    obtain ⟨before, hbefore⟩ := hsplit
    rw [hg] at hseq hbefore hset
    have hmem : g ∈ received polls ∧ a ∈ received polls := by
      rw [hbefore]
      exact ⟨mem_append_right _ mem_cons_self,
        mem_append_right _ (mem_cons_of_mem _ ha)⟩
    refine ⟨g, hmem.1, a, hmem.2, (frameSet_split hset).1, hseq, type, seq.trans hseq, stored,
      stored', ?_⟩
    rw [hr, stored, stored']

/-- A frame received at `rx` ns of second 0, with two transmit times. -/
def sampleFrame (type sequence : BitVec 32) (rx tx₀ tx₁ : Int) : Arrival :=
  ⟨type, sequence, (⟨0, tx₀, 0, 0, 0, 0, true⟩, ⟨0, tx₁, 0, 0, 0, 0, true⟩),
    ⟨0, rx, 0, 0, 0, 0, true⟩⟩

def samplePoll (f : Arrival) : LatencyPoll := ⟨some f, 0⟩

def verboseConfig : LatencyConfig := ⟨false, true, 0⟩

def firstPolls : List LatencyPoll :=
  [samplePoll (sampleFrame 1 0 1500 0 0), samplePoll (sampleFrame 2 0 2600 0 0)]

/-- One complete set, 500 ns and 600 ns after it was sent. -/
theorem latencyRun_unmixed_set :
    (latencyPollRx verboseConfig (latencyRun verboseConfig firstPolls)
        (samplePoll (sampleFrame 3 0 4000 1000 2000))).2 = some ⟨0, ⟨500, 0⟩, ⟨600, 0⟩⟩ ∧
      ∃ g ∈ received firstPolls, g.type = 1 ∧ g.sequence = 0 := by
  have hrep : (latencyPollRx verboseConfig (latencyRun verboseConfig firstPolls)
      (samplePoll (sampleFrame 3 0 4000 1000 2000))).2 = some ⟨0, ⟨500, 0⟩, ⟨600, 0⟩⟩ := by decide
  have hin : InSet (received firstPolls) (sampleFrame 3 0 4000 1000 2000) :=
    ⟨_, _, rfl, rfl, fun _ => ⟨_, rfl, rfl, rfl⟩⟩
  have horder : SetsInOrder (received firstPolls ++ [sampleFrame 3 0 4000 1000 2000]) := by
    intro before f after h htype
    rcases before with _ | ⟨b, _ | ⟨c, _ | ⟨d, before⟩⟩⟩
    · cases h
      cases htype
    · cases h
      cases htype
    · cases h
      exact hin
    · have hlen := congrArg List.length h
      simp only [length_append, length_cons] at hlen
      change 3 = _ at hlen
      omega
  obtain ⟨g, hg, -, -, htype, hseq, -⟩ := latencyRun_unmixed rfl horder hrep
  exact ⟨hrep, g, hg, htype, hseq⟩

def lossyPolls : List LatencyPoll := firstPolls ++ [samplePoll (sampleFrame 2 1 12600 0 0)]

/-- Set 1 is reported, with the two receive times of set 0. -/
theorem latencyRun_mixed :
    (latencyPollRx verboseConfig (latencyRun verboseConfig lossyPolls)
        (samplePoll (sampleFrame 3 1 14000 11000 12000))).2.map LatencyReport.sequence = some 1 ∧
      (latencyPollRx verboseConfig (latencyRun verboseConfig lossyPolls)
        (samplePoll (sampleFrame 3 1 14000 11000 12000))).1.ts₀ = (sampleFrame 1 0 1500 0 0).rx ∧
      (latencyPollRx verboseConfig (latencyRun verboseConfig lossyPolls)
        (samplePoll (sampleFrame 3 1 14000 11000 12000))).1.ts₁ =
          (sampleFrame 2 0 2600 0 0).rx := by
  decide

/-! ## The range of a latency -/

/-- A time stamp with its fields in range; a phase is less than a tick, which may be
more than a nanosecond. -/
def WrTimestamp.Normalised (t : WrTimestamp) : Prop :=
  (0 ≤ t.nsec ∧ t.nsec < 1000000000) ∧ 0 ≤ t.phase ∧ t.phase < 2 ^ 31

instance (t : WrTimestamp) : Decidable t.Normalised := by
  unfold WrTimestamp.Normalised
  infer_instance

/-- The time from `t₁` to `t₂`, in picoseconds. -/
def trueDifference (t₂ t₁ : WrTimestamp) : Int :=
  ((t₂.sec.toInt - t₁.sec.toInt) * 1000000000 + (t₂.nsec - t₁.nsec)) * 1000 +
    (t₂.phase - t₁.phase)

def WithinSecond (ps : Int) : Prop := 0 ≤ ps ∧ ps < 1000000000000

instance (ps : Int) : Decidable (WithinSecond ps) := by
  unfold WithinSecond
  infer_instance

def LatencyValue.picos (v : LatencyValue) : Int := v.nsec.toNat * 1000 + v.phase.toNat

theorem tsSub_operand {t₂ t₁ : WrTimestamp} (h₂ : t₂.Normalised) (h₁ : t₁.Normalised) :
    ((t₂.sec - t₁.sec) * 1000000000 + BitVec.ofInt 64 (i32 (t₂.nsec - t₁.nsec))) * 1000 +
      BitVec.ofInt 64 (i32 (t₂.phase - t₁.phase)) = BitVec.ofInt 64 (trueDifference t₂ t₁) := by
  obtain ⟨hn₂, hp₂⟩ := h₂
  obtain ⟨hn₁, hp₁⟩ := h₁
  have hnsec : i32 (t₂.nsec - t₁.nsec) = t₂.nsec - t₁.nsec := i32_of_range (by omega)
  have hphase : i32 (t₂.phase - t₁.phase) = t₂.phase - t₁.phase := i32_of_range (by omega)
  have hsec : BitVec.ofInt 64 (t₂.sec.toInt - t₁.sec.toInt) = t₂.sec - t₁.sec := by
    rw [Int.sub_eq_add_neg, BitVec.ofInt_add, BitVec.ofInt_neg, BitVec.ofInt_toInt,
      BitVec.ofInt_toInt, BitVec.sub_eq_add_neg]
  rw [hnsec, hphase, trueDifference, BitVec.ofInt_add, BitVec.ofInt_mul, BitVec.ofInt_add,
    BitVec.ofInt_mul, hsec]
  rfl

theorem tsSub_picos {t₂ t₁ : WrTimestamp} (h₂ : t₂.Normalised) (h₁ : t₁.Normalised)
    (h : WithinSecond (trueDifference t₂ t₁)) : (tsSub t₂ t₁).picos = trueDifference t₂ t₁ := by
  obtain ⟨hlo, hhi⟩ := h
  obtain ⟨d, hd⟩ := Int.eq_ofNat_of_zero_le hlo
  have hop : (BitVec.ofInt 64 (trueDifference t₂ t₁)).toNat = d := by
    rw [hd, BitVec.ofInt_natCast]
    exact Nat.mod_eq_of_lt (by omega)
  unfold tsSub LatencyValue.picos
  dsimp only
  rw [tsSub_operand h₂ h₁, BitVec.toNat_setWidth, BitVec.toNat_setWidth, BitVec.toNat_udiv,
    BitVec.toNat_umod]
  have h1000 : (1000 : BitVec 64).toNat = 1000 := rfl
  rw [h1000]
  omega

/-- The poll completes a set: every frame of it has been counted. -/
def Completes (s : Latency) (f : Arrival) : Prop := f.type = 3 ∧ (trackFrame s f).nframes = 3

instance (s : Latency) (f : Arrival) : Decidable (Completes s f) := by
  unfold Completes
  infer_instance

/-- **A complete set is reported, always**: `ts_sub` leaves 0 in `sec`, and the test for
unsynchronised nodes looks at nothing else. -/
theorem latencyFrame_report (s : Latency) (f : Arrival) :
    (latencyFrame cfg jiffies s f).2 =
      if Completes s f then some ⟨f.sequence, tsSub s.ts₀ f.ts.1, tsSub s.ts₁ f.ts.2⟩
      else none := by
  have hcount : (endFrame cfg (trackFrame s f) f).nframes = (trackFrame s f).nframes := rfl
  unfold latencyFrame
  dsimp only
  rw [hcount]
  by_cases h : Completes s f
  · rw [if_neg (by rw [not_or, not_not, not_not]; exact h), if_pos h]
    -- a type-3 frame moves neither receive time
    have htrack : (trackFrame s f).ts₀ = s.ts₀ ∧ (trackFrame s f).ts₁ = s.ts₁ := by
      unfold trackFrame
      rw [h.1, if_neg (by decide), if_neg (by decide), if_pos rfl]
      split
      · exact ⟨rfl, rfl⟩
      · exact ⟨rfl, rfl⟩
    have hend₀ : (endFrame cfg (trackFrame s f) f).ts₀ = s.ts₀ := htrack.1
    have hend₁ : (endFrame cfg (trackFrame s f) f).ts₁ = s.ts₁ := htrack.2
    rw [hend₀, hend₁]
  · rw [if_pos (not_and_or.mp h), if_neg h]

def Synchronised (rx tx : WrTimestamp) (v : LatencyValue) : Prop :=
  WithinSecond (trueDifference rx tx) ∧ v.picos = trueDifference rx tx

/-- **A poll reports true latencies only** exactly when it completes no set, or both
differences of the set are within the second. -/
theorem latencyPollRx_synchronised_iff {cfg : LatencyConfig} {s : Latency} {p : LatencyPoll}
    {f : Arrival} (hp : p.arrival = some f) (hrx : s.ts₀.Normalised ∧ s.ts₁.Normalised)
    (htx : f.ts.1.Normalised ∧ f.ts.2.Normalised) :
    (∀ r, (latencyPollRx cfg s p).2 = some r →
      Synchronised s.ts₀ f.ts.1 r.lat₀ ∧ Synchronised s.ts₁ f.ts.2 r.lat₁) ↔
    (Completes s f → WithinSecond (trueDifference s.ts₀ f.ts.1) ∧
      WithinSecond (trueDifference s.ts₁ f.ts.2)) := by
  simp only [latencyPollRx, hp, latencyFrame_report]
  constructor
  · intro h hc
    obtain ⟨h₀, h₁⟩ := h _ (if_pos hc)
    exact ⟨h₀.1, h₁.1⟩
  · intro h r hr
    by_cases hc : Completes s f
    · rw [if_pos hc] at hr
      cases hr
      obtain ⟨h₀, h₁⟩ := h hc
      exact ⟨⟨h₀, tsSub_picos hrx.1 htx.1 h₀⟩, ⟨h₁, tsSub_picos hrx.2 htx.2 h₁⟩⟩
    · rw [if_neg hc] at hr
      cases hr

theorem latencyPollRx_synchronised_set :
    Completes (latencyRun verboseConfig firstPolls) (sampleFrame 3 0 4000 1000 2000) ∧
    ∀ r, (latencyPollRx verboseConfig (latencyRun verboseConfig firstPolls)
        (samplePoll (sampleFrame 3 0 4000 1000 2000))).2 = some r →
      Synchronised (latencyRun verboseConfig firstPolls).ts₀
          (sampleFrame 3 0 4000 1000 2000).ts.1 r.lat₀ ∧
        Synchronised (latencyRun verboseConfig firstPolls).ts₁
          (sampleFrame 3 0 4000 1000 2000).ts.2 r.lat₁ := by
  refine ⟨by decide, ?_⟩
  exact (latencyPollRx_synchronised_iff rfl (by decide) (by decide)).mpr (by decide)

/-- The sender is 5 s ahead: both true differences are negative, and the set is
reported. -/
theorem latencyPollRx_unsynchronised :
    trueDifference (latencyRun verboseConfig firstPolls).ts₀ ⟨5, 1000, 0, 0, 0, 0, true⟩ < 0 ∧
      (latencyPollRx verboseConfig (latencyRun verboseConfig firstPolls)
        (samplePoll { sampleFrame 3 0 4000 1000 2000 with
          ts := (⟨5, 1000, 0, 0, 0, 0, true⟩, ⟨5, 2000, 0, 0, 0, 0, true⟩) })).2 =
      some ⟨0, ⟨566278115, 616⟩, ⟨566278215, 616⟩⟩ := by
  decide

end Wrpc.Net
