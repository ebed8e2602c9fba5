/-
# The debug words of the SoftPLL

`spll_debug` writes words into a FIFO.  A word has a source and a signal, and
the words of a source up to one with the last flag are a record.
`spll_get_debug_queue_samples` empties the FIFO into buffers and passes one
record of each source in `undersample_ratio`, and all EVENT words.

How the words are split over calls and buffers does not matter
(`queueRun_reads`): whether a word is kept depends on its signal and on the
number of its record alone (`reads_kept`).  Which records pass is another
matter: the counters have 8 bits, so a ratio above 255 passes none, and the
first record of a source never passes.
-/
import Wrpc.Lib.CInt
import Wrpc.Lib.Run

namespace Wrpc.SoftPll

open CInt List Function

/-- The word `spll_debug` writes. -/
def spllDebug (src what : Nat) (value : Int) (last : Bool) : BitVec 32 :=
  (if last then 0x80000000#32 else 0) ||| (BitVec.ofInt 32 value &&& 0xffffff#32) |||
    (BitVec.ofNat 32 src <<< 28) ||| (BitVec.ofNat 32 what <<< 24)

/-- `SPLL_DBG_EXTRACT_SOURCE` -/
def debugSource (v : BitVec 32) : Nat := (v >>> 28 &&& 0x7#32).toNat

/-- `SPLL_DBG_EXTRACT_SIGNAL` -/
def debugSignal (v : BitVec 32) : Nat := (v >>> 24 &&& 0xf#32).toNat

def isLast (v : BitVec 32) : Bool := v.msb

/-- `SPLL_DBG_SIGNAL_EVENT` -/
def isEvent (v : BitVec 32) : Bool := debugSignal v = 6

/-- `struct spll_debug_queue_state` -/
structure DebugQueue where
  undersampleRatio : Int
  undersampleCount : Nat → BitVec 8
  undersamplePass : Nat → Bool
  coalesceThreshold : Int

/-- `spll_debug_queue_configure`; it also empties the FIFO. -/
def spllDebugQueueConfigure (undersample coalesceThreshold : Int) : DebugQueue where
  undersampleRatio := undersample
  undersampleCount _ := 0
  undersamplePass _ := false
  coalesceThreshold := i32 (coalesceThreshold * undersample)

def DebugQueue.keeps (st : DebugQueue) (v : BitVec 32) : Bool :=
  st.undersamplePass (debugSource v) || isEvent v

def DebugQueue.next (st : DebugQueue) (v : BitVec 32) : DebugQueue :=
  if isLast v then
    let src := debugSource v
    let count := st.undersampleCount src + 1
    if st.undersampleRatio ≤ count.toNat then
      { st with
        undersampleCount := Function.update st.undersampleCount src 0
        undersamplePass := Function.update st.undersamplePass src true }
    else
      { st with
        undersampleCount := Function.update st.undersampleCount src count
        undersamplePass := Function.update st.undersamplePass src false }
  else st

/-- What a call leaves: the counters, the words in the buffer and the words still in the FIFO. -/
structure QueueRead where
  queue : DebugQueue
  buf : List (BitVec 32)
  fifo : List (BitVec 32)

/-- The loop of `spll_get_debug_queue_samples`, with room for so many words. -/
def readQueue (st : DebugQueue) : List (BitVec 32) → Nat → QueueRead
  | [], _ => ⟨st, [], []⟩
  | v :: vs, 0 => ⟨st, [], v :: vs⟩
  | v :: vs, room + 1 =>
    if st.keeps v then
      let u := readQueue (st.next v) vs room
      { u with buf := v :: u.buf }
    else readQueue (st.next v) vs (room + 1)

/-- `spll_get_debug_queue_samples`; `full` and `usedw` are what it latches from the FIFO. -/
def spllGetDebugQueueSamples (st : DebugQueue) (full : Bool) (usedw : BitVec 13)
    (fifo : List (BitVec 32)) (count : Nat) : QueueRead :=
  if ¬full ∧ (usedw.toNat : Int) < st.coalesceThreshold then ⟨st, [], fifo⟩
  else readQueue st fifo count

structure Dump where
  queue : DebugQueue
  fifo : List (BitVec 32)

/-- A word comes in, or a call with room for `count` words takes some.  What it latches is left
open, so that a word that comes in during the call is one that was there before. -/
inductive DumpEvent
  | write (v : BitVec 32)
  | get (full : Bool) (usedw : BitVec 13) (count : Nat)

def Dump.step (d : Dump) : DumpEvent → Dump
  | .write v => { d with fifo := d.fifo ++ [v] }
  | .get full usedw count =>
    let u := spllGetDebugQueueSamples d.queue full usedw d.fifo count
    ⟨u.queue, u.fifo⟩

def stored (d : Dump) : DumpEvent → List (BitVec 32)
  | .write _ => []
  | .get full usedw count => (spllGetDebugQueueSamples d.queue full usedw d.fifo count).buf

def readWords (d : Dump) : DumpEvent → List (BitVec 32)
  | .write _ => []
  | .get full usedw count => d.fifo.take
      (d.fifo.length - (spllGetDebugQueueSamples d.queue full usedw d.fifo count).fifo.length)

def written : DumpEvent → List (BitVec 32)
  | .write v => [v]
  | .get _ _ _ => []

def StoresWithin (d : Dump) : DumpEvent → Prop
  | .write _ => True
  | .get full usedw count => (stored d (.get full usedw count)).length ≤ count

/-- A word that has been read: which record of its source it belongs to, counted from 0, and whether
it was kept. -/
structure Entry where
  word : BitVec 32
  record : Nat
  kept : Bool

/-- The number of complete records of each source, behind a word. -/
def bump (n : Nat → Nat) (v : BitVec 32) : Nat → Nat :=
  if isLast v then Function.update n (debugSource v) (n (debugSource v) + 1) else n

theorem bump_of_ne {n : Nat → Nat} {v : BitVec 32} {src : Nat} (h : src ≠ debugSource v) :
    bump n v src = n src := by
  unfold bump
  split
  case isTrue => exact update_of_ne h ..
  case isFalse => rfl

def reads (st : DebugQueue) (n : Nat → Nat) : List (BitVec 32) → List Entry
  | [] => []
  | v :: vs => ⟨v, n (debugSource v), st.keeps v⟩ :: reads (st.next v) (bump n v) vs

def keptWords (entries : List Entry) : List (BitVec 32) := (entries.filter (·.kept)).map (·.word)

theorem reads_append (st : DebugQueue) (n : Nat → Nat) (vs ws : List (BitVec 32)) :
    reads st n (vs ++ ws) =
      reads st n vs ++ reads (vs.foldl DebugQueue.next st) (vs.foldl bump n) ws := by
  induction vs generalizing st n with
  | nil => rfl
  | cons v vs ih => exact congrArg _ (ih (st.next v) (bump n v))

/-- A call reads some of the words; it stores what is kept of them, no more than there is room
for. -/
theorem readQueue_spec (n : Nat → Nat) : ∀ (fifo : List (BitVec 32)) (st : DebugQueue) (room : Nat),
    ∃ vs, fifo = vs ++ (readQueue st fifo room).fifo ∧
      (readQueue st fifo room).queue = vs.foldl DebugQueue.next st ∧
      (readQueue st fifo room).buf = keptWords (reads st n vs) ∧
      (readQueue st fifo room).buf.length ≤ room := by
  intro fifo
  induction fifo generalizing n with
  | nil => exact fun st room => ⟨[], rfl, rfl, rfl, Nat.zero_le _⟩
  | cons v vs ih =>
    intro st room
    cases room with
    | zero => exact ⟨[], rfl, rfl, rfl, Nat.zero_le _⟩
    | succ room =>
      by_cases hk : st.keeps v = true
      · obtain ⟨ws, hfifo, hqueue, hbuf, hlen⟩ := ih (bump n v) (st.next v) room
        simp only [readQueue, if_pos hk]
        refine ⟨v :: ws, ?_, hqueue, ?_, Nat.succ_le_succ hlen⟩
        · rw [cons_append, ← hfifo]
        · rw [hbuf]
          simp [keptWords, reads, hk]
      · obtain ⟨ws, hfifo, hqueue, hbuf, hlen⟩ := ih (bump n v) (st.next v) (room + 1)
        simp only [readQueue, if_neg hk]
        refine ⟨v :: ws, ?_, hqueue, ?_, hlen⟩
        · rw [cons_append, ← hfifo]
        · rw [hbuf]
          simp [keptWords, reads, hk]

theorem spllGetDebugQueueSamples_spec (n : Nat → Nat) (st : DebugQueue) (full : Bool)
    (usedw : BitVec 13) (fifo : List (BitVec 32)) (count : Nat) :
    ∃ vs, fifo = vs ++ (spllGetDebugQueueSamples st full usedw fifo count).fifo ∧
      (spllGetDebugQueueSamples st full usedw fifo count).queue = vs.foldl DebugQueue.next st ∧
      (spllGetDebugQueueSamples st full usedw fifo count).buf = keptWords (reads st n vs) ∧
      (spllGetDebugQueueSamples st full usedw fifo count).buf.length ≤ count := by
  unfold spllGetDebugQueueSamples
  split
  · exact ⟨[], rfl, rfl, rfl, Nat.zero_le _⟩
  · exact readQueue_spec n fifo st count

theorem Dump.step_spec (n : Nat → Nat) (d : Dump) (e : DumpEvent) :
    d.fifo ++ written e = readWords d e ++ (d.step e).fifo ∧
      (d.step e).queue = (readWords d e).foldl DebugQueue.next d.queue ∧
      stored d e = keptWords (reads d.queue n (readWords d e)) ∧ StoresWithin d e := by
  cases e with
  | write v => exact ⟨rfl, rfl, rfl, trivial⟩
  | get full usedw count =>
    obtain ⟨vs, hfifo, hqueue, hbuf, hlen⟩ :=
      spllGetDebugQueueSamples_spec n d.queue full usedw d.fifo count
    have hread : readWords d (.get full usedw count) = vs := by
      have hcount := congrArg List.length hfifo
      rw [length_append] at hcount
      rw [readWords, hcount, Nat.add_sub_cancel]
      exact (congrArg (List.take vs.length) hfifo).trans take_left
    refine ⟨?_, ?_, ?_, hlen⟩
    · rw [hread, written, append_nil]
      exact hfifo
    · rw [hread]
      exact hqueue
    · rw [hread]
      exact hbuf

/-- Over a run no word is lost or read twice, and what is stored does not depend on how the words
were split over the calls. -/
theorem queueRun_reads (n : Nat → Nat) : ∀ (es : List DumpEvent) (d : Dump),
    d.fifo ++ es.flatMap written =
        Run.emits Dump.step readWords d es ++ (Run.run Dump.step d es).fifo ∧
      Run.emits Dump.step stored d es =
        keptWords (reads d.queue n (Run.emits Dump.step readWords d es))
  | [], d => ⟨append_nil _, rfl⟩
  | e :: es, d => by
    obtain ⟨hfifo, hqueue, hstored, -⟩ := d.step_spec n e
    obtain ⟨ihfifo, ihstored⟩ :=
      queueRun_reads ((readWords d e).foldl bump n) es (d.step e)
    constructor
    · rw [flatMap_cons, ← append_assoc, hfifo, append_assoc, ihfifo]
      simp [Run.emits]
    · simp only [Run.emits]
      rw [ihstored, hqueue, hstored, reads_append]
      simp [keptWords]

/-! ## Which records pass -/

/-- The records that pass: after the first, one in `ratio`, as far as the counter can count. -/
def passes (ratio record : Nat) : Bool := ratio ≤ 255 ∧ 0 < record ∧ record % ratio = 0

structure Counters (ratio : Nat) (n : Nat → Nat) (st : DebugQueue) : Prop where
  ratio_eq : st.undersampleRatio = ratio
  count : ∀ src, (st.undersampleCount src).toNat = n src % if ratio ≤ 255 then ratio else 256
  pass : ∀ src, st.undersamplePass src = passes ratio (n src)

section

variable {ratio : Nat} {n : Nat → Nat} {st : DebugQueue}

theorem Counters.configure (ratio : Nat) (coalesceThreshold : Int) :
    Counters ratio (fun _ => 0) (spllDebugQueueConfigure ratio coalesceThreshold) := by
  refine ⟨rfl, fun _ => ?_, fun _ => ?_⟩
  · rfl
  · simp [spllDebugQueueConfigure, passes]

theorem count_next (hr : 0 < ratio) {c : BitVec 8} {k : Nat}
    (hc : c.toNat = k % if ratio ≤ 255 then ratio else 256) :
    (passes ratio (k + 1) = true ↔ (ratio : Int) ≤ (c + 1).toNat) ∧
      ((k + 1) % if ratio ≤ 255 then ratio else 256) =
        if passes ratio (k + 1) = true then 0 else (c + 1).toNat := by
  have hadd : (c + 1).toNat = (c.toNat + 1) % 256 := BitVec.toNat_add c 1
  simp only [passes, decide_eq_true_eq]
  by_cases hwide : ratio ≤ 255
  · rw [if_pos hwide] at hc
    have hlt := Nat.mod_lt k hr
    rw [if_pos hwide, hadd, hc, Nat.mod_eq_of_lt (a := k % ratio + 1) (by omega)]
    have hk := Nat.div_add_mod k ratio
    -- the successor of a remainder is the next remainder, or the ratio
    have hsucc : (k + 1) % ratio = if k % ratio + 1 = ratio then 0 else k % ratio + 1 := by
      split
      case isTrue h =>
        rw [show k + 1 = ratio * (k / ratio + 1) by rw [Nat.mul_add]; omega, Nat.mul_mod_right]
      case isFalse h =>
        rw [show k + 1 = ratio * (k / ratio) + (k % ratio + 1) by omega, Nat.mul_add_mod,
          Nat.mod_eq_of_lt (by omega)]
    rw [hsucc]
    by_cases hfull : k % ratio + 1 = ratio
    · simp [hfull, hwide]
    · have hzero : ¬(ratio ≤ 255 ∧ 0 < k + 1 ∧ k % ratio + 1 = 0) := by omega
      rw [if_neg hfull, if_neg hzero]
      omega
  · rw [if_neg hwide] at hc
    rw [if_neg hwide, hadd, hc]
    have hno : ¬(ratio ≤ 255 ∧ 0 < k + 1 ∧ (k + 1) % ratio = 0) := fun h => hwide h.1
    rw [if_neg hno]
    constructor
    · omega
    · omega

theorem Counters.update (h : Counters ratio n st) {src : Nat} {c : BitVec 8} {p : Bool}
    (hc : c.toNat = (n src + 1) % if ratio ≤ 255 then ratio else 256)
    (hp : p = passes ratio (n src + 1)) :
    Counters ratio (Function.update n src (n src + 1)) { st with
      undersampleCount := Function.update st.undersampleCount src c
      undersamplePass := Function.update st.undersamplePass src p } := by
  refine ⟨h.ratio_eq, fun s => ?_, fun s => ?_⟩
  all_goals
    dsimp only
    by_cases hs : s = src
    · rw [hs, update_self, update_self]
      assumption
    · rw [update_of_ne hs, update_of_ne hs]
      first | exact h.count s | exact h.pass s

theorem Counters.next (h : Counters ratio n st) (hr : 0 < ratio) (v : BitVec 32) :
    Counters ratio (bump n v) (st.next v) := by
  unfold DebugQueue.next bump
  split
  case isFalse => exact h
  case isTrue =>
    obtain ⟨hpass, hcount⟩ := count_next hr (h.count (debugSource v))
    dsimp only
    split
    case isTrue hge =>
      have hp := hpass.mpr (h.ratio_eq ▸ hge)
      rw [if_pos hp] at hcount
      exact h.update hcount.symm hp.symm
    case isFalse hlt =>
      have hp : ¬passes ratio (n (debugSource v) + 1) = true :=
        fun hp => hlt (h.ratio_eq ▸ hpass.mp hp)
      rw [if_neg hp] at hcount
      exact h.update hcount.symm (Bool.eq_false_iff.mpr hp).symm

theorem reads_kept (hr : 0 < ratio) : ∀ (vs : List (BitVec 32)) {n : Nat → Nat} {st : DebugQueue},
    Counters ratio n st → ∀ e ∈ reads st n vs, e.kept = (passes ratio e.record || isEvent e.word)
  | [], _, _, _, _, he => (nomatch he)
  | v :: vs, n, st, h, e, he => by
    rcases List.mem_cons.mp he with rfl | he
    · simp only [DebugQueue.keeps, h.pass]
    · exact reads_kept hr vs (h.next hr v) e he

end

/-! ## What undersampling promises -/

/-- The words of a record are kept or dropped together, every EVENT word is kept, and of any `ratio`
consecutive complete records of a source one is kept. -/
structure Decimated (ratio : Nat) (complete : Nat → Nat) (entries : List Entry) : Prop where
  together : ∀ e ∈ entries, ∀ e' ∈ entries, debugSource e.word = debugSource e'.word →
    e.record = e'.record → e.kept = e'.kept
  events : ∀ e ∈ entries, isEvent e.word = true → e.kept = true
  oneOf : ∀ src first, first + ratio ≤ complete src → ∃! i, (first ≤ i ∧ i < first + ratio) ∧
    ∀ e ∈ entries, debugSource e.word = src → e.record = i → e.kept = true

/-- No record that does not pass has both EVENT words and others; and of any `ratio` consecutive
complete records of a source exactly one passes or has EVENT words only. -/
structure FitsRatio (ratio : Nat) (complete : Nat → Nat) (entries : List Entry) : Prop where
  unmixed : ∀ e ∈ entries, ∀ e' ∈ entries, debugSource e.word = debugSource e'.word →
    e.record = e'.record → passes ratio e.record = false → isEvent e.word = isEvent e'.word
  oneOf : ∀ src first, first + ratio ≤ complete src → ∃! i, (first ≤ i ∧ i < first + ratio) ∧
    (passes ratio i = true ∨
      ∀ e ∈ entries, debugSource e.word = src → e.record = i → isEvent e.word = true)

theorem decimated_iff {ratio : Nat} {complete : Nat → Nat} {entries : List Entry}
    (h : ∀ e ∈ entries, e.kept = (passes ratio e.record || isEvent e.word)) :
    Decimated ratio complete entries ↔ FitsRatio ratio complete entries := by
  have hrecord : ∀ src i, (∀ e ∈ entries, debugSource e.word = src → e.record = i → e.kept = true) ↔
      (passes ratio i = true ∨
        ∀ e ∈ entries, debugSource e.word = src → e.record = i → isEvent e.word = true) := by
    intro src i
    by_cases hp : passes ratio i = true
    · refine iff_of_true (fun e he _ hi => ?_) (.inl hp)
      rw [h e he, hi, hp, Bool.true_or]
    · have hkept : ∀ e ∈ entries, e.record = i → e.kept = isEvent e.word := by
        intro e he hi
        rw [h e he, hi, Bool.eq_false_iff.mpr hp, Bool.false_or]
      constructor
      · exact fun hall => .inr fun e he hs hi => hkept e he hi ▸ hall e he hs hi
      · rintro (hyes | hall) e he hs hi
        · exact absurd hyes hp
        · rw [hkept e he hi]
          exact hall e he hs hi
  constructor
  · rintro ⟨htogether, -, hone⟩
    refine ⟨fun e he e' he' hs hi hp => ?_, fun src first hle => ?_⟩
    · have hsame := htogether e he e' he' hs hi
      rw [h e he, h e' he', ← hi, hp, Bool.false_or, Bool.false_or] at hsame
      exact hsame
    · simpa only [hrecord] using hone src first hle
  · rintro ⟨hunmixed, hone⟩
    refine ⟨fun e he e' he' hs hi => ?_, fun e he hevent => ?_, fun src first hle => ?_⟩
    · rw [h e he, h e' he', ← hi]
      cases hp : passes ratio e.record with
      | false => rw [hunmixed e he e' he' hs hi hp]
      | true => rfl
    · rw [h e he, hevent, Bool.or_true]
    · simpa only [hrecord] using hone src first hle

def Dump.read (d : Dump) (es : List DumpEvent) : List (BitVec 32) :=
  Run.emits Dump.step readWords d es

/-- Just after `spll_debug_queue_configure`. -/
def Dump.configured (undersample coalesceThreshold : Int) : Dump :=
  ⟨spllDebugQueueConfigure undersample coalesceThreshold, []⟩

def Dump.entries (d : Dump) (es : List DumpEvent) : List Entry :=
  reads d.queue (fun _ => 0) (d.read es)

def Dump.complete (d : Dump) (es : List DumpEvent) : Nat → Nat :=
  (d.read es).foldl bump fun _ => 0

/-- What is asked of a run: no call stores more than it has room for, the words are read in the
order in which they were written, what is stored are the words that are kept, and these are as
undersampling promises. -/
structure DumpSound (ratio : Nat) (d : Dump) (es : List DumpEvent) : Prop where
  within : Run.Steps Dump.step StoresWithin d es
  inOrder : es.flatMap written = d.read es ++ (Run.run Dump.step d es).fifo
  storedWords : Run.emits Dump.step stored d es = keptWords (d.entries es)
  decimated : Decimated ratio (d.complete es) (d.entries es)

/-- For every ratio, every sequence of words and every way to split it over calls and buffers. -/
theorem queueRun_decimated_iff (ratio : Nat) (hr : 0 < ratio) (coalesceThreshold : Int)
    (es : List DumpEvent) :
    DumpSound ratio (.configured ratio coalesceThreshold) es ↔
      FitsRatio ratio ((Dump.configured ratio coalesceThreshold).complete es)
        ((Dump.configured ratio coalesceThreshold).entries es) := by
  have hkept := reads_kept hr ((Dump.configured ratio coalesceThreshold).read es)
    (Counters.configure ratio coalesceThreshold)
  obtain ⟨horder, hstored⟩ := queueRun_reads (fun _ => 0) es (.configured ratio coalesceThreshold)
  constructor
  · exact fun h => (decimated_iff hkept).mp h.decimated
  · intro h
    refine ⟨?_, horder, hstored, (decimated_iff hkept).mpr h⟩
    exact Run.steps_of_inv (I := fun _ => True) (fun _ _ _ _ => trivial)
      (fun d e _ _ => (d.step_spec (fun _ => 0) e).2.2.2) trivial (Run.steps_true _ es)

/-- An event of the main PLL and a record of one word, with a ratio of 1. -/
def eventAndError : List DumpEvent :=
  [.write (spllDebug 1 6 1 true), .write (spllDebug 1 1 5 true), .get false 2 64]

/-- The event is kept, and so is the record behind it. -/
theorem queueRun_decimated_event : DumpSound 1 (.configured 1 0) eventAndError := by
  refine (queueRun_decimated_iff 1 (by decide) 0 eventAndError).mpr ⟨by decide, ?_⟩
  intro src first hle
  have hcomplete : (Dump.configured 1 0).complete eventAndError src = if src = 1 then 2 else 0 := by
    by_cases hs : src = 1
    · rw [hs]
      decide
    · rw [if_neg hs]
      have hevent : src ≠ debugSource (spllDebug 1 6 1 true) := hs
      have herror : src ≠ debugSource (spllDebug 1 1 5 true) := hs
      exact (bump_of_ne herror).trans (bump_of_ne hevent)
  have hsrc : src = 1 ∧ first < 2 := by
    have hle' : first + 1 ≤ (Dump.configured 1 0).complete eventAndError src := hle
    rw [hcomplete] at hle'
    split at hle' <;> omega
  obtain ⟨rfl, hfirst⟩ := hsrc
  refine ⟨first, ⟨⟨Nat.le_refl _, Nat.lt_succ_self _⟩, ?_⟩, fun i hi => by omega⟩
  rcases (by omega : first = 0 ∨ first = 1) with rfl | rfl
  · exact .inr (by decide)
  · exact .inl (by decide)

/-- A ratio one above what the counter can hold, and as many records. -/
def wideRatio : List DumpEvent :=
  List.replicate 256 (.write (spllDebug 1 1 5 true)) ++ [.get true 0 64]

/-- None of them is kept. -/
theorem wideRatio_drops_all : ¬DumpSound 256 (.configured 256 0) wideRatio := by
  intro h
  obtain ⟨i, ⟨⟨-, hi⟩, hall⟩, -⟩ := h.decimated.oneOf 1 0 (by decide +kernel)
  have hrecords : ((Dump.configured 256 0).entries wideRatio).map (·.record) = List.range 256 := by
    decide +kernel
  have hdropped : ∀ e ∈ (Dump.configured 256 0).entries wideRatio,
      debugSource e.word = 1 ∧ e.kept = false := by
    decide +kernel
  obtain ⟨e, he, hr⟩ := List.mem_map.mp (hrecords ▸ List.mem_range.mpr (Nat.zero_add 256 ▸ hi))
  obtain ⟨hs, hk⟩ := hdropped e he
  rw [hall e he hs hr] at hk
  cases hk

end Wrpc.SoftPll
