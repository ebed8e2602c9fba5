/-
# Logging the DAC over UDP (`dac_log.c`)

`spll_log_dac`, in the PLL interrupt, stores the DAC values in two buffers in turn and
flags each one when it is full.  `daclog_poll`, in the main program, looks at the two
flags, clears the first that is set and sends that buffer.  The two are steps of one
machine here, and the interrupt may come between any two steps of the main program: the
test of a flag, the clearing of it, and the reading of each word by `minic_tx_frame`.

## What is proved

A flag says that a buffer has become full some time, not that it still holds one block: the
interrupt goes on to the other buffer and comes back.  So the poll is right if it finds its
buffer while the other one is being filled, and reads each word before the interrupt has come
round to it (`ReadsInTime`).  That the packets are then in order, and none is sent twice,
rests on the flags: the one of a buffer that is not being filled belongs to the block stored
last, and is cleared when that block is taken.

A packet is its 512 values here, without its header.
-/
import Wrpc.Lib.PingPong
import Wrpc.Lib.Run

namespace Wrpc.Daclog

open List Nat

/-- `BSIZE` -/
def bsize : Nat := 512

inductive Main (α : Type) where
  | idle
  /-- `daclog_poll` before `if (ready[i])` -/
  | test (i : Nat)
  /-- before `ready[i] = 0` -/
  | take (i : Nat)
  /-- sending buffer `i`, with what has been read of it -/
  | send (i : Nat) (words : List α)
  /-- `cmd_daclog` before `ready[i] = 0` -/
  | clear (i : Nat)

/-- The statics of `dac_log.c` and of `spll_log_dac`. -/
structure DacLog (α : Type) where
  buffers : Nat → Nat → α
  ready : Nat → Bool
  bindex : Nat
  bcount : Nat
  configured : Bool
  main : Main α

variable {α : Type}

namespace DacLog

/-- `spll_log_dac` -/
def spllLogDac (s : DacLog α) (y : α) : DacLog α :=
  let buffers :=
    Function.update s.buffers s.bindex (Function.update (s.buffers s.bindex) s.bcount y)
  if s.bcount + 1 = bsize then
    { s with
      buffers := buffers
      ready := Function.update s.ready s.bindex true
      bindex := if s.bindex = 0 then 1 else 0
      bcount := 0 }
  else { s with buffers := buffers, bcount := s.bcount + 1 }

/-- `daclog_poll` is called. -/
def daclogPoll (s : DacLog α) : DacLog α :=
  match s.main with
  | .idle => if s.configured then { s with main := .test 0 } else s
  | _ => s

/-- `cmd_daclog` is called, with an address or with `off`. -/
def cmdDaclog (s : DacLog α) (on : Bool) : DacLog α :=
  match s.main with
  | .idle =>
    if on then { s with configured := true, main := .clear 1 } else { s with configured := false }
  | _ => s

def mainStep (s : DacLog α) : DacLog α :=
  match s.main with
  | .idle => s
  | .test i =>
    { s with main := if s.ready i then .take i else if i = 0 then .test 1 else .idle }
  | .take i => { s with ready := Function.update s.ready i false, main := .send i [] }
  | .send i words =>
    { s with
      main := if words.length + 1 = bsize then .idle
        else .send i (words ++ [s.buffers i words.length]) }
  | .clear i =>
    { s with
      ready := Function.update s.ready i false
      main := if i = 1 then .clear 0 else .idle }

/-- At boot; the buffers hold `init`. -/
def boot (init : α) : DacLog α where
  buffers := fun _ _ => init
  ready := fun _ => false
  bindex := 0
  bcount := 0
  configured := false
  main := .idle

end DacLog

/-! ## Runs -/

inductive DacEvent where
  /-- the interrupt -/
  | log
  | poll
  | command (on : Bool)
  /-- the main program goes on -/
  | step
deriving DecidableEq, Repr

/-- The log, with how many values have been logged, and how many had been when the last buffer
was taken. -/
structure Timed (α : Type) where
  log : DacLog α
  n : Nat
  taken : Nat

/-- One event, when the values logged are `y 0`, `y 1`, ... -/
def timedStep (y : Nat → α) (t : Timed α) : DacEvent → Timed α
  | .log => { t with log := t.log.spllLogDac (y t.n), n := t.n + 1 }
  | .poll => { t with log := t.log.daclogPoll }
  | .command on => { t with log := t.log.cmdDaclog on }
  | .step =>
    { t with
      log := t.log.mainStep
      taken := match t.log.main with
        | .take _ => t.n
        | _ => t.taken }

def packetsAt (t : Timed α) : DacEvent → List (List α)
  | .step =>
    match t.log.main with
    | .send i words =>
      if words.length + 1 = bsize then [words ++ [t.log.buffers i words.length]] else []
    | _ => []
  | _ => []

def start (init : α) : Timed α := ⟨DacLog.boot init, 0, 0⟩

def packets (init : α) (y : Nat → α) (es : List DacEvent) : List (List α) :=
  Run.emits (timedStep y) packetsAt (start init) es

/-- The state before a step of the poll: the buffer it takes is not the one being filled; and since
then there have been less than 512 values, none of them in a word that is still to be read. -/
def ReadsInTime (t : Timed α) : DacEvent → Prop
  | .step =>
    match t.log.main with
    | .take i => i ≠ t.log.bindex
    | .send i words =>
      t.n < t.taken + bsize ∧ (i = t.log.bindex → t.log.bcount ≤ words.length)
    | _ => True
  | _ => True

/-! ## The interrupt

Its three effects apart: where the next value goes, what the buffers hold, and which flags are
set. -/

theorem spllLogDac_rest (s : DacLog α) (y : α) :
    (s.spllLogDac y).main = s.main ∧ (s.spllLogDac y).configured = s.configured ∧
      (s.spllLogDac y).buffers =
        Function.update s.buffers s.bindex (Function.update (s.buffers s.bindex) s.bcount y) := by
  unfold DacLog.spllLogDac
  split
  · exact ⟨rfl, rfl, rfl⟩
  · exact ⟨rfl, rfl, rfl⟩

theorem spllLogDac_stored {init : α} {y : Nat → α} {s : DacLog α} {n : Nat}
    (hindex : s.bindex = n / bsize % 2) (hcount : s.bcount = n % bsize)
    (hstored : ∀ i j, s.buffers i j = PingPong.contents bsize init y i j n) (i j : Nat) :
    (s.spllLogDac (y n)).buffers i j = PingPong.contents bsize init y i j (n + 1) := by
  rw [(spllLogDac_rest s (y n)).2.2, PingPong.contents, PingPong.lastWrite, ← hindex, ← hcount]
  by_cases hi : i = s.bindex
  · rw [hi, Function.update_self]
    by_cases hj : j = s.bcount
    · rw [hj, Function.update_self, if_pos ⟨rfl, rfl⟩]
      rfl
    · rw [Function.update_of_ne hj, if_neg fun h => hj h.2.symm]
      exact hstored s.bindex j
  · rw [Function.update_of_ne hi, if_neg fun h => hi h.1.symm]
    exact hstored i j

theorem spllLogDac_place {s : DacLog α} {n : Nat} (y : α) (hindex : s.bindex = n / bsize % 2)
    (hcount : s.bcount = n % bsize) :
    (s.spllLogDac y).bindex = (n + 1) / bsize % 2 ∧ (s.spllLogDac y).bcount = (n + 1) % bsize := by
  unfold DacLog.spllLogDac
  unfold bsize at *
  split
  · dsimp only
    split
    · omega
    · omega
  · dsimp only
    omega

theorem spllLogDac_ready_iff {s : DacLog α} {y : α} {i : Nat} :
    (s.spllLogDac y).ready i = true ↔ s.ready i = true ∨ i = s.bindex ∧ s.bcount + 1 = bsize := by
  unfold DacLog.spllLogDac
  split
  · simp only [Function.update_apply]
    grind
  · grind

/-! ## The invariant

`next` is the block behind the last one taken.  While a buffer is being sent its block is
`next - 1`, so that no packet that is still to come has a block below `low`. -/

/-- The log after `n` values. -/
structure Inv (init : α) (y : Nat → α) (next : Nat) (t : Timed α) : Prop where
  bindex : t.log.bindex = t.n / bsize % 2
  bcount : t.log.bcount = t.n % bsize
  stored : ∀ i j, t.log.buffers i j = PingPong.contents bsize init y i j t.n
  next_le : next ≤ t.n / bsize
  flags : ∀ i, t.log.ready i = true → i < 2 ∧ (i ≠ t.log.bindex → next < t.n / bsize)
  taking : ∀ i, t.log.main = .take i → t.log.ready i = true
  sending : ∀ i words, t.log.main = .send i words → words.length < bsize ∧ 0 < next ∧
    i = (next - 1) % 2 ∧ t.taken / bsize = next ∧ t.taken ≤ t.n ∧
    words = (range words.length).map fun j => y (bsize * (next - 1) + j)

def low (next : Nat) : Main α → Nat
  | .send _ _ => next - 1
  | _ => next

section

variable {init : α} {y : Nat → α} {next : Nat} {t : Timed α}

theorem Inv.log (h : Inv init y next t) : Inv init y next (timedStep y t .log) := by
  obtain ⟨hindex, hcount⟩ := spllLogDac_place (y t.n) h.bindex h.bcount
  obtain ⟨hmain, -, -⟩ := spllLogDac_rest t.log (y t.n)
  have hle : t.n / bsize ≤ (t.n + 1) / bsize := Nat.div_le_div_right (by omega)
  refine ⟨hindex, hcount, spllLogDac_stored h.bindex h.bcount h.stored, h.next_le.trans hle,
    fun i hready => ?_, fun i htake => ?_, fun i words hsend => ?_⟩
  · have hnext := h.next_le
    have hbindex := h.bindex
    have hi : i < 2 := by
      rcases spllLogDac_ready_iff.mp hready with hold | ⟨rfl, -⟩
      · exact (h.flags i hold).1
      · omega
    refine ⟨hi, fun hne => ?_⟩
    dsimp only [timedStep] at hne ⊢
    rw [hindex] at hne
    by_cases hsame : i = t.log.bindex
    · -- it has just become full
      have hmore : t.n / bsize ≠ (t.n + 1) / bsize :=
        fun heq => hne (by rw [← heq, ← hbindex, hsame])
      omega
    · rcases spllLogDac_ready_iff.mp hready with hold | ⟨heq, -⟩
      · exact lt_of_lt_of_le ((h.flags i hold).2 hsame) hle
      · exact absurd heq hsame
  · exact spllLogDac_ready_iff.mpr (.inl (h.taking i (hmain ▸ htake)))
  · obtain ⟨hlen, hpos, hi, htaken, hle', hwords⟩ := h.sending i words (hmain ▸ hsend)
    exact ⟨hlen, hpos, hi, htaken, le_succ_of_le hle', hwords⟩

/-- Another `main`, that neither takes nor sends, and perhaps flags cleared. -/
theorem Inv.of_main (h : Inv init y next t) {s : DacLog α} {taken : Nat}
    (hsame : s.bindex = t.log.bindex ∧ s.bcount = t.log.bcount ∧ s.buffers = t.log.buffers)
    (hready : ∀ i, s.ready i = true → t.log.ready i = true)
    (htaking : ∀ i, s.main = .take i → s.ready i = true)
    (hsend : ∀ i words, s.main ≠ .send i words) :
    Inv init y next ⟨s, t.n, taken⟩ where
  bindex := hsame.1.trans h.bindex
  bcount := hsame.2.1.trans h.bcount
  stored i j := by
    dsimp only
    rw [hsame.2.2]
    exact h.stored i j
  next_le := h.next_le
  flags i hi := by
    dsimp only at hi ⊢
    rw [hsame.1]
    exact h.flags i (hready i hi)
  taking := htaking
  sending i words hmain := absurd hmain (hsend i words)

theorem update_false {f : Nat → Bool} {i k : Nat} (h : Function.update f i false k = true) :
    k ≠ i ∧ f k = true := by
  by_cases hk : k = i
  · rw [hk, Function.update_self] at h
    cases h
  · exact ⟨hk, by rwa [Function.update_of_ne hk] at h⟩

/-- The buffer that is not being filled holds the block stored last. -/
theorem Inv.take (h : Inv init y next t) {i : Nat} (hmain : t.log.main = .take i)
    (hi : i ≠ t.log.bindex) :
    next < t.n / bsize ∧ Inv init y (t.n / bsize) (timedStep y t .step) := by
  obtain ⟨hlt, hflag⟩ := h.flags i (h.taking i hmain)
  have hnext := hflag hi
  have hbindex := h.bindex
  have hstep : timedStep y t .step =
      ⟨{ t.log with ready := Function.update t.log.ready i false, main := .send i [] },
        t.n, t.n⟩ := by
    dsimp only [timedStep, DacLog.mainStep]
    rw [hmain]
  rw [hstep]
  refine ⟨hnext, h.bindex, h.bcount, h.stored, Nat.le_refl _, fun k hk => ?_, nofun,
    fun k words hsend => ?_⟩
  · obtain ⟨hne, hold⟩ := update_false hk
    have := (h.flags k hold).1
    exact ⟨this, fun hne' => absurd hne' (by dsimp only; omega)⟩
  · cases hsend
    exact ⟨show 0 < bsize by decide, by omega, by omega, rfl, Nat.le_refl _, rfl⟩

/-- The next word is still that of the block taken. -/
theorem Inv.word (h : Inv init y next t) {i : Nat} {words : List α}
    (hmain : t.log.main = .send i words) (hok : ReadsInTime t .step) :
    words ++ [t.log.buffers i words.length] =
      (range (words.length + 1)).map fun j => y (bsize * (next - 1) + j) := by
  obtain ⟨hlen, hpos, hi, htaken, hle, hwords⟩ := h.sending i words hmain
  dsimp only [ReadsInTime] at hok
  rw [hmain] at hok
  have hbindex := h.bindex
  have hbcount := h.bcount
  have hword : t.log.buffers i words.length = y (bsize * (next - 1) + words.length) := by
    rw [h.stored, hi]
    refine PingPong.contents_of_block init y hlen ?_ ?_
    · unfold bsize at *
      omega
    · obtain ⟨hsince, hround⟩ := hok
      by_cases hcome : i = t.log.bindex
      · have := hround hcome
        unfold bsize at *
        omega
      · unfold bsize at *
        omega
  rw [range_succ, map_append, ← hwords, map_singleton, hword]

theorem Inv.send (h : Inv init y next t) {i : Nat} {words : List α}
    (hmain : t.log.main = .send i words) (hok : ReadsInTime t .step) :
    Inv init y next (timedStep y t .step) ∧
      (words.length + 1 = bsize → (timedStep y t .step).log.main = .idle ∧
        packetsAt t .step = [PingPong.window bsize y (bsize * (next - 1))]) ∧
      (words.length + 1 ≠ bsize → (timedStep y t .step).log.main =
        .send i (words ++ [t.log.buffers i words.length]) ∧ packetsAt t .step = []) := by
  have hword := h.word hmain hok
  obtain ⟨hlen, hpos, hi, htaken, hle, -⟩ := h.sending i words hmain
  have hmain' : (timedStep y t .step).log.main = if words.length + 1 = bsize then .idle
      else .send i (words ++ [t.log.buffers i words.length]) := by
    dsimp only [timedStep, DacLog.mainStep]
    rw [hmain]
  have hstep : timedStep y t .step = ⟨{ t.log with main := (timedStep y t .step).log.main },
      t.n, t.taken⟩ := by
    dsimp only [timedStep, DacLog.mainStep]
    rw [hmain]
  have hpacket : packetsAt t .step =
      if words.length + 1 = bsize then [words ++ [t.log.buffers i words.length]] else [] := by
    dsimp only [packetsAt]
    rw [hmain]
  rw [hmain', hpacket]
  refine ⟨?_, fun hlast => ?_, fun hmore => ⟨if_neg hmore, if_neg hmore⟩⟩
  · rw [hstep, hmain']
    refine ⟨h.bindex, h.bcount, h.stored, h.next_le, h.flags, fun k hk => ?_, fun k ws hk => ?_⟩
    · dsimp only at hk
      split at hk
      · cases hk
      · cases hk
    · dsimp only at hk
      split at hk
      · cases hk
      · next hmore =>
        cases hk
        rw [hword, length_map, length_range]
        exact ⟨by omega, hpos, hi, htaken, hle, rfl⟩
  · rw [if_pos hlast, if_pos hlast, hword, hlast]
    exact ⟨rfl, rfl⟩

/-- **One event**: nothing is sent, or the block that was being sent. -/
theorem Inv.step (h : Inv init y next t) {e : DacEvent} (hok : ReadsInTime t e) :
    ∃ next', low next t.log.main ≤ low next' (timedStep y t e).log.main ∧
      Inv init y next' (timedStep y t e) ∧
      (packetsAt t e = [] ∨ ∃ m, low next t.log.main ≤ m ∧
        m < low next' (timedStep y t e).log.main ∧
        packetsAt t e = [PingPong.window bsize y (bsize * m)]) := by
  cases e with
  | log =>
    refine ⟨next, ?_, h.log, .inl rfl⟩
    rw [show (timedStep y t .log).log.main = t.log.main from (spllLogDac_rest ..).1]
  | poll =>
    dsimp only [timedStep, DacLog.daclogPoll]
    split
    · next hidle =>
      split
      · exact ⟨next, by rw [hidle]; exact Nat.le_refl _,
          h.of_main ⟨rfl, rfl, rfl⟩ (fun _ h => h) nofun nofun, .inl rfl⟩
      · exact ⟨next, Nat.le_refl _, h, .inl rfl⟩
    · exact ⟨next, Nat.le_refl _, h, .inl rfl⟩
  | command on =>
    dsimp only [timedStep, DacLog.cmdDaclog]
    split
    · next hidle =>
      split
      · exact ⟨next, by rw [hidle]; exact Nat.le_refl _,
          h.of_main ⟨rfl, rfl, rfl⟩ (fun _ h => h) nofun nofun, .inl rfl⟩
      · refine ⟨next, Nat.le_refl _, h.of_main ⟨rfl, rfl, rfl⟩ (fun _ h => h) ?_ ?_, .inl rfl⟩
        · exact fun i hi => nomatch hidle.symm.trans hi
        · exact fun i words hi => nomatch hidle.symm.trans hi
    · exact ⟨next, Nat.le_refl _, h, .inl rfl⟩
  | step =>
    cases hmain : t.log.main with
    | idle =>
      refine ⟨next, ?_, ?_, .inl (by simp [packetsAt, hmain])⟩
      · simp [timedStep, DacLog.mainStep, hmain, low]
      · simp only [timedStep, DacLog.mainStep, hmain]
        exact h
    | test i =>
      refine ⟨next, ?_, ?_, .inl (by simp [packetsAt, hmain])⟩
      · simp only [timedStep, DacLog.mainStep, hmain]
        split
        · exact Nat.le_refl _
        · split <;> exact Nat.le_refl _
      · simp only [timedStep, DacLog.mainStep, hmain]
        refine h.of_main ⟨rfl, rfl, rfl⟩ (fun _ h => h) (fun k hk => ?_) fun k words hk => ?_
        · dsimp only at hk ⊢
          split at hk
          · next hready =>
            cases hk
            exact hready
          · split at hk <;> cases hk
        · dsimp only at hk
          split at hk
          · cases hk
          · split at hk <;> cases hk
    | take i =>
      have hi : i ≠ t.log.bindex := by simpa only [ReadsInTime, hmain] using hok
      obtain ⟨hnext, hinv⟩ := h.take hmain hi
      refine ⟨t.n / bsize, ?_, hinv, .inl (by simp [packetsAt, hmain])⟩
      simp only [timedStep, DacLog.mainStep, hmain, low]
      omega
    | send i words =>
      obtain ⟨hinv, hlast, hmore⟩ := h.send hmain hok
      have hpos := (h.sending i words hmain).2.1
      by_cases hlen : words.length + 1 = bsize
      · obtain ⟨hidle, hpacket⟩ := hlast hlen
        refine ⟨next, ?_, hinv, .inr ⟨next - 1, Nat.le_refl _, ?_, hpacket⟩⟩
        · rw [hidle]
          exact sub_le ..
        · rw [hidle]
          exact Nat.sub_lt hpos Nat.one_pos
      · obtain ⟨hsend, hpacket⟩ := hmore hlen
        exact ⟨next, by rw [hsend]; exact Nat.le_refl _, hinv, .inl hpacket⟩
    | clear i =>
      refine ⟨next, ?_, ?_, .inl (by simp [packetsAt, hmain])⟩
      · simp only [timedStep, DacLog.mainStep, hmain]
        split <;> exact Nat.le_refl _
      · simp only [timedStep, DacLog.mainStep, hmain]
        refine h.of_main ⟨rfl, rfl, rfl⟩ (fun _ hk => (update_false hk).2) (fun k hk => ?_)
          fun k words hk => ?_
        · dsimp only at hk
          split at hk <;> cases hk
        · dsimp only at hk
          split at hk <;> cases hk

end

/-- **The log is faithful** in every run of interrupts, polls, commands and single steps of the main
program whose polls read in time: every packet holds 512 consecutive values, and each packet later
ones than those before it. -/
theorem dacRun_faithful (init : α) (y : Nat → α) (es : List DacEvent)
    (h : Run.Steps (timedStep y) ReadsInTime (start init) es) :
    PingPong.Faithful bsize y (packets init y es) := by
  have hboot : Inv init y 0 (start init) :=
    ⟨show 0 = 0 / bsize % 2 by decide, show 0 = 0 % bsize by decide, fun _ _ => rfl,
      zero_le _, nofun, nofun, nofun⟩
  obtain ⟨blocks, hblocks, -, hemits⟩ := Run.emits_increasing
    (I := fun p t => ∃ next, Inv init y next t ∧ p = low next t.log.main)
    (f := fun m => PingPong.window bsize y (bsize * m))
    (fun p t e ⟨next, hinv, hp⟩ hok => by
      obtain ⟨next', hle, hinv', hout⟩ := hinv.step hok
      exact ⟨_, hp ▸ hle, ⟨next', hinv', rfl⟩, hp ▸ hout⟩)
    ⟨0, hboot, rfl⟩ h
  refine ⟨blocks.map (bsize * ·), ?_, ?_⟩
  · rw [pairwise_map]
    exact hblocks.imp fun hlt => Nat.mul_lt_mul_of_pos_left hlt (by decide)
  · rw [packets, hemits, map_map, Function.comp_def]

end Wrpc.Daclog
