/-
# Quick and late polls of the DAC log

How late a poll may be, on runs with one poll that no interrupt disturbs.  After 512 to 1023
values buffer 1 is being filled and the poll reads the first block from buffer 0
(`latePoll_inTime`).  One value later buffer 0 is being filled again, while its flag is still set,
and the packet holds words of two blocks: the flag says that a buffer has become full, and is never
taken back.
-/
import Wrpc.Dev.DacLog

namespace Wrpc.Daclog

open List Run

variable {α : Type}

/-- The log is switched on, `n` values are logged, and a poll goes through without an
interrupt. -/
def latePoll (n : Nat) : List DacEvent :=
  .command true :: .step :: .step ::
    (List.replicate n .log ++ .poll :: List.replicate (bsize + 2) .step)

/-- After `n` values, and no poll. -/
structure Logged (init : α) (y : Nat → α) (n : Nat) (t : Timed α) : Prop where
  count : t.n = n
  bindex : t.log.bindex = n / bsize % 2
  bcount : t.log.bcount = n % bsize
  stored : ∀ i j, t.log.buffers i j = PingPong.contents bsize init y i j n
  idle : t.log.main = .idle
  on : t.log.configured = true
  ready : bsize ≤ n → t.log.ready 0 = true

section

variable {init : α} {y : Nat → α}

theorem Logged.succ {n : Nat} {t : Timed α} (h : Logged init y n t) :
    Logged init y (n + 1) (timedStep y t .log) := by
  obtain ⟨rfl, hbindex, hbcount, hstored, hidle, hon, hready⟩ := h
  obtain ⟨hmain, hconf, -⟩ := spllLogDac_rest t.log (y t.n)
  obtain ⟨hindex, hcount⟩ := spllLogDac_place (y t.n) hbindex hbcount
  refine ⟨rfl, hindex, hcount, spllLogDac_stored hbindex hbcount hstored, hmain.trans hidle,
    hconf.trans hon, fun hn => spllLogDac_ready_iff.mpr ?_⟩
  by_cases hbefore : bsize ≤ t.n
  · exact .inl (hready hbefore)
  · refine .inr ?_
    unfold bsize at *
    omega

theorem Logged.run : ∀ {k n : Nat} {t : Timed α}, Logged init y n t →
    Logged init y (n + k) (run (timedStep y) t (replicate k .log)) ∧
      emits (timedStep y) packetsAt t (replicate k .log) = [] ∧
      Run.Steps (timedStep y) ReadsInTime t (replicate k .log)
  | 0, _, _, h => ⟨h, rfl, trivial⟩
  | k + 1, n, t, h => by
    obtain ⟨hrun, hemits, hsteps⟩ := h.succ.run (k := k)
    rw [Nat.add_assoc, Nat.add_comm 1] at hrun
    exact ⟨hrun, hemits, trivial, hsteps⟩

/-- Without an interrupt the words are those of one moment, and are read in time if the buffer is
not the one being filled. -/
theorem send_quiet : ∀ {m : Nat} {t : Timed α} {i : Nat} {words : List α},
    t.log.main = .send i words → words.length + m + 1 = bsize →
      emits (timedStep y) packetsAt t (replicate (m + 1) .step) =
        [words ++ (range' words.length (m + 1)).map (t.log.buffers i)] ∧
      (t.n = t.taken → i ≠ t.log.bindex →
        Run.Steps (timedStep y) ReadsInTime t (replicate (m + 1) .step))
  | 0, t, i, words, hm, hlen => by
    refine ⟨?_, fun hn hi => ⟨?_, trivial⟩⟩
    · have hpacket : packetsAt t .step = [words ++ [t.log.buffers i words.length]] := by
        simp only [packetsAt, hm]
        exact if_pos hlen
      rw [replicate_one, emits, hpacket]
      rfl
    · simp only [ReadsInTime, hm, hn]
      exact ⟨Nat.lt_add_of_pos_right (by decide), fun h => absurd h hi⟩
  | m + 1, t, i, words, hm, hlen => by
    have hstep : timedStep y t .step =
        ⟨{ t.log with main := .send i (words ++ [t.log.buffers i words.length]) }, t.n,
          t.taken⟩ := by
      simp only [timedStep, DacLog.mainStep, hm]
      rw [if_neg (by omega)]
    have hpacket : packetsAt t .step = [] := by
      simp only [packetsAt, hm]
      exact if_neg (by omega)
    obtain ⟨hemits, hsteps⟩ := send_quiet (m := m)
      (t := ⟨{ t.log with main := .send i (words ++ [t.log.buffers i words.length]) },
        t.n, t.taken⟩)
      rfl (by rw [length_append, length_singleton]; omega)
    rw [replicate_succ]
    refine ⟨?_, fun hn hi => ⟨?_, hstep ▸ hsteps hn hi⟩⟩
    · rw [emits, hpacket, hstep, hemits, nil_append, length_append, length_singleton,
        append_assoc, range'_succ (s := words.length)]
      rfl
    · simp only [ReadsInTime, hm, hn]
      exact ⟨Nat.lt_add_of_pos_right (by decide), fun h => absurd h hi⟩

theorem poll_quiet {t : Timed α} (hidle : t.log.main = .idle) (hon : t.log.configured = true)
    (hready : t.log.ready 0 = true) : ∀ {k : Nat}, k = bsize →
      emits (timedStep y) packetsAt t (.poll :: replicate (k + 2) .step) =
        [(range k).map (t.log.buffers 0)] ∧
      (0 ≠ t.log.bindex →
        Run.Steps (timedStep y) ReadsInTime t (.poll :: replicate (k + 2) .step))
  | 0, hk => absurd hk (by decide)
  | m + 1, hk => by
    have hpoll : timedStep y t .poll = ⟨{ t.log with main := .test 0 }, t.n, t.taken⟩ := by
      simp only [timedStep, DacLog.daclogPoll, hidle]
      rw [if_pos hon]
    have htest : timedStep y ⟨{ t.log with main := .test 0 }, t.n, t.taken⟩ .step =
        ⟨{ t.log with main := .take 0 }, t.n, t.taken⟩ := by
      simp only [timedStep, DacLog.mainStep]
      rw [if_pos hready]
    have htake : timedStep y ⟨{ t.log with main := .take 0 }, t.n, t.taken⟩ .step =
        ⟨{ t.log with ready := Function.update t.log.ready 0 false, main := .send 0 [] },
          t.n, t.n⟩ := rfl
    obtain ⟨hemits, hsteps⟩ := send_quiet (y := y) (m := m)
      (t := ⟨{ t.log with ready := Function.update t.log.ready 0 false, main := .send 0 [] },
        t.n, t.n⟩) rfl ((Nat.zero_add _).trans hk)
    rw [replicate_succ, replicate_succ]
    constructor
    · rw [emits, hpoll, emits, htest, emits, htake, hemits, range_eq_range']
      rfl
    · intro hne
      refine ⟨trivial, ?_⟩
      rw [hpoll]
      refine ⟨trivial, ?_⟩
      rw [htest]
      refine ⟨hne, ?_⟩
      rw [htake]
      exact hsteps rfl hne

/-- The packet of a late poll, and how late it may be. -/
theorem latePoll_packets (init : α) (y : Nat → α) {n : Nat} (hn : bsize ≤ n) :
    packets init y (latePoll n) =
        [(range bsize).map fun j => PingPong.contents bsize init y 0 j n] ∧
      (n < 2 * bsize → Run.Steps (timedStep y) ReadsInTime (start init) (latePoll n)) := by
  have hstart : Logged init y 0 (run (timedStep y) (start init) [.command true, .step, .step]) :=
    ⟨rfl, show 0 = 0 / bsize % 2 by decide, show 0 = 0 % bsize by decide, fun _ _ => rfl, rfl, rfl,
      fun h => absurd h (by decide)⟩
  obtain ⟨hrun, hemits, hsteps⟩ := hstart.run (k := n)
  rw [Nat.zero_add] at hrun
  obtain ⟨hpacket, hread⟩ := poll_quiet (y := y) hrun.idle hrun.on (hrun.ready hn) rfl
  have hsplit : latePoll n = [.command true, .step, .step] ++
      (replicate n .log ++ .poll :: replicate (bsize + 2) .step) := rfl
  constructor
  · rw [packets, hsplit, emits_append, emits_append, hemits, hpacket, nil_append,
      show (run (timedStep y) (run (timedStep y) (start init) [.command true, .step, .step])
        (replicate n .log)).log.buffers 0 = fun j => PingPong.contents bsize init y 0 j n from
      funext (hrun.stored 0)]
    rfl
  · intro hlt
    rw [hsplit, steps_append, steps_append]
    refine ⟨⟨trivial, trivial, trivial, trivial⟩, hsteps, hread ?_⟩
    rw [hrun.bindex]
    unfold bsize at *
    omega

end

def ramp (k : Nat) : BitVec 16 := BitVec.ofNat 16 k

theorem take_two (f : Nat → α) : ((range bsize).map f).take 2 = [f 0, f 1] := by
  rw [← map_take, take_range]
  rfl

/-- A poll after 600 values sends the first two of them and those behind. -/
theorem dacRun_faithful_quick :
    (packets 0 ramp (latePoll 600)).map (take 2) = [[0, 1]] ∧
      PingPong.Faithful bsize ramp (packets 0 ramp (latePoll 600)) := by
  obtain ⟨hpackets, hread⟩ := latePoll_packets 0 ramp (n := 600) (by decide)
  refine ⟨?_, dacRun_faithful 0 ramp (latePoll 600) (hread (by decide))⟩
  rw [hpackets, map_singleton, take_two,
    PingPong.contents_of_block (m := 0) 0 ramp (by decide) (by decide) (by decide),
    PingPong.contents_of_block (m := 0) 0 ramp (by decide) (by decide) (by decide)]
  rfl

/-- One value too late: the poll sends value 1024 and then value 1. -/
theorem dacRun_torn : (packets 0 ramp (latePoll 1025)).map (take 2) = [[1024, 1]] ∧
    ¬ PingPong.Faithful bsize ramp (packets 0 ramp (latePoll 1025)) := by
  have hpackets := (latePoll_packets 0 ramp (n := 1025) (by decide)).1
  have hfirst : (packets 0 ramp (latePoll 1025)).map (take 2) = [[1024, 1]] := by
    rw [hpackets, map_singleton, take_two,
      PingPong.contents_of_block (m := 2) 0 ramp (by decide) (by decide) (by decide),
      PingPong.contents_of_block (m := 0) 0 ramp (by decide) (by decide) (by decide)]
    rfl
  refine ⟨hfirst, ?_⟩
  rintro ⟨starts, -, heq⟩
  rw [heq, map_map] at hfirst
  obtain ⟨s, rest, rfl⟩ := exists_cons_of_ne_nil (l := starts) (by rintro rfl; cases hfirst)
  have hwindow := (cons.inj hfirst).1
  rw [Function.comp_apply, PingPong.window, take_two] at hwindow
  have h0 : (s + 0) % 2 ^ 16 = 1024 := congrArg BitVec.toNat (cons.inj hwindow).1
  have h1 : (s + 1) % 2 ^ 16 = 1 := congrArg BitVec.toNat (cons.inj (cons.inj hwindow).2).1
  omega

end Wrpc.Daclog
