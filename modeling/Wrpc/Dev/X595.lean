/-
# Outputs behind shift registers (`dev/74x595.c`)

A rising edge of `srclk` shifts a bit into the chain of 74x595s, one of `rclk` shows all bits at the
outputs.  For every change of one output the driver shifts all of them, the last one first.

No board connects `pin_srclr_n`: `gen_gpio_out` returns at once for a NULL pin.
-/
import Wrpc.Lib.Run

namespace Wrpc.X595

inductive Line where
  | rclk
  | srclk
  | ser

/-- A chain of `n / 8` chips: the levels of its lines, its shift register and its outputs. -/
structure Chain (n : Nat) where
  rclk : Bool
  srclk : Bool
  ser : Bool
  shift : BitVec n
  outputs : BitVec n

variable {n : Nat}

/-- The chips, at a write to one of their lines. -/
def Chain.write (c : Chain n) : Line × Bool → Chain n
  | (.ser, v) => { c with ser := v }
  | (.srclk, v) =>
    { c with srclk := v, shift := if v && !c.srclk then c.shift.shiftConcat c.ser else c.shift }
  | (.rclk, v) => { c with rclk := v, outputs := if v && !c.rclk then c.shift else c.outputs }

/-- A turn of the loop of `x595_gpio_sync_out`. -/
def shiftOut (bit : Bool) : List (Line × Bool) :=
  [(.ser, bit), (.srclk, false), (.srclk, true), (.srclk, false)]

/-- Its first `k` turns; `n` is `nbits`. -/
def loopWrites (n : Nat) (curData : BitVec 32) (k : Nat) : List (Line × Bool) :=
  (List.range k).flatMap fun i => shiftOut (curData.getLsbD (n - 1 - i))

/-- `x595_gpio_sync_out` -/
def syncOut (n : Nat) (curData : BitVec 32) : List (Line × Bool) :=
  loopWrites n curData n ++ [(.rclk, true), (.rclk, false)]

/-- The driver's `cur_data`, with the chips. -/
structure Gpio (n : Nat) where
  curData : BitVec 32
  chain : Chain n

/-- `x595_gpio_create`, on chips in any state. -/
def create (c : Chain n) : Gpio n :=
  ⟨0, Run.run Chain.write c ((.rclk, false) :: (.srclk, false) :: syncOut n 0)⟩

/-- `cur_data` after `x595_gpio_out`. -/
def newData (curData : BitVec 32) (pin : Nat) (value : Bool) : BitVec 32 :=
  if value then curData ||| 1#32 <<< pin else curData &&& ~~~(1#32 <<< pin)

/-- `x595_gpio_out` -/
def Gpio.out (g : Gpio n) (pin : Nat) (value : Bool) : Gpio n :=
  let curData := newData g.curData pin value
  ⟨curData, Run.run Chain.write g.chain (syncOut n curData)⟩

/-- The lines are low, and the outputs are as the driver thinks. -/
structure Gpio.Shows (g : Gpio n) (f : Fin n → Bool) : Prop where
  rclk : g.chain.rclk = false
  srclk : g.chain.srclk = false
  data : ∀ i : Fin n, g.curData.getLsbD i = f i
  outputs : ∀ i : Fin n, g.chain.outputs.getLsbD i = f i

theorem run_shiftOut (c : Chain n) (bit : Bool) : Run.run Chain.write c (shiftOut bit) =
    { c with ser := bit, srclk := false, shift := c.shift.shiftConcat bit } := by
  simp [shiftOut, Run.run, Chain.write]

/-- After `k` turns the `k` upper bits are in the shift register. -/
theorem run_loopWrites (c : Chain n) (hc : c.srclk = false) (x : BitVec 32) {k : Nat}
    (hk : k ≤ n) : ∃ (ser : Bool) (shift : BitVec n),
      Run.run Chain.write c (loopWrites n x k) = { c with ser := ser, shift := shift } ∧
      ∀ i < k, shift.getLsbD i = x.getLsbD (n - k + i) := by
  induction k with
  | zero => exact ⟨c.ser, c.shift, rfl, fun i hi => absurd hi (by omega)⟩
  | succ k ih =>
    obtain ⟨ser, shift, hrun, hbits⟩ := ih (by omega)
    refine ⟨x.getLsbD (n - 1 - k), shift.shiftConcat (x.getLsbD (n - 1 - k)), ?_, ?_⟩
    · rw [loopWrites, List.range_succ, List.flatMap_append, Run.run_append, ← loopWrites, hrun]
      simp [run_shiftOut, hc]
    · -- bit 0 has just come in, the others have moved up by one
      intro i hi
      rw [BitVec.getLsbD_shiftConcat, decide_eq_true (by omega), Bool.true_and]
      cases i with
      | zero => simp [Nat.sub_sub, Nat.add_comm]
      | succ i =>
        rw [if_neg (by omega), Nat.add_sub_cancel, hbits i (by omega)]
        congr 1
        omega

theorem shows_syncOut {c : Chain n} (hrclk : c.rclk = false) (hsrclk : c.srclk = false)
    {x : BitVec 32} {f : Fin n → Bool} (hx : ∀ i : Fin n, x.getLsbD i = f i) :
    Gpio.Shows ⟨x, Run.run Chain.write c (syncOut n x)⟩ f := by
  obtain ⟨ser, shift, hrun, hbits⟩ := run_loopWrites c hsrclk x (Nat.le_refl n)
  rw [syncOut, Run.run_append, hrun]
  refine ⟨rfl, hsrclk, hx, fun i => ?_⟩
  have hlatch : (Run.run Chain.write { c with ser := ser, shift := shift }
      [(.rclk, true), (.rclk, false)]).outputs = shift := by simp [Run.run, Chain.write, hrclk]
  rw [hlatch, hbits i i.2, Nat.sub_self, Nat.zero_add, hx i]

theorem shows_create (c : Chain n) : (create c).Shows fun _ => false :=
  shows_syncOut rfl rfl (by simp)

theorem Gpio.Shows.newData {g : Gpio n} {f : Fin n → Bool} (hg : g.Shows f) {pin : Fin n}
    (hpin : pin.1 < 32) (value : Bool) (i : Fin n) :
    (X595.newData g.curData pin value).getLsbD i = Function.update f pin value i := by
  simp only [X595.newData, ← BitVec.twoPow_eq, Function.update_apply, ← hg.data i]
  by_cases hi : i = pin
  · cases value <;> simp [hi, hpin]
  · have hne : pin.1 ≠ i := fun h => hi (Fin.ext h.symm)
    cases value <;> simp [hi, hne]
    exact BitVec.lt_of_getLsbD

theorem Gpio.Shows.out {g : Gpio n} {f : Fin n → Bool} (hg : g.Shows f) {pin : Fin n}
    (hpin : pin.1 < 32) (value : Bool) : (g.out pin value).Shows (Function.update f pin value) :=
  shows_syncOut hg.rclk hg.srclk (hg.newData hpin value)

/-- Up to the edge of `rclk` the outputs stay as they are. -/
theorem always_syncOut {c : Chain n} (hc : c.srclk = false) {x : BitVec 32} {Q : BitVec n → Prop}
    (hold : Q c.outputs) (hnew : Q (Run.run Chain.write c (syncOut n x)).outputs) :
    Run.Always Chain.write (fun c => Q c.outputs) c (syncOut n x) := by
  obtain ⟨ser, shift, hrun, -⟩ := run_loopWrites c hc x (Nat.le_refl n)
  rw [syncOut, Run.run_append] at hnew
  refine Run.Always.followed ?_ ⟨by rwa [hrun], hnew, hnew⟩
  refine Run.always_of_inv (P := fun _ e => e.1 ≠ .rclk) (I := fun c' => c'.outputs = c.outputs)
    ?_ (fun c' hc' => by rwa [hc']) rfl (Run.steps_of_forall ?_)
  · rintro c' ⟨line, v⟩ hc' hline
    cases line with
    | rclk => exact absurd rfl hline
    | srclk | ser => exact hc'
  · simp only [loopWrites, shiftOut, List.mem_flatMap, List.mem_cons, List.not_mem_nil]
    rintro e ⟨i, -, rfl | rfl | rfl | rfl | ⟨⟨⟩⟩⟩
    all_goals exact Line.noConfusion

/-- Output pins as a user of the driver sees them: each keeps the value last written to it. -/
def levels (f : Fin n → Bool) (outs : List (Fin n × Bool)) : Fin n → Bool :=
  outs.foldl (fun f o => Function.update f o.1 o.2) f

def outAll (g : Gpio n) (outs : List (Fin n × Bool)) : Gpio n :=
  outs.foldl (fun g o => g.out o.1 o.2) g

theorem Gpio.Shows.outAll (hn : n ≤ 32) {g : Gpio n} {f : Fin n → Bool} (hg : g.Shows f)
    (outs : List (Fin n × Bool)) : (outAll g outs).Shows (levels f outs) := by
  induction outs generalizing g f with
  | nil => exact hg
  | cons o outs ih => exact ih (hg.out (by omega) o.2)

/-- **The outputs are independent pins**: whatever the chips did before, after any calls each
output has the value last written to it, and while another pin is written it does not move at any
edge of the lines. -/
theorem outAll_independent (hn : n ≤ 32) (c : Chain n) (outs : List (Fin n × Bool)) (i : Fin n) :
    let g := outAll (create c) outs
    let value := levels (fun _ => false) outs i
    g.chain.outputs.getLsbD i = value ∧ ∀ pin : Fin n, pin ≠ i → ∀ v : Bool,
      Run.Always Chain.write (fun c => c.outputs.getLsbD i = value) g.chain
        (syncOut n (newData g.curData pin v)) := by
  intro g value
  have hg := (shows_create c).outAll hn outs
  refine ⟨hg.outputs i, fun pin hpin v => ?_⟩
  refine always_syncOut hg.srclk (Q := fun o => o.getLsbD i = value) (hg.outputs i) ?_
  exact ((hg.out (by omega) v).outputs i).trans (Function.update_of_ne hpin.symm ..)

/-- An LED of the eRTM15 is lit and put out again. -/
theorem outAll_independent_led :
    (outAll (create (n := 8) ⟨true, true, true, 0xff, 0xff⟩)
      [(7, true), (7, false)]).chain.outputs.getLsbD 7 = false :=
  (outAll_independent (by decide) _ _ 7).1

end Wrpc.X595
