/-
# `ep_pfilter_init_default` fills the program memory

`dev/ep_pfilter.c` reads one of the two generated arrays, five bytes for a word, puts the
station's address into the first three words after the NOP and the VLAN number into every
word that looks like the comparison with the fake number 0xaaa, and writes the words into
the program memory through PFCR1 and PFCR0.

The memory then holds the program with its values patched (`program_take`): a patch acts on
the value of a comparison and on nothing else.  It acts on every comparison of word 7 with
0xaaa, though, whoever asked for it.
-/
import Wrpc.Pfilter.Builder

namespace Wrpc.Pfilter

open BitField List BitVec

/-- `mac_addr` of the device. -/
abbrev Mac := Fin 6 → BitVec 8

inductive EpReg where
  | pfcr0 | pfcr1
deriving DecidableEq, Repr

structure Endpoint where
  pfcr1 : BitVec 32
  memory : BitVec 6 → BitVec 36
  enabled : Bool

/-- `ep_write`.  A write of PFCR0 with its MM_WRITE bit stores a word of the program memory:
the upper 24 bits come with it, the lower 12 are those in PFCR1. -/
def epWrite (e : Endpoint) : EpReg → BitVec 32 → Endpoint
  | .pfcr1, data => { e with pfcr1 := data }
  | .pfcr0, data =>
    { e with
      enabled := data.extractLsb' 7 1 == 1
      memory :=
        if data.extractLsb' 6 1 = 1 then
          Function.update e.memory (data.extractLsb' 0 6)
            (data.extractLsb' 8 24 ++ e.pfcr1.extractLsb' 0 12)
        else e.memory }

/-! ## The loader -/

section Patch

variable {w : Nat}

def setValue (l : BitVec w) (v : BitVec 16) : BitVec w := clear l 16 13 ||| put w v 13

/-- `(mac[midx] << 8) | mac[midx + 1]`, with `midx = 2 * (i - 1)`. -/
def macWord (mac : Mac) (i : Nat) : BitVec 16 :=
  mac (Fin.ofNat 6 (2 * (i - 1))) ++ mac (Fin.ofNat 6 (2 * (i - 1) + 1))

def patchMac (mac : Mac) (i : Nat) (l : BitVec w) : BitVec w :=
  if 1 ≤ i ∧ i ≤ 3 then setValue l (macWord mac i) else l

/-- What the loader takes for the comparison with the fake VLAN number. -/
def Placeholder (l : BitVec w) : Prop := l.extractLsb' 13 16 = 0x0aaa ∧ l.extractLsb' 7 5 = 7

instance (l : BitVec w) : Decidable (Placeholder l) :=
  inferInstanceAs (Decidable (_ ∧ _))

def patchVlan (vlan : BitVec 16) (l : BitVec w) : BitVec w :=
  if Placeholder l then setValue l vlan else l

end Patch

def loadWord (mac : Mac) (vlan : BitVec 16) (i : Nat) (h : BitVec 8) (l : BitVec 32)
    (e : Endpoint) : Endpoint :=
  let cmdWord : BitVec 40 := h ++ patchVlan vlan (patchMac mac i l)
  let cr1 : BitVec 32 := put 32 (cmdWord.extractLsb' 0 12) 0
  let cr0 : BitVec 32 :=
    put 32 (BitVec.ofNat 6 i) 0 ||| put 32 (cmdWord.extractLsb' 12 24) 8 ||| put 32 1#1 6
  epWrite (epWrite e .pfcr1 cr1) .pfcr0 cr0

def loadFrom (mac : Mac) (vlan : BitVec 16) : Nat → List (BitVec 8) → Endpoint → Endpoint
  | i, h :: b₁ :: b₂ :: b₃ :: b₄ :: rest, e =>
    loadFrom mac vlan (i + 1) rest (loadWord mac vlan i h (b₁ ++ b₂ ++ b₃ ++ b₄) e)
  -- the arrays are of whole words
  | _, _, e => e

/-- `ep_pfilter_init_default`, in a build with the configuration `c`. -/
def initDefault (c : Config) (mac : Mac) (vlan : BitVec 16) (e : Endpoint) : Endpoint :=
  let rules := if vlan = 0 then built (initNovlan c.latencyEthtype) else built (initVlan c)
  epWrite (loadFrom mac vlan 0 rules (epWrite e .pfcr0 0)) .pfcr0 (put 32 1#1 7)

def Endpoint.program (e : Endpoint) : List Instr :=
  (List.range 64).map fun a => decode (e.memory (BitVec.ofNat 6 a))

def Endpoint.classify (e : Endpoint) (f : Frame) (r : Regs) : Regs := exec f.word e.program r

/-! ## A patched word -/

def patchWord (mac : Mac) (vlan : BitVec 16) (i : Nat) (x : BitVec 64) : BitVec 64 :=
  patchVlan vlan (patchMac mac i x)

variable (c : Config) (mac : Mac) (vlan : BitVec 16) (i : Nat) (x : BitVec 64) (e : Endpoint)
  {ss : List Stmt}

theorem setValue_low (v : BitVec 16) :
    setValue (x.extractLsb' 0 32) v = (setValue x v).extractLsb' 0 32 :=
  (extract_clear_or_put x v (by decide) (by decide)).symm

theorem setValue_high (v : BitVec 16) : (setValue x v).extractLsb' 32 8 = x.extractLsb' 32 8 := by
  simp (disch := omega) [setValue, extractLsb'_or, get_clear_of_disjoint, get_put_of_disjoint]

theorem patchMac_low :
    patchMac mac i (x.extractLsb' 0 32) = (patchMac mac i x).extractLsb' 0 32 := by
  unfold patchMac
  split
  · exact setValue_low x _
  · rfl

theorem patchVlan_low :
    patchVlan vlan (x.extractLsb' 0 32) = (patchVlan vlan x).extractLsb' 0 32 := by
  have hlow : Placeholder (x.extractLsb' 0 32) ↔ Placeholder x := by
    simp (disch := omega) [Placeholder]
  simp only [patchVlan, hlow]
  split
  · exact setValue_low x _
  · rfl

theorem patchWord_high : (patchWord mac vlan i x).extractLsb' 32 8 = x.extractLsb' 32 8 := by
  have hmac : (patchMac mac i x).extractLsb' 32 8 = x.extractLsb' 32 8 := by
    unfold patchMac
    split
    · exact setValue_high x _
    · rfl
  unfold patchWord patchVlan
  split
  · rw [setValue_high, hmac]
  · exact hmac

theorem cmdWord_eq :
    x.extractLsb' 32 8 ++ patchVlan vlan (patchMac mac i (x.extractLsb' 0 32)) =
      (patchWord mac vlan i x).extractLsb' 0 40 := by
  rw [patchMac_low, patchVlan_low, ← patchWord_high mac vlan i x]
  exact extractLsb'_append_extractLsb'_eq_extractLsb' (by decide)

theorem wordBytes_low :
    x.extractLsb' 24 8 ++ x.extractLsb' 16 8 ++ x.extractLsb' 8 8 ++ x.extractLsb' 0 8 =
      x.extractLsb' 0 32 := by
  rw [extractLsb'_append_extractLsb'_eq_extractLsb' (by decide : 24 = 16 + 8),
    extractLsb'_append_extractLsb'_eq_extractLsb' (by decide : 16 = 8 + 8),
    extractLsb'_append_extractLsb'_eq_extractLsb' (by decide : 8 = 0 + 8)]

theorem loadWord_memory :
    (loadWord mac vlan i (x.extractLsb' 32 8) (x.extractLsb' 0 32) e).memory =
      Function.update e.memory (BitVec.ofNat 6 i) ((patchWord mac vlan i x).extractLsb' 0 36) := by
  simp (disch := omega) only [loadWord, epWrite, cmdWord_eq, extractLsb'_or, get_put,
    get_put_of_disjoint, or_zero, zero_or, get_extract, Nat.zero_add]
  rw [extractLsb'_append_extractLsb'_eq_extractLsb' (by decide : 12 = 0 + 12)]
  rfl

/-! ## The loaded program -/

theorem loadFrom_memory (mac : Mac) (vlan : BitVec 16) : ∀ (words : List (BitVec 64)) (i : Nat)
    (e : Endpoint) (a : Nat), i + words.length ≤ 64 → a < 64 →
      (loadFrom mac vlan i (pfilterOutput words) e).memory (BitVec.ofNat 6 a) =
        if i ≤ a then
          (words[a - i]?.map fun x => (patchWord mac vlan a x).extractLsb' 0 36).getD
            (e.memory (BitVec.ofNat 6 a))
        else e.memory (BitVec.ofNat 6 a)
  | [], i, e, a, _, _ => by
    simp [pfilterOutput, loadFrom]
  | x :: words, i, e, a, hi, ha => by
    simp only [length_cons] at hi
    have hturn : loadFrom mac vlan i (pfilterOutput (x :: words)) e =
        loadFrom mac vlan (i + 1) (pfilterOutput words)
          (loadWord mac vlan i (x.extractLsb' 32 8) (x.extractLsb' 0 32) e) := by
      rw [← wordBytes_low]
      rfl
    rw [hturn, loadFrom_memory mac vlan words (i + 1) _ a (by omega) ha, loadWord_memory]
    have haddr : BitVec.ofNat 6 a = BitVec.ofNat 6 i ↔ a = i := by
      rw [← toNat_inj, toNat_ofNat, toNat_ofNat]
      omega
    rcases Nat.lt_trichotomy a i with hlt | heq | hgt
    · have hne : BitVec.ofNat 6 a ≠ BitVec.ofNat 6 i := fun h => by
        have := haddr.1 h
        omega
      rw [if_neg (by omega), if_neg (by omega), Function.update_of_ne hne]
    · subst heq
      rw [if_neg (by omega), if_pos (Nat.le_refl a), Function.update_self, Nat.sub_self]
      rfl
    · have hne : BitVec.ofNat 6 a ≠ BitVec.ofNat 6 i := fun h => by
        have := haddr.1 h
        omega
      have hsub : a - i = a - (i + 1) + 1 := by omega
      rw [if_pos (by omega), if_pos (by omega), Function.update_of_ne hne, hsub,
        List.getElem?_cons_succ]

def Stmt.patch (mac : Mac) (vlan : BitVec 16) (i : Nat) : Stmt → Stmt
  | .cmp offset value mask op rd =>
    let value := if 1 ≤ i ∧ i ≤ 3 then macWord mac i else value
    .cmp offset (if value = 0x0aaa ∧ offset.extractLsb' 0 5 = 7 then vlan else value) mask op rd
  | s => s

def Stmt.Kept (i : Nat) : Stmt → Prop
  | .cmp .. => True
  | s => ¬(1 ≤ i ∧ i ≤ 3) ∧ ¬Placeholder (emit s)

instance : ∀ (i : Nat) (s : Stmt), Decidable (s.Kept i)
  | _, .cmp .. => inferInstanceAs (Decidable True)
  | i, .nop => inferInstanceAs (Decidable (¬(1 ≤ i ∧ i ≤ 3) ∧ ¬Placeholder (emit _)))
  | i, .logic2 .. => inferInstanceAs (Decidable (¬(1 ≤ i ∧ i ≤ 3) ∧ ¬Placeholder (emit _)))
  | i, .logic3 .. => inferInstanceAs (Decidable (¬(1 ≤ i ∧ i ≤ 3) ∧ ¬Placeholder (emit _)))

section Emitted

variable {offset : BitVec 6} {value mask : BitVec 16} {op : Op} {rd : Reg}

theorem setValue_emit (hrd : rd.toNat ≤ 15) (v : BitVec 16) :
    setValue (emit (.cmp offset value mask op rd)) v = emit (.cmp offset v mask op rd) := by
  refine clear_or_put _ value v (by decide) ?_
  simp (disch := omega) [put_rd hrd, extractLsb'_or, get_put_of_disjoint]

theorem placeholder_emit (hrd : rd.toNat ≤ 15) :
    Placeholder (emit (.cmp offset value mask op rd)) ↔
      value = 0x0aaa ∧ offset.extractLsb' 0 5 = 7 := by
  have hvalue : (emit (.cmp offset value mask op rd)).extractLsb' 13 16 = value := by
    simp (disch := omega) [emit, put_rd hrd, extractLsb'_or, get_put, get_put_of_disjoint]
  have hoffset : (emit (.cmp offset value mask op rd)).extractLsb' 7 6 = offset := by
    simp (disch := omega) [emit, put_rd hrd, extractLsb'_or, get_put, get_put_of_disjoint]
  have hlow : (emit (.cmp offset value mask op rd)).extractLsb' 7 5 =
      offset.extractLsb' 0 5 := by
    conv_rhs => rw [← hoffset]
    exact (get_extract _ (by decide : 0 + 5 ≤ 6)).symm
  rw [Placeholder, hvalue, hlow]

theorem patchMac_emit (hrd : rd.toNat ≤ 15) (mac : Mac) (i : Nat) :
    patchMac mac i (emit (.cmp offset value mask op rd)) =
      emit (.cmp offset (if 1 ≤ i ∧ i ≤ 3 then macWord mac i else value) mask op rd) := by
  unfold patchMac
  split
  · exact setValue_emit hrd _
  · rfl

theorem patchVlan_emit (hrd : rd.toNat ≤ 15) (vlan : BitVec 16) :
    patchVlan vlan (emit (.cmp offset value mask op rd)) =
      emit (.cmp offset (if value = 0x0aaa ∧ offset.extractLsb' 0 5 = 7 then vlan else value)
        mask op rd) := by
  simp only [patchVlan, placeholder_emit hrd]
  split
  · exact setValue_emit hrd vlan
  · rfl

end Emitted

theorem patchWord_emit {codePos : Nat} : ∀ (s : Stmt),
    check codePos s = .ok () → s.Kept i →
      patchWord mac vlan i (emit s) = emit (s.patch mac vlan i)
  | .cmp offset value mask op rd, hc, _ => by
    have hrd := check_cmp_rd hc
    rw [patchWord, patchMac_emit hrd, patchVlan_emit hrd]
    rfl
  | .nop, _, hk => by
    rw [patchWord, patchMac, if_neg hk.1, patchVlan, if_neg hk.2]
    rfl
  | .logic2 .., _, hk => by
    rw [patchWord, patchMac, if_neg hk.1, patchVlan, if_neg hk.2]
    rfl
  | .logic3 .., _, hk => by
    rw [patchWord, patchMac, if_neg hk.1, patchVlan, if_neg hk.2]
    rfl

/-- The calls from index `i` on, patched. -/
def patchFrom (mac : Mac) (vlan : BitVec 16) : Nat → List Stmt → List Stmt
  | _, [] => []
  | i, s :: ss => s.patch mac vlan i :: patchFrom mac vlan (i + 1) ss

theorem patchFrom_getElem? (mac : Mac) (vlan : BitVec 16) : ∀ (ss : List Stmt) (i k : Nat),
    (patchFrom mac vlan i ss)[k]? = ss[k]?.map (Stmt.patch mac vlan (i + k))
  | [], _, _ => rfl
  | s :: ss, i, 0 => rfl
  | s :: ss, i, k + 1 => by
    have hrest := patchFrom_getElem? mac vlan ss (i + 1) k
    rwa [Nat.add_right_comm i 1 k] at hrest

theorem patchFrom_length (mac : Mac) (vlan : BitVec 16) : ∀ (ss : List Stmt) (i : Nat),
    (patchFrom mac vlan i ss).length = ss.length
  | [], _ => rfl
  | _ :: ss, i => congrArg (· + 1) (patchFrom_length mac vlan ss (i + 1))

theorem patchFrom_append (mac : Mac) (vlan : BitVec 16) : ∀ (ss ts : List Stmt) (i : Nat),
    patchFrom mac vlan i (ss ++ ts) =
      patchFrom mac vlan i ss ++ patchFrom mac vlan (i + ss.length) ts
  | [], _, _ => rfl
  | s :: ss, ts, i => by
    have hrest := patchFrom_append mac vlan ss ts (i + 1)
    rw [List.cons_append, patchFrom, hrest, patchFrom, length_cons, List.cons_append,
      Nat.add_right_comm i 1, Nat.add_assoc i ss.length 1]

/-- What the loader needs of a program: its calls pass the builder's checks, no call that is
not a comparison is patched, and it has a FIN in the memory. -/
structure Loadable (ss : List Stmt) : Prop where
  size : 4 ≤ ss.length ∧ ss.length < 64
  checked : ∀ (k : Nat) (s : Stmt), ss[k]? = some s → check k s = .ok ()
  granular : ∀ s ∈ ss, s.Granular
  kept : ∀ (k : Nat) (s : Stmt), ss[k]? = some s → s.Kept k

theorem Stmt.patch_granular {mac : Mac} {vlan : BitVec 16} {i : Nat} : ∀ {s : Stmt},
    s.Granular → (s.patch mac vlan i).Granular
  | .nop, h | .cmp .., h | .logic2 .., h | .logic3 .., h => h

theorem check_patch (codePos : Nat) : ∀ (s : Stmt),
    check codePos (s.patch mac vlan i) = check codePos s
  | .nop | .cmp .. | .logic2 .. | .logic3 .. => rfl

theorem patchWord_finWord {i : Nat} (h : 4 ≤ i) : patchWord mac vlan i finWord = finWord := by
  have hmac : ¬(1 ≤ i ∧ i ≤ 3) := by omega
  rw [patchWord, patchMac, if_neg hmac, patchVlan, if_neg (by decide)]

theorem loaded_decode (h : Loadable ss) (e : Endpoint) (k : Nat) (hk : k ≤ ss.length) :
    some (decode ((loadFrom mac vlan 0 (pfilterOutput (ss.map emit ++ [finWord])) e).memory
        (BitVec.ofNat 6 k))) =
      ((patchFrom mac vlan 0 ss).map Stmt.instr ++ [.fin])[k]? := by
  have hlen : (ss.map emit ++ [finWord]).length = ss.length + 1 := by simp
  have hsize := h.size
  rw [loadFrom_memory mac vlan _ 0 e k (by omega) (by omega), if_pos (Nat.zero_le k), Nat.sub_zero]
  rcases Nat.lt_or_eq_of_le hk with hlt | heq
  · have hs : ss[k]? = some ss[k] := List.getElem?_eq_getElem hlt
    have hchecked := h.checked k _ hs
    have hgranular : (ss[k].patch mac vlan k).Granular :=
      Stmt.patch_granular (h.granular _ (getElem_mem hlt))
    have hword := patchWord_emit mac vlan k _ hchecked (h.kept k _ hs)
    rw [List.getElem?_append_left (by simpa using hlt), List.getElem?_map, hs,
      List.getElem?_append_left (by simpa [patchFrom_length] using hlt), List.getElem?_map,
      patchFrom_getElem?, hs, Nat.zero_add]
    simp only [Option.map_some, Option.getD_some, hword]
    rw [decode_emit _ ((check_patch mac vlan k k _).trans hchecked) hgranular]
  · subst heq
    rw [List.getElem?_append_right (by simp),
      List.getElem?_append_right (by simp [patchFrom_length])]
    simp only [length_map, patchFrom_length, Nat.sub_self, List.getElem?_cons_zero,
      Option.map_some, Option.getD_some]
    rw [patchWord_finWord mac vlan hsize.1]
    decide

theorem program_take (h : Loadable ss) (e : Endpoint) :
    (loadFrom mac vlan 0 (pfilterOutput (ss.map emit ++ [finWord])) e).program.take
        (ss.length + 1) =
      (patchFrom mac vlan 0 ss).map Stmt.instr ++ [.fin] := by
  have hsize := h.size
  apply List.ext_getElem?
  intro k
  by_cases hk : k ≤ ss.length
  · rw [← loaded_decode mac vlan h e k hk, Endpoint.program, List.getElem?_take_of_lt (by omega),
      List.getElem?_map, List.getElem?_range (by omega)]
    rfl
  · rw [List.getElem?_eq_none (by simp; omega),
      List.getElem?_eq_none (by simp [patchFrom_length]; omega)]

theorem fin_notMem_instr (ss : List Stmt) : Instr.fin ∉ ss.map Stmt.instr := by
  intro hm
  obtain ⟨s, -, hs⟩ := List.mem_map.1 hm
  cases s <;> cases hs

theorem exec_loaded (h : Loadable ss) (e : Endpoint) (word : Nat → BitVec 16) (r : Regs) :
    exec word (loadFrom mac vlan 0 (pfilterOutput (ss.map emit ++ [finWord])) e).program r =
      exec word ((patchFrom mac vlan 0 ss).map Stmt.instr) r := by
  rw [← take_append_drop (ss.length + 1) (Endpoint.program _), program_take mac vlan h e,
    List.append_assoc]
  exact exec_fin word _ _ r (fin_notMem_instr _)

theorem loadable_of_assemble (hbuilt : assembleFrom 0 ss = .ok (ss.map emit ++ [finWord]))
    (hsize : 4 ≤ ss.length ∧ ss.length < 64) (hgranular : ∀ s ∈ ss, s.Granular)
    (hkept : ∀ p ∈ ss.zipIdx, p.1.Kept p.2) : Loadable ss where
  size := hsize
  checked := fun k s hs => by
    have hall := (assembleFrom_ok hbuilt).2 k s hs
    rwa [Nat.zero_add] at hall
  granular := hgranular
  kept := fun k s hs => hkept (s, k) (List.mk_mem_zipIdx_iff_getElem?.2 hs)

theorem loadable_initNovlan (latencyEthtype : BitVec 16) :
    Loadable (initNovlan latencyEthtype) :=
  loadable_of_assemble (assemble_initNovlan latencyEthtype) (of_decide_eq_true rfl)
    (of_decide_eq_true rfl) (of_decide_eq_true rfl)

theorem loadable_initVlan : Loadable (initVlan c) :=
  loadable_of_assemble (assemble_initVlan c) (of_decide_eq_true rfl)
    (of_decide_eq_true rfl) (of_decide_eq_true rfl)

theorem enable_program : (epWrite e .pfcr0 (put 32 1#1 7)).program = e.program :=
  rfl

theorem built_of_assemble {words : List (BitVec 64)} (h : assembleFrom 0 ss = .ok words) :
    built ss = pfilterOutput words := by
  rw [built, h]

/-! ## The rules as they are loaded -/

/-- The first comparisons are with the station's address.  No half of it is taken for the
VLAN number, since they do not look at word 7. -/
theorem addressRules_patch (a₀ a₁ a₂ : BitVec 16) :
    patchFrom mac vlan 0 (addressRules a₀ a₁ a₂) =
      addressRules (macWord mac 1) (macWord mac 2) (macWord mac 3) := by
  simp [patchFrom, addressRules, Stmt.patch]

def patchedVlan (vlan v : BitVec 16) : BitVec 16 := if v = 0x0aaa then vlan else v

def Config.patch (c : Config) (vlan : BitVec 16) : Config :=
  { c with
    vlan1ForClass7 := patchedVlan vlan c.vlan1ForClass7
    vlan2ForClass7 := patchedVlan vlan c.vlan2ForClass7
    vlanForClass6 := patchedVlan vlan c.vlanForClass6 }

def addressRegs (mac : Mac) (f : Frame) (r : Regs) : Regs :=
  exec f.word ((addressRules (macWord mac 1) (macWord mac 2) (macWord mac 3)).map Stmt.instr) r

theorem classify_novlan (f : Frame) (r : Regs) :
    (initDefault c mac 0 e).classify f r =
      exec f.word ((novlanRules c.latencyEthtype).map Stmt.instr) (addressRegs mac f r) := by
  rw [Endpoint.classify, initDefault, if_pos rfl, enable_program,
    built_of_assemble (assemble_initNovlan c.latencyEthtype),
    exec_loaded mac 0 (loadable_initNovlan c.latencyEthtype), initNovlan, patchFrom_append,
    addressRules_patch, map_append]
  have hpatch : patchFrom mac 0 12 (novlanRules c.latencyEthtype) =
      novlanRules c.latencyEthtype := by
    simp [patchFrom, novlanRules, Stmt.patch]
  exact (exec_append f.word _ _ r (fin_notMem_instr _)).trans
    (congrArg (fun ss => exec f.word (ss.map Stmt.instr) _) hpatch)

theorem classify_vlan {vlan : BitVec 16} (h : vlan ≠ 0) (e : Endpoint) (f : Frame) (r : Regs) :
    (initDefault c mac vlan e).classify f r =
      exec f.word ((vlanRules (c.patch vlan) vlan).map Stmt.instr) (addressRegs mac f r) := by
  rw [Endpoint.classify, initDefault, if_neg h, enable_program,
    built_of_assemble (assemble_initVlan c), exec_loaded mac vlan (loadable_initVlan c), initVlan,
    patchFrom_append, addressRules_patch, map_append]
  have hpatch : patchFrom mac vlan 12 (vlanRules c 0x0aaa) = vlanRules (c.patch vlan) vlan := by
    simp [patchFrom, vlanRules, Stmt.patch, Config.patch, patchedVlan]
  exact (exec_append f.word _ _ r (fin_notMem_instr _)).trans
    (congrArg (fun ss => exec f.word (ss.map Stmt.instr) _) hpatch)

end Wrpc.Pfilter
