import LinuxLikeOs.Library.Machine386

/-!
# Stacks and gates of a 386

The stack as a list of words, calls of functions of which only the effect is known, and the way
through a gate and back.

- `HoldsWords`, `KeepsBytes`, `ChangesOnly`: words in memory, and memory that stays
- `Cpu.pushWords`, `Cpu.popWords`: what pushes and pops do
- `Processor`, `Processor.enter`, `Processor.iret`: an interrupt and the return from it
- `Processor.iret_frame`: `iret` restores what the interrupt has saved
- `LinkInstr`, `LinkReaches`: programs with calls and gates
- `Cdecl`: what a function promises its caller
-/

namespace LinuxLikeOs.Library

/-! ## Words in memory -/

theorem word_eq_bytes (w : BitVec 32) :
    w.extractLsb' 24 8 ++ w.extractLsb' 16 8 ++ w.extractLsb' 8 8 ++ w.extractLsb' 0 8 = w := by
  rw [BitVec.extractLsb'_append_extractLsb'_eq_extractLsb' (by rfl),
    BitVec.extractLsb'_append_extractLsb'_eq_extractLsb' (by rfl),
    BitVec.extractLsb'_append_extractLsb'_eq_extractLsb' (by rfl)]
  simp

/-- A word that is read where it was written. -/
theorem loadWord_storeWord (mem : Memory32) (a w : BitVec 32) :
    loadWord (storeWord mem a w) a = w := by
  have hbyte : ∀ i < 4, storeWord mem a w (a + BitVec.ofNat 32 i) = wordByte w i := by
    intro i hi
    have hdist : (a + BitVec.ofNat 32 i - a).toNat = i := by bv_omega
    rw [storeWord, writeBytes, hdist, if_pos hi]
  have hfirst := hbyte 0 (by decide)
  rw [show a + BitVec.ofNat 32 0 = a from BitVec.add_zero a] at hfirst
  rw [loadWord, show storeWord mem a w (a + 3) = _ from hbyte 3 (by decide),
    show storeWord mem a w (a + 2) = _ from hbyte 2 (by decide),
    show storeWord mem a w (a + 1) = _ from hbyte 1 (by decide), hfirst]
  exact word_eq_bytes w

/-- The `n` bytes from address `a` on stay as they are. -/
def KeepsBytes (mem mem' : Memory32) (a : BitVec 32) (n : Nat) : Prop :=
  ∀ x, (x - a).toNat < n → mem' x = mem x

/-- No other bytes than the `n` from address `a` on change. -/
def ChangesOnly (mem mem' : Memory32) (a : BitVec 32) (n : Nat) : Prop :=
  ∀ x, n ≤ (x - a).toNat → mem' x = mem x

/-- The `m` bytes from `b` on are none of the `n` bytes from `a` on. -/
def Apart (a : BitVec 32) (n : Nat) (b : BitVec 32) (m : Nat) : Prop :=
  n ≤ (b - a).toNat ∧ (b - a).toNat + m ≤ 2 ^ 32

variable {mem mem' mem'' : Memory32} {a b w : BitVec 32} {n m : Nat}

theorem KeepsBytes.mono (h : KeepsBytes mem mem' a n) (hin : (b - a).toNat + m ≤ n) :
    KeepsBytes mem mem' b m := by
  intro x hx
  refine h x ?_
  have hsum : x - a = (x - b) + (b - a) := by bv_omega
  rw [hsum, BitVec.toNat_add]
  exact Nat.lt_of_le_of_lt (Nat.mod_le _ _) (by omega)

theorem KeepsBytes.trans (h : KeepsBytes mem mem' a n) (h' : KeepsBytes mem' mem'' a n) :
    KeepsBytes mem mem'' a n := fun x hx => (h' x hx).trans (h x hx)

/-- Bytes beside those that change. -/
theorem ChangesOnly.keeps (h : ChangesOnly mem mem' a n) (hapart : Apart a n b m) :
    KeepsBytes mem mem' b m := by
  obtain ⟨hlow, hhigh⟩ := hapart
  intro x hx
  refine h x ?_
  have hsum : x - a = (x - b) + (b - a) := by bv_omega
  rw [hsum, BitVec.toNat_add, Nat.mod_eq_of_lt (by omega)]
  omega

/-- Bytes that change in front of others that have changed. -/
theorem ChangesOnly.below (h : ChangesOnly mem mem' a n)
    (h' : ChangesOnly mem' mem'' (a - BitVec.ofNat 32 m) m) (hfits : m + n ≤ 2 ^ 32) :
    ChangesOnly mem mem'' (a - BitVec.ofNat 32 m) (m + n) := by
  intro x hx
  refine (h' x (by omega)).trans (h x ?_)
  have hlt := (x - (a - BitVec.ofNat 32 m)).isLt
  have hsum : x - a = x - (a - BitVec.ofNat 32 m) - BitVec.ofNat 32 m := by bv_omega
  rw [hsum, BitVec.toNat_sub, BitVec.toNat_ofNat]
  omega

theorem changesOnly_storeWord (mem : Memory32) (a w : BitVec 32) :
    ChangesOnly mem (storeWord mem a w) a 4 :=
  fun _ hx => if_neg (Nat.not_lt.mpr hx)

theorem loadWord_of_keeps (h : KeepsBytes mem mem' a 4) : loadWord mem' a = loadWord mem a := by
  rw [loadWord, loadWord, h a (by bv_omega), h (a + 1) (by bv_omega), h (a + 2) (by bv_omega),
    h (a + 3) (by bv_omega)]

/-- The words from address `a` on. -/
def HoldsWords (mem : Memory32) (a : BitVec 32) : List (BitVec 32) → Prop
  | [] => True
  | w :: ws => loadWord mem a = w ∧ HoldsWords mem (a + 4) ws

theorem HoldsWords.of_keeps {ws : List (BitVec 32)} (h : HoldsWords mem a ws)
    (hkeeps : KeepsBytes mem mem' a (4 * ws.length)) (hfits : 4 * ws.length ≤ 2 ^ 32) :
    HoldsWords mem' a ws := by
  induction ws generalizing a with
  | nil => trivial
  | cons w ws ih =>
    rw [List.length_cons] at hkeeps hfits
    constructor
    · -- the first word is at distance 0 from `a`, the rest begin at distance 4
      have hzero : (a - a).toNat = 0 := by bv_omega
      rw [loadWord_of_keeps (hkeeps.mono (by omega)), h.1]
    · refine ih h.2 (hkeeps.mono ?_) (by omega)
      have hfour : (a + 4 - a).toNat = 4 := by bv_omega
      omega

/-- A word more in front of them. -/
theorem HoldsWords.push {ws : List (BitVec 32)} (h : HoldsWords mem a ws)
    (hfits : 4 * ws.length + 4 ≤ 2 ^ 32) (w : BitVec 32) :
    HoldsWords (storeWord mem (a - 4) w) (a - 4) (w :: ws) := by
  have hfour : (a - (a - 4)).toNat = 4 := by bv_omega
  refine ⟨loadWord_storeWord .., ?_⟩
  rw [BitVec.sub_add_cancel]
  have hstored := changesOnly_storeWord mem (a - 4) w
  exact h.of_keeps (hstored.keeps ⟨Nat.le_of_eq hfour.symm, by omega⟩) (by omega)

theorem HoldsWords.append_iff {ws ws' : List (BitVec 32)} :
    HoldsWords mem a (ws ++ ws') ↔
      HoldsWords mem a ws ∧ HoldsWords mem (a + BitVec.ofNat 32 (4 * ws.length)) ws' := by
  induction ws generalizing a with
  | nil =>
    rw [List.length_nil, Nat.mul_zero, BitVec.add_zero]
    exact (and_iff_right trivial).symm
  | cons w ws ih =>
    -- the words after `w :: ws` begin one word further on
    have haddr : a + 4 + BitVec.ofNat 32 (4 * ws.length) =
        a + BitVec.ofNat 32 (4 * (w :: ws).length) := by
      rw [List.length_cons, Nat.mul_succ, BitVec.ofNat_add, BitVec.add_assoc,
        BitVec.add_comm (BitVec.ofNat 32 (4 * ws.length))]
      rfl
    rw [List.cons_append, HoldsWords, ih, HoldsWords, and_assoc, haddr]

theorem HoldsWords.getElem {ws : List (BitVec 32)} (h : HoldsWords mem a ws) {i : Nat}
    (hi : i < ws.length) : loadWord mem (a + BitVec.ofNat 32 (4 * i)) = ws[i] := by
  rw [← List.take_append_drop i ws, List.drop_eq_getElem_cons hi, append_iff, List.length_take,
    Nat.min_eq_left (Nat.le_of_lt hi)] at h
  exact h.2.1

theorem HoldsWords.of_getElem? {ws : List (BitVec 32)} (h : HoldsWords mem a ws) {i : Nat}
    (hi : ws[i]? = some w) : loadWord mem (a + BitVec.ofNat 32 (4 * i)) = w := by
  obtain ⟨hlt, rfl⟩ := List.getElem?_eq_some_iff.mp hi
  exact h.getElem hlt

/-! ## The stack -/

namespace Cpu

def pushWord (c : Cpu) (w : BitVec 32) : Cpu :=
  { c.set .esp (c.reg .esp - 4) with mem := storeWord c.mem (c.reg .esp - 4) w }

/-- Push words, the first one first. -/
def pushWords (c : Cpu) : List (BitVec 32) → Cpu
  | [] => c
  | w :: ws => (c.pushWord w).pushWords ws

/-- The words on the stack, from its top on. -/
def OnStack (c : Cpu) (ws : List (BitVec 32)) : Prop := HoldsWords c.mem (c.reg .esp) ws

variable {c : Cpu}

theorem onStack_nil (c : Cpu) : c.OnStack [] := trivial

/-- The stack pointer, one word at a time. -/
theorem sub_words (e : BitVec 32) (n : Nat) :
    e - BitVec.ofNat 32 (4 * (n + 1)) = e - 4 - BitVec.ofNat 32 (4 * n) := by
  rw [Nat.mul_succ, BitVec.ofNat_add, BitVec.sub_sub, BitVec.add_comm]
  rfl

theorem esp_pushWord (c : Cpu) (w : BitVec 32) : (c.pushWord w).reg .esp = c.reg .esp - 4 := by
  simp only [pushWord, set, Function.update_self]

theorem esp_pushWords (c : Cpu) (ws : List (BitVec 32)) :
    (c.pushWords ws).reg .esp = c.reg .esp - BitVec.ofNat 32 (4 * ws.length) := by
  induction ws generalizing c with
  | nil => exact (BitVec.sub_zero _).symm
  | cons w ws ih =>
    rw [pushWords, ih, esp_pushWord, List.length_cons, sub_words]

theorem reg_pushWords (c : Cpu) (ws : List (BitVec 32)) {r : Reg} (hr : r ≠ .esp) :
    (c.pushWords ws).reg r = c.reg r := by
  induction ws generalizing c with
  | nil => rfl
  | cons w ws ih => exact (ih _).trans (Function.update_of_ne hr ..)

theorem segments_pushWords (c : Cpu) (ws : List (BitVec 32)) :
    (c.pushWords ws).ds = c.ds ∧ (c.pushWords ws).es = c.es := by
  induction ws generalizing c with
  | nil => exact ⟨rfl, rfl⟩
  | cons w ws ih => exact ih _

theorem onStack_pushWords {below : List (BitVec 32)} (h : c.OnStack below) (ws : List (BitVec 32))
    (hfits : 4 * (ws.length + below.length) ≤ 2 ^ 32) :
    (c.pushWords ws).OnStack (ws.reverse ++ below) := by
  induction ws generalizing c below with
  | nil => exact h
  | cons w ws ih =>
    rw [List.length_cons] at hfits
    -- one push puts `w` on top; the words pushed after it end up above it
    have hpushed : (c.pushWord w).OnStack (w :: below) := by
      show HoldsWords _ ((c.pushWord w).reg .esp) _
      rw [esp_pushWord]
      exact HoldsWords.push h (by omega) w
    rw [List.reverse_cons, List.append_assoc, List.singleton_append]
    exact ih hpushed (by rw [List.length_cons]; omega)

/-- Pushes change the memory that they use and nothing else. -/
theorem outside_pushWords (c : Cpu) (ws : List (BitVec 32)) (hfits : 4 * ws.length ≤ 2 ^ 32) :
    ChangesOnly c.mem (c.pushWords ws).mem ((c.pushWords ws).reg .esp) (4 * ws.length) := by
  rw [esp_pushWords]
  induction ws generalizing c with
  | nil => exact fun _ _ => rfl
  | cons w ws ih =>
    rw [List.length_cons] at hfits ⊢
    -- an address outside all the pushed words is outside the first one and outside the rest
    intro x hx
    rw [sub_words] at hx
    have hrest := ih (c.pushWord w) (by omega) x
    rw [esp_pushWord] at hrest
    refine (hrest (by omega)).trans (changesOnly_storeWord _ _ w x ?_)
    have hwords : (BitVec.ofNat 32 (4 * ws.length)).toNat = 4 * ws.length :=
      Nat.mod_eq_of_lt (by omega)
    -- only the value of the block's size matters to `bv_omega`, not that it is a literal
    generalize BitVec.ofNat 32 (4 * ws.length) = d at hx hwords
    bv_omega

/-- A word comes back from the stack. -/
theorem effect_pop {w : BitVec 32} {ws : List (BitVec 32)} (h : c.OnStack (w :: ws)) (r : Reg) :
    c.effect (.pop r) = (c.set .esp (c.reg .esp + 4)).set r w := by
  rw [effect, h.1]

theorem esp_popfl (c : Cpu) : (c.exec .popfl).reg .esp = c.reg .esp + 4 := by
  simp only [exec, effect, next, set, Function.update_self]

/-- The state behind pops that find these words. -/
def popWords (c : Cpu) : List (Reg × BitVec 32) → Cpu
  | [] => c
  | (r, w) :: l => ((c.set .esp (c.reg .esp + 4)).set r w).next.popWords l

theorem pc_popWords (c : Cpu) (l : List (Reg × BitVec 32)) :
    (c.popWords l).pc = c.pc + l.length := by
  induction l generalizing c with
  | nil => rfl
  | cons p l ih =>
    rw [popWords, ih, List.length_cons, Nat.add_comm l.length, ← Nat.add_assoc]
    rfl

theorem mem_popWords (c : Cpu) (l : List (Reg × BitVec 32)) : (c.popWords l).mem = c.mem := by
  induction l generalizing c with
  | nil => rfl
  | cons p l ih => exact ih _

theorem esp_popWords (c : Cpu) {l : List (Reg × BitVec 32)} (hl : .esp ∉ l.map Prod.fst) :
    (c.popWords l).reg .esp = c.reg .esp + BitVec.ofNat 32 (4 * l.length) := by
  induction l generalizing c with
  | nil => exact (BitVec.add_zero _).symm
  | cons p l ih =>
    obtain ⟨hne, hl⟩ := List.ne_and_not_mem_of_not_mem_cons hl
    rw [popWords, ih _ hl, List.length_cons,
      Nat.mul_succ, Nat.add_comm, BitVec.ofNat_add, ← BitVec.add_assoc]
    simp only [next, set, Function.update_of_ne hne, Function.update_self]
    rfl

theorem onStack_popWords {l : List (Reg × BitVec 32)} {below : List (BitVec 32)}
    (h : c.OnStack (l.map Prod.snd ++ below)) (hl : .esp ∉ l.map Prod.fst) :
    (c.popWords l).OnStack below := by
  have hbelow := (HoldsWords.append_iff.mp h).2
  rw [List.length_map, ← esp_popWords c hl] at hbelow
  rwa [OnStack, mem_popWords]

theorem onStack_tail {w : BitVec 32} {ws : List (BitVec 32)} (h : c.OnStack (w :: ws)) {c' : Cpu}
    (hmem : c'.mem = c.mem) (hesp : c'.reg .esp = c.reg .esp + 4) : c'.OnStack ws := by
  rw [OnStack, hmem, hesp]
  exact h.2

end Cpu

/-! ## Interrupts -/

/-- A processor with the selectors of its code and its stack. -/
structure Processor where
  cpu : Cpu
  cs : BitVec 32
  ss : BitVec 32

/-- The stack of the supervisor, from the task state segment. -/
structure Tss where
  esp0 : BitVec 32
  ss0 : BitVec 32

/-- A gate: the code behind it, and whether it keeps interrupts away. -/
structure Gate where
  selector : BitVec 32
  entry : Nat
  masks : Bool

def trapFlag : Nat := 8
def interruptFlag : Nat := 9

namespace Processor

/-- The code that runs is the supervisor's. -/
def Supervisor (s : Processor) : Prop := s.cs &&& 3 = 0

instance (s : Processor) : Decidable s.Supervisor := inferInstanceAs (Decidable (_ = _))

/-- The words that an interrupt leaves on the stack, from the top on. -/
def frame (s : Processor) (back : Nat) : List (BitVec 32) :=
  BitVec.ofNat 32 back :: s.cs :: s.cpu.eflags ::
    if s.Supervisor then [] else [s.cpu.reg .esp, s.ss]

/-- The stack that an interrupt uses. -/
def gateStack (s : Processor) (tss : Tss) : Cpu :=
  if s.Supervisor then s.cpu else s.cpu.set .esp tss.esp0

/-- Through a gate, to come back to the instruction `back`. -/
def enter (s : Processor) (tss : Tss) (gate : Gate) (back : Nat) : Processor where
  cpu :=
    { (s.gateStack tss).pushWords (s.frame back).reverse with
      eflags := setBit (if gate.masks then setBit s.cpu.eflags interruptFlag false
        else s.cpu.eflags) trapFlag false
      pc := gate.entry }
  cs := gate.selector
  ss := if s.Supervisor then s.ss else tss.ss0

variable (s : Processor) (tss : Tss) (gate : Gate) (back : Nat)

theorem length_frame_le : (s.frame back).length ≤ 5 := by
  rw [frame]
  split <;> exact Nat.le_of_ble_eq_true rfl

theorem length_frame_user (hmode : ¬ s.Supervisor) : (s.frame back).length = 5 := by
  rw [frame, if_neg hmode]
  rfl

theorem reg_gateStack {r : Reg} (hr : r ≠ .esp) : (s.gateStack tss).reg r = s.cpu.reg r := by
  rw [gateStack]
  split
  · rfl
  · exact Function.update_of_ne hr ..

theorem mem_gateStack : (s.gateStack tss).mem = s.cpu.mem := by
  rw [gateStack]
  split <;> rfl

/-- A gate changes no register but the stack pointer. -/
theorem reg_enter {r : Reg} (hr : r ≠ .esp) : (s.enter tss gate back).cpu.reg r = s.cpu.reg r :=
  (Cpu.reg_pushWords _ _ hr).trans (s.reg_gateStack tss hr)

theorem segments_enter : (s.enter tss gate back).cpu.ds = s.cpu.ds ∧
    (s.enter tss gate back).cpu.es = s.cpu.es := by
  have hstack : (s.gateStack tss).ds = s.cpu.ds ∧ (s.gateStack tss).es = s.cpu.es := by
    rw [gateStack]
    split <;> exact ⟨rfl, rfl⟩
  rw [← hstack.1, ← hstack.2]
  exact Cpu.segments_pushWords _ _

theorem esp_enter : (s.enter tss gate back).cpu.reg .esp =
    (s.gateStack tss).reg .esp - BitVec.ofNat 32 (4 * (s.frame back).length) := by
  rw [enter, Cpu.esp_pushWords, List.length_reverse]

/-- A program comes in on the supervisor's stack. -/
theorem esp_enter_user (hmode : ¬ s.Supervisor) :
    (s.enter tss gate back).cpu.reg .esp = tss.esp0 - 20 := by
  rw [esp_enter, length_frame_user s back hmode, gateStack, if_neg hmode]
  simp only [Cpu.set, Function.update_self]
  rfl

/-- Behind a gate the frame is on top of the stack. -/
theorem onStack_enter : (s.enter tss gate back).cpu.OnStack (s.frame back) := by
  have hlength := s.length_frame_le back
  have hframe : ((s.gateStack tss).pushWords (s.frame back).reverse).OnStack
      ((s.frame back).reverse.reverse ++ []) :=
    Cpu.onStack_pushWords (Cpu.onStack_nil _) _
      (by rw [List.length_reverse, List.length_nil]; omega)
  rwa [List.reverse_reverse, List.append_nil] at hframe

theorem outside_enter : ChangesOnly s.cpu.mem (s.enter tss gate back).cpu.mem
    ((s.enter tss gate back).cpu.reg .esp) (4 * (s.frame back).length) := by
  have hlength := s.length_frame_le back
  have hpushed := Cpu.outside_pushWords (s.gateStack tss) (s.frame back).reverse
    (by rw [List.length_reverse]; omega)
  rwa [List.length_reverse, mem_gateStack] at hpushed

variable {s tss gate back}

/-- `iret`: the stack pointer is on the stack as well if the code that goes on is a program's.  That
    `ds` and `es` are cleared then, if they hold a selector of the supervisor, is left out. -/
def iret (s : Processor) : Processor :=
  let word (i : Nat) := loadWord s.cpu.mem (s.cpu.reg .esp + BitVec.ofNat 32 (4 * i))
  let c : Cpu := { s.cpu with pc := (word 0).toNat, eflags := word 2 }
  if word 1 &&& 3 = 0 then ⟨c.set .esp (s.cpu.reg .esp + 12), word 1, s.ss⟩
  else ⟨c.set .esp (word 3), word 1, word 4⟩

/-- At the entry of a function that is called. -/
def called (s : Processor) : Processor :=
  { s with cpu := s.cpu.pushWord (BitVec.ofNat 32 (s.cpu.pc + 1)) }

theorem esp_called (s : Processor) : s.called.cpu.reg .esp = s.cpu.reg .esp - 4 :=
  Cpu.esp_pushWord ..

theorem onStack_called {ws : List (BitVec 32)} (h : s.cpu.OnStack ws)
    (hfits : 4 * ws.length + 4 ≤ 2 ^ 32) :
    s.called.cpu.OnStack (BitVec.ofNat 32 (s.cpu.pc + 1) :: ws) :=
  Cpu.onStack_pushWords h [BitVec.ofNat 32 (s.cpu.pc + 1)] (by rw [List.length_singleton]; omega)

theorem outside_called (s : Processor) :
    ChangesOnly s.cpu.mem s.called.cpu.mem (s.cpu.reg .esp - 4) 4 :=
  changesOnly_storeWord s.cpu.mem _ (BitVec.ofNat 32 (s.cpu.pc + 1))

def ret (s : Processor) : Processor :=
  { s with cpu :=
      { s.cpu.set .esp (s.cpu.reg .esp + 4) with
        pc := (loadWord s.cpu.mem (s.cpu.reg .esp)).toNat } }

/-- `pushal`. -/
def pushal (s : Processor) : Processor :=
  { s with cpu := (s.cpu.pushWords [s.cpu.reg .eax, s.cpu.reg .ecx, s.cpu.reg .edx, s.cpu.reg .ebx,
      s.cpu.reg .esp, s.cpu.reg .ebp, s.cpu.reg .esi, s.cpu.reg .edi]).next }

/-- `popal`, which passes over the stack pointer. -/
def popal (s : Processor) : Processor :=
  let word (i : Nat) := loadWord s.cpu.mem (s.cpu.reg .esp + BitVec.ofNat 32 (4 * i))
  { s with cpu :=
      { s.cpu.next with
        reg := fun r =>
          match r with
          | .edi => word 0
          | .esi => word 1
          | .ebp => word 2
          | .esp => s.cpu.reg .esp + 32
          | .ebx => word 4
          | .edx => word 5
          | .ecx => word 6
          | .eax => word 7 } }

/-- `popal` finds what `pushal` has left. -/
theorem popal_of_onStack {di si bp sp bx dx cx ax : BitVec 32} {below : List (BitVec 32)}
    (h : s.cpu.OnStack ([di, si, bp, sp, bx, dx, cx, ax] ++ below)) :
    s.popal =
      { s with cpu :=
          { s.cpu.next with
            reg := fun r =>
              match r with
              | .edi => di
              | .esi => si
              | .ebp => bp
              | .esp => s.cpu.reg .esp + 32
              | .ebx => bx
              | .edx => dx
              | .ecx => cx
              | .eax => ax } } := by
  -- the word of `esp` is popped into nothing, as on the processor
  simp only [popal, h.of_getElem? (i := 0) rfl, h.of_getElem? (i := 1) rfl,
    h.of_getElem? (i := 2) rfl, h.of_getElem? (i := 4) rfl, h.of_getElem? (i := 5) rfl,
    h.of_getElem? (i := 6) rfl, h.of_getElem? (i := 7) rfl]

/-- **There and back**: if the frame of an interrupt is on top of the stack again, `iret` restores
    what the interrupt has saved. -/
theorem iret_frame {s k : Processor} {tss : Tss} {gate : Gate} {back : Nat} (hback : back < 2 ^ 32)
    (hstack : k.cpu.OnStack (s.frame back))
    (hesp : k.cpu.reg .esp = (s.enter tss gate back).cpu.reg .esp)
    (hss : k.ss = (s.enter tss gate back).ss) :
    k.iret = ⟨{ k.cpu.set .esp (s.cpu.reg .esp) with pc := back, eflags := s.cpu.eflags },
      s.cs, s.ss⟩ := by
  have hpc : (BitVec.ofNat 32 back).toNat = back := Nat.mod_eq_of_lt hback
  have h0 := hstack.of_getElem? (i := 0) rfl
  have h1 := hstack.of_getElem? (i := 1) rfl
  have h2 := hstack.of_getElem? (i := 2) rfl
  -- a return to the same privilege pops three words, a return outwards pops five
  by_cases hs : s.Supervisor
  · -- from the gate's stack back to where the interrupted code's stack was
    have htop : k.cpu.reg .esp + 12 = s.cpu.reg .esp := by
      have hlength : 4 * (s.frame back).reverse.length = 12 := by
        rw [List.length_reverse, frame, if_pos hs]
        rfl
      rw [hesp, enter, Cpu.esp_pushWords, hlength, gateStack, if_pos hs]
      exact BitVec.sub_add_cancel ..
    simp only [iret, h0, h1, h2, hpc, htop]
    rw [show k.ss = s.ss from hss.trans (if_pos hs)]
    exact if_pos hs
  · -- the two words more are the `esp` and `ss` of the interrupted code
    have hlast : (s.frame back)[3]? = some (s.cpu.reg .esp) ∧ (s.frame back)[4]? = some s.ss := by
      rw [frame, if_neg hs]
      exact ⟨rfl, rfl⟩
    simp only [iret, h0, h1, h2, hpc, hstack.of_getElem? hlast.1, hstack.of_getElem? hlast.2]
    exact if_neg hs

end Processor

/-! ## Programs with gates -/

/-- Instructions, calls of the functions `F`, and gates.  The call through a table takes the number
    of the entry from `eax`. -/
inductive LinkInstr (F : Type) where
  | instr (i : Instr)
  | pushal
  | popal
  | call (f : F)
  | callTable (table : List (Option F))
  | int
  | ret
  | iret

variable {F : Type}

/-- The instructions `block` stand at index `p`. -/
def HasBlock (prog : List (LinkInstr F)) (p : Nat) (block : List (LinkInstr F)) : Prop :=
  ∀ i (h : i < block.length), prog[p + i]? = some block[i]

/-- What surrounds a program: the supervisor's stack, the gate of `int`, and for every function the
    state in which it returns to its caller if it does. -/
structure LinkEnv (F : Type) where
  tss : Tss
  gate : Gate
  result : F → Processor → Option Processor

/-- What an instruction does; `none` if it calls a function that does not return. -/
def LinkInstr.perform (env : LinkEnv F) (s : Processor) : LinkInstr F → Option Processor
  | .instr i => some { s with cpu := s.cpu.exec i }
  | .pushal => some s.pushal
  | .popal => some s.popal
  | .call f => env.result f s.called
  | .callTable table =>
    table[(s.cpu.reg .eax).toNat]?.join.bind fun f => env.result f s.called
  | .int => some (s.enter env.tss env.gate (s.cpu.pc + 1))
  | .ret => some s.ret
  | .iret => some s.iret

/-- The program goes from one state to another. -/
def LinkReaches (prog : List (LinkInstr F)) (env : LinkEnv F) : Processor → Processor → Prop :=
  Relation.ReflTransGen fun s s' => prog[s.cpu.pc]?.bind (LinkInstr.perform env s) = some s'

/-- An instruction, and what the program does then. -/
theorem LinkReaches.step {prog : List (LinkInstr F)} {env : LinkEnv F} {s s' d : Processor}
    {i : LinkInstr F} (hi : prog[s.cpu.pc]? = some i) (hstep : i.perform env s = some s')
    (h : LinkReaches prog env s' d) : LinkReaches prog env s d := by
  refine Relation.ReflTransGen.head ?_ h
  rw [hi]
  exact hstep

/-- A part of a block. -/
theorem HasBlock.part {prog : List (LinkInstr F)} (before block after : List (LinkInstr F))
    {p : Nat} (h : HasBlock prog p (before ++ block ++ after)) :
    HasBlock prog (p + before.length) block := by
  intro i hi
  have hword := h (before.length + i) (by simp only [List.length_append]; omega)
  rw [Nat.add_assoc, hword, List.getElem_append_left (by simp only [List.length_append]; omega),
    List.getElem_append_right (Nat.le_add_right ..)]
  simp only [Nat.add_sub_cancel_left]

theorem hasBlock_self (prog : List (LinkInstr F)) : HasBlock prog 0 prog := by
  intro i hi
  rw [Nat.zero_add]
  exact List.getElem?_eq_getElem hi

/-- Pops, one after the other. -/
theorem LinkReaches.pops {prog : List (LinkInstr F)} {env : LinkEnv F} {s d : Processor}
    {below : List (BitVec 32)} (l : List (Reg × BitVec 32))
    (hcode : HasBlock prog s.cpu.pc (l.map fun p => .instr (.pop p.1)))
    (hl : .esp ∉ l.map Prod.fst) (hstack : s.cpu.OnStack (l.map Prod.snd ++ below))
    (h : LinkReaches prog env { s with cpu := s.cpu.popWords l } d) :
    LinkReaches prog env s d := by
  -- on the registers still to be popped: one `pop` and the list is shorter
  induction l generalizing s with
  | nil => exact h
  | cons p l ih =>
    obtain ⟨hne, hl⟩ := List.ne_and_not_mem_of_not_mem_cons hl
    -- `esp` is not among them, so the stack pointer after the pop is four higher
    have hpop := Cpu.effect_pop hstack p.1
    refine .step (hcode 0 (Nat.zero_lt_succ _)) rfl (ih ?code ?regs ?stack ?rest)
    case code =>
      intro i hi
      have hnext := hcode (i + 1) (Nat.succ_lt_succ hi)
      rw [show s.cpu.pc + (i + 1) = s.cpu.pc + 1 + i by omega] at hnext
      exact hnext
    case regs => exact hl
    case stack =>
      refine Cpu.onStack_tail hstack rfl ?_
      show (s.cpu.effect (.pop p.1)).reg .esp = _
      rw [hpop]
      simp only [Cpu.set, Function.update_of_ne hne, Function.update_self]
    case rest =>
      have hafter : s.cpu.exec (.pop p.1) =
          ((s.cpu.set .esp (s.cpu.reg .esp + 4)).set p.1 p.2).next := congrArg Cpu.next hpop
      simp only [hafter]
      exact h

/-- What a function promises its caller: it returns behind the call with the stack as it was, the
    four registers that the caller does not give up, and the `frame` bytes of memory that follow its
    `args` words of arguments, which it may write to. -/
structure Cdecl (args frame : Nat) (s s' : Processor) : Prop where
  pc : s'.cpu.pc = (loadWord s.cpu.mem (s.cpu.reg .esp)).toNat
  esp : s'.cpu.reg .esp = s.cpu.reg .esp + 4
  saved : ∀ r, r = .ebx ∨ r = .esi ∨ r = .edi ∨ r = .ebp → s'.cpu.reg r = s.cpu.reg r
  cs : s'.cs = s.cs
  ss : s'.ss = s.ss
  memory : KeepsBytes s.cpu.mem s'.cpu.mem (s.cpu.reg .esp + BitVec.ofNat 32 (4 * (args + 1))) frame

/-- What is on the stack behind the arguments is still there when the function returns. -/
theorem Cdecl.holdsWords {args frame : Nat} {s s' : Processor} (h : Cdecl args frame s s')
    (first below : List (BitVec 32)) (hstack : s.cpu.OnStack (first ++ below))
    (hfirst : first.length = args + 1) (hbelow : 4 * below.length ≤ frame)
    (hframe : frame ≤ 2 ^ 32) :
    HoldsWords s'.cpu.mem (s'.cpu.reg .esp + BitVec.ofNat 32 (4 * args)) below := by
  -- `ret` has popped the return address, so the caller's words begin after the arguments
  have hwords := (HoldsWords.append_iff.mp hstack).2
  have haddr : s'.cpu.reg .esp + BitVec.ofNat 32 (4 * args) =
      s.cpu.reg .esp + BitVec.ofNat 32 (4 * (args + 1)) := by
    rw [h.esp, Nat.mul_succ, BitVec.ofNat_add, BitVec.add_assoc,
      BitVec.add_comm (BitVec.ofNat 32 (4 * args))]
    rfl
  rw [haddr]
  rw [hfirst] at hwords
  refine hwords.of_keeps (h.memory.mono ?_) (by omega)
  -- they lie above the stack pointer, where the function stores nothing
  have hzero : ∀ x : BitVec 32, (x - x).toNat = 0 := by
    intro x
    bv_omega
  rw [hzero]
  omega

end LinuxLikeOs.Library
