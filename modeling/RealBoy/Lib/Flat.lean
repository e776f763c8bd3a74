/-
# `RealBoy.Lib.Flat` — code that stays in memory

`flatBus` is a bus with nothing behind it but 64 KiB of memory, and a program on
it is a function of the registers and the memory.  `Instr.loads` and
`Instr.stores` are the addresses of the data an instruction reads and writes; a
state whose next instruction keeps to given addresses is `Confined`.

A real bus has memory at some addresses (`Bus.Stable`).  As long as a program is
confined to them and IME is off, the machine on the real bus has the registers
and the memory of the flat one, whatever else happens behind the bus
(`Follows.next`).
-/
import RealBoy.Lib.Machine

namespace Sm83

/-- 64 KiB. -/
abbrev Mem := BitVec 16 → BitVec 8

/-- Memory, and no interrupts. -/
def flatBus : Bus Mem where
  rd m := m
  wr a v m := fun b => if b = a then v else m b
  ime _ := false
  setIme _ m := m
  halted _ := false
  setHalted _ m := m
  pending _ := 0
  ack _ m := m

/-! ## Where an instruction goes -/

/-- An operand in memory. -/
def Operand.cell (hl : BitVec 16) : Operand → List (BitVec 16)
  | .indHl => [hl]
  | _ => []

/-- The two bytes of a word. -/
def wordAt (a : BitVec 16) : List (BitVec 16) := [a, a + 1]

namespace Bus

variable {E : Type} (M : Bus E)

/-- The addresses of an instruction's bytes from PC on. -/
def code (pc : BitVec 16) (n : Nat) : List (BitVec 16) :=
  (List.range n).map fun k => pc + BitVec.ofNat 16 k

theorem mem_code {pc a : BitVec 16} {n k : Nat} (hk : k < n) (ha : pc + BitVec.ofNat 16 k = a) :
    a ∈ code pc n := List.mem_map.mpr ⟨k, List.mem_range.mpr hk, ha⟩

/-- The data an instruction reads, PC being behind the opcode. -/
def loads (s : State E) : Instr → List (BitVec 16)
  | .ld _ o | .alu _ o | .inc o | .dec o | .shift _ o | .bit _ o | .res _ o | .set _ o =>
    o.cell s.cpu.hl
  | .loadA p => [s.cpu.pointer p]
  | .ldAA16 => [M.imm16 s]
  | .ldhAA8 => [ioAddr (M.imm8 s)]
  | .ldhAC => [ioAddr s.cpu.c]
  | .pop _ | .ret _ | .reti => wordAt s.cpu.sp
  | _ => []

/-- The data it writes. -/
def stores (s : State E) : Instr → List (BitVec 16)
  | .ld o _ | .ldImm o | .inc o | .dec o | .shift _ o | .res _ o | .set _ o => o.cell s.cpu.hl
  | .storeA p => [s.cpu.pointer p]
  | .ldA16Sp => wordAt (M.imm16 s)
  | .ldA16A => [M.imm16 s]
  | .ldhA8A => [ioAddr (M.imm8 s)]
  | .ldhCA => [ioAddr s.cpu.c]
  | .push _ | .call _ | .rst _ => wordAt (s.cpu.sp - 2)
  | _ => []

end Bus

/-- The instructions that leave IME and HALT as they are, with IME off. -/
def Instr.calm : Instr → Bool
  | .halt | .ei | .reti => false
  | _ => true

/-- PC behind the opcode. -/
def Bus.fetched {E : Type} (M : Bus E) (s : State E) : State E :=
  s.onCpu (Cpu.skip (BitVec.ofNat 16 (M.instr s).opcodeBytes))

/-- The next instruction reads in `R` and writes in `W`. -/
structure Confined (R W : BitVec 16 → Prop) (t : State Mem) : Prop where
  fetches : ∀ a ∈ Bus.code t.cpu.pc (flatBus.instr t).bytes, R a
  loads : ∀ a ∈ flatBus.loads (flatBus.fetched t) (flatBus.instr t), R a
  stores : ∀ a ∈ flatBus.stores (flatBus.fetched t) (flatBus.instr t), W a
  calm : (flatBus.instr t).calm = true

/-! ## A bus with memory -/

/-- The bus has memory at `R`, of which `W` can be written. -/
structure Bus.Stable {E : Type} (M : Bus E) (R W : BitVec 16 → Prop) : Prop where
  rd_wr : ∀ {a b : BitVec 16}, W a → R b → ∀ v e,
    M.rd (M.wr a v e) b = if b = a then v else M.rd e b
  ime_wr : ∀ {a : BitVec 16}, W a → ∀ v e, M.ime (M.wr a v e) = M.ime e
  halted_wr : ∀ {a : BitVec 16}, W a → ∀ v e, M.halted (M.wr a v e) = M.halted e
  rd_setIme : ∀ {b : BitVec 16}, R b → ∀ e, M.rd (M.setIme false e) b = M.rd e b
  ime_setIme : ∀ e, M.ime (M.setIme false e) = false
  halted_setIme : ∀ e, M.halted (M.setIme false e) = M.halted e
  rd_setHalted : ∀ {b : BitVec 16}, R b → ∀ e, M.rd (M.setHalted false e) b = M.rd e b
  ime_setHalted : ∀ e, M.ime (M.setHalted false e) = M.ime e
  halted_setHalted : ∀ e, M.halted (M.setHalted false e) = false

/-- What happens behind the bus leaves the memory alone. -/
structure Bus.Beside {E : Type} (M : Bus E) (R : BitVec 16 → Prop) (g : E → E) : Prop where
  rd : ∀ {b : BitVec 16}, R b → ∀ e, M.rd (g e) b = M.rd e b
  ime : ∀ e, M.ime (g e) = M.ime e
  halted : ∀ e, M.halted (g e) = M.halted e

/-- The registers and the memory are those of the flat machine. -/
structure Follows {E : Type} (M : Bus E) (R : BitVec 16 → Prop) (t : State Mem) (s : State E) :
    Prop where
  cpu : s.cpu = t.cpu
  mem : ∀ a, R a → M.rd s.env a = t.env a
  ime : M.ime s.env = false
  halted : M.halted s.env = false

section

variable {E : Type} {M : Bus E} {R W : BitVec 16 → Prop} (hM : M.Stable R W)
  {t : State Mem} {s : State E}

/-! ### Reads -/

theorem Follows.word (h : Follows M R t s) {a : BitVec 16} (ha : ∀ b ∈ wordAt a, R b) :
    M.rdWord s.env a = flatBus.rdWord t.env a := by
  have hlow : M.rd s.env a = t.env a := h.mem a (ha a (by simp [wordAt]))
  have hhigh : M.rd s.env (a + 1) = t.env (a + 1) := h.mem _ (ha _ (by simp [wordAt]))
  rw [Bus.rdWord, hlow, hhigh]
  rfl

/-- Its operand bytes. -/
theorem Follows.imm8 (h : Follows M R t s) {n : Nat} (hn : 1 ≤ n)
    (hcode : ∀ a ∈ Bus.code t.cpu.pc n, R a) : M.imm8 s = flatBus.imm8 t := by
  have hpc : R t.cpu.pc := hcode _ (Bus.mem_code (k := 0) hn (BitVec.add_zero _))
  rw [Bus.imm8, h.cpu, h.mem _ hpc]
  rfl

theorem Follows.imm16 (h : Follows M R t s) {n : Nat} (hn : 2 ≤ n)
    (hcode : ∀ a ∈ Bus.code t.cpu.pc n, R a) : M.imm16 s = flatBus.imm16 t := by
  have hpc : R t.cpu.pc := hcode _ (Bus.mem_code (k := 0) (by omega) (BitVec.add_zero _))
  have hnext : R (t.cpu.pc + 1) := hcode _ (Bus.mem_code (k := 1) (by omega) rfl)
  have hword : ∀ a ∈ wordAt t.cpu.pc, R a := by
    intro a ha
    rcases List.mem_pair.mp ha with rfl | rfl
    · exact hpc
    · exact hnext
  rw [Bus.imm16, h.cpu, h.word hword]
  rfl

theorem Follows.get (h : Follows M R t s) (o : Operand) (ho : ∀ a ∈ o.cell t.cpu.hl, R a) :
    M.get s o = flatBus.get t o := by
  cases o with
  | indHl =>
      have hmem := h.mem _ (ho _ (List.mem_singleton_self _))
      rw [← h.cpu] at hmem
      show M.rd s.env s.cpu.hl = t.env t.cpu.hl
      rw [hmem, h.cpu]
  | _ => simp [Bus.get, h.cpu]

/-! ### Changes -/

/-- The registers change alike. -/
theorem Follows.onCpu (h : Follows M R t s) {f g : Cpu → Cpu} (hfg : f t.cpu = g t.cpu) :
    Follows M R (t.onCpu g) (s.onCpu f) where
  cpu := by
    show f s.cpu = g t.cpu
    rw [h.cpu, hfg]
  mem := h.mem
  ime := h.ime
  halted := h.halted

theorem Follows.jump (h : Follows M R t s) {a b : BitVec 16} (hab : a = b) :
    Follows M R (t.jump b) (s.jump a) := h.onCpu (by rw [hab])

/-- What happens behind the bus is not seen. -/
theorem Follows.beside (h : Follows M R t s) {g : E → E} (hg : M.Beside R g) :
    Follows M R t (s.onEnv g) where
  cpu := h.cpu
  mem a ha := (hg.rd ha _).trans (h.mem a ha)
  ime := (hg.ime _).trans h.ime
  halted := (hg.halted _).trans h.halted

include hM

/-- A byte is written. -/
theorem Follows.wr (h : Follows M R t s) {a a' : BitVec 16} {v v' : BitVec 8} (ha : W a)
    (haa : a' = a) (hv : v' = v) :
    Follows M R (t.onEnv (flatBus.wr a v)) (s.onEnv (M.wr a' v')) := by
  subst haa hv
  exact
    { cpu := h.cpu
      mem := fun b hb => by
        show M.rd (M.wr a' v' s.env) b = if b = a' then v' else t.env b
        rw [hM.rd_wr ha hb, h.mem b hb]
      ime := (hM.ime_wr ha _ _).trans h.ime
      halted := (hM.halted_wr ha _ _).trans h.halted }

/-- A word is written. -/
theorem Follows.wrWord (h : Follows M R t s) {a a' w w' : BitVec 16} (ha : ∀ b ∈ wordAt a, W b)
    (haa : a' = a) (hw : w' = w) :
    Follows M R (t.onEnv (flatBus.wrWord a w)) (s.onEnv (M.wrWord a' w')) := by
  subst haa hw
  have hlow := h.wr hM (ha a' (by simp [wordAt])) rfl (rfl : lo w' = _)
  exact hlow.wr hM (ha (a' + 1) (by simp [wordAt])) rfl (rfl : hi w' = _)

theorem Follows.put (h : Follows M R t s) (o : Operand) (ho : ∀ a ∈ o.cell t.cpu.hl, W a)
    {v v' : BitVec 8} (hv : v' = v) : Follows M R (flatBus.put v t o) (M.put v' s o) := by
  subst hv
  cases o with
  | indHl => exact h.wr hM (ho _ (List.mem_singleton_self _)) (congrArg Cpu.hl h.cpu) rfl
  | _ =>
      simp only [Bus.put]
      exact h.onCpu rfl

theorem Follows.update (h : Follows M R t s) (o : Operand) (ho : ∀ a ∈ o.cell t.cpu.hl, W a)
    {v v' : BitVec 8} (hv : v' = v) {fl fl' : Flags} (hfl : fl' = fl) :
    Follows M R (flatBus.update o v fl t) (M.update o v' fl' s) := by
  subst hfl
  have hflags : Follows M R (t.onCpu fun r => { r with flags := fl' })
      (s.onCpu fun r => { r with flags := fl' }) := h.onCpu rfl
  exact hflags.put hM o ho hv

theorem Follows.push (h : Follows M R t s) (hs : ∀ a ∈ wordAt (t.cpu.sp - 2), W a)
    {w w' : BitVec 16} (hw : w' = w) : Follows M R (flatBus.push w t) (M.push w' s) := by
  refine Follows.wrWord hM (h.onCpu rfl) hs ?_ hw
  rw [h.cpu]

theorem Follows.call (h : Follows M R t s) (hs : ∀ a ∈ wordAt (t.cpu.sp - 2), W a)
    {a a' : BitVec 16} (ha : a' = a) : Follows M R (flatBus.call a t) (M.call a' s) :=
  (h.push hM hs (congrArg Cpu.pc h.cpu)).jump ha

theorem Follows.di (h : Follows M R t s) : Follows M R t (s.onEnv (M.setIme false)) where
  cpu := h.cpu
  mem a ha := (hM.rd_setIme ha _).trans (h.mem a ha)
  ime := hM.ime_setIme _
  halted := (hM.halted_setIme _).trans h.halted

omit hM in
theorem Follows.ret (h : Follows M R t s) (hs : ∀ a ∈ wordAt t.cpu.sp, R a) :
    Follows M R (flatBus.ret t) (M.ret s) := by
  refine h.onCpu ?_
  rw [h.word hs]

/-! ## A step -/

/-- **An instruction** that is confined does on the bus what it does on memory. -/
theorem Follows.exec (h : Follows M R t s) (i : Instr) (hcalm : i.calm = true)
    (himm : ∀ a ∈ Bus.code t.cpu.pc (i.bytes - i.opcodeBytes), R a)
    (hloads : ∀ a ∈ flatBus.loads t i, R a) (hstores : ∀ a ∈ flatBus.stores t i, W a) :
    Follows M R (flatBus.exec t i) (M.exec s i) := by
  have hcpu := h.cpu
  have hbyte {a : BitVec 16} (ha : R a) : M.rd s.env a = flatBus.rd t.env a := h.mem a ha
  have hskip (n : BitVec 16) :
      Follows M R (t.onCpu (Cpu.skip n)) (s.onCpu (Cpu.skip n)) := h.onCpu rfl
  cases i with
  | halt | ei | reti => cases hcalm
  | nop | stop | prefixByte | undefined => exact h
  | di => exact h.di hM
  | daa | cpl | scf | ccf | ldSpHl | incPair | decPair | addHl | rotA =>
      simp only [Bus.exec]
      exact h.onCpu rfl
  | ld dst src => exact h.put hM dst hstores (h.get src hloads)
  | ldImm dst => exact (hskip 1).put hM dst hstores (h.imm8 Nat.le.refl himm)
  | ldPairImm rr =>
      simp only [Bus.exec, h.imm16 Nat.le.refl himm]
      exact h.onCpu rfl
  | storeA p =>
      have hptr : s.cpu.pointer p = t.cpu.pointer p := by rw [hcpu]
      have hwr := h.wr hM (hstores _ (List.mem_singleton_self _)) hptr (congrArg Cpu.a hcpu)
      simp only [Bus.exec]
      exact hwr.onCpu rfl
  | loadA p =>
      simp only [Bus.exec]
      exact h.onCpu (by rw [hbyte (hloads _ (List.mem_singleton_self _))])
  | ldA16Sp =>
      have hwr := h.wrWord hM hstores (h.imm16 Nat.le.refl himm) (congrArg Cpu.sp hcpu)
      exact hwr.onCpu rfl
  | ldA16A =>
      have hwr := h.wr hM (hstores _ (List.mem_singleton_self _)) (h.imm16 Nat.le.refl himm)
        (congrArg Cpu.a hcpu)
      exact hwr.onCpu rfl
  | ldAA16 =>
      simp only [Bus.exec, h.imm16 Nat.le.refl himm]
      exact h.onCpu (by rw [hbyte (hloads _ (List.mem_singleton_self _))])
  | ldhA8A =>
      have hio : ioAddr (M.imm8 s) = ioAddr (flatBus.imm8 t) := by rw [h.imm8 Nat.le.refl himm]
      have hwr := h.wr hM (hstores _ (List.mem_singleton_self _)) hio (congrArg Cpu.a hcpu)
      exact hwr.onCpu rfl
  | ldhAA8 =>
      simp only [Bus.exec, h.imm8 Nat.le.refl himm]
      exact h.onCpu (by rw [hbyte (hloads _ (List.mem_singleton_self _))])
  | ldhCA =>
      have hio : ioAddr s.cpu.c = ioAddr t.cpu.c := by rw [hcpu]
      exact h.wr hM (hstores _ (List.mem_singleton_self _)) hio (congrArg Cpu.a hcpu)
  | ldhAC =>
      simp only [Bus.exec]
      exact h.onCpu (by rw [hbyte (hloads _ (List.mem_singleton_self _))])
  | ldHlSpE8 | addSpE8 | aluImm =>
      simp only [Bus.exec, h.imm8 Nat.le.refl himm]
      exact h.onCpu rfl
  | inc o | dec o =>
      have hv := h.get o hloads
      simp only [Bus.exec, hv]
      exact h.update hM o hstores rfl (by rw [hcpu])
  | shift k o =>
      have hv := h.get o hloads
      simp only [Bus.exec, hv]
      exact h.update hM o hstores (by rw [hcpu]) (by rw [hcpu])
  | alu k o | bit n o =>
      simp only [Bus.exec, h.get o hloads]
      exact h.onCpu rfl
  | res n o | set n o =>
      have hv := h.get o hloads
      simp only [Bus.exec, hv]
      exact h.put hM o hstores rfl
  | jp cc =>
      have hto := h.jump (h.imm16 Nat.le.refl himm)
      simp only [Bus.exec, hcpu]
      split
      · exact hto
      · exact hskip 2
  | jpHl => exact h.jump (congrArg Cpu.hl hcpu)
  | jr cc =>
      simp only [Bus.exec, h.imm8 Nat.le.refl himm, hcpu]
      split
      · exact hskip _
      · exact hskip 1
  | call cc =>
      have hto := (hskip 2).call hM hstores (h.imm16 Nat.le.refl himm)
      simp only [Bus.exec, hcpu]
      split
      · exact hto
      · exact hskip 2
  | ret cc =>
      have hret := h.ret hloads
      simp only [Bus.exec, hcpu]
      split
      · exact hret
      · exact h
  | rst n => exact h.call hM hstores rfl
  | push rr => exact h.push hM hstores (by rw [hcpu])
  | pop rr =>
      have hw := h.word hloads
      simp only [Bus.exec]
      exact h.onCpu (by rw [hw])

omit hM in
/-- The next instruction is the same. -/
theorem Follows.instr (h : Follows M R t s)
    (hf : ∀ a ∈ Bus.code t.cpu.pc (flatBus.instr t).bytes, R a) :
    M.instr s = flatBus.instr t := by
  have hpos : 0 < (flatBus.instr t).bytes := by
    cases flatBus.instr t <;> exact Nat.succ_pos _
  have hop : M.rd s.env s.cpu.pc = t.env t.cpu.pc := by
    rw [h.cpu]
    exact h.mem _ (hf _ (Bus.mem_code (k := 0) hpos (BitVec.add_zero _)))
  by_cases hcb : t.env t.cpu.pc = 0xcb
  · have hat : flatBus.instr t = decodePrefix (t.env (t.cpu.pc + 1)) := if_pos hcb
    have htwo : 1 < (flatBus.instr t).bytes := by
      rw [hat, (decodePrefix_opcodeBytes _).2]
      exact Nat.one_lt_two
    have hsecond : M.rd s.env (s.cpu.pc + 1) = t.env (t.cpu.pc + 1) := by
      rw [h.cpu]
      exact h.mem _ (hf _ (Bus.mem_code (k := 1) htwo rfl))
    rw [hat, ← hsecond]
    exact if_pos (hop.trans hcb)
  · have hat : flatBus.instr t = decode (t.env t.cpu.pc) := if_neg hcb
    rw [hat, ← hop]
    exact if_neg (hop ▸ hcb)

/-- **Fetch and execute.** -/
theorem Follows.step (h : Follows M R t s) (hok : Confined R W t) :
    Follows M R (flatBus.step t) (M.step s) := by
  have hinstr := h.instr hok.fetches
  have hfetched : Follows M R (flatBus.fetched t) (M.fetched s) := by
    rw [Bus.fetched, Bus.fetched, hinstr]
    exact h.onCpu rfl
  have hrun := hfetched.exec hM (flatBus.instr t) hok.calm (fun a ha => ?_) hok.loads hok.stores
  · show Follows M R (flatBus.exec (flatBus.fetched t) (flatBus.instr t))
      (M.exec (M.fetched s) (M.instr s))
    rw [hinstr]
    exact hrun
  · -- the operand bytes are behind the opcode's
    obtain ⟨k, hk, rfl⟩ := List.mem_map.mp ha
    have hk := List.mem_range.mp hk
    refine hok.fetches _ (Bus.mem_code (k := (flatBus.instr t).opcodeBytes + k) (by omega) ?_)
    rw [BitVec.ofNat_add, ← BitVec.add_assoc]
    rfl

/-- Nothing is taken while IME is off. -/
theorem Follows.interrupt (h : Follows M R t s) : Follows M R t (M.interrupt s) := by
  have hwake : Follows M R t (s.onEnv (M.setHalted false)) :=
    { cpu := h.cpu
      mem := fun a ha => (hM.rd_setHalted ha _).trans (h.mem a ha)
      ime := (hM.ime_setHalted _).trans h.ime
      halted := hM.halted_setHalted _ }
  unfold Bus.interrupt
  split
  · exact h
  · have hoff : ¬ M.ime (s.onEnv (M.setHalted false)).env = true := by
      rw [hwake.ime]
      exact Bool.false_ne_true
    dsimp only
    rw [if_neg hoff]
    exact hwake

end

/-- **A step of the machine**: what is confined to memory runs on the real bus
as on memory alone. -/
theorem Follows.next {E : Type} {M : Machine E} {R W : BitVec 16 → Prop} (hM : M.Stable R W)
    (htime : ∀ n, M.Beside R (M.elapse n)) {t : State Mem} {s : State E}
    (h : Follows M.toBus R t s) (hok : Confined R W t) :
    Follows M.toBus R (flatBus.step t) (M.next s) := by
  rw [Machine.next, if_neg (by rw [h.halted]; exact Bool.false_ne_true)]
  exact ((h.step hM hok).beside (htime _)).interrupt hM

end Sm83
