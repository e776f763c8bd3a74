/-
# `RealBoy.Cpu.Requests` — no interrupt is lost, and none is taken twice

A request sets a bit of IF and no more: two requests of one interrupt that the CPU
has not come to yet are one.  `Account` keeps the books of one bit from a state to a
later one: what was taken and what is still requested was requested before or has
been raised since; and where nothing was taken and the program did not write IF
itself, what was requested still is.

Every piece of a run has such an account, whatever the stack, the program and the
PPU do (`account_pass`), and accounts add up (`Account.trans`); so the books are right
over every run (`interrupts_accounted`).
-/
import RealBoy.Emu.Loop
import RealBoy.Lib.Ledger

namespace RealBoy

open Emu

/-- Bit `b` of IF. -/
def requested (b : Fin 8) (s : Emu) : Bool := s.cpu.ifReg.getLsbD b

/-- The call raises interrupt `b`: a request, or a bus write to IF. -/
def Event.raises (b : Fin 8) : Event → Bool
  | .cpuRequestIntr im => im.getLsbD b
  | .monitorWrMem addr value => decide (addr = 0xff0f) && (value &&& 0x1f).getLsbD b
  | _ => false

/-- A bus write to IF. -/
def Event.WritesIf : Event → Prop
  | .monitorWrMem addr _ => addr = 0xff0f
  | _ => False

/-- The books of interrupt `b` from `s` to `s'`, where it was taken `n` times. -/
structure Account (b : Fin 8) (n : Nat) (s s' : Emu) : Prop where
  isPrefix : s.events <+: s'.events
  owes : n + (requested b s').toNat ≤
    (requested b s).toNat + (eventsSince s s').countP (Event.raises b)
  keeps : n = 0 → (∀ e ∈ eventsSince s s', ¬ e.WritesIf) →
    requested b s = true ∨ (∃ e ∈ eventsSince s s', e.raises b = true) → requested b s' = true

namespace Account

variable {b : Fin 8} {n m : Nat} {s s' s'' : Emu}

/-- **Accounts add up.** -/
theorem trans (h : Account b n s s') (h' : Account b m s' s'') : Account b (n + m) s s'' where
  isPrefix := h.isPrefix.trans h'.isPrefix
  owes := by
    have := h.owes
    have := h'.owes
    rw [eventsSince_trans h.isPrefix h'.isPrefix, List.countP_append]
    omega
  keeps hn hno hreq := by
    rw [eventsSince_trans h.isPrefix h'.isPrefix] at hno hreq
    have hno₁ : ∀ e ∈ eventsSince s s', ¬ e.WritesIf := fun e he => hno e (List.mem_append_left _ he)
    have hno₂ : ∀ e ∈ eventsSince s' s'', ¬ e.WritesIf := fun e he =>
      hno e (List.mem_append_right _ he)
    refine h'.keeps (by omega) hno₂ ?_
    rcases hreq with hreq | ⟨e, he, hraise⟩
    · exact .inl (h.keeps (by omega) hno₁ (.inl hreq))
    · rcases List.mem_append.mp he with he | he
      · exact .inl (h.keeps (by omega) hno₁ (.inr ⟨e, he, hraise⟩))
      · exact .inr ⟨e, he, hraise⟩

/-- One more piece in which nothing is taken. -/
theorem snoc (h : Account b n s s') (h' : Account b 0 s' s'') : Account b n s s'' := h.trans h'

/-- No call is made. -/
theorem quiet (he : s'.events = s.events) (hif : s'.cpu.ifReg = s.cpu.ifReg) :
    Account b 0 s s' := by
  have hes : eventsSince s s' = [] := eventsSince_append s s' [] (by rw [he, List.append_nil])
  have hreq : requested b s' = requested b s := by rw [requested, hif, requested]
  exact
    { isPrefix := he ▸ List.prefix_rfl
      owes := by simp [hes, hreq]
      keeps := by simp [hes, hreq] }

theorem refl (s : Emu) : Account b 0 s s := .quiet rfl rfl

/-- One call is made. -/
theorem call {e : Event} (he : s'.events = s.events ++ [e])
    (howes : requested b s' = true → requested b s = true ∨ e.raises b = true)
    (hkeeps : ¬ e.WritesIf → requested b s = true ∨ e.raises b = true → requested b s' = true) :
    Account b 0 s s' := by
  have hes : eventsSince s s' = [e] := eventsSince_append s s' [e] he
  refine ⟨⟨_, he.symm⟩, ?_, fun _ hno hreq => ?_⟩
  · rw [hes]
    cases hreq : requested b s' with
    | false => simp
    | true =>
        rcases howes hreq with h | h
        · simp [h]
        · simp [h]
  · rw [hes] at hno hreq
    refine hkeeps (hno e (List.mem_singleton_self e)) (hreq.imp_right ?_)
    rintro ⟨e', he', hraise⟩
    rw [← List.mem_singleton.mp he']
    exact hraise

/-- A call that has nothing to do with IF. -/
theorem log (h : Account b n s s') {e : Event} (he : ∀ b, e.raises b = false) :
    Account b n s (s'.log e) :=
  h.snoc (.call rfl .inl fun _ h => h.resolve_right (by rw [he]; exact Bool.false_ne_true))

/-- A request. -/
theorem request (h : Account b n s s') (im : U8) : Account b n s (cpuRequestIntr im s') := by
  have hor : requested b (cpuRequestIntr im s') = (requested b s' || im.getLsbD b) :=
    BitVec.getLsbD_or
  refine h.snoc (.call (e := .cpuRequestIntr im) rfl ?_ fun _ => ?_)
  · rw [hor, Bool.or_eq_true]
    exact id
  · rw [hor, Bool.or_eq_true]
    exact id

/-- The CPU changes, but not IF. -/
theorem updCpu (h : Account b n s s') (f : CpuState → CpuState)
    (hf : ∀ c, (f c).ifReg = c.ifReg := by exact fun _ => rfl) : Account b n s (s'.updCpu f) :=
  h.snoc (.quiet rfl (hf _))

theorem updPpuRegs (h : Account b n s s') (f : PpuRegs → PpuRegs) :
    Account b n s (s'.updPpuRegs f) := h.snoc (.quiet rfl rfl)
theorem updDots (h : Account b n s s') (f : Int → Int) : Account b n s (s'.updDots f) :=
  h.snoc (.quiet rfl rfl)
theorem updStat (h : Account b n s s') (f : U8 → U8) : Account b n s (s'.updStat f) :=
  h.snoc (.quiet rfl rfl)
theorem updVblankDots (h : Account b n s s') (f : U32 → U32) :
    Account b n s (s'.updVblankDots f) := h.snoc (.quiet rfl rfl)
theorem setMode (h : Account b n s s') (mode : PpuMode) : Account b n s (s'.setMode mode) :=
  h.snoc (.quiet rfl rfl)
theorem countFrame (h : Account b n s s') : Account b n s s'.countFrame :=
  h.snoc (.quiet rfl rfl)

end Account

/-! ## Bus writes -/

theorem cpuWr_ifReg {addr : U16} (h : addr ≠ 0xff0f) (value : U8) (s : Emu) :
    (cpuWr addr value s).cpu.ifReg = s.cpu.ifReg := by
  unfold cpuWr
  iterate 3
    refine iteInduction (motive := fun s' : Emu => s'.cpu.ifReg = s.cpu.ifReg) (fun _ => rfl)
      fun _ => ?_
  refine iteInduction (motive := fun s' : Emu => s'.cpu.ifReg = s.cpu.ifReg)
    (fun ha => absurd ha h) fun _ => ?_
  iterate 5
    refine iteInduction (motive := fun s' : Emu => s'.cpu.ifReg = s.cpu.ifReg) (fun _ => rfl)
      fun _ => ?_
  rfl

/-- A bus write to IF stores its low five bits, and no other changes it. -/
theorem monitorWrMem_ifReg {addr : U16} (hdma : addr ≠ 0xff46) (value : U8) (s : Emu) :
    (monitorWrMem addr value s).cpu.ifReg =
      if addr = 0xff0f then value &&& 0x1f else s.cpu.ifReg := by
  by_cases ha : addr = 0xff0f
  · rw [if_pos ha, ha, monitorWrMem_eq]
    rfl
  · rw [if_neg ha]
    have hw := monitorWrMem_cases addr value s
    generalize monitorWrMem addr value s = s' at hw ⊢
    cases hw with
    | cpu => exact cpuWr_ifReg ha value _
    | unmap => exact cpuWr_ifReg ha value _
    | ppu hp => rw [(ppuWr_cases hp value _).frame hdma]; rfl
    | mbc1 => rfl
    | ioreg => rfl

theorem account_monitorWrMem (b : Fin 8) (addr : U16) (value : U8) (s : Emu) :
    Account b 0 s (monitorWrMem addr value s) := by
  refine monitorWrMem_induct (P := Account b 0 s) ?_ ?_ addr value s (.refl s)
  · exact fun s' value hs => hs.log fun _ => rfl
  · intro s' addr value hdma hs
    have hif := monitorWrMem_ifReg hdma value s'
    refine hs.snoc (.call ((monitorWrMem_cases addr value s').events hdma) ?_ ?_)
    · rw [requested, hif, Event.raises]
      split
      case isTrue ha =>
        intro hbit
        exact .inr ((Bool.and_eq_true _ _).mpr ⟨decide_eq_true ha, hbit⟩)
      case isFalse => exact .inl
    · intro hno hreq
      have ha : addr ≠ 0xff0f := hno
      rw [requested, hif, if_neg ha]
      exact hreq.resolve_right fun h => ha (of_decide_eq_true ((Bool.and_eq_true _ _).mp h).1)

/-! ## Instructions and the timer -/

variable {b : Fin 8} {n : Nat} {s₀ s : Emu}

theorem account_opClosed : OpClosed (Account b n s₀) where
  regs _ _ hs := hs.snoc (.quiet rfl rfl)
  ime _ _ hs := hs.snoc (.quiet rfl rfl)
  halt _ hs := hs.snoc (.quiet rfl rfl)
  write _ addr value hs := hs.snoc (account_monitorWrMem b addr value _)

theorem account_execInstr (b : Fin 8) (s : Emu) : Account b 0 s (execInstr s).1 := by
  unfold execInstr
  split
  · exact .refl s
  · have hop : Account b 0 s (opsTableDispatch (fetch s).1 (fetch s).2.1 (fetch s).2.2).1 := by
      rw [dispatch_eq]
      exact account_opClosed.handler (account_opClosed.fetch (.refl s)) _
    exact hop.snoc (.quiet rfl rfl)

namespace Account

variable {s' : Emu} (h : Account b n s s')

include h

theorem tickTima : Account b n s (tickTima s') := by
  have hinc := h.updCpu fun c => { c with timaReg := c.timaReg + 1 }
  have hlog := hinc.log (e := .timaTick) fun _ => rfl
  unfold RealBoy.tickTima
  dsimp only
  split
  · exact (hlog.updCpu _).request 0x4
  · exact hlog

theorem advanceTima (cycles : Nat) : Account b n s (advanceTima cycles s') := by
  unfold RealBoy.advanceTima
  split
  · split
    · exact h.tickTima.updCpu _
    · exact h.updCpu _
  · exact h

/-! ## The PPU -/

theorem statIntr (mask : U8) : Account b n s (statIntr mask s') := by
  unfold RealBoy.statIntr
  split
  · exact h.request 0x2
  · exact h

theorem setLy (value : U8) : Account b n s (setLy value s') := by
  unfold RealBoy.setLy checkLyLyc
  split
  · exact ((h.updPpuRegs _).updStat _).statIntr _
  · exact (h.updPpuRegs _).updStat _

theorem ppuRenderLine : Account b n s (ppuRenderLine s') := by
  unfold RealBoy.ppuRenderLine
  refine List.foldlRecOn (motive := Account b n s) _ _ (h.log fun _ => rfl) fun s' hs _ _ => ?_
  exact List.foldlRecOn (motive := Account b n s) _ _ hs fun s' hs _ _ => hs.log fun _ => rfl

theorem changePhase : Account b n s (changePhase s') := by
  unfold RealBoy.changePhase
  split
  · have hly := h.setLy (s'.ppu.regs.ly + 1)
    unfold hblankEndCycle
    dsimp only
    split
    · have hmode := ((hly.updVblankDots fun _ => 0).updDots (· + 4560)).setMode .vblank
      exact ((hmode.updStat _).statIntr _).request 0x1
    · exact (((hly.updDots _).setMode _).updStat _).statIntr _
  · have hframe := h.log (e := .renderDrawFramebuffer) fun _ => rfl
    have hmode := ((hframe.updDots (· + 80)).setLy 0).setMode .oam
    exact (((hmode.updStat _).updStat _).countFrame).log fun _ => rfl
  · exact ((h.updDots _).updStat _).setMode _
  · exact (((h.updDots _).updStat _).setMode _).ppuRenderLine

theorem countVblankDots (ticks : U8) : Account b n s (countVblankDots ticks s') := by
  unfold RealBoy.countVblankDots
  split
  · dsimp only
    split
    · exact ((h.updVblankDots _).setLy _).updVblankDots _
    · exact h.updVblankDots _
  · exact h

theorem refreshTicks (ticks : U8) : Account b n s (refreshTicks ticks s') := by
  unfold RealBoy.refreshTicks
  dsimp only
  split
  · exact (h.updDots _).changePhase
  · exact (h.updDots _).countVblankDots ticks

/-- **A refresh** requests what it says it does. -/
theorem ppuRefresh (ticks : U8) : Account b n s (ppuRefresh ticks s') := by
  unfold RealBoy.ppuRefresh
  split
  · split
    · split
      · exact (h.updDots _).refreshTicks 3
      · exact h.refreshTicks 3
    · exact h.refreshTicks ticks
  · exact h

end Account

theorem account_beforeIntrs (b : Fin 8) (s : Emu) : Account b 0 s (beforeIntrs s) := by
  have hdiv : Account b 0 s (advanceDiv (execInstr s).2 (execInstr s).1) :=
    (account_execInstr b s).updCpu _
  exact hdiv.advanceTima _

/-! ## The scan -/

/-- The mask of an interrupt. -/
def maskOf (b : Fin 8) : U8 := (1 : U8) <<< b.1

theorem getLsbD_maskOf (i b : Fin 8) : (maskOf i).getLsbD b = decide (i = b) := by
  revert i b
  decide

theorem maskOf_inj {i b : Fin 8} (h : maskOf i = maskOf b) : i = b := by
  have hbit := getLsbD_maskOf i b
  rw [h, getLsbD_maskOf b b] at hbit
  simpa using hbit.symm

theorem mem_intrMasks {m : U8} (h : m ∈ intrMasks) : ∃ i, m = maskOf i := by
  obtain ⟨i, hi, rfl⟩ := List.mem_map.mp h
  exact ⟨⟨i, List.mem_range.mp hi⟩, rfl⟩

/-- What is pending has been requested. -/
theorem requested_of_pending {i : Fin 8} {s : Emu} (h : pending s &&& maskOf i ≠ 0) :
    requested i s = true := by
  have hbit := and_mask_bne (pending s) i.isLt
  rw [show (pending s &&& (1 : U8) <<< i.1 != 0) = true from bne_iff_ne.mpr h, pending,
    BitVec.getLsbD_and] at hbit
  exact ((Bool.and_eq_true _ _).mp hbit.symm).1

/-- To acknowledge an interrupt is to take it. -/
theorem account_acknowledge (b : Fin 8) {i : Fin 8} {s : Emu} (h : pending s &&& maskOf i ≠ 0) :
    Account b (if i = b then 1 else 0) s (acknowledge (maskOf i) s) := by
  have hes : eventsSince s (acknowledge (maskOf i) s) = [] :=
    eventsSince_append s _ [] (List.append_nil _).symm
  have hreq : requested b (acknowledge (maskOf i) s) = (requested b s && !decide (i = b)) := by
    show (s.cpu.ifReg &&& ~~~maskOf i).getLsbD b = _
    rw [BitVec.getLsbD_and, BitVec.getLsbD_not, getLsbD_maskOf, requested]
    simp
  by_cases hib : i = b
  · subst hib
    refine ⟨List.prefix_rfl, ?_, fun hone => absurd hone (by simp)⟩
    rw [hreq, requested_of_pending h]
    simp
  · refine ⟨List.prefix_rfl, ?_, fun _ _ hbefore => ?_⟩
    · rw [hreq]
      simp [hib]
    · rw [hes] at hbefore
      rw [hreq]
      simpa [hib] using hbefore

theorem Account.processIntr (h : Account b n s₀ s) (m : U8) : Account b n s₀ (processIntr m s) :=
  account_opClosed.regs _ _ (account_opClosed.push h _)

/-- One turn of the scan. -/
theorem account_intrStep (b i : Fin 8) (s : Emu) :
    Account b (if takes s (maskOf i) = true then if i = b then 1 else 0 else 0) s
      (intrStep s (maskOf i)) := by
  cases htakes : takes s (maskOf i) with
  | true =>
      have hp := bne_iff_ne.mp ((Bool.and_eq_true _ _).mp htakes).1
      rw [intrStep_of_takes htakes, if_pos rfl]
      exact (account_acknowledge b hp).processIntr _
  | false =>
      rw [if_neg Bool.false_ne_true, intrStep_eq]
      split
      case isTrue hp =>
        split
        case isTrue hime =>
          rw [takes, bne_iff_ne.mpr hp, hime] at htakes
          cases htakes
        case isFalse => exact .quiet rfl rfl
      case isFalse => exact .refl s

theorem account_scan (b : Fin 8) {l : List U8} (hl : ∀ m ∈ l, m ∈ intrMasks) (s : Emu) :
    Account b ((Scan.calls intrStep takes s l).count (maskOf b)) s (l.foldl intrStep s) := by
  induction l generalizing s with
  | nil => exact .refl s
  | cons m l ih =>
      obtain ⟨i, rfl⟩ := mem_intrMasks (hl m List.mem_cons_self)
      have hrest := ih (fun m hm => hl m (List.mem_cons_of_mem _ hm)) (intrStep s (maskOf i))
      have hall := (account_intrStep b i s).trans hrest
      have hcount : (Scan.calls intrStep takes s (maskOf i :: l)).count (maskOf b) =
          (if takes s (maskOf i) = true then if i = b then 1 else 0 else 0) +
            (Scan.calls intrStep takes (intrStep s (maskOf i)) l).count (maskOf b) := by
        rw [Scan.calls]
        split
        · rw [List.count_cons, Nat.add_comm]
          congr 1
          by_cases hib : i = b
          · simp [hib]
          · simp [hib, mt maskOf_inj hib]
        · rw [Nat.zero_add]
      rw [hcount]
      exact hall

/-- **The scan** takes what it calls `process_intr` for. -/
theorem account_handleIntrs (b : Fin 8) (s : Emu) :
    Account b ((intrCalls s).count (maskOf b)) s (handleIntrs s) := by
  have hscan := account_scan b (l := intrMasks) (fun _ hm => hm) s
  unfold handleIntrs intrCalls
  split
  · rw [intrMasks, List.foldl_map] at hscan
    exact hscan
  · exact .refl s

/-! ## Runs -/

/-- How often a step takes interrupt `b`. -/
def taken (b : Fin 8) (s : Emu) : LoopStep → Nat
  | .execNext => (intrCalls (beforeIntrs s)).count (maskOf b)
  | .key _ _ => 0

/-- **The account of a step.** -/
theorem account_pass (b : Fin 8) (s : Emu) (a : LoopStep) : Account b (taken b s a) s (s.pass a) := by
  cases a with
  | execNext =>
      have hscan := (account_beforeIntrs b s).trans (account_handleIntrs b (beforeIntrs s))
      rw [Nat.zero_add] at hscan
      exact hscan.ppuRefresh _
  | key isFocus ev =>
      obtain ⟨k, hk⟩ := monitorSetKey_eq isFocus ev s
      rw [Emu.pass, hk]
      exact .quiet rfl rfl

theorem account_passes (b : Fin 8) (steps : List LoopStep) :
    ∀ s, Account b (Runs.total Emu.pass (taken b) s steps) s (s.passes steps) := by
  induction steps with
  | nil => exact fun s => .refl s
  | cons a steps ih => exact fun s => (account_pass b s a).trans (ih (s.pass a))

/-- **Interrupts are accounted for.**  Over every run, from any state: an interrupt
is taken at most once for each time it was raised; and while it is not taken, and
the program does not write IF, it is requested at the end just if it was at the
beginning or has been raised since. -/
theorem interrupts_accounted (b : Fin 8) (s : Emu) (steps : List LoopStep) :
    let es := eventsSince s (s.passes steps)
    let times := Runs.total Emu.pass (taken b) s steps
    times + (requested b (s.passes steps)).toNat ≤
        (requested b s).toNat + es.countP (Event.raises b) ∧
      (times = 0 → (∀ e ∈ es, ¬ e.WritesIf) →
        (requested b (s.passes steps) = true ↔
          requested b s = true ∨ ∃ e ∈ es, e.raises b = true)) := by
  have h := account_passes b steps s
  refine ⟨h.owes, fun hnone hno => ⟨fun hreq => ?_, h.keeps hnone hno⟩⟩
  have howes := h.owes
  by_contra hnot
  obtain ⟨hbefore, hraise⟩ := not_or.mp hnot
  have hcount : (eventsSince s (s.passes steps)).countP (Event.raises b) = 0 :=
    List.countP_eq_zero.mpr fun e he hr => hraise ⟨e, he, hr⟩
  rw [hcount, hreq, Bool.eq_false_iff.mpr hbefore] at howes
  simp at howes

/-- LD A,0xff; LDH (0x05),A; LD A,0x05; LDH (0x07),A: the timer is about to overflow. -/
def overflowing : Array U8 := #[0x3e, 0xff, 0xe0, 0x05, 0x3e, 0x05, 0xe0, 0x07]

/-- It does, and nobody takes its interrupt. -/
theorem interrupts_accounted_overflowing :
    let s := (powerOn overflowing #[]).passes (List.replicate 4 .execNext)
    let s' := s.passes (List.replicate 3 .execNext)
    eventsSince s s' = [.timaTick, .cpuRequestIntr 0x4] ∧ requested 2 s' = true := by
  intro s s'
  have hes : eventsSince s s' = [.timaTick, .cpuRequestIntr 0x4] := by decide
  obtain ⟨-, hkept⟩ := interrupts_accounted 2 s (List.replicate 3 .execNext)
  rw [hes] at hkept
  have hnone : Runs.total Emu.pass (taken 2) s (List.replicate 3 .execNext) = 0 := by decide
  exact ⟨hes, (hkept hnone (by simp [Event.WritesIf])).mpr (.inr (by decide))⟩

end RealBoy
