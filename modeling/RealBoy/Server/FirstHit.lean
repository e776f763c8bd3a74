/-
# `RealBoy.Server.FirstHit` — CONTINUE and UNTIL stop at the first hit

`server_should_stop_execution` is asked after every `exec_next`.  In a run that
nothing disturbs, `hit_breakpoint` sees the PC after each instruction once, with
the flags that the request left: the first time it finds that PC it stops the
run, with one message, and if it never does the loop is never left
(`stops_at_first_hit`).
-/
import Mathlib.Order.Bounds.Basic
import RealBoy.Server.Breakpoints
import RealBoy.Server.Flags

namespace RealBoy

/-- Where a CONTINUE and an UNTIL are to stop. -/
def StopsAt (req : ControlFlow) (breakpoints : List U64) (pc : U16) : Prop :=
  pc.setWidth 64 ∈ breakpoints ∨ ∃ addr, req = .flowUntil addr ∧ pc = addr.setWidth 16

/-- The message of such a stop; an UNTIL that is at its address says so, also
where there is a breakpoint. -/
def stopMsg (req : ControlFlow) (pc : U16) : Msg :=
  match req with
  | .flowUntil addr =>
    if pc = addr.setWidth 16 then .flowUntil (pc.setWidth 32) else .flowBreak (pc.setWidth 32)
  | _ => .flowBreak (pc.setWidth 32)

namespace Server

/-- PC after `n` more calls of `exec_next`. -/
def pcAfter (s : Server) (n : Nat) : U16 := (execNext^[n] s.emu).regs.pc

/-- The calls of a run of `n` instructions. -/
def ranCalls (s : Server) (n : Nat) : List Call := s.calls ++ List.replicate n .execNext

/-- From `s` on, with no further request: when `server_running` is false again
the loop has been left after exactly `n` calls of `exec_next` and one message.
Until then these calls are made in order and the loop is not left; there are only
so many steps until then, and some thread can always make the next. -/
def StopsAfter (n : Nat) (msg : Msg) (s : Server) : Prop :=
  ∀ ls s', Traces.exec step s ls = some s' →
    Traces.Steps step (fun s a => ¬ Arrives s a) s ls →
    (s'.ctl.serverRunning = false →
      s'.calls = s.ranCalls n ++ [.emuSendMsg msg] ∧ inLoop s'.emuAt = false) ∧
    (s'.ctl.serverRunning = true →
      s'.calls <+: s.ranCalls n ++ [.emuSendMsg msg] ∧
        (s'.calls ≠ s.calls → inLoop s'.emuAt = true) ∧
        ls.length ≤ 3 * n + 10 ∧ ∃ a, ¬ Arrives s' a ∧ (step s' a).isSome)

/-- From `s` on, with no further request: `exec_next` is called again and again,
and nothing else; the loop is not left. -/
def NeverStops (s : Server) : Prop :=
  ∀ ls s', Traces.exec step s ls = some s' →
    Traces.Steps step (fun s a => ¬ Arrives s a) s ls →
    s'.ctl.serverRunning = true ∧
      ∃ n, s'.calls = s.ranCalls n ∧ (s'.calls ≠ s.calls → inLoop s'.emuAt = true) ∧
        ls.length ≤ 3 * n + 10 ∧ ∃ a, ¬ Arrives s' a ∧ (step s' a).isSome

/-! ## The phases of the run -/

/-- `hit_breakpoint` stops the run after `n` instructions. -/
def Hits (s : Server) (n : Nat) : Prop :=
  (hitBreakpoint ((s.pcAfter n).setWidth 32) s.ctl).2.2 = true

/-- It did not do so before. -/
def Quiet (s : Server) (n : Nat) : Prop := ∀ k, 1 ≤ k → k ≤ n → ¬ s.Hits k

/-- The run from `start` has come to `s` by `n` instructions. -/
structure Ran (start : Server) (n : Nat) (s : Server) : Prop where
  emu : s.emu = execNext^[n] start.emu
  ctl : s.ctl = start.ctl
  calls : s.calls = start.ranCalls n
  settled : Settled s.reqAt

/-- The run has been stopped after `n` instructions. -/
structure Reported (start : Server) (n : Nat) (s : Server) : Prop where
  quiet : ∀ k, 1 ≤ k → k < n → ¬ start.Hits k
  hits : 1 ≤ n ∧ start.Hits n
  calls : s.calls = start.ranCalls n ++
    (hitBreakpoint ((start.pcAfter n).setWidth 32) start.ctl).2.1.map .emuSendMsg
  settled : Settled s.reqAt

/-- The phases of the run, `n` instructions into it. -/
inductive HitPhase (start : Server) (n : Nat) (s : Server) : Prop where
  | before : Ran start n s → start.Quiet n → beforeExec s.emuAt = true →
      (0 < n → s.emuAt = .exec) → (s.emuAt = .waiting → s.reqAt = .signal) → HitPhase start n s
  | after : Ran start n s → 1 ≤ n → (∀ k, 1 ≤ k → k < n → ¬ start.Hits k) →
      s.emuAt = .gotStop ∨ s.emuAt = .hit → HitPhase start n s
  | stopping : Reported start n s → s.ctl.serverRunning = true → s.emuAt = .stopExec →
      HitPhase start n s
  | done : Reported start n s → s.ctl.serverRunning = false → inLoop s.emuAt = false →
      HitPhase start n s

variable {start s s' : Server} {n : Nat}

theorem hitBreakpoint_none {addr : U32} {c : Control} (h : (hitBreakpoint addr c).2.2 = false) :
    hitBreakpoint addr c = (c, [], false) := by
  rw [hitBreakpoint_eq] at h ⊢
  split at h
  case isTrue => cases h
  case isFalse hn =>
    rw [if_neg hn]
    have hcases := hitAddress_cases addr c
    generalize hitAddress addr c = r at h hcases ⊢
    cases hcases with
    | untilAddress => cases h
    | breakpoint => cases h
    | nothing => rfl

theorem ranCalls_zero (s : Server) : s.ranCalls 0 = s.calls := List.append_nil _

theorem ranCalls_succ (s : Server) (n : Nat) :
    s.ranCalls (n + 1) = s.ranCalls n ++ [.execNext] := by
  rw [ranCalls, List.replicate_succ', ← List.append_assoc]
  rfl

theorem HitPhase.settled (h : HitPhase start n s) : Settled s.reqAt := by
  cases h with
  | before hran => exact hran.settled
  | after hran => exact hran.settled
  | stopping hrep => exact hrep.settled
  | done hrep => exact hrep.settled

/-- The signal of the request thread, and its return, stay in the phase. -/
theorem HitPhase.signal (h : HitPhase start n s) :
    HitPhase start n { s with emuAt := signalEmu s.emuAt, reqAt := .out } := by
  have hset : Settled .out := .inr (.inl rfl)
  cases h with
  | before hran hq hb hexec hw =>
      refine .before ⟨hran.emu, hran.ctl, hran.calls, hset⟩ hq
        ((beforeExec_signalEmu _).trans hb) (fun hn => ?_) fun hc => ?_
      · show signalEmu s.emuAt = .exec
        rw [hexec hn]
        rfl
      · exact absurd hc (signalEmu_ne_waiting _)
  | after hran hn hq he =>
      refine .after ⟨hran.emu, hran.ctl, hran.calls, hset⟩ hn hq ?_
      exact he.imp (fun he => by rw [he]; rfl) fun he => by rw [he]; rfl
  | stopping hrep hr he =>
      exact .stopping ⟨hrep.quiet, hrep.hits, hrep.calls, hset⟩ hr (by rw [he]; rfl)
  | done hrep hr hl =>
      exact .done ⟨hrep.quiet, hrep.hits, hrep.calls, hset⟩ hr ((inLoop_signalEmu _).trans hl)

theorem HitPhase.out (h : HitPhase start n s) (hp : s.reqAt = .out) :
    HitPhase start n { s with mtxServer := none, reqAt := .idle } := by
  have hset : Settled .idle := .inr (.inr rfl)
  cases h with
  | before hran hq hb hexec hw =>
      refine .before ⟨hran.emu, hran.ctl, hran.calls, hset⟩ hq hb hexec fun hc => ?_
      rw [hw hc] at hp
      cases hp
  | after hran hn hq he => exact .after ⟨hran.emu, hran.ctl, hran.calls, hset⟩ hn hq he
  | stopping hrep hr he => exact .stopping ⟨hrep.quiet, hrep.hits, hrep.calls, hset⟩ hr he
  | done hrep hr hl => exact .done ⟨hrep.quiet, hrep.hits, hrep.calls, hset⟩ hr hl

/-- A spurious wakeup of the emulation thread is before the first instruction,
or after the run. -/
theorem HitPhase.wakeEmu (h : HitPhase start n s) (hp : s.emuAt = .waiting) :
    HitPhase start n { s with emuAt := .woken } := by
  cases h with
  | before hran hq hb hexec hw =>
      refine .before ⟨hran.emu, hran.ctl, hran.calls, hran.settled⟩ hq rfl (fun hn => ?_) nofun
      cases hp.symm.trans (hexec hn)
  | after _ _ _ he =>
      rw [hp] at he
      rcases he with he | he <;> cases he
  | stopping _ _ he =>
      rw [hp] at he
      cases he
  | done hrep hr hl => exact .done ⟨hrep.quiet, hrep.hits, hrep.calls, hrep.settled⟩ hr rfl

/-- Whether an instruction is executed by this step of the emulation thread. -/
def executes (p : EmuPoint) : Nat := if p = .exec then 1 else 0

/-- The emulation thread on its way to an instruction, and the instruction. -/
theorem HitPhase.emuMove_before (hrun : start.ctl.serverRunning = true) (hran : Ran start n s)
    (hq : start.Quiet n) (hb : beforeExec s.emuAt = true) (hexec : 0 < n → s.emuAt = .exec)
    (hm : EmuMove s s') : HitPhase start (n + executes s.emuAt) s' := by
  -- outside the loop nothing has been executed
  have outside {p : EmuPoint} (hp : s.emuAt = p) (hne : p ≠ .exec) :
      n = 0 ∧ n + executes s.emuAt = n := by
    rw [hp, executes, if_neg hne]
    exact ⟨Nat.eq_zero_of_not_pos fun hn => hne (hp.symm.trans (hexec hn)), rfl⟩
  have along {p q : EmuPoint} {mtx : Option Thread} (hp : s.emuAt = p) (hne : p ≠ .exec)
      (hb : beforeExec q = true) (hw : q ≠ .waiting) :
      HitPhase start (n + executes s.emuAt) { s with mtxServer := mtx, emuAt := q } := by
    obtain ⟨hn, hsame⟩ := outside hp hne
    rw [hsame]
    exact .before ⟨hran.emu, hran.ctl, hran.calls, hran.settled⟩ hq hb
      (fun hpos => absurd hn (Nat.ne_of_gt hpos)) fun h => absurd h hw
  cases hm with
  | testWait hp ht =>
      rw [hran.ctl, hrun] at ht
      cases ht
  | exec hp =>
      rw [hp]
      refine .after ⟨?_, hran.ctl, ?_, hran.settled⟩ (Nat.le_add_left _ _) ?_ (.inl rfl)
      · rw [hran.emu]
        exact (Function.iterate_succ_apply' execNext n start.emu).symm
      · rw [hran.calls]
        exact (ranCalls_succ ..).symm
      · exact fun k hk hlt => hq k hk (Nat.le_of_lt_succ hlt)
  | stopRequested hp | notRequested hp | hit _ _ _ hp | stopExec hp =>
      rw [hp] at hb
      cases hb
  | signalEnd hp =>
      rw [hran.settled.signal]
      exact along hp nofun rfl nofun
  | lockTop hp | testRun hp | woken hp | unlockWait hp | unlockRun hp | lockEnd hp
  | unlockEnd hp => exact along hp nofun rfl nofun

/-- `server_should_stop_execution` after an instruction. -/
theorem HitPhase.emuMove_after (hrun : start.ctl.serverRunning = true)
    (hstop : start.ctl.serverStopRequest = false) (hran : Ran start n s) (hn : 1 ≤ n)
    (hq : ∀ k, 1 ≤ k → k < n → ¬ start.Hits k) (he : s.emuAt = .gotStop ∨ s.emuAt = .hit)
    (hm : EmuMove s s') : HitPhase start n s' := by
  cases hm with
  | notRequested hp =>
      exact .after ⟨hran.emu, hran.ctl, hran.calls, hran.settled⟩ hn hq (.inr rfl)
  | stopRequested hp ht =>
      rw [hran.ctl, hstop] at ht
      cases ht
  | hit ctl msgs ret hp hhit =>
      have hpc : s.pc = (start.pcAfter n).setWidth 32 := by
        rw [Server.pc, hran.emu]
        rfl
      rw [hpc, hran.ctl] at hhit
      cases ret with
      | false =>
          have hnone := hitBreakpoint_none (congrArg (fun r => r.2.2) hhit)
          rw [hnone] at hhit
          cases hhit
          have hmiss : ¬ start.Hits n := by
            rw [Hits, hnone]
            exact nofun
          refine .before ⟨hran.emu, rfl, (List.append_nil _).trans hran.calls, hran.settled⟩ ?_
            rfl (fun _ => rfl) nofun
          intro k hk hle
          rcases Nat.lt_or_eq_of_le hle with hlt | rfl
          · exact hq k hk hlt
          · exact hmiss
      | true =>
          have hhits : start.Hits n := by
            rw [Hits, hhit]
          have hframe := (hitBreakpoint_frame ((start.pcAfter n).setWidth 32) start.ctl).1
          rw [hhit] at hframe
          refine .stopping ⟨hq, ⟨hn, hhits⟩, ?_, hran.settled⟩ (hframe.trans hrun) rfl
          rw [hhit, hran.calls]
  | lockTop hp | testRun hp | testWait hp | woken hp | unlockWait hp | unlockRun hp | exec hp
  | stopExec hp | lockEnd hp | unlockEnd hp | signalEnd hp =>
      rw [hp] at he
      rcases he with he | he <;> cases he

/-- A step of the emulation thread goes through the phases. -/
theorem HitPhase.emuMove (hrun : start.ctl.serverRunning = true)
    (hstop : start.ctl.serverStopRequest = false) (h : HitPhase start n s) (hm : EmuMove s s') :
    HitPhase start (n + executes s.emuAt) s' := by
  have same (hne : s.emuAt ≠ .exec) : n + executes s.emuAt = n := by
    rw [executes, if_neg hne]
    rfl
  cases h with
  | before hran hq hb hexec hw => exact emuMove_before hrun hran hq hb hexec hm
  | after hran hn hq he =>
      rw [same (by rcases he with he | he <;> rw [he] <;> exact nofun)]
      exact emuMove_after hrun hstop hran hn hq he hm
  | stopping hrep hr he =>
      rw [same (by rw [he]; exact nofun)]
      cases hm with
      | stopExec hp => exact .done ⟨hrep.quiet, hrep.hits, hrep.calls, hrep.settled⟩ rfl rfl
      | lockTop hp | testRun hp | testWait hp | woken hp | unlockWait hp | unlockRun hp | exec hp
      | stopRequested hp | notRequested hp | hit _ _ _ hp | lockEnd hp | unlockEnd hp
      | signalEnd hp =>
          rw [hp] at he
          cases he
  | done hrep hr hl =>
      have hne : s.emuAt ≠ .exec := fun he => by
        rw [he] at hl
        cases hl
      rw [same hne]
      obtain ⟨hover, hcalls⟩ := Over.step ⟨hr, hrep.settled, hl⟩ (.emu _ hm)
      exact .done ⟨hrep.quiet, hrep.hits, hcalls.trans hrep.calls, hover.settled⟩ hover.running
        hover.outside

/-- **Every step but an arrival** goes through the phases. -/
theorem HitPhase.step (hrun : start.ctl.serverRunning = true)
    (hstop : start.ctl.serverStopRequest = false) (h : HitPhase start n s) {a : Label}
    (hno : ¬ Arrives s a) (hm : Move s a s') : ∃ n', HitPhase start n' s' := by
  cases h.settled.move hno hm with
  | emu _ hm => exact ⟨_, h.emuMove hrun hstop hm⟩
  | signal => exact ⟨n, h.signal⟩
  | out hp => exact ⟨n, h.out hp⟩
  | wakeEmu hp => exact ⟨n, h.wakeEmu hp⟩

/-! ## How long it takes -/

/-- How far the emulation thread is from its next test of the PC, or past it. -/
def hitRank : EmuPoint → Nat
  | .lockEnd => 8
  | .unlockEnd => 7
  | .signalEnd => 6
  | .waiting => 6
  | .woken => 5
  | .unlockWait => 4
  | .lockTop => 3
  | .testStopped => 2
  | .unlockRun => 1
  | .exec => 0
  | .gotStop => 2
  | .hit => 1
  | .stopExec => 0

/-- How far the session is from the next instruction of the run, or its end. -/
def distance (s : Server) : Nat := hitRank s.emuAt + reqRank s.reqAt

theorem distance_le (s : Server) : distance s ≤ 10 := by
  have he : hitRank s.emuAt ≤ 8 := by cases s.emuAt <;> decide
  have hr : reqRank s.reqAt ≤ 2 := by
    unfold reqRank
    split <;> decide
  exact Nat.add_le_add he hr

theorem hitRank_signalEmu (p : EmuPoint) : hitRank (signalEmu p) ≤ hitRank p := by
  cases p <;> decide

theorem HitPhase.no_stop_request (hstop : start.ctl.serverStopRequest = false)
    (h : HitPhase start n s) (he : s.emuAt = .gotStop) : s.ctl.serverStopRequest = false := by
  cases h with
  | before hran => exact hran.ctl ▸ hstop
  | after hran => exact hran.ctl ▸ hstop
  | stopping _ _ he' => cases he.symm.trans he'
  | done _ _ hl =>
      rw [he] at hl
      cases hl

/-- While execution runs, every step gets closer to the next instruction, or is
one. -/
theorem HitPhase.closer (hstop : start.ctl.serverStopRequest = false) (h : HitPhase start n s)
    (hr : s.ctl.serverRunning = true) {a : Label} (hno : ¬ Arrives s a) (hm : Move s a s')
    (hr' : s'.ctl.serverRunning = true) :
    distance s' + 3 * execs s < distance s + 3 * execs s' := by
  have hset := h.settled
  have along {p q : EmuPoint} (hp : s.emuAt = p) (hlt : hitRank q < hitRank p) :
      hitRank q + reqRank s.reqAt + 3 * execs s < distance s + 3 * execs s := by
    rw [distance, hp]
    omega
  rcases (hset.move hno hm).rank_lt hitRank_signalEmu (by decide) with hm | ⟨hcalls, hlt⟩
  · cases hm with
    | testWait hp ht =>
        rw [hr] at ht
        cases ht
    | exec hp =>
        have hexecs : (s.calls ++ [Call.execNext]).count .execNext = execs s + 1 := by
          rw [List.count_append]
          rfl
        show 2 + reqRank s.reqAt + 3 * execs s <
          distance s + 3 * (s.calls ++ [Call.execNext]).count .execNext
        rw [hexecs, distance, hp]
        show 2 + reqRank s.reqAt + 3 * execs s < 0 + reqRank s.reqAt + 3 * (execs s + 1)
        omega
    | stopRequested hp ht =>
        rw [h.no_stop_request hstop hp] at ht
        cases ht
    | hit ctl msgs ret hp hhit =>
        have hexecs := execs_send s.calls msgs
        have hzero : hitRank (if ret = true then EmuPoint.stopExec else .exec) = 0 := by
          cases ret <;> rfl
        show hitRank (if ret = true then EmuPoint.stopExec else .exec) + reqRank s.reqAt +
          3 * execs s < distance s + 3 * (s.calls ++ msgs.map Call.emuSendMsg).count .execNext
        rw [hexecs, hzero, distance, hp]
        show 0 + reqRank s.reqAt + 3 * execs s < 1 + reqRank s.reqAt + 3 * execs s
        omega
    | stopExec hp => cases hr'
    | signalEnd hp =>
        show hitRank .lockTop + reqRank (signalReq s.reqAt) + 3 * execs s < _
        rw [hset.signal]
        exact along hp (Nat.le_of_ble_eq_true rfl)
    | lockTop hp | testRun hp | woken hp | unlockWait hp | unlockRun hp | notRequested hp
    | lockEnd hp | unlockEnd hp => exact along hp (Nat.le_of_ble_eq_true rfl)
  · have hsame : execs s' = execs s := congrArg (List.count Call.execNext) hcalls
    rw [hsame]
    exact Nat.add_lt_add_right hlt _

/-! ## Runs -/

theorem ranCalls_execs (s : Server) (n : Nat) :
    (s.ranCalls n).count .execNext = execs s + n := by
  rw [ranCalls, List.count_append, List.count_replicate_self]
  rfl

theorem ranCalls_mono (s : Server) {m n : Nat} (h : m ≤ n) : s.ranCalls m <+: s.ranCalls n := by
  obtain ⟨k, rfl⟩ := Nat.exists_eq_add_of_le h
  refine ⟨List.replicate k .execNext, ?_⟩
  rw [ranCalls, ranCalls, List.append_assoc, List.replicate_append_replicate]

/-- Every call made so far belongs to the run. -/
theorem HitPhase.execs_eq (h : HitPhase start n s) : execs s = execs start + n := by
  have reported (hrep : Reported start n s) : execs s = execs start + n := by
    rw [execs, hrep.calls, execs_send]
    exact ranCalls_execs start n
  have ran (hran : Ran start n s) : execs s = execs start + n := by
    rw [execs, hran.calls]
    exact ranCalls_execs start n
  cases h with
  | before hran => exact ran hran
  | after hran => exact ran hran
  | stopping hrep => exact reported hrep
  | done hrep => exact reported hrep

/-- Between its first call and its stop, the run does not leave the loop. -/
theorem HitPhase.inside (h : HitPhase start n s) (hr : s.ctl.serverRunning = true)
    (hc : s.calls ≠ start.calls) : inLoop s.emuAt = true := by
  cases h with
  | before hran hq hb hexec hw =>
      have hn : 0 < n := by
        refine Nat.pos_of_ne_zero fun hn => hc ?_
        rw [hran.calls, hn, ranCalls_zero]
      rw [hexec hn]
      rfl
  | after _ _ _ he =>
      rcases he with he | he
      · rw [he]
        rfl
      · rw [he]
        rfl
  | stopping _ _ he =>
      rw [he]
      rfl
  | done _ hf =>
      rw [hf] at hr
      cases hr

theorem HitPhase.enabled (h : HitPhase start n s) (ho : Owned s)
    (hr : s.ctl.serverRunning = true) : ∃ a, ¬ Arrives s a ∧ (s.step a).isSome := by
  refine enabled_of_settled h.settled ho hr fun hw => ?_
  cases h with
  | before _ _ _ _ hsig => exact hsig hw
  | after _ _ _ he =>
      rw [hw] at he
      rcases he with he | he <;> cases he
  | stopping _ _ he =>
      rw [hw] at he
      cases he
  | done _ hf =>
      rw [hf] at hr
      cases hr

/-- When `server_running` is false, the run is over and has been reported. -/
theorem HitPhase.finished (hrun : start.ctl.serverRunning = true) (h : HitPhase start n s)
    (hf : s.ctl.serverRunning = false) : Reported start n s ∧ Over s := by
  cases h with
  | before hran | after hran =>
      rw [hran.ctl, hrun] at hf
      cases hf
  | stopping _ hr =>
      rw [hr] at hf
      cases hf
  | done hrep hf hl => exact ⟨hrep, hf, hrep.settled, hl⟩

/-- What holds at the end of a run that no request disturbs. -/
theorem HitPhase.exec (hrun : start.ctl.serverRunning = true)
    (hstop : start.ctl.serverStopRequest = false) (h : HitPhase start 0 start) (ho : Owned start)
    {ls : List Label} (hexec : Traces.exec Server.step start ls = some s)
    (hno : Traces.Steps Server.step (fun s a => ¬ Arrives s a) start ls) :
    ∃ n, HitPhase start n s ∧
      (s.ctl.serverRunning = true → ls.length ≤ 3 * n + 10 ∧
        ∃ a, ¬ Arrives s a ∧ (s.step a).isSome) := by
  have hstep : ∀ s a s', (∃ n, HitPhase start n s) → ¬ Arrives s a → s.step a = some s' →
      ∃ n, HitPhase start n s' := by
    rintro s a s' ⟨n, hs⟩ hc hstep
    exact hs.step hrun hstop hc (step_cases hstep)
  obtain ⟨n, hphase⟩ : ∃ n, HitPhase start n s := Traces.inv_exec hstep ⟨0, h⟩ hexec hno
  have howned : Owned s :=
    Traces.inv_exec_all (fun s a s' hs hstep => hs.step (step_cases hstep)) ho hexec
  have hlength : Over s ∨
      ls.length + distance s + 3 * execs start ≤ distance start + 3 * execs s := by
    refine Traces.length_exec_counted (κ := fun m => 3 * execs m)
      (I := fun m => (∃ n, HitPhase start n m) ∧ m.ctl.serverRunning = true)
      (fun m a m' hm hc hs => (hm.step (hm.settled.move hc (step_cases hs))).1) ?_ ⟨⟨0, h⟩, hrun⟩ hexec hno
    rintro m a m' ⟨⟨k, hm⟩, hmr⟩ hc hs
    obtain ⟨k', hm'⟩ := hstep m a m' ⟨k, hm⟩ hc hs
    rcases Bool.eq_false_or_eq_true m'.ctl.serverRunning with ht | hf
    · exact .inr ⟨⟨⟨k', hm'⟩, ht⟩, hm.closer hstop hmr hc (step_cases hs) ht⟩
    · exact .inl (hm'.finished hrun hf).2
  refine ⟨n, hphase, fun hr => ⟨?_, hphase.enabled howned hr⟩⟩
  rcases hlength with hover | hle
  · rw [hover.running] at hr
    cases hr
  · have hdist := distance_le start
    rw [hphase.execs_eq] at hle
    omega

/-- No instruction is executed beyond the first that is hit, and only that one is reported. -/
theorem HitPhase.calls_eq {N : Nat} (hN : IsLeast {n | 1 ≤ n ∧ start.Hits n} N)
    (h : HitPhase start n s) :
    n ≤ N ∧ (s.calls = start.ranCalls n ∨ n = N ∧ s.calls = start.ranCalls N ++
      (hitBreakpoint ((start.pcAfter N).setWidth 32) start.ctl).2.1.map .emuSendMsg) := by
  obtain ⟨⟨hpos, hhits⟩, hleast⟩ := hN
  have before (hq : ∀ k, 1 ≤ k → k < n → ¬ start.Hits k) : n ≤ N :=
    Nat.le_of_not_lt fun hlt => hq N hpos hlt hhits
  have reported (hrep : Reported start n s) : n = N ∧ s.calls = start.ranCalls N ++
      (hitBreakpoint ((start.pcAfter N).setWidth 32) start.ctl).2.1.map .emuSendMsg := by
    obtain rfl := Nat.le_antisymm (before hrep.quiet) (hleast hrep.hits)
    exact ⟨rfl, hrep.calls⟩
  cases h with
  | before hran hq => exact ⟨before fun k hk hlt => hq k hk (Nat.le_of_lt hlt), .inl hran.calls⟩
  | after hran _ hq => exact ⟨before hq, .inl hran.calls⟩
  | stopping hrep => exact ⟨before hrep.quiet, .inr (reported hrep)⟩
  | done hrep => exact ⟨before hrep.quiet, .inr (reported hrep)⟩

/-- The run ends at the first hit. -/
theorem HitPhase.stopsAfter {N : Nat} {msg : Msg} (hrun : start.ctl.serverRunning = true)
    (hstop : start.ctl.serverStopRequest = false) (h : HitPhase start 0 start) (ho : Owned start)
    (hN : IsLeast {n | 1 ≤ n ∧ start.Hits n} N)
    (hmsg : (hitBreakpoint ((start.pcAfter N).setWidth 32) start.ctl).2.1 = [msg]) :
    StopsAfter N msg start := by
  intro ls s' hexec hno
  obtain ⟨n, hphase, hlive⟩ := h.exec hrun hstop ho hexec hno
  obtain ⟨hle, hcalls⟩ := hphase.calls_eq hN
  rw [hmsg] at hcalls
  constructor
  · intro hf
    obtain ⟨hrep, hover⟩ := hphase.finished hrun hf
    obtain rfl : n = N := Nat.le_antisymm hle (hN.2 hrep.hits)
    refine ⟨?_, hover.outside⟩
    rw [hrep.calls, hmsg]
    rfl
  · intro hr
    obtain ⟨hlength, henabled⟩ := hlive hr
    refine ⟨?_, hphase.inside hr, by omega, henabled⟩
    rcases hcalls with hc | ⟨-, hc⟩
    · rw [hc]
      exact (ranCalls_mono start hle).trans (List.prefix_append ..)
    · rw [hc]
      exact List.prefix_rfl

/-- Without one it goes on. -/
theorem HitPhase.neverStops (hrun : start.ctl.serverRunning = true)
    (hstop : start.ctl.serverStopRequest = false) (h : HitPhase start 0 start) (ho : Owned start)
    (hnone : ∀ n, 1 ≤ n → ¬ start.Hits n) : NeverStops start := by
  intro ls s' hexec hno
  obtain ⟨n, hphase, hlive⟩ := h.exec hrun hstop ho hexec hno
  have hr : s'.ctl.serverRunning = true := by
    refine Bool.eq_true_of_not_eq_false fun hf => ?_
    obtain ⟨hrep, -⟩ := hphase.finished hrun hf
    exact hnone n hrep.hits.1 hrep.hits.2
  have hcalls : s'.calls = start.ranCalls n := by
    cases hphase with
    | before hran | after hran => exact hran.calls
    | stopping hrep | done hrep => exact absurd hrep.hits.2 (hnone n hrep.hits.1)
  obtain ⟨hlength, henabled⟩ := hlive hr
  exact ⟨hr, n, hcalls, hphase.inside hr, hlength, henabled⟩

/-! ## When a request is accepted -/

/-- A run that MONITOR_STOP has ended, and that is not over, has a stop request,
or is about to. -/
def StopPending (s : Server) : Prop :=
  inLoop s.emuAt = true → s.ctl.serverRunning = false →
    s.reqAt = .setStop ∨ s.reqAt = .stopLocked ∨ s.ctl.serverStopRequest = true

theorem StopPending.emuMove (h : StopPending s) (hm : EmuMove s s') : StopPending s' := by
  -- inside the loop before, and inside after
  have along {p q : EmuPoint} (hp : s.emuAt = p) (hpq : inLoop q = true → inLoop p = true)
      (hl : inLoop q = true) : inLoop s.emuAt = true := hp ▸ hpq hl
  cases hm with
  | testRun hp ht =>
      intro _ hf
      cases ht.symm.trans hf
  | unlockRun hp => exact fun hl => h (along hp (fun _ => rfl) hl)
  | exec hp => exact fun hl => h (along hp (fun _ => rfl) hl)
  | notRequested hp => exact fun hl => h (along hp (fun _ => rfl) hl)
  | hit ctl msgs ret hp hhit =>
      intro _ hf
      obtain ⟨hr, hs⟩ := hitBreakpoint_frame s.pc s.ctl
      rw [hhit] at hr hs
      have hpending := h (by rw [hp]; rfl) (hr.symm.trans hf)
      rw [← hs] at hpending
      exact hpending
  | lockTop | testWait | woken | unlockWait | stopRequested | stopExec | lockEnd | unlockEnd
  | signalEnd => exact nofun

theorem StopPending.reqMove (h : StopPending s) (hm : ReqMove s s') : StopPending s' := by
  -- away from `set_stop_request` the stop request is there
  have there {p : ReqPoint} (hp : s.reqAt = p) (h₁ : p ≠ .setStop) (h₂ : p ≠ .stopLocked)
      (hl : inLoop s.emuAt = true) (hf : s.ctl.serverRunning = false) :
      s.ctl.serverStopRequest = true := by
    rcases h hl hf with hc | hc | hs
    · exact absurd (hp.symm.trans hc) h₁
    · exact absurd (hp.symm.trans hc) h₂
    · exact hs
  cases hm with
  | lock hp | accept _ hp | reject _ hp | doWait hp | woken hp | out hp =>
      exact fun hl hf => .inr (.inr (there hp nofun nofun hl hf))
  | other _ _ hp => exact fun hl hf => .inr (.inr (there hp nofun nofun hl hf))
  | signal hp =>
      exact fun hl hf => .inr (.inr (there hp nofun nofun ((inLoop_signalEmu _).symm.trans hl) hf))
  | controlFlow req ctl hp hctl =>
      intro hl hf
      cases hstarts : startsRun (.controlFlow req) with
      | true => cases (dispatchControlFlow_running hstarts hctl).symm.trans hf
      | false =>
          obtain ⟨list, rfl⟩ := dispatchControlFlow_list hstarts hctl
          exact .inr (.inr (there hp nofun nofun hl hf))
  | stop => exact fun _ _ => .inl rfl
  | resume => exact fun _ => nofun
  | setStop => exact fun _ _ => .inr (.inl rfl)
  | stopLocked => exact fun _ _ => .inr (.inr rfl)

theorem StopPending.step {a : Label} (h : StopPending s) (hm : Move s a s') : StopPending s' := by
  cases hm with
  | emu _ hm => exact h.emuMove hm
  | req _ hm => exact h.reqMove hm
  | recv req hp | recvFail hp | wakeReq hp =>
      intro hl hf
      have hpending := h hl hf
      rw [hp] at hpending
      exact .inr (.inr ((hpending.resolve_left nofun).resolve_left nofun))
  | wakeEmu => exact nofun

theorem hitBreakpoint_list (addr : U32) (c : Control) :
    (hitBreakpoint addr c).1.breakpointList = c.breakpointList := by
  have haddr : (hitAddress addr c).1.breakpointList = c.breakpointList := by
    have hcases := hitAddress_cases addr c
    generalize hitAddress addr c = r at hcases ⊢
    cases hcases with
    | untilAddress | breakpoint | nothing => rfl
  rw [hitBreakpoint_eq]
  split
  · exact haddr
  · exact haddr

/-- The breakpoints stay addresses of 32 bits. -/
theorem holdsAddrs_step {a : Label} (h : HoldsAddrs s.ctl.breakpointList) (hm : Move s a s') :
    HoldsAddrs s'.ctl.breakpointList := by
  cases hm with
  | emu _ hm =>
      cases hm with
      | hit ctl msgs ret hp hhit =>
          have hlist := hitBreakpoint_list s.pc s.ctl
          rw [hhit] at hlist
          exact hlist ▸ h
      | _ => exact h
  | req _ hm =>
      cases hm with
      | controlFlow req ctl hp hctl => exact dispatchControlFlow_holdsAddrs h hctl
      | _ => exact h
  | recv | recvFail | wakeEmu | wakeReq => exact h

theorem atBreakpoint_iff {c : Control} (h : HoldsAddrs c.breakpointList) (pc : U16) :
    atBreakpoint (pc.setWidth 32) c = true ↔ pc.setWidth 64 ∈ listForEach c.breakpointList := by
  rw [atBreakpoint, List.any_eq_true]
  constructor
  · rintro ⟨item, hitem, heq⟩
    obtain ⟨addr, rfl⟩ := h item hitem
    have haddr : (addr.setWidth 64).setWidth 32 = pc.setWidth 32 := beq_iff_eq.mp heq
    have hsame : pc.setWidth 64 = addr.setWidth 64 := by bv_omega
    exact hsame ▸ hitem
  · intro hmem
    refine ⟨_, hmem, beq_iff_eq.mpr ?_⟩
    bv_omega

/-- The flags in the run of a CONTINUE or an UNTIL. -/
structure Seeks (req : ControlFlow) (c : Control) : Prop where
  next : c.controlFlowNext = false
  flag : c.controlFlowContinue = true ∨ c.controlFlowUntil = true
  until_iff : ∀ pc : U16, c.controlFlowUntil = true ∧ atUntil (pc.setWidth 32) c = true ↔
    ∃ addr, req = .flowUntil addr ∧ pc = addr.setWidth 16

theorem stopMsg_until {req : ControlFlow} {pc : U16}
    (h : ∃ addr, req = .flowUntil addr ∧ pc = addr.setWidth 16) :
    stopMsg req pc = .flowUntil (pc.setWidth 32) := by
  obtain ⟨addr, rfl, hpc⟩ := h
  exact if_pos hpc

theorem stopMsg_break {req : ControlFlow} {pc : U16}
    (h : ¬ ∃ addr, req = .flowUntil addr ∧ pc = addr.setWidth 16) :
    stopMsg req pc = .flowBreak (pc.setWidth 32) := by
  unfold stopMsg
  split
  case h_1 addr => exact if_neg fun hpc => h ⟨addr, rfl, hpc⟩
  case h_2 => rfl

/-- `hit_breakpoint` in such a run. -/
theorem Seeks.hitBreakpoint {req : ControlFlow} {c : Control} (h : Seeks req c)
    (hlist : HoldsAddrs c.breakpointList) (pc : U16) :
    ((hitBreakpoint (pc.setWidth 32) c).2.2 = true ↔
        StopsAt req (listForEach c.breakpointList) pc) ∧
      ((hitBreakpoint (pc.setWidth 32) c).2.2 = true →
        (hitBreakpoint (pc.setWidth 32) c).2.1 = [stopMsg req pc]) := by
  have hfound := atBreakpoint_iff hlist pc
  have huntil := h.until_iff pc
  have hcases := hitAddress_cases (pc.setWidth 32) c
  rw [hitBreakpoint_eq, if_neg (Bool.eq_false_iff.mp h.next)]
  generalize hitAddress (pc.setWidth 32) c = r at hcases ⊢
  -- short of the until address
  have short (hu : c.controlFlowUntil = true → atUntil (pc.setWidth 32) c = false) :
      ¬ ∃ addr, req = .flowUntil addr ∧ pc = addr.setWidth 16 := fun hat => by
    obtain ⟨ht, ha⟩ := huntil.mpr hat
    cases (hu ht).symm.trans ha
  cases hcases with
  | untilAddress hu ha =>
      have hat := huntil.mp ⟨hu, ha⟩
      exact ⟨iff_of_true rfl (.inr hat), fun _ => by rw [stopMsg_until hat]⟩
  | breakpoint _ hb hu =>
      exact ⟨iff_of_true rfl (.inl (hfound.mp hb)), fun _ => by rw [stopMsg_break (short hu)]⟩
  | nothing hb hu =>
      refine ⟨iff_of_false nofun ?_, nofun⟩
      rintro (hmem | hat)
      · cases (hb h.flag).symm.trans (hfound.mpr hmem)
      · exact short hu hat

/-- An accepted CONTINUE or UNTIL sets its flag, and finds none that outlasts its run. -/
theorem seeks_accepted {req : ControlFlow} {c c' : Control}
    (hreq : req = .flowContinue ∨ ∃ addr, req = .flowUntil addr)
    (hflags : otherFlags (.controlFlow req) c = false)
    (hc : dispatchControlFlow req c = some c') :
    Seeks req c' ∧ c'.breakpointList = c.breakpointList ∧
      c'.serverStopRequest = c.serverStopRequest := by
  rcases hreq with rfl | ⟨addr, rfl⟩
  · obtain ⟨hu, hn⟩ := Bool.or_eq_false_iff.mp hflags
    obtain rfl := Option.some.inj hc
    refine ⟨⟨hn, .inl rfl, fun pc => iff_of_false ?_ ?_⟩, rfl, rfl⟩
    · rintro ⟨ht, -⟩
      cases hu.symm.trans ht
    · rintro ⟨addr, hreq, -⟩
      cases hreq
  · obtain rfl := Option.some.inj hc
    refine ⟨⟨hflags, .inr rfl, fun pc => ?_⟩, rfl, rfl⟩
    have hat : atUntil (pc.setWidth 32) (handleControlFlowUntil addr c) = true ↔
        pc = addr.setWidth 16 := by
      show ((addr.setWidth 16).setWidth 32 == pc.setWidth 32) = true ↔ _
      rw [beq_iff_eq]
      bv_omega
    constructor
    · exact fun ⟨_, h⟩ => ⟨addr, rfl, hat.mp h⟩
    · rintro ⟨addr', hreq, hpc⟩
      cases hreq
      exact ⟨rfl, hat.mpr hpc⟩

theorem step_controlFlow {req : ControlFlow} (hdispatch : s.reqAt = .dispatch (.controlFlow req))
    (hstep : step s .req = some s') : ∃ ctl, dispatchControlFlow req s.ctl = some ctl ∧
      s' = { s with
        ctl := ctl, calls := s.calls ++ [.dispatch (.controlFlow req)], reqAt := .signal } := by
  have h : step s .req = s.dispatchStep (.controlFlow req) := by
    simp only [step, reqStep, hdispatch]
  rw [h] at hstep
  obtain ⟨ctl, hctl, rfl⟩ := Option.map_eq_some_iff.mp hstep
  exact ⟨ctl, hctl, rfl⟩

/-- A request that starts a run, with no stop request, finds the emulation thread
outside its loop. -/
theorem outside_of_no_stop_request {mem : Nat → U64} {emu : Emu} {ls : List Label} {req : Request}
    (hrun : Runs mem emu ls s) (hdispatch : s.reqAt = .dispatch req)
    (hstarts : startsRun req = true) (hstop : s.ctl.serverStopRequest = false) :
    inLoop s.emuAt = false ∧ HoldsAddrs s.ctl.breakpointList := by
  have hinit : StopPending (serverInit mem emu) ∧ Accepted (serverInit mem emu) ∧
      HoldsAddrs (serverInit mem emu).ctl.breakpointList :=
    ⟨nofun, nofun, fun item hitem => absurd hitem List.not_mem_nil⟩
  have hinv : StopPending s ∧ Accepted s ∧ HoldsAddrs s.ctl.breakpointList := by
    refine Traces.inv_exec_all
      (I := fun s => StopPending s ∧ Accepted s ∧ HoldsAddrs s.ctl.breakpointList) ?_ hinit hrun
    rintro s a s' ⟨hp, ha, hlist⟩ hstep
    have hm := step_cases hstep
    exact ⟨hp.step hm, ha.step hm, holdsAddrs_step hlist hm⟩
  obtain ⟨hpending, haccepted, hlist⟩ := hinv
  refine ⟨Bool.eq_false_iff.mpr fun hl => ?_, hlist⟩
  have h := hpending hl (haccepted req hdispatch hstarts)
  rw [hdispatch, hstop] at h
  exact absurd h (by simp)

/-- **CONTINUE and UNTIL stop at the first hit**, and where there is none they do
not stop. -/
theorem stops_at_first_hit (mem : Nat → U64) (emu : Emu) (ls : List Label) (s s' : Server)
    (req : ControlFlow) (hrun : Runs mem emu ls s)
    (hreq : req = .flowContinue ∨ ∃ addr, req = .flowUntil addr)
    (hdispatch : s.reqAt = .dispatch (.controlFlow req))
    (hflags : otherFlags (.controlFlow req) s.ctl = false)
    (hstop : s.ctl.serverStopRequest = false) (hstep : step s .req = some s') :
    (∀ n, IsLeast {n | 1 ≤ n ∧ StopsAt req (listForEach s.ctl.breakpointList) (s.pcAfter n)} n →
        StopsAfter n (stopMsg req (s.pcAfter n)) s') ∧
      ((∀ n, 1 ≤ n → ¬ StopsAt req (listForEach s.ctl.breakpointList) (s.pcAfter n)) →
        NeverStops s') := by
  have hstarts : startsRun (.controlFlow req) = true := by
    rcases hreq with rfl | ⟨addr, rfl⟩
    · rfl
    · rfl
  obtain ⟨houtside, hlist⟩ := outside_of_no_stop_request hrun hdispatch hstarts hstop
  obtain ⟨ctl, hctl, hs'⟩ := step_controlFlow hdispatch hstep
  obtain ⟨hseeks, hsame, hrequest⟩ := seeks_accepted hreq hflags hctl
  have ho : Owned s' := (owned_of_runs hrun).step (step_cases hstep)
  have hr : s'.ctl.serverRunning = true := hs' ▸ dispatchControlFlow_running hstarts hctl
  have hs : s'.ctl.serverStopRequest = false := hs' ▸ hrequest.trans hstop
  have hphase : HitPhase s' 0 s' := by
    refine .before ⟨rfl, rfl, (ranCalls_zero s').symm, hs' ▸ .inl rfl⟩
      (fun k hk hle => absurd (hk.trans hle) (by decide)) ?_ (fun h => absurd h (by decide)) ?_
    · rw [hs']
      exact beforeExec_of_outside houtside
    · exact fun _ => hs' ▸ rfl
  have hhit (n : Nat) : (s'.Hits n ↔
        StopsAt req (listForEach s.ctl.breakpointList) (s.pcAfter n)) ∧
      (s'.Hits n → (hitBreakpoint ((s'.pcAfter n).setWidth 32) s'.ctl).2.1 =
        [stopMsg req (s.pcAfter n)]) := by
    have h := hseeks.hitBreakpoint (hsame ▸ hlist) (s.pcAfter n)
    rw [hsame] at h
    rw [Hits, hs']
    exact h
  constructor
  · intro n hn
    have hleast : IsLeast {n | 1 ≤ n ∧ s'.Hits n} n := by
      have hset : {n | 1 ≤ n ∧ s'.Hits n} =
          {n | 1 ≤ n ∧ StopsAt req (listForEach s.ctl.breakpointList) (s.pcAfter n)} :=
        Set.ext fun k => and_congr_right fun _ => (hhit k).1
      exact hset ▸ hn
    exact hphase.stopsAfter hr hs ho hleast ((hhit n).2 hleast.1.2)
  · exact fun hnone => hphase.neverStops hr hs ho fun n hpos h => hnone n hpos ((hhit n).1.mp h)

/-- An UNTIL to 0x10002 with the breakpoint 0x0002 set twice, up to its dispatch. -/
def untilBreakpoint : List Label :=
  [.emu, .emu] ++ request (.flowBreak 2) ++ request (.flowBreak 2) ++
    [.req, .recv (some (.controlFlow (.flowUntil 0x10002))), .req]

/-- A CONTINUE without breakpoints, up to its dispatch. -/
def continueAlone : List Label :=
  [.emu, .emu, .req, .recv (some (.controlFlow .flowContinue)), .req]

/-- The one stops after two instructions, at its address, the other does not stop. -/
theorem stops_at_first_hit_until :
    (∃ s s', Runs (fun _ => 0) (powerOn #[] #[]) untilBreakpoint s ∧ step s .req = some s' ∧
      StopsAfter 2 (.flowUntil 2) s') ∧
    ∃ s s', Runs (fun _ => 0) (powerOn #[] #[]) continueAlone s ∧ step s .req = some s' ∧
      NeverStops s' := by
  constructor
  · obtain ⟨s, hs, hdispatch, hflags, hstop, hlist, hone, htwo, hstep⟩ := runs_of_any
      (P := fun s : Server => s.reqAt = .dispatch (.controlFlow (.flowUntil 0x10002)) ∧
        otherFlags (.controlFlow (.flowUntil 0x10002)) s.ctl = false ∧
        s.ctl.serverStopRequest = false ∧ listForEach s.ctl.breakpointList = [2, 2] ∧
        s.pcAfter 1 = 1 ∧ s.pcAfter 2 = 2 ∧ (step s .req).isSome)
      (fun _ => 0) (powerOn #[] #[]) untilBreakpoint (by decide +kernel)
    obtain ⟨s', hs'⟩ := Option.isSome_iff_exists.mp hstep
    obtain ⟨hstops, -⟩ := stops_at_first_hit _ _ _ s s' (.flowUntil 0x10002) hs (.inr ⟨_, rfl⟩)
      hdispatch hflags hstop hs'
    have hstops := hstops 2
    rw [htwo] at hstops
    refine ⟨s, s', hs, hs', hstops ⟨⟨by decide, ?_⟩, ?_⟩⟩
    · rw [htwo]
      exact .inr ⟨_, rfl, rfl⟩
    · rintro n ⟨hpos, hn⟩
      refine Nat.lt_of_le_of_ne hpos ?_
      rintro rfl
      rw [hlist, hone] at hn
      rcases hn with hmem | ⟨addr, haddr, hpc⟩
      · exact absurd hmem (by decide)
      · cases haddr
        exact absurd hpc (by decide)
  · obtain ⟨s, hs, hdispatch, hflags, hstop, hlist, hstep⟩ := runs_of_any
      (P := fun s : Server => s.reqAt = .dispatch (.controlFlow .flowContinue) ∧
        otherFlags (.controlFlow .flowContinue) s.ctl = false ∧
        s.ctl.serverStopRequest = false ∧ listForEach s.ctl.breakpointList = [] ∧
        (step s .req).isSome)
      (fun _ => 0) (powerOn #[] #[]) continueAlone (by decide +kernel)
    obtain ⟨s', hs'⟩ := Option.isSome_iff_exists.mp hstep
    obtain ⟨-, hnever⟩ := stops_at_first_hit _ _ _ s s' .flowContinue hs (.inl rfl)
      hdispatch hflags hstop hs'
    refine ⟨s, s', hs, hs', hnever fun n _ hn => ?_⟩
    rw [hlist] at hn
    rcases hn with hmem | ⟨_, hreq, -⟩
    · exact absurd hmem List.not_mem_nil
    · cases hreq

end Server

end RealBoy
