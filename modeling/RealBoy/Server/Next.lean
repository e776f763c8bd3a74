/-
# `RealBoy.Server.Next` — NEXT is one instruction

A NEXT that is accepted while execution is stopped sets `control_flow_next` and
lets the emulation thread go; `hit_breakpoint` clears the flag after one
`exec_next`.  But `server_should_stop_execution` asks `got_stop_request` first:
a `server_stop_request` left over from a MONITOR_STOP that crossed an earlier
stop ends the run without `hit_breakpoint` and without `stop_execution`, and
the loop of `monitor_run` comes round for a second `exec_next`.
`nextOnce_iff` says that this is the only way.
-/
import RealBoy.Emu.Run
import RealBoy.Server.Protocol

namespace RealBoy

namespace Server

/-- The emulation thread is in its inner loop, or about to enter it. -/
def inLoop : EmuPoint → Bool
  | .unlockRun | .exec | .gotStop | .hit | .stopExec => true
  | _ => false

/-- Execution has stopped. -/
def Stopped (s : Server) : Prop := s.ctl.serverRunning = false ∧ inLoop s.emuAt = false

instance : DecidablePred Stopped := fun _ => inferInstanceAs (Decidable (_ ∧ _))

/-- A request arrives: the request thread is called. -/
def Arrives (s : Server) (a : Label) : Prop := a = .req ∧ s.reqAt = .idle

instance (s : Server) (a : Label) : Decidable (Arrives s a) := inferInstanceAs (Decidable (_ ∧ _))

/-- The calls of `exec_next` so far. -/
def execs (s : Server) : Nat := s.calls.count .execNext

/-- From `s` on, with no further request: when `server_running` is false again
there has been exactly one `exec_next`; until then at most one, within a few
steps, and never with all threads stuck. -/
def NextOnce (s : Server) : Prop :=
  ∀ ls s', Traces.exec step s ls = some s' →
    Traces.Steps step (fun s a => ¬ Arrives s a) s ls →
    (s'.ctl.serverRunning = false → execs s' = execs s + 1) ∧
      (s'.ctl.serverRunning = true → execs s' ≤ execs s + 1 ∧ ls.length ≤ 13 ∧
        ∃ a, ¬ Arrives s' a ∧ (step s' a).isSome)

/-! ## The phases of the run -/

/-- The request thread is done with the NEXT, or about to be. -/
def Settled (p : ReqPoint) : Prop := p = .signal ∨ p = .out ∨ p = .idle

/-- Before the `exec_next`. -/
def beforeExec : EmuPoint → Bool
  | .gotStop | .hit | .stopExec => false
  | _ => true

/-- The run that a NEXT started, `n` calls of `exec_next` before it, is over. -/
structure NextDone (n : Nat) (s : Server) : Prop where
  execs : execs s = n + 1
  running : s.ctl.serverRunning = false
  settled : Settled s.reqAt
  outside : inLoop s.emuAt = false

/-- The phases of that run. -/
inductive NextPhase (n : Nat) (s : Server) : Prop where
  | before : execs s = n → s.ctl.serverRunning = true → s.ctl.controlFlowNext = true →
      s.ctl.serverStopRequest = false → Settled s.reqAt → beforeExec s.emuAt = true →
      (s.emuAt = .waiting → s.reqAt = .signal) → NextPhase n s
  | after : execs s = n + 1 → s.ctl.serverRunning = true → s.ctl.controlFlowNext = true →
      s.ctl.serverStopRequest = false → Settled s.reqAt → s.emuAt = .gotStop ∨ s.emuAt = .hit →
      NextPhase n s
  | stopping : execs s = n + 1 → s.ctl.serverRunning = true → Settled s.reqAt →
      s.emuAt = .stopExec → NextPhase n s
  | done : NextDone n s → NextPhase n s

theorem Settled.signal {p : ReqPoint} (h : Settled p) : signalReq p = p := by
  rcases h with rfl | rfl | rfl <;> rfl

variable {s s' : Server} {n : Nat}

/-- The steps of a session whose request thread is done, or about to be. -/
inductive SettledMove (s : Server) : Server → Prop where
  | emu (s' : Server) : EmuMove s s' → SettledMove s s'
  | signal : s.reqAt = .signal →
      SettledMove s { s with emuAt := signalEmu s.emuAt, reqAt := .out }
  | out : s.reqAt = .out → SettledMove s { s with mtxServer := none, reqAt := .idle }
  | wakeEmu : s.emuAt = .waiting → SettledMove s { s with emuAt := .woken }

/-- With no request arriving, the request thread signals and leaves. -/
theorem Settled.move (h : Settled s.reqAt) {a : Label} (hno : ¬ Arrives s a) (hm : Move s a s') :
    SettledMove s s' := by
  have clash {p : ReqPoint} (hp : s.reqAt = p) (h₁ : p ≠ .signal) (h₂ : p ≠ .out)
      (h₃ : p ≠ .idle) : False := by
    rcases h with h | h | h
    · exact h₁ (hp.symm.trans h)
    · exact h₂ (hp.symm.trans h)
    · exact h₃ (hp.symm.trans h)
  cases hm with
  | emu _ hm => exact .emu _ hm
  | recv req hp | recvFail hp | wakeReq hp => exact (clash hp nofun nofun nofun).elim
  | wakeEmu hp => exact .wakeEmu hp
  | req _ hm =>
      cases hm with
      | signal hp => exact .signal hp
      | out hp => exact .out hp
      | lock hp => exact absurd ⟨rfl, hp⟩ hno
      | accept req hp | reject req hp | controlFlow req ctl hp | other req calls hp =>
          exact (clash hp nofun nofun nofun).elim
      | stop hp | resume hp | setStop hp | stopLocked hp | doWait hp | woken hp =>
          exact (clash hp nofun nofun nofun).elim

theorem beforeExec_signalEmu (p : EmuPoint) : beforeExec (signalEmu p) = beforeExec p := by
  cases p <;> rfl

theorem beforeExec_of_outside {p : EmuPoint} (h : inLoop p = false) : beforeExec p = true := by
  cases p with
  | gotStop | hit | stopExec => cases h
  | _ => rfl

theorem inLoop_signalEmu (p : EmuPoint) : inLoop (signalEmu p) = inLoop p := by
  cases p <;> rfl

/-- Execution has stopped, and the request thread is done. -/
structure Over (s : Server) : Prop where
  running : s.ctl.serverRunning = false
  settled : Settled s.reqAt
  outside : inLoop s.emuAt = false

/-- Once a run is over, it stays over, and no call is made. -/
theorem Over.step (h : Over s) (hm : SettledMove s s') : Over s' ∧ s'.calls = s.calls := by
  obtain ⟨hr, hset, hl⟩ := h
  cases hm with
  | emu _ hm =>
      cases hm with
      | testRun hp ht =>
          rw [hr] at ht
          cases ht
      | signalEnd hp => exact ⟨⟨hr, hset.signal.symm ▸ hset, rfl⟩, rfl⟩
      | unlockRun hp | exec hp | stopRequested hp | notRequested hp | hit _ _ _ hp | stopExec hp =>
          rw [hp] at hl
          cases hl
      | _ => exact ⟨⟨hr, hset, rfl⟩, rfl⟩
  | signal => exact ⟨⟨hr, .inr (.inl rfl), (inLoop_signalEmu _).trans hl⟩, rfl⟩
  | out => exact ⟨⟨hr, .inr (.inr rfl), hl⟩, rfl⟩
  | wakeEmu => exact ⟨⟨hr, hset, rfl⟩, rfl⟩

theorem NextDone.step (h : NextDone n s) (hm : SettledMove s s') : NextDone n s' := by
  obtain ⟨hover, hcalls⟩ := Over.step ⟨h.running, h.settled, h.outside⟩ hm
  exact ⟨(congrArg (List.count Call.execNext) hcalls).trans h.execs, hover.running, hover.settled,
    hover.outside⟩

/-- Sent messages are not calls of `exec_next`. -/
theorem execs_send (calls : List Call) (msgs : List Msg) :
    (calls ++ msgs.map Call.emuSendMsg).count .execNext = calls.count .execNext := by
  have hzero : (msgs.map Call.emuSendMsg).count .execNext = 0 := by
    refine List.count_eq_zero.mpr fun hm => ?_
    obtain ⟨msg, -, hc⟩ := List.mem_map.mp hm
    cases hc
  rw [List.count_append, hzero, Nat.add_zero]

/-- A step of the emulation thread goes through the phases. -/
theorem NextPhase.emuMove (h : NextPhase n s) (hm : EmuMove s s') : NextPhase n s' := by
  cases h with
  | before hn hr hf hs hset hb hw =>
      have hexec : (s.calls ++ [Call.execNext]).count .execNext = n + 1 := by
        rw [List.count_append]
        exact congrArg (· + 1) hn
      cases hm with
      | testWait hp ht =>
          rw [hr] at ht
          cases ht
      | exec hp => exact .after hexec hr hf hs hset (.inl rfl)
      | stopRequested hp | notRequested hp | hit _ _ _ hp | stopExec hp =>
          rw [hp] at hb
          cases hb
      | signalEnd hp => exact .before hn hr hf hs (hset.signal.symm ▸ hset) rfl nofun
      | _ => exact .before hn hr hf hs hset rfl nofun
  | after hn hr hf hs hset he =>
      cases hm with
      | notRequested hp => exact .after hn hr hf hs hset (.inr rfl)
      | stopRequested hp ht =>
          rw [hs] at ht
          cases ht
      | hit ctl msgs ret hp hhit =>
          -- `control_flow_next` is set, so this is the stop
          have hframe := (hitBreakpoint_frame s.pc s.ctl).1
          rw [hitBreakpoint_eq, if_pos hf] at hhit hframe
          cases hhit
          exact .stopping ((execs_send _ _).trans hn) (hframe.trans hr) hset rfl
      | lockTop hp | testRun hp | testWait hp | woken hp | unlockWait hp | unlockRun hp | exec hp
      | stopExec hp | lockEnd hp | unlockEnd hp | signalEnd hp =>
          rw [hp] at he
          rcases he with he | he <;> cases he
  | stopping hn hr hset he =>
      cases hm with
      | stopExec hp => exact .done ⟨hn, rfl, hset, rfl⟩
      | lockTop hp | testRun hp | testWait hp | woken hp | unlockWait hp | unlockRun hp | exec hp
      | stopRequested hp | notRequested hp | hit _ _ _ hp | lockEnd hp | unlockEnd hp
      | signalEnd hp =>
          rw [hp] at he
          cases he
  | done hd => exact .done (hd.step (.emu _ hm))

theorem NextPhase.settled (h : NextPhase n s) : Settled s.reqAt := by
  cases h with
  | before _ _ _ _ hset => exact hset
  | after _ _ _ _ hset => exact hset
  | stopping _ _ hset => exact hset
  | done hd => exact hd.settled

/-- The signal of the request thread, and its return, stay in the phase. -/
theorem NextPhase.signal (h : NextPhase n s) (hp : s.reqAt = .signal) :
    NextPhase n { s with emuAt := signalEmu s.emuAt, reqAt := .out } := by
  have hset : Settled .out := .inr (.inl rfl)
  cases h with
  | before hn hr hf hs _ hb hw =>
      refine .before hn hr hf hs hset ((beforeExec_signalEmu _).trans hb) fun hc => ?_
      exact absurd hc (signalEmu_ne_waiting _)
  | after hn hr hf hs _ he =>
      refine .after hn hr hf hs hset ?_
      exact he.imp (fun he => by rw [he]; rfl) fun he => by rw [he]; rfl
  | stopping hn hr _ he => exact .stopping hn hr hset (by rw [he]; rfl)
  | done hd => exact .done (hd.step (.signal hp))

theorem NextPhase.out (h : NextPhase n s) (hp : s.reqAt = .out) :
    NextPhase n { s with mtxServer := none, reqAt := .idle } := by
  have hset : Settled .idle := .inr (.inr rfl)
  cases h with
  | before hn hr hf hs _ hb hw =>
      refine .before hn hr hf hs hset hb fun hc => ?_
      rw [hw hc] at hp
      cases hp
  | after hn hr hf hs _ he => exact .after hn hr hf hs hset he
  | stopping hn hr _ he => exact .stopping hn hr hset he
  | done hd => exact .done (hd.step (.out hp))

/-- A spurious wakeup of the emulation thread is before its call. -/
theorem NextPhase.wakeEmu (h : NextPhase n s) (hp : s.emuAt = .waiting) :
    NextPhase n { s with emuAt := .woken } := by
  cases h with
  | before hn hr hf hs hset => exact .before hn hr hf hs hset rfl nofun
  | after _ _ _ _ _ he =>
      rw [hp] at he
      rcases he with he | he <;> cases he
  | stopping _ _ _ he =>
      rw [hp] at he
      cases he
  | done hd => exact .done (hd.step (.wakeEmu hp))

/-- **Every step but an arrival** goes through the phases. -/
theorem NextPhase.step (h : NextPhase n s) {a : Label} (hno : ¬ Arrives s a) (hm : Move s a s') :
    NextPhase n s' := by
  cases h.settled.move hno hm with
  | emu _ hm => exact h.emuMove hm
  | signal hp => exact h.signal hp
  | out hp => exact h.out hp
  | wakeEmu hp => exact h.wakeEmu hp

/-! ## How long it takes -/

/-- How far the emulation thread is from its `stop_execution`. -/
def emuRank : EmuPoint → Nat
  | .lockEnd => 11
  | .unlockEnd => 10
  | .signalEnd => 9
  | .waiting => 9
  | .woken => 8
  | .unlockWait => 7
  | .lockTop => 6
  | .testStopped => 5
  | .unlockRun => 4
  | .exec => 3
  | .gotStop => 2
  | .hit => 1
  | .stopExec => 0

/-- How far the request thread is from the end of its call. -/
def reqRank : ReqPoint → Nat
  | .signal => 2
  | .out => 1
  | _ => 0

def rank (s : Server) : Nat := emuRank s.emuAt + reqRank s.reqAt

theorem rank_le (s : Server) : rank s ≤ 13 := by
  have he : emuRank s.emuAt ≤ 11 := by cases s.emuAt <;> decide
  have hr : reqRank s.reqAt ≤ 2 := by
    unfold reqRank
    split <;> decide
  exact Nat.add_le_add he hr

theorem emuRank_signalEmu (p : EmuPoint) : emuRank (signalEmu p) ≤ emuRank p := by
  cases p <;> decide

/-- The steps that are not the emulation thread's bring the request thread closer
to the end of its call, and make none. -/
theorem SettledMove.rank_lt {r : EmuPoint → Nat} (hr : ∀ p, r (signalEmu p) ≤ r p)
    (hwake : r .woken < r .waiting) (hm : SettledMove s s') :
    EmuMove s s' ∨
      s'.calls = s.calls ∧ r s'.emuAt + reqRank s'.reqAt < r s.emuAt + reqRank s.reqAt := by
  cases hm with
  | emu _ hm => exact .inl hm
  | signal hp =>
      refine .inr ⟨rfl, ?_⟩
      rw [hp]
      exact Nat.add_lt_add_of_le_of_lt (hr s.emuAt) (Nat.le_of_ble_eq_true rfl)
  | out hp =>
      refine .inr ⟨rfl, ?_⟩
      rw [hp]
      exact Nat.lt_succ_self _
  | wakeEmu hp =>
      refine .inr ⟨rfl, ?_⟩
      rw [hp]
      exact Nat.add_lt_add_right hwake _

/-- In a run that is not over, every step gets closer to its end. -/
theorem NextPhase.rank_lt (h : NextPhase n s) (hr : s.ctl.serverRunning = true) {a : Label}
    (hno : ¬ Arrives s a) (hm : Move s a s') (hr' : s'.ctl.serverRunning = true) :
    rank s' < rank s := by
  have hset := h.settled
  have along {p q : EmuPoint} (hp : s.emuAt = p) (hlt : emuRank q < emuRank p) :
      emuRank q + reqRank s.reqAt < rank s := by
    rw [rank, hp]
    exact Nat.add_lt_add_right hlt _
  rcases (hset.move hno hm).rank_lt emuRank_signalEmu (by decide) with hm | ⟨-, hlt⟩
  · cases hm with
    | testWait hp ht =>
        rw [hr] at ht
        cases ht
    | stopRequested hp ht =>
        cases h with
        | before _ _ _ hs =>
            rw [hs] at ht
            cases ht
        | after _ _ _ hs =>
            rw [hs] at ht
            cases ht
        | stopping _ _ _ he =>
            rw [hp] at he
            cases he
        | done hd =>
            rw [hd.running] at hr
            cases hr
    | hit ctl msgs ret hp hhit =>
        cases h with
        | before _ _ _ _ _ hb =>
            rw [hp] at hb
            cases hb
        | after _ _ hf =>
            rw [hitBreakpoint_eq, if_pos hf] at hhit
            cases hhit
            exact along hp (Nat.le_of_ble_eq_true rfl)
        | stopping _ _ _ he =>
            rw [hp] at he
            cases he
        | done hd =>
            rw [hd.running] at hr
            cases hr
    | stopExec hp => cases hr'
    | signalEnd hp =>
        show emuRank .lockTop + reqRank (signalReq s.reqAt) < rank s
        rw [hset.signal]
        exact along hp (Nat.le_of_ble_eq_true rfl)
    | lockTop hp | testRun hp | woken hp | unlockWait hp | unlockRun hp | exec hp
    | notRequested hp | lockEnd hp | unlockEnd hp => exact along hp (Nat.le_of_ble_eq_true rfl)
  · exact hlt

/-- While execution runs, some thread can go on. -/
theorem enabled_of_settled (hset : Settled s.reqAt) (ho : Owned s)
    (hr : s.ctl.serverRunning = true) (hwait : s.emuAt = .waiting → s.reqAt = .signal) :
    ∃ a, ¬ Arrives s a ∧ (s.step a).isSome := by
  rcases hset with hp | hp | hp
  · refine ⟨.req, ?_, ?_⟩
    · rintro ⟨-, hc⟩
      rw [hp] at hc
      cases hc
    · simp [Server.step, reqStep, hp]
  · refine ⟨.req, ?_, ?_⟩
    · rintro ⟨-, hc⟩
      rw [hp] at hc
      cases hc
    · simp [Server.step, reqStep, hp]
  · refine ⟨.emu, nofun, ?_⟩
    -- no one but the emulation thread can hold the mutex
    have hfree (hn : emuHolds s.emuAt = false) : s.mtxServer = none :=
      ho.free hn (by rw [hp]; rfl)
    show (emuStep s).isSome
    unfold emuStep
    cases he : s.emuAt with
    | waiting =>
        rw [hwait he] at hp
        cases hp
    | lockTop | woken | lockEnd =>
        rw [he] at hfree
        simp [lock, hfree rfl]
    | testStopped => simp [hr]
    | gotStop =>
        dsimp only
        split <;> rfl
    | _ => rfl

theorem NextPhase.enabled (h : NextPhase n s) (ho : Owned s) (hr : s.ctl.serverRunning = true) :
    ∃ a, ¬ Arrives s a ∧ (s.step a).isSome := by
  refine enabled_of_settled h.settled ho hr fun hw => ?_
  cases h with
  | before _ _ _ _ _ _ hsig => exact hsig hw
  | after _ _ _ _ _ he =>
      rw [hw] at he
      rcases he with he | he <;> cases he
  | stopping _ _ _ he =>
      rw [hw] at he
      cases he
  | done hd =>
      rw [hd.running] at hr
      cases hr

theorem NextPhase.nextOnce (h : NextPhase (execs s) s) (ho : Owned s)
    (hr : s.ctl.serverRunning = true) : NextOnce s := by
  intro ls s' hrun hno
  have hphase : NextPhase (execs s) s' :=
    Traces.inv_exec (fun s a s' hs hc hstep => hs.step hc (step_cases hstep)) h hrun hno
  have howned : Owned s' :=
    Traces.inv_exec_all (fun s a s' hs hstep => hs.step (step_cases hstep)) ho hrun
  have hlength : NextDone (execs s) s' ∨ ls.length + rank s' ≤ rank s := by
    refine Traces.length_exec (I := fun m => NextPhase (execs s) m ∧ m.ctl.serverRunning = true)
      (fun s a s' hs hc hstep => hs.step (hs.settled.move hc (step_cases hstep))) ?_ ⟨h, hr⟩
      hrun hno
    rintro m a m' ⟨hm, hmr⟩ hc hstep
    have hm' := hm.step hc (step_cases hstep)
    have more (hr' : m'.ctl.serverRunning = true) :
        (NextPhase (execs s) m' ∧ m'.ctl.serverRunning = true) ∧ rank m' < rank m :=
      ⟨⟨hm', hr'⟩, hm.rank_lt hmr hc (step_cases hstep) hr'⟩
    cases hm' with
    | done hd => exact .inl hd
    | before _ ht => exact .inr (more ht)
    | after _ ht => exact .inr (more ht)
    | stopping _ ht => exact .inr (more ht)
  constructor
  · intro hf
    cases hphase with
    | done hd => exact hd.execs
    | before _ ht | after _ ht | stopping _ ht =>
        rw [ht] at hf
        cases hf
  · intro ht
    have hle : execs s' ≤ execs s + 1 := by
      cases hphase with
      | before hn => omega
      | after hn => omega
      | stopping hn => omega
      | done hd =>
          rw [hd.running] at ht
          cases ht
    have hrank := rank_le s
    refine ⟨hle, ?_, hphase.enabled howned ht⟩
    rcases hlength with hd | hlen
    · rw [hd.running] at ht
      cases ht
    · omega

/-! ## A NEXT with a stop request left over -/

/-- Some continuation without requests calls `exec_next` a second time. -/
def ExecAgain (n : Nat) (s : Server) : Prop :=
  ∃ ls s', Traces.exec step s ls = some s' ∧ Traces.Steps step (fun s a => ¬ Arrives s a) s ls ∧
    s'.ctl.serverRunning = true ∧ n + 1 < execs s'

theorem ExecAgain.not_nextOnce (h : ExecAgain (execs s) s) : ¬ NextOnce s := by
  intro hn
  obtain ⟨ls, s', hrun, hno, hr, hlt⟩ := h
  obtain ⟨hle, -⟩ := (hn ls s' hrun hno).2 hr
  exact Nat.not_le_of_lt hlt hle

/-- One step before. -/
theorem ExecAgain.cons {a : Label} (hstep : s.step a = some s') (hno : ¬ Arrives s a)
    (h : ExecAgain n s') : ExecAgain n s := by
  obtain ⟨ls, s'', hrun, hls, hend⟩ := h
  exact ⟨a :: ls, s'', Traces.exec_cons.mpr ⟨s', hstep, hrun⟩,
    (Traces.steps_cons hstep).mpr ⟨hno, hls⟩, hend⟩

theorem ExecAgain.emu (hstep : s.emuStep = some s') (h : ExecAgain n s') : ExecAgain n s :=
  h.cons (a := .emu) hstep nofun

/-- The first `exec_next` is followed by `got_stop_request`, the second one is
not reported to `hit_breakpoint` before it is made. -/
theorem execAgain_lockTop (hr : s.ctl.serverRunning = true) (hs : s.ctl.serverStopRequest = true)
    (he : s.emuAt = .lockTop) (hp : s.reqAt = .idle) (hm : s.mtxServer = none) :
    ExecAgain (execs s) s := by
  refine ⟨List.replicate 12 .emu, { s with
    emu := execNext (execNext s.emu)
    ctl := { s.ctl with serverStopRequest := false }
    calls := s.calls ++ [.execNext] ++ [.execNext]
    emuAt := .gotStop }, ?_, ?_, hr, ?_⟩
  · obtain ⟨emu, ⟨_, _, _, _, _, running, stopRequest⟩, mtx, emuAt, reqAt, calls⟩ := s
    dsimp only at hr hs he hp hm
    subst hr hs he hp hm
    rfl
  · exact Traces.steps_of_forall fun a ha s hc => nomatch (List.eq_of_mem_replicate ha ▸ hc.1)
  · show execs s + 1 < (s.calls ++ [Call.execNext] ++ [Call.execNext]).count Call.execNext
    rw [List.count_append, List.count_append]
    exact Nat.lt_succ_self _

theorem execAgain_idle (hr : s.ctl.serverRunning = true) (hs : s.ctl.serverStopRequest = true)
    (hp : s.reqAt = .idle) (hm : s.mtxServer = none) (hl : inLoop s.emuAt = false)
    (hh : emuHolds s.emuAt = false) (hw : s.emuAt ≠ .waiting) : ExecAgain (execs s) s := by
  cases he : s.emuAt with
  | lockTop => exact execAgain_lockTop hr hs he hp hm
  | woken =>
      have h₁ : s.emuStep = some { s with mtxServer := some .emu, emuAt := .unlockWait } := by
        simp [emuStep, he, lock, hm, goEmu]
      exact .emu h₁ (.emu rfl (execAgain_lockTop hr hs rfl hp rfl))
  | lockEnd =>
      have h₁ : s.emuStep = some { s with mtxServer := some .emu, emuAt := .unlockEnd } := by
        simp [emuStep, he, lock, hm, goEmu]
      refine .emu h₁ (.emu rfl (.emu rfl (execAgain_lockTop hr hs rfl ?_ rfl)))
      show signalReq s.reqAt = .idle
      rw [hp]
      rfl
  | signalEnd =>
      have h₁ : s.emuStep = some { s with reqAt := signalReq s.reqAt, emuAt := .lockTop } := by
        simp [emuStep, he, goReq, goEmu]
      refine .emu h₁ (execAgain_lockTop hr hs rfl ?_ hm)
      show signalReq s.reqAt = .idle
      rw [hp]
      rfl
  | waiting => exact absurd he hw
  | testStopped | unlockWait | unlockRun | unlockEnd =>
      rw [he] at hh
      cases hh
  | exec | gotStop | hit | stopExec =>
      rw [he] at hl
      cases hl

/-! ## The NEXT request -/

/-- Accepting a NEXT. -/
theorem step_flowNext (hnext : s.reqAt = .dispatch (.controlFlow .flowNext))
    (hstep : step s .req = some s') :
    s' = { s with
      ctl := handleControlFlowNext s.ctl
      calls := s.calls ++ [.dispatch (.controlFlow .flowNext)]
      reqAt := .signal } := by
  have h : step s .req = s.dispatchStep (.controlFlow .flowNext) := by
    simp only [step, reqStep, hnext]
  rw [h] at hstep
  exact (Option.some.inj hstep).symm

/-- A NEXT without a stop request left over starts the phases. -/
theorem nextPhase_flowNext (hnext : s.reqAt = .dispatch (.controlFlow .flowNext))
    (hstopped : Stopped s) (hs : s.ctl.serverStopRequest = false)
    (hstep : step s .req = some s') : NextPhase (execs s') s' := by
  obtain ⟨-, hl⟩ := hstopped
  rw [step_flowNext hnext hstep]
  exact .before rfl rfl rfl hs (.inl rfl) (beforeExec_of_outside hl) fun _ => rfl

/-- A NEXT with one leads to a second `exec_next`. -/
theorem execAgain_flowNext (ho : Owned s) (hnext : s.reqAt = .dispatch (.controlFlow .flowNext))
    (hstopped : Stopped s) (hs : s.ctl.serverStopRequest = true)
    (hstep : step s .req = some s') : ExecAgain (execs s') s' := by
  obtain ⟨-, hl⟩ := hstopped
  have hh : emuHolds s.emuAt = false := by
    have hnot := ho.not_both
    rw [hnext] at hnot
    exact Bool.eq_false_iff.mpr fun hc => nomatch hnot hc
  rw [step_flowNext hnext hstep]
  refine .cons (a := .req) rfl (fun hc => nomatch hc.2) ?_
  refine .cons (a := .req) rfl (fun hc => nomatch hc.2) ?_
  exact execAgain_idle rfl hs rfl rfl ((inLoop_signalEmu _).trans hl)
    ((emuHolds_signal _).trans hh) (signalEmu_ne_waiting _)

/-- **NEXT is one instruction** if and only if no stop request is left over when
it is accepted, after any requests and in any order of the threads. -/
theorem nextOnce_iff (mem : Nat → U64) (emu : Emu) (ls : List Label) (s s' : Server)
    (hrun : Runs mem emu ls s) (hnext : s.reqAt = .dispatch (.controlFlow .flowNext))
    (hstopped : Stopped s) (hstep : step s .req = some s') :
    NextOnce s' ↔ s.ctl.serverStopRequest = false := by
  have ho := owned_of_runs hrun
  constructor
  · intro h
    refine Bool.eq_false_iff.mpr fun hs => ?_
    exact (execAgain_flowNext ho hnext hstopped hs hstep).not_nextOnce h
  · intro hs
    refine (nextPhase_flowNext hnext hstopped hs hstep).nextOnce
      (ho.step (step_cases hstep)) ?_
    rw [step_flowNext hnext hstep]
    rfl

/-- A NEXT, up to its dispatch. -/
def recvNext : List Label := [.req, .recv (some (.controlFlow .flowNext)), .req]

theorem nextOnce_first :
    ∃ s s', Runs (fun _ => 0) (powerOn #[] #[]) ([.emu, .emu] ++ recvNext) s ∧
      step s .req = some s' ∧ NextOnce s' := by
  obtain ⟨s, hs, hnext, hstopped, hstop, hstep⟩ := runs_of_any
    (P := fun s : Server => s.reqAt = .dispatch (.controlFlow .flowNext) ∧ Stopped s ∧
      s.ctl.serverStopRequest = false ∧ (step s .req).isSome)
    (fun _ => 0) (powerOn #[] #[]) ([.emu, .emu] ++ recvNext) (by decide +kernel)
  obtain ⟨s', hs'⟩ := Option.isSome_iff_exists.mp hstep
  exact ⟨s, s', hs, hs', (nextOnce_iff _ _ _ s s' hs hnext hstopped hs').mpr hstop⟩

/-- A NEXT runs to its stop, and a MONITOR_STOP is accepted before
`stop_execution`; it is answered by the end of that run.  Then another NEXT. -/
def stopCrossesNext : List Label :=
  [.emu, .emu] ++ recvNext ++ [.req, .req, .req] ++ List.replicate 8 .emu ++
    [.req, .recv (some (.monitor .stop)), .req, .req, .req, .req, .req] ++
    List.replicate 4 .emu ++ [.req, .req] ++ recvNext

theorem not_nextOnce :
    ¬ ∀ mem emu ls s s', Runs mem emu ls s → s.reqAt = .dispatch (.controlFlow .flowNext) →
      Stopped s → step s .req = some s' → NextOnce s' := by
  intro h
  obtain ⟨s, hs, hnext, hstopped, hstop, hstep⟩ := runs_of_any
    (P := fun s : Server => s.reqAt = .dispatch (.controlFlow .flowNext) ∧ Stopped s ∧
      s.ctl.serverStopRequest = true ∧ (step s .req).isSome)
    (fun _ => 0) (powerOn #[] #[]) stopCrossesNext (by decide +kernel)
  obtain ⟨s', hs'⟩ := Option.isSome_iff_exists.mp hstep
  exact (execAgain_flowNext (owned_of_runs hs) hnext hstopped hstop hs').not_nextOnce
    (h _ _ _ s s' hs hnext hstopped hs')

end Server

end RealBoy
