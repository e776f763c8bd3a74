/-
# `RealBoy.Server.Flags` — what outlives a run

CONTINUE, UNTIL and NEXT each set a flag, and `hit_breakpoint` clears the flags
of the stop it reports.  Three ways out of a run leave a flag behind: a
MONITOR_STOP, which clears none; a breakpoint in an UNTIL run, which clears
`control_flow_continue` only; and, after a spurious wakeup of the request
thread, a request accepted while the emulation thread is still in its loop.
`FlagsOk` leaves these steps out, and in runs of the others every stop finds
the flags clear and is reported by one message, the one that the request which
started the run asked for (`flags_end_with_run`).  An UNTIL so accepted over a
CONTINUE is not left out: its stop clears both flags.
-/
import RealBoy.Lib.Latest
import RealBoy.Server.Next

namespace RealBoy

namespace Server

/-- No run-control flag is set. -/
def NoFlags (c : Control) : Prop :=
  c.controlFlowContinue = false ∧ c.controlFlowUntil = false ∧ c.controlFlowNext = false

instance : DecidablePred NoFlags := fun _ => inferInstanceAs (Decidable (_ ∧ _ ∧ _))

/-- The requests that start a run. -/
def startsRun : Request → Bool
  | .controlFlow .flowContinue => true
  | .controlFlow (.flowUntil _) => true
  | .controlFlow .flowNext => true
  | .monitor .resume => true
  | _ => false

/-- The request that a call starts a run for. -/
def runRequest : Call → Option Request
  | .dispatch req => if startsRun req then some req else none
  | _ => none

/-- The request that started the last run. -/
def started (calls : List Call) : Option Request := (calls.filterMap runRequest).getLast?

/-- The message by which a run ends, for the request that started it. -/
inductive Causes : Request → Msg → Prop where
  | flowContinue (pc : U32) : Causes (.controlFlow .flowContinue) (.flowBreak pc)
  | flowUntil (addr : U32) :
      Causes (.controlFlow (.flowUntil addr)) (.flowUntil ((addr.setWidth 16).setWidth 32))
  | flowNext : Causes (.controlFlow .flowNext) .flowNext

/-- A stop that `hit_breakpoint` reports is reported by one message, for the
request that started the run. -/
def ReportsOnce (s : Server) : Prop :=
  ∀ ctl msgs, hitBreakpoint s.pc s.ctl = (ctl, msgs, true) →
    ∃ req msg, started s.calls = some req ∧ msgs = [msg] ∧ Causes req msg

/-- A flag is set that `req` does not set, and that the stop of its run would not
clear: UNTIL's own stop clears `control_flow_continue` too. -/
def otherFlags (req : Request) (c : Control) : Bool :=
  match req with
  | .controlFlow .flowContinue => c.controlFlowUntil || c.controlFlowNext
  | .controlFlow (.flowUntil _) => c.controlFlowNext
  | .controlFlow .flowNext => c.controlFlowContinue || c.controlFlowUntil
  | _ => c.controlFlowContinue || c.controlFlowUntil || c.controlFlowNext

/-- The request that the request thread is about to dispatch. -/
def dispatched : ReqPoint → Option Request
  | .dispatch req => some req
  | _ => none

theorem mem_dispatched {p : ReqPoint} {req : Request} :
    req ∈ dispatched p ↔ p = .dispatch req := by
  cases p <;> simp [dispatched, eq_comm]

/-- The condition on a dispatch: a MONITOR_STOP that finds the emulation thread
outside its loop finds no flag, and a request that starts a run while it is
still inside finds no flag of another kind, and sets none before
`stop_execution`. -/
def DispatchOk (s : Server) (req : Request) : Prop :=
  (req = .monitor .stop → inLoop s.emuAt = false → NoFlags s.ctl) ∧
    (startsRun req = true → inLoop s.emuAt = true →
      otherFlags req s.ctl = false ∧ (s.emuAt = .stopExec → req = .monitor .resume))

/-- The condition on a step: a stop request ends a run with no flag set, and a
breakpoint in an UNTIL run is at its address. -/
def FlagsOk (s : Server) : Label → Prop
  | .emu =>
    (s.emuAt = .gotStop → s.ctl.serverStopRequest = true → s.reqAt ≠ .stopLocked →
      s.ctl.serverRunning = false → NoFlags s.ctl) ∧
      (s.emuAt = .hit → s.ctl.controlFlowUntil = true → atBreakpoint s.pc s.ctl = true →
        atUntil s.pc s.ctl = true)
  | .req => ∀ req ∈ dispatched s.reqAt, DispatchOk s req
  | _ => True

instance (s : Server) (req : Request) : Decidable (DispatchOk s req) :=
  inferInstanceAs (Decidable ((_ → _ → _) ∧ (_ → _ → _ ∧ _)))

instance (s : Server) (a : Label) : Decidable (FlagsOk s a) := by
  cases a
  case emu => exact inferInstanceAs (Decidable ((_ → _ → _ → _ → _) ∧ (_ → _ → _ → _)))
  case req => exact inferInstanceAs (Decidable (∀ req ∈ dispatched s.reqAt, DispatchOk s req))
  all_goals exact inferInstanceAs (Decidable True)

/-! ## The request that started the run -/

theorem started_append {calls l : List Call} (h : ∀ c ∈ l, runRequest c = none) :
    started (calls ++ l) = started calls := History.latest_append_none h calls

theorem started_dispatch {calls : List Call} {req : Request} (h : startsRun req = true) :
    started (calls ++ [.dispatch req]) = some req := by
  have hone : runRequest (.dispatch req) = some req := if_pos h
  exact History.latest_concat_some hone calls

theorem started_send {calls : List Call} (msgs : List Msg) :
    started (calls ++ msgs.map .emuSendMsg) = started calls := by
  refine started_append fun c hc => ?_
  obtain ⟨msg, -, rfl⟩ := List.mem_map.mp hc
  rfl

/-- The flags that are set are those of the request, if any; beside UNTIL's there
may be one that CONTINUE left. -/
structure FlagsOf (req : Option Request) (c : Control) : Prop where
  flowContinue : c.controlFlowContinue = true →
    req = some (.controlFlow .flowContinue) ∨ c.controlFlowUntil = true
  flowUntil : c.controlFlowUntil = true →
    ∃ addr, req = some (.controlFlow (.flowUntil addr)) ∧ c.untilAddr = addr.setWidth 16
  flowNext : c.controlFlowNext = true → req = some (.controlFlow .flowNext)

variable {req : Option Request} {c : Control}

theorem NoFlags.flagsOf (h : NoFlags c) : FlagsOf req c := by
  obtain ⟨hc, hu, hn⟩ := h
  exact ⟨fun h => (nomatch hc.symm.trans h), fun h => (nomatch hu.symm.trans h),
    fun h => (nomatch hn.symm.trans h)⟩

theorem FlagsOf.of_next (h : FlagsOf req c) (hn : c.controlFlowNext = true) :
    c.controlFlowContinue = false ∧ c.controlFlowUntil = false := by
  obtain rfl := h.flowNext hn
  have hu : c.controlFlowUntil = false := by
    refine Bool.eq_false_iff.mpr fun hu => ?_
    obtain ⟨addr, hr, -⟩ := h.flowUntil hu
    cases hr
  refine ⟨Bool.eq_false_iff.mpr fun hc => ?_, hu⟩
  rcases h.flowContinue hc with hr | hut
  · cases hr
  · cases hu.symm.trans hut

/-! ## `hit_breakpoint` -/

/-- What `hit_breakpoint` does in a run whose flags are its request's. -/
structure HitOk (req : Option Request) (r : Control × List Msg × Bool) : Prop where
  flagsOf : FlagsOf req r.1
  noFlags : r.2.2 = true → NoFlags r.1
  reports : r.2.2 = true → ∃ q msg, req = some q ∧ r.2.1 = [msg] ∧ Causes q msg

/-- Its part for CONTINUE and UNTIL. -/
theorem FlagsOf.hitAddress (h : FlagsOf req c) (addr : U32)
    (hat : c.controlFlowUntil = true → atBreakpoint addr c = true → atUntil addr c = true)
    (hn : c.controlFlowNext = false) : HitOk req (hitAddress addr c) := by
  have hcases := hitAddress_cases addr c
  generalize RealBoy.hitAddress addr c = r at hcases ⊢
  cases hcases with
  | untilAddress hu ha =>
      obtain ⟨pc, hreq, hpc⟩ := h.flowUntil hu
      have hclear : NoFlags
          { c with controlFlowUntil := false, controlFlowContinue := false, untilAddr := 0 } :=
        ⟨rfl, rfl, hn⟩
      refine ⟨hclear.flagsOf, fun _ => hclear, fun _ => ⟨_, _, hreq, rfl, ?_⟩⟩
      have haddr : (pc.setWidth 16).setWidth 32 = addr := by
        rw [← hpc]
        exact beq_iff_eq.mp ha
      exact haddr ▸ .flowUntil pc
  | breakpoint hflag hfound hu =>
      have hu : c.controlFlowUntil = false := by
        refine Bool.eq_false_iff.mpr fun ht => ?_
        exact absurd (hat ht hfound) (Bool.eq_false_iff.mp (hu ht))
      have hc : c.controlFlowContinue = true := by
        refine hflag.resolve_right fun ht => ?_
        cases hu.symm.trans ht
      have hreq : req = some (.controlFlow .flowContinue) := by
        refine (h.flowContinue hc).resolve_right fun ht => ?_
        cases hu.symm.trans ht
      have hclear : NoFlags { c with controlFlowContinue := false } := ⟨rfl, hu, hn⟩
      exact ⟨hclear.flagsOf, fun _ => hclear, fun _ => ⟨_, _, hreq, rfl, .flowContinue addr⟩⟩
  | nothing => exact ⟨h, nofun, nofun⟩

theorem FlagsOf.hitBreakpoint (h : FlagsOf req c) (addr : U32)
    (hat : c.controlFlowUntil = true → atBreakpoint addr c = true → atUntil addr c = true) :
    HitOk req (hitBreakpoint addr c) := by
  rw [hitBreakpoint_eq]
  split
  case isTrue hn =>
    obtain ⟨hc, hu⟩ := h.of_next hn
    have hnothing : RealBoy.hitAddress addr c = (c, [], false) := by
      rw [hitAddress_eq, hc, hu]
      rfl
    have hclear : NoFlags { c with controlFlowNext := false } := ⟨hc, hu, rfl⟩
    rw [hnothing]
    exact ⟨hclear.flagsOf, fun _ => hclear, fun _ => ⟨_, _, h.flowNext hn, rfl, .flowNext⟩⟩
  case isFalse hn => exact h.hitAddress addr hat (Bool.eq_false_iff.mpr hn)

/-! ## The invariant -/

/-- A request that starts a run is dispatched while `server_running` is false. -/
def Accepted (s : Server) : Prop :=
  ∀ req, s.reqAt = .dispatch req → startsRun req = true → s.ctl.serverRunning = false

/-- The flags end with the run. -/
structure FlagsEnd (s : Server) : Prop where
  stopped : Stopped s → NoFlags s.ctl
  reported : s.emuAt = .stopExec → NoFlags s.ctl
  flagsOf : FlagsOf (started s.calls) s.ctl

variable {s s' : Server}

theorem accepts_startsRun {req : Request} {serverRunning : Bool}
    (h : accepts req serverRunning = true) (hreq : startsRun req = true) :
    serverRunning = false := by
  cases serverRunning with
  | false => rfl
  | true =>
      cases req with
      | controlFlow | inspect => cases h
      | monitor req =>
          cases req with
          | resume => cases h
          | stop | other => cases hreq
      | other => cases h

theorem Accepted.step {a : Label} (h : Accepted s) (hm : Move s a s') : Accepted s' := by
  cases hm with
  | emu _ hm =>
      cases hm with
      | hit ctl msgs ret hp hhit =>
          intro req hreq hstarts
          have hr := (hitBreakpoint_frame s.pc s.ctl).1
          rw [hhit] at hr
          exact hr.trans (h req hreq hstarts)
      | stopExec => exact fun _ _ _ => rfl
      | signalEnd =>
          intro req hreq
          exact h req ((signalReq_eq_iff (q := .dispatch req) nofun nofun).mp hreq)
      | _ => exact h
  | req _ hm =>
      cases hm with
      | accept req hp ha =>
          intro req' hreq hstarts
          cases hreq
          exact accepts_startsRun ha hstarts
      | _ => exact nofun
  | recv | recvFail | wakeReq => exact nofun
  | wakeEmu => exact h

theorem FlagsEnd.emuMove (h : FlagsEnd s) (hok : FlagsOk s .emu) (hm : EmuMove s s') :
    FlagsEnd s' := by
  obtain ⟨hstopped, hreported, hflags⟩ := h
  -- outside the loop, execution had stopped before
  have along {p q : EmuPoint} (hp : s.emuAt = p) (hpq : inLoop q = false → inLoop p = false) :
      s.ctl.serverRunning = false ∧ inLoop q = false → NoFlags s.ctl := by
    rintro ⟨hr, hq⟩
    exact hstopped ⟨hr, hp ▸ hpq hq⟩
  cases hm with
  | lockTop hp => exact ⟨along hp fun _ => rfl, nofun, hflags⟩
  | testRun hp => exact ⟨along hp nofun, nofun, hflags⟩
  | testWait hp => exact ⟨along hp fun _ => rfl, nofun, hflags⟩
  | woken hp => exact ⟨along hp fun _ => rfl, nofun, hflags⟩
  | unlockWait hp => exact ⟨along hp fun _ => rfl, nofun, hflags⟩
  | unlockRun hp => exact ⟨along hp nofun, nofun, hflags⟩
  | exec hp =>
      refine ⟨along hp nofun, nofun, ?_⟩
      rw [started_append (List.forall_mem_singleton.mpr rfl)]
      exact hflags
  | stopRequested hp hs hne =>
      refine ⟨?_, nofun, ⟨hflags.flowContinue, hflags.flowUntil, hflags.flowNext⟩⟩
      rintro ⟨hr, -⟩
      exact hok.1 hp hs hne hr
  | notRequested hp => exact ⟨along hp nofun, nofun, hflags⟩
  | hit ctl msgs ret hp hhit =>
      have hhitok := hflags.hitBreakpoint s.pc (hok.2 hp)
      rw [hhit] at hhitok
      rw [← started_send msgs] at hhitok
      cases ret with
      | true => exact ⟨nofun, fun _ => hhitok.noFlags rfl, hhitok.flagsOf⟩
      | false => exact ⟨nofun, nofun, hhitok.flagsOf⟩
  | stopExec hp =>
      exact ⟨fun _ => hreported hp, nofun, ⟨hflags.flowContinue, hflags.flowUntil, hflags.flowNext⟩⟩
  | lockEnd hp => exact ⟨along hp fun _ => rfl, nofun, hflags⟩
  | unlockEnd hp => exact ⟨along hp fun _ => rfl, nofun, hflags⟩
  | signalEnd hp => exact ⟨along hp fun _ => rfl, nofun, hflags⟩

theorem dispatchControlFlow_running {req : ControlFlow} {c' : Control}
    (hstarts : startsRun (.controlFlow req) = true) (h : dispatchControlFlow req c = some c') :
    c'.serverRunning = true := by
  cases req with
  | flowContinue | flowUntil | flowNext =>
      cases h
      rfl
  | flowDelete | flowBreak | flowOther => cases hstarts

/-- CONTINUE, UNTIL and NEXT set their own flag. -/
theorem dispatchControlFlow_flagsOf {req : ControlFlow} {c' : Control}
    (hstarts : startsRun (.controlFlow req) = true)
    (hother : otherFlags (.controlFlow req) c = false) (h : dispatchControlFlow req c = some c') :
    FlagsOf (some (.controlFlow req)) c' := by
  cases req with
  | flowContinue =>
      obtain ⟨hu, hn⟩ := Bool.or_eq_false_iff.mp hother
      cases h
      exact ⟨fun _ => .inl rfl, fun h => (nomatch hu.symm.trans h),
        fun h => (nomatch hn.symm.trans h)⟩
  | flowUntil addr =>
      cases h
      exact ⟨fun _ => .inr rfl, fun _ => ⟨addr, rfl, rfl⟩,
        fun h => (nomatch hother.symm.trans h)⟩
  | flowNext =>
      obtain ⟨hc, hu⟩ := Bool.or_eq_false_iff.mp hother
      cases h
      exact ⟨fun h => (nomatch hc.symm.trans h), fun h => (nomatch hu.symm.trans h), fun _ => rfl⟩
  | flowDelete | flowBreak | flowOther => cases hstarts

theorem handleControlFlowDelete_list {addr : U32} {c' : Control}
    (h : handleControlFlowDelete addr c = some c') :
    ∃ list, c' = { c with breakpointList := list } := by
  unfold handleControlFlowDelete at h
  split at h
  · obtain ⟨list, -, hc'⟩ := Option.bind_eq_some_iff.mp h
    exact ⟨list, (Option.some.inj hc').symm⟩
  · exact ⟨c.breakpointList, (Option.some.inj h).symm⟩

/-- The others touch nothing but the list. -/
theorem dispatchControlFlow_list {req : ControlFlow} {c' : Control}
    (hstarts : startsRun (.controlFlow req) = false) (h : dispatchControlFlow req c = some c') :
    ∃ list, c' = { c with breakpointList := list } := by
  cases req with
  | flowBreak addr => exact ⟨_, (Option.some.inj h).symm⟩
  | flowDelete addr => exact handleControlFlowDelete_list h
  | flowOther => exact ⟨c.breakpointList, (Option.some.inj h).symm⟩
  | flowContinue | flowUntil | flowNext => cases hstarts

/-- A request that starts a run finds no flag of another kind. -/
theorem FlagsEnd.otherFlags (h : FlagsEnd s) (ha : Accepted s) {req : Request}
    (hp : s.reqAt = .dispatch req) (hstarts : startsRun req = true) (hok : DispatchOk s req) :
    otherFlags req s.ctl = false := by
  cases hl : inLoop s.emuAt with
  | true => exact (hok.2 hstarts hl).1
  | false =>
      obtain ⟨hc, hu, hn⟩ := h.stopped ⟨ha req hp hstarts, hl⟩
      unfold Server.otherFlags
      rw [hc, hu, hn]
      cases req with
      | controlFlow req => cases req <;> rfl
      | inspect | monitor | other => rfl

/-- After `stop_execution` is due, no request sets a flag. -/
theorem DispatchOk.ne_stopExec {req : Request} (hok : DispatchOk s req)
    (hstarts : startsRun req = true) (hne : req ≠ .monitor .resume) : s.emuAt ≠ .stopExec :=
  fun he => hne ((hok.2 hstarts (by rw [he]; rfl)).2 he)

theorem FlagsEnd.reqMove (h : FlagsEnd s) (ha : Accepted s) (hok : FlagsOk s .req)
    (hm : ReqMove s s') : FlagsEnd s' := by
  have hdispatch {req : Request} (hp : s.reqAt = .dispatch req) : DispatchOk s req :=
    hok req (mem_dispatched.mpr hp)
  cases hm with
  | lock | accept | reject | setStop | doWait | woken | out => exact ⟨h.stopped, h.reported, h.flagsOf⟩
  | signal =>
      refine ⟨?_, ?_, h.flagsOf⟩
      · rintro ⟨hr, hl⟩
        exact h.stopped ⟨hr, (inLoop_signalEmu _).symm.trans hl⟩
      · intro he
        refine h.reported ?_
        dsimp only at he
        revert he
        cases s.emuAt <;> decide
  | stopLocked =>
      exact ⟨h.stopped, h.reported, ⟨h.flagsOf.flowContinue, h.flagsOf.flowUntil, h.flagsOf.flowNext⟩⟩
  | other req calls hp hreq hcalls =>
      refine ⟨h.stopped, h.reported, ?_⟩
      rw [started_append]
      · exact h.flagsOf
      · intro c hc
        rcases hcalls c hc with rfl | rfl
        · rcases hreq with rfl | rfl | rfl <;> rfl
        · rfl
  | stop hp =>
      refine ⟨?_, h.reported, ?_⟩
      · rintro ⟨-, hl⟩
        exact (hdispatch hp).1 rfl hl
      · rw [started_append (List.forall_mem_singleton.mpr rfl)]
        exact ⟨h.flagsOf.flowContinue, h.flagsOf.flowUntil, h.flagsOf.flowNext⟩
  | resume hp =>
      obtain ⟨hcu, hn⟩ := Bool.or_eq_false_iff.mp (h.otherFlags ha hp rfl (hdispatch hp))
      obtain ⟨hc, hu⟩ := Bool.or_eq_false_iff.mp hcu
      exact ⟨nofun, h.reported, NoFlags.flagsOf ⟨hc, hu, hn⟩⟩
  | controlFlow req ctl hp hctl =>
      cases hstarts : startsRun (.controlFlow req) with
      | true =>
          refine ⟨?_, fun he => absurd he ((hdispatch hp).ne_stopExec hstarts nofun), ?_⟩
          · rintro ⟨hf, -⟩
            cases (dispatchControlFlow_running hstarts hctl).symm.trans hf
          · rw [started_dispatch hstarts]
            have hother := h.otherFlags ha hp hstarts (hdispatch hp)
            exact dispatchControlFlow_flagsOf hstarts hother hctl
      | false =>
          obtain ⟨list, rfl⟩ := dispatchControlFlow_list hstarts hctl
          refine ⟨h.stopped, h.reported, ?_⟩
          rw [started_append (List.forall_mem_singleton.mpr ?_)]
          · exact ⟨h.flagsOf.flowContinue, h.flagsOf.flowUntil, h.flagsOf.flowNext⟩
          · exact if_neg (Bool.eq_false_iff.mp hstarts)

theorem FlagsEnd.step {a : Label} (h : FlagsEnd s) (ha : Accepted s) (hok : FlagsOk s a)
    (hm : Move s a s') : FlagsEnd s' := by
  cases hm with
  | emu _ hm => exact h.emuMove hok hm
  | req _ hm => exact h.reqMove ha hok hm
  | wakeEmu hp => exact ⟨fun hs => h.stopped ⟨hs.1, by rw [hp]; rfl⟩, nofun, h.flagsOf⟩
  | recv | recvFail | wakeReq => exact ⟨h.stopped, h.reported, h.flagsOf⟩

/-- **The flags end with the run**, and every stop that `hit_breakpoint` reports
is reported once, in runs of such steps. -/
theorem flags_end_with_run (mem : Nat → U64) (emu : Emu) (ls : List Label) (s : Server)
    (hrun : Runs mem emu ls s) (hok : Traces.Steps step FlagsOk (serverInit mem emu) ls) :
    (Stopped s → NoFlags s.ctl) ∧ (s.emuAt = .hit → FlagsOk s .emu → ReportsOnce s) := by
  have hinit : FlagsEnd (serverInit mem emu) ∧ Accepted (serverInit mem emu) :=
    ⟨⟨fun _ => ⟨rfl, rfl, rfl⟩, nofun, NoFlags.flagsOf ⟨rfl, rfl, rfl⟩⟩, nofun⟩
  have hinv : FlagsEnd s ∧ Accepted s := by
    refine Traces.inv_exec (I := fun s => FlagsEnd s ∧ Accepted s) ?_ hinit hrun hok
    rintro s a s' ⟨hs, ha⟩ hok hstep
    exact ⟨hs.step ha hok (step_cases hstep), ha.step (step_cases hstep)⟩
  obtain ⟨hend, -⟩ := hinv
  refine ⟨hend.stopped, fun hp hok ctl msgs hhit => ?_⟩
  have hhitok := hend.flagsOf.hitBreakpoint s.pc (hok.2 hp)
  rw [hhit] at hhitok
  exact hhitok.reports rfl

/-- A request, handled in one go. -/
def request (req : ControlFlow) : List Label :=
  [.req, .recv (some (.controlFlow req)), .req, .req, .req, .req]

/-- CONTINUE to a breakpoint at 0x0001, up to `hit_breakpoint`. -/
def continueToBreak : List Label :=
  [.emu, .emu] ++ request (.flowBreak 1) ++ request .flowContinue ++ List.replicate 7 .emu

theorem flags_end_with_run_continueToBreak :
    (∃ s, Runs (fun _ => 0) (powerOn #[] #[]) continueToBreak s ∧
      (hitBreakpoint s.pc s.ctl).2.2 = true ∧ ReportsOnce s) ∧
    ∃ s, Runs (fun _ => 0) (powerOn #[] #[]) (continueToBreak ++ [.emu, .emu]) s ∧ Stopped s ∧
      NoFlags s.ctl := by
  constructor
  · obtain ⟨s, hs, hp, hok, hret⟩ := runs_of_any
      (P := fun s : Server => s.emuAt = .hit ∧ FlagsOk s .emu ∧
        (hitBreakpoint s.pc s.ctl).2.2 = true)
      (fun _ => 0) (powerOn #[] #[]) continueToBreak (by decide +kernel)
    exact ⟨s, hs, hret, (flags_end_with_run _ _ _ s hs (by decide +kernel)).2 hp hok⟩
  · obtain ⟨s, hs, hstopped⟩ := runs_of_any (P := Stopped) (fun _ => 0) (powerOn #[] #[])
      (continueToBreak ++ [.emu, .emu]) (by decide +kernel)
    exact ⟨s, hs, hstopped, (flags_end_with_run _ _ _ s hs (by decide +kernel)).1 hstopped⟩

/-- UNTIL 0x0002 with a breakpoint at 0x0001, up to the stop. -/
def untilWithBreak : List Label :=
  [.emu, .emu] ++ request (.flowBreak 1) ++ request (.flowUntil 2) ++ List.replicate 9 .emu

/-- The stop of that UNTIL run leaves its flag behind, and a NEXT to 0x0002 is
then reported by two messages. -/
theorem not_flags_end_with_run :
    (¬ ∀ mem emu ls s, Runs mem emu ls s → Stopped s → NoFlags s.ctl) ∧
      ¬ ∀ mem emu ls s, Runs mem emu ls s → s.emuAt = .hit → ReportsOnce s := by
  constructor
  · intro h
    obtain ⟨s, hs, hstopped, hflag⟩ := runs_of_any
      (P := fun s : Server => Stopped s ∧ s.ctl.controlFlowUntil = true)
      (fun _ => 0) (powerOn #[] #[]) untilWithBreak (by decide +kernel)
    obtain ⟨-, hu, -⟩ := h _ _ _ s hs hstopped
    cases hu.symm.trans hflag
  · intro h
    obtain ⟨s, hs, hp, hret, htwo⟩ := runs_of_any
      (P := fun s : Server => s.emuAt = .hit ∧ (hitBreakpoint s.pc s.ctl).2.2 = true ∧
        (hitBreakpoint s.pc s.ctl).2.1 = [.flowUntil 2, .flowNext])
      (fun _ => 0) (powerOn #[] #[])
      (untilWithBreak ++ List.replicate 3 .emu ++ request .flowNext ++ List.replicate 5 .emu)
      (by decide +kernel)
    obtain ⟨req, msg, -, hone, -⟩ := h _ _ _ s hs hp _ _ (Prod.ext rfl (Prod.ext rfl hret))
    cases htwo.symm.trans hone

/-! ## Without spurious wakeups -/

/-- While a run that MONITOR_STOP has ended is not over, its request waits. -/
def StopWaits (s : Server) : Prop :=
  inLoop s.emuAt = true → s.ctl.serverRunning = false →
    s.reqAt = .setStop ∨ s.reqAt = .stopLocked ∨ s.reqAt = .doWait ∨ s.reqAt = .waiting

theorem StopWaits.emuMove (h : StopWaits s) (hm : EmuMove s s') : StopWaits s' := by
  -- inside the loop before, and inside after
  have along {p q : EmuPoint} (hp : s.emuAt = p) (hpq : inLoop q = true → inLoop p = true)
      (hl : inLoop q = true) : inLoop s.emuAt = true := hp ▸ hpq hl
  cases hm with
  | testRun hp ht =>
      intro _ hf
      cases ht.symm.trans hf
  | unlockRun hp => exact fun hl => h (along hp (fun _ => rfl) hl)
  | exec hp => exact fun hl => h (along hp (fun _ => rfl) hl)
  | notRequested hp => exact fun hl => h (along hp (fun _ => rfl) hl)
  | hit ctl msgs ret hp hhit =>
      intro _ hf
      have hr := (hitBreakpoint_frame s.pc s.ctl).1
      rw [hhit] at hr
      exact h (by rw [hp]; rfl) (hr.symm.trans hf)
  | lockTop | testWait | woken | unlockWait | stopRequested | stopExec | lockEnd | unlockEnd
  | signalEnd => exact nofun

theorem StopWaits.reqMove (h : StopWaits s) (hm : ReqMove s s') : StopWaits s' := by
  -- a request that is not a MONITOR_STOP on its way finds no such run
  have clash {p : ReqPoint} (hp : s.reqAt = p)
      (hne : ¬ (p = .setStop ∨ p = .stopLocked ∨ p = .doWait ∨ p = .waiting))
      (hl : inLoop s.emuAt = true) (hf : s.ctl.serverRunning = false) : False :=
    hne (hp ▸ h hl hf)
  cases hm with
  | lock hp => exact fun hl hf => (clash hp (by simp) hl hf).elim
  | accept req hp => exact fun hl hf => (clash hp (by simp) hl hf).elim
  | reject req hp => exact fun hl hf => (clash hp (by simp) hl hf).elim
  | controlFlow req ctl hp hctl =>
      intro hl hf
      cases hstarts : startsRun (.controlFlow req) with
      | true => cases (dispatchControlFlow_running hstarts hctl).symm.trans hf
      | false =>
          obtain ⟨list, rfl⟩ := dispatchControlFlow_list hstarts hctl
          exact (clash hp (by simp) hl hf).elim
  | stop => exact fun _ _ => .inl rfl
  | resume => exact fun _ => nofun
  | other req calls hp => exact fun hl hf => (clash hp (by simp) hl hf).elim
  | signal hp => exact fun hl hf => (clash hp (by simp) ((inLoop_signalEmu _).symm.trans hl) hf).elim
  | setStop => exact fun _ _ => .inr (.inl rfl)
  | stopLocked => exact fun _ _ => .inr (.inr (.inl rfl))
  | doWait => exact fun _ _ => .inr (.inr (.inr rfl))
  | woken hp => exact fun hl hf => (clash hp (by simp) hl hf).elim
  | out hp => exact fun hl hf => (clash hp (by simp) hl hf).elim

theorem StopWaits.step {a : Label} (h : StopWaits s) (hno : a ≠ .wakeReq) (hm : Move s a s') :
    StopWaits s' := by
  cases hm with
  | emu _ hm => exact h.emuMove hm
  | req _ hm => exact h.reqMove hm
  | recv req hp | recvFail hp =>
      intro hl hf
      have hw := h hl hf
      rw [hp] at hw
      exact absurd hw (by simp)
  | wakeEmu => exact nofun
  | wakeReq => exact absurd rfl hno

/-- A request that starts a run finds the emulation thread outside its loop,
unless the request thread has had a spurious wakeup. -/
theorem outside_of_no_wakeReq {mem : Nat → U64} {emu : Emu} {ls : List Label} {req : Request}
    (hrun : Runs mem emu ls s) (hno : ∀ a ∈ ls, a ≠ .wakeReq) (hp : s.reqAt = .dispatch req)
    (hstarts : startsRun req = true) : inLoop s.emuAt = false := by
  have hinit : StopWaits (serverInit mem emu) ∧ Accepted (serverInit mem emu) := ⟨nofun, nofun⟩
  have hinv : StopWaits s ∧ Accepted s := by
    refine Traces.inv_exec (I := fun s => StopWaits s ∧ Accepted s) (C := fun _ a => a ≠ .wakeReq)
      ?_ hinit hrun (Traces.steps_of_forall fun a ha _ => hno a ha)
    rintro s a s' ⟨hs, ha⟩ hne hstep
    exact ⟨hs.step hne (step_cases hstep), ha.step (step_cases hstep)⟩
  obtain ⟨hwaits, haccepted⟩ := hinv
  refine Bool.eq_false_iff.mpr fun hl => ?_
  have hw := hwaits hl (haccepted req hp hstarts)
  rw [hp] at hw
  exact absurd hw (by simp)

end Server

end RealBoy
