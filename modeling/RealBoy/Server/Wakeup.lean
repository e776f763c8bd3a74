/-
# `RealBoy.Server.Wakeup` — who wakes whom

`cnd_server_stop` carries both directions of the protocol: the emulation thread
waits on it while stopped, the request thread waits on it for a stop to be
acknowledged.  A wakeup is lost in two ways, each in one step of the request
thread (`WakeupOk`): MONITOR_RESUME sets `server_running` without the signal
that the CONTROL_FLOW requests send, and MONITOR_STOP waits for a signal that
the emulation thread sends only on its way out of a run it may not have begun.
In runs of other steps no wakeup is lost (`no_lost_wakeup`), and each of the two
loses one in some continuation (`lost_wakeup_of_not_ok`).
-/
import RealBoy.Emu.Run
import RealBoy.Server.Protocol

namespace RealBoy

namespace Server

/-- The emulation thread is blocked in its wait while `server_running` is true,
and the request thread is not about to signal. -/
def EmuStranded (s : Server) : Prop :=
  s.emuAt = .waiting ∧ s.reqAt ≠ .signal ∧ s.ctl.serverRunning = true

/-- Both threads are blocked in their waits. -/
def BothBlocked (s : Server) : Prop := s.emuAt = .waiting ∧ s.reqAt = .waiting

def LostWakeup (s : Server) : Prop := EmuStranded s ∨ BothBlocked s

instance : DecidablePred EmuStranded := fun _ => inferInstanceAs (Decidable (_ ∧ _ ∧ _))
instance : DecidablePred BothBlocked := fun _ => inferInstanceAs (Decidable (_ ∧ _))
instance : DecidablePred LostWakeup := fun _ => inferInstanceAs (Decidable (_ ∨ _))

/-- The emulation thread signals before it next looks at `server_running`. -/
def willSignal : EmuPoint → Bool
  | .unlockRun | .exec | .gotStop | .hit | .stopExec | .lockEnd | .unlockEnd | .signalEnd => true
  | _ => false

/-- The condition on a step: a MONITOR_RESUME does not find the emulation thread
in its wait, and a MONITOR_STOP starts to wait when a signal is still to come. -/
def WakeupOk (s : Server) : Label → Prop
  | .req =>
    (s.reqAt = .dispatch (.monitor .resume) → s.emuAt ≠ .waiting) ∧
      (s.reqAt = .doWait → willSignal s.emuAt = true)
  | _ => True

instance (s : Server) : (a : Label) → Decidable (WakeupOk s a)
  | .req => inferInstanceAs (Decidable ((_ → _) ∧ (_ → _)))
  | .emu | .recv _ | .wakeEmu | .wakeReq => inferInstanceAs (Decidable True)

/-- The half of it for MONITOR_STOP. -/
def StopOk (s : Server) : Label → Prop
  | .req => s.reqAt = .doWait → willSignal s.emuAt = true
  | _ => True

instance (s : Server) : (a : Label) → Decidable (StopOk s a)
  | .req => inferInstanceAs (Decidable (_ → _))
  | .emu | .recv _ | .wakeEmu | .wakeReq => inferInstanceAs (Decidable True)

variable {s s' : Server}

theorem WakeupOk.stopOk {a : Label} (h : WakeupOk s a) : StopOk s a := by
  cases a with
  | req => exact h.2
  | emu | recv | wakeEmu | wakeReq => trivial

/-! ## Runs of good steps -/

/-- A request thread that waits will be signalled. -/
def Signalled (s : Server) : Prop := s.reqAt = .waiting → willSignal s.emuAt = true

theorem Signalled.emuMove (h : Signalled s) (hm : EmuMove s s') : Signalled s' := by
  -- a point of the run leads to a point of the run, and the last one signals
  have along {p : EmuPoint} (hp : s.emuAt = p) {q : EmuPoint}
      (hpq : willSignal p = true → willSignal q = true) :
      s.reqAt = .waiting → willSignal q = true := by
    intro hw
    exact hpq (hp ▸ h hw)
  cases hm with
  | lockTop hp => exact along hp nofun
  | testRun hp => exact along hp nofun
  | testWait hp => exact along hp nofun
  | woken hp => exact along hp nofun
  | unlockWait hp => exact along hp nofun
  | unlockRun | exec | stopRequested | notRequested | stopExec | lockEnd | unlockEnd =>
      exact fun _ => rfl
  | hit ctl msgs ret hp =>
      cases ret with
      | true => exact fun _ => rfl
      | false => exact fun _ => rfl
  | signalEnd hp => exact fun hw => absurd hw (signalReq_ne_waiting _)

theorem Signalled.step {a : Label} (h : Signalled s) (hok : StopOk s a) (hm : Move s a s') :
    Signalled s' := by
  cases hm with
  | emu _ hm => exact h.emuMove hm
  | req _ hm =>
      cases hm with
      | doWait hp => exact fun _ => hok hp
      | _ => exact nofun
  | wakeEmu hp => exact fun hw => absurd (h hw) (by rw [hp]; exact nofun)
  | recv | recvFail | wakeReq => exact nofun

/-- Who waits, waits for something. -/
structure Awaited (s : Server) : Prop where
  emu : s.emuAt = .waiting → s.ctl.serverRunning = false ∨ s.reqAt = .signal
  req : Signalled s

theorem Awaited.not_lost (h : Awaited s) : ¬ LostWakeup s := by
  rintro (⟨he, hr, hrun⟩ | ⟨he, hr⟩)
  · rcases h.emu he with hf | hs
    · rw [hrun] at hf
      cases hf
    · exact hr hs
  · have hw := h.req hr
    rw [he] at hw
    cases hw

theorem Awaited.emuMove (h : Awaited s) (hm : EmuMove s s') : Awaited s' := by
  refine ⟨?_, h.req.emuMove hm⟩
  cases hm with
  | testWait hp hf => exact fun _ => .inl hf
  | hit ctl msgs ret =>
      cases ret with
      | true => exact nofun
      | false => exact nofun
  | _ => exact nofun

theorem Awaited.reqMove (h : Awaited s) (hok : WakeupOk s .req) (hm : ReqMove s s') :
    Awaited s' := by
  refine ⟨?_, h.req.step hok.stopOk (.req s' hm)⟩
  -- away from the signal the wait must have its reason in `server_running`
  have still {p : ReqPoint} (hp : s.reqAt = p) (hne : p ≠ .signal) :
      s.emuAt = .waiting → s.ctl.serverRunning = false := by
    intro hw
    exact (h.emu hw).resolve_right fun hs => hne (hp ▸ hs)
  cases hm with
  | lock hp | accept req hp | reject req hp | other req calls hp | setStop hp | stopLocked hp
  | doWait hp | woken hp | out hp => exact fun hw => .inl (still hp nofun hw)
  | controlFlow req ctl hp => exact fun _ => .inr rfl
  | stop hp => exact fun _ => .inl rfl
  | resume hp => exact fun hw => absurd hw (hok.1 hp)
  | signal hp => exact fun hw => absurd hw (signalEmu_ne_waiting _)

theorem Awaited.step {a : Label} (h : Awaited s) (hok : WakeupOk s a) (hm : Move s a s') :
    Awaited s' := by
  have hreq : Signalled s' := h.req.step hok.stopOk hm
  cases hm with
  | emu _ hm => exact h.emuMove hm
  | req _ hm => exact h.reqMove hok hm
  | recv req hp => exact ⟨fun hw => (h.emu hw).imp_right fun hs => (nomatch hp ▸ hs), hreq⟩
  | recvFail hp => exact ⟨fun hw => (h.emu hw).imp_right fun hs => (nomatch hp ▸ hs), hreq⟩
  | wakeEmu hp => exact ⟨nofun, hreq⟩
  | wakeReq hp => exact ⟨fun hw => (h.emu hw).imp_right fun hs => (nomatch hp ▸ hs), hreq⟩

/-- **No lost wakeup**, whatever the requests and whatever the order of the
threads, as long as the steps are good ones. -/
theorem no_lost_wakeup (mem : Nat → U64) (emu : Emu) (ls : List Label) (s : Server)
    (hrun : Runs mem emu ls s) (hok : Traces.Steps step WakeupOk (serverInit mem emu) ls) :
    ¬ LostWakeup s := by
  have hinit : Awaited (serverInit mem emu) := ⟨nofun, nofun⟩
  refine Awaited.not_lost (Traces.inv_exec (fun s a s' hs ha hstep => ?_) hinit hrun hok)
  exact hs.step ha (step_cases hstep)

/-- CONTINUE while the emulation thread waits, then MONITOR_STOP while it runs:
the request thread waits for the signal at the end of the run. -/
def continueThenStop : List Label :=
  [.emu, .emu, .req, .recv (some (.controlFlow .flowContinue)), .req, .req, .req, .req,
    .emu, .emu, .emu, .emu, .emu, .emu,
    .req, .recv (some (.monitor .stop)), .req, .req, .req, .req, .req]

theorem no_lost_wakeup_continueThenStop :
    ∃ s, Runs (fun _ => 0) (powerOn #[] #[]) continueThenStop s ∧ s.reqAt = .waiting ∧
      ¬ LostWakeup s := by
  obtain ⟨s, hs, hw⟩ := runs_of_any (P := fun s : Server => s.reqAt = .waiting)
    (fun _ => 0) (powerOn #[] #[]) continueThenStop (by decide +kernel)
  exact ⟨s, hs, hw, no_lost_wakeup _ _ _ s hs (by decide +kernel)⟩

/-- MONITOR_RESUME while the emulation thread waits. -/
def resumeWhileWaiting : List Label :=
  [.emu, .emu, .req, .recv (some (.monitor .resume)), .req, .req]

/-- CONTINUE and MONITOR_STOP before the emulation thread has looked. -/
def stopBeforeTest : List Label :=
  [.req, .recv (some (.controlFlow .flowContinue)), .req, .req, .req, .req,
    .req, .recv (some (.monitor .stop)), .req, .req, .req, .req, .req, .emu, .emu]

/-- Both kinds of lost wakeup are reachable. -/
theorem not_no_lost_wakeup :
    (¬ ∀ mem emu ls s, Runs mem emu ls s → ¬ EmuStranded s) ∧
      (¬ ∀ mem emu ls s, Runs mem emu ls s → ¬ BothBlocked s) := by
  constructor
  · intro h
    obtain ⟨s, hs, hlost⟩ := runs_of_any (P := EmuStranded) (fun _ => 0) (powerOn #[] #[])
      resumeWhileWaiting (by decide +kernel)
    exact h _ _ _ s hs hlost
  · intro h
    obtain ⟨s, hs, hlost⟩ := runs_of_any (P := BothBlocked) (fun _ => 0) (powerOn #[] #[])
      stopBeforeTest (by decide +kernel)
    exact h _ _ _ s hs hlost

/-! ## The other steps -/

/-- While a MONITOR_STOP is on its way to its wait, nothing runs. -/
def Stopping (s : Server) : Prop :=
  s.reqAt = .setStop ∨ s.reqAt = .stopLocked ∨ s.reqAt = .doWait → s.ctl.serverRunning = false

theorem Stopping.emuMove (h : Stopping s) (hm : EmuMove s s') : Stopping s' := by
  cases hm with
  | hit ctl msgs ret _ hhit =>
      intro hp
      have hr := (hitBreakpoint_frame s.pc s.ctl).1
      rw [hhit] at hr
      exact hr.trans (h hp)
  | stopExec => exact fun _ => rfl
  | signalEnd =>
      intro hp
      refine h ?_
      dsimp only at hp
      rwa [signalReq_eq_iff (by decide) (by decide), signalReq_eq_iff (by decide) (by decide),
        signalReq_eq_iff (by decide) (by decide)] at hp
  | _ => exact h

theorem Stopping.step {a : Label} (h : Stopping s) (hm : Move s a s') : Stopping s' := by
  cases hm with
  | emu _ hm => exact h.emuMove hm
  | req _ hm =>
      cases hm with
      | stop => exact fun _ => rfl
      | setStop hp => exact fun _ => h (.inl hp)
      | stopLocked hp => exact fun _ => h (.inr (.inl hp))
      | _ => exact nofun
  | recv => exact nofun
  | recvFail => exact nofun
  | wakeEmu => exact h
  | wakeReq => exact nofun

/-- **The other steps lose a wakeup**, at once or as soon as the emulation
thread has looked at `server_running`. -/
theorem lost_wakeup_of_not_ok {mem : Nat → U64} {emu : Emu} {ls : List Label} {a : Label}
    (hrun : Runs mem emu ls s) (hbad : ¬ WakeupOk s a) (hstep : step s a = some s') :
    ∃ ls' s'', Traces.exec step s' ls' = some s'' ∧ LostWakeup s'' := by
  have howned := owned_of_runs hrun
  have hstopping : Stopping s := by
    refine Traces.inv_exec_all (fun s a s' hs hstep => hs.step (step_cases hstep)) ?_ hrun
    exact nofun
  have hm := step_cases hstep
  cases hm with
  | req _ hm =>
      unfold WakeupOk at hbad
      rcases Classical.not_and_iff_not_or_not.mp hbad with hbad | hbad
      · -- MONITOR_RESUME
        obtain ⟨hp, hw⟩ := Classical.not_imp.mp hbad
        refine ⟨[], s', rfl, .inl ?_⟩
        cases hm <;> simp_all [EmuStranded, resumeExecution]
      · -- MONITOR_STOP
        obtain ⟨hp, hw⟩ := Classical.not_imp.mp hbad
        have hf := hstopping (.inr (.inr hp))
        have hs' : s' = { s with mtxServer := none, reqAt := .waiting } := by
          cases hm <;> simp_all
        have hnot := howned.not_both
        subst hs'
        cases he : s.emuAt with
        | waiting => exact ⟨[], _, rfl, .inr ⟨rfl, rfl⟩⟩
        | lockTop =>
            refine ⟨[.emu, .emu], { s with mtxServer := none, emuAt := .waiting, reqAt := .waiting },
              ?_, .inr ⟨rfl, rfl⟩⟩
            simp [Traces.exec, step, emuStep, lock, goEmu, unlock, hf]
        | woken =>
            refine ⟨[.emu, .emu, .emu, .emu],
              { s with mtxServer := none, emuAt := .waiting, reqAt := .waiting }, ?_,
              .inr ⟨rfl, rfl⟩⟩
            simp [Traces.exec, step, emuStep, lock, goEmu, unlock, hf]
        | testStopped | unlockWait =>
            rw [he, hp] at hnot
            exact absurd (hnot rfl) (by decide)
        | _ =>
            rw [he] at hw
            exact absurd rfl hw
  | _ => exact absurd trivial hbad

end Server

end RealBoy
