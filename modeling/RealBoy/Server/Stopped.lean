/-
# `RealBoy.Server.Stopped` — the machine under the debugger

A client looks at a machine that does not run.  `server_running` alone does not say
so: MONITOR_STOP clears it first, and the emulation thread leaves its loop later.  In
between, the request thread waits, and while it waits nothing is dispatched.  So the
requests that touch what the loop touches are dispatched beside the loop only if that
wait is left too early, by a spurious wakeup (`exclusive_iff`).

What the client is shown then stays as it is until it resumes the machine
(`frozen_until_resumed`).  A stop takes effect within one instruction
(`stop_within_one`), and the thread that waits for it is woken
(`stop_acknowledged`).
-/
import RealBoy.Server.Flags
import RealBoy.Server.Wakeup

namespace RealBoy

/-- The requests that touch what the loop of `monitor_run` touches. -/
def Request.touches : Request → Bool
  | .controlFlow _ | .inspect => true
  | _ => false

namespace Server

/-- A MONITOR_STOP has been dispatched, and the wait for its effect is not over. -/
def stopPending : ReqPoint → Bool
  | .setStop | .stopLocked | .doWait | .waiting => true
  | _ => false

/-- What the two threads share is touched by one of them. -/
def Exclusive (s : Server) : Prop :=
  ∀ req, s.reqAt = .dispatch req → req.touches = true → inLoop s.emuAt = false

/-- The wait for the effect of a stop is not left before it. -/
def WakeOk (s : Server) : Label → Prop
  | .wakeReq => inLoop s.emuAt = false
  | _ => True

instance (s : Server) : (a : Label) → Decidable (WakeOk s a)
  | .wakeReq => inferInstanceAs (Decidable (_ = _))
  | .emu | .req | .recv _ | .wakeEmu => inferInstanceAs (Decidable True)

variable {s s' : Server}

/-! ## Who may touch what -/

/-- What `server_running` says about the threads. -/
structure Governed (s : Server) : Prop where
  pending : stopPending s.reqAt = true → s.ctl.serverRunning = false
  granted : ∀ req, s.reqAt = .dispatch req → req.touches = true → s.ctl.serverRunning = false

theorem Governed.emuMove (h : Governed s) (hm : EmuMove s s') : Governed s' := by
  obtain ⟨hp, hg⟩ := h
  cases hm with
  | hit ctl msgs ret _ hhit =>
      have hr := (hitBreakpoint_frame s.pc s.ctl).1
      rw [hhit] at hr
      exact ⟨fun h => hr.trans (hp h), fun req hat ht => hr.trans (hg req hat ht)⟩
  | stopExec => exact ⟨fun _ => rfl, fun _ _ _ => rfl⟩
  | signalEnd =>
      refine ⟨fun h => hp ?_, fun req hat ht => hg req ?_ ht⟩
      · dsimp only at h
        unfold signalReq at h
        split at h
        · cases h
        · exact h
      · exact (signalReq_eq_iff (by nofun) (by nofun)).mp hat
  | _ => exact ⟨hp, hg⟩

theorem Governed.reqMove (h : Governed s) (hm : ReqMove s s') : Governed s' := by
  obtain ⟨hp, hg⟩ := h
  cases hm with
  | accept req hat ha =>
      refine ⟨nofun, fun req' hat' ht => ?_⟩
      cases hat'
      cases req with
      | controlFlow | inspect => exact Bool.not_eq_true' _ ▸ ha
      | monitor | other => cases ht
  | stop => exact ⟨fun _ => rfl, nofun⟩
  | setStop hat => exact ⟨fun _ => hp (by rw [hat]; rfl), nofun⟩
  | stopLocked hat => exact ⟨fun _ => hp (by rw [hat]; rfl), nofun⟩
  | doWait hat => exact ⟨fun _ => hp (by rw [hat]; rfl), nofun⟩
  | _ => exact ⟨nofun, nofun⟩

theorem Governed.step {a : Label} (h : Governed s) (hm : Move s a s') : Governed s' := by
  cases hm with
  | emu _ hm => exact h.emuMove hm
  | req _ hm => exact h.reqMove hm
  | wakeEmu => exact ⟨h.pending, h.granted⟩
  | recv | recvFail | wakeReq => exact ⟨nofun, nofun⟩

theorem governed_of_runs {mem : Nat → U64} {emu : Emu} {ls : List Label} (h : Runs mem emu ls s) :
    Governed s := by
  refine Traces.inv_exec_all (fun s a s' hs hstep => hs.step (step_cases hstep)) ?_ h
  exact ⟨nofun, nofun⟩

theorem StopWaits.step_of_wakeOk {a : Label} (h : StopWaits s) (hok : WakeOk s a)
    (hm : Move s a s') : StopWaits s' := by
  by_cases ha : a = .wakeReq
  · subst ha
    cases hm with
    | wakeReq =>
        intro hl
        rw [show inLoop s.emuAt = false from hok] at hl
        cases hl
  · exact h.step ha hm

theorem stopWaits_of_runs {mem : Nat → U64} {emu : Emu} {ls : List Label} (h : Runs mem emu ls s)
    (hok : Traces.Steps step WakeOk (serverInit mem emu) ls) : StopWaits s := by
  have hinit : StopWaits (serverInit mem emu) := nofun
  exact Traces.inv_exec (fun s a s' hs ha hstep => hs.step_of_wakeOk ha (step_cases hstep)) hinit h hok

/-- Both say together that nothing is touched twice. -/
theorem StopWaits.exclusive (h : StopWaits s) (hg : Governed s) : Exclusive s := by
  intro req hat ht
  by_contra hl
  have hw := h (Bool.not_eq_false _ ▸ hl) (hg.granted req hat ht)
  rw [hat] at hw
  exact absurd hw (by simp)

/-! ## A wait that is left too early -/

/-- INSPECT, received by a request thread that was woken while the loop runs. -/
theorem exposed_of_woken (hg : s.ctl.serverRunning = false) (hm : s.mtxServer = none)
    (hat : s.reqAt = .woken) (hl : inLoop s.emuAt = true) :
    ∃ s', Traces.exec step s [.req, .req, .req, .recv (some .inspect), .req] = some s' ∧
      ¬ Exclusive s' := by
  have hrun : Traces.exec step s [.req, .req, .req, .recv (some .inspect), .req] =
      some { s with mtxServer := some .req, reqAt := .dispatch .inspect } := by
    simp [Traces.exec, step, reqStep, lock, goReq, unlock, accepts, hat, hm, hg]
  refine ⟨_, hrun, fun h => ?_⟩
  have hout := h .inspect rfl rfl
  rw [show inLoop s.emuAt = true from hl] at hout
  cases hout

/-- So a spurious wakeup while the loop runs exposes it. -/
theorem exposed_of_wakeReq (h : Governed s) (ho : Owned s) (hat : s.reqAt = .waiting)
    (hl : inLoop s.emuAt = true) :
    ∃ ls s', Traces.exec step (s.goReq .woken) ls = some s' ∧ (∀ a ∈ ls, a ≠ .wakeReq) ∧
      ¬ Exclusive s' := by
  have hoff := h.pending (by rw [hat]; rfl)
  have hout : reqHolds s.reqAt = false := by rw [hat]; rfl
  cases he : s.emuAt with
  | unlockRun =>
      -- the emulation thread still has the mutex
      have hemu : step (s.goReq .woken) .emu = some ((s.goReq .woken).unlock.goEmu .exec) := by
        simp [step, emuStep, he, unlock, goEmu, goReq]
      obtain ⟨s', hs', hno⟩ :=
        exposed_of_woken (s := (s.goReq .woken).unlock.goEmu .exec) hoff rfl rfl rfl
      exact ⟨_, s', Traces.exec_cons.mpr ⟨_, hemu, hs'⟩, by decide, hno⟩
  | exec | gotStop | hit | stopExec =>
      have hfree := ho.free (by rw [he]; rfl) hout
      obtain ⟨s', hs', hno⟩ := exposed_of_woken (s := s.goReq .woken) hoff hfree rfl hl
      exact ⟨_, s', hs', by decide, hno⟩
  | lockTop | testStopped | waiting | woken | unlockWait | lockEnd | unlockEnd | signalEnd =>
      rw [he] at hl
      cases hl

/-- **Exclusion.**  In a run whose waits for a stop have not been left too early, the next
step is no such one if and only if, however the session goes on without one, no
request that touches what the loop touches is dispatched while the loop runs. -/
theorem exclusive_iff (mem : Nat → U64) (emu : Emu) (ls : List Label) (s s' : Server) (a : Label)
    (hrun : Runs mem emu ls s) (hok : Traces.Steps step WakeOk (serverInit mem emu) ls)
    (hstep : step s a = some s') :
    (∀ ls' s'', Traces.exec step s' ls' = some s'' → Traces.Steps step WakeOk s' ls' →
      Exclusive s'') ↔ WakeOk s a := by
  have howned := owned_of_runs hrun
  have hgov := governed_of_runs hrun
  have hwaits := stopWaits_of_runs hrun hok
  constructor
  · intro hall
    cases step_cases hstep with
    | wakeReq hat =>
        by_contra hl
        obtain ⟨ls', s'', hs'', hls', hno⟩ :=
          exposed_of_wakeReq hgov howned hat (Bool.not_eq_false _ ▸ hl)
        refine hno (hall ls' s'' hs'' (Traces.steps_of_forall fun a ha s => ?_))
        cases a with
        | wakeReq => exact absurd rfl (hls' _ ha)
        | emu | req | recv | wakeEmu => trivial
    | emu | req | recv | recvFail | wakeEmu => trivial
  · intro ha ls' s'' hrun' hok'
    have hmove := step_cases hstep
    have hboth := Traces.inv_exec (I := fun s => StopWaits s ∧ Governed s)
      (fun s a s' hs ha hstep =>
        ⟨hs.1.step_of_wakeOk ha (step_cases hstep), hs.2.step (step_cases hstep)⟩)
      ⟨hwaits.step_of_wakeOk ha hmove, hgov.step hmove⟩ hrun' hok'
    exact hboth.1.exclusive hboth.2

/-- CONTINUE and MONITOR_STOP while the loop runs: a spurious wakeup exposes it. -/
theorem exclusive_iff_continueThenStop :
    ∃ s s', Runs (fun _ => 0) (powerOn #[] #[]) continueThenStop s ∧ step s .wakeReq = some s' ∧
      ¬ ∀ ls' s'', Traces.exec step s' ls' = some s'' → Traces.Steps step WakeOk s' ls' →
        Exclusive s'' := by
  obtain ⟨s, hs, hw, hl⟩ := runs_of_any
    (P := fun s : Server => s.reqAt = .waiting ∧ inLoop s.emuAt = true)
    (fun _ => 0) (powerOn #[] #[]) continueThenStop (by decide)
  have hstep : step s .wakeReq = some (s.goReq .woken) := if_pos hw
  refine ⟨s, _, hs, hstep, fun hall => ?_⟩
  have hok := (exclusive_iff _ _ continueThenStop s _ .wakeReq hs (by decide) hstep).mp hall
  rw [show inLoop s.emuAt = false from hok] at hl
  cases hl

/-! ## Until it is resumed -/

/-- No request that resumes the machine is dispatched. -/
def Unresumed (s : Server) : Label → Prop
  | .req => ∀ req, s.reqAt = .dispatch req → startsRun req = false
  | _ => True

instance (s : Server) : (a : Label) → Decidable (Unresumed s a)
  | .req =>
    decidable_of_iff (∀ req ∈ dispatched s.reqAt, startsRun req = false)
      (forall_congr' fun _ => imp_congr_left mem_dispatched)
  | .emu | .recv _ | .wakeEmu | .wakeReq => inferInstanceAs (Decidable True)

/-- What a client may be told meanwhile. -/
def IsAnswer (c : Call) : Prop := (∃ req, c = .dispatch req) ∨ c = .emuSendMsg .inspect

/-- A stopped machine, and what has been said since `s₀`. -/
structure Shows (s₀ s : Server) : Prop where
  stopped : Stopped s
  emu : s.emu = s₀.emu
  calls : ∃ cs, s.calls = s₀.calls ++ cs ∧ ∀ c ∈ cs, IsAnswer c

theorem Stopped.emuMove (h : Stopped s) (hm : EmuMove s s') :
    Stopped s' ∧ s'.emu = s.emu ∧ s'.calls = s.calls := by
  obtain ⟨hr, hout⟩ := h
  cases hm with
  | testRun _ hrun => exact absurd (hr.symm.trans hrun) Bool.false_ne_true
  | unlockRun hp | exec hp | stopRequested hp | notRequested hp | hit _ _ _ hp | stopExec hp =>
      rw [hp] at hout
      cases hout
  | _ => exact ⟨⟨hr, rfl⟩, rfl, rfl⟩

theorem Stopped.reqMove (h : Stopped s) (hno : Unresumed s .req) (hm : ReqMove s s') :
    Stopped s' ∧ s'.emu = s.emu ∧ ∃ cs, s'.calls = s.calls ++ cs ∧ ∀ c ∈ cs, IsAnswer c := by
  obtain ⟨hr, hout⟩ := h
  have hnone : ∃ cs, s.calls = s.calls ++ cs ∧ ∀ c ∈ cs, IsAnswer c :=
    ⟨[], (List.append_nil _).symm, nofun⟩
  have hone (req : Request) : ∀ c ∈ [Call.dispatch req], IsAnswer c := fun c hc =>
    .inl ⟨req, List.mem_singleton.mp hc⟩
  cases hm with
  | controlFlow req ctl hp hctl =>
      obtain ⟨list, rfl⟩ := dispatchControlFlow_list (hno _ hp) hctl
      exact ⟨⟨hr, hout⟩, rfl, _, rfl, hone _⟩
  | stop => exact ⟨⟨rfl, hout⟩, rfl, _, rfl, hone _⟩
  | resume hp => cases hno _ hp
  | other req calls _ _ hcalls =>
      refine ⟨⟨hr, hout⟩, rfl, calls, rfl, fun c hc => ?_⟩
      exact (hcalls c hc).imp_left fun he => ⟨req, he⟩
  | signal => exact ⟨⟨hr, (inLoop_signalEmu _).trans hout⟩, rfl, hnone⟩
  | _ => exact ⟨⟨hr, hout⟩, rfl, hnone⟩

theorem Shows.step {s₀ : Server} {a : Label} (h : Shows s₀ s) (hno : Unresumed s a)
    (hm : Move s a s') : Shows s₀ s' := by
  obtain ⟨hf, hemu, cs, hcs, hans⟩ := h
  cases hm with
  | emu _ hm =>
      obtain ⟨hf', hemu', hcalls⟩ := hf.emuMove hm
      exact ⟨hf', hemu'.trans hemu, cs, hcalls.trans hcs, hans⟩
  | req _ hm =>
      obtain ⟨hf', hemu', cs', hcs', hans'⟩ := hf.reqMove hno hm
      refine ⟨hf', hemu'.trans hemu, cs ++ cs', ?_, fun c hc => ?_⟩
      · rw [hcs', hcs, List.append_assoc]
      · exact (List.mem_append.mp hc).elim (hans c) (hans' c)
  | wakeEmu => exact ⟨⟨hf.1, rfl⟩, hemu, cs, hcs, hans⟩
  | recv | recvFail | wakeReq => exact ⟨hf, hemu, cs, hcs, hans⟩

/-- **What a client is shown stays as it is until it resumes the machine.**  Where no
wait for the effect of a stop has been left before it: from the dispatch of an INSPECT
on, in any order of the threads and whatever is asked for, the emulated machine is the
one that is inspected, and the client hears nothing but answers. -/
theorem frozen_until_resumed (mem : Nat → U64) (emu : Emu) (ls ls' : List Label) (s s' : Server)
    (hrun : Runs mem emu ls s) (hok : Traces.Steps step WakeOk (serverInit mem emu) ls)
    (hat : s.reqAt = .dispatch .inspect) (hrun' : Traces.exec step s ls' = some s')
    (hno : Traces.Steps step Unresumed s ls') :
    s'.emu = s.emu ∧ ∃ cs, s'.calls = s.calls ++ cs ∧ ∀ c ∈ cs, IsAnswer c := by
  have hgov := governed_of_runs hrun
  have hwaits := stopWaits_of_runs hrun hok
  have hshows : Shows s s :=
    { stopped := ⟨hgov.granted _ hat rfl, hwaits.exclusive hgov _ hat rfl⟩
      emu := rfl
      calls := ⟨[], (List.append_nil _).symm, nofun⟩ }
  have hend : Shows s s' :=
    Traces.inv_exec (fun s a s' hs ha hstep => hs.step ha (step_cases hstep)) hshows hrun' hno
  exact ⟨hend.emu, hend.calls⟩

/-- INSPECT of a machine that has run and was stopped. -/
def inspectAfterStop : List Label :=
  continueThenStop ++ List.replicate 4 .emu ++ [.req, .req, .req, .recv (some .inspect), .req]

/-- The emulation thread comes to its wait, a BREAK and a spurious wakeup take it
through that once more, and there is another INSPECT. -/
def lookAround : List Label :=
  [.req, .req, .emu, .emu] ++ request (.flowBreak 5) ++ List.replicate 4 .emu ++ [.wakeEmu] ++
    List.replicate 4 .emu ++ [.req, .recv (some .inspect), .req, .req, .req]

theorem frozen_until_resumed_inspect :
    ∃ s s', Runs (fun _ => 0) (powerOn #[] #[]) inspectAfterStop s ∧
      s.reqAt = .dispatch .inspect ∧ Traces.exec step s lookAround = some s' ∧
      s'.emu = s.emu ∧ ∃ cs, s'.calls = s.calls ++ cs ∧ ∀ c ∈ cs, IsAnswer c := by
  obtain ⟨s, hs, hat, hgo, hno⟩ := runs_of_any
    (P := fun s : Server => s.reqAt = .dispatch .inspect ∧
      (Traces.exec step s lookAround).isSome ∧ Traces.Steps step Unresumed s lookAround)
    (fun _ => 0) (powerOn #[] #[]) inspectAfterStop (by decide +kernel)
  obtain ⟨s', hs'⟩ := Option.isSome_iff_exists.mp hgo
  exact ⟨s, s', hs, hat, hs', frozen_until_resumed _ _ inspectAfterStop lookAround s s' hs
    (by decide +kernel) hat hs' hno⟩

/-! ## Coming to a stop -/

/-- A request thread that waits for the loop to end has asked for it. -/
def Asked (s : Server) : Prop :=
  s.reqAt = .doWait ∨ s.reqAt = .waiting → inLoop s.emuAt = true →
    s.ctl.serverStopRequest = true

theorem Asked.step {a : Label} (h : Asked s) (hg : Governed s) (hm : Move s a s') : Asked s' := by
  cases hm with
  | emu _ hm =>
      cases hm with
      | testRun _ hr =>
          intro hat
          have hoff := hg.pending (hat.elim (fun h => by rw [h]; rfl) fun h => by rw [h]; rfl)
          exact absurd (hoff.symm.trans hr) Bool.false_ne_true
      | unlockRun hp | exec hp | notRequested hp =>
          exact fun hat _ => h hat (by rw [hp]; rfl)
      | hit ctl msgs ret hp hhit =>
          have hs := (hitBreakpoint_frame s.pc s.ctl).2
          rw [hhit] at hs
          exact fun hat _ => hs.trans (h hat (by rw [hp]; rfl))
      | _ => exact fun _ => nofun
  | req _ hm =>
      cases hm with
      | stopLocked => exact fun _ _ => rfl
      | doWait hp => exact fun _ => h (.inl hp)
      | _ => exact fun hat => hat.elim nofun nofun
  | wakeEmu => exact fun _ => nofun
  | recv | recvFail | wakeReq => exact fun hat => hat.elim nofun nofun

/-- The loop is about to end. -/
structure Ending (s : Server) : Prop where
  stopped : s.ctl.serverRunning = false
  asked : inLoop s.emuAt = true → s.ctl.serverStopRequest = true
  settled : s.reqAt ≠ .stopLocked ∧ s.reqAt ≠ .setStop ∧ s.reqAt ≠ .dispatch (.monitor .stop)

theorem ending_of_runs {mem : Nat → U64} {emu : Emu} {ls : List Label} (h : Runs mem emu ls s)
    (hat : s.reqAt = .doWait ∨ s.reqAt = .waiting) : Ending s := by
  have hinit : Governed (serverInit mem emu) := governed_of_runs (show Runs mem emu [] _ from rfl)
  have hboth : Governed s ∧ Asked s := by
    refine Traces.inv_exec_all (I := fun s => Governed s ∧ Asked s) (fun s a s' hs hstep => ?_) ?_ h
    · exact ⟨hs.1.step (step_cases hstep), hs.2.step hs.1 (step_cases hstep)⟩
    · exact ⟨hinit, by simp [Asked, serverInit]⟩
  refine ⟨hboth.1.pending ?_, hboth.2 hat, ?_⟩
  · rcases hat with h | h <;> rw [h] <;> rfl
  · rcases hat with h | h
    · simp [h]
    · simp [h]

/-- The instructions that are still run. -/
def execsLeft : EmuPoint → Nat
  | .unlockRun | .exec | .hit => 1
  | _ => 0

/-- The instructions so far, and those still to come. -/
def budget (s : Server) : Nat := s.calls.count .execNext + execsLeft s.emuAt

theorem count_answers {cs : List Call} (h : ∀ c ∈ cs, IsAnswer c) : cs.count .execNext = 0 := by
  refine List.count_eq_zero.mpr fun hmem => ?_
  rcases h _ hmem with ⟨_, he⟩ | he
  · cases he
  · cases he

theorem Ending.emuMove (h : Ending s) (hm : EmuMove s s') : Ending s' ∧ budget s' ≤ budget s := by
  obtain ⟨hr, ha, hset⟩ := h
  cases hm with
  | testRun _ hrun => exact absurd (hr.symm.trans hrun) Bool.false_ne_true
  | unlockRun hp =>
      refine ⟨⟨hr, fun _ => ha (by rw [hp]; rfl), hset⟩, ?_⟩
      simp [budget, execsLeft, hp]
  | exec hp =>
      refine ⟨⟨hr, fun _ => ha (by rw [hp]; rfl), hset⟩, ?_⟩
      simp [budget, execsLeft, hp, List.count_append]
  | notRequested hp hno =>
      have hreq := ha (by rw [hp]; rfl)
      rcases hno with hno | hno
      · exact absurd (hno.symm.trans hreq) Bool.false_ne_true
      · exact absurd hno hset.1
  | hit ctl msgs ret hp hhit =>
      obtain ⟨hr', hs'⟩ := hitBreakpoint_frame s.pc s.ctl
      rw [hhit] at hr' hs'
      refine ⟨⟨hr'.trans hr, fun _ => hs'.trans (ha (by rw [hp]; rfl)), hset⟩, ?_⟩
      have hmsgs : (msgs.map Call.emuSendMsg).count .execNext = 0 := by
        simp [List.count_eq_zero]
      unfold budget
      rw [List.count_append, hmsgs, hp]
      cases ret <;> simp [execsLeft]
  | signalEnd hp =>
      refine ⟨⟨hr, nofun, ?_⟩, ?_⟩
      · have hsame {q : ReqPoint} (hw : q ≠ .waiting) (hk : q ≠ .woken) (hne : s.reqAt ≠ q) :
            signalReq s.reqAt ≠ q := fun he => hne ((signalReq_eq_iff hw hk).mp he)
        exact ⟨hsame nofun nofun hset.1, hsame nofun nofun hset.2.1, hsame nofun nofun hset.2.2⟩
      · simp [budget, execsLeft]
  | stopExec => exact ⟨⟨rfl, nofun, hset⟩, by simp [budget, execsLeft]⟩
  | _ => exact ⟨⟨hr, nofun, hset⟩, by simp [budget, execsLeft]⟩

theorem Ending.reqMove (h : Ending s) (hno : Unresumed s .req) (hm : ReqMove s s') :
    Ending s' ∧ budget s' ≤ budget s := by
  obtain ⟨hr, ha, hset⟩ := h
  have hcalls (cs : List Call) (h : ∀ c ∈ cs, IsAnswer c) :
      (s.calls ++ cs).count .execNext = s.calls.count .execNext := by
    rw [List.count_append, count_answers h, Nat.add_zero]
  cases hm with
  | accept req hp hacc =>
      refine ⟨⟨hr, ha, nofun, nofun, fun he => ?_⟩, Nat.le_refl _⟩
      cases he
      exact absurd (hr.symm.trans hacc) Bool.false_ne_true
  | controlFlow req ctl hp hctl =>
      obtain ⟨list, rfl⟩ := dispatchControlFlow_list (hno _ hp) hctl
      refine ⟨⟨hr, ha, nofun, nofun, nofun⟩, ?_⟩
      unfold budget
      rw [hcalls _ fun c hc => .inl ⟨_, List.mem_singleton.mp hc⟩]
  | stop hp => exact absurd hp hset.2.2
  | resume hp => cases hno _ hp
  | other req calls _ _ hall =>
      refine ⟨⟨hr, ha, nofun, nofun, nofun⟩, ?_⟩
      unfold budget
      rw [hcalls _ fun c hc => (hall c hc).imp_left fun he => ⟨req, he⟩]
  | signal =>
      refine ⟨⟨hr, fun hl => ha ((inLoop_signalEmu _).symm.trans hl), nofun, nofun, nofun⟩, ?_⟩
      unfold budget signalEmu
      dsimp only
      split <;> simp [execsLeft]
  | setStop hp => exact absurd hp hset.2.1
  | stopLocked hp => exact absurd hp hset.1
  | _ => exact ⟨⟨hr, ha, nofun, nofun, nofun⟩, Nat.le_refl _⟩

theorem Ending.step {a : Label} (h : Ending s) (hno : Unresumed s a) (hm : Move s a s') :
    Ending s' ∧ budget s' ≤ budget s := by
  cases hm with
  | emu _ hm => exact h.emuMove hm
  | req _ hm => exact h.reqMove hno hm
  | wakeEmu => exact ⟨⟨h.stopped, nofun, h.settled⟩, by simp [budget, execsLeft]⟩
  | recv | recvFail | wakeReq =>
      exact ⟨⟨h.stopped, h.asked, nofun, nofun, nofun⟩, Nat.le_refl _⟩

/-- **A stop takes effect within one instruction.**  From where MONITOR_STOP has set its
request on, in any order of the threads and until the machine is resumed, no more than
one instruction is run. -/
theorem stop_within_one (mem : Nat → U64) (emu : Emu) (ls ls' : List Label) (s s' : Server)
    (hrun : Runs mem emu ls s) (hat : s.reqAt = .doWait) (hrun' : Traces.exec step s ls' = some s')
    (hno : Traces.Steps step Unresumed s ls') :
    s'.calls.count .execNext ≤ s.calls.count .execNext + 1 := by
  have hend := Traces.inv_exec (I := fun s' => Ending s' ∧ budget s' ≤ budget s)
    (fun s a s' hs ha hstep =>
      ⟨(hs.1.step ha (step_cases hstep)).1, (hs.1.step ha (step_cases hstep)).2.trans hs.2⟩)
    ⟨ending_of_runs hrun (.inl hat), Nat.le_refl _⟩ hrun' hno
  have hle : execsLeft s.emuAt ≤ 1 := by
    cases s.emuAt <;> decide
  have hbudget := hend.2
  unfold budget at hbudget
  omega

/-- MONITOR_STOP while the emulation thread is about to execute its second instruction. -/
def stopWhileRunning : List Label :=
  [.emu, .emu] ++ request .flowContinue ++ List.replicate 8 .emu ++
    [.req, .recv (some (.monitor .stop)), .req, .req, .req, .req]

/-- It executes it, leaves its loop and waits; then there is an INSPECT and a BREAK. -/
def comesToRest : List Label :=
  [.emu, .req] ++ List.replicate 4 .emu ++ [.req, .req, .emu, .emu] ++
    [.req, .recv (some .inspect), .req, .req, .req] ++ request (.flowBreak 5) ++
    List.replicate 4 .emu

theorem stop_within_one_continueThenStop :
    ∃ s s', Runs (fun _ => 0) (powerOn #[] #[]) stopWhileRunning s ∧ s.reqAt = .doWait ∧
      Traces.exec step s comesToRest = some s' ∧
      s'.calls.count .execNext ≤ s.calls.count .execNext + 1 := by
  obtain ⟨s, hs, hat, hgo, hno⟩ := runs_of_any
    (P := fun s : Server => s.reqAt = .doWait ∧ (Traces.exec step s comesToRest).isSome ∧
      Traces.Steps step Unresumed s comesToRest)
    (fun _ => 0) (powerOn #[] #[]) stopWhileRunning (by decide +kernel)
  obtain ⟨s', hs'⟩ := Option.isSome_iff_exists.mp hgo
  exact ⟨s, s', hs, hat, hs', stop_within_one _ _ stopWhileRunning comesToRest s s' hs hat hs' hno⟩

/-! ## The answer to a stop -/

/-- The points to the signal, of a run that is asked to stop. -/
def pointsLeft : EmuPoint → Nat
  | .unlockRun | .hit => 5
  | .exec => 4
  | .gotStop | .stopExec => 3
  | .lockEnd => 2
  | .unlockEnd => 1
  | _ => 0

/-- The emulation thread is on its way to wake the request thread. -/
structure Answering (s : Server) : Prop where
  ending : Ending s
  owned : Owned s
  waits : s.reqAt = .waiting
  signals : willSignal s.emuAt = true

/-- It has. -/
structure Answered (s : Server) : Prop where
  woken : s.reqAt = .woken
  stopped : Stopped s

/-- Nothing holds it up. -/
theorem Answering.enabled (h : Answering s) : ∃ s', step s .emu = some s' := by
  have hfree (hno : emuHolds s.emuAt = false) : s.mtxServer = none :=
    h.owned.free hno (by rw [h.waits]; rfl)
  have hsig := h.signals
  rw [step]
  unfold RealBoy.Server.emuStep
  cases hp : s.emuAt with
  | lockTop | testStopped | waiting | woken | unlockWait =>
      rw [hp] at hsig
      cases hsig
  | lockEnd =>
      rw [lock, if_pos (hfree (by rw [hp]; rfl))]
      exact ⟨_, rfl⟩
  | gotStop =>
      dsimp only
      split <;> exact ⟨_, rfl⟩
  | unlockRun | exec | hit | stopExec | unlockEnd | signalEnd => exact ⟨_, rfl⟩

/-- Each step is one point nearer to the signal, or is the signal. -/
theorem Answering.step (h : Answering s) (hm : EmuMove s s') :
    Answered s' ∨ (Answering s' ∧ pointsLeft s'.emuAt < pointsLeft s.emuAt) := by
  have hend := (h.ending.emuMove hm).1
  have howned := h.owned.emuMove hm
  have hsig := h.signals
  cases hm with
  | lockTop hp | testRun hp | testWait hp | woken hp | unlockWait hp =>
      rw [hp] at hsig
      cases hsig
  | notRequested hp hno =>
      have hreq := h.ending.asked (by rw [hp]; rfl)
      rcases hno with hno | hno
      · exact absurd (hno.symm.trans hreq) Bool.false_ne_true
      · exact absurd hno h.ending.settled.1
  | unlockRun hp | exec hp | stopRequested hp | stopExec hp | lockEnd hp | unlockEnd hp =>
      exact .inr ⟨⟨hend, howned, h.waits, rfl⟩, by simp [hp, pointsLeft]⟩
  | hit ctl msgs ret hp =>
      refine .inr ⟨⟨hend, howned, h.waits, ?_⟩, ?_⟩
      · cases ret <;> rfl
      · cases ret <;> simp [hp, pointsLeft]
  | signalEnd hp =>
      refine .inl ⟨?_, ⟨hend.stopped, rfl⟩⟩
      show signalReq s.reqAt = .woken
      rw [h.waits]
      rfl

/-- **A stop is answered.**  In a session whose MONITOR_STOPs begin to wait while a signal
is to come, whatever its MONITOR_RESUMEs do, a request thread that waits is woken within
six steps of the emulation thread, the only one that can step but for a spurious wakeup;
by then the loop is left. -/
theorem stop_acknowledged (mem : Nat → U64) (emu : Emu) (ls : List Label) (s : Server)
    (hrun : Runs mem emu ls s) (hok : Traces.Steps step StopOk (serverInit mem emu) ls)
    (hat : s.reqAt = .waiting) :
    ∃ n ≤ 6, ∃ s', Traces.exec step s (List.replicate n .emu) = some s' ∧ s'.reqAt = .woken ∧
      s'.ctl.serverRunning = false ∧ inLoop s'.emuAt = false := by
  have hinit : Signalled (serverInit mem emu) := nofun
  have hsignalled : Signalled s :=
    Traces.inv_exec (fun s a s' hs ha hstep => hs.step ha (step_cases hstep)) hinit hrun hok
  have hanswering : Answering s :=
    ⟨ending_of_runs hrun (.inr hat), owned_of_runs hrun, hat, hsignalled hat⟩
  have hnext (s : Server) (hs : Answering s) : ∃ s', step s .emu = some s' ∧
      (Answered s' ∨ (Answering s' ∧ pointsLeft s'.emuAt < pointsLeft s.emuAt)) := by
    obtain ⟨s', hs'⟩ := hs.enabled
    exact ⟨s', hs', hs.step (emuStep_cases hs')⟩
  obtain ⟨n, hn, s', hs', hw⟩ :=
    Traces.exec_replicate (fun s : Server => pointsLeft s.emuAt) hnext hanswering
  have hle : pointsLeft s.emuAt ≤ 5 := by
    cases s.emuAt <;> decide
  exact ⟨n, by omega, s', hs', hw.woken, hw.stopped.1, hw.stopped.2⟩

theorem stop_acknowledged_continueThenStop :
    ∃ s s' n, Runs (fun _ => 0) (powerOn #[] #[]) continueThenStop s ∧ n ≤ 6 ∧
      Traces.exec step s (List.replicate n .emu) = some s' ∧ s'.reqAt = .woken := by
  obtain ⟨s, hs, hat⟩ := runs_of_any (P := fun s : Server => s.reqAt = .waiting)
    (fun _ => 0) (powerOn #[] #[]) continueThenStop (by decide)
  obtain ⟨n, hn, s', hs', hw, -⟩ := stop_acknowledged _ _ continueThenStop s hs (by decide) hat
  exact ⟨s, s', n, hs, hn, hs', hw⟩

end Server

end RealBoy
