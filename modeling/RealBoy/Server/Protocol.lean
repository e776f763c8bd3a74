/-
# `RealBoy.Server.Protocol` — the two threads of a debugging session

`monitor_run` with a connected client, and `server_recv_request_and_dispatch`,
as a machine: each thread is at a program point, and a step takes one thread
from a point to the next.  The points are the calls on `mtx_server`,
`cnd_server_stop` and `quick_lock` and, between them, the accesses to the
statics of `server.c`.  The handler of a request is one step: it runs under
`mtx_server`, while the emulation thread is outside the loop that reads the
same statics without it.

A wait releases the mutex and blocks; it is left by a signal, or by a spurious
wakeup, which the machine allows at any time (`Label.wakeEmu`,
`Label.wakeReq`).  `calls` is not a variable of the program: it is the list of
`exec_next` and `emu_send_msg` calls made and of the requests dispatched.
-/
import RealBoy.Cpu.Exec
import RealBoy.Lib.Traces
import RealBoy.Server.Control

namespace RealBoy

/-- The threads, as owners of `mtx_server`. -/
inductive Thread where
  | emu
  | req
deriving DecidableEq

/-- The program points of `monitor_run`. -/
inductive EmuPoint where
  | lockTop       -- before the lock at the top of the loop
  | testStopped   -- before `server_is_stopped`
  | waiting       -- in `pthread_cond_wait`
  | woken         -- in `pthread_cond_wait`, before it has the mutex again
  | unlockWait
  | unlockRun
  | exec          -- before `exec_next`
  | gotStop       -- before `got_stop_request`
  | hit           -- before `hit_breakpoint`
  | stopExec      -- before the `stop_execution` of `hit_breakpoint`
  | lockEnd       -- after the inner loop
  | unlockEnd
  | signalEnd
deriving DecidableEq

/-- The program points of `server_recv_request_and_dispatch`. -/
inductive ReqPoint where
  | idle          -- not called, or before the lock
  | recv
  | check (req : Request)
  | dispatch (req : Request)
  | signal
  | setStop       -- before the lock of `set_stop_request`
  | stopLocked    -- in `set_stop_request`, `quick_lock` held for writing
  | doWait
  | waiting
  | woken
  | out
deriving DecidableEq

/-- What is recorded of a run. -/
inductive Call where
  | execNext
  | emuSendMsg (msg : Msg)
  | dispatch (req : Request)
deriving DecidableEq

/-- A debugging session. -/
structure Server where
  emu : Emu
  ctl : Control
  mtxServer : Option Thread
  emuAt : EmuPoint
  reqAt : ReqPoint
  calls : List Call

/-- Both threads before their first call, after `server_init(true)`. -/
def serverInit (mem : Nat → U64) (emu : Emu) : Server :=
  ⟨emu, .init mem, none, .lockTop, .idle, []⟩

namespace Server

/-- `pthread_cond_signal` with the emulation thread waiting, or not. -/
def signalEmu (p : EmuPoint) : EmuPoint := if p = .waiting then .woken else p

/-- `pthread_cond_signal` with the request thread waiting, or not. -/
def signalReq (p : ReqPoint) : ReqPoint := if p = .waiting then .woken else p

/-- The address `hit_breakpoint` looks at. -/
def pc (s : Server) : U32 := s.emu.regs.pc.setWidth 32

/-- The emulation thread moves on. -/
def goEmu (p : EmuPoint) (s : Server) : Server := { s with emuAt := p }

/-- The request thread moves on. -/
def goReq (p : ReqPoint) (s : Server) : Server := { s with reqAt := p }

/-- `pthread_mutex_lock`, if the mutex is free. -/
def lock (t : Thread) (s : Server) : Option Server :=
  if s.mtxServer = none then some { s with mtxServer := some t } else none

/-- `pthread_mutex_unlock`. -/
def unlock (s : Server) : Server := { s with mtxServer := none }

/-- A call is recorded. -/
def call (c : Call) (s : Server) : Server := { s with calls := s.calls ++ [c] }

/-- The emulation thread's next step. -/
def emuStep (s : Server) : Option Server :=
  match s.emuAt with
  | .lockTop => (s.lock .emu).map (goEmu .testStopped)
  | .testStopped =>
    if s.ctl.serverRunning then some (s.goEmu .unlockRun) else some (s.unlock.goEmu .waiting)
  | .waiting => none
  | .woken => (s.lock .emu).map (goEmu .unlockWait)
  | .unlockWait => some (s.unlock.goEmu .lockTop)
  | .unlockRun => some (s.unlock.goEmu .exec)
  | .exec => some (({ s with emu := execNext s.emu }.call .execNext).goEmu .gotStop)
  | .gotStop =>
    -- `pthread_rwlock_tryrdlock` fails while the other thread holds the lock
    if s.ctl.serverStopRequest ∧ s.reqAt ≠ .stopLocked then
      some ({ s with ctl := { s.ctl with serverStopRequest := false } }.goEmu .lockEnd)
    else some (s.goEmu .hit)
  | .hit =>
    let (ctl, msgs, ret) := hitBreakpoint s.pc s.ctl
    some ({ s with ctl := ctl, calls := s.calls ++ msgs.map Call.emuSendMsg }.goEmu
      (if ret then .stopExec else .exec))
  | .stopExec => some ({ s with ctl := stopExecution s.ctl }.goEmu .lockEnd)
  | .lockEnd => (s.lock .emu).map (goEmu .unlockEnd)
  | .unlockEnd => some (s.unlock.goEmu .signalEnd)
  | .signalEnd => some ((s.goReq (signalReq s.reqAt)).goEmu .lockTop)

/-- The dispatch of an accepted request. -/
def dispatchStep (req : Request) (s : Server) : Option Server :=
  let s := s.call (.dispatch req)
  match req with
  | .controlFlow req =>
    (dispatchControlFlow req s.ctl).map fun ctl => { s with ctl := ctl }.goReq .signal
  | .inspect => some ((s.call (.emuSendMsg .inspect)).goReq .out)
  | .monitor req =>
    some ({ s with ctl := dispatchMonitor req s.ctl }.goReq (if req = MonitorReq.stop then .setStop else .out))
  | .other => some (s.goReq .out)

/-- The request thread's next step, the receiving of a request aside. -/
def reqStep (s : Server) : Option Server :=
  match s.reqAt with
  | .idle => (s.lock .req).map (goReq .recv)
  | .recv => none
  | .check req =>
    if accepts req s.ctl.serverRunning then some (s.goReq (.dispatch req)) else some (s.goReq .out)
  | .dispatch req => s.dispatchStep req
  | .signal => some ((s.goEmu (signalEmu s.emuAt)).goReq .out)
  | .setStop => some (s.goReq .stopLocked)
  | .stopLocked =>
    some ({ s with ctl := { s.ctl with serverStopRequest := true } }.goReq .doWait)
  | .doWait => some (s.unlock.goReq .waiting)
  | .waiting => none
  | .woken => (s.lock .req).map (goReq .out)
  | .out => some (s.unlock.goReq .idle)

end Server

/-- What can happen next: a step of a thread, `emu_recv_msg` with the request it
returns (or -1), a spurious wakeup. -/
inductive Label where
  | emu
  | req
  | recv (req : Option Request)
  | wakeEmu
  | wakeReq
deriving DecidableEq

namespace Server

/-- One step of the session. -/
def step (s : Server) : Label → Option Server
  | .emu => s.emuStep
  | .req => s.reqStep
  | .recv req =>
    if s.reqAt = .recv then some (s.goReq (match req with | some req => .check req | none => .out))
    else none
  | .wakeEmu => if s.emuAt = .waiting then some (s.goEmu .woken) else none
  | .wakeReq => if s.reqAt = .waiting then some (s.goReq .woken) else none

/-- The session reaches `s` by `ls`. -/
def Runs (mem : Nat → U64) (emu : Emu) (ls : List Label) (s : Server) : Prop :=
  Traces.exec step (serverInit mem emu) ls = some s

/-- A run that ends in a state with `P`, found by running it. -/
theorem runs_of_any {P : Server → Prop} [DecidablePred P] (mem : Nat → U64) (emu : Emu)
    (ls : List Label)
    (h : (Traces.exec step (serverInit mem emu) ls).any (fun s => decide (P s)) = true) :
    ∃ s, Runs mem emu ls s ∧ P s :=
  Traces.exec_of_any h

/-! ## What one step does -/

/-- The steps of the emulation thread. -/
inductive EmuMove (s : Server) : Server → Prop where
  | lockTop : s.emuAt = .lockTop → s.mtxServer = none →
      EmuMove s { s with mtxServer := some .emu, emuAt := .testStopped }
  | testRun : s.emuAt = .testStopped → s.ctl.serverRunning = true →
      EmuMove s { s with emuAt := .unlockRun }
  | testWait : s.emuAt = .testStopped → s.ctl.serverRunning = false →
      EmuMove s { s with mtxServer := none, emuAt := .waiting }
  | woken : s.emuAt = .woken → s.mtxServer = none →
      EmuMove s { s with mtxServer := some .emu, emuAt := .unlockWait }
  | unlockWait : s.emuAt = .unlockWait → EmuMove s { s with mtxServer := none, emuAt := .lockTop }
  | unlockRun : s.emuAt = .unlockRun → EmuMove s { s with mtxServer := none, emuAt := .exec }
  | exec : s.emuAt = .exec →
      EmuMove s { s with
        emu := execNext s.emu, calls := s.calls ++ [.execNext], emuAt := .gotStop }
  | stopRequested : s.emuAt = .gotStop → s.ctl.serverStopRequest = true → s.reqAt ≠ .stopLocked →
      EmuMove s { s with
        ctl := { s.ctl with serverStopRequest := false }, emuAt := .lockEnd }
  | notRequested : s.emuAt = .gotStop → s.ctl.serverStopRequest = false ∨ s.reqAt = .stopLocked →
      EmuMove s { s with emuAt := .hit }
  | hit (ctl : Control) (msgs : List Msg) (ret : Bool) : s.emuAt = .hit →
      hitBreakpoint s.pc s.ctl = (ctl, msgs, ret) →
      EmuMove s { s with
        ctl := ctl, calls := s.calls ++ msgs.map .emuSendMsg
        emuAt := if ret then .stopExec else .exec }
  | stopExec : s.emuAt = .stopExec →
      EmuMove s { s with ctl := stopExecution s.ctl, emuAt := .lockEnd }
  | lockEnd : s.emuAt = .lockEnd → s.mtxServer = none →
      EmuMove s { s with mtxServer := some .emu, emuAt := .unlockEnd }
  | unlockEnd : s.emuAt = .unlockEnd →
      EmuMove s { s with mtxServer := none, emuAt := .signalEnd }
  | signalEnd : s.emuAt = .signalEnd →
      EmuMove s { s with reqAt := signalReq s.reqAt, emuAt := .lockTop }

/-- The steps of the request thread. -/
inductive ReqMove (s : Server) : Server → Prop where
  | lock : s.reqAt = .idle → s.mtxServer = none →
      ReqMove s { s with mtxServer := some .req, reqAt := .recv }
  | accept (req : Request) : s.reqAt = .check req → accepts req s.ctl.serverRunning = true →
      ReqMove s { s with reqAt := .dispatch req }
  | reject (req : Request) : s.reqAt = .check req → accepts req s.ctl.serverRunning = false →
      ReqMove s { s with reqAt := .out }
  | controlFlow (req : ControlFlow) (ctl : Control) : s.reqAt = .dispatch (.controlFlow req) →
      dispatchControlFlow req s.ctl = some ctl →
      ReqMove s { s with
        ctl := ctl, calls := s.calls ++ [.dispatch (.controlFlow req)], reqAt := .signal }
  | stop : s.reqAt = .dispatch (.monitor .stop) →
      ReqMove s { s with
        ctl := stopExecution s.ctl, calls := s.calls ++ [.dispatch (.monitor .stop)]
        reqAt := .setStop }
  | resume : s.reqAt = .dispatch (.monitor .resume) →
      ReqMove s { s with
        ctl := resumeExecution s.ctl, calls := s.calls ++ [.dispatch (.monitor .resume)]
        reqAt := .out }
  | other (req : Request) (calls : List Call) : s.reqAt = .dispatch req →
      req = .inspect ∨ req = .monitor .other ∨ req = .other →
      (∀ c ∈ calls, c = .dispatch req ∨ c = .emuSendMsg .inspect) →
      ReqMove s { s with calls := s.calls ++ calls, reqAt := .out }
  | signal : s.reqAt = .signal → ReqMove s { s with emuAt := signalEmu s.emuAt, reqAt := .out }
  | setStop : s.reqAt = .setStop → ReqMove s { s with reqAt := .stopLocked }
  | stopLocked : s.reqAt = .stopLocked →
      ReqMove s { s with ctl := { s.ctl with serverStopRequest := true }, reqAt := .doWait }
  | doWait : s.reqAt = .doWait → ReqMove s { s with mtxServer := none, reqAt := .waiting }
  | woken : s.reqAt = .woken → s.mtxServer = none →
      ReqMove s { s with mtxServer := some .req, reqAt := .out }
  | out : s.reqAt = .out → ReqMove s { s with mtxServer := none, reqAt := .idle }

/-- The steps of the session. -/
inductive Move (s : Server) : Label → Server → Prop where
  | emu (s' : Server) : EmuMove s s' → Move s .emu s'
  | req (s' : Server) : ReqMove s s' → Move s .req s'
  | recv (req : Request) : s.reqAt = .recv → Move s (.recv (some req)) { s with reqAt := .check req }
  | recvFail : s.reqAt = .recv → Move s (.recv none) { s with reqAt := .out }
  | wakeEmu : s.emuAt = .waiting → Move s .wakeEmu { s with emuAt := .woken }
  | wakeReq : s.reqAt = .waiting → Move s .wakeReq { s with reqAt := .woken }

variable {s s' : Server}

/-- A lock is taken when the mutex is free. -/
theorem lock_map_eq {t : Thread} {f : Server → Server} (h : (s.lock t).map f = some s') :
    s.mtxServer = none ∧ f { s with mtxServer := some t } = s' := by
  obtain ⟨s₁, hs₁, hf⟩ := Option.map_eq_some_iff.mp h
  obtain ⟨hm, hl⟩ := Option.ite_none_right_eq_some.mp hs₁
  exact ⟨hm, Option.some.inj hl ▸ hf⟩

theorem emuStep_cases (h : s.emuStep = some s') : EmuMove s s' := by
  unfold emuStep at h
  split at h
  case h_1 hp =>
    obtain ⟨hm, rfl⟩ := lock_map_eq h
    exact .lockTop hp hm
  case h_2 hp =>
    split at h
    case isTrue hr => exact Option.some.inj h ▸ .testRun hp hr
    case isFalse hr => exact Option.some.inj h ▸ .testWait hp (Bool.not_eq_true _ ▸ hr)
  case h_3 => cases h
  case h_4 hp =>
    obtain ⟨hm, rfl⟩ := lock_map_eq h
    exact .woken hp hm
  case h_5 hp => exact Option.some.inj h ▸ .unlockWait hp
  case h_6 hp => exact Option.some.inj h ▸ .unlockRun hp
  case h_7 hp => exact Option.some.inj h ▸ .exec hp
  case h_8 hp =>
    split at h
    case isTrue hr => exact Option.some.inj h ▸ .stopRequested hp hr.1 hr.2
    case isFalse hr =>
      refine Option.some.inj h ▸ .notRequested hp ?_
      rcases Bool.eq_false_or_eq_true s.ctl.serverStopRequest with hs | hs
      · exact .inr (not_not.mp fun hn => hr ⟨hs, hn⟩)
      · exact .inl hs
  case h_9 hp => exact Option.some.inj h ▸ .hit _ _ _ hp rfl
  case h_10 hp => exact Option.some.inj h ▸ .stopExec hp
  case h_11 hp =>
    obtain ⟨hm, rfl⟩ := lock_map_eq h
    exact .lockEnd hp hm
  case h_12 hp => exact Option.some.inj h ▸ .unlockEnd hp
  case h_13 hp => exact Option.some.inj h ▸ .signalEnd hp

theorem dispatchStep_cases {req : Request} (hp : s.reqAt = .dispatch req)
    (h : s.dispatchStep req = some s') : ReqMove s s' := by
  cases req with
  | controlFlow req =>
      obtain ⟨ctl, hctl, rfl⟩ := Option.map_eq_some_iff.mp h
      exact .controlFlow req ctl hp hctl
  | inspect =>
      have he := Option.some.inj h
      rw [← he]
      have hcalls : s.calls ++ [Call.dispatch .inspect] ++ [.emuSendMsg .inspect] =
          s.calls ++ [.dispatch .inspect, .emuSendMsg .inspect] := List.append_assoc _ _ _
      have hmove := ReqMove.other (s := s) .inspect [.dispatch .inspect, .emuSendMsg .inspect] hp
        (.inl rfl) (by simp)
      rw [← hcalls] at hmove
      exact hmove
  | monitor req =>
      cases req with
      | stop => exact Option.some.inj h ▸ .stop hp
      | resume => exact Option.some.inj h ▸ .resume hp
      | other =>
          exact Option.some.inj h ▸ .other (.monitor .other) [_] hp (.inr (.inl rfl)) (by simp)
  | other => exact Option.some.inj h ▸ .other .other [_] hp (.inr (.inr rfl)) (by simp)

theorem reqStep_cases (h : s.reqStep = some s') : ReqMove s s' := by
  unfold reqStep at h
  split at h
  case h_1 hp =>
    obtain ⟨hm, rfl⟩ := lock_map_eq h
    exact .lock hp hm
  case h_2 => cases h
  case h_3 req hp =>
    split at h
    case isTrue ha => exact Option.some.inj h ▸ .accept req hp ha
    case isFalse ha => exact Option.some.inj h ▸ .reject req hp (Bool.not_eq_true _ ▸ ha)
  case h_4 req hp => exact dispatchStep_cases hp h
  case h_5 hp => exact Option.some.inj h ▸ .signal hp
  case h_6 hp => exact Option.some.inj h ▸ .setStop hp
  case h_7 hp => exact Option.some.inj h ▸ .stopLocked hp
  case h_8 hp => exact Option.some.inj h ▸ .doWait hp
  case h_9 => cases h
  case h_10 hp =>
    obtain ⟨hm, rfl⟩ := lock_map_eq h
    exact .woken hp hm
  case h_11 hp => exact Option.some.inj h ▸ .out hp

/-- **What one step does.** -/
theorem step_cases {a : Label} (h : step s a = some s') : Move s a s' := by
  cases a with
  | emu => exact .emu s' (emuStep_cases h)
  | req => exact .req s' (reqStep_cases h)
  | recv req =>
      obtain ⟨hp, h⟩ := Option.ite_none_right_eq_some.mp h
      cases req with
      | none => exact Option.some.inj h ▸ .recvFail hp
      | some req => exact Option.some.inj h ▸ .recv req hp
  | wakeEmu =>
      obtain ⟨hp, h⟩ := Option.ite_none_right_eq_some.mp h
      exact Option.some.inj h ▸ .wakeEmu hp
  | wakeReq =>
      obtain ⟨hp, h⟩ := Option.ite_none_right_eq_some.mp h
      exact Option.some.inj h ▸ .wakeReq hp

/-! ## The mutex -/

theorem signalReq_eq_iff {p q : ReqPoint} (hw : q ≠ .waiting) (hk : q ≠ .woken) :
    signalReq p = q ↔ p = q := by
  unfold signalReq
  split
  case isTrue hp =>
    subst hp
    exact ⟨fun h => absurd h.symm hk, fun h => absurd h.symm hw⟩
  case isFalse => exact Iff.rfl

theorem signalReq_ne_waiting (p : ReqPoint) : signalReq p ≠ .waiting := by
  unfold signalReq
  split
  case isTrue => exact nofun
  case isFalse hp => exact hp

theorem signalEmu_ne_waiting (p : EmuPoint) : signalEmu p ≠ .waiting := by
  unfold signalEmu
  split
  case isTrue => exact nofun
  case isFalse hp => exact hp

/-- The emulation thread holds the mutex. -/
def emuHolds : EmuPoint → Bool
  | .testStopped | .unlockWait | .unlockRun | .unlockEnd => true
  | _ => false

/-- The request thread holds the mutex. -/
def reqHolds : ReqPoint → Bool
  | .idle | .waiting | .woken => false
  | _ => true

@[simp] theorem emuHolds_signal (p : EmuPoint) : emuHolds (signalEmu p) = emuHolds p := by
  cases p <;> rfl

@[simp] theorem reqHolds_signal (p : ReqPoint) : reqHolds (signalReq p) = reqHolds p := by
  cases p <;> rfl

/-- The owner of the mutex is the thread at a point where it holds it. -/
structure Owned (s : Server) : Prop where
  emu : emuHolds s.emuAt = true ↔ s.mtxServer = some .emu
  req : reqHolds s.reqAt = true ↔ s.mtxServer = some .req

theorem Owned.emuMove (h : Owned s) (hm : EmuMove s s') : Owned s' := by
  obtain ⟨he, hr⟩ := h
  cases hm with
  | hit ctl msgs ret hp =>
      refine ⟨?_, hr⟩
      rw [hp] at he
      cases ret <;> exact he
  | _ => constructor <;> simp_all [emuHolds]

theorem Owned.reqMove (h : Owned s) (hm : ReqMove s s') : Owned s' := by
  obtain ⟨he, hr⟩ := h
  cases hm <;> constructor <;> simp_all [reqHolds]

theorem Owned.step {a : Label} (h : Owned s) (hm : Move s a s') : Owned s' := by
  cases hm with
  | emu _ hm => exact h.emuMove hm
  | req _ hm => exact h.reqMove hm
  | recv req hp => exact ⟨h.emu, by rw [← h.req, hp]; rfl⟩
  | recvFail hp => exact ⟨h.emu, by rw [← h.req, hp]; rfl⟩
  | wakeEmu hp => exact ⟨by rw [← h.emu, hp]; rfl, h.req⟩
  | wakeReq hp => exact ⟨h.emu, by rw [← h.req, hp]; rfl⟩

/-- **The mutex is owned as the program points say**, in every reachable state. -/
theorem owned_of_runs {mem : Nat → U64} {emu : Emu} {ls : List Label} (h : Runs mem emu ls s) :
    Owned s := by
  refine Traces.inv_exec_all (fun s a s' hs hstep => hs.step (step_cases hstep)) ?_ h
  exact ⟨by simp [serverInit, emuHolds], by simp [serverInit, reqHolds]⟩

/-- The two threads do not hold the mutex at once. -/
theorem Owned.not_both (h : Owned s) (he : emuHolds s.emuAt = true) : reqHolds s.reqAt = false := by
  rw [Bool.eq_false_iff]
  intro hr
  have h₁ := h.emu.mp he
  have h₂ := h.req.mp hr
  rw [h₁] at h₂
  cases h₂

/-- The mutex is free if neither thread holds it. -/
theorem Owned.free (h : Owned s) (hemu : emuHolds s.emuAt = false)
    (hreq : reqHolds s.reqAt = false) : s.mtxServer = none := by
  cases hm : s.mtxServer with
  | none => rfl
  | some t =>
      cases t with
      | emu => exact absurd (hemu.symm.trans (h.emu.mpr hm)) Bool.false_ne_true
      | req => exact absurd (hreq.symm.trans (h.req.mpr hm)) Bool.false_ne_true

end Server

end RealBoy
