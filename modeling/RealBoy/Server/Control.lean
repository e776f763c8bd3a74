/-
# `RealBoy.Server.Control` — the debugger's requests and stops

The statics of `server.c` and the functions on them: the handlers of a request,
and `hit_breakpoint`.  Each is a function of the statics, and returns the
messages it sends.
-/
import RealBoy.Server.List

namespace RealBoy

/-- `TYPE_CONTROL_FLOW` requests; `flowDelete none` carries no address. -/
inductive ControlFlow where
  | flowUntil (addr : U32)
  | flowDelete (addr : Option U32)
  | flowContinue
  | flowNext
  | flowBreak (addr : U32)
  | flowOther
deriving DecidableEq

/-- `TYPE_MONITOR` requests. -/
inductive MonitorReq where
  | stop
  | resume
  | other
deriving DecidableEq

/-- A request; `other` is a type the `switch` has no case for. -/
inductive Request where
  | controlFlow (req : ControlFlow)
  | inspect
  | monitor (req : MonitorReq)
  | other
deriving DecidableEq

/-- A message to the client. -/
inductive Msg where
  | flowBreak (addr : U32)
  | flowUntil (addr : U32)
  | flowNext
  | inspect
deriving DecidableEq

/-- The statics of `server.c`. -/
structure Control where
  breakpointList : ListT
  untilAddr : U16
  controlFlowContinue : Bool
  controlFlowUntil : Bool
  controlFlowNext : Bool
  serverRunning : Bool
  serverStopRequest : Bool

/-- The statics after `server_init(true)`. -/
def Control.init (mem : Nat → U64) : Control :=
  ⟨createList mem, 0, false, false, false, false, false⟩

/-- `resume_execution`. -/
def resumeExecution (c : Control) : Control := { c with serverRunning := true }

/-- `stop_execution`. -/
def stopExecution (c : Control) : Control := { c with serverRunning := false }

/-- `handle_control_flow_until`; the address is stored in 16 bits. -/
def handleControlFlowUntil (addr : U32) (c : Control) : Control :=
  resumeExecution { c with controlFlowUntil := true, untilAddr := addr.setWidth 16 }

/-- `handle_control_flow_next`. -/
def handleControlFlowNext (c : Control) : Control :=
  resumeExecution { c with controlFlowNext := true }

/-- `handle_control_flow_break`. -/
def handleControlFlowBreak (addr : U32) (c : Control) : Control :=
  { c with breakpointList := listAdd (addr.setWidth 64) c.breakpointList }

/-- `handle_control_flow_delete`; `breakpoint` is a `uint32_t`. -/
def handleControlFlowDelete (addr : U32) (c : Control) : Option Control :=
  match ((listForEach c.breakpointList).map (·.setWidth 32)).find?
      fun breakpoint => breakpoint = addr ∨ addr = 0 with
  | some breakpoint => do
      let list ← listRemove (breakpoint.setWidth 64) c.breakpointList
      some { c with breakpointList := list }
  | none => some c

/-- `handle_control_flow_continue`. -/
def handleControlFlowContinue (c : Control) : Control :=
  resumeExecution { c with controlFlowContinue := true }

/-- `dispatch_control_flow`. -/
def dispatchControlFlow (req : ControlFlow) (c : Control) : Option Control :=
  match req with
  | .flowUntil addr => some (handleControlFlowUntil addr c)
  | .flowDelete addr => handleControlFlowDelete (addr.getD 0) c
  | .flowContinue => some (handleControlFlowContinue c)
  | .flowNext => some (handleControlFlowNext c)
  | .flowBreak addr => some (handleControlFlowBreak addr c)
  | .flowOther => some c

/-- `dispatch_monitor`. -/
def dispatchMonitor (req : MonitorReq) (c : Control) : Control :=
  match req with
  | .stop => stopExecution c
  | .resume => resumeExecution c
  | .other => c

/-- Whether `server_recv_request_and_dispatch` goes on to dispatch. -/
def accepts (req : Request) (serverRunning : Bool) : Bool :=
  match req with
  | .controlFlow _ => !serverRunning
  | .inspect => !serverRunning
  | .monitor .resume => !serverRunning
  | .monitor .stop => serverRunning
  | .monitor .other => true
  | .other => false

/-- PC is in the breakpoint list. -/
def atBreakpoint (addr : U32) (c : Control) : Bool :=
  (listForEach c.breakpointList).any fun breakpoint => breakpoint.setWidth 32 == addr

/-- PC is the until address. -/
def atUntil (addr : U32) (c : Control) : Bool := c.untilAddr.setWidth 32 == addr

/-- The part of `hit_breakpoint` for CONTINUE and UNTIL. -/
def hitAddress (addr : U32) (c : Control) : Control × List Msg × Bool :=
  if c.controlFlowContinue || c.controlFlowUntil then
    let found := atBreakpoint addr c
    let c := if found then { c with controlFlowContinue := false } else c
    if c.controlFlowUntil && atUntil addr c then
      ({ c with controlFlowUntil := false, controlFlowContinue := false, untilAddr := 0 },
        [.flowUntil addr], true)
    else if found then (c, [.flowBreak addr], true)
    else (c, [], false)
  else (c, [], false)

/-- `hit_breakpoint` up to its `stop_execution`: the statics, the messages sent
and `ret`. -/
def hitBreakpoint (addr : U32) (c : Control) : Control × List Msg × Bool :=
  let (c, msgs, ret) := hitAddress addr c
  if c.controlFlowNext then ({ c with controlFlowNext := false }, msgs ++ [.flowNext], true)
  else (c, msgs, ret)

/-! ## The cases of `hit_breakpoint` -/

/-- What the address part of `hit_breakpoint` finds. -/
inductive HitAddress (addr : U32) (c : Control) : Control × List Msg × Bool → Prop where
  | untilAddress : c.controlFlowUntil = true → atUntil addr c = true →
      HitAddress addr c
        ({ c with controlFlowUntil := false, controlFlowContinue := false, untilAddr := 0 },
          [.flowUntil addr], true)
  | breakpoint : c.controlFlowContinue = true ∨ c.controlFlowUntil = true →
      atBreakpoint addr c = true → (c.controlFlowUntil = true → atUntil addr c = false) →
      HitAddress addr c ({ c with controlFlowContinue := false }, [.flowBreak addr], true)
  | nothing : (c.controlFlowContinue = true ∨ c.controlFlowUntil = true →
        atBreakpoint addr c = false) →
      (c.controlFlowUntil = true → atUntil addr c = false) → HitAddress addr c (c, [], false)

theorem hitAddress_eq (addr : U32) (c : Control) :
    hitAddress addr c =
      if c.controlFlowContinue || c.controlFlowUntil then
        if c.controlFlowUntil && atUntil addr c then
          ({ c with controlFlowUntil := false, controlFlowContinue := false, untilAddr := 0 },
            [.flowUntil addr], true)
        else if atBreakpoint addr c then
          ({ c with controlFlowContinue := false }, [.flowBreak addr], true)
        else (c, [], false)
      else (c, [], false) := by
  unfold hitAddress
  cases atBreakpoint addr c <;> rfl

theorem hitAddress_cases (addr : U32) (c : Control) : HitAddress addr c (hitAddress addr c) := by
  rw [hitAddress_eq]
  split
  case isTrue hflag =>
    have hflag : c.controlFlowContinue = true ∨ c.controlFlowUntil = true :=
      Bool.or_eq_true_iff.mp hflag
    split
    case isTrue hu =>
      obtain ⟨hu, ha⟩ := Bool.and_eq_true_iff.mp hu
      exact .untilAddress hu ha
    case isFalse hu =>
      have hu : c.controlFlowUntil = true → atUntil addr c = false := by
        intro h
        rwa [h, Bool.true_and, Bool.not_eq_true] at hu
      split
      case isTrue hfound => exact .breakpoint hflag hfound hu
      case isFalse hfound => exact .nothing (fun _ => Bool.not_eq_true _ ▸ hfound) hu
  case isFalse hflag =>
    have hflag : ¬ (c.controlFlowContinue = true ∨ c.controlFlowUntil = true) :=
      fun h => hflag (Bool.or_eq_true_iff.mpr h)
    exact .nothing (fun h => absurd h hflag) fun h => absurd (.inr h) hflag

/-- What the address part leaves alone. -/
theorem hitAddress_frame (addr : U32) (c : Control) :
    (hitAddress addr c).1.serverRunning = c.serverRunning ∧
      (hitAddress addr c).1.serverStopRequest = c.serverStopRequest ∧
      (hitAddress addr c).1.controlFlowNext = c.controlFlowNext := by
  have h := hitAddress_cases addr c
  generalize hitAddress addr c = r at h ⊢
  cases h with
  | untilAddress => exact ⟨rfl, rfl, rfl⟩
  | breakpoint => exact ⟨rfl, rfl, rfl⟩
  | nothing => exact ⟨rfl, rfl, rfl⟩

/-- The address part, and then NEXT. -/
theorem hitBreakpoint_eq (addr : U32) (c : Control) :
    hitBreakpoint addr c =
      if c.controlFlowNext then
        ({ (hitAddress addr c).1 with controlFlowNext := false },
          (hitAddress addr c).2.1 ++ [.flowNext], true)
      else hitAddress addr c := by
  rw [← (hitAddress_frame addr c).2.2]
  rfl

/-- The run goes on until `stop_execution`, and no stop request is consumed. -/
theorem hitBreakpoint_frame (addr : U32) (c : Control) :
    (hitBreakpoint addr c).1.serverRunning = c.serverRunning ∧
      (hitBreakpoint addr c).1.serverStopRequest = c.serverStopRequest := by
  obtain ⟨hr, hs, -⟩ := hitAddress_frame addr c
  rw [hitBreakpoint_eq]
  split
  · exact ⟨hr, hs⟩
  · exact ⟨hr, hs⟩

end RealBoy
