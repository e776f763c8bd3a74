/-
# `RealBoy.Backends.Evdev` — key events on their way to the emulator

`evdev_dispatch` asks epoll which devices have something to read, and takes the
events of each from libevdev until there are none.  An event of one of twelve
keys goes to `monitor_set_key`, and there the function returns: it leaves the
loop over the devices, and what is still queued stays queued.  libevdev has read
the descriptor dry by then, so epoll does not speak of that device again
(`leftover_unannounced`) until something else happens on it.

The libraries are a parameter.  `View` is what their documentation speaks of,
`Documented` what it says.  A batch is drained just where it holds one such
event at most (`evdevDispatch_drains_iff`).
-/
import RealBoy.Emu.Joypad
import RealBoy.Lib.Drain

namespace RealBoy.Evdev

open Emu

/-! ## The libraries -/

/-- `ev.type`: EV_KEY, and any other. -/
inductive EventType where
  | key
  | other (type : U16)
deriving DecidableEq

/-- `struct input_event` as libevdev fills it in. -/
structure EvdevEvent extends InputEvent where
  type : EventType
deriving DecidableEq

/-- What `epoll_wait` returns, and the `data.ptr` of the events it stores. -/
structure EpollWait (σ Dev : Type) where
  numFds : Int
  eventList : Nat → Dev
  lib : σ

/-- What `libevdev_next_event` returns, and the event it stores. -/
structure NextEvent (σ : Type) where
  ret : Int
  ev : EvdevEvent
  lib : σ

/-- epoll and libevdev over a state of theirs: `epoll_wait` on `evdev_poll_fd`
with this many places and no waiting, `libevdev_next_event` in its normal mode. -/
structure Libs (σ Dev : Type) where
  epollWait : (maxEvents : Nat) → σ → EpollWait σ Dev
  nextEvent : Dev → σ → NextEvent σ

/-! ## The code -/

variable {σ Dev : Type}

def maxEvdevs : Nat := 10

/-- An entry of /dev/input/, and how the calls of `evdev_init` on it end. -/
structure DirEntry (Dev : Type) where
  name : List Char
  /-- there is memory for the path, and the file opens -/
  opened : Bool
  /-- `libevdev_new_from_fd` -/
  evdev : Option Dev
  /-- it has EV_KEY and KEY_ENTER -/
  hasEnter : Bool
  /-- `epoll_ctl` takes it -/
  added : Bool

/-- The loop of `evdev_init` over the directory; `none` is its way to `err`. -/
def evdevInitLoop : List (DirEntry Dev) → (evdevs : List Dev) → Option (List Dev)
  | [], evdevs => some evdevs
  | entry :: input, evdevs =>
    if evdevs.length < maxEvdevs then
      if "event".toList.isPrefixOf entry.name then
        if entry.opened then
          match entry.evdev with
          | none => none
          | some evdev =>
            if entry.hasEnter then
              if entry.added then evdevInitLoop input (evdevs ++ [evdev]) else none
            else evdevInitLoop input evdevs
        else none
      else evdevInitLoop input evdevs
    else some evdevs

/-- `evdevs` after `evdev_init`. -/
def evdevInit (input : List (DirEntry Dev)) : Option (List Dev) := evdevInitLoop input []

/-- The labels of the `switch`. -/
def keyHandled : KeyCode → Bool
  | .enter | .space | .d | .s | .left | .right | .up | .down | .h | .j | .k | .l => true
  | .other _ => false

/-- The event goes to `monitor_set_key`. -/
def EvdevEvent.handled (ev : EvdevEvent) : Bool := ev.type = .key && keyHandled ev.code

/-- What `evdev_dispatch` acts on, and the events it has passed to
`monitor_set_key`. -/
structure Dispatch (σ : Type) where
  lib : σ
  emu : Emu
  keyed : List EvdevEvent

/-- The call `monitor_set_key(&ev)`. -/
def Dispatch.setKey (isFocus : Bool) (ev : EvdevEvent) (st : Dispatch σ) : Dispatch σ :=
  { st with
    emu := monitorSetKey isFocus ev.toInputEvent st.emu
    keyed := st.keyed ++ [ev] }

/-- The `while` over the events of a device; `true` where it ends in the
`return`.  The fuel bounds its turns. -/
def dispatchDevice (lib : Libs σ Dev) (isFocus : Bool) (dev : Dev) :
    (fuel : Nat) → Dispatch σ → Option (Bool × Dispatch σ)
  | 0, _ => none
  | fuel + 1, st =>
    let next := lib.nextEvent dev st.lib
    let st := { st with lib := next.lib }
    if 0 ≤ next.ret then
      if next.ev.handled then
        some (true, st.setKey isFocus next.ev)
      else
        dispatchDevice lib isFocus dev fuel st
    else
      some (false, st)

/-- The `for` over the devices. -/
def dispatchDevices (lib : Libs σ Dev) (isFocus : Bool) (fuel : Nat) :
    List Dev → Dispatch σ → Option (Dispatch σ)
  | [], st => some st
  | dev :: devs, st => do
    let (returned, st) ← dispatchDevice lib isFocus dev fuel st
    if returned then some st else dispatchDevices lib isFocus fuel devs st

/-- `evdev_dispatch`. -/
def evdevDispatch (lib : Libs σ Dev) (isFocus : Bool) (evdevPollFd fd : Int) (fuel : Nat)
    (st : Dispatch σ) : Option (Dispatch σ) :=
  if fd ≠ evdevPollFd then some st
  else
    let wait := lib.epollWait 10 st.lib
    dispatchDevices lib isFocus fuel ((List.range wait.numFds.toNat).map wait.eventList)
      { st with lib := wait.lib }

/-- No more devices are registered than `event_list` has places. -/
theorem evdevInitLoop_length : ∀ {input : List (DirEntry Dev)} {evdevs devs : List Dev},
    evdevs.length ≤ maxEvdevs → evdevInitLoop input evdevs = some devs → devs.length ≤ maxEvdevs
  | [], evdevs, devs, hle, h => by
      cases h
      exact hle
  | entry :: input, evdevs, devs, hle, h => by
      rw [evdevInitLoop] at h
      split at h
      case isFalse =>
        cases h
        exact hle
      case isTrue hlt =>
        split at h
        case isFalse => exact evdevInitLoop_length hle h
        case isTrue =>
          split at h
          case isFalse => cases h
          case isTrue =>
            cases hdev : entry.evdev with
            | none => rw [hdev] at h; cases h
            | some evdev =>
                rw [hdev] at h
                dsimp only at h
                split at h
                case isFalse => exact evdevInitLoop_length hle h
                case isTrue =>
                  split at h
                  case isFalse => cases h
                  case isTrue =>
                    refine evdevInitLoop_length ?_ h
                    rw [List.length_append]
                    exact hlt

/-! ## What the libraries promise -/

/-- What the documentation speaks of: the devices epoll has to report, the
events libevdev holds of a device, and the ones still to be read from its
descriptor. -/
structure View (σ Dev : Type) where
  ready : σ → List Dev
  queue : Dev → σ → List EvdevEvent
  unread : Dev → σ → List EvdevEvent

/-- The events of a device that nobody has seen. -/
def View.pending (v : View σ Dev) (s : σ) (dev : Dev) : List EvdevEvent :=
  v.queue dev s ++ v.unread dev s

/-- The documented behaviour.  A registered device is ready where its descriptor
has something to read, and `epoll_wait` reports the ready devices, each once, as
far as there are places.  `libevdev_next_event` moves all that is readable into
its queue and returns the first event of it, or something negative where there
is none; it leaves the other devices alone. -/
structure Documented (lib : Libs σ Dev) (evdevs : List Dev) (v : View σ Dev) : Prop where
  nodup : ∀ s, (v.ready s).Nodup
  ready_iff : ∀ s dev, dev ∈ v.ready s ↔ dev ∈ evdevs ∧ v.unread dev s ≠ []
  numFds : ∀ n s, (lib.epollWait n s).numFds = (min n (v.ready s).length : Nat)
  eventList : ∀ n s i (h : i < (v.ready s).length), i < n →
    (lib.epollWait n s).eventList i = (v.ready s)[i]
  wait_queue : ∀ n s dev, v.queue dev (lib.epollWait n s).lib = v.queue dev s
  wait_unread : ∀ n s dev, v.unread dev (lib.epollWait n s).lib = v.unread dev s
  next_nil : ∀ dev s, v.pending s dev = [] → (lib.nextEvent dev s).ret < 0
  next_cons : ∀ dev s ev l, v.pending s dev = ev :: l →
    0 ≤ (lib.nextEvent dev s).ret ∧ (lib.nextEvent dev s).ev = ev
  next_queue : ∀ dev s, v.queue dev (lib.nextEvent dev s).lib = (v.pending s dev).tail
  next_unread : ∀ dev s, v.unread dev (lib.nextEvent dev s).lib = []
  next_other : ∀ dev s dev', dev' ≠ dev →
    v.queue dev' (lib.nextEvent dev s).lib = v.queue dev' s ∧
      v.unread dev' (lib.nextEvent dev s).lib = v.unread dev' s

/-- The events of a call: those of the ready devices, one device after the
other. -/
def View.batch (v : View σ Dev) (s : σ) : List EvdevEvent := (v.ready s).flatMap (v.pending s)

/-! ## A call -/

/-- These events went to `monitor_set_key`, in this order. -/
structure Passed (isFocus : Bool) (evs : List EvdevEvent) (st st' : Dispatch σ) : Prop where
  keyed : st'.keyed = st.keyed ++ evs
  emu : st'.emu = evs.foldl (fun emu ev => monitorSetKey isFocus ev.toInputEvent emu) st.emu

theorem Passed.nil (isFocus : Bool) (st : Dispatch σ) (lib : σ) :
    Passed isFocus [] st { st with lib := lib } :=
  ⟨(List.append_nil _).symm, rfl⟩

theorem Passed.setKey (isFocus : Bool) (ev : EvdevEvent) (st : Dispatch σ) (lib : σ) :
    Passed isFocus [ev] st (Dispatch.setKey isFocus ev { st with lib := lib }) :=
  ⟨rfl, rfl⟩

/-- A step that passes nothing on. -/
theorem Passed.of_nil {isFocus : Bool} {evs : List EvdevEvent} {st st₁ st' : Dispatch σ}
    (h₁ : Passed isFocus [] st st₁) (h : Passed isFocus evs st₁ st') :
    Passed isFocus evs st st' where
  keyed := by rw [h.keyed, h₁.keyed, List.append_nil]
  emu := by rw [h.emu, h₁.emu, List.foldl_nil]

/-- What reading from one device leaves of the others. -/
def View.Same (v : View σ Dev) (dev : Dev) (s s' : σ) : Prop :=
  ∀ dev', dev' ≠ dev → v.queue dev' s' = v.queue dev' s ∧ v.unread dev' s' = v.unread dev' s

theorem View.Same.trans {v : View σ Dev} {dev : Dev} {s s₁ s' : σ} (h₁ : v.Same dev s s₁)
    (h : v.Same dev s₁ s') : v.Same dev s s' := by
  intro dev' hne
  rw [(h dev' hne).1, (h dev' hne).2]
  exact h₁ dev' hne

section

variable {lib : Libs σ Dev} {evdevs : List Dev} {v : View σ Dev}

/-- After `libevdev_next_event` the first event is gone, if there was one. -/
theorem Documented.pending_next (hlib : Documented lib evdevs v) (dev : Dev) (s : σ) :
    v.pending (lib.nextEvent dev s).lib dev = (v.pending s dev).tail := by
  rw [View.pending, hlib.next_queue, hlib.next_unread, List.append_nil]

/-- **One device.**  Its events are taken up to the first that is handled, which
is passed on. -/
theorem dispatchDevice_spec (hlib : Documented lib evdevs v) (isFocus : Bool) (dev : Dev)
    {l : List EvdevEvent} :
    ∀ st : Dispatch σ, v.pending st.lib dev = l →
      ∃ st', (∀ fuel, l.length < fuel → dispatchDevice lib isFocus dev fuel st =
          some ((l.find? EvdevEvent.handled).isSome, st')) ∧
        Passed isFocus (l.find? EvdevEvent.handled).toList st st' ∧
        v.queue dev st'.lib = Drain.rest EvdevEvent.handled l ∧ v.unread dev st'.lib = [] ∧
        v.Same dev st.lib st'.lib := by
  induction l with
  | nil =>
      intro st hl
      have hret : ¬ 0 ≤ (lib.nextEvent dev st.lib).ret := not_le.mpr (hlib.next_nil dev st.lib hl)
      have hqueue := hlib.next_queue dev st.lib
      rw [hl] at hqueue
      refine ⟨{ st with lib := (lib.nextEvent dev st.lib).lib }, ?_, Passed.nil .., hqueue,
        hlib.next_unread .., hlib.next_other dev st.lib⟩
      intro fuel hfuel
      cases fuel with
      | zero => simp at hfuel
      | succ fuel => exact if_neg hret
  | cons ev l ih =>
      intro st hl
      obtain ⟨hret, hev⟩ := hlib.next_cons dev st.lib ev l hl
      have hqueue := hlib.next_queue dev st.lib
      rw [hl, List.tail_cons] at hqueue
      cases hhandled : ev.handled with
      | true =>
          -- the `return`
          rw [List.find?_cons_of_pos hhandled, Drain.rest_cons_of_pos hhandled]
          refine ⟨_, ?_, Passed.setKey .., hqueue, hlib.next_unread .., hlib.next_other dev st.lib⟩
          intro fuel hfuel
          cases fuel with
          | zero => simp at hfuel
          | succ fuel => rw [dispatchDevice, if_pos hret, hev, if_pos hhandled]; rfl
      | false =>
          rw [List.find?_cons_of_neg (by simp [hhandled]), Drain.rest_cons_of_neg hhandled]
          have hnext : v.pending (lib.nextEvent dev st.lib).lib dev = l := by
            rw [hlib.pending_next, hl, List.tail_cons]
          obtain ⟨st', hst', hpassed, hrest, hunread, hsame⟩ :=
            ih { st with lib := (lib.nextEvent dev st.lib).lib } hnext
          refine ⟨st', ?_, (Passed.nil isFocus st _).of_nil hpassed, hrest, hunread,
            View.Same.trans (hlib.next_other dev st.lib) hsame⟩
          intro fuel hfuel
          cases fuel with
          | zero => simp at hfuel
          | succ fuel =>
              rw [dispatchDevice, if_pos hret, hev, if_neg (by simp [hhandled])]
              exact hst' fuel (Nat.lt_of_succ_lt_succ hfuel)

/-- The places of `event_list` suffice. -/
theorem Documented.length_ready (hlib : Documented lib evdevs v) {input : List (DirEntry Dev)}
    (hinit : evdevInit input = some evdevs) (s : σ) : (v.ready s).length ≤ 10 := by
  have hsub : v.ready s ⊆ evdevs := fun dev hdev => ((hlib.ready_iff s dev).mp hdev).1
  have hle : (v.ready s).length ≤ evdevs.length :=
    ((hlib.nodup s).subperm hsub).length_le
  exact hle.trans (evdevInitLoop_length (Nat.zero_le _) hinit)

/-- The devices of the loop are the ready ones. -/
theorem Documented.map_eventList (hlib : Documented lib evdevs v) {n : Nat} {s : σ}
    (hlen : (v.ready s).length ≤ n) :
    (List.range (lib.epollWait n s).numFds.toNat).map (lib.epollWait n s).eventList =
      v.ready s := by
  have hnum : (lib.epollWait n s).numFds.toNat = (v.ready s).length := by
    rw [hlib.numFds, Int.toNat_natCast]
    exact Nat.min_eq_right hlen
  refine List.ext_getElem (by simp [hnum]) ?_
  intro i _ hi
  rw [List.getElem_map, List.getElem_range]
  exact hlib.eventList n s i hi (Nat.lt_of_lt_of_le hi hlen)

/-- A call on its own descriptor: the loop over the ready devices. -/
theorem Documented.evdevDispatch_eq (hlib : Documented lib evdevs v)
    {input : List (DirEntry Dev)} (hinit : evdevInit input = some evdevs) (isFocus : Bool)
    (fd : Int) (fuel : Nat) (st : Dispatch σ) :
    evdevDispatch lib isFocus fd fd fuel st = dispatchDevices lib isFocus fuel (v.ready st.lib)
      { st with lib := (lib.epollWait 10 st.lib).lib } := by
  rw [evdevDispatch, if_neg (by simp)]
  dsimp only
  rw [hlib.map_eventList (hlib.length_ready hinit st.lib)]

/-- `epoll_wait` reads nothing. -/
theorem Documented.pending_wait (hlib : Documented lib evdevs v) (n : Nat) (s : σ) :
    v.pending (lib.epollWait n s).lib = v.pending s := by
  funext dev
  rw [View.pending, hlib.wait_queue, hlib.wait_unread, View.pending]

/-- **What is left is not announced.**  Two events to pass on from the first
ready device: after the call one of them is in its queue, and epoll does not
report the device. -/
theorem leftover_unannounced (hlib : Documented lib evdevs v) {input : List (DirEntry Dev)}
    (hinit : evdevInit input = some evdevs) (isFocus : Bool) (fd : Int) (s : σ) (emu : Emu)
    {dev : Dev} {devs : List Dev} (hready : v.ready s = dev :: devs)
    (htwo : 2 ≤ ((v.pending s dev).filter EvdevEvent.handled).length) :
    ∃ n st, (∀ fuel, n ≤ fuel → evdevDispatch lib isFocus fd fd fuel ⟨s, emu, []⟩ = some st) ∧
      dev ∉ v.ready st.lib ∧ ∃ ev ∈ v.queue dev st.lib, ev.handled = true := by
  obtain ⟨st, hst, -, hqueue, hunread, -⟩ := dispatchDevice_spec hlib isFocus dev
    ⟨(lib.epollWait 10 s).lib, emu, []⟩ rfl
  rw [hlib.pending_wait] at hst hqueue
  refine ⟨(v.pending s dev).length + 1, st, ?_, ?_, ?_⟩
  · intro fuel hfuel
    have hfound : ((v.pending s dev).find? EvdevEvent.handled).isSome = true := by
      rw [← List.head?_filter, List.isSome_head?]
      exact List.ne_nil_of_length_pos (by omega)
    rw [hlib.evdevDispatch_eq hinit, hready, dispatchDevices, hst fuel hfuel, hfound]
    rfl
  · intro hmem
    exact ((hlib.ready_iff st.lib dev).mp hmem).2 hunread
  · have hpos : 0 < ((v.queue dev st.lib).filter EvdevEvent.handled).length := by
      rw [hqueue, Drain.filter_rest, List.length_tail]
      omega
    exact List.length_filter_pos_iff.mp hpos

variable [DecidableEq Dev]

/-- Seen from the queues, a device is one stop of a visit. -/
theorem View.Same.pending {dev : Dev} {s s' : σ} {l : List EvdevEvent} (h : v.Same dev s s')
    (hqueue : v.queue dev s' = l) (hunread : v.unread dev s' = []) :
    v.pending s' = Function.update (v.pending s) dev l := by
  funext dev'
  rcases eq_or_ne dev' dev with rfl | hne
  · rw [Function.update_self, View.pending, hqueue, hunread, List.append_nil]
  · rw [Function.update_of_ne hne, View.pending, (h dev' hne).1, (h dev' hne).2, View.pending]

/-- **The devices.**  The loop is a visit of their queues. -/
theorem dispatchDevices_spec (hlib : Documented lib evdevs v) (isFocus : Bool) {devs : List Dev} :
    ∀ st : Dispatch σ, devs.Nodup →
      ∃ st', (∀ fuel, (∀ dev ∈ devs, (v.pending st.lib dev).length < fuel) →
          dispatchDevices lib isFocus fuel devs st = some st') ∧
        Passed isFocus (Drain.visit EvdevEvent.handled devs (v.pending st.lib)).1.toList st st' ∧
        v.pending st'.lib = (Drain.visit EvdevEvent.handled devs (v.pending st.lib)).2 := by
  induction devs with
  | nil =>
      intro st _
      exact ⟨st, fun _ _ => rfl, Passed.nil isFocus st st.lib, rfl⟩
  | cons dev devs ih =>
      intro st hnodup
      obtain ⟨hdev, hdevs⟩ := List.nodup_cons.mp hnodup
      obtain ⟨st₁, hst₁, hpassed₁, hqueue, hunread, hsame⟩ :=
        dispatchDevice_spec hlib isFocus dev st rfl
      have hpending := hsame.pending hqueue hunread
      cases hfind : (v.pending st.lib dev).find? EvdevEvent.handled with
      | some ev =>
          rw [hfind] at hpassed₁ hst₁
          rw [Drain.visit_cons_some hfind]
          refine ⟨st₁, ?_, hpassed₁, hpending⟩
          intro fuel hfuel
          rw [dispatchDevices, hst₁ fuel (hfuel dev List.mem_cons_self)]
          rfl
      | none =>
          rw [hfind] at hpassed₁ hst₁
          rw [Drain.rest_of_find?_none hfind] at hpending
          obtain ⟨st', hst', hpassed, hvisit⟩ := ih st₁ hdevs
          rw [hpending] at hst' hpassed hvisit
          rw [Drain.visit_cons_none hfind]
          refine ⟨st', ?_, hpassed₁.of_nil hpassed, hvisit⟩
          intro fuel hfuel
          rw [dispatchDevices, hst₁ fuel (hfuel dev List.mem_cons_self)]
          refine hst' fuel ?_
          intro dev' hmem
          have hne : dev' ≠ dev := by
            rintro rfl
            exact hdev hmem
          rw [Function.update_of_ne hne]
          exact hfuel dev' (List.mem_cons_of_mem dev hmem)

/-! ## Batches -/

/-- **A call** is a visit of the queues of the ready devices. -/
theorem evdevDispatch_spec (hlib : Documented lib evdevs v) {input : List (DirEntry Dev)}
    (hinit : evdevInit input = some evdevs) (isFocus : Bool) (fd : Int) (s : σ) (emu : Emu) :
    ∃ n st, (∀ fuel, n ≤ fuel → evdevDispatch lib isFocus fd fd fuel ⟨s, emu, []⟩ = some st) ∧
      Passed isFocus (Drain.visit EvdevEvent.handled (v.ready s) (v.pending s)).1.toList
        ⟨s, emu, []⟩ st ∧
      v.pending st.lib = (Drain.visit EvdevEvent.handled (v.ready s) (v.pending s)).2 := by
  obtain ⟨st, hst, hpassed, hvisit⟩ := dispatchDevices_spec hlib isFocus
    ⟨(lib.epollWait 10 s).lib, emu, []⟩ (hlib.nodup s)
  rw [hlib.pending_wait] at hst hpassed hvisit
  refine ⟨(v.batch s).length + 1, st, ?_, (Passed.nil isFocus _ _).of_nil hpassed, hvisit⟩
  intro fuel hfuel
  rw [hlib.evdevDispatch_eq hinit]
  refine hst fuel ?_
  intro dev hdev
  have hle : (v.pending s dev).length ≤ (v.batch s).length :=
    (List.sublist_flatten_of_mem (List.mem_map_of_mem hdev)).length_le
  omega

/-- The call ends, with every handled event of the batch passed on in order, and
none left in the queue of a device that was ready. -/
def Drains (lib : Libs σ Dev) (v : View σ Dev) (isFocus : Bool) (fd : Int) (s : σ) (emu : Emu) :
    Prop :=
  ∃ n st, (∀ fuel, n ≤ fuel → evdevDispatch lib isFocus fd fd fuel ⟨s, emu, []⟩ = some st) ∧
    Passed isFocus ((v.batch s).filter EvdevEvent.handled) ⟨s, emu, []⟩ st ∧
    ∀ dev ∈ v.ready s, ∀ ev ∈ v.queue dev st.lib, ev.handled = false

/-- One event at most is passed on. -/
theorem Drains.length_le (hlib : Documented lib evdevs v) {input : List (DirEntry Dev)}
    (hinit : evdevInit input = some evdevs) {isFocus : Bool} {fd : Int} {s : σ} {emu : Emu}
    (h : Drains lib v isFocus fd s emu) :
    ((v.batch s).filter EvdevEvent.handled).length ≤ 1 := by
  obtain ⟨n, st, hst, hpassed, -⟩ := evdevDispatch_spec hlib hinit isFocus fd s emu
  obtain ⟨n', st', hst', hpassed', -⟩ := h
  have hsame : some st = some st' := by
    rw [← hst (max n n') (Nat.le_max_left ..), ← hst' (max n n') (Nat.le_max_right ..)]
  cases hsame
  have hkeyed : (Drain.visit EvdevEvent.handled (v.ready s) (v.pending s)).1.toList =
      (v.batch s).filter EvdevEvent.handled :=
    List.append_cancel_left (hpassed.keyed.symm.trans hpassed'.keyed)
  rw [← hkeyed]
  cases (Drain.visit EvdevEvent.handled (v.ready s) (v.pending s)).1 <;> simp

/-- **Draining.**  A batch is drained where it holds at most one event to pass
on. -/
theorem evdevDispatch_drains_iff (hlib : Documented lib evdevs v)
    {input : List (DirEntry Dev)} (hinit : evdevInit input = some evdevs) (isFocus : Bool)
    (fd : Int) (s : σ) (emu : Emu) :
    Drains lib v isFocus fd s emu ↔ ((v.batch s).filter EvdevEvent.handled).length ≤ 1 := by
  constructor
  · exact Drains.length_le hlib hinit
  · intro hone
    obtain ⟨n, st, hst, hpassed, hvisit⟩ := evdevDispatch_spec hlib hinit isFocus fd s emu
    obtain ⟨hall, hleft⟩ := (Drain.drained_iff (hlib.nodup s)).mpr hone
    rw [hall] at hpassed
    refine ⟨n, st, hst, hpassed, ?_⟩
    intro dev hdev ev hev
    have hpending : ev ∈ v.pending st.lib dev := List.mem_append_left _ hev
    have hnone : (v.pending st.lib dev).filter EvdevEvent.handled = [] := by
      rw [hvisit]
      exact hleft dev hdev
    simpa using List.filter_eq_nil_iff.mp hnone ev hpending

end

/-! ## Queues in memory -/

section

variable [DecidableEq Dev] [Inhabited Dev]

/-- Both libraries over two queues for each device: what is in libevdev's, and
what is still to be read.  -11 is `-EAGAIN`. -/
def queueLibs (evdevs : List Dev) : Libs (Dev → List EvdevEvent × List EvdevEvent) Dev where
  epollWait n s :=
    let ready := evdevs.filter fun dev => !(s dev).2.isEmpty
    { numFds := (min n ready.length : Nat), eventList := fun i => ready.getD i default, lib := s }
  nextEvent dev s :=
    match (s dev).1 ++ (s dev).2 with
    | [] => { ret := -11, ev := ⟨⟨.other 0, 0⟩, .other 0⟩, lib := Function.update s dev ([], []) }
    | ev :: l => { ret := 0, ev := ev, lib := Function.update s dev (l, []) }

def queueView (evdevs : List Dev) : View (Dev → List EvdevEvent × List EvdevEvent) Dev where
  ready s := evdevs.filter fun dev => !(s dev).2.isEmpty
  queue dev s := (s dev).1
  unread dev s := (s dev).2

/-- After an event the device's queue is the rest, and there is nothing to read. -/
theorem queueLibs_next_lib (evdevs : List Dev) (dev : Dev)
    (s : Dev → List EvdevEvent × List EvdevEvent) :
    ((queueLibs evdevs).nextEvent dev s).lib =
      Function.update s dev (((s dev).1 ++ (s dev).2).tail, []) := by
  dsimp only [queueLibs]
  cases (s dev).1 ++ (s dev).2 <;> rfl

theorem documented_queueLibs {evdevs : List Dev} (hnodup : evdevs.Nodup) :
    Documented (queueLibs evdevs) evdevs (queueView evdevs) where
  nodup s := hnodup.filter _
  ready_iff s dev := by simp [queueView]
  numFds n s := rfl
  eventList n s i h _ := by
    show ((queueView evdevs).ready s).getD i default = _
    rw [List.getD_eq_getElem?_getD, List.getElem?_eq_getElem h, Option.getD_some]
  wait_queue n s dev := rfl
  wait_unread n s dev := rfl
  next_nil dev s h := by
    have h : (s dev).1 ++ (s dev).2 = [] := h
    simp [queueLibs, h]
  next_cons dev s ev l h := by
    have h : (s dev).1 ++ (s dev).2 = ev :: l := h
    simp [queueLibs, h]
  next_queue dev s := by
    rw [queueLibs_next_lib]
    simp [queueView, View.pending]
  next_unread dev s := by
    rw [queueLibs_next_lib]
    simp [queueView]
  next_other dev s dev' hne := by
    rw [queueLibs_next_lib]
    simp [queueView, Function.update_of_ne hne]

end

/-- A keyboard, as the directory lists it. -/
def keyboards : List (DirEntry Nat) := [⟨"event0".toList, true, some 0, true, true⟩]

/-- An event of a key, and the EV_SYN after it. -/
def keyEvents (ev : InputEvent) : List EvdevEvent := [⟨ev, .key⟩, ⟨⟨.other 0, 0⟩, .other 0⟩]

theorem evdevInit_keyboards : evdevInit keyboards = some [0] := rfl

/-- ENTER is pressed on the keyboard: one event to pass on. -/
theorem evdevDispatch_drains_enter :
    Drains (queueLibs [0]) (queueView [0]) true 3 (fun _ => ([], keyEvents ⟨.enter, 1⟩))
      (powerOn #[] #[]) := by
  have hlib := documented_queueLibs (List.nodup_singleton 0)
  exact (evdevDispatch_drains_iff hlib evdevInit_keyboards true 3 _ _).mpr (by decide)

/-- ENTER is pressed and let go before the call: the release stays behind. -/
theorem not_drains_enter :
    Documented (queueLibs [0]) [0] (queueView [0]) ∧
      ¬ Drains (queueLibs [0]) (queueView [0]) true 3
        (fun _ => ([], keyEvents ⟨.enter, 1⟩ ++ keyEvents ⟨.enter, 0⟩)) (powerOn #[] #[]) := by
  have hlib := documented_queueLibs (List.nodup_singleton 0)
  refine ⟨hlib, ?_⟩
  intro h
  exact absurd (h.length_le hlib evdevInit_keyboards) (by decide)

end RealBoy.Evdev
