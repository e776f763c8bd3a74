/-
# `RealBoy.Backends.Iopoll` — how the I/O thread is started

`iopoll_init` makes the thread that polls the descriptors and waits to be told whether
all of them could be registered.  It holds `mtx_init` from before the thread exists
until it waits, and the thread keeps the mutex from its first step until the outcome is
known.  So the signal is not lost, and `init_success` is read when it is final, if the
wait is not left before the thread has had the mutex: `pthread_cond_wait` may return
without a signal, and nothing is tested behind it (`told_iff`).

In all other runs the two threads come to an end, with no deadlock and the right value
returned (`iopollInit_returns`).
-/
import RealBoy.Lib.Traces

namespace RealBoy.Iopoll

/-- What the function finds: `backend_fds`, `server_get_fd()`, whether `pthread_create`
succeeds, and whether `epoll_ctl` adds a descriptor to those that are watched. -/
structure Setup where
  backendFds : List Int
  serverFd : Int
  created : Bool
  epollCtl : List Int → Int → Bool

/-- The threads, as owners of `mtx_init`. -/
inductive Thread where
  | main
  | iopoll
deriving DecidableEq

/-- The program points of `iopoll_init`. -/
inductive MainPoint where
  | lock
  | create
  | unlockFailed    -- `pthread_create` has failed
  | wait
  | waiting         -- in `pthread_cond_wait`
  | woken           -- in `pthread_cond_wait`, before it has the mutex again
  | unlock
  | test            -- before `!init_success` is read
  | returned (ret : Int)
deriving DecidableEq

/-- The program points of `iopoll_thread`. -/
inductive ThreadPoint where
  | absent
  | lock
  | epollCreate
  | add (fds : List Int)    -- the rest of the loop over the backends
  | addServer
  | unlock
  | signal
  | test            -- before `init_success` is read
  | loop            -- polling
  | exited
deriving DecidableEq

structure State where
  mtxInit : Option Thread
  initSuccess : Bool
  watched : List Int
  mainAt : MainPoint
  threadAt : ThreadPoint

/-- Before the call. -/
def start : State := ⟨none, false, [], .lock, .absent⟩

namespace State

/-- `pthread_mutex_lock`, if the mutex is free. -/
def lock (t : Thread) (s : State) : Option State :=
  if s.mtxInit = none then some { s with mtxInit := some t } else none

/-- `pthread_mutex_unlock`. -/
def unlock (s : State) : State := { s with mtxInit := none }

def goMain (p : MainPoint) (s : State) : State := { s with mainAt := p }

def goThread (p : ThreadPoint) (s : State) : State := { s with threadAt := p }

/-- The next step of `iopoll_init`. -/
def mainStep (c : Setup) (s : State) : Option State :=
  match s.mainAt with
  | .lock => (s.lock .main).map (goMain .create)
  | .create =>
    if c.created then some ((s.goThread .lock).goMain .wait) else some (s.goMain .unlockFailed)
  | .unlockFailed => some (s.unlock.goMain (.returned (-1)))
  | .wait => some (s.unlock.goMain .waiting)
  | .waiting => none
  | .woken => (s.lock .main).map (goMain .unlock)
  | .unlock => some (s.unlock.goMain .test)
  | .test => some (s.goMain (.returned (if s.initSuccess then 0 else -1)))
  | .returned _ => none

/-- `epoll_ctl`; where it fails, `init_success` is cleared. -/
def epollCtl (c : Setup) (fd : Int) (s : State) : State :=
  if c.epollCtl s.watched fd then { s with watched := s.watched ++ [fd] }
  else { s with initSuccess := false }

/-- `pthread_cond_signal`. -/
def signal (s : State) : State := if s.mainAt = .waiting then s.goMain .woken else s

/-- The next step of `iopoll_thread`. -/
def threadStep (c : Setup) (s : State) : Option State :=
  match s.threadAt with
  | .absent => none
  | .lock => (s.lock .iopoll).map (goThread .epollCreate)
  | .epollCreate => some ({ s with initSuccess := true }.goThread (.add c.backendFds))
  | .add [] => some (s.goThread .addServer)
  | .add (fd :: fds) =>
    -- the loop is left at the first failure
    some ((s.epollCtl c fd).goThread
      (if c.epollCtl s.watched fd then .add fds else .addServer))
  | .addServer =>
    some ((if c.serverFd = 0 then s else s.epollCtl c c.serverFd).goThread .unlock)
  | .unlock => some (s.unlock.goThread .signal)
  | .signal => some (s.signal.goThread .test)
  | .test => some (s.goThread (if s.initSuccess then .loop else .exited))
  | .loop => none
  | .exited => none

end State

/-- What can happen next: a step of a thread, a spurious wakeup. -/
inductive Label where
  | main
  | iopoll
  | wake
deriving DecidableEq

/-- One step of the two threads. -/
def step (c : Setup) (s : State) : Label → Option State
  | .main => s.mainStep c
  | .iopoll => s.threadStep c
  | .wake => if s.mainAt = .waiting then some (s.goMain .woken) else none

/-! ## What the call is for -/

/-- The descriptor of the server, if there is one. -/
def Setup.serverFds (c : Setup) : List Int := if c.serverFd = 0 then [] else [c.serverFd]

/-- The descriptors to be watched. -/
def Setup.descriptors (c : Setup) : List Int := c.backendFds ++ c.serverFds

/-- These descriptors are added, one after the other. -/
def Setup.acceptAll (c : Setup) : List Int → List Int → Bool
  | _, [] => true
  | watched, fd :: fds => c.epollCtl watched fd && c.acceptAll (watched ++ [fd]) fds

/-- What is to be returned. -/
def Setup.result (c : Setup) : Int :=
  if c.created ∧ c.acceptAll [] c.descriptors = true then 0 else -1

/-- What has been returned is right, and after a 0 all descriptors are watched. -/
def Told (c : Setup) (s : State) : Prop :=
  ∀ ret, s.mainAt = .returned ret → ret = c.result ∧ (ret = 0 → s.watched = c.descriptors)

/-- The thread has had the mutex. -/
def begun : ThreadPoint → Bool
  | .absent | .lock => false
  | _ => true

/-- The wait is not left before the thread has had the mutex. -/
def Timely (s : State) : Label → Prop
  | .wake => begun s.threadAt = true
  | _ => True

instance (s : State) : (a : Label) → Decidable (Timely s a)
  | .wake => inferInstanceAs (Decidable (_ = _))
  | .main | .iopoll => inferInstanceAs (Decidable True)

/-! ## What one step does -/

variable {c : Setup} {s s' : State}

/-- The steps of the main thread. -/
inductive MainMove (c : Setup) (s : State) : State → Prop where
  | lock : s.mainAt = .lock → s.mtxInit = none →
      MainMove c s { s with mtxInit := some .main, mainAt := .create }
  | create : s.mainAt = .create → c.created = true →
      MainMove c s { s with threadAt := .lock, mainAt := .wait }
  | createFailed : s.mainAt = .create → c.created = false →
      MainMove c s { s with mainAt := .unlockFailed }
  | unlockFailed : s.mainAt = .unlockFailed →
      MainMove c s { s with mtxInit := none, mainAt := .returned (-1) }
  | wait : s.mainAt = .wait → MainMove c s { s with mtxInit := none, mainAt := .waiting }
  | woken : s.mainAt = .woken → s.mtxInit = none →
      MainMove c s { s with mtxInit := some .main, mainAt := .unlock }
  | unlock : s.mainAt = .unlock → MainMove c s { s with mtxInit := none, mainAt := .test }
  | test : s.mainAt = .test →
      MainMove c s { s with mainAt := .returned (if s.initSuccess then 0 else -1) }

/-- The steps of the I/O thread. -/
inductive ThreadMove (c : Setup) (s : State) : State → Prop where
  | lock : s.threadAt = .lock → s.mtxInit = none →
      ThreadMove c s { s with mtxInit := some .iopoll, threadAt := .epollCreate }
  | epollCreate : s.threadAt = .epollCreate →
      ThreadMove c s { s with initSuccess := true, threadAt := .add c.backendFds }
  | addNone : s.threadAt = .add [] → ThreadMove c s { s with threadAt := .addServer }
  | add (fd : Int) (fds : List Int) : s.threadAt = .add (fd :: fds) →
      c.epollCtl s.watched fd = true →
      ThreadMove c s { s with watched := s.watched ++ [fd], threadAt := .add fds }
  | addFailed (fd : Int) (fds : List Int) : s.threadAt = .add (fd :: fds) →
      c.epollCtl s.watched fd = false →
      ThreadMove c s { s with initSuccess := false, threadAt := .addServer }
  | noServer : s.threadAt = .addServer → c.serverFd = 0 →
      ThreadMove c s { s with threadAt := .unlock }
  | addServer : s.threadAt = .addServer → c.serverFd ≠ 0 →
      c.epollCtl s.watched c.serverFd = true →
      ThreadMove c s { s with watched := s.watched ++ [c.serverFd], threadAt := .unlock }
  | serverFailed : s.threadAt = .addServer → c.serverFd ≠ 0 →
      c.epollCtl s.watched c.serverFd = false →
      ThreadMove c s { s with initSuccess := false, threadAt := .unlock }
  | unlock : s.threadAt = .unlock → ThreadMove c s { s with mtxInit := none, threadAt := .signal }
  | signal : s.threadAt = .signal → s.mainAt = .waiting →
      ThreadMove c s { s with mainAt := .woken, threadAt := .test }
  | signalNobody : s.threadAt = .signal → s.mainAt ≠ .waiting →
      ThreadMove c s { s with threadAt := .test }
  | loop : s.threadAt = .test → s.initSuccess = true → ThreadMove c s { s with threadAt := .loop }
  | exited : s.threadAt = .test → s.initSuccess = false →
      ThreadMove c s { s with threadAt := .exited }

/-- A lock is taken when the mutex is free. -/
theorem State.lock_map_eq {t : Thread} {f : State → State} (h : (s.lock t).map f = some s') :
    s.mtxInit = none ∧ f { s with mtxInit := some t } = s' := by
  obtain ⟨s₁, hs₁, hf⟩ := Option.map_eq_some_iff.mp h
  obtain ⟨hm, hl⟩ := Option.ite_none_right_eq_some.mp hs₁
  exact ⟨hm, Option.some.inj hl ▸ hf⟩

theorem mainStep_cases (h : s.mainStep c = some s') : MainMove c s s' := by
  unfold State.mainStep at h
  split at h
  case h_1 hp =>
    obtain ⟨hm, rfl⟩ := State.lock_map_eq h
    exact .lock hp hm
  case h_2 hp =>
    split at h
    case isTrue hc => exact Option.some.inj h ▸ .create hp hc
    case isFalse hc => exact Option.some.inj h ▸ .createFailed hp (Bool.not_eq_true _ ▸ hc)
  case h_3 hp => exact Option.some.inj h ▸ .unlockFailed hp
  case h_4 hp => exact Option.some.inj h ▸ .wait hp
  case h_5 => cases h
  case h_6 hp =>
    obtain ⟨hm, rfl⟩ := State.lock_map_eq h
    exact .woken hp hm
  case h_7 hp => exact Option.some.inj h ▸ .unlock hp
  case h_8 hp => exact Option.some.inj h ▸ .test hp
  case h_9 => cases h

theorem threadStep_cases (h : s.threadStep c = some s') : ThreadMove c s s' := by
  unfold State.threadStep at h
  split at h
  case h_1 => cases h
  case h_2 hp =>
    obtain ⟨hm, rfl⟩ := State.lock_map_eq h
    exact .lock hp hm
  case h_3 hp => exact Option.some.inj h ▸ .epollCreate hp
  case h_4 hp => exact Option.some.inj h ▸ .addNone hp
  case h_5 fd fds hp =>
    rw [State.epollCtl] at h
    cases hc : c.epollCtl s.watched fd with
    | true =>
        rw [if_pos hc, if_pos hc] at h
        exact Option.some.inj h ▸ .add fd fds hp hc
    | false =>
        rw [if_neg (Bool.not_eq_true _ ▸ hc), if_neg (Bool.not_eq_true _ ▸ hc)] at h
        exact Option.some.inj h ▸ .addFailed fd fds hp hc
  case h_6 hp =>
    by_cases h0 : c.serverFd = 0
    · rw [if_pos h0] at h
      exact Option.some.inj h ▸ .noServer hp h0
    · rw [if_neg h0, State.epollCtl] at h
      cases hc : c.epollCtl s.watched c.serverFd with
      | true =>
          rw [if_pos hc] at h
          exact Option.some.inj h ▸ .addServer hp h0 hc
      | false =>
          rw [if_neg (Bool.not_eq_true _ ▸ hc)] at h
          exact Option.some.inj h ▸ .serverFailed hp h0 hc
  case h_7 hp => exact Option.some.inj h ▸ .unlock hp
  case h_8 hp =>
    rw [State.signal] at h
    split at h
    case isTrue hw => exact Option.some.inj h ▸ .signal hp hw
    case isFalse hw => exact Option.some.inj h ▸ .signalNobody hp hw
  case h_9 hp =>
    cases hs : s.initSuccess with
    | true =>
        rw [hs] at h
        exact Option.some.inj h ▸ .loop hp hs
    | false =>
        rw [hs] at h
        exact Option.some.inj h ▸ .exited hp hs
  case h_10 => cases h
  case h_11 => cases h

/-- The steps. -/
inductive Move (c : Setup) (s : State) : Label → State → Prop where
  | main (s' : State) : MainMove c s s' → Move c s .main s'
  | iopoll (s' : State) : ThreadMove c s s' → Move c s .iopoll s'
  | wake : s.mainAt = .waiting → Move c s .wake { s with mainAt := .woken }

theorem step_cases {a : Label} (h : step c s a = some s') : Move c s a s' := by
  cases a with
  | main => exact .main _ (mainStep_cases h)
  | iopoll => exact .iopoll _ (threadStep_cases h)
  | wake =>
      obtain ⟨hw, hs⟩ := Option.ite_none_right_eq_some.mp h
      exact Option.some.inj hs ▸ .wake hw

/-! ## The mutex -/

/-- The main thread holds the mutex. -/
def mainHolds : MainPoint → Bool
  | .create | .unlockFailed | .wait | .unlock => true
  | _ => false

/-- The I/O thread holds the mutex. -/
def threadHolds : ThreadPoint → Bool
  | .epollCreate | .add _ | .addServer | .unlock => true
  | _ => false

/-- The owner of the mutex is the thread at a point where it holds it. -/
structure Owned (s : State) : Prop where
  main : mainHolds s.mainAt = true ↔ s.mtxInit = some .main
  thread : threadHolds s.threadAt = true ↔ s.mtxInit = some .iopoll

theorem Owned.mainMove (h : Owned s) (hm : MainMove c s s') : Owned s' := by
  obtain ⟨hma, hth⟩ := h
  cases hm with
  | create hp => exact ⟨by rw [← hma, hp]; rfl, by simp_all [mainHolds, threadHolds]⟩
  | _ => constructor <;> simp_all [mainHolds]

theorem Owned.threadMove (h : Owned s) (hm : ThreadMove c s s') : Owned s' := by
  obtain ⟨hma, hth⟩ := h
  cases hm with
  | signal hp hw => exact ⟨by rw [← hma, hw]; rfl, by rw [← hth, hp]; rfl⟩
  | _ => constructor <;> simp_all [threadHolds]

theorem Owned.step {a : Label} (h : Owned s) (hm : Move c s a s') : Owned s' := by
  cases hm with
  | main _ hm => exact h.mainMove hm
  | iopoll _ hm => exact h.threadMove hm
  | wake hw => exact ⟨by rw [← h.main, hw]; rfl, h.thread⟩

theorem Owned.main_out (h : Owned s) (hfree : s.mtxInit = none) : mainHolds s.mainAt = false := by
  rw [Bool.eq_false_iff]
  intro hholds
  have hm := h.main.mp hholds
  rw [hfree] at hm
  cases hm

theorem Owned.thread_out (h : Owned s) (hfree : s.mtxInit = none) :
    threadHolds s.threadAt = false := by
  rw [Bool.eq_false_iff]
  intro hholds
  have hm := h.thread.mp hholds
  rw [hfree] at hm
  cases hm

theorem Owned.free (h : Owned s) (hmain : mainHolds s.mainAt = false)
    (hthread : threadHolds s.threadAt = false) : s.mtxInit = none := by
  cases hm : s.mtxInit with
  | none => rfl
  | some t =>
      cases t with
      | main => exact absurd (h.main.mpr hm) (by rw [hmain]; nofun)
      | iopoll => exact absurd (h.thread.mpr hm) (by rw [hthread]; nofun)

/-! ## The registration -/

/-- What is known in the loop over the descriptors, `rest` still to come. -/
structure Progress (c : Setup) (ok : Bool) (watched rest : List Int) : Prop where
  going : ok = true → watched ++ rest = c.descriptors ∧
    c.acceptAll [] c.descriptors = c.acceptAll watched rest
  failed : ok = false → c.acceptAll [] c.descriptors = false

theorem Progress.start (c : Setup) : Progress c true [] c.descriptors where
  going _ := ⟨rfl, rfl⟩
  failed := nofun

namespace Progress

variable {ok : Bool} {watched fds : List Int} {fd : Int}

/-- One more descriptor. -/
theorem add (h : Progress c ok watched (fd :: fds)) (hc : c.epollCtl watched fd = true) :
    Progress c ok (watched ++ [fd]) fds where
  going hok := by
    obtain ⟨hall, hacc⟩ := h.going hok
    rw [Setup.acceptAll, hc, Bool.true_and] at hacc
    exact ⟨by rw [List.append_assoc]; exact hall, hacc⟩
  failed := h.failed

/-- A descriptor is refused. -/
theorem refuse (h : Progress c ok watched (fd :: fds)) (hc : c.epollCtl watched fd = false)
    (rest : List Int) : Progress c false watched rest where
  going := nofun
  failed _ := by
    cases ok with
    | false => exact h.failed rfl
    | true => rw [(h.going rfl).2, Setup.acceptAll, hc, Bool.false_and]

/-- The loop is over. -/
theorem done (h : Progress c ok watched []) :
    ok = c.acceptAll [] c.descriptors ∧ (ok = true → watched = c.descriptors) := by
  cases ok with
  | false => exact ⟨(h.failed rfl).symm, nofun⟩
  | true =>
      obtain ⟨hall, hacc⟩ := h.going rfl
      rw [List.append_nil] at hall
      exact ⟨hacc.symm, fun _ => hall⟩

end Progress

/-- What `init_success` and the descriptors watched say about the registration. -/
def Knows (c : Setup) (ok : Bool) (watched : List Int) : ThreadPoint → Prop
  | .absent | .lock => ok = false ∧ watched = []
  | .epollCreate => watched = []
  | .add fds => Progress c ok watched (fds ++ c.serverFds)
  | .addServer => Progress c ok watched c.serverFds
  | .unlock | .signal | .test => Progress c ok watched []
  | .loop => ok = true ∧ Progress c ok watched []
  | .exited => ok = false ∧ Progress c ok watched []

theorem knows_mainMove (h : Knows c s.initSuccess s.watched s.threadAt)
    (hab : s.mainAt = .create → s.threadAt = .absent) (hm : MainMove c s s') :
    Knows c s'.initSuccess s'.watched s'.threadAt := by
  cases hm with
  | create hp =>
      rw [hab hp] at h
      exact h
  | lock | createFailed | unlockFailed | wait | woken | unlock | test => exact h

theorem knows_threadMove (h : Knows c s.initSuccess s.watched s.threadAt)
    (hm : ThreadMove c s s') : Knows c s'.initSuccess s'.watched s'.threadAt := by
  cases hm with
  | lock hp =>
      rw [hp] at h
      exact h.2
  | epollCreate hp =>
      rw [hp] at h
      show Progress c true s.watched c.descriptors
      rw [show s.watched = [] from h]
      exact .start c
  | addNone hp =>
      rw [hp] at h
      exact h
  | add fd fds hp hc =>
      rw [hp] at h
      exact Progress.add h hc
  | addFailed fd fds hp hc =>
      rw [hp] at h
      exact Progress.refuse h hc c.serverFds
  | noServer hp h0 =>
      rw [hp] at h
      show Progress c s.initSuccess s.watched []
      have hnone : c.serverFds = [] := if_pos h0
      rw [← hnone]
      exact h
  | addServer hp h0 hc =>
      rw [hp] at h
      have hone : c.serverFds = [c.serverFd] := if_neg h0
      rw [Knows, hone] at h
      exact Progress.add h hc
  | serverFailed hp h0 hc =>
      rw [hp] at h
      have hone : c.serverFds = [c.serverFd] := if_neg h0
      rw [Knows, hone] at h
      exact Progress.refuse h hc []
  | unlock hp | signal hp | signalNobody hp =>
      rw [hp] at h
      exact h
  | loop hp hs | exited hp hs =>
      rw [hp] at h
      exact ⟨hs, h⟩

/-! ## Who is where -/

/-- The thread has given the mutex up, with the outcome known. -/
def released : ThreadPoint → Bool
  | .signal | .test | .loop | .exited => true
  | _ => false

/-- The thread has not sent its signal yet. -/
def toSignal : ThreadPoint → Bool
  | .absent | .test | .loop | .exited => false
  | _ => true

theorem released_of_begun {p : ThreadPoint} (h : begun p = true) (hfree : threadHolds p = false) :
    released p = true := by
  cases p with
  | absent | lock => cases h
  | epollCreate | add | addServer | unlock => cases hfree
  | signal | test | loop | exited => rfl

/-- The points of the main thread, with those of the other that go with them. -/
def Fits (c : Setup) : MainPoint → ThreadPoint → Prop
  | .lock, p | .create, p => p = .absent
  | .unlockFailed, p => p = .absent ∧ c.created = false
  | .wait, p => p = .lock ∧ c.created = true
  | .waiting, p => toSignal p = true ∧ c.created = true
  | .woken, p => begun p = true ∧ c.created = true
  | .unlock, p | .test, p => released p = true ∧ c.created = true
  | .returned _, p => p = .absent ∧ c.created = false ∨ released p = true ∧ c.created = true

/-- The thread moves on. -/
theorem Fits.along {m : MainPoint} {p q : ThreadPoint} (h : Fits c m p) (hm : m ≠ .wait)
    (hp : p ≠ .absent) (hq : begun q = true) (hreleased : released p = true → released q = true)
    (hsig : m = .waiting → toSignal q = true) : Fits c m q := by
  cases m with
  | lock | create => exact absurd h hp
  | unlockFailed => exact absurd h.1 hp
  | wait => exact absurd rfl hm
  | waiting => exact ⟨hsig rfl, h.2⟩
  | woken => exact ⟨hq, h.2⟩
  | unlock | test => exact ⟨hreleased h.1, h.2⟩
  | returned => exact h.elim (fun h => absurd h.1 hp) fun h => .inr ⟨hreleased h.1, h.2⟩

/-- What holds in the runs whose wait is not left too early. -/
structure Ordered (c : Setup) (s : State) : Prop where
  owned : Owned s
  knows : Knows c s.initSuccess s.watched s.threadAt
  fits : Fits c s.mainAt s.threadAt
  told : Told c s

theorem ordered_start (c : Setup) : Ordered c start where
  owned := ⟨by simp [start, mainHolds], by simp [start, threadHolds]⟩
  knows := ⟨rfl, rfl⟩
  fits := rfl
  told := nofun

/-- Where the outcome is known, `init_success` is it. -/
theorem Ordered.outcome (h : Ordered c s) (ho : released s.threadAt = true) :
    s.initSuccess = c.acceptAll [] c.descriptors ∧
      (s.initSuccess = true → s.watched = c.descriptors) := by
  have hk := h.knows
  revert ho hk
  cases s.threadAt with
  | signal | test => exact fun _ hk => Progress.done hk
  | loop | exited => exact fun _ hk => Progress.done hk.2
  | absent | lock | epollCreate | add | addServer | unlock => exact nofun

/-- **The main thread goes on.** -/
theorem Ordered.mainMove (h : Ordered c s) (hm : MainMove c s s') : Ordered c s' := by
  have hf := h.fits
  have hcreate : s.mainAt = .create → s.threadAt = .absent := by
    intro hp
    rw [hp] at hf
    exact hf
  refine ⟨h.owned.mainMove hm, knows_mainMove h.knows hcreate hm, ?fits, ?told⟩
  case fits =>
    cases hm with
    | lock hp => rw [hp] at hf; exact hf
    | create hp hc => exact ⟨rfl, hc⟩
    | createFailed hp hc => exact ⟨hcreate hp, hc⟩
    | unlockFailed hp => rw [hp] at hf; exact .inl hf
    | wait hp =>
        rw [hp] at hf
        exact ⟨by rw [hf.1]; rfl, hf.2⟩
    | woken hp hfree =>
        rw [hp] at hf
        exact ⟨released_of_begun hf.1 (h.owned.thread_out hfree), hf.2⟩
    | unlock hp => rw [hp] at hf; exact hf
    | test hp => rw [hp] at hf; exact .inr hf
  case told =>
    cases hm with
    | lock | create | createFailed | wait | woken | unlock => exact nofun
    | unlockFailed hp =>
        rw [hp] at hf
        rintro _ ⟨⟩
        have hresult : c.result = -1 := if_neg fun hc => Bool.false_ne_true (hf.2 ▸ hc.1)
        exact ⟨hresult.symm, fun h => absurd h (by decide)⟩
    | test hp =>
        rw [hp] at hf
        obtain ⟨hok, hall⟩ := h.outcome hf.1
        rintro _ ⟨⟩
        rw [Setup.result, ← hok]
        cases hs : s.initSuccess with
        | true => exact ⟨by simp [hf.2], fun _ => hall hs⟩
        | false => exact ⟨by simp, by simp⟩

/-- The main thread has not returned while the thread is at work. -/
theorem Ordered.not_returned (h : Ordered c s) (ho : released s.threadAt = false)
    (hab : s.threadAt ≠ .absent) (ret : Int) : s.mainAt ≠ .returned ret := by
  intro hp
  have hf := h.fits
  rw [hp] at hf
  rcases hf with hf | hf
  · exact hab hf.1
  · rw [ho] at hf
    cases hf.1

/-- **The I/O thread goes on.** -/
theorem Ordered.threadMove (h : Ordered c s) (hm : ThreadMove c s s') : Ordered c s' := by
  have hf := h.fits
  -- beyond its lock the thread is not where a wait begins
  have hwait : s.threadAt ≠ .lock → s.mainAt ≠ .wait := by
    intro hp hw
    rw [hw] at hf
    exact hp hf.1
  have along {p q : ThreadPoint} (hp : s.threadAt = p) (hl : p ≠ .lock) (ha : p ≠ .absent)
      (hq : begun q = true) (hreleased : released p = true → released q = true)
      (hsig : toSignal p = true → toSignal q = true) : Fits c s.mainAt q := by
    refine hf.along (hwait (hp ▸ hl)) (hp ▸ ha) hq (hp ▸ hreleased) fun hw => ?_
    rw [hw, hp] at hf
    exact hsig hf.1
  have working (ho : released s.threadAt = false) (ha : s.threadAt ≠ .absent)
      (hmain : s'.mainAt = s.mainAt) : Told c s' := by
    intro ret hret
    exact absurd (hmain ▸ hret) (h.not_returned ho ha ret)
  refine ⟨h.owned.threadMove hm, knows_threadMove h.knows hm, ?fits, ?told⟩
  case fits =>
    cases hm with
    | lock hp hfree =>
        have hw : s.mainAt ≠ .wait := by
          intro hw
          have hout := h.owned.main_out hfree
          rw [hw] at hout
          cases hout
        exact hf.along hw (by rw [hp]; nofun) rfl (by rw [hp]; nofun) fun _ => rfl
    | epollCreate hp => exact along hp nofun nofun rfl nofun fun _ => rfl
    | addNone hp => exact along hp nofun nofun rfl nofun fun _ => rfl
    | add fd fds hp => exact along hp nofun nofun rfl nofun fun _ => rfl
    | addFailed fd fds hp => exact along hp nofun nofun rfl nofun fun _ => rfl
    | noServer hp => exact along hp nofun nofun rfl nofun fun _ => rfl
    | addServer hp => exact along hp nofun nofun rfl nofun fun _ => rfl
    | serverFailed hp => exact along hp nofun nofun rfl nofun fun _ => rfl
    | unlock hp => exact along hp nofun nofun rfl nofun fun _ => rfl
    | signal hp hw =>
        rw [hw] at hf
        exact ⟨rfl, hf.2⟩
    | signalNobody hp hw =>
        exact hf.along (hwait (by rw [hp]; nofun)) (by rw [hp]; nofun) rfl (fun _ => rfl)
          fun h => absurd h hw
    | loop hp => exact along hp nofun nofun rfl (fun _ => rfl) nofun
    | exited hp => exact along hp nofun nofun rfl (fun _ => rfl) nofun
  case told =>
    cases hm with
    | lock hp | epollCreate hp | addNone hp | add _ _ hp | addFailed _ _ hp | noServer hp
    | addServer hp | serverFailed hp | unlock hp =>
        exact working (by rw [hp]; rfl) (by rw [hp]; nofun) rfl
    | signal => exact nofun
    | signalNobody | loop | exited => exact h.told

theorem Ordered.step {a : Label} (h : Ordered c s) (hok : Timely s a) (hm : Move c s a s') :
    Ordered c s' := by
  cases hm with
  | main _ hm => exact h.mainMove hm
  | iopoll _ hm => exact h.threadMove hm
  | wake hw =>
      have hf := h.fits
      rw [hw] at hf
      exact ⟨h.owned.step (c := c) (.wake hw), h.knows, ⟨hok, hf.2⟩, nofun⟩

theorem Ordered.exec {ls : List Label} (h : Ordered c s)
    (hrun : Traces.exec (Iopoll.step c) s ls = some s')
    (hok : Traces.Steps (Iopoll.step c) Timely s ls) : Ordered c s' :=
  Traces.inv_exec (fun _ _ _ hs ha hstep => hs.step ha (step_cases hstep)) h hrun hok

/-! ## The answer -/

/-- A wait that is left before the thread has had the mutex can be answered wrongly:
what the main thread then reads is `init_success` at any time of the registration. -/
theorem Ordered.exposed (h : Ordered c s) (hw : s.mainAt = .waiting)
    (hb : begun s.threadAt = false) :
    ∃ ls s', Traces.exec (Iopoll.step c) { s with mainAt := .woken } ls = some s' ∧
      (∀ a ∈ ls, a ≠ .wake) ∧ ¬ Told c s' := by
  have hf := h.fits
  have hk := h.knows
  have hfree := h.owned.free
  obtain ⟨mtx, ok, watched, m, p⟩ := s
  dsimp only at hw hb hf hk hfree ⊢
  subst hw
  cases p with
  | absent => cases hf.1
  | epollCreate | add | addServer | unlock | signal | test | loop | exited => cases hb
  | lock =>
      obtain ⟨rfl, rfl⟩ := hk
      obtain rfl := hfree rfl rfl
      cases hacc : c.acceptAll [] c.descriptors with
      | true =>
          -- it is read before it is set
          refine ⟨[.main, .main, .main], _, rfl, by decide, fun htold => ?_⟩
          have hresult : c.result = 0 := if_pos ⟨hf.2, hacc⟩
          have hret : (-1 : Int) = c.result := (htold _ rfl).1
          rw [hresult] at hret
          exact absurd hret (by decide)
      | false =>
          -- it is read before it is cleared
          refine ⟨[.main, .main, .iopoll, .iopoll, .main], _, rfl, by decide, fun htold => ?_⟩
          have hresult : c.result = -1 := if_neg fun hc => Bool.false_ne_true (hacc ▸ hc.2)
          have hret : (0 : Int) = c.result := (htold _ rfl).1
          rw [hresult] at hret
          exact absurd hret (by decide)

/-- **The answer is right**, whatever follows, just if the wait is not left before the
I/O thread has had the mutex. -/
theorem told_iff {ls : List Label} {a : Label} (hrun : Traces.exec (step c) start ls = some s)
    (hok : Traces.Steps (step c) Timely start ls) (hstep : step c s a = some s') :
    (∀ ls' s'', Traces.exec (step c) s' ls' = some s'' →
      Traces.Steps (step c) Timely s' ls' → Told c s'') ↔ Timely s a := by
  have hs := (ordered_start c).exec hrun hok
  constructor
  · intro htold
    cases step_cases hstep with
    | main | iopoll => trivial
    | wake hw =>
        by_contra hb
        obtain ⟨ls', s'', hrun', hno, hnot⟩ := hs.exposed hw ((Bool.not_eq_true _).mp hb)
        refine hnot (htold ls' s'' hrun' (Traces.steps_of_forall fun a ha s => ?_))
        cases a with
        | main | iopoll => trivial
        | wake => exact absurd rfl (hno _ ha)
  · intro ha ls' s'' hrun' hok'
    exact ((hs.step ha (step_cases hstep)).exec hrun' hok').told

/-- Two backends and a server, all of whose descriptors are added. -/
def threeFds : Setup := ⟨[4, 7], 9, true, fun _ _ => true⟩

theorem told_iff_threeFds :
    let s : State := ⟨none, false, [], .woken, .lock⟩
    ¬ ∀ ls' s', Traces.exec (step threeFds) s ls' = some s' →
      Traces.Steps (step threeFds) Timely s ls' → Told threeFds s' := by
  intro s h
  have hrun : Traces.exec (step threeFds) start [.main, .main, .main] =
      some ⟨none, false, [], .waiting, .lock⟩ := rfl
  have hwake : step threeFds ⟨none, false, [], .waiting, .lock⟩ .wake = some s := rfl
  exact absurd ((told_iff hrun (by decide) hwake).mp h) (by decide)

/-! ## The end -/

/-- What is left of `iopoll_init`. -/
def mainRank : MainPoint → Nat
  | .lock => 8
  | .create => 7
  | .wait => 6
  | .waiting => 5
  | .woken => 4
  | .unlock => 3
  | .test => 2
  | .unlockFailed => 1
  | .returned _ => 0

/-- What is left of `iopoll_thread`, up to its loop. -/
def threadRank (c : Setup) : ThreadPoint → Nat
  | .absent | .lock => c.backendFds.length + 7
  | .epollCreate => c.backendFds.length + 6
  | .add fds => fds.length + 5
  | .addServer => 4
  | .unlock => 3
  | .signal => 2
  | .test => 1
  | .loop | .exited => 0

def rank (c : Setup) (s : State) : Nat := mainRank s.mainAt + threadRank c s.threadAt

theorem Ordered.rank_lt {a : Label} (h : Ordered c s) (hm : Move c s a s') :
    rank c s' < rank c s := by
  have hf := h.fits
  cases hm with
  | main _ hm =>
      cases hm with
      | create hp =>
          rw [hp] at hf
          simp [rank, mainRank, threadRank, hp, show s.threadAt = .absent from hf]
      | lock hp | createFailed hp | unlockFailed hp | wait hp | woken hp | unlock hp | test hp =>
          simp [rank, mainRank, hp]
  | iopoll _ hm =>
      cases hm with
      | signal hp hw => simp [rank, mainRank, threadRank, hp, hw]
      | addFailed fd fds hp =>
          simp only [rank, threadRank, hp]
          omega
      | lock hp | epollCreate hp | addNone hp | add _ _ hp | noServer hp | addServer hp
      | serverFailed hp | unlock hp | signalNobody hp | loop hp | exited hp =>
          simp [rank, threadRank, hp]
  | wake hw => simp [rank, mainRank, hw]

/-- A thread that has the mutex goes on. -/
theorem mainStep_of_holds (h : mainHolds s.mainAt = true) : s.mainStep c ≠ none := by
  unfold State.mainStep
  cases hp : s.mainAt with
  | create =>
      dsimp only
      split
      · nofun
      · nofun
  | unlockFailed | wait | unlock => nofun
  | lock | waiting | woken | test | returned =>
      rw [hp] at h
      cases h

theorem threadStep_of_holds (h : threadHolds s.threadAt = true) : s.threadStep c ≠ none := by
  unfold State.threadStep
  cases hp : s.threadAt with
  | epollCreate | addServer | unlock => nofun
  | add fds =>
      cases fds with
      | nil | cons => nofun
  | absent | lock | signal | test | loop | exited =>
      rw [hp] at h
      cases h

/-- Where the main thread can stop while the mutex is free. -/
theorem mainAt_of_stuck (hfree : s.mtxInit = none) (h : s.mainStep c = none) :
    s.mainAt = .waiting ∨ ∃ ret, s.mainAt = .returned ret := by
  unfold State.mainStep at h
  cases hp : s.mainAt with
  | waiting => exact .inl rfl
  | returned ret => exact .inr ⟨ret, rfl⟩
  | lock | woken => simp [hp, State.lock, hfree] at h
  | create => cases hc : c.created <;> simp [hp, hc] at h
  | unlockFailed | wait | unlock | test => simp [hp] at h

/-- Where the I/O thread can. -/
theorem threadAt_of_stuck (hfree : s.mtxInit = none) (h : s.threadStep c = none) :
    s.threadAt = .absent ∨ s.threadAt = .loop ∨ s.threadAt = .exited := by
  unfold State.threadStep at h
  cases hp : s.threadAt with
  | absent => exact .inl rfl
  | loop => exact .inr (.inl rfl)
  | exited => exact .inr (.inr rfl)
  | lock => simp [hp, State.lock, hfree] at h
  | add fds => cases fds <;> simp [hp] at h
  | epollCreate | addServer | unlock | signal | test => simp [hp] at h

/-- **No deadlock**: where neither thread can go on, both are done. -/
theorem Ordered.stuck (h : Ordered c s) (hmain : s.mainStep c = none)
    (hthread : s.threadStep c = none) :
    s.mainAt = .returned c.result ∧ (s.threadAt = .loop ↔ c.result = 0) := by
  have hfree : s.mtxInit = none := h.owned.free
    (Bool.eq_false_iff.mpr fun hholds => mainStep_of_holds hholds hmain)
    (Bool.eq_false_iff.mpr fun hholds => threadStep_of_holds hholds hthread)
  have hend := threadAt_of_stuck hfree hthread
  have hf := h.fits
  have hk := h.knows
  rcases mainAt_of_stuck hfree hmain with hw | ⟨ret, hret⟩
  · -- the signal is still to come
    have hsig : toSignal s.threadAt = false := by
      rcases hend with he | he | he <;> rw [he] <;> rfl
    rw [hw, Fits, hsig] at hf
    cases hf.1
  · rw [hret] at hf
    refine ⟨by rw [hret, (h.told ret hret).1], ?_⟩
    rcases hf with ⟨hp, hc⟩ | ⟨ho, hc⟩
    · simp [hp, Setup.result, hc]
    · obtain ⟨hok, -⟩ := h.outcome ho
      rcases hend with he | he | he
      · rw [he] at ho
        cases ho
      · rw [he] at hk
        simp [he, Setup.result, hc, ← hok, hk.1]
      · rw [he] at hk
        simp [he, Setup.result, hc, ← hok, hk.1]

/-- **The call returns**: in every order of the threads, no more than so many steps are
made, and where no thread can go on the right value has been returned, and the I/O
thread polls just if it is 0. -/
theorem iopollInit_returns {ls : List Label} (hrun : Traces.exec (step c) start ls = some s)
    (hok : Traces.Steps (step c) Timely start ls) :
    ls.length ≤ c.backendFds.length + 15 ∧
      (step c s .main = none → step c s .iopoll = none →
        s.mainAt = .returned c.result ∧ (s.threadAt = .loop ↔ c.result = 0)) := by
  refine ⟨?_, ((ordered_start c).exec hrun hok).stuck⟩
  have hlen := Traces.length_exec (I := Ordered c) (D := fun _ => False) (μ := rank c)
    (fun _ _ _ hd _ _ => hd)
    (fun _ _ _ hs ha hstep => .inr ⟨hs.step ha (step_cases hstep), hs.rank_lt (step_cases hstep)⟩)
    (ordered_start c) hrun hok
  have hstart : rank c start = c.backendFds.length + 15 := by
    simp [rank, mainRank, threadRank, start]
    omega
  rcases hlen with hlen | hlen
  · exact hlen.elim
  · omega

theorem iopollInit_returns_threeFds :
    ∃ s, Traces.exec (step threeFds) start (List.replicate 3 .main ++
        List.replicate 9 .iopoll ++ List.replicate 3 .main) = some s ∧
      s.mainAt = .returned 0 ∧ s.threadAt = .loop := by
  refine ⟨_, rfl, ?_⟩
  have hret := (iopollInit_returns (c := threeFds) (s := ⟨none, true, [4, 7, 9], .returned 0, .loop⟩)
    (show Traces.exec _ start (List.replicate 3 .main ++ List.replicate 9 .iopoll ++
      List.replicate 3 .main) = _ from rfl) (by decide)).2 rfl rfl
  have hresult : threeFds.result = 0 := by decide
  exact ⟨hresult ▸ hret.1, hret.2.mpr hresult⟩

end RealBoy.Iopoll
