import TuyaSdk.Lib.Heap
import TuyaSdk.Lib.Machine

/-!
# The role launcher

`func/joint_up/role_launch.c`, built with `CFG_ROLE_LAUNCH`. Requests for the station and for
the access point are left in `g_rl_socket` by any task and taken from there by the handler of
`enter_timer`, which puts each into a new entity of its queue; the handler of `rl_timer` moves
the two queues on. Both handlers are run by the timer task, one after the other, and only they
touch the four slots; the socket and the status and cancel words are written by every task.

A handler therefore runs against a list of updates for each of its reads of a shared word: what
the other tasks do just before it. A NULL slot is `none`, an entity is known by the address of
its block, and a failed `ASSERT` stops the program (`halted`). The bodies of `bk_wlan_start_sta`,
`bk_wlan_start_ap` and the scan are outside; what they report comes back as updates.
-/

namespace TuyaSdk.RoleLaunch

open TuyaSdk.Lib

/-! ## Requests and entities -/

def launchReqSta : UInt32 := 1
def launchReqAp : UInt32 := 2
def launchReqPureStaScan : UInt32 := 3

def launchTypeAsap : UInt32 := 1

/-- `LAUNCH_REQ`: the bytes of the network description and the type of the request. -/
structure LaunchReq where
  descr : List UInt8
  reqType : UInt32
  deriving DecidableEq

/-- A cleared `LAUNCH_REQ`. -/
def LaunchReq.zero : LaunchReq := ⟨[], 0⟩

/-- `RL_ENTITY_T`; a completion is the address of a function. -/
structure RlEntity where
  launchType : UInt32
  relaunchLimit : UInt32
  launchCount : UInt32
  rlaunch : LaunchReq
  completionCb : UInt32

/-- `RL_SOCKET_T`. -/
structure RlSocket where
  staReqFlag : UInt32
  staParam : LaunchReq
  staCompletion : UInt32
  apReqFlag : UInt32
  apParam : LaunchReq
  apCompletion : UInt32

def RlSocket.zero : RlSocket := ⟨0, .zero, 0, 0, .zero, 0⟩

/-- `RL_SOCKET_CACHE_T`. -/
structure RlSocketCache where
  staReqFlag : UInt32
  staParam : LaunchReq
  staCompletion : UInt32

def RlSocketCache.zero : RlSocketCache := ⟨0, .zero, 0⟩

/-! ## What every task writes -/

def rlStatusCancel : UInt32 := 0x8000
def rlStatusOtherMask : UInt32 := 0x7FFF

def rlStatusStaScanVain : UInt32 := 3
def rlStatusStaConnecting : UInt32 := 5
def rlStatusStaDhcping : UInt32 := 6
def rlStatusStaChannelSwitching : UInt32 := 7
def rlStatusStaChannelSwitched : UInt32 := 8
def rlStatusStaCsaLaunchedUncertainty : UInt32 := 9
def rlStatusStaLaunched : UInt32 := 0xa
def rlStatusStaLaunchFailed : UInt32 := 0xb
def rlStatusApTransmittedBcn : UInt32 := 0x14
def rlStatusApLaunched : UInt32 := 0x15

/-- The socket, its cache, the status and cancel words of `g_role_launch`, and whether
`enter_timer` is armed. -/
structure Shared where
  preStaCancel : UInt32
  preStaStatus : UInt32
  preApCancel : UInt32
  preApStatus : UInt32
  socket : RlSocket
  staCache : RlSocketCache
  enterTimer : Bool

namespace Shared

def rlPreStaSetStatus (status : UInt32) (sh : Shared) : Shared :=
  let next :=
    if sh.preStaStatus = rlStatusStaChannelSwitching ∧ status = rlStatusStaLaunched then
      rlStatusStaCsaLaunchedUncertainty
    else if sh.preStaStatus = rlStatusStaCsaLaunchedUncertainty ∧
        status = rlStatusStaChannelSwitched then
      rlStatusStaLaunched
    else status
  { sh with preStaStatus := if sh.preStaCancel ≠ 0 then next ||| rlStatusCancel else next }

def rlPreApSetStatus (status : UInt32) (sh : Shared) : Shared :=
  { sh with preApStatus := if sh.preApCancel ≠ 0 then status + rlStatusCancel else status }

def rlPreStaSetCancel (sh : Shared) : Shared := { sh with preStaCancel := 1 }

def rlPreStaClearCancel (sh : Shared) : Shared := { sh with preStaCancel := 0 }

def rlPreApSetCancel (sh : Shared) : Shared := { sh with preApCancel := 1 }

def rlPreApClearCancel (sh : Shared) : Shared := { sh with preApCancel := 0 }

def rlPreStaInit (sh : Shared) : Shared := { sh with preStaCancel := 0, preStaStatus := 0 }

def rlPreApInit (sh : Shared) : Shared := { sh with preApCancel := 0, preApStatus := 0 }

/-- `rl_sta_request_enter`: a request that is still in the socket is overwritten. -/
def rlStaRequestEnter (param : LaunchReq) (completion : UInt32) (sh : Shared) : Shared :=
  { sh with
    socket := { sh.socket with staCompletion := completion, staParam := param, staReqFlag := 1 }
    enterTimer := true }

/-- `rl_ap_request_enter`. -/
def rlApRequestEnter (param : LaunchReq) (completion : UInt32) (sh : Shared) : Shared :=
  { sh with
    socket := { sh.socket with apCompletion := completion, apParam := param, apReqFlag := 1 }
    enterTimer := true }

/-- `rl_sta_cache_request_enter`; `retry` says that `retry_cnt` was not zero. -/
def rlStaCacheRequestEnter (retry : Bool) (sh : Shared) : Shared :=
  if retry then
    let sh :=
      if sh.staCache.staReqFlag ≠ 0 then
        sh.rlStaRequestEnter sh.staCache.staParam sh.staCache.staCompletion
      else sh
    { sh with staCache := .zero }
  else sh

/-- `rl_sta_request_start`; the starts themselves are outside. -/
def rlStaRequestStart (req : LaunchReq) (sh : Shared) : Shared :=
  if req.reqType = launchReqSta ∨ req.reqType = launchReqPureStaScan then sh.rlPreStaInit else sh

/-- `rl_ap_request_start`. -/
def rlApRequestStart (req : LaunchReq) (sh : Shared) : Shared :=
  if req.reqType = launchReqAp then sh.rlPreApInit else sh

end Shared

/-- One call by which a task changes the shared words. -/
inductive Update where
  | staRequestEnter (param : LaunchReq) (completion : UInt32)
  | apRequestEnter (param : LaunchReq) (completion : UInt32)
  | staCacheRequestEnter (retry : Bool)
  | preStaSetStatus (status : UInt32)
  | preApSetStatus (status : UInt32)
  | preStaSetCancel
  | preStaClearCancel
  | preApSetCancel
  | preApClearCancel
  | preStaInit
  | preApInit

def Update.apply : Update → Shared → Shared
  | .staRequestEnter param completion => Shared.rlStaRequestEnter param completion
  | .apRequestEnter param completion => Shared.rlApRequestEnter param completion
  | .staCacheRequestEnter retry => Shared.rlStaCacheRequestEnter retry
  | .preStaSetStatus status => Shared.rlPreStaSetStatus status
  | .preApSetStatus status => Shared.rlPreApSetStatus status
  | .preStaSetCancel => Shared.rlPreStaSetCancel
  | .preStaClearCancel => Shared.rlPreStaClearCancel
  | .preApSetCancel => Shared.rlPreApSetCancel
  | .preApClearCancel => Shared.rlPreApClearCancel
  | .preStaInit => Shared.rlPreStaInit
  | .preApInit => Shared.rlPreApInit

/-! ## What only the handlers write -/

/-- The four pointers of `g_role_launch` to entities. -/
inductive Slot where
  | previousSta
  | followingSta
  | previousAp
  | followingAp
  deriving DecidableEq

inductive PreEntity where
  | idle
  | sta
  | ap
  | mesh
  deriving DecidableEq

inductive TimerFlag where
  | uninit
  | init
  | start
  | stop
  deriving DecidableEq

/-- The rest of `g_role_launch`, with the blocks of the entities. `rlTimer` says that the
launch timer is armed; `started` and `freed` list the entities that were started and freed. -/
structure Queues where
  slot : Slot → Option Nat
  preEntityType : PreEntity
  rlTimer : Bool
  rlTimerFlag : TimerFlag
  heap : Heap RlEntity
  started : List Nat
  freed : List Nat

namespace Queues

/-- After `rl_init`. -/
def init : Queues where
  slot := fun _ => none
  preEntityType := .idle
  rlTimer := false
  rlTimerFlag := .init
  heap := .empty
  started := []
  freed := []

def set (q : Queues) (i : Slot) (v : Option Nat) : Queues :=
  { q with slot := fun j => if j = i then v else q.slot j }

/-- The entity is started. -/
def start (q : Queues) (e : Nat) : Queues := { q with started := q.started ++ [e] }

/-- `rl_start`: the launch timer is stopped and started again. -/
def rlStart (q : Queues) : Queues := { q with rlTimer := true, rlTimerFlag := .start }

/-- `rl_relaunch_chance`. -/
def rlRelaunchChance (q : Queues) : Queues := { q with rlTimer := true }

end Queues

/-- What a handler works on: the shared words, the queues, the updates that come before each of
its further reads, and the outcomes of its further allocations (an exhausted list succeeds). -/
structure World where
  shared : Shared
  queues : Queues
  updates : List (List Update)
  allocs : List Bool

namespace World

/-- The updates before the next read take place. -/
def pause (w : World) : World :=
  { w with
    shared := (w.updates.headD []).foldl (fun sh u => u.apply sh) w.shared
    updates := w.updates.tail }

/-- The outcome of the next allocation, and what is left. -/
def alloc (w : World) : Bool × World :=
  (w.allocs.headD true, { w with allocs := w.allocs.tail })

def onQueues (f : Queues → Queues) (w : World) : World := { w with queues := f w.queues }

def onShared (f : Shared → Shared) (w : World) : World := { w with shared := f w.shared }

end World

/-! ## The launch handler -/

/-- Code of the launch handler; `none` is an access to a block that is not allocated. -/
abbrev Launch := StateT World Option

namespace Launch

/-- A read of a shared word. -/
def readShared {α : Type} (f : Shared → α) : Launch α := fun w => some (f w.pause.shared, w.pause)

/-- A call that changes a shared word. -/
def onShared (f : Shared → Shared) : Launch Unit := fun w => some ((), w.pause.onShared f)

def onQueues (f : Queues → Queues) : Launch Unit := fun w => some ((), w.onQueues f)

def slot (i : Slot) : Launch (Option Nat) := fun w => some (w.queues.slot i, w)

def preEntityType : Launch PreEntity := fun w => some (w.queues.preEntityType, w)

/-- The entity a pointer points to. -/
def deref (e : Nat) : Launch RlEntity := fun w => (w.queues.heap.block e).map fun b => (b, w)

/-- `rl_free_entity`; `os_free` of NULL does nothing. -/
def rlFreeEntity : Option Nat → Launch Unit
  | none => pure ()
  | some e => fun w => (w.queues.heap.free e).map fun heap =>
      ((), w.onQueues fun q => { q with heap := heap, freed := q.freed ++ [e] })

def when (c : Bool) (m : Launch Unit) : Launch Unit := if c then m else pure ()

/-- `rl_sta_request_start(&entity->rlaunch)`. -/
def staRequestStart (e : Nat) : Launch Unit := do
  let entity ← deref e
  onShared (Shared.rlStaRequestStart entity.rlaunch)
  onQueues (·.start e)

/-- `rl_ap_request_start(&entity->rlaunch)`. -/
def apRequestStart (e : Nat) : Launch Unit := do
  let entity ← deref e
  onShared (Shared.rlApRequestStart entity.rlaunch)
  onQueues (·.start e)

end Launch

inductive LaunchStatus where
  | launchOver
  | cont
  deriving DecidableEq

open Launch

def rlStaMayNextLaunch : Launch UInt32 := do
  let status := readShared (·.preStaStatus)
  let is (v : UInt32) : Launch Bool := do return (← status) == v
  if ← (do return (← status) &&& rlStatusOtherMask != rlStatusStaCsaLaunchedUncertainty) <&&>
      ((do return (← status) &&& rlStatusCancel != 0) <||> is rlStatusStaLaunched <||>
        is rlStatusStaLaunchFailed) then
    return 1
  else if ← (readShared (·.preStaCancel != 0)) <&&>
      (is rlStatusStaDhcping <||> is rlStatusStaConnecting <||> is rlStatusStaScanVain) then
    return 2
  else if ← is rlStatusStaLaunchFailed then
    return 3
  else
    return 0

def rlApMayNextLaunch (preCancel : Bool) : Launch UInt32 := do
  let status := readShared (·.preApStatus)
  if preCancel = false then
    return 1
  else if ← (do return (← status) == rlStatusApTransmittedBcn + rlStatusCancel) <||>
      (do return (← status) &&& ~~~rlStatusCancel == rlStatusApLaunched) then
    return 1
  else
    return 0

/-- There is a following entity, and it is to be launched as soon as possible. -/
def followingAsap : Option Nat → Launch Bool
  | none => return false
  | some entity => do return (← deref entity).launchType == launchTypeAsap

/-- The part of `rl_launch_sta` that may cancel the previous request. -/
def rlLaunchStaCancel (following : Option Nat) (preEntity : Nat) : Launch Unit := do
  when (← followingAsap following) (onShared Shared.rlPreStaSetCancel)
  let e ← deref preEntity
  when (e.relaunchLimit != 0 && e.relaunchLimit ≤ e.launchCount) (onShared Shared.rlPreStaSetCancel)

def rlLaunchSta : Launch LaunchStatus := do
  match ← slot .previousSta with
  | none =>
    match ← slot .followingSta with
    | none => return .launchOver
    | some preEntity =>
      onQueues (·.set .previousSta (some preEntity))
      onQueues (·.set .followingSta none)
      staRequestStart preEntity
      return .cont
  | some preEntity =>
    rlLaunchStaCancel (← slot .followingSta) preEntity
    if (← rlStaMayNextLaunch) ≠ 0 then
      rlFreeEntity (← slot .previousSta)
      let following ← slot .followingSta
      onQueues (·.set .previousSta following)
      onQueues (·.set .followingSta none)
      match following with
      | none => return .launchOver
      | some preEntity =>
        staRequestStart preEntity
        return .cont
    else
      return .cont

/-- The part of `rl_launch_ap` that may cancel the previous request, with `cancel_pre_flag`. -/
def rlLaunchApCancel (following : Option Nat) (preEntity : Nat) : Launch Bool := do
  let asap ← followingAsap following
  when asap (onShared Shared.rlPreApSetCancel)
  let e ← deref preEntity
  let limit := e.relaunchLimit != 0 && e.relaunchLimit ≤ e.launchCount
  when limit (onShared Shared.rlPreApSetCancel)
  return asap || limit

def rlLaunchAp : Launch LaunchStatus := do
  match ← slot .previousAp with
  | none =>
    match ← slot .followingAp with
    | none => return .launchOver
    | some preEntity =>
      onQueues (·.set .previousAp (some preEntity))
      onQueues (·.set .followingAp none)
      onShared Shared.rlPreApInit
      apRequestStart preEntity
      return .cont
  | some preEntity =>
    let cancelPreFlag ← rlLaunchApCancel (← slot .followingAp) preEntity
    if (← rlApMayNextLaunch cancelPreFlag) ≠ 0 then
      rlFreeEntity (← slot .previousAp)
      let following ← slot .followingAp
      onQueues (·.set .previousAp following)
      onQueues (·.set .followingAp none)
      match following with
      | none => return .launchOver
      | some preEntity =>
        onShared Shared.rlPreApInit
        apRequestStart preEntity
        return .cont
    else
      return .cont

/-- The `switch` of `rl_launch_handler`, with the results for the access point and the station. -/
def rlLaunchSwitch : PreEntity → Launch (LaunchStatus × LaunchStatus)
  | .ap => do
    match ← rlLaunchAp with
    | .launchOver =>
      onQueues fun q => { q with preEntityType := .sta }
      return (.launchOver, ← rlLaunchSta)
    | .cont => return (.cont, .launchOver)
  | .sta => do
    match ← rlLaunchSta with
    | .launchOver =>
      onQueues fun q => { q with preEntityType := .ap }
      return (← rlLaunchAp, .launchOver)
    | .cont => return (.launchOver, .cont)
  | .idle => return (.launchOver, .launchOver)
  | .mesh => return (.launchOver, .launchOver)

/-- `rl_launch_handler`, run when the one-shot launch timer has expired. -/
def rlLaunchHandler : Launch Unit := do
  onQueues fun q => { q with rlTimer := false }
  let (apRet, staRet) ← rlLaunchSwitch (← preEntityType)
  if ¬(staRet = .launchOver ∧ apRet = .launchOver) then
    onQueues Queues.rlRelaunchChance

/-! ## The enter handler -/

/-- `rl_alloc_entity`; `none` is the failed `ASSERT(entity)`. -/
def rlAllocEntity (param : LaunchReq) (completion : UInt32) (w : World) : Option Nat × World :=
  let (ok, w) := w.alloc
  if ok then
    (some w.queues.heap.next, w.onQueues fun q =>
      { q with heap := q.heap.malloc ⟨launchTypeAsap, 0, 0, param, completion⟩ })
  else (none, w)

/-- Code of the enter handler; an error is the world in which an `ASSERT` stopped it. -/
abbrev Enter := Except World

/-- The type of the first entity of all. -/
def firstEntity (t : PreEntity) (q : Queues) : Queues :=
  if q.preEntityType = .idle then { q with preEntityType := t } else q

def staRequestEnter (param : LaunchReq) (completion : UInt32) (w : World) :
    Enter (UInt32 × World) :=
  if w.queues.slot .previousAp = none ∧ w.queues.slot .previousSta = none then
    match rlAllocEntity param completion w with
    | (none, w) => throw w
    | (some entity, w) =>
      return (1, ((w.onQueues fun q => (q.set .previousSta (some entity)).start entity).onShared
        (Shared.rlStaRequestStart param)).onQueues (firstEntity .sta))
  else if w.queues.slot .followingSta = none then
    match rlAllocEntity param completion w with
    | (none, w) => throw w
    | (some entity, w) =>
      return (2, (w.onQueues fun q => (q.set .followingSta (some entity)).rlStart).onQueues
        (firstEntity .sta))
  else
    return (0, (w.onShared Shared.rlPreStaSetCancel).onQueues Queues.rlStart)

def apRequestEnter (param : LaunchReq) (completion : UInt32) (w : World) :
    Enter (UInt32 × World) :=
  if w.queues.slot .previousAp = none ∧ w.queues.slot .previousSta = none then
    match rlAllocEntity param completion w with
    | (none, w) => throw w
    | (some entity, w) =>
      return (1, ((w.onQueues fun q => (q.set .previousAp (some entity)).start entity).onShared
        (Shared.rlApRequestStart param)).onQueues (firstEntity .ap))
  else if w.queues.slot .followingAp = none then
    match rlAllocEntity param completion w with
    | (none, w) => throw w
    | (some entity, w) =>
      return (2, (w.onQueues fun q => (q.set .followingAp (some entity)).rlStart).onQueues
        (firstEntity .ap))
  else
    return (0, w.onQueues Queues.rlStart)

/-- The station's part of `rl_enter_handler`; `w` is read once the socket is cleared. -/
def enterSta (socket : RlSocket) (w : World) : Enter World :=
  if socket.staReqFlag ≠ 0 then do
    let (ret, w) ← staRequestEnter socket.staParam socket.staCompletion w.pause
    return if ret ≠ 0 then
      w.onShared fun sh => { sh with staCache := ⟨1, socket.staParam, socket.staCompletion⟩ }
    else w
  else
    return w

/-- The access point's part of `rl_enter_handler`. -/
def enterAp (socket : RlSocket) (w : World) : Enter World :=
  if socket.apReqFlag ≠ 0 then do
    let (_, w) ← apRequestEnter socket.apParam socket.apCompletion w.pause
    return w
  else
    return w

/-- `rl_enter_handler`, run when the one-shot enter timer has expired. When the memory for the
copies cannot be had, the requests stay in the socket. -/
def rlEnterHandler (w : World) : Enter World :=
  let w := w.onShared fun sh => { sh with enterTimer := false }
  let (ok, w) := w.alloc
  if ok then do
    let w := w.pause
    let socket := w.shared.socket
    let w ← enterSta socket (w.onShared fun sh => { sh with socket := .zero })
    enterAp socket w
  else
    return w

/-! ## Runs -/

/-- The state between the handlers. -/
structure State where
  shared : Shared
  queues : Queues
  halted : Bool

/-- After `rl_init`, with the globals cleared. -/
def State.init : State where
  shared := ⟨0, 0, 0, 0, .zero, .zero, false⟩
  queues := .init
  halted := false

/-- What happens next: a call by some task, or one of the handlers with the updates before each
of its reads and the outcomes of its allocations. -/
inductive Event where
  | update (u : Update)
  | enterTimer (updates : List (List Update)) (allocs : List Bool)
  | launchTimer (updates : List (List Update))

/-- One step; a halted program makes no more, and `none` is an access to a freed block. -/
def step : Machine State Event Unit := fun s event =>
  if s.halted then some (s, ())
  else
    match event with
    | .update u => some ({ s with shared := u.apply s.shared }, ())
    | .enterTimer updates allocs =>
      match rlEnterHandler ⟨s.shared, s.queues, updates, allocs⟩ with
      | .ok w => some (⟨w.shared, w.queues, false⟩, ())
      | .error w => some (⟨w.shared, w.queues, true⟩, ())
    | .launchTimer updates =>
      (rlLaunchHandler ⟨s.shared, s.queues, updates, []⟩).map fun r =>
        (⟨r.2.shared, r.2.queues, false⟩, ())

end TuyaSdk.RoleLaunch
