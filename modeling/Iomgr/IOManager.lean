import Mathlib.Data.Int.Order.Basic
import Mathlib.Logic.Function.Basic

/-!
The table of watched file descriptors. `mode_` of a controller and of an entry are `int`s used as
bit masks. The poller is the interest set of epoll: the kernel refuses to add a member and to change
or remove a non-member, and may refuse any operation for reasons of its own, which is the argument
`ok` of each operation. Dereferencing the end of the table has no defined result and is `none`.
-/

namespace Iomgr

abbrev Mode := BitVec 32

def kWatchRead : Mode := 1

def kWatchWrite : Mode := 2

def kWatchReadWrite : Mode := kWatchRead ||| kWatchWrite

/-- The address of an `IOWatcher::Controller`. -/
abbrev ControllerPtr := Nat

/-- The address of an `IOWatcher`. -/
abbrev WatcherPtr := Nat

/-- An `IOWatcher::Controller`; `task` is the handle of the task last posted for it. -/
structure Controller where
  fd : Int
  mode : Mode
  watcher : Option WatcherPtr
  task : Option Nat
  deriving DecidableEq

/-- The state of a new controller, and after `reset`. -/
def Controller.new : Controller where
  fd := -1
  mode := 0
  watcher := none
  task := none

structure FDAndControllers where
  mode : Mode
  controllers : List ControllerPtr
  deriving DecidableEq

def FDAndControllers.new : FDAndControllers := ⟨0, []⟩

/-- The interest set of epoll: for each member the events it is watched for. -/
abbrev IOPoller := Int → Option Mode

namespace IOPoller

/-- The events `InvokeControl` asks for: `EPOLLIN` and `EPOLLOUT`, here as the bits of the mode. -/
def events (mode : Mode) : Mode := mode &&& kWatchReadWrite

def addFd (poller : IOPoller) (ok : Bool) (fd : Int) (mode : Mode) : Option IOPoller :=
  if ok && (poller fd).isNone then some (Function.update poller fd (some (events mode))) else none

def updateFd (poller : IOPoller) (ok : Bool) (fd : Int) (mode : Mode) : Option IOPoller :=
  if ok && (poller fd).isSome then some (Function.update poller fd (some (events mode))) else none

def removeFd (poller : IOPoller) (ok : Bool) (fd : Int) : Option IOPoller :=
  if ok && (poller fd).isSome then some (Function.update poller fd none) else none

end IOPoller

/-- The manager with the controllers it points to. -/
structure IOManager where
  poller : IOPoller
  fdControllers : Int → Option FDAndControllers
  controllers : ControllerPtr → Controller

namespace IOManager

def new : IOManager where
  poller _ := none
  fdControllers _ := none
  controllers _ := Controller.new

def setController (m : IOManager) (c : ControllerPtr) (controller : Controller) : IOManager :=
  { m with controllers := Function.update m.controllers c controller }

def setEntry (m : IOManager) (fd : Int) (entry : FDAndControllers) : IOManager :=
  { m with fdControllers := Function.update m.fdControllers fd (some entry) }

/-- The end of a stop, with what the controller leaves of the entry: the poller follows the mode,
and the controller is reset. -/
def leaveEntry (m : IOManager) (ok : Bool) (fd : Int) (c : ControllerPtr)
    (entry : FDAndControllers) : Bool × IOManager :=
  let m := m.setEntry fd entry
  match if entry.mode = 0 then m.poller.removeFd ok fd else m.poller.updateFd ok fd entry.mode with
  | none => (false, m)
  | some poller => (true, { m with poller := poller }.setController c Controller.new)

/-- Cancelling the task that is moved out of the controller and waiting for it are left to the
caller of this function. -/
def stopWatchingFileDescriptorNoLock (m : IOManager) (ok : Bool) (c : ControllerPtr) :
    Option (Bool × IOManager) :=
  let fd := (m.controllers c).fd
  let mode := (m.controllers c).mode
  let m := m.setController c { m.controllers c with task := none }
  if fd = -1 then some (true, m)
  else do
    let entry ← m.fdControllers fd
    some (m.leaveEntry ok fd c ⟨entry.mode &&& ~~~mode, entry.controllers.erase c⟩)

/-- The end of a watch: the controller joins the entry that was found or made. -/
def enterEntry (m : IOManager) (ok : Bool) (fd : Int) (mode : Mode) (watcher : WatcherPtr)
    (c : ControllerPtr) (entry : FDAndControllers) : Bool × IOManager :=
  let m := m.setEntry fd entry
  match if entry.mode = 0 then m.poller.addFd ok fd mode
      else m.poller.updateFd ok fd (mode ||| entry.mode) with
  | none => (false, m)
  | some poller =>
      let m := { m with poller := poller }.setController c
        { m.controllers c with fd := fd, mode := mode, watcher := some watcher }
      (true, m.setEntry fd ⟨entry.mode ||| mode, entry.controllers ++ [c]⟩)

/-- The result of the stop is not looked at. -/
def watchFileDescriptor (m : IOManager) (okStop ok : Bool) (fd : Int) (mode : Mode)
    (watcher : WatcherPtr) (c : ControllerPtr) : Option (Bool × IOManager) :=
  if (m.controllers c).fd ≠ -1 ∧ (m.controllers c).fd ≠ fd then some (false, m)
  else do
    let (_, m) ← m.stopWatchingFileDescriptorNoLock okStop c
    some (m.enterEntry ok fd mode watcher c ((m.fdControllers fd).getD FDAndControllers.new))

end IOManager

end Iomgr
