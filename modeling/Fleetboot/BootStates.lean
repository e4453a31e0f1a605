import Mathlib.Data.List.Basic

/-!
# Boot states

`boot_states.py`: the lifecycle states that a booting machine reports, and their order.
-/

set_option autoImplicit false

namespace Fleetboot

inductive BootState
  | grubRunning
  | kernelLoaded
  | initrdLoaded
  | bootingKernel
  | networkUp
  | scratchMounted
  | nfsMounted
  | loginConsole
  deriving DecidableEq

namespace BootState

/-- `state.value`. -/
def value : BootState → String
  | grubRunning => "grub_running"
  | kernelLoaded => "kernel_loaded"
  | initrdLoaded => "initrd_loaded"
  | bootingKernel => "booting_kernel"
  | networkUp => "network_up"
  | scratchMounted => "scratch_mounted"
  | nfsMounted => "nfs_mounted"
  | loginConsole => "login_console"

/-- `BOOT_STATE_ORDER`. -/
def order : List BootState :=
  [grubRunning, kernelLoaded, initrdLoaded, bootingKernel,
    networkUp, scratchMounted, nfsMounted, loginConsole]

/-- `BootState(text)`: the state with that value, if there is one. -/
def ofValue (text : String) : Option BootState := order.find? fun state => state.value == text

/-- `state_index`. -/
def index (state : BootState) : Nat := order.idxOf state

theorem mem_order (state : BootState) : state ∈ order := by
  cases state <;> decide

theorem index_injective : Function.Injective index := fun state _ h =>
  (List.idxOf_inj (mem_order state)).mp h

theorem ofValue_value (state : BootState) : ofValue state.value = some state := by
  cases state <;> decide

theorem value_of_ofValue {text : String} {state : BootState} (h : ofValue text = some state) :
    state.value = text := by
  simpa using List.find?_some h

end BootState

end Fleetboot
