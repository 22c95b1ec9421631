import NvidiaGpu.Library.Window

set_option autoImplicit false

/-! The GPFIFO ring of a UVM channel (`uvm_channel.c`), under the pool lock.
`cpu_put` is where the CPU writes the next entry, `gpu_get` the oldest entry the
GPU has not been seen to complete; the entries from `gpu_get` up to `cpu_put`
are pending.  A push first claims entries (`current_gpfifo_count`), then
`uvm_channel_end_push` writes a normal entry carrying the next tracking value,
and `write_ctrl_gpfifo` a control entry carrying the value the push that
follows it will get.  `uvm_channel_update_progress_with_max` retires pending
entries in order.

`tracking_sem.queued_value` and the entries' tracking values are 64-bit
counters raised by one per push; they are kept as `Nat`, which agrees with the
source while fewer than `2^64 - 1` pushes have been made.  The pushbuffer's
side of a retired entry (`uvm_pushbuffer_mark_completed`) is not part of this
model. -/

namespace NvidiaGpu.Channel

open Window

/-- `uvm_gpfifo_entry_type_t` -/
inductive GpfifoEntryType
  | normal
  | control
  deriving DecidableEq, Repr

/-- `uvm_gpfifo_entry_t`, the fields the ring's bookkeeping reads: a normal entry
holds the index of its push info, a control entry none. -/
structure GpfifoEntry where
  type : GpfifoEntryType
  trackingSemaphoreValue : Nat
  pushInfo : Option Nat
  deriving DecidableEq, Repr

/-- `uvm_channel_update_mode_t` -/
inductive UpdateMode
  | completed
  | forceAll
  deriving DecidableEq, Repr

structure UvmChannel where
  numGpfifoEntries : Nat
  gpfifoEntries : Nat → GpfifoEntry
  cpuPut : Nat
  gpuGet : Nat
  currentGpfifoCount : Nat
  /-- `tracking_sem.queued_value` -/
  queuedValue : Nat
  /-- `available_push_infos`, by push info index. -/
  availablePushInfos : List Nat

namespace UvmChannel

def init (numGpfifoEntries : Nat) : UvmChannel :=
  { numGpfifoEntries := numGpfifoEntries
    gpfifoEntries := fun _ => { type := .normal, trackingSemaphoreValue := 0, pushInfo := none }
    cpuPut := 0
    gpuGet := 0
    currentGpfifoCount := 0
    queuedValue := 0
    availablePushInfos := List.range numGpfifoEntries }

/-- The number of pending entries, as `uvm_channel_update_progress_with_max`
computes it. -/
def pendingCount (channel : UvmChannel) : Nat :=
  if channel.cpuPut ≥ channel.gpuGet then channel.cpuPut - channel.gpuGet
  else channel.numGpfifoEntries - channel.gpuGet + channel.cpuPut

def pending (channel : UvmChannel) : List GpfifoEntry :=
  window channel.gpfifoEntries channel.numGpfifoEntries channel.gpuGet channel.pendingCount

/-- `channel_get_available_gpfifo_entries`: all entries but the sentinel, the
entries claimed by ongoing pushes and the pending ones. -/
def channelGetAvailableGpfifoEntries (channel : UvmChannel) : Nat :=
  let available := channel.numGpfifoEntries - 1 - channel.currentGpfifoCount
  if channel.cpuPut ≥ channel.gpuGet then available - (channel.cpuPut - channel.gpuGet)
  else available - (channel.cpuPut + channel.numGpfifoEntries - channel.gpuGet)

def tryClaimChannelLocked (channel : UvmChannel) (numGpfifoEntries : Nat) : UvmChannel × Bool :=
  if channel.channelGetAvailableGpfifoEntries ≥ numGpfifoEntries then
    ({ channel with currentGpfifoCount := channel.currentGpfifoCount + numGpfifoEntries }, true)
  else (channel, false)

/-- `uvm_channel_end_push`: a normal entry with the next tracking value at
`cpu_put`, for the push that held push info `pushInfoIndex`. -/
def uvmChannelEndPush (channel : UvmChannel) (pushInfoIndex : Nat) : UvmChannel :=
  let newTrackingValue := channel.queuedValue + 1
  let cpuPut := channel.cpuPut
  let newCpuPut := (cpuPut + 1) % channel.numGpfifoEntries
  let entry : GpfifoEntry :=
    { type := .normal, trackingSemaphoreValue := newTrackingValue, pushInfo := some pushInfoIndex }
  { channel with
    queuedValue := newTrackingValue
    gpfifoEntries := Function.update channel.gpfifoEntries cpuPut entry
    currentGpfifoCount := channel.currentGpfifoCount - 1
    cpuPut := newCpuPut }

/-- `write_ctrl_gpfifo`: a control entry at `cpu_put` carrying the tracking value
of the push that is to follow it. -/
def writeCtrlGpfifo (channel : UvmChannel) : UvmChannel :=
  let cpuPut := channel.cpuPut
  let newCpuPut := (cpuPut + 1) % channel.numGpfifoEntries
  let entry : GpfifoEntry :=
    { type := .control, trackingSemaphoreValue := channel.queuedValue + 1, pushInfo := none }
  { channel with
    gpfifoEntries := Function.update channel.gpfifoEntries cpuPut entry
    currentGpfifoCount := channel.currentGpfifoCount - 1
    cpuPut := newCpuPut }

/-- The loop of `uvm_channel_update_progress_with_max`, with `remaining` more
entries it may complete: the new `gpu_get` and the available push infos. -/
def updateProgressLoop (channel : UvmChannel) (mode : UpdateMode) (completedValue : Nat) :
    Nat → Nat → List Nat → Nat × List Nat
  | 0, gpuGet, available => (gpuGet, available)
  | remaining + 1, gpuGet, available =>
      if gpuGet = channel.cpuPut then (gpuGet, available)
      else
        let entry := channel.gpfifoEntries gpuGet
        if mode = .completed ∧ entry.trackingSemaphoreValue > completedValue then (gpuGet, available)
        else
          let available := if entry.type = .normal then available ++ entry.pushInfo.toList else available
          updateProgressLoop channel mode completedValue remaining ((gpuGet + 1) % channel.numGpfifoEntries)
            available

/-- `uvm_channel_update_progress_with_max`, with `completedValue` the value read
from the tracking semaphore: the channel after it and the number of entries
still pending. -/
def uvmChannelUpdateProgressWithMax (channel : UvmChannel) (maxToComplete : Nat) (mode : UpdateMode)
    (completedValue : Nat) : UvmChannel × Nat :=
  let (gpuGet, available) :=
    channel.updateProgressLoop mode completedValue maxToComplete channel.gpuGet channel.availablePushInfos
  let pendingGpfifos := if channel.cpuPut ≥ gpuGet then channel.cpuPut - gpuGet
    else channel.numGpfifoEntries - gpuGet + channel.cpuPut
  ({ channel with gpuGet := gpuGet, availablePushInfos := available }, pendingGpfifos)


/-! ## The pending entries -/

/-- Completing entries in order: the longest prefix of at most `maxToComplete`
pending entries whose values the mode lets complete. -/
def retiredCount (mode : UpdateMode) (completedValue maxToComplete : Nat) (pending : List GpfifoEntry) : Nat :=
  ((pending.take maxToComplete).takeWhile fun entry =>
    mode == .forceAll || decide (entry.trackingSemaphoreValue ≤ completedValue)).length

def pushInfosOf (entries : List GpfifoEntry) : List Nat :=
  entries.flatMap fun entry => if entry.type = .normal then entry.pushInfo.toList else []

theorem pendingGpfifos_eq {numGpfifoEntries cpuPut gpuGet count : Nat} (getBelow : gpuGet < numGpfifoEntries)
    (fewer : count < numGpfifoEntries) (put : cpuPut = (gpuGet + count) % numGpfifoEntries) :
    (if cpuPut ≥ gpuGet then cpuPut - gpuGet else numGpfifoEntries - gpuGet + cpuPut) = count := by
  rcases mod_cases (show gpuGet + count < 2 * numGpfifoEntries by omega) with
    ⟨_, noWrap⟩ | ⟨_, wrap⟩
  · rw [noWrap] at put
    rw [if_pos (by omega)]
    omega
  · rw [wrap] at put
    rw [if_neg (by omega)]
    omega

theorem pendingCount_eq_of_put {channel : UvmChannel} {count : Nat} (getBelow : channel.gpuGet < channel.numGpfifoEntries)
    (fewer : count < channel.numGpfifoEntries)
    (put : channel.cpuPut = (channel.gpuGet + count) % channel.numGpfifoEntries) :
    channel.pendingCount = count :=
  pendingGpfifos_eq getBelow fewer put

theorem put_eq_pendingCount {channel : UvmChannel} (putBelow : channel.cpuPut < channel.numGpfifoEntries)
    (getBelow : channel.gpuGet < channel.numGpfifoEntries) :
    channel.cpuPut = (channel.gpuGet + channel.pendingCount) % channel.numGpfifoEntries ∧
      channel.pendingCount < channel.numGpfifoEntries := by
  unfold pendingCount
  split
  · constructor
    · rw [Nat.add_sub_cancel' (by omega), Nat.mod_eq_of_lt putBelow]
    · omega
  · constructor
    · rw [show channel.gpuGet + (channel.numGpfifoEntries - channel.gpuGet + channel.cpuPut) =
          channel.cpuPut + channel.numGpfifoEntries by omega, Nat.add_mod_right, Nat.mod_eq_of_lt putBelow]
    · omega

theorem pendingCount_eq_mod {channel : UvmChannel} (putBelow : channel.cpuPut < channel.numGpfifoEntries)
    (getBelow : channel.gpuGet < channel.numGpfifoEntries) :
    channel.pendingCount =
      (channel.cpuPut + channel.numGpfifoEntries - channel.gpuGet) % channel.numGpfifoEntries := by
  unfold pendingCount
  split
  · rw [Nat.sub_add_comm (by omega), Nat.add_mod_right, Nat.mod_eq_of_lt (by omega)]
  · rw [Nat.mod_eq_of_lt (by omega)]
    omega

theorem channelGetAvailableGpfifoEntries_eq {channel : UvmChannel}
    (getBelow : channel.gpuGet < channel.numGpfifoEntries) :
    channel.channelGetAvailableGpfifoEntries =
      channel.numGpfifoEntries - 1 - channel.currentGpfifoCount - channel.pendingCount := by
  unfold channelGetAvailableGpfifoEntries pendingCount
  simp only []
  split
  · rfl
  · omega

theorem pending_put {channel written : UvmChannel} {entry : GpfifoEntry}
    (putBelow : channel.cpuPut < channel.numGpfifoEntries) (getBelow : channel.gpuGet < channel.numGpfifoEntries)
    (room : channel.pendingCount + 1 < channel.numGpfifoEntries)
    (size : written.numGpfifoEntries = channel.numGpfifoEntries)
    (entries : written.gpfifoEntries = Function.update channel.gpfifoEntries channel.cpuPut entry)
    (get : written.gpuGet = channel.gpuGet)
    (put : written.cpuPut = (channel.cpuPut + 1) % channel.numGpfifoEntries) :
    written.pendingCount = channel.pendingCount + 1 ∧ written.pending = channel.pending ++ [entry] := by
  obtain ⟨oldPut, _⟩ := put_eq_pendingCount putBelow getBelow
  have count : written.pendingCount = channel.pendingCount + 1 := by
    apply pendingCount_eq_of_put (by rw [get, size]; exact getBelow) (by rw [size]; exact room)
    rw [put, size, get, oldPut, Nat.add_mod, Nat.mod_mod, ← Nat.add_mod, Nat.add_assoc]
  refine ⟨count, ?_⟩
  unfold pending
  rw [count, window_add, size, get, entries]
  congr 1
  · apply window_congr
    intro offset inside
    rw [Function.update_of_ne]
    rw [oldPut]
    exact mod_ne_of_lt channel.gpuGet inside (by omega)
  · simp [window, ← oldPut]

theorem retiredCount_cons (mode : UpdateMode) (completedValue remaining : Nat) (entry : GpfifoEntry)
    (rest : List GpfifoEntry) :
    retiredCount mode completedValue (remaining + 1) (entry :: rest) =
      if mode = .completed ∧ entry.trackingSemaphoreValue > completedValue then 0
      else retiredCount mode completedValue remaining rest + 1 := by
  unfold retiredCount
  cases mode <;> by_cases late : entry.trackingSemaphoreValue > completedValue <;>
    simp [late, Nat.not_lt.mp]

theorem pushInfosOf_cons (entry : GpfifoEntry) (rest : List GpfifoEntry) :
    pushInfosOf (entry :: rest) =
      (if entry.type = .normal then entry.pushInfo.toList else []) ++ pushInfosOf rest := by
  simp [pushInfosOf]

theorem updateProgressLoop_spec (channel : UvmChannel) (mode : UpdateMode) (completedValue remaining : Nat) :
    ∀ gpuGet count available, gpuGet < channel.numGpfifoEntries → count < channel.numGpfifoEntries →
      channel.cpuPut = (gpuGet + count) % channel.numGpfifoEntries →
      channel.updateProgressLoop mode completedValue remaining gpuGet available =
        ((gpuGet + retiredCount mode completedValue remaining
            (window channel.gpfifoEntries channel.numGpfifoEntries gpuGet count)) % channel.numGpfifoEntries,
          available ++ pushInfosOf ((window channel.gpfifoEntries channel.numGpfifoEntries gpuGet count).take
            (retiredCount mode completedValue remaining
              (window channel.gpfifoEntries channel.numGpfifoEntries gpuGet count)))) := by
  induction remaining with
  | zero =>
      intro gpuGet count available getBelow _ _
      simp [updateProgressLoop, retiredCount, pushInfosOf, Nat.mod_eq_of_lt getBelow]
  | succ remaining ih =>
      intro gpuGet count available getBelow fewer put
      simp only [updateProgressLoop]
      by_cases caughtUp : gpuGet = channel.cpuPut
      · have none : count = 0 := by
          rcases mod_cases (show gpuGet + count < 2 * channel.numGpfifoEntries by omega) with
            ⟨_, noWrap⟩ | ⟨_, wrap⟩ <;> omega
        subst none
        simp [caughtUp, window, retiredCount, pushInfosOf, Nat.mod_eq_of_lt (caughtUp ▸ getBelow)]
      · obtain ⟨rest, rfl⟩ : ∃ rest, count = rest + 1 := by
          rcases count with _ | rest
          · rw [Nat.add_zero, Nat.mod_eq_of_lt getBelow] at put
            exact absurd put.symm caughtUp
          · exact ⟨rest, rfl⟩
        rw [if_neg caughtUp, window_succ, Nat.mod_eq_of_lt getBelow, retiredCount_cons]
        by_cases stop : mode = .completed ∧ (channel.gpfifoEntries gpuGet).trackingSemaphoreValue > completedValue
        · simp [stop, Nat.mod_eq_of_lt getBelow, pushInfosOf]
        · rw [if_neg stop, if_neg stop]
          have next := ih ((gpuGet + 1) % channel.numGpfifoEntries) rest
            (if (channel.gpfifoEntries gpuGet).type = .normal then
              available ++ (channel.gpfifoEntries gpuGet).pushInfo.toList else available)
            (Nat.mod_lt _ (by omega)) (by omega) (by rw [put, Nat.mod_add_mod]; congr 1; omega)
          rw [window_mod_start] at next
          rw [next, List.take_succ_cons, pushInfosOf_cons, Nat.mod_add_mod, Nat.add_right_comm gpuGet 1,
            Nat.add_assoc]
          split <;> simp

theorem retiredCount_le (mode : UpdateMode) (completedValue maxToComplete : Nat) (pending : List GpfifoEntry) :
    retiredCount mode completedValue maxToComplete pending ≤ pending.length :=
  calc retiredCount mode completedValue maxToComplete pending
      ≤ (pending.take maxToComplete).length := (List.takeWhile_sublist _).length_le
    _ ≤ pending.length := List.length_take_le' _ _

theorem uvmChannelUpdateProgressWithMax_eq {channel : UvmChannel}
    (putBelow : channel.cpuPut < channel.numGpfifoEntries) (getBelow : channel.gpuGet < channel.numGpfifoEntries)
    (maxToComplete : Nat) (mode : UpdateMode) (completedValue : Nat) :
    channel.uvmChannelUpdateProgressWithMax maxToComplete mode completedValue =
      ({ channel with
          gpuGet := (channel.gpuGet + retiredCount mode completedValue maxToComplete channel.pending) %
            channel.numGpfifoEntries
          availablePushInfos := channel.availablePushInfos ++
            pushInfosOf (channel.pending.take (retiredCount mode completedValue maxToComplete channel.pending)) },
        channel.pendingCount - retiredCount mode completedValue maxToComplete channel.pending) := by
  obtain ⟨put, fewer⟩ := put_eq_pendingCount putBelow getBelow
  have le : retiredCount mode completedValue maxToComplete channel.pending ≤ channel.pendingCount :=
    (retiredCount_le _ _ _ _).trans (le_of_eq length_window)
  unfold uvmChannelUpdateProgressWithMax
  rw [updateProgressLoop_spec channel mode completedValue maxToComplete _ _ _ getBelow fewer put, ← pending]
  refine Prod.ext rfl (pendingGpfifos_eq (Nat.mod_lt _ (by omega)) (show channel.pendingCount - _ < _ by omega) ?_)
  rw [put, Nat.mod_add_mod]
  congr 1
  omega

theorem pendingCount_updateProgress (channel : UvmChannel) (maxToComplete : Nat) (mode : UpdateMode)
    (completedValue : Nat) :
    (channel.uvmChannelUpdateProgressWithMax maxToComplete mode completedValue).1.pendingCount =
      (channel.uvmChannelUpdateProgressWithMax maxToComplete mode completedValue).2 :=
  rfl

theorem pending_updateProgress {channel : UvmChannel}
    (putBelow : channel.cpuPut < channel.numGpfifoEntries) (getBelow : channel.gpuGet < channel.numGpfifoEntries)
    (maxToComplete : Nat) (mode : UpdateMode) (completedValue : Nat) :
    (channel.uvmChannelUpdateProgressWithMax maxToComplete mode completedValue).1.pending =
      channel.pending.drop (retiredCount mode completedValue maxToComplete channel.pending) := by
  have le : retiredCount mode completedValue maxToComplete channel.pending ≤ channel.pendingCount :=
    (retiredCount_le _ _ _ _).trans (le_of_eq length_window)
  rw [pending, pendingCount_updateProgress, uvmChannelUpdateProgressWithMax_eq putBelow getBelow]
  dsimp only
  rw [window_mod_start]
  exact (drop_window le).symm

end UvmChannel

end NvidiaGpu.Channel
