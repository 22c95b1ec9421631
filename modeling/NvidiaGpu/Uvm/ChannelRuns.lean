import NvidiaGpu.Uvm.Channel

set_option autoImplicit false

/-! Runs of a UVM channel's GPFIFO ring: every interleaving, under the pool
lock, of claims, pushes ending, control entries and progress updates keeps the
ring consistent.

The entries' tracking values stay sorted, but a control entry carries the value
of the push that is to follow it, one more than `queued_value` until that push
ends. -/

namespace NvidiaGpu.Channel

open Window UvmChannel

/-- The invariant of the ring: both positions inside it, the sentinel, the
claimed and the pending entries fit, and the pending tracking values are
sorted, each at most `queued_value` or the value of a control entry written
for the next push. -/
structure ChannelInv (channel : UvmChannel) : Prop where
  putBelow : channel.cpuPut < channel.numGpfifoEntries
  getBelow : channel.gpuGet < channel.numGpfifoEntries
  room : 1 + channel.currentGpfifoCount + channel.pendingCount ≤ channel.numGpfifoEntries
  sorted : channel.pending.Pairwise fun older newer =>
    older.trackingSemaphoreValue ≤ newer.trackingSemaphoreValue
  bounded : ∀ entry ∈ channel.pending, entry.trackingSemaphoreValue ≤ channel.queuedValue ∨
    (entry.type = .control ∧ entry.trackingSemaphoreValue = channel.queuedValue + 1)

/-- The calls made under the pool lock, with the assertions the source makes on
entry: a push ends on an entry it claimed, and a control entry leaves the entry
claimed for the push that follows it. -/
inductive Step : UvmChannel → UvmChannel → Prop
  | reserve {channel : UvmChannel} (numGpfifoEntries : Nat) :
      Step channel (channel.tryClaimChannelLocked numGpfifoEntries).1
  | endPush {channel : UvmChannel} (pushInfoIndex : Nat) (claimed : channel.currentGpfifoCount > 0) :
      Step channel (channel.uvmChannelEndPush pushInfoIndex)
  | writeCtrl {channel : UvmChannel} (claimed : channel.currentGpfifoCount > 1) :
      Step channel channel.writeCtrlGpfifo
  | updateProgress {channel : UvmChannel} (maxToComplete : Nat) (mode : UpdateMode) (completedValue : Nat) :
      Step channel (channel.uvmChannelUpdateProgressWithMax maxToComplete mode completedValue).1

/-- The channels of `numGpfifoEntries` entries a run can reach. -/
inductive Reachable (numGpfifoEntries : Nat) : UvmChannel → Prop
  | init (positive : 0 < numGpfifoEntries) : Reachable numGpfifoEntries (UvmChannel.init numGpfifoEntries)
  | step {channel next : UvmChannel} : Reachable numGpfifoEntries channel → Step channel next →
      Reachable numGpfifoEntries next

/-! ## One step -/

theorem channelInv_init {numGpfifoEntries : Nat} (positive : 0 < numGpfifoEntries) :
    ChannelInv (UvmChannel.init numGpfifoEntries) where
  putBelow := positive
  getBelow := positive
  room := by simp [UvmChannel.init, pendingCount]; omega
  sorted := by simp [UvmChannel.init, pending, pendingCount, window]
  bounded := by simp [UvmChannel.init, pending, pendingCount, window]

theorem ChannelInv.tryClaimChannelLocked {channel : UvmChannel} (inv : ChannelInv channel)
    (numGpfifoEntries : Nat) : ChannelInv (channel.tryClaimChannelLocked numGpfifoEntries).1 := by
  unfold UvmChannel.tryClaimChannelLocked
  split
  · next enough =>
      rw [channelGetAvailableGpfifoEntries_eq inv.getBelow] at enough
      have room : 1 + (channel.currentGpfifoCount + numGpfifoEntries) + channel.pendingCount ≤
          channel.numGpfifoEntries := by
        have := inv.room
        omega
      exact { inv with room := room }
  · exact inv

theorem ChannelInv.pending_endPush {channel : UvmChannel} (inv : ChannelInv channel)
    (claimed : channel.currentGpfifoCount > 0) (pushInfoIndex : Nat) :
    (channel.uvmChannelEndPush pushInfoIndex).pendingCount = channel.pendingCount + 1 ∧
      (channel.uvmChannelEndPush pushInfoIndex).pending = channel.pending ++
        [{ type := .normal, trackingSemaphoreValue := channel.queuedValue + 1, pushInfo := some pushInfoIndex }] :=
  pending_put inv.putBelow inv.getBelow (by have := inv.room; omega) rfl rfl rfl rfl

theorem ChannelInv.pending_writeCtrl {channel : UvmChannel} (inv : ChannelInv channel)
    (claimed : channel.currentGpfifoCount > 1) :
    channel.writeCtrlGpfifo.pendingCount = channel.pendingCount + 1 ∧
      channel.writeCtrlGpfifo.pending = channel.pending ++
        [{ type := .control, trackingSemaphoreValue := channel.queuedValue + 1, pushInfo := none }] :=
  pending_put inv.putBelow inv.getBelow (by have := inv.room; omega) rfl rfl rfl rfl

theorem ChannelInv.le_next {channel : UvmChannel} (inv : ChannelInv channel) :
    ∀ entry ∈ channel.pending, entry.trackingSemaphoreValue ≤ channel.queuedValue + 1 := by
  intro entry mem
  rcases inv.bounded entry mem with below | ⟨_, next⟩ <;> omega

theorem ChannelInv.sorted_append {channel : UvmChannel} (inv : ChannelInv channel) (entry : GpfifoEntry)
    (next : entry.trackingSemaphoreValue = channel.queuedValue + 1) :
    (channel.pending ++ [entry]).Pairwise fun older newer =>
      older.trackingSemaphoreValue ≤ newer.trackingSemaphoreValue := by
  rw [List.pairwise_append]
  refine ⟨inv.sorted, List.pairwise_singleton _ _, ?_⟩
  intro older mem newer newerMem
  rw [List.mem_singleton] at newerMem
  subst newerMem
  rw [next]
  exact inv.le_next older mem

theorem ChannelInv.uvmChannelEndPush {channel : UvmChannel} (inv : ChannelInv channel)
    (claimed : channel.currentGpfifoCount > 0) (pushInfoIndex : Nat) :
    ChannelInv (channel.uvmChannelEndPush pushInfoIndex) := by
  obtain ⟨count, pending⟩ := inv.pending_endPush claimed pushInfoIndex
  constructor
  · exact Nat.mod_lt _ (by have := inv.putBelow; omega)
  · exact inv.getBelow
  · rw [count]
    have := inv.room
    simp only [UvmChannel.uvmChannelEndPush]
    omega
  · rw [pending]
    exact inv.sorted_append _ rfl
  · rw [pending]
    intro entry mem
    rcases List.mem_append.mp mem with old | new
    · exact .inl (inv.le_next entry old)
    · rw [List.mem_singleton.mp new]
      exact .inl le_rfl

theorem ChannelInv.writeCtrlGpfifo {channel : UvmChannel} (inv : ChannelInv channel)
    (claimed : channel.currentGpfifoCount > 1) : ChannelInv channel.writeCtrlGpfifo := by
  obtain ⟨count, pending⟩ := inv.pending_writeCtrl claimed
  constructor
  · exact Nat.mod_lt _ (by have := inv.putBelow; omega)
  · exact inv.getBelow
  · rw [count]
    have := inv.room
    simp only [UvmChannel.writeCtrlGpfifo]
    omega
  · rw [pending]
    exact inv.sorted_append _ rfl
  · rw [pending]
    intro entry mem
    rcases List.mem_append.mp mem with old | new
    · exact inv.bounded entry old
    · rw [List.mem_singleton.mp new]
      exact .inr ⟨rfl, rfl⟩

theorem ChannelInv.uvmChannelUpdateProgressWithMax {channel : UvmChannel} (inv : ChannelInv channel)
    (maxToComplete : Nat) (mode : UpdateMode) (completedValue : Nat) :
    ChannelInv (channel.uvmChannelUpdateProgressWithMax maxToComplete mode completedValue).1 := by
  have updated := uvmChannelUpdateProgressWithMax_eq inv.putBelow inv.getBelow maxToComplete mode completedValue
  have suffix : (channel.uvmChannelUpdateProgressWithMax maxToComplete mode completedValue).1.pending.Sublist
      channel.pending := by
    rw [pending_updateProgress inv.putBelow inv.getBelow]
    exact List.drop_sublist _ _
  constructor
  · rw [updated]
    exact inv.putBelow
  · rw [updated]
    exact Nat.mod_lt _ (by have := inv.getBelow; omega)
  · rw [pendingCount_updateProgress, updated]
    have := inv.room
    dsimp only
    omega
  · exact inv.sorted.sublist suffix
  · intro entry mem
    rw [updated]
    exact inv.bounded entry (suffix.subset mem)

theorem ChannelInv.step {channel next : UvmChannel} (inv : ChannelInv channel) (step : Step channel next) :
    ChannelInv next ∧ next.numGpfifoEntries = channel.numGpfifoEntries := by
  cases step with
  | reserve numGpfifoEntries =>
      refine ⟨inv.tryClaimChannelLocked numGpfifoEntries, ?_⟩
      unfold UvmChannel.tryClaimChannelLocked
      split <;> rfl
  | endPush pushInfoIndex claimed => exact ⟨inv.uvmChannelEndPush claimed pushInfoIndex, rfl⟩
  | writeCtrl claimed => exact ⟨inv.writeCtrlGpfifo claimed, rfl⟩
  | updateProgress maxToComplete mode completedValue =>
      refine ⟨inv.uvmChannelUpdateProgressWithMax maxToComplete mode completedValue, ?_⟩
      rw [uvmChannelUpdateProgressWithMax_eq inv.putBelow inv.getBelow]

/-! ## Whole runs -/

theorem Reachable.inv {numGpfifoEntries : Nat} {channel : UvmChannel}
    (reachable : Reachable numGpfifoEntries channel) :
    ChannelInv channel ∧ channel.numGpfifoEntries = numGpfifoEntries := by
  induction reachable with
  | init positive => exact ⟨channelInv_init positive, rfl⟩
  | step _ step ih =>
      obtain ⟨inv, size⟩ := ih
      obtain ⟨next, same⟩ := inv.step step
      exact ⟨next, same.trans size⟩

/-! ## The ring's contract -/

/-- What `uvm_channel_update_progress_with_max` does: it retires the longest
prefix of at most `maxToComplete` pending entries that its mode lets complete,
hands back the push info of each normal entry among them once, and returns the
number of entries left pending. -/
structure UpdateRetires (channel : UvmChannel) (maxToComplete : Nat) (mode : UpdateMode)
    (completedValue : Nat) : Prop where
  pending : (channel.uvmChannelUpdateProgressWithMax maxToComplete mode completedValue).1.pending =
    channel.pending.drop (retiredCount mode completedValue maxToComplete channel.pending)
  availablePushInfos :
    (channel.uvmChannelUpdateProgressWithMax maxToComplete mode completedValue).1.availablePushInfos =
      channel.availablePushInfos ++
        pushInfosOf (channel.pending.take (retiredCount mode completedValue maxToComplete channel.pending))
  pendingGpfifos : (channel.uvmChannelUpdateProgressWithMax maxToComplete mode completedValue).2 =
    channel.pendingCount - retiredCount mode completedValue maxToComplete channel.pending

/-- A consistent ring of `numGpfifoEntries` entries: the invariant, the count of
pending entries as `(cpu_put - gpu_get) mod N`, an available count that the
claimed and pending entries do not make wrap, and updates that retire in
order. -/
structure RingConsistent (numGpfifoEntries : Nat) (channel : UvmChannel) : Prop where
  inv : ChannelInv channel
  size : channel.numGpfifoEntries = numGpfifoEntries
  pendingCount_mod :
    channel.pendingCount = (channel.cpuPut + numGpfifoEntries - channel.gpuGet) % numGpfifoEntries
  available : channel.channelGetAvailableGpfifoEntries + 1 + channel.currentGpfifoCount + channel.pendingCount =
    numGpfifoEntries
  update : ∀ maxToComplete mode completedValue, UpdateRetires channel maxToComplete mode completedValue

theorem ChannelInv.updateRetires {channel : UvmChannel} (inv : ChannelInv channel)
    (maxToComplete : Nat) (mode : UpdateMode) (completedValue : Nat) :
    UpdateRetires channel maxToComplete mode completedValue where
  pending := pending_updateProgress inv.putBelow inv.getBelow maxToComplete mode completedValue
  availablePushInfos := by rw [uvmChannelUpdateProgressWithMax_eq inv.putBelow inv.getBelow]
  pendingGpfifos := by rw [uvmChannelUpdateProgressWithMax_eq inv.putBelow inv.getBelow]

theorem ChannelInv.ringConsistent {channel : UvmChannel} (inv : ChannelInv channel) :
    RingConsistent channel.numGpfifoEntries channel where
  inv := inv
  size := rfl
  pendingCount_mod := pendingCount_eq_mod inv.putBelow inv.getBelow
  available := by
    rw [channelGetAvailableGpfifoEntries_eq inv.getBelow]
    have := inv.room
    omega
  update := inv.updateRetires

theorem reachable_ring_consistent {numGpfifoEntries : Nat} {channel : UvmChannel}
    (reachable : Reachable numGpfifoEntries channel) : RingConsistent numGpfifoEntries channel := by
  obtain ⟨inv, size⟩ := reachable.inv
  rw [← size]
  exact inv.ringConsistent

/-- A ring of four entries after a control entry, the push that follows it and
an update that completes both. -/
def controlRun : UvmChannel :=
  ((((UvmChannel.init 4).tryClaimChannelLocked 2).1.writeCtrlGpfifo.uvmChannelEndPush 0).uvmChannelUpdateProgressWithMax
    8 .completed 1).1

theorem controlRun_consistent : RingConsistent 4 controlRun :=
  reachable_ring_consistent
    (.step (.step (.step (.step (.init (by decide)) (.reserve 2)) (.writeCtrl (by decide)))
      (.endPush 0 (by decide))) (.updateProgress 8 .completed 1))

/-- Between a control entry and the push that follows it, the control entry is
pending with a tracking value above `queued_value`. -/
theorem controlEntry_above_queuedValue :
    Reachable 4 ((UvmChannel.init 4).tryClaimChannelLocked 2).1.writeCtrlGpfifo ∧
      ((UvmChannel.init 4).tryClaimChannelLocked 2).1.writeCtrlGpfifo.pending =
        [{ type := .control, trackingSemaphoreValue := 1, pushInfo := none }] ∧
      ((UvmChannel.init 4).tryClaimChannelLocked 2).1.writeCtrlGpfifo.queuedValue = 0 :=
  ⟨.step (.step (.init (by decide)) (.reserve 2)) (.writeCtrl (by decide)), by decide, rfl⟩

end NvidiaGpu.Channel
