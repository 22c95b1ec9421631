import NvidiaGpu.Uvm.Pushbuffer

set_option autoImplicit false

/-! Runs of the UVM pushbuffer: every interleaving of `uvm_pushbuffer_begin_push`,
`uvm_pushbuffer_end_push` and `uvm_pushbuffer_mark_completed`, with pushes
completing in any order, keeps the pending pushes of each chunk apart and
inside it, and the room of a claimed chunk's next push free.

The invariant of a chunk is that its pending entries lie as a ring in it, and
that an idle, available or claimed chunk's `next_push_start` is an append point
of that ring; removing an entry keeps both, and `update_chunk` only moves the
append point to where the ring leaves room (`updateChunk_cases`). -/

namespace NvidiaGpu.Pushbuffer

open Intervals

variable {E P : Type}

/-- The pushbuffer with the offsets `push->begin` of the pushes, as
`uvm_pushbuffer_get_offset_for_push` reads them. -/
structure PushbufferSystem (E P : Type) where
  pushbuffer : UvmPushbuffer E P
  pushBegin : P → Nat

/-- `uvm_pushbuffer_begin_push` of a push: when a chunk is claimed, the push
begins at its next push start. -/
def PushbufferSystem.beginPush [DecidableEq P] (system : PushbufferSystem E P) (push : P) :
    PushbufferSystem E P :=
  match uvmPushbufferBeginPush system.pushbuffer push with
  | none => system
  | some (offset, pushbuffer) => { pushbuffer, pushBegin := Function.update system.pushBegin push offset }

/-- `uvm_channel_end_push` hands the pushbuffer the GPFIFO entry of the push:
its offset and its size. -/
def PushbufferSystem.endPush (system : PushbufferSystem E P) (push : P) (entry : E) (size : Nat) :
    PushbufferSystem E P :=
  { system with pushbuffer := uvmPushbufferEndPush system.pushbuffer ⟨entry, system.pushBegin push, size⟩ }

def PushbufferSystem.markCompleted [DecidableEq E] (system : PushbufferSystem E P) (gpfifo : GpfifoEntry E) :
    PushbufferSystem E P :=
  { system with pushbuffer := uvmPushbufferMarkCompleted system.pushbuffer gpfifo }

def pushbufferInit : PushbufferSystem E P :=
  { pushbuffer := uvmPushbufferCreate, pushBegin := fun _ => 0 }

section Steps

variable [DecidableEq E] [DecidableEq P]

/-- The calls, with what their callers guarantee: a push begins when it is in
progress in no chunk, ends after it began in one with a size of at most
`UVM_MAX_PUSH_SIZE` (asserted by `uvm_channel_end_push`), and an entry
completes while it is pending. -/
inductive Step : PushbufferSystem E P → PushbufferSystem E P → Prop
  | beginPush {system : PushbufferSystem E P} (push : P)
      (fresh : ∀ index < uvmPushbufferChunks, (system.pushbuffer.chunks index).currentPush ≠ some push) :
      Step system (system.beginPush push)
  | endPush {system : PushbufferSystem E P} (index : Nat) (push : P) (entry : E) (size : Nat)
      (claimed : (system.pushbuffer.chunks index).currentPush = some push) (small : size ≤ uvmMaxPushSize) :
      Step system (system.endPush push entry size)
  | markCompleted {system : PushbufferSystem E P} (index : Nat) (gpfifo : GpfifoEntry E)
      (pending : gpfifo ∈ (system.pushbuffer.chunks index).pendingGpfifos) :
      Step system (system.markCompleted gpfifo)

/-- The states a run from `uvm_pushbuffer_create` can reach. -/
inductive Reachable : PushbufferSystem E P → Prop
  | init : Reachable pushbufferInit
  | step {system next : PushbufferSystem E P} : Reachable system → Step system next → Reachable next

end Steps

/-! ## The invariant of a chunk -/

section Chunk

/-- The layout of a chunk: its pending entries lie as a ring in it and start
before its end, an idle chunk has none, and an idle or available chunk's next
push start is an append point. -/
structure ChunkLayout (index : Nat) (chunk : UvmPushbufferChunk E P) (isIdle isAvailable : Bool) : Prop where
  ring : ChunkRing index chunk.pendingGpfifos
  starts : ∀ gpfifo ∈ chunk.pendingGpfifos,
    gpfifo.pushbufferOffset < chunkGetOffset index + uvmPushbufferChunkSize
  idle : isIdle = true → chunk.pendingGpfifos = []
  fits : isIdle = true ∨ isAvailable = true → ChunkFits index chunk.pendingGpfifos chunk.nextPushStart

/-- A claimed chunk is in neither mask, its push begins at its next push
start, and that is an append point. -/
structure ChunkInv (index : Nat) (chunk : UvmPushbufferChunk E P) (isIdle isAvailable : Bool)
    (pushBegin : P → Nat) : Prop extends ChunkLayout index chunk isIdle isAvailable where
  claimed : ∀ push, chunk.currentPush = some push →
    isIdle = false ∧ isAvailable = false ∧ pushBegin push = chunkGetOffset index + chunk.nextPushStart ∧
      ChunkFits index chunk.pendingGpfifos chunk.nextPushStart

variable {index : Nat} {chunk : UvmPushbufferChunk E P} {isIdle isAvailable : Bool} {pushBegin : P → Nat}

theorem chunkLayout_empty (index : Nat) (isIdle isAvailable : Bool) :
    ChunkLayout index ({ nextPushStart := 0, pendingGpfifos := [], currentPush := none } : UvmPushbufferChunk E P)
      isIdle isAvailable where
  ring := trivial
  starts _ member := absurd member List.not_mem_nil
  idle _ := rfl
  fits _ := chunkFits_nil index

/-- The layout does not read the chunk's push. -/
theorem ChunkLayout.withCurrentPush (layout : ChunkLayout index chunk isIdle isAvailable) (push : Option P) :
    ChunkLayout index { chunk with currentPush := push } isIdle isAvailable :=
  ⟨layout.ring, layout.starts, layout.idle, layout.fits⟩

/-- A chunk with no push in progress needs no more than its layout. -/
theorem ChunkLayout.chunkInv (layout : ChunkLayout index chunk isIdle isAvailable) (free : chunk.currentPush = none)
    (pushBegin : P → Nat) : ChunkInv index chunk isIdle isAvailable pushBegin where
  toChunkLayout := layout
  claimed push current := by
    rw [free] at current
    cases current

/-- An entry at the chunk's append point, of at most `UVM_MAX_PUSH_SIZE`, keeps
the ring and starts before the chunk's end. -/
theorem ChunkLayout.concat (layout : ChunkLayout index chunk isIdle isAvailable)
    (fits : ChunkFits index chunk.pendingGpfifos chunk.nextPushStart) {gpfifo : GpfifoEntry E}
    (placed : gpfifo.pushbufferOffset = chunkGetOffset index + chunk.nextPushStart)
    (small : gpfifo.pushbufferSize ≤ uvmMaxPushSize) :
    ChunkLayout index { chunk with pendingGpfifos := chunk.pendingGpfifos ++ [gpfifo] } false false where
  ring := fits.ring_concat placed small
  starts pending member := by
    rcases List.mem_append.mp member with old | new
    · exact layout.starts pending old
    · rw [List.mem_singleton.mp new, placed]
      have room := fits.apart.2.1
      have positive := maxPushSize_pos
      omega
  idle never := absurd never Bool.false_ne_true
  fits flagged := by simp at flagged

theorem ChunkInv.eraseP (inv : ChunkInv index chunk isIdle isAvailable pushBegin) (p : GpfifoEntry E → Bool) :
    ChunkInv index { chunk with pendingGpfifos := chunk.pendingGpfifos.eraseP p } isIdle isAvailable pushBegin where
  ring := inv.ring.eraseP p
  starts pending member := inv.starts pending (List.mem_of_mem_eraseP member)
  idle idle := by simp [inv.idle idle]
  fits flagged := (inv.fits flagged).eraseP p
  claimed push current := by
    obtain ⟨idle, available, begins, fits⟩ := inv.claimed push current
    exact ⟨idle, available, begins, fits.eraseP p⟩

/-- Claiming an idle or available chunk: the push begins at its append point. -/
theorem ChunkInv.claim [DecidableEq P] (inv : ChunkInv index chunk isIdle isAvailable pushBegin)
    (flagged : isIdle = true ∨ isAvailable = true) (push : P) :
    ChunkInv index { chunk with currentPush := some push } false false
      (Function.update pushBegin push (chunkGetOffset index + chunk.nextPushStart)) where
  ring := inv.ring
  starts := inv.starts
  idle never := absurd never Bool.false_ne_true
  fits flagged := by simp at flagged
  claimed current same := by
    cases Option.some.inj same
    exact ⟨rfl, rfl, Function.update_self _ _ _, inv.fits flagged⟩

/-- A change of `push->begin` of a push that is not the chunk's. -/
theorem ChunkInv.update_begin [DecidableEq P] (inv : ChunkInv index chunk isIdle isAvailable pushBegin) {push : P}
    (other : chunk.currentPush ≠ some push) (offset : Nat) :
    ChunkInv index chunk isIdle isAvailable (Function.update pushBegin push offset) where
  toChunkLayout := inv.toChunkLayout
  claimed current claimed := by
    have different : current ≠ push := fun same => other (same ▸ claimed)
    rw [Function.update_of_ne different]
    exact inv.claimed current claimed

end Chunk

/-- `update_chunk` keeps the layout of a chunk. -/
theorem ChunkLayout.updateChunk {pushbuffer : UvmPushbuffer E P} {index : Nat}
    (layout : ChunkLayout index (pushbuffer.chunks index) (pushbuffer.idleChunks index)
      (pushbuffer.availableChunks index)) :
    ChunkLayout index ((updateChunk pushbuffer index).chunks index) ((updateChunk pushbuffer index).idleChunks index)
      ((updateChunk pushbuffer index).availableChunks index) := by
  rcases updateChunk_cases layout.ring with same | ⟨start, fits, moved⟩ | ⟨empty, moved⟩
  · rwa [same]
  · -- available at the new append point, idle as before
    rw [moved]
    simp only [UvmPushbuffer.makeAvailable_chunks, UvmPushbuffer.withChunk_self,
      UvmPushbuffer.makeAvailable_idleChunks, UvmPushbuffer.makeAvailable_availableChunks, setChunk_self]
    exact ⟨layout.ring, layout.starts, layout.idle, fun _ => fits⟩
  · -- idle and available, with nothing pending, from the chunk's beginning
    rw [moved]
    simp only [UvmPushbuffer.makeIdle_chunks, UvmPushbuffer.makeAvailable_chunks, UvmPushbuffer.withChunk_self,
      UvmPushbuffer.makeIdle_idleChunks, UvmPushbuffer.makeIdle_availableChunks, setChunk_self]
    refine ⟨layout.ring, layout.starts, fun _ => empty, fun _ => ?_⟩
    rw [empty]
    exact chunkFits_nil index

/-! ## One step -/

/-- The invariant of the pushbuffer: every chunk's, and no push in progress
and nothing pending in a chunk past the sixteen. -/
structure PushbufferInv (system : PushbufferSystem E P) : Prop where
  chunk : ∀ index, ChunkInv index (system.pushbuffer.chunks index) (system.pushbuffer.idleChunks index)
    (system.pushbuffer.availableChunks index) system.pushBegin
  unused : ∀ index, uvmPushbufferChunks ≤ index →
    (system.pushbuffer.chunks index).currentPush = none ∧ (system.pushbuffer.chunks index).pendingGpfifos = []

section Step

variable {system : PushbufferSystem E P}

theorem pushbufferInv_init : PushbufferInv (pushbufferInit : PushbufferSystem E P) where
  chunk index := (chunkLayout_empty index _ _).chunkInv rfl _
  unused _ _ := ⟨rfl, rfl⟩

theorem PushbufferInv.below_of_current (inv : PushbufferInv system) {index : Nat} {push : P}
    (current : (system.pushbuffer.chunks index).currentPush = some push) : index < uvmPushbufferChunks := by
  by_contra above
  rw [(inv.unused index (Nat.le_of_not_lt above)).1] at current
  cases current

theorem PushbufferInv.below_of_pending (inv : PushbufferInv system) {index : Nat} {gpfifo : GpfifoEntry E}
    (pending : gpfifo ∈ (system.pushbuffer.chunks index).pendingGpfifos) : index < uvmPushbufferChunks := by
  by_contra above
  rw [(inv.unused index (Nat.le_of_not_lt above)).2] at pending
  cases pending

/-- The chunk of an entry pending in it. -/
theorem PushbufferInv.offsetToChunk_of_pending (inv : PushbufferInv system) {index : Nat} {gpfifo : GpfifoEntry E}
    (pending : gpfifo ∈ (system.pushbuffer.chunks index).pendingGpfifos) :
    offsetToChunk gpfifo.pushbufferOffset = index :=
  offsetToChunk_of_inside ((inv.chunk index).ring.mem gpfifo pending).1 ((inv.chunk index).starts gpfifo pending)

/-- The chunk a push in progress begins in. -/
theorem PushbufferInv.offsetToChunk_of_current (inv : PushbufferInv system) {index : Nat} {push : P}
    (claimed : (system.pushbuffer.chunks index).currentPush = some push) :
    offsetToChunk (system.pushBegin push) = index := by
  obtain ⟨-, -, begins, fits⟩ := (inv.chunk index).claimed push claimed
  have room := fits.apart.2.1
  have positive := maxPushSize_pos
  rw [begins]
  exact offsetToChunk_of_inside (Nat.le_add_right _ _) (by omega)

/-- A call that changes one of the sixteen chunks keeps the invariant when that
chunk keeps its own and the others keep theirs under the new begins. -/
theorem PushbufferInv.changeChunk (inv : PushbufferInv system) {next : PushbufferSystem E P} {index : Nat}
    (below : index < uvmPushbufferChunks) (outside : system.pushbuffer.SameOutside next.pushbuffer index)
    (others : ∀ other, other ≠ index → ChunkInv other (system.pushbuffer.chunks other)
      (system.pushbuffer.idleChunks other) (system.pushbuffer.availableChunks other) next.pushBegin)
    (changed : ChunkInv index (next.pushbuffer.chunks index) (next.pushbuffer.idleChunks index)
      (next.pushbuffer.availableChunks index) next.pushBegin) : PushbufferInv next where
  chunk other := by
    by_cases same : other = index
    · subst same
      exact changed
    · obtain ⟨chunks, idle, available⟩ := outside other same
      rw [chunks, idle, available]
      exact others other same
  unused other above := by
    obtain ⟨chunks, -, -⟩ := outside other (by omega)
    rw [chunks]
    exact inv.unused other above

theorem PushbufferInv.beginPush [DecidableEq P] (inv : PushbufferInv system) {push : P}
    (fresh : ∀ index < uvmPushbufferChunks, (system.pushbuffer.chunks index).currentPush ≠ some push) :
    PushbufferInv (system.beginPush push) := by
  unfold PushbufferSystem.beginPush
  rcases uvmPushbufferBeginPush_cases system.pushbuffer push with ⟨-, busy⟩ | ⟨index, picked, began⟩
  · -- every chunk busy: `claim_chunk` spins, and nothing changes
    rw [busy]
    exact inv
  · rw [began]
    obtain ⟨below, flagged⟩ := pickChunk_some picked
    have notCurrent : ∀ other, (system.pushbuffer.chunks other).currentPush ≠ some push := by
      intro other
      by_cases inside : other < uvmPushbufferChunks
      · exact fresh other inside
      · rw [(inv.unused other (Nat.le_of_not_lt inside)).1]
        exact Option.some_ne_none push |>.symm
    refine inv.changeChunk below (UvmPushbuffer.claim_sameOutside push)
      (fun other _ => (inv.chunk other).update_begin (notCurrent other) _) ?_
    simp only [UvmPushbuffer.claim_chunks, UvmPushbuffer.withChunk_self, UvmPushbuffer.claim_idleChunks,
      UvmPushbuffer.claim_availableChunks, clearChunk_self]
    exact (inv.chunk index).claim flagged push

theorem PushbufferInv.endPush [DecidableEq P] (inv : PushbufferInv system) {index : Nat} {push : P} {entry : E}
    {size : Nat}
    (claimed : (system.pushbuffer.chunks index).currentPush = some push) (small : size ≤ uvmMaxPushSize) :
    PushbufferInv (system.endPush push entry size) := by
  have below := inv.below_of_current claimed
  obtain ⟨idle, available, begins, fits⟩ := (inv.chunk index).claimed push claimed
  -- the entry lands in the claimed chunk, at its append point
  have inside := inv.offsetToChunk_of_current claimed
  let added := system.pushbuffer.withChunk index fun chunk =>
    { chunk with pendingGpfifos := chunk.pendingGpfifos ++ [⟨entry, system.pushBegin push, size⟩] }
  have addedLayout : ChunkLayout index (added.chunks index) (added.idleChunks index) (added.availableChunks index) := by
    simp only [added, UvmPushbuffer.withChunk_self, UvmPushbuffer.withChunk_idleChunks,
      UvmPushbuffer.withChunk_availableChunks, idle, available]
    exact (inv.chunk index).concat fits begins small
  have ended : (system.endPush push entry size).pushbuffer =
      (updateChunk added index).withChunk index fun chunk => { chunk with currentPush := none } :=
    uvmPushbufferEndPush_eq system.pushbuffer inside
  refine inv.changeChunk below (uvmPushbufferEndPush_sameOutside inside) (fun other _ => inv.chunk other) ?_
  rw [ended]
  simp only [UvmPushbuffer.withChunk_self, UvmPushbuffer.withChunk_idleChunks,
    UvmPushbuffer.withChunk_availableChunks]
  exact (addedLayout.updateChunk.withCurrentPush none).chunkInv rfl _

variable [DecidableEq E]

theorem PushbufferInv.markCompleted (inv : PushbufferInv system) {index : Nat} {gpfifo : GpfifoEntry E}
    (pending : gpfifo ∈ (system.pushbuffer.chunks index).pendingGpfifos) :
    PushbufferInv (system.markCompleted gpfifo) := by
  have below := inv.below_of_pending pending
  have inside := inv.offsetToChunk_of_pending pending
  let removed := system.pushbuffer.withChunk index fun chunk =>
    { chunk with pendingGpfifos := chunk.pendingGpfifos.eraseP fun pending => pending.entry == gpfifo.entry }
  have removedInv : ChunkInv index (removed.chunks index) (removed.idleChunks index) (removed.availableChunks index)
      system.pushBegin := by
    simp only [removed, UvmPushbuffer.withChunk_self, UvmPushbuffer.withChunk_idleChunks,
      UvmPushbuffer.withChunk_availableChunks]
    exact (inv.chunk index).eraseP _
  have completed : (system.markCompleted gpfifo).pushbuffer = removed ∨
      (system.pushbuffer.chunks index).currentPush = none ∧
        (system.markCompleted gpfifo).pushbuffer = updateChunk removed index :=
    uvmPushbufferMarkCompleted_cases system.pushbuffer inside
  have outside : system.pushbuffer.SameOutside (system.markCompleted gpfifo).pushbuffer index :=
    uvmPushbufferMarkCompleted_sameOutside inside
  rcases completed with same | ⟨free, updated⟩
  · exact inv.changeChunk below outside (fun other _ => inv.chunk other) (same ▸ removedInv)
  · refine inv.changeChunk below outside (fun other _ => inv.chunk other) ?_
    rw [updated]
    have stillFree : ((updateChunk removed index).chunks index).currentPush = none := by
      rw [updateChunk_currentPush]
      simpa [removed] using free
    exact removedInv.toChunkLayout.updateChunk.chunkInv stillFree _

variable [DecidableEq P]

theorem PushbufferInv.step (inv : PushbufferInv system) {next : PushbufferSystem E P} (step : Step system next) :
    PushbufferInv next := by
  cases step with
  | beginPush push fresh => exact inv.beginPush fresh
  | endPush index push entry size claimed small => exact inv.endPush claimed small
  | markCompleted index gpfifo pending => exact inv.markCompleted pending

theorem Reachable.inv (reachable : Reachable system) : PushbufferInv system := by
  induction reachable with
  | init => exact pushbufferInv_init
  | step _ step ih => exact ih.step step

end Step

/-! ## Every reachable state -/

/-- The layout of a chunk the pushbuffer relies on: the pending pushes apart
and inside the chunk, the room of a claimed chunk's next push inside it and
apart from them, nothing pending in an idle chunk, and a claimed chunk in
neither mask. -/
structure ChunkConsistent (pushbuffer : UvmPushbuffer E P) (index : Nat) : Prop where
  apart : (pushbuffer.chunks index).pendingGpfifos.Pairwise fun one two =>
    one.pushbufferOffset + one.pushbufferSize ≤ two.pushbufferOffset ∨
      two.pushbufferOffset + two.pushbufferSize ≤ one.pushbufferOffset
  inside : ∀ gpfifo ∈ (pushbuffer.chunks index).pendingGpfifos, chunkGetOffset index ≤ gpfifo.pushbufferOffset ∧
    gpfifo.pushbufferOffset + gpfifo.pushbufferSize ≤ chunkGetOffset index + uvmPushbufferChunkSize
  room : (pushbuffer.chunks index).currentPush.isSome = true →
    (pushbuffer.chunks index).nextPushStart + uvmMaxPushSize ≤ uvmPushbufferChunkSize ∧
      ∀ gpfifo ∈ (pushbuffer.chunks index).pendingGpfifos,
        gpfifo.pushbufferOffset + gpfifo.pushbufferSize ≤ chunkGetOffset index + (pushbuffer.chunks index).nextPushStart ∨
          chunkGetOffset index + (pushbuffer.chunks index).nextPushStart + uvmMaxPushSize ≤ gpfifo.pushbufferOffset
  idle : pushbuffer.idleChunks index = true → (pushbuffer.chunks index).pendingGpfifos = []
  claimed : (pushbuffer.chunks index).currentPush.isSome = true →
    pushbuffer.idleChunks index = false ∧ pushbuffer.availableChunks index = false

theorem ChunkInv.consistent {pushbuffer : UvmPushbuffer E P} {index : Nat} {pushBegin : P → Nat}
    (inv : ChunkInv index (pushbuffer.chunks index) (pushbuffer.idleChunks index) (pushbuffer.availableChunks index)
      pushBegin) : ChunkConsistent pushbuffer index where
  apart := inv.ring.pairwise
  inside := inv.ring.mem
  room current := by
    obtain ⟨push, isPush⟩ := Option.isSome_iff_exists.mp current
    obtain ⟨-, -, -, fits⟩ := inv.claimed push isPush
    obtain ⟨-, room, apart⟩ := fits.apart
    exact ⟨by omega, apart⟩
  idle := inv.idle
  claimed current := by
    obtain ⟨push, isPush⟩ := Option.isSome_iff_exists.mp current
    obtain ⟨idle, available, -⟩ := inv.claimed push isPush
    exact ⟨idle, available⟩

/-- Every state that a run of `uvm_pushbuffer_begin_push`,
`uvm_pushbuffer_end_push` and `uvm_pushbuffer_mark_completed`, in any order
of completion, reaches from `uvm_pushbuffer_create` keeps every chunk
consistent. -/
theorem reachable_chunks_consistent [DecidableEq E] [DecidableEq P] {system : PushbufferSystem E P}
    (reachable : Reachable system) (index : Nat) : ChunkConsistent system.pushbuffer index :=
  (reachable.inv.chunk index).consistent

/-! ## A drained chunk is idle again -/

/-- A chunk with nothing pending and no push in progress is idle and
available, its next push at its beginning. -/
def ChunkDrained (pushbuffer : UvmPushbuffer E P) (index : Nat) : Prop :=
  (pushbuffer.chunks index).pendingGpfifos = [] → (pushbuffer.chunks index).currentPush = none →
    pushbuffer.idleChunks index = true ∧ pushbuffer.availableChunks index = true ∧
      (pushbuffer.chunks index).nextPushStart = 0

section Drained

theorem ChunkDrained.sameOutside {pushbuffer changed : UvmPushbuffer E P} {index other : Nat}
    (drained : ChunkDrained pushbuffer other) (outside : pushbuffer.SameOutside changed index)
    (different : other ≠ index) : ChunkDrained changed other := by
  obtain ⟨chunks, idle, available⟩ := outside other different
  unfold ChunkDrained
  rw [chunks, idle, available]
  exact drained

theorem chunkDrained_makeIdle (pushbuffer : UvmPushbuffer E P) (index : Nat) :
    ChunkDrained (pushbuffer.makeIdle index) index :=
  fun _ _ => by simp

variable [DecidableEq E] [DecidableEq P] {system : PushbufferSystem E P}

/-- Each call keeps every drained chunk of the sixteen idle: a claimed chunk
has a push in progress, an ended push leaves its entry pending, and the
completion of a chunk's last entry with no push in progress updates the
chunk, which finds it empty. -/
theorem PushbufferInv.drained_step (inv : PushbufferInv system)
    (drained : ∀ index < uvmPushbufferChunks, ChunkDrained system.pushbuffer index) {next : PushbufferSystem E P}
    (step : Step system next) : ∀ index < uvmPushbufferChunks, ChunkDrained next.pushbuffer index := by
  intro other below
  cases step with
  | beginPush push fresh =>
      unfold PushbufferSystem.beginPush
      rcases uvmPushbufferBeginPush_cases system.pushbuffer push with ⟨-, busy⟩ | ⟨index, picked, began⟩
      · rw [busy]
        exact drained other below
      · rw [began]
        by_cases same : other = index
        · subst same
          intro _ current
          simp at current
        · exact (drained other below).sameOutside (UvmPushbuffer.claim_sameOutside push) same
  | endPush index push entry size claimed small =>
      have inside : offsetToChunk (GpfifoEntry.pushbufferOffset ⟨entry, system.pushBegin push, size⟩) = index :=
        inv.offsetToChunk_of_current claimed
      show ChunkDrained (uvmPushbufferEndPush system.pushbuffer ⟨entry, system.pushBegin push, size⟩) other
      by_cases same : other = index
      · -- the ended push's entry is pending
        subst same
        intro empty
        rw [uvmPushbufferEndPush_eq system.pushbuffer inside] at empty
        simp at empty
      · exact (drained other below).sameOutside (uvmPushbufferEndPush_sameOutside inside) same
  | markCompleted index gpfifo pending =>
      have inside := inv.offsetToChunk_of_pending pending
      show ChunkDrained (uvmPushbufferMarkCompleted system.pushbuffer gpfifo) other
      by_cases same : other = index
      · subst same
        intro empty current
        obtain ⟨rest, stays⟩ := uvmPushbufferMarkCompleted_chunk system.pushbuffer inside
        rw [rest] at empty
        rw [stays] at current
        rw [uvmPushbufferMarkCompleted_last system.pushbuffer inside pending empty current,
          updateChunk_of_nil _ (by simpa using empty)]
        exact chunkDrained_makeIdle _ _ (by simpa using empty) (by simpa using current)
      · exact (drained other below).sameOutside (uvmPushbufferMarkCompleted_sameOutside inside) same

theorem Reachable.drained (reachable : Reachable system) :
    ∀ index < uvmPushbufferChunks, ChunkDrained system.pushbuffer index := by
  induction reachable with
  | init =>
      intro index below _ _
      simp [pushbufferInit, uvmPushbufferCreate, below]
  | step reached step ih => exact reached.inv.drained_step ih step

/-- In every reachable state a chunk of the sixteen whose pushes have all
completed, with no push in progress, is idle and available from its
beginning: completions in any order lose no room.  So once chunk 0 is
drained, `uvm_pushbuffer_begin_push` claims it at once and the push begins at
offset 0. -/
theorem reachable_drained_idle (reachable : Reachable system) :
    (∀ index < uvmPushbufferChunks, ChunkDrained system.pushbuffer index) ∧
      ((system.pushbuffer.chunks 0).pendingGpfifos = [] → (system.pushbuffer.chunks 0).currentPush = none →
        ∀ push, ∃ claimed, uvmPushbufferBeginPush system.pushbuffer push = some (0, claimed)) := by
  have drained := reachable.drained
  refine ⟨drained, fun empty free push => ?_⟩
  obtain ⟨idle, -, start⟩ := drained 0 (by decide) empty free
  -- `get_idle_chunk` finds chunk 0 first
  have found : getChunkInMask system.pushbuffer.idleChunks = some 0 :=
    Search.findFrom_eq_some_iff.mpr ⟨Nat.le_refl 0, by decide, idle, fun j _ below => absurd below (Nat.not_lt_zero j)⟩
  have picked : pickChunk system.pushbuffer = some 0 := by
    rw [pickChunk, found]
  rcases uvmPushbufferBeginPush_cases system.pushbuffer push with ⟨busy, -⟩ | ⟨index, picked', began⟩
  · rw [picked] at busy
    cases busy
  · rw [picked, Option.some.injEq] at picked'
    subst picked'
    refine ⟨system.pushbuffer.claim 0 push, ?_⟩
    rw [began, start]
    rfl

end Drained

/-- Two pushes: the first ends in chunk 0, the second begins in chunk 1, which
is idle, the first completes, and the second ends. -/
def sampleRun : PushbufferSystem Nat Nat :=
  ((((pushbufferInit.beginPush 0).endPush 0 0 4096).beginPush 1).markCompleted ⟨0, 0, 4096⟩).endPush 1 1 100

theorem sampleRun_reachable : Reachable sampleRun :=
  .step (.step (.step (.step (.step .init (.beginPush 0 (by decide))) (.endPush 0 0 0 4096 (by decide) (by decide)))
    (.beginPush 1 (by decide))) (.markCompleted 0 ⟨0, 0, 4096⟩ (by decide)))
    (.endPush 1 1 1 100 (by decide) (by decide))

theorem sampleRun_consistent : Reachable sampleRun ∧ ChunkConsistent sampleRun.pushbuffer 1 :=
  ⟨sampleRun_reachable, reachable_chunks_consistent sampleRun_reachable 1⟩

/-- After the run chunk 0 is drained, and the next push begins at offset 0. -/
theorem sampleRun_drained :
    Reachable sampleRun ∧ ∃ claimed, uvmPushbufferBeginPush sampleRun.pushbuffer 2 = some (0, claimed) :=
  ⟨sampleRun_reachable, (reachable_drained_idle sampleRun_reachable).2 (by decide) (by decide) 2⟩

/-- The completed chunk is idle again, and the chunk of the second push has
its next push after it. -/
example : (sampleRun.pushbuffer.chunks 0).pendingGpfifos = [] ∧ sampleRun.pushbuffer.idleChunks 0 = true ∧
    (sampleRun.pushbuffer.chunks 1).nextPushStart = 100 := by decide

end NvidiaGpu.Pushbuffer
