import NvidiaGpu.Library.Intervals
import NvidiaGpu.Library.Search

set_option autoImplicit false

/-! The pushbuffer of UVM (`uvm_pushbuffer.c`), under its lock.  The
pushbuffer is cut into sixteen chunks; each chunk keeps the GPFIFO entries of
its pending pushes in a list, new ones at the tail, and finds room for the
next push from the first entry's start (`gpu_get`) and the last entry's end
(`cpu_put`) alone.  `idle_chunks` holds the chunks with nothing pending,
`available_chunks` those with room for a push of `UVM_MAX_PUSH_SIZE` at
`next_push_start`; a chunk with a push in progress (`current_push`) is in
neither, and its updates wait for `uvm_pushbuffer_end_push`.

Offsets are `NvU32` in the source and stay below `16 * UVM_PUSHBUFFER_CHUNK_SIZE`,
so they are kept as `Nat`.  Pushes of WLC channels use a static pushbuffer and
no chunk, and are left out, as are the semaphore that bounds the number of
concurrent pushes and the spinning of `claim_chunk`: one attempt of
`try_claim_chunk` is one call here. -/

namespace NvidiaGpu.Pushbuffer

open Intervals Search

def uvmMaxPushSize : Nat := 128 * 1024

def uvmPushbufferChunkSize : Nat := 8 * uvmMaxPushSize

def uvmPushbufferChunks : Nat := 16

/-- `uvm_gpfifo_entry_t`, the fields the pushbuffer reads: the entry itself,
and the offset and size of its push in the pushbuffer. -/
structure GpfifoEntry (E : Type) where
  entry : E
  pushbufferOffset : Nat
  pushbufferSize : Nat
  deriving DecidableEq, Repr

/-- `uvm_pushbuffer_chunk_t` -/
structure UvmPushbufferChunk (E P : Type) where
  nextPushStart : Nat
  pendingGpfifos : List (GpfifoEntry E)
  currentPush : Option P

/-- `uvm_pushbuffer_t`, the fields under its lock. -/
structure UvmPushbuffer (E P : Type) where
  chunks : Nat → UvmPushbufferChunk E P
  availableChunks : Nat → Bool
  idleChunks : Nat → Bool

variable {E P : Type}

/-! ## The code -/

section Code

def chunkGetOffset (index : Nat) : Nat :=
  index * uvmPushbufferChunkSize

def offsetToChunk (offset : Nat) : Nat :=
  offset / uvmPushbufferChunkSize

/-- `get_chunk_in_mask`: the first chunk of the mask, `NULL` for none. -/
def getChunkInMask (mask : Nat → Bool) : Option Nat :=
  findFrom mask 0 uvmPushbufferChunks

def setChunk (index : Nat) (mask : Nat → Bool) : Nat → Bool :=
  Function.update mask index true

def clearChunk (index : Nat) (mask : Nat → Bool) : Nat → Bool :=
  Function.update mask index false

def UvmPushbuffer.withChunk (pushbuffer : UvmPushbuffer E P) (index : Nat)
    (write : UvmPushbufferChunk E P → UvmPushbufferChunk E P) : UvmPushbuffer E P :=
  { pushbuffer with chunks := Function.update pushbuffer.chunks index (write (pushbuffer.chunks index)) }

/-- `pick_chunk`: an idle chunk first, else an available one. -/
def pickChunk (pushbuffer : UvmPushbuffer E P) : Option Nat :=
  match getChunkInMask pushbuffer.idleChunks with
  | some index => some index
  | none => getChunkInMask pushbuffer.availableChunks

/-- The chunk given to the push and taken out of both masks. -/
def UvmPushbuffer.claim (pushbuffer : UvmPushbuffer E P) (index : Nat) (push : P) : UvmPushbuffer E P where
  chunks := (pushbuffer.withChunk index fun chunk => { chunk with currentPush := some push }).chunks
  availableChunks := clearChunk index pushbuffer.availableChunks
  idleChunks := clearChunk index pushbuffer.idleChunks

def tryClaimChunk (pushbuffer : UvmPushbuffer E P) (push : P) : Option Nat × UvmPushbuffer E P :=
  match pickChunk pushbuffer with
  | none => (none, pushbuffer)
  | some index => (some index, pushbuffer.claim index push)

/-- `uvm_pushbuffer_begin_push`, one attempt of its claim: the push's offset in
the pushbuffer, as `uvm_pushbuffer_get_offset_for_push` reads `push->begin`,
and the pushbuffer after it; `none` while no chunk is idle or available. -/
def uvmPushbufferBeginPush (pushbuffer : UvmPushbuffer E P) (push : P) : Option (Nat × UvmPushbuffer E P) :=
  match tryClaimChunk pushbuffer push with
  | (none, _) => none
  | (some index, pushbuffer) => some (chunkGetOffset index + (pushbuffer.chunks index).nextPushStart, pushbuffer)

def chunkGetCpuPut (index : Nat) (chunk : UvmPushbufferChunk E P) : Nat :=
  match chunk.pendingGpfifos.getLast? with
  | some gpfifo => gpfifo.pushbufferOffset + gpfifo.pushbufferSize - chunkGetOffset index
  | none => 0

def chunkGetGpuGet (index : Nat) (chunk : UvmPushbufferChunk E P) : Nat :=
  match chunk.pendingGpfifos.head? with
  | some gpfifo => gpfifo.pushbufferOffset - chunkGetOffset index
  | none => 0

/-- The chunk put in `available_chunks`, its next push to start at `start`. -/
def UvmPushbuffer.makeAvailable (pushbuffer : UvmPushbuffer E P) (index start : Nat) : UvmPushbuffer E P where
  chunks := (pushbuffer.withChunk index fun chunk => { chunk with nextPushStart := start }).chunks
  availableChunks := setChunk index pushbuffer.availableChunks
  idleChunks := pushbuffer.idleChunks

/-- The chunk put in `idle_chunks` and `available_chunks`, its next push to
start at its beginning. -/
def UvmPushbuffer.makeIdle (pushbuffer : UvmPushbuffer E P) (index : Nat) : UvmPushbuffer E P where
  chunks := (pushbuffer.makeAvailable index 0).chunks
  availableChunks := setChunk index pushbuffer.availableChunks
  idleChunks := setChunk index pushbuffer.idleChunks

def updateChunk (pushbuffer : UvmPushbuffer E P) (index : Nat) : UvmPushbuffer E P :=
  let chunk := pushbuffer.chunks index
  let gpuGet := chunkGetGpuGet index chunk
  let cpuPut := chunkGetCpuPut index chunk
  if gpuGet = cpuPut then
    if chunk.pendingGpfifos ≠ [] then pushbuffer
    else pushbuffer.makeIdle index
  else if gpuGet > cpuPut then
    if gpuGet - cpuPut ≥ uvmMaxPushSize then pushbuffer.makeAvailable index cpuPut else pushbuffer
  else if uvmPushbufferChunkSize ≥ cpuPut + uvmMaxPushSize then pushbuffer.makeAvailable index cpuPut
  else if gpuGet ≥ uvmMaxPushSize then pushbuffer.makeAvailable index 0
  else pushbuffer

/-- `uvm_pushbuffer_mark_completed`: the entry leaves its chunk's list, and
the chunk is updated when the entry was its first or last one, unless a push
is in progress in it. -/
def uvmPushbufferMarkCompleted [DecidableEq E] (pushbuffer : UvmPushbuffer E P) (gpfifo : GpfifoEntry E) :
    UvmPushbuffer E P :=
  let index := offsetToChunk gpfifo.pushbufferOffset
  let chunk := pushbuffer.chunks index
  let needToUpdateChunk := (chunk.pendingGpfifos.head?.map (·.entry) == some gpfifo.entry) ||
    (chunk.pendingGpfifos.getLast?.map (·.entry) == some gpfifo.entry)
  let removed := pushbuffer.withChunk index fun chunk =>
    { chunk with pendingGpfifos := chunk.pendingGpfifos.eraseP fun pending => pending.entry == gpfifo.entry }
  if needToUpdateChunk && chunk.currentPush.isNone then updateChunk removed index else removed

/-- `uvm_pushbuffer_end_push`: the entry of the push at the tail of its
chunk's list, the chunk updated, and its push done.  The push itself is only
asserted to be the chunk's. -/
def uvmPushbufferEndPush (pushbuffer : UvmPushbuffer E P) (gpfifo : GpfifoEntry E) : UvmPushbuffer E P :=
  let index := offsetToChunk gpfifo.pushbufferOffset
  let added := pushbuffer.withChunk index fun chunk =>
    { chunk with pendingGpfifos := chunk.pendingGpfifos ++ [gpfifo] }
  (updateChunk added index).withChunk index fun chunk => { chunk with currentPush := none }

/-- `uvm_pushbuffer_create`: every chunk idle and available, with nothing
pending, no push and its next push at its start. -/
def uvmPushbufferCreate : UvmPushbuffer E P where
  chunks _ := { nextPushStart := 0, pendingGpfifos := [], currentPush := none }
  availableChunks index := decide (index < uvmPushbufferChunks)
  idleChunks index := decide (index < uvmPushbufferChunks)

end Code

/-! ## What each function changes -/

section Frame

variable {index other : Nat}

theorem maxPushSize_pos : 0 < uvmMaxPushSize := by decide

theorem maxPushSize_le_chunkSize : uvmMaxPushSize ≤ uvmPushbufferChunkSize := by decide

/-- The chunk of an offset inside it. -/
theorem offsetToChunk_of_inside {offset : Nat} (low : chunkGetOffset index ≤ offset)
    (high : offset < chunkGetOffset index + uvmPushbufferChunkSize) : offsetToChunk offset = index := by
  unfold chunkGetOffset at low high
  exact Nat.div_eq_of_lt_le low (by rw [Nat.succ_mul]; exact high)

@[simp] theorem setChunk_self (mask : Nat → Bool) : setChunk index mask index = true := by
  simp [setChunk]

@[simp] theorem setChunk_of_ne (mask : Nat → Bool) (different : other ≠ index) :
    setChunk index mask other = mask other := by
  simp [setChunk, different]

@[simp] theorem clearChunk_self (mask : Nat → Bool) : clearChunk index mask index = false := by
  simp [clearChunk]

@[simp] theorem clearChunk_of_ne (mask : Nat → Bool) (different : other ≠ index) :
    clearChunk index mask other = mask other := by
  simp [clearChunk, different]

variable (pushbuffer : UvmPushbuffer E P)

@[simp] theorem UvmPushbuffer.withChunk_self (write : UvmPushbufferChunk E P → UvmPushbufferChunk E P) :
    (pushbuffer.withChunk index write).chunks index = write (pushbuffer.chunks index) :=
  Function.update_self index _ pushbuffer.chunks

@[simp] theorem UvmPushbuffer.withChunk_of_ne (write : UvmPushbufferChunk E P → UvmPushbufferChunk E P)
    (different : other ≠ index) : (pushbuffer.withChunk index write).chunks other = pushbuffer.chunks other :=
  Function.update_of_ne different _ pushbuffer.chunks

@[simp] theorem UvmPushbuffer.withChunk_availableChunks (write : UvmPushbufferChunk E P → UvmPushbufferChunk E P) :
    (pushbuffer.withChunk index write).availableChunks = pushbuffer.availableChunks := rfl

@[simp] theorem UvmPushbuffer.withChunk_idleChunks (write : UvmPushbufferChunk E P → UvmPushbufferChunk E P) :
    (pushbuffer.withChunk index write).idleChunks = pushbuffer.idleChunks := rfl

@[simp] theorem UvmPushbuffer.claim_chunks (push : P) :
    (pushbuffer.claim index push).chunks =
      (pushbuffer.withChunk index fun chunk => { chunk with currentPush := some push }).chunks := rfl

@[simp] theorem UvmPushbuffer.claim_availableChunks (push : P) :
    (pushbuffer.claim index push).availableChunks = clearChunk index pushbuffer.availableChunks := rfl

@[simp] theorem UvmPushbuffer.claim_idleChunks (push : P) :
    (pushbuffer.claim index push).idleChunks = clearChunk index pushbuffer.idleChunks := rfl

@[simp] theorem UvmPushbuffer.makeAvailable_chunks (start : Nat) :
    (pushbuffer.makeAvailable index start).chunks =
      (pushbuffer.withChunk index fun chunk => { chunk with nextPushStart := start }).chunks := rfl

@[simp] theorem UvmPushbuffer.makeAvailable_availableChunks (start : Nat) :
    (pushbuffer.makeAvailable index start).availableChunks = setChunk index pushbuffer.availableChunks := rfl

@[simp] theorem UvmPushbuffer.makeAvailable_idleChunks (start : Nat) :
    (pushbuffer.makeAvailable index start).idleChunks = pushbuffer.idleChunks := rfl

@[simp] theorem UvmPushbuffer.makeIdle_chunks :
    (pushbuffer.makeIdle index).chunks = (pushbuffer.makeAvailable index 0).chunks := rfl

@[simp] theorem UvmPushbuffer.makeIdle_availableChunks :
    (pushbuffer.makeIdle index).availableChunks = setChunk index pushbuffer.availableChunks := rfl

@[simp] theorem UvmPushbuffer.makeIdle_idleChunks :
    (pushbuffer.makeIdle index).idleChunks = setChunk index pushbuffer.idleChunks := rfl

/-- A chunk with nothing pending is made idle, from its beginning. -/
theorem updateChunk_of_nil (empty : (pushbuffer.chunks index).pendingGpfifos = []) :
    updateChunk pushbuffer index = pushbuffer.makeIdle index := by
  simp [updateChunk, chunkGetGpuGet, chunkGetCpuPut, empty]

/-- `update_chunk` keeps the entries of the chunk. -/
@[simp] theorem updateChunk_pendingGpfifos :
    ((updateChunk pushbuffer index).chunks index).pendingGpfifos = (pushbuffer.chunks index).pendingGpfifos := by
  dsimp only [updateChunk]
  split_ifs <;> simp

/-- `update_chunk` keeps the push of the chunk. -/
@[simp] theorem updateChunk_currentPush :
    ((updateChunk pushbuffer index).chunks index).currentPush = (pushbuffer.chunks index).currentPush := by
  dsimp only [updateChunk]
  split_ifs <;> simp

/-- `uvm_pushbuffer_begin_push` either finds every chunk busy or claims the
chunk `pick_chunk` returns, the push to begin at its next push start. -/
theorem uvmPushbufferBeginPush_cases (push : P) :
    (pickChunk pushbuffer = none ∧ uvmPushbufferBeginPush pushbuffer push = none) ∨
      ∃ index, pickChunk pushbuffer = some index ∧ uvmPushbufferBeginPush pushbuffer push =
        some (chunkGetOffset index + (pushbuffer.chunks index).nextPushStart, pushbuffer.claim index push) := by
  unfold uvmPushbufferBeginPush tryClaimChunk
  cases picked : pickChunk pushbuffer with
  | none => exact Or.inl ⟨rfl, rfl⟩
  | some index => exact Or.inr ⟨index, rfl, by simp⟩

/-- `uvm_pushbuffer_end_push` of an entry of chunk `index`: the entry at the
tail of the chunk's list, the chunk updated, and its push done. -/
theorem uvmPushbufferEndPush_eq {gpfifo : GpfifoEntry E} (inside : offsetToChunk gpfifo.pushbufferOffset = index) :
    uvmPushbufferEndPush pushbuffer gpfifo =
      (updateChunk (pushbuffer.withChunk index fun chunk =>
        { chunk with pendingGpfifos := chunk.pendingGpfifos ++ [gpfifo] }) index).withChunk index
          fun chunk => { chunk with currentPush := none } := by
  simp only [uvmPushbufferEndPush, inside]

/-- `uvm_pushbuffer_mark_completed` of an entry of chunk `index` takes it out
of the chunk's list, and updates the chunk only when no push is in progress in
it. -/
theorem uvmPushbufferMarkCompleted_cases [DecidableEq E] {gpfifo : GpfifoEntry E}
    (inside : offsetToChunk gpfifo.pushbufferOffset = index) :
    uvmPushbufferMarkCompleted pushbuffer gpfifo = pushbuffer.withChunk index (fun chunk =>
        { chunk with pendingGpfifos := chunk.pendingGpfifos.eraseP fun pending => pending.entry == gpfifo.entry }) ∨
      (pushbuffer.chunks index).currentPush = none ∧
        uvmPushbufferMarkCompleted pushbuffer gpfifo = updateChunk (pushbuffer.withChunk index fun chunk =>
          { chunk with pendingGpfifos := chunk.pendingGpfifos.eraseP fun pending => pending.entry == gpfifo.entry })
            index := by
  simp only [uvmPushbufferMarkCompleted, inside]
  split
  · next update =>
      simp only [Bool.and_eq_true, Option.isNone_iff_eq_none] at update
      exact Or.inr ⟨update.2, rfl⟩
  · exact Or.inl rfl

/-- The completion of the entry that leaves a chunk with nothing pending, when
no push is in progress in it, updates the chunk: the entry was its first. -/
theorem uvmPushbufferMarkCompleted_last [DecidableEq E] {gpfifo : GpfifoEntry E}
    (inside : offsetToChunk gpfifo.pushbufferOffset = index) (member : gpfifo ∈ (pushbuffer.chunks index).pendingGpfifos)
    (last : (pushbuffer.chunks index).pendingGpfifos.eraseP (fun pending => pending.entry == gpfifo.entry) = [])
    (free : (pushbuffer.chunks index).currentPush = none) :
    uvmPushbufferMarkCompleted pushbuffer gpfifo = updateChunk (pushbuffer.withChunk index fun chunk =>
      { chunk with pendingGpfifos := chunk.pendingGpfifos.eraseP fun pending => pending.entry == gpfifo.entry })
        index := by
  have first : (pushbuffer.chunks index).pendingGpfifos.head?.map (·.entry) = some gpfifo.entry := by
    cases listed : (pushbuffer.chunks index).pendingGpfifos with
    | nil =>
        rw [listed] at member
        cases member
    | cons head rest =>
        rw [listed, List.eraseP_cons] at last
        cases same : head.entry == gpfifo.entry
        · simp [same] at last
        · simpa using same
  simp [uvmPushbufferMarkCompleted, inside, first, free]

/-- What `uvm_pushbuffer_mark_completed` leaves in the chunk of the entry:
the rest of its entries, and its push. -/
theorem uvmPushbufferMarkCompleted_chunk [DecidableEq E] {gpfifo : GpfifoEntry E}
    (inside : offsetToChunk gpfifo.pushbufferOffset = index) :
    ((uvmPushbufferMarkCompleted pushbuffer gpfifo).chunks index).pendingGpfifos =
        (pushbuffer.chunks index).pendingGpfifos.eraseP (fun pending => pending.entry == gpfifo.entry) ∧
      ((uvmPushbufferMarkCompleted pushbuffer gpfifo).chunks index).currentPush = (pushbuffer.chunks index).currentPush := by
  rcases uvmPushbufferMarkCompleted_cases pushbuffer inside with done | ⟨-, done⟩ <;> rw [done] <;> simp

/-- The two pushbuffers agree outside the chunk `index`. -/
def UvmPushbuffer.SameOutside (changed : UvmPushbuffer E P) (index : Nat) : Prop :=
  ∀ other, other ≠ index → changed.chunks other = pushbuffer.chunks other ∧
    changed.idleChunks other = pushbuffer.idleChunks other ∧
    changed.availableChunks other = pushbuffer.availableChunks other

variable {pushbuffer}

theorem UvmPushbuffer.SameOutside.trans {changed last : UvmPushbuffer E P} (first : pushbuffer.SameOutside changed index)
    (second : changed.SameOutside last index) : pushbuffer.SameOutside last index := by
  intro other different
  obtain ⟨chunks, idle, available⟩ := first other different
  obtain ⟨chunks', idle', available'⟩ := second other different
  exact ⟨chunks'.trans chunks, idle'.trans idle, available'.trans available⟩

theorem UvmPushbuffer.withChunk_sameOutside (write : UvmPushbufferChunk E P → UvmPushbufferChunk E P) :
    pushbuffer.SameOutside (pushbuffer.withChunk index write) index :=
  fun _ different => ⟨by simp [different], rfl, rfl⟩

theorem UvmPushbuffer.claim_sameOutside (push : P) : pushbuffer.SameOutside (pushbuffer.claim index push) index :=
  fun _ different => by simp [different]

theorem updateChunk_sameOutside : pushbuffer.SameOutside (updateChunk pushbuffer index) index := by
  intro other different
  dsimp only [updateChunk]
  split_ifs <;> simp [different]

theorem uvmPushbufferEndPush_sameOutside {gpfifo : GpfifoEntry E}
    (inside : offsetToChunk gpfifo.pushbufferOffset = index) :
    pushbuffer.SameOutside (uvmPushbufferEndPush pushbuffer gpfifo) index := by
  rw [uvmPushbufferEndPush_eq pushbuffer inside]
  exact ((UvmPushbuffer.withChunk_sameOutside _).trans updateChunk_sameOutside).trans
    (UvmPushbuffer.withChunk_sameOutside _)

theorem uvmPushbufferMarkCompleted_sameOutside [DecidableEq E] {gpfifo : GpfifoEntry E}
    (inside : offsetToChunk gpfifo.pushbufferOffset = index) :
    pushbuffer.SameOutside (uvmPushbufferMarkCompleted pushbuffer gpfifo) index := by
  rcases uvmPushbufferMarkCompleted_cases pushbuffer inside with done | ⟨-, done⟩ <;> rw [done]
  · exact UvmPushbuffer.withChunk_sameOutside _
  · exact (UvmPushbuffer.withChunk_sameOutside _).trans updateChunk_sameOutside

/-- The chunk `pick_chunk` returns is one of the sixteen, idle or available. -/
theorem pickChunk_some (picked : pickChunk pushbuffer = some index) :
    index < uvmPushbufferChunks ∧ (pushbuffer.idleChunks index = true ∨ pushbuffer.availableChunks index = true) := by
  unfold pickChunk getChunkInMask at picked
  split at picked
  · next found =>
      cases picked
      obtain ⟨-, below, idle, -⟩ := findFrom_eq_some_iff.mp found
      exact ⟨below, Or.inl idle⟩
  · obtain ⟨-, below, available, -⟩ := findFrom_eq_some_iff.mp picked
    exact ⟨below, Or.inr available⟩

end Frame

/-! ## Where `update_chunk` puts the next push

The pending entries of a chunk are laid out as a ring in the chunk, and
`next_push_start` of a chunk that is idle, available or claimed is an append
point of that ring for a push of `UVM_MAX_PUSH_SIZE`. -/

section Layout

/-- The pending entries lie as a ring in the chunk. -/
def ChunkRing (index : Nat) (pending : List (GpfifoEntry E)) : Prop :=
  RingLayout GpfifoEntry.pushbufferOffset GpfifoEntry.pushbufferSize (chunkGetOffset index)
    (chunkGetOffset index + uvmPushbufferChunkSize) pending

/-- A push of `UVM_MAX_PUSH_SIZE` at `nextPushStart` can follow the pending
entries. -/
def ChunkFits (index : Nat) (pending : List (GpfifoEntry E)) (nextPushStart : Nat) : Prop :=
  Fits GpfifoEntry.pushbufferOffset GpfifoEntry.pushbufferSize (chunkGetOffset index)
    (chunkGetOffset index + uvmPushbufferChunkSize) pending (chunkGetOffset index + nextPushStart) uvmMaxPushSize

theorem chunkFits_nil (index : Nat) : ChunkFits index ([] : List (GpfifoEntry E)) 0 :=
  ⟨Nat.le_add_right _ _, by have := maxPushSize_le_chunkSize; omega⟩

variable {pushbuffer : UvmPushbuffer E P} {index : Nat}

/-- Everything `update_chunk` can do to a chunk laid out as a ring: nothing,
make it available at an append point, or, with nothing pending, make it idle.
The branches that find room read the first start and the last end only; the
ring is what makes that enough. -/
theorem updateChunk_cases (ring : ChunkRing index (pushbuffer.chunks index).pendingGpfifos) :
    updateChunk pushbuffer index = pushbuffer ∨
      (∃ start, ChunkFits index (pushbuffer.chunks index).pendingGpfifos start ∧
        updateChunk pushbuffer index = pushbuffer.makeAvailable index start) ∨
      (pushbuffer.chunks index).pendingGpfifos = [] ∧ updateChunk pushbuffer index = pushbuffer.makeIdle index := by
  generalize listed : (pushbuffer.chunks index).pendingGpfifos = pending at ring
  cases pending with
  | nil => exact Or.inr (Or.inr ⟨rfl, updateChunk_of_nil pushbuffer listed⟩)
  | cons first rest =>
      obtain ⟨last, isLast⟩ : ∃ last, (first :: rest).getLast? = some last :=
        ⟨_, List.getLast?_eq_some_getLast (List.cons_ne_nil first rest)⟩
      have atFirst := ring.mem first List.mem_cons_self
      have atLast := ring.mem last (List.mem_of_getLast? isLast)
      have gpuGet : chunkGetGpuGet index (pushbuffer.chunks index) =
          first.pushbufferOffset - chunkGetOffset index := by
        simp [chunkGetGpuGet, listed]
      have cpuPut : chunkGetCpuPut index (pushbuffer.chunks index) =
          last.pushbufferOffset + last.pushbufferSize - chunkGetOffset index := by
        simp [chunkGetCpuPut, listed, isLast]
      have atEnd : chunkGetOffset index + (last.pushbufferOffset + last.pushbufferSize - chunkGetOffset index) =
          last.pushbufferOffset + last.pushbufferSize := by omega
      unfold updateChunk
      simp only [gpuGet, cpuPut, listed, ne_eq, reduceCtorEq, not_false_eq_true, if_true]
      split_ifs with same wrapped room atTail atHead
      · exact Or.inl rfl
      · -- after a wrap: room between the last end and the first start
        refine Or.inr (Or.inl ⟨_, ?_, rfl⟩)
        unfold ChunkFits
        rw [atEnd]
        exact ring.fits_of_wrapped isLast (by omega)
      · exact Or.inl rfl
      · -- no wrap: room after the last end
        refine Or.inr (Or.inl ⟨_, ?_, rfl⟩)
        unfold ChunkFits
        rw [atEnd]
        exact ring.fits_of_after isLast (by omega) (by omega)
      · -- no wrap: room before the first start
        refine Or.inr (Or.inl ⟨0, ?_, rfl⟩)
        unfold ChunkFits
        rw [Nat.add_zero]
        exact ring.fits_of_before isLast (by omega) (by omega)
      · exact Or.inl rfl

end Layout

end NvidiaGpu.Pushbuffer
