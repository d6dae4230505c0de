import LiteExchange.Core.RingBuffer
import LiteExchange.Fix.FileParser
import LiteExchange.Foundation.AppendLog
import Mathlib.Data.List.Range

/-!
# The files of the logger

Source: memory_mapped_file_backend.hpp, shared_memory.cpp and `VirtualMemory` as compiled on
Linux, log_entry.hpp. The mapping has whole pages, computed with an `int` page count and a
`size_t` product. `process` rotates where an entry would reach the end of the mapping; `append`
takes its offset modulo the size and asks nothing, so that this test has to keep it inside.
-/

namespace LiteExchange.Core

open Foundation.Ascii Foundation.AppendLog Foundation.Results
open LiteExchange.Fix (split splitFrom splitFrom_append splitFrom_of_not_mem)

/-! ## Pages -/

/-- The `int` product is computed as a `size_t`. -/
def adjustSizeToPageSize (pageSize size : Nat) : Nat :=
  if size ≤ pageSize then pageSize
  else
    let pageCount := toInt (size / pageSize : Nat)
    let pageCount :=
      if toSize pageCount * pageSize % 2 ^ 64 < size then toInt (pageCount + 1) else pageCount
    toSize pageCount * pageSize % 2 ^ 64

/-! ## Entries -/

inductive LogLevel where
  | fatal | error | warning | info | debug
  deriving DecidableEq, Repr

def logLevelToString : LogLevel → Bytes
  | .fatal => ascii "FATAL"
  | .error => ascii "ERROR"
  | .warning => ascii "WARNING"
  | .info => ascii "INFO"
  | .debug => ascii "DEBUG"

structure LogEntry where
  logLevel : LogLevel
  sender : Bytes
  message : Bytes
  deriving DecidableEq, Repr

/-- What `c_str()` shows of a string. -/
def cString (text : Bytes) : Bytes := text.takeWhile (· != 0)

/-- `core::format`: `snprintf` has a buffer of 2048 characters, the last one for the null. -/
def format (text : Bytes) : Bytes := text.take 2047

/-- `operator<<`, at the given time. -/
def LogEntry.print (entry : LogEntry) (utcDatetime : Bytes) : Bytes :=
  format (cString utcDatetime ++ ascii " : " ++ cString (logLevelToString entry.logLevel) ++
    ascii " , " ++ cString entry.sender ++ ascii " , " ++ cString entry.message)

/-! ## The mapping -/

inductive LogFault where
  /-- `tokens[i]` behind the last token. -/
  | outsideTokens
  | cannotBeOpened (resourceName : Bytes)
  /-- A write through the result of a failed `mmap`, or through the null pointer. -/
  | badAddress
  /-- `% m_size` of a mapping without pages. -/
  | divisionByZero
  deriving DecidableEq, Repr

/-- What the operating system does with the calls of `SharedMemory::open`. -/
inductive Opening where
  | mapped | refused | mapFailed
  deriving DecidableEq, Repr

inductive MappedBuffer where
  | null
  | failed
  | mapped (bytes : Nat → UInt8)

def MappedBuffer.bytes : MappedBuffer → Nat → UInt8
  | .mapped bytes => bytes
  | _ => fun _ => 0

/-- `name` is the one it was opened with; `appends` are the ranges written since then. -/
structure SharedMemory where
  buffer : MappedBuffer := .null
  size : Nat := 0
  writtenSize : Nat := 0
  name : Bytes := []
  appends : List (Record UInt8) := []

namespace SharedMemory

def isOpen (memory : SharedMemory) : Bool :=
  match memory.buffer with
  | .null => false
  | _ => true

/-- `open`, with the `memset` of the new mapping. -/
def openNamed (memory : SharedMemory) (pageSize : Nat) (name : Bytes) (maxSize : Nat) :
    Opening → Except LogFault SharedMemory
  | .refused =>
    .ok { memory with size := adjustSizeToPageSize pageSize maxSize, name := name }
  | .mapped =>
    .ok { memory with
      size := adjustSizeToPageSize pageSize maxSize, name := name, buffer := .mapped fun _ => 0 }
  | .mapFailed =>
    if adjustSizeToPageSize pageSize maxSize = 0 then
      .ok { memory with size := 0, name := name, buffer := .failed }
    else .error .badAddress

def write (memory : SharedMemory) (data : Bytes) (writeOffset : Nat) :
    Except LogFault SharedMemory :=
  match memory.buffer with
  | .mapped bytes =>
    .ok { memory with
      buffer := .mapped (store bytes writeOffset data)
      writtenSize := (memory.writtenSize + data.length) % 2 ^ 64
      appends := memory.appends ++ [⟨writeOffset, data⟩] }
  | _ => .error .badAddress

def append (memory : SharedMemory) (data : Bytes) : Except LogFault SharedMemory :=
  if memory.size = 0 then .error .divisionByZero
  else memory.write data (memory.writtenSize % memory.size)

end SharedMemory

/-! ## The backend -/

/-- A file as it was mapped, from an opening to its close. -/
structure LogFile where
  name : Bytes
  size : Nat
  bytes : Nat → UInt8
  appends : List (Record UInt8)

def SharedMemory.file (memory : SharedMemory) : LogFile where
  name := memory.name
  size := memory.size
  bytes := memory.buffer.bytes
  appends := memory.appends

structure MemoryMappedFileBackend where
  rotationId : UInt32 := 1
  rotationSize : Nat := 0
  resourceName : Bytes := []
  originalResourceName : Bytes := []
  resourceExtension : Bytes := []
  logFile : SharedMemory := {}
  closedFiles : List LogFile := []

/-- One call of `process`: the entry, the time, and what becomes of a rotation. -/
structure Logged where
  entry : LogEntry
  utcDatetime : Bytes
  opening : Opening

/-- The entry as a string, with `std::endl`. -/
def Logged.entryAsString (logged : Logged) : Bytes := logged.entry.print logged.utcDatetime ++ [10]

def dot : UInt8 := 46

/-- The name that `rotate` builds. -/
def rotatedName (originalResourceName resourceExtension : Bytes) (rotationId : UInt32) : Bytes :=
  originalResourceName ++ ascii "_" ++ natText rotationId.toNat ++
    if resourceExtension.length > 0 then ascii "." ++ resourceExtension else []

namespace MemoryMappedFileBackend

def openMemoryMappedFile (backend : MemoryMappedFileBackend) (pageSize : Nat) (opening : Opening) :
    Except LogFault MemoryMappedFileBackend := do
  let logFile ← backend.logFile.openNamed pageSize backend.resourceName backend.rotationSize opening
  if logFile.isOpen then pure { backend with logFile := logFile }
  else .error (.cannotBeOpened backend.resourceName)

/-- `SharedMemory::close` sets everything back. -/
def closeMemoryMappedFile (backend : MemoryMappedFileBackend) : MemoryMappedFileBackend :=
  { backend with
    closedFiles := backend.closedFiles ++ [backend.logFile.file]
    logFile := {} }

/-- The names that `open` takes apart. -/
def splitResourceName (backend : MemoryMappedFileBackend) :
    Except LogFault MemoryMappedFileBackend :=
  if dot ∈ backend.resourceName then
    let resourceNameParts := split backend.resourceName dot
    match resourceNameParts[0]?, resourceNameParts[1]? with
    | some original, some extension =>
      .ok { backend with originalResourceName := original, resourceExtension := extension }
    | _, _ => .error .outsideTokens
  else .ok { backend with originalResourceName := backend.resourceName }

def openBackend (backend : MemoryMappedFileBackend) (pageSize : Nat) (opening : Opening) :
    Except LogFault MemoryMappedFileBackend := do
  let backend ← backend.splitResourceName
  backend.openMemoryMappedFile pageSize opening

def rotate (backend : MemoryMappedFileBackend) (pageSize : Nat) (opening : Opening) :
    Except LogFault MemoryMappedFileBackend :=
  let rotationId := backend.rotationId + 1
  let resourceName :=
    rotatedName backend.originalResourceName backend.resourceExtension rotationId
  ({ backend with rotationId := rotationId, resourceName := resourceName }
    |>.closeMemoryMappedFile).openMemoryMappedFile pageSize opening

def process (pageSize : Nat) (backend : MemoryMappedFileBackend) (logged : Logged) :
    Except LogFault MemoryMappedFileBackend := do
  let entryAsString := logged.entryAsString
  let backend ←
    if backend.logFile.size ≤ (backend.logFile.writtenSize + entryAsString.length) % 2 ^ 64 then
      backend.rotate pageSize logged.opening
    else pure backend
  let logFile ← backend.logFile.append entryAsString
  pure { backend with logFile := logFile }

/-- The backend of a logger that is configured, opened and has processed these entries. -/
def runLog (pageSize rotationSize : Nat) (resourceName : Bytes) (opening : Opening)
    (entries : List Logged) : Except LogFault MemoryMappedFileBackend := do
  let backend ← openBackend { rotationSize := rotationSize, resourceName := resourceName } pageSize
    opening
  entries.foldlM (process pageSize) backend

/-- The files of all openings, the one that is open last. -/
def files (backend : MemoryMappedFileBackend) : List LogFile :=
  backend.closedFiles ++ [backend.logFile.file]

end MemoryMappedFileBackend

/-! ## The size of the mapping -/

/-- The pages that a size needs. -/
def pagesOf (pageSize size : Nat) : Nat := (size + pageSize - 1) / pageSize

/-- The size of these pages, and of one page for an empty size. -/
def wholePages (pageSize size : Nat) : Nat := max 1 (pagesOf pageSize size) * pageSize

/-- The page count is an `int`, and a mapping with one entry behind it ends in a `size_t`. -/
structure FitsPages (pageSize rotationSize : Nat) : Prop where
  page : 4096 ≤ pageSize
  counted : pagesOf pageSize rotationSize < 2 ^ 31
  addressed : wholePages pageSize rotationSize + 2048 ≤ 2 ^ 64

theorem adjustSizeToPageSize_eq {pageSize size : Nat} (h : FitsPages pageSize size) :
    adjustSizeToPageSize pageSize size = wholePages pageSize size := by
  have hpage := h.page
  unfold adjustSizeToPageSize
  by_cases hsmall : size ≤ pageSize
  · have hone : pagesOf pageSize size < 2 := Nat.div_lt_of_lt_mul (by omega)
    rw [if_pos hsmall, wholePages, max_eq_left (by omega), Nat.one_mul]
  · obtain ⟨pages, hpages⟩ : ∃ pages, pages = size / pageSize := ⟨_, rfl⟩
    have hlow : pages * pageSize ≤ size := hpages ▸ Nat.div_mul_le_self size pageSize
    have hhigh : size < pages * pageSize + pageSize :=
      hpages ▸ Nat.lt_div_mul_add (by omega)
    have hpositive : 1 ≤ pages := hpages ▸ Nat.div_pos (by omega) (by omega)
    have hsucc : (pages + 1) * pageSize = pages * pageSize + pageSize := Nat.succ_mul _ _
    have haddressed := h.addressed
    rw [if_neg hsmall, ← hpages]
    dsimp only
    unfold wholePages at haddressed ⊢
    by_cases hexact : pages * pageSize = size
    · -- The size is one of whole pages.
      have hcount : pagesOf pageSize size = pages :=
        Nat.div_eq_of_lt_le (by omega) (by omega)
      have hbound := h.counted
      rw [hcount, max_eq_right hpositive] at haddressed ⊢
      rw [hcount] at hbound
      have hfits : pages * pageSize < 2 ^ 64 := by omega
      rw [toInt_of_bounds (by omega) (by omega), toSize_natCast hbound, Nat.mod_eq_of_lt hfits,
        if_neg (by omega), toSize_natCast hbound, Nat.mod_eq_of_lt hfits]
    · -- The last page is not full.
      have hcount : pagesOf pageSize size = pages + 1 := by
        have hsucc' : (pages + 1 + 1) * pageSize = (pages + 1) * pageSize + pageSize :=
          Nat.succ_mul _ _
        exact Nat.div_eq_of_lt_le (by omega) (by omega)
      have hbound := h.counted
      rw [hcount, max_eq_right (by omega)] at haddressed ⊢
      rw [hcount] at hbound
      have hnext : toInt ((pages : Int) + 1) = ((pages + 1 : Nat) : Int) :=
        toInt_of_bounds (by omega) (by omega)
      have hcut : pages * pageSize < 2 ^ 64 := by omega
      have hfits : (pages + 1) * pageSize < 2 ^ 64 := by omega
      have hpagesBound : pages < 2 ^ 31 := by omega
      rw [toInt_of_bounds (by omega) (by omega), toSize_natCast hpagesBound,
        Nat.mod_eq_of_lt hcut, if_pos (by omega), hnext, toSize_natCast hbound,
        Nat.mod_eq_of_lt hfits]

/-! ## Entries -/

theorem entryAsString_length (logged : Logged) :
    0 < logged.entryAsString.length ∧ logged.entryAsString.length ≤ 2048 := by
  have hprint : (logged.entry.print logged.utcDatetime).length ≤ 2047 := List.length_take_le _ _
  rw [Logged.entryAsString, List.length_append, List.length_singleton]
  omega

/-! ## What a step leaves -/

/-- Each entry begins where the one before it ended, ends inside the mapping, and is stored. -/
structure LogFile.Whole (file : LogFile) : Prop where
  packed : ∃ written, Packed file.appends written
  inside : ∀ append ∈ file.appends, append.behind ≤ file.size
  stored : ∀ append ∈ file.appends, ∀ i, (h : i < append.bytes.length) →
    file.bytes (append.offset + i) = append.bytes[i]

namespace MemoryMappedFileBackend

/-- The new mapping of a name. -/
def mapping (pageSize rotationSize : Nat) (name : Bytes) : SharedMemory where
  buffer := .mapped fun _ => 0
  size := wholePages pageSize rotationSize
  name := name

/-- A rotation whose file is mapped. -/
def rotated (backend : MemoryMappedFileBackend) (pageSize : Nat) : MemoryMappedFileBackend :=
  let resourceName := rotatedName backend.originalResourceName backend.resourceExtension
    (backend.rotationId + 1)
  { backend with
    rotationId := backend.rotationId + 1
    resourceName := resourceName
    closedFiles := backend.files
    logFile := mapping pageSize backend.rotationSize resourceName }

/-- An append in front of the end of the mapping. -/
def appended (backend : MemoryMappedFileBackend) (data : Bytes) : MemoryMappedFileBackend :=
  { backend with
    logFile := { backend.logFile with
      buffer := .mapped (store backend.logFile.buffer.bytes backend.logFile.writtenSize data)
      writtenSize := backend.logFile.writtenSize + data.length
      appends := backend.logFile.appends ++ [⟨backend.logFile.writtenSize, data⟩] } }

/-- The invariant: the open file is mapped with whole pages, and is not full. -/
structure Intact (pageSize rotationSize : Nat) (backend : MemoryMappedFileBackend)
    (entries : List Bytes) : Prop where
  configured : backend.rotationSize = rotationSize
  size : backend.logFile.size = wholePages pageSize rotationSize
  mapped : ∃ bytes, backend.logFile.buffer = .mapped bytes
  current : Holds backend.logFile.size backend.logFile.buffer.bytes backend.logFile.appends
    backend.logFile.writtenSize
  room : backend.logFile.writtenSize < backend.logFile.size
  closed : ∀ file ∈ backend.closedFiles, file.Whole
  entries : (backend.files.flatMap fun file => file.appends.map Record.bytes) = entries

section Steps

variable {pageSize rotationSize : Nat} {backend next : MemoryMappedFileBackend}
  {entries : List Bytes} {opening : Opening}

theorem wholePages_ge (h : FitsPages pageSize rotationSize) :
    4096 ≤ wholePages pageSize rotationSize :=
  calc 4096 ≤ pageSize := h.page
    _ = 1 * pageSize := (Nat.one_mul _).symm
    _ ≤ wholePages pageSize rotationSize := Nat.mul_le_mul_right _ (Nat.le_max_left _ _)

/-- A closed backend that opens a file has mapped its pages. -/
theorem openMemoryMappedFile_ok (fits : FitsPages pageSize rotationSize)
    (hrotation : backend.rotationSize = rotationSize) (closed : backend.logFile = {})
    (h : backend.openMemoryMappedFile pageSize opening = .ok next) :
    next = { backend with logFile := mapping pageSize rotationSize backend.resourceName } := by
  have hsize := adjustSizeToPageSize_eq fits
  have hlarge := wholePages_ge fits
  subst hrotation
  unfold openMemoryMappedFile at h
  rw [closed] at h
  cases opening with
  | mapped =>
    rw [SharedMemory.openNamed, hsize] at h
    exact (Except.ok.inj h).symm
  | refused =>
    rw [SharedMemory.openNamed, hsize] at h
    cases h
  | mapFailed =>
    rw [SharedMemory.openNamed, hsize, if_neg (by omega)] at h
    cases h

theorem rotate_ok (fits : FitsPages pageSize rotationSize)
    (hrotation : backend.rotationSize = rotationSize)
    (h : backend.rotate pageSize opening = .ok next) : next = backend.rotated pageSize := by
  subst hrotation
  have hnext := openMemoryMappedFile_ok fits (by rfl) (by rfl) h
  exact hnext

theorem Intact.whole (h : backend.Intact pageSize rotationSize entries) :
    ∀ file ∈ backend.files, file.Whole := by
  intro file hfile
  rcases List.mem_append.mp hfile with hclosed | hcurrent
  · exact h.closed file hclosed
  · obtain rfl := List.mem_singleton.mp hcurrent
    exact ⟨⟨_, h.current.packed⟩, h.current.behind_le, h.current.stored⟩

theorem Intact.rotated (fits : FitsPages pageSize rotationSize)
    (h : backend.Intact pageSize rotationSize entries) :
    (backend.rotated pageSize).Intact pageSize rotationSize entries where
  configured := h.configured
  size := by rw [← h.configured]; rfl
  mapped := ⟨_, rfl⟩
  current := holds_nil _ _
  room := by
    have hlarge := wholePages_ge fits
    rw [← h.configured] at hlarge
    exact Nat.lt_of_lt_of_le (Nat.zero_lt_succ 4095) hlarge
  closed := h.whole
  entries := by
    rw [← h.entries]
    exact List.flatMap_append.trans (List.append_nil _)

/-- An entry that ends in front of the end of the mapping is appended behind the others. -/
theorem Intact.append_ok (fits : FitsPages pageSize rotationSize)
    (h : backend.Intact pageSize rotationSize entries) {data : Bytes}
    (room : backend.logFile.writtenSize + data.length < backend.logFile.size) :
    backend.logFile.append data = .ok (backend.appended data).logFile := by
  obtain ⟨bytes, hmapped⟩ := h.mapped
  have haddressed := fits.addressed
  have hsize := h.size
  rw [SharedMemory.append, if_neg (by omega), Nat.mod_eq_of_lt h.room, SharedMemory.write, hmapped]
  dsimp only
  rw [Nat.mod_eq_of_lt (by omega), appended, hmapped]
  rfl

theorem Intact.appended (h : backend.Intact pageSize rotationSize entries) {data : Bytes}
    (room : backend.logFile.writtenSize + data.length < backend.logFile.size) :
    (backend.appended data).Intact pageSize rotationSize (entries ++ [data]) where
  configured := h.configured
  size := h.size
  mapped := ⟨_, rfl⟩
  current := h.current.snoc (Nat.le_of_lt room)
  room := room
  closed := h.closed
  entries := by
    rw [← h.entries]
    simp [files, MemoryMappedFileBackend.appended, SharedMemory.file]

/-- The empty mapping has room for each entry. -/
theorem rotated_room (fits : FitsPages pageSize rotationSize)
    (h : backend.Intact pageSize rotationSize entries) (logged : Logged) :
    (backend.rotated pageSize).logFile.writtenSize + logged.entryAsString.length <
      (backend.rotated pageSize).logFile.size := by
  have hlarge := wholePages_ge fits
  have hlength := (entryAsString_length logged).2
  rw [(h.rotated fits).size]
  change 0 + logged.entryAsString.length < _
  omega

/-- `process` rotates if the entry would reach the end of the mapping, and then appends. -/
theorem Intact.process_eq (fits : FitsPages pageSize rotationSize)
    (h : backend.Intact pageSize rotationSize entries) (logged : Logged) :
    process pageSize backend logged =
      if backend.logFile.size ≤ backend.logFile.writtenSize + logged.entryAsString.length then
        (backend.rotate pageSize logged.opening).map fun next =>
          next.appended logged.entryAsString
      else .ok (backend.appended logged.entryAsString) := by
  have hroom := h.room
  have hsize := h.size
  have haddressed := fits.addressed
  have hlength := (entryAsString_length logged).2
  unfold process
  dsimp only
  rw [Nat.mod_eq_of_lt (by omega)]
  split
  · cases hrotate : backend.rotate pageSize logged.opening with
    | error fault => rfl
    | ok next =>
      obtain rfl := rotate_ok fits h.configured hrotate
      have happend := (h.rotated fits).append_ok fits (rotated_room fits h logged)
      change ((backend.rotated pageSize).logFile.append logged.entryAsString >>= _) = _
      rw [happend]
      rfl
  · rename_i hinside
    change (backend.logFile.append logged.entryAsString >>= _) = _
    rw [h.append_ok fits (Nat.not_le.mp hinside)]
    rfl

/-- An entry that is processed is behind the others, in the open file or in a new one. -/
theorem Intact.process_ok (fits : FitsPages pageSize rotationSize)
    (h : backend.Intact pageSize rotationSize entries) {logged : Logged}
    (hstep : process pageSize backend logged = .ok next) :
    next.Intact pageSize rotationSize (entries ++ [logged.entryAsString]) ∧
      (next = backend.appended logged.entryAsString ∨
        next = (backend.rotated pageSize).appended logged.entryAsString) := by
  rw [h.process_eq fits] at hstep
  split at hstep
  · obtain ⟨rotated, hrotate, rfl⟩ := map_eq_ok.mp hstep
    obtain rfl := rotate_ok fits h.configured hrotate
    exact ⟨(h.rotated fits).appended (rotated_room fits h logged), .inr rfl⟩
  · rename_i hinside
    cases hstep
    exact ⟨h.appended (Nat.not_le.mp hinside), .inl rfl⟩

/-- A call of `process` fails only where the file of a rotation is not opened. -/
theorem Intact.process_error (fits : FitsPages pageSize rotationSize)
    (h : backend.Intact pageSize rotationSize entries) {logged : Logged} {fault : LogFault}
    (hstep : process pageSize backend logged = .error fault) :
    backend.rotate pageSize logged.opening = .error fault := by
  rw [h.process_eq fits] at hstep
  split at hstep
  · cases hrotate : backend.rotate pageSize logged.opening with
    | error other =>
      rw [hrotate] at hstep
      cases hstep
      rfl
    | ok next =>
      rw [hrotate] at hstep
      cases hstep
  · cases hstep

end Steps

/-! ## The names of the files -/

/-- The parts of a resource name that has been split, if there is something to split. -/
def Stem (resourceName original : Bytes) : Prop :=
  original = resourceName ∨ ∃ rest, resourceName = original ++ dot :: rest

/-- The name of the opening with this number, the first one having number 0. -/
def nameAt (resourceName original resourceExtension : Bytes) : Nat → Bytes
  | 0 => resourceName
  | i + 1 => rotatedName original resourceExtension (UInt32.ofNat (i + 2))

theorem natText_injective {m n : Nat} (h : natText m = natText n) : m = n := by
  rw [← digitsValue_natText m, ← digitsValue_natText n, h]

theorem resourceName_ne_rotatedName {resourceName original : Bytes}
    (stem : Stem resourceName original) (extension : Bytes) (rotationId : UInt32) :
    resourceName ≠ rotatedName original extension rotationId := by
  intro hsame
  rcases stem with rfl | ⟨rest, rfl⟩
  · have hlength := congrArg List.length hsame
    simp [rotatedName, ascii] at hlength
  · rw [rotatedName, List.append_assoc, List.append_assoc] at hsame
    have hback := List.append_cancel_left hsame
    cases hback

theorem rotatedName_injective {original extension : Bytes} {first second : UInt32}
    (h : rotatedName original extension first = rotatedName original extension second) :
    first = second :=
  UInt32.toNat_inj.mp (natText_injective
    (List.append_cancel_left (List.append_cancel_right h)))

/-- The names of the openings differ until the rotation id has wrapped around. -/
theorem nameAt_injective {resourceName original : Bytes} (stem : Stem resourceName original)
    (extension : Bytes) {i j : Nat} (order : i < j) (bound : j ≤ 2 ^ 32) :
    nameAt resourceName original extension i ≠ nameAt resourceName original extension j := by
  obtain ⟨j, rfl⟩ := Nat.exists_eq_succ_of_ne_zero (Nat.ne_zero_of_lt order)
  cases i with
  | zero => exact resourceName_ne_rotatedName stem extension _
  | succ i =>
    intro hsame
    have hids := congrArg UInt32.toNat (rotatedName_injective hsame)
    rw [UInt32.toNat_ofNat', UInt32.toNat_ofNat'] at hids
    omega

/-- The rotation id counts the openings. -/
structure Named (resourceName original : Bytes) (backend : MemoryMappedFileBackend) : Prop where
  stem : backend.originalResourceName = original
  id : backend.rotationId = UInt32.ofNat backend.files.length
  names : backend.files.map LogFile.name = (List.range backend.files.length).map
    (nameAt resourceName original backend.resourceExtension)

section Names

variable {pageSize : Nat} {resourceName original : Bytes} {backend : MemoryMappedFileBackend}

theorem Named.rotated (h : Named resourceName original backend) (pageSize : Nat) :
    Named resourceName original (backend.rotated pageSize) := by
  have hlength : (backend.rotated pageSize).files.length = backend.files.length + 1 :=
    List.length_append
  have hid : backend.rotationId + 1 = UInt32.ofNat (backend.files.length + 1) := by
    rw [UInt32.ofNat_add, ← h.id]
    rfl
  have hopenings : backend.files.length = backend.closedFiles.length + 1 := List.length_append
  refine ⟨h.stem, ?_, ?_⟩
  · rw [hlength]
    exact hid
  · have hname : nameAt resourceName original backend.resourceExtension backend.files.length =
        (backend.rotated pageSize).logFile.file.name := by
      rw [hopenings] at hid ⊢
      rw [nameAt, ← h.stem, ← hid]
      rfl
    rw [hlength, List.range_succ, List.map_append]
    change (backend.files ++ [(backend.rotated pageSize).logFile.file]).map LogFile.name =
      (List.range backend.files.length).map
        (nameAt resourceName original backend.resourceExtension) ++
      [nameAt resourceName original backend.resourceExtension backend.files.length]
    rw [← h.names, hname, List.map_append]
    rfl

theorem Named.appended (h : Named resourceName original backend) (data : Bytes) :
    Named resourceName original (backend.appended data) := by
  have hlength : (backend.appended data).files.length = backend.files.length := by
    simp [files, MemoryMappedFileBackend.appended]
  have hnames :
      (backend.appended data).files.map LogFile.name = backend.files.map LogFile.name := by
    simp [files, MemoryMappedFileBackend.appended, SharedMemory.file]
  refine ⟨h.stem, ?_, ?_⟩
  · rw [hlength]
    exact h.id
  · rw [hlength, hnames]
    exact h.names

theorem Named.nodup (stem : Stem resourceName original) (h : Named resourceName original backend)
    (bound : backend.files.length ≤ 2 ^ 32 + 1) : (backend.files.map LogFile.name).Nodup := by
  rw [h.names]
  refine List.pairwise_map.mpr (List.pairwise_lt_range.imp_of_mem fun hi hj horder => ?_)
  have hlast := List.mem_range.mp hj
  exact nameAt_injective stem _ horder (by omega)

theorem splitResourceName_ok {next : MemoryMappedFileBackend}
    (h : backend.splitResourceName = .ok next) :
    ∃ original extension, Stem backend.resourceName original ∧
      next = { backend with
        originalResourceName := original, resourceExtension := extension } := by
  unfold splitResourceName at h
  split at h
  · rename_i hdot
    obtain ⟨front, back, hname, hfront⟩ := List.eq_append_cons_of_mem hdot
    have hpositive : 0 < (front ++ dot :: back).length := by simp
    rw [hname] at h
    simp only [split, if_pos hpositive, splitFrom_append _ hfront, List.getElem?_cons_zero,
      List.getElem?_cons_succ] at h
    cases hextension : (splitFrom dot [] back)[0]? with
    | none =>
      rw [hextension] at h
      cases h
    | some extension =>
      rw [hextension] at h
      refine ⟨front, extension, .inr ⟨back, hname⟩, ?_⟩
      rw [hname]
      exact (Except.ok.inj h).symm
  · cases h
    exact ⟨_, _, .inl rfl, rfl⟩

end Names

section Runs

variable {pageSize rotationSize : Nat} {resourceName : Bytes} {opening : Opening}
  {backend next : MemoryMappedFileBackend}

theorem openBackend_ok (fits : FitsPages pageSize rotationSize)
    (h : openBackend { rotationSize := rotationSize, resourceName := resourceName } pageSize
      opening = .ok backend) :
    backend.Intact pageSize rotationSize [] ∧
      ∃ original, Stem resourceName original ∧ Named resourceName original backend := by
  obtain ⟨named, hsplit, hopen⟩ := bind_eq_ok.mp h
  obtain ⟨original, extension, hstem, rfl⟩ := splitResourceName_ok hsplit
  obtain rfl := openMemoryMappedFile_ok fits (by rfl) (by rfl) hopen
  have hlarge := wholePages_ge fits
  have hempty : Intact pageSize rotationSize
      { rotationSize := rotationSize
        resourceName := resourceName
        originalResourceName := original
        resourceExtension := extension
        logFile := mapping pageSize rotationSize resourceName } [] :=
    { configured := rfl
      size := rfl
      mapped := ⟨_, rfl⟩
      current := holds_nil _ _
      room := Nat.lt_of_lt_of_le (Nat.zero_lt_succ 4095) hlarge
      closed := fun file hfile => by cases hfile
      entries := rfl }
  exact ⟨hempty, original, hstem, rfl, rfl, rfl⟩

theorem process_run (fits : FitsPages pageSize rotationSize) {original : Bytes}
    (entries : List Logged) (h : backend.Intact pageSize rotationSize [])
    (named : Named resourceName original backend)
    (hrun : entries.foldlM (process pageSize) backend = .ok next) :
    next.Intact pageSize rotationSize (entries.map Logged.entryAsString) ∧
      Named resourceName original next := by
  refine foldlM_induction (fun done reached =>
    reached.Intact pageSize rotationSize (done.map Logged.entryAsString) ∧
      Named resourceName original reached) ⟨h, named⟩ ?_ hrun
  rintro done logged reached next ⟨hreached, hnamed⟩ hstep
  obtain ⟨hintact, hnext⟩ := hreached.process_ok fits hstep
  refine ⟨?_, ?_⟩
  · rw [List.map_append]
    exact hintact
  · rcases hnext with rfl | rfl
    · exact hnamed.appended _
    · exact (hnamed.rotated pageSize).appended _

end Runs

/-- All entries are in the files, one behind the other. Up to the wrap of the rotation id each
opening has a name of its own, and a call of `process` fails only where a file is not opened. -/
structure Contained (pageSize : Nat) (backend : MemoryMappedFileBackend) (entries : List Bytes) :
    Prop where
  whole : ∀ file ∈ backend.files, file.Whole
  entries : (backend.files.flatMap fun file => file.appends.map Record.bytes) = entries
  names : backend.files.length ≤ 2 ^ 32 + 1 → (backend.files.map LogFile.name).Nodup
  appends : ∀ logged fault, process pageSize backend logged = .error fault →
    backend.rotate pageSize logged.opening = .error fault

/-- Each append stays in its file, for every page size, rotation size and sequence of entries. -/
theorem appends_contained (pageSize rotationSize : Nat) (resourceName : Bytes) (opening : Opening)
    (entries : List Logged) (backend : MemoryMappedFileBackend)
    (fits : FitsPages pageSize rotationSize)
    (h : runLog pageSize rotationSize resourceName opening entries = .ok backend) :
    backend.Contained pageSize (entries.map Logged.entryAsString) := by
  obtain ⟨opened, hopen, hrun⟩ := bind_eq_ok.mp h
  obtain ⟨hopened, original, hstem, hnamed⟩ := openBackend_ok fits hopen
  obtain ⟨hintact, hnames⟩ := process_run fits entries hopened hnamed hrun
  exact
    { whole := hintact.whole
      entries := hintact.entries
      names := hnames.nodup hstem
      appends := fun logged fault => hintact.process_error fits }

/-- An entry that fills more than half a page. -/
def longEntry : Logged where
  entry := ⟨.info, ascii "Logger", List.replicate 2000 65⟩
  utcDatetime := ascii "T"
  opening := .mapped

theorem fitsPages_onePage : FitsPages 4096 0 := ⟨by decide, by decide, by decide⟩

/-- Three such entries, and no rotation size. -/
theorem appends_contained_longEntries :
    ∃ backend, runLog 4096 0 (ascii "log.txt") .mapped [longEntry, longEntry, longEntry] =
        .ok backend ∧
      backend.Contained 4096 ([longEntry, longEntry, longEntry].map Logged.entryAsString) := by
  obtain ⟨backend, hrun⟩ : ∃ backend, runLog 4096 0 (ascii "log.txt") .mapped
      [longEntry, longEntry, longEntry] = .ok backend := by
    cases hrun : runLog 4096 0 (ascii "log.txt") .mapped [longEntry, longEntry, longEntry] with
    | ok backend => exact ⟨backend, rfl⟩
    | error fault =>
      have hok : (runLog 4096 0 (ascii "log.txt") .mapped
          [longEntry, longEntry, longEntry]).isOk = true := by decide +kernel
      rw [hrun] at hok
      cases hok
  exact ⟨backend, hrun, appends_contained 4096 0 (ascii "log.txt") .mapped _ backend
    fitsPages_onePage hrun⟩

/-- The pages of a rotation size of `2 ^ 64 - 1` wrap around to none. -/
theorem adjustSizeToPageSize_wraps : adjustSizeToPageSize (2 ^ 62) (2 ^ 64 - 1) = 0 := by
  decide +kernel

/-- `mmap` fails for an empty mapping, and the file counts as open. -/
theorem openMemoryMappedFile_wraps (backend : MemoryMappedFileBackend)
    (closed : backend.logFile = {}) (configured : backend.rotationSize = 2 ^ 64 - 1) :
    backend.openMemoryMappedFile (2 ^ 62) .mapFailed =
      .ok { backend with logFile := { buffer := .failed, name := backend.resourceName } } := by
  rw [openMemoryMappedFile, closed, configured, SharedMemory.openNamed, adjustSizeToPageSize_wraps,
    if_pos rfl]
  rfl

/-- The backend behind the opening of such a file. -/
def withoutPages : MemoryMappedFileBackend where
  rotationSize := 2 ^ 64 - 1
  resourceName := ascii "log"
  originalResourceName := ascii "log"
  logFile := { buffer := .failed, name := ascii "log" }

theorem runLog_withoutPages :
    runLog (2 ^ 62) (2 ^ 64 - 1) (ascii "log") .mapFailed [] = .ok withoutPages := by
  have hdot : dot ∉ ascii "log" := by decide
  have hopen := openMemoryMappedFile_wraps
    { rotationSize := 2 ^ 64 - 1, resourceName := ascii "log", originalResourceName := ascii "log" }
    rfl rfl
  simp only [runLog, openBackend, splitResourceName, if_neg hdot]
  change (openMemoryMappedFile
    { rotationSize := 2 ^ 64 - 1, resourceName := ascii "log", originalResourceName := ascii "log" }
    (2 ^ 62) .mapFailed >>= _) = _
  rw [hopen]
  rfl

theorem rotate_withoutPages :
    ∃ next, withoutPages.rotate (2 ^ 62) .mapFailed = .ok next ∧ next.logFile.size = 0 := by
  unfold rotate
  exact ⟨_, openMemoryMappedFile_wraps _ rfl rfl, rfl⟩

/-- The file of the rotation counts as open, and the append divides by zero. -/
theorem process_withoutPages (logged : Logged) (failed : logged.opening = .mapFailed) :
    process (2 ^ 62) withoutPages logged = .error .divisionByZero := by
  obtain ⟨next, hrotate, hsize⟩ := rotate_withoutPages
  have hfull (n : Nat) : withoutPages.logFile.size ≤ n := Nat.zero_le n
  unfold process
  dsimp only
  rw [if_pos (hfull _), failed, hrotate]
  change (next.logFile.append logged.entryAsString >>= _) = _
  rw [SharedMemory.append, if_pos hsize]
  rfl

/-- With four pages of `2 ^ 62` bytes, which an `int` counts, the first entry is not appended: the
mapping has no page, and the offset is a remainder by 0. -/
theorem appends_not_contained :
    ¬ ∀ (pageSize rotationSize : Nat) (resourceName : Bytes) (opening : Opening)
      (entries : List Logged) (backend : MemoryMappedFileBackend),
      4096 ≤ pageSize → pageSize < 2 ^ 64 → rotationSize < 2 ^ 64 →
      pagesOf pageSize rotationSize < 2 ^ 31 →
      runLog pageSize rotationSize resourceName opening entries = .ok backend →
      backend.Contained pageSize (entries.map Logged.entryAsString) := by
  intro h
  have hcontained := h (2 ^ 62) (2 ^ 64 - 1) (ascii "log") .mapFailed [] withoutPages
    (by decide) (by decide) (by decide) (by decide) runLog_withoutPages
  have hfault := process_withoutPages ⟨⟨.info, [], []⟩, [], .mapFailed⟩ rfl
  obtain ⟨next, hrotate, -⟩ := rotate_withoutPages
  rw [hcontained.appends _ _ hfault] at hrotate
  cases hrotate

end MemoryMappedFileBackend

end LiteExchange.Core
