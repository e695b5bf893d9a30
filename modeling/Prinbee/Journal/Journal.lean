import Prinbee.Journal.EventFile

/-!
# The journal

`journal.cpp`: events are appended to the current file of a journal and their status is changed in
place.  Two maps, by request identifier and by time, say where the live events are.  A
`journal::file` object stays open as long as a location refers to it; `f_event_files` holds weak
pointers only, so a file is closed, and truncated, with its last event.  When no file has room for
a new event, the files are read again and their dead events are overwritten.

The calls return what the C++ functions return, or the exception that they throw, with the state
they leave.

## Main definitions

* `Location`, `JournalFile`, `JournalOptions`, `Journal` — the data.
* `Journal.addEvent`, `Journal.updateEventStatus`, `Journal.loadEventLocations`,
  `Journal.setMaximumNumberOfFiles`, `Journal.setMaximumFileSize`.
* `Journal.readData` — `location::read_data()`.
* `Journal.construct`, `Journal.close` — the constructor and the destructor.
-/

namespace Prinbee

open UInt512 (ofBytes toBytes)

/-- `file_management_t`. -/
inductive FileManagement
  | keep
  | truncate
  | delete
  deriving DecidableEq, Repr

/-- The options of a journal, with the limits that the setters and `load_configuration()` keep. -/
structure JournalOptions where
  compressWhenFull : Bool
  fileManagement : FileManagement
  maximumNumberOfFiles : ℕ
  maximumFileSize : ℕ
  maximumEvents : ℕ
  inlineAttachmentSizeThreshold : ℕ
  numberOfFiles_mem : 2 ≤ maximumNumberOfFiles ∧ maximumNumberOfFiles ≤ 255
  fileSize_mem : 64 * 1024 ≤ maximumFileSize ∧ maximumFileSize ≤ 128 * 1024 * 1024
  events_mem : 100 ≤ maximumEvents ∧ maximumEvents ≤ 100000
  threshold_mem : 256 ≤ inlineAttachmentSizeThreshold ∧ inlineAttachmentSizeThreshold ≤ 16 * 1024

/-- `in_event`; `add_attachment()` accepts at most 255 attachments. -/
structure InEvent where
  requestId : Bytes
  attachments : List Bytes
  count_le : attachments.length ≤ 255

/-- `journal::location`; `file` is its `file::pointer_t`. -/
structure Location where
  file : ℕ
  requestId : Bytes
  eventTime : ℤ
  status : Status
  fileIndex : ℕ
  attachmentCount : ℕ
  offset : ℕ
  size : ℕ
  deriving DecidableEq, Repr

/-- `journal::file`; its name has the index of the file. -/
structure JournalFile where
  index : ℕ
  eventCount : ℕ := 0
  nextAppend : ℕ := 0
  deriving DecidableEq, Repr, Inhabited

/-- The files of the large attachments and the counter that numbers them. -/
structure ExternalFiles where
  counter : ℕ
  content : ℕ → Option Bytes

/-- `journal`, and the files of its directory.  `files` are the `journal::file` objects made so
far: a pointer is a position in this list.  The two maps are lists of locations; each location has
its keys. -/
structure Journal where
  options : JournalOptions
  canBeCompressed : Bool := false
  currentFileIndex : ℕ := 0
  files : List JournalFile := []
  eventFiles : List (Option ℕ)
  eventLocations : List Location := []
  timebasedReplay : List Location := []
  disk : ℕ → Option Bytes
  external : ExternalFiles

namespace Journal

/-! ### The file objects -/

/-- The object of a pointer. -/
def file (s : Journal) (p : ℕ) : JournalFile := s.files.getD p default

/-- Change an object. -/
def setFile (s : Journal) (p : ℕ) (f : JournalFile) : Journal := { s with files := s.files.set p f }

/-- The bytes of the file. -/
def content (s : Journal) (p : ℕ) : Bytes := (s.disk (s.file p).index).getD []

/-- Change the bytes of the file; a file that was unlinked is not in the directory any more. -/
def modify (s : Journal) (p : ℕ) (f : Bytes → Bytes) : Journal :=
  { s with disk := Function.update s.disk (s.file p).index ((s.disk (s.file p).index).map f) }

/-- `file::seekp()` and `file::write()`. -/
def write (s : Journal) (p offset : ℕ) (data : Bytes) : Journal :=
  s.modify p fun b => writeAt b offset data

/-- A location refers to the object. -/
def isOpen (s : Journal) (p : ℕ) : Bool :=
  s.eventLocations.any (·.file = p) || s.timebasedReplay.any (·.file = p)

/-- `file::truncate()`. -/
def truncate (s : Journal) (p : ℕ) : Journal :=
  let f := s.file p
  let length := (s.content p).length
  let size := max 8 f.nextAppend
  match s.options.fileManagement with
  | .keep =>
    if 0 < f.nextAppend ∧ f.nextAppend < length then
      s.write p f.nextAppend (List.replicate (min 2 (length - f.nextAppend)) 0)
    else s
  | .truncate => s.modify p (resizeFile · size)
  | .delete =>
    if size = 8 then
      { s with disk := Function.update s.disk f.index none }.setFile p { f with nextAppend := 0 }
    else s.modify p (resizeFile · size)

/-- A `file::pointer_t` goes away; with the last one the destructor calls `truncate()`. -/
def drop (s : Journal) (p : ℕ) : Journal := if s.isOpen p then s else s.truncate p

/-- The locations go away. -/
def dropAll (s : Journal) (ls : List Location) : Journal := ls.foldl (fun s l => s.drop l.file) s

/-- `f_event_files[index].lock()`. -/
def lock (s : Journal) (index : ℕ) : Option ℕ := (s.eventFiles.getD index none).filter s.isOpen

/-- `get_event_file()` with an index in range. -/
def openFile (s : Journal) (index : ℕ) (create : Bool) : Option ℕ × Journal :=
  match s.lock index with
  | some p => (some p, s)
  | none =>
    let s := if create ∧ s.disk index = none then
        { s with disk := Function.update s.disk index (some []) } else s
    match s.disk index with
    | none => (none, s)
    | some _ =>
      (some s.files.length,
        { s with
          files := s.files ++ [{ index }]
          eventFiles := s.eventFiles.set index (some s.files.length) })

/-- The text of the exception; the maximum is an 8-bit integer and is written as a character. -/
def indexTooLarge (index maximum : ℕ) : String :=
  "index too large in get_event_file() (" ++ toString index ++ " > " ++
    textOf [UInt8.ofNat maximum] ++ ")."

/-- `get_event_file()`. -/
def getEventFile (s : Journal) (index : ℕ) (create : Bool) : Except Failure (Option ℕ) × Journal :=
  if s.options.maximumNumberOfFiles ≤ index then
    (.error (.thrown .invalidParameter (indexTooLarge index s.options.maximumNumberOfFiles)), s)
  else
    let (p, s) := s.openFile index create
    (.ok p, s)

/-! ### The two maps -/

/-- `f_event_locations[request_id] = l` and `f_timebased_replay[event_time] = l`. -/
def insertLocation (s : Journal) (l : Location) : Journal :=
  let replaced := s.eventLocations.filter fun m => m.requestId = l.requestId
  let kept := s.eventLocations.filter fun m => m.requestId ≠ l.requestId
  let s := { s with eventLocations := kept ++ [l] }.dropAll replaced
  let replaced := s.timebasedReplay.filter fun m => m.eventTime = l.eventTime
  let kept := s.timebasedReplay.filter fun m => m.eventTime ≠ l.eventTime
  { s with timebasedReplay := kept ++ [l] }.dropAll replaced

/-! ### Reading the files -/

/-- Copy data down in the file, one buffer at a time. -/
def copyDown : ℕ → Bytes → ℕ → ℕ → ℕ → Bytes
  | 0, b, _, _, _ => b
  | fuel + 1, b, tellg, tellp, remaining =>
    if remaining = 0 then b
    else
      let n := min remaining (64 * 1024)
      copyDown fuel (writeAt b tellp (b.slice tellg n)) (tellg + n) (tellp + n) (remaining - n)

/-- Move the event at `offset` down to `tellp`: its header, the offsets of its attachments and its
request identifier were read before they are written, its data are copied. -/
def moveEvent (b : Bytes) (offset tellp : ℕ) : Bytes :=
  let prefixed := EventFile.prefixSize b offset
  let remaining := EventFile.size b offset - prefixed
  copyDown remaining (writeAt b tellp (b.slice offset prefixed)) (offset + prefixed)
    (tellp + prefixed) remaining

/-- The location of the event at `offset`, once it is at `target`. -/
def locationAt (b : Bytes) (p index offset target : ℕ) : Location where
  file := p
  requestId := EventFile.requestId b offset
  eventTime := EventFile.time b offset
  status := (Status.ofCode (EventFile.status b offset)).getD .ready
  fileIndex := index
  attachmentCount := EventFile.attachmentCount b offset
  offset := target
  size := EventFile.size b offset

/-- An event was found or written in the file; the next one goes at `offset`. -/
def countEvent (s : Journal) (p offset : ℕ) : Journal :=
  s.setFile p { s.file p with eventCount := (s.file p).eventCount + 1, nextAppend := offset }

/-- The loop of `load_event_locations()` over the events of a file.  `tellp` is set once a dead
event was found: where the next event can be moved. -/
def loadEvents (now : ℤ) (compress : Bool) (index p : ℕ) :
    ℕ → Journal → ℕ → Option ℕ → Journal
  | 0, s, _, _ => s
  | fuel + 1, s, offset, tellp =>
    let b := s.content p
    let size := EventFile.size b offset
    if EventFile.Valid now b offset then
      if EventFile.Live b offset then
        match if compress then tellp else none with
        | some target =>
          let s := s.insertLocation (locationAt b p index offset target)
          let s := s.modify p fun b => moveEvent b offset target
          loadEvents now compress index p fuel (s.countEvent p (target + size)) (offset + size)
            (some (target + size))
        | none =>
          let s := s.insertLocation (locationAt b p index offset offset)
          loadEvents now compress index p fuel (s.countEvent p (offset + size)) (offset + size)
            tellp
      else
        loadEvents now compress index p fuel { s with canBeCompressed := true } (offset + size)
          (some (tellp.getD offset))
    else s

/-- `load_event_locations()` on one file. -/
def loadFile (now : ℤ) (compress : Bool) (s : Journal) (index : ℕ) : Journal :=
  match s.openFile index false with
  | (none, s) => s
  | (some p, s) =>
    let s := s.setFile p { s.file p with eventCount := 0 }
    let b := s.content p
    let s := if EventFile.HasHeader b then loadEvents now compress index p b.length s 8 none else s
    s.drop p

/-- `load_event_locations()`: only the map by identifier is cleared. -/
def loadEventLocations (s : Journal) (now : ℤ) (compress : Bool) : Journal :=
  let cleared := s.eventLocations
  let s := { s with canBeCompressed := false, eventLocations := [] }
  (List.range s.options.maximumNumberOfFiles).foldl (loadFile now compress) (s.dropAll cleared)

/-! ### Adding an event -/

/-- Where the attachments of an event go: the large ones in files of their own, the others after
the request identifier. -/
def placeAttachments (threshold : ℕ) : List Bytes → ℕ → ExternalFiles → List ℕ × ExternalFiles
  | [], _, external => ([], external)
  | a :: as, size, external =>
    if threshold ≤ a.length then
      let identifier := (external.counter + 1) % 2 ^ 31
      let (offsets, external) := placeAttachments threshold as size
        { counter := external.counter + 1
          content := Function.update external.content identifier (some a) }
      ((identifier ||| 2 ^ 31) :: offsets, external)
    else
      let (offsets, external) := placeAttachments threshold as (size + a.length) external
      (size :: offsets, external)

/-- The attachments that are saved inline. -/
def inlineData (threshold : ℕ) (event : InEvent) : Bytes :=
  (event.attachments.filter (·.length < threshold)).flatten

/-- The size of an event before its inline attachments. -/
def baseSize (event : InEvent) : ℕ := 32 + 4 * event.attachments.length + event.requestId.length

/-- The size of an event in a file. -/
def eventSize (s : Journal) (event : InEvent) : ℕ :=
  baseSize event + (inlineData s.options.inlineAttachmentSizeThreshold event).length

/-- The bytes of a new event. -/
def eventBytes (event : InEvent) (size : ℕ) (time : ℤ) (offsets : List ℕ) (data : Bytes) : Bytes :=
  eventHeader .ready event.requestId.length size time event.attachments.length ++
    (offsets.flatMap (toBytes 4) ++ (event.requestId ++ data))

/-- The location that `write_new_event()` fills in. -/
def newLocation (s : Journal) (p : ℕ) (event : InEvent) (time : ℤ) : Location where
  file := p
  requestId := event.requestId
  eventTime := time
  status := .ready
  fileIndex := s.currentFileIndex
  attachmentCount := event.attachments.length
  offset := (s.file p).nextAppend
  size := s.eventSize event

/-- The header of a file that has none yet. -/
def writeJournalHeader (s : Journal) (p : ℕ) : Journal :=
  if (s.file p).nextAppend = 0 then
    (s.write p 0 journalHeader).setFile p { s.file p with nextAppend := 8 }
  else s

/-- `write_new_event()`, and the end of `add_event()`. -/
def writeNewEvent (s : Journal) (p : ℕ) (event : InEvent) (time : ℤ) : Journal :=
  let threshold := s.options.inlineAttachmentSizeThreshold
  let s := s.writeJournalHeader p
  let l := s.newLocation p event time
  let (offsets, external) := placeAttachments threshold event.attachments (baseSize event) s.external
  let s := { s with external }.write p l.offset
    (eventBytes event l.size time offsets (inlineData threshold event))
  (s.countEvent p (l.offset + l.size)).insertLocation l

/-- The file has room for an event. -/
def hasRoom (s : Journal) (p size : ℕ) : Bool :=
  (s.file p).nextAppend + size < s.options.maximumFileSize ∧
    (s.file p).eventCount < s.options.maximumEvents

/-- Go to the next file. -/
def nextFile (s : Journal) : Journal :=
  { s with
    currentFileIndex :=
      if s.options.maximumNumberOfFiles ≤ s.currentFileIndex + 1 then 0
      else s.currentFileIndex + 1 }

/-- The loop of `add_event()` over the files; `none` when no file has room. -/
def tryFiles (event : InEvent) (time : ℤ) : ℕ → Journal → Except Failure (Option Bool) × Journal
  | 0, s => (.ok none, s)
  | count + 1, s =>
    match s.getEventFile s.currentFileIndex true with
    | (.error e, s) => (.error e, s)
    | (.ok none, s) => (.ok (some false), s)
    | (.ok (some p), s) =>
      if s.hasRoom p (s.eventSize event) then (.ok (some true), s.writeNewEvent p event time)
      else tryFiles event time count (s.nextFile.drop p)

/-- The loop that makes the time of an event unique. -/
def uniqueTime (replay : List Location) : ℕ → ℤ → ℤ
  | 0, time => time
  | fuel + 1, time =>
    if replay.any (·.eventTime = time) then uniqueTime replay fuel (time + 1) else time

/-- The time under which an event is saved. -/
def savedTime (s : Journal) (eventTime : ℤ) : ℤ :=
  uniqueTime s.timebasedReplay s.timebasedReplay.length eventTime

/-- `add_event()` refuses an event whose identifier is already there, empty or too long, or whose
time is in the future. -/
def refuses (s : Journal) (now : ℤ) (event : InEvent) (eventTime : ℤ) : Bool :=
  s.eventLocations.any (·.requestId = event.requestId) ||
    Timespec.isInTheFuture now eventTime ||
    event.requestId.isEmpty || 255 < event.requestId.length

/-- `add_event()`: when all the files are full they are compressed once. -/
def addEvent (s : Journal) (now : ℤ) (event : InEvent) (eventTime : ℤ) :
    Except Failure Bool × Journal :=
  if s.refuses now event eventTime then (.ok false, s)
  else
    let compress := s.options.compressWhenFull && s.canBeCompressed
    let time := s.savedTime eventTime
    match tryFiles event time s.options.maximumNumberOfFiles s with
    | (.error e, s) => (.error e, s)
    | (.ok (some r), s) => (.ok r, s)
    | (.ok none, s) =>
      if compress then
        let s := s.loadEventLocations now true
        match tryFiles event time s.options.maximumNumberOfFiles s with
        | (.error e, s) => (.error e, s)
        | (.ok r, s) => (.ok (r.getD false), s)
      else (.ok false, s)

/-! ### Changing the status of an event -/

/-- The location has a new status; it is the same location in the two maps. -/
def setStatus (s : Journal) (l : Location) (status : Status) : Journal :=
  let change := fun m : Location => if m = l then { l with status } else m
  { s with
    eventLocations := s.eventLocations.map change
    timebasedReplay := s.timebasedReplay.map change }

/-- `f_timebased_replay.erase()`, by the time of the event. -/
def eraseReplay (s : Journal) (l : Location) : Journal :=
  let replayed := s.timebasedReplay.filter fun m => m.eventTime = l.eventTime
  let kept := s.timebasedReplay.filter fun m => m.eventTime ≠ l.eventTime
  { s with canBeCompressed := true, timebasedReplay := kept }.dropAll replayed

/-- `f_event_locations.erase()`. -/
def eraseLocation (s : Journal) (requestId : Bytes) : Journal :=
  { s with eventLocations := s.eventLocations.filter fun m => m.requestId ≠ requestId }

/-- The file has one event less; with the last event of all the files it starts again. -/
def uncountEvent (s : Journal) (p : ℕ) : Journal :=
  s.setFile p { s.file p with
    eventCount := sub32 (s.file p).eventCount 1
    nextAppend := if s.eventLocations.isEmpty then 8 else (s.file p).nextAppend }

/-- `update_event_status()`. -/
def updateEventStatus (s : Journal) (requestId : Bytes) (status : Status) :
    Except Failure Bool × Journal :=
  match s.eventLocations.find? (·.requestId = requestId) with
  | none => (.ok false, s)
  | some l =>
    if l.status.mayBecome status then
      let s := s.write l.file (l.offset + 2) [status.code]
      if status.isLive then (.ok true, s.setStatus l status)
      else
        let s := ((s.eraseReplay l).eraseLocation requestId).uncountEvent l.file
        (.ok true, s.drop l.file)
    else (.ok false, s)

/-! ### Changing the limits -/

/-- The text of the exception. -/
def outOfRangeFiles (n : ℕ) : String :=
  "maximum number of files (" ++ toString n ++ ") is out of range: [2..255]"

/-- The text of the exception. -/
def stillInUse : String :=
  "it is not currently possible to reduce the maximum number of files when some of those over the "
    ++ "new limit are still in use."

/-- The files from `index` on hold no event. -/
def checkUnused : ℕ → ℕ → Journal → Except Failure Unit × Journal
  | 0, _, s => (.ok (), s)
  | count + 1, index, s =>
    if s.eventFiles.length ≤ index then (.ok (), s)
    else
      match s.getEventFile index false with
      | (.error e, s) => (.error e, s)
      | (.ok none, s) => checkUnused count (index + 1) s
      | (.ok (some p), s) =>
        if s.eventLocations.any (·.file = p) then
          (.error (.thrown .fileStillInUse stillInUse), s.drop p)
        else checkUnused count (index + 1) (s.drop p)

/-- `set_maximum_number_of_files()`; `f_current_file_index` does not change. -/
def setMaximumNumberOfFiles (s : Journal) (n : ℕ) : Except Failure Bool × Journal :=
  if h : 2 ≤ n ∧ n ≤ 255 then
    if s.options.maximumNumberOfFiles = n then (.ok true, s)
    else
      match checkUnused (s.options.maximumNumberOfFiles - n) n s with
      | (.error e, s) => (.error e, s)
      | (.ok (), s) =>
        (.ok true,
          { s with
            options := { s.options with maximumNumberOfFiles := n, numberOfFiles_mem := h }
            eventFiles := s.eventFiles.take n ++ List.replicate (n - s.eventFiles.length) none })
  else (.error (.thrown .outOfRange (outOfRangeFiles n)), s)

/-- `set_maximum_file_size()`. -/
def setMaximumFileSize (s : Journal) (n : ℕ) : Except Failure Bool × Journal :=
  (.ok true,
    { s with
      options := { s.options with
        maximumFileSize := max (64 * 1024) (min n (128 * 1024 * 1024))
        fileSize_mem := by omega } })

/-! ### Reading an event -/

/-- The attachments of an event, with the offsets of all of them. -/
def readAttachments (s : Journal) (l : Location) : List ℕ → List (Option Bytes)
  | [] => []
  | o :: os =>
    (if 2 ^ 31 ≤ o then s.external.content (o - 2 ^ 31)
      else
        let size := match os.find? (· < 2 ^ 31) with
          | some next => sub32 next o
          | none => sub32 l.size o
        some ((s.content l.file).slice (l.offset + o) size)) :: readAttachments s l os

/-- The offsets of the attachments. -/
def attachmentOffsets (s : Journal) (l : Location) : List ℕ :=
  (List.range l.attachmentCount).map fun i =>
    ofBytes ((s.content l.file).slice (l.offset + 32 + 4 * i) 4)

/-- `location::read_data()`: the attachments; `none` for a file that is not there. -/
def readData (s : Journal) (l : Location) : List (Option Bytes) :=
  s.readAttachments l (s.attachmentOffsets l)

/-! ### Opening and closing -/

/-- The constructor, in a directory that has these files. -/
def construct (options : JournalOptions) (disk : ℕ → Option Bytes) (external : ExternalFiles)
    (now : ℤ) : Journal :=
  loadEventLocations
    { options, eventFiles := List.replicate options.maximumNumberOfFiles none, disk, external }
    now false

/-- The destructor. -/
def close (s : Journal) : Journal :=
  { s with eventLocations := [], timebasedReplay := [] }.dropAll
    (s.eventLocations ++ s.timebasedReplay)

/-! ### What the operations on files leave alone -/

section Frame

variable (s : Journal) (p : ℕ)

theorem set_file_self : s.files.set p (s.file p) = s.files := by
  by_cases hp : p < s.files.length
  · rw [file, List.getD_eq_getElem _ _ hp, List.set_getElem_self]
  · exact List.set_eq_of_length_le (by omega)

/-- `truncate()` changes the object and its file only. -/
theorem truncate_eq : ∃ f d, f.index = (s.file p).index ∧ s.truncate p =
    { s with
      files := s.files.set p f
      disk := Function.update s.disk (s.file p).index d } := by
  have hmodify : ∀ g, ∃ f d, f.index = (s.file p).index ∧ s.modify p g = { s with
      files := s.files.set p f
      disk := Function.update s.disk (s.file p).index d } := fun g =>
    ⟨s.file p, _, rfl, by rw [set_file_self]; rfl⟩
  unfold truncate
  dsimp only
  split
  · split
    · exact hmodify _
    · exact ⟨s.file p, s.disk (s.file p).index, rfl, by
        rw [set_file_self, Function.update_eq_self]⟩
  · exact hmodify _
  · split
    · exact ⟨{ s.file p with nextAppend := 0 }, none, rfl, rfl⟩
    · exact hmodify _

theorem truncate_frame : ∃ files disk, files.length = s.files.length ∧
    s.truncate p = { s with files, disk } := by
  obtain ⟨f, d, -, h⟩ := s.truncate_eq p
  exact ⟨_, _, List.length_set .., h⟩

theorem drop_frame : ∃ files disk, files.length = s.files.length ∧
    s.drop p = { s with files, disk } := by
  unfold drop
  split
  · exact ⟨_, _, rfl, rfl⟩
  · exact s.truncate_frame p

theorem dropAll_frame (ls : List Location) : ∃ files disk, files.length = s.files.length ∧
    s.dropAll ls = { s with files, disk } := by
  induction ls generalizing s with
  | nil => exact ⟨_, _, rfl, rfl⟩
  | cons l ls ih =>
    obtain ⟨files, disk, hlen, h⟩ := s.drop_frame l.file
    obtain ⟨files', disk', hlen', h'⟩ := ih (s.drop l.file)
    refine ⟨files', disk', ?_, ?_⟩
    · rw [hlen', h]
      exact hlen
    · rw [dropAll, List.foldl_cons]
      rw [dropAll] at h'
      rw [h', h]

end Frame

@[simp] theorem isOpen_with (s : Journal) (files : List JournalFile) (disk : ℕ → Option Bytes) :
    isOpen { s with files, disk } = s.isOpen := rfl

theorem isOpen_iff {s : Journal} {p : ℕ} :
    s.isOpen p = true ↔
      (∃ l ∈ s.eventLocations, l.file = p) ∨ ∃ l ∈ s.timebasedReplay, l.file = p := by
  simp only [isOpen, Bool.or_eq_true, List.any_eq_true, decide_eq_true_eq]

/-- An object that a location of the index refers to is open. -/
theorem isOpen_of_mem {s : Journal} {l : Location} (h : l ∈ s.eventLocations) :
    s.isOpen l.file = true := isOpen_iff.2 (.inl ⟨l, h, rfl⟩)

theorem drop_of_isOpen {s : Journal} {p : ℕ} (h : s.isOpen p = true) : s.drop p = s := if_pos h

/-- The journal after a file object was made for a file that has these bytes. -/
def opened (s : Journal) (index : ℕ) (b : Bytes) : Journal :=
  { s with
    files := s.files ++ [{ index }]
    eventFiles := s.eventFiles.set index (some s.files.length)
    disk := Function.update s.disk index (some b) }

/-- What `get_event_file()` can do: the object is open, or there is no such file, or an object is
made for the file. -/
theorem openFile_cases (s : Journal) (index : ℕ) (create : Bool) :
    (∃ p, s.lock index = some p ∧ s.openFile index create = (some p, s)) ∨
    (s.lock index = none ∧ s.disk index = none ∧ create = false ∧
      s.openFile index create = (none, s)) ∨
    (s.lock index = none ∧ ∃ b,
      (s.disk index = some b ∨ s.disk index = none ∧ create = true ∧ b = []) ∧
      s.openFile index create = (some s.files.length, s.opened index b)) := by
  unfold openFile
  cases hlock : s.lock index with
  | some p => exact .inl ⟨p, rfl, rfl⟩
  | none =>
    right
    cases hdisk : s.disk index with
    | none =>
      cases create with
      | false => exact .inl ⟨rfl, rfl, rfl, by simp [hdisk]⟩
      | true =>
        refine .inr ⟨rfl, [], .inr ⟨rfl, rfl, rfl⟩, ?_⟩
        simp [opened]
    | some b =>
      refine .inr ⟨rfl, b, .inl rfl, ?_⟩
      have hself : Function.update s.disk index (some b) = s.disk := by
        rw [← hdisk, Function.update_eq_self]
      simp [hdisk, opened, hself]

/-- The two maps after a location was entered in them. -/
theorem insertLocation_frame (s : Journal) (l : Location) : ∃ files disk,
    files.length = s.files.length ∧ s.insertLocation l = { s with
      files, disk
      eventLocations := (s.eventLocations.filter fun m => m.requestId ≠ l.requestId) ++ [l]
      timebasedReplay := (s.timebasedReplay.filter fun m => m.eventTime ≠ l.eventTime) ++ [l] } := by
  unfold insertLocation
  dsimp only
  obtain ⟨files, disk, hlen, h⟩ := dropAll_frame { s with
    eventLocations := (s.eventLocations.filter fun m => m.requestId ≠ l.requestId) ++ [l] }
    (s.eventLocations.filter fun m => m.requestId = l.requestId)
  rw [h]
  obtain ⟨files', disk', hlen', h'⟩ := dropAll_frame { s with
    eventLocations := (s.eventLocations.filter fun m => m.requestId ≠ l.requestId) ++ [l]
    timebasedReplay := (s.timebasedReplay.filter fun m => m.eventTime ≠ l.eventTime) ++ [l]
    files, disk } (s.timebasedReplay.filter fun m => m.eventTime = l.eventTime)
  exact ⟨files', disk', hlen'.trans hlen, h'⟩

end Journal

end Prinbee
